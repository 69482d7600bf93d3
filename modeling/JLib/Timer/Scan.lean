import JLib.Timer.Order

/-!
# The scan of a level

`NextOccupied` is the circular first-fit over the slots of a level, and what the scan of level 0 in
`NextEventTick` yields with it: the first tick from the present on at which the wheel comes to a slot that holds a
timer. For a timer that was not stepped over that is its deadline, or the present if the deadline is past.
-/

namespace JLib.Timer
open LTS Impl Bits

variable {s : Queue} {q : Impl} {held : Spot → List Nat} {k : Nat} {t : Int}

/-- The armed timers of level 0. -/
def levelZero (q : Impl) : Finset Nat := (armed q).filter fun k => (q.entries k).level = some 0

/-- The timers of level 0 are those in its slots. -/
lemma Table.mem_levelZero (tb : Table q held) : k ∈ levelZero q ↔ ∃ r, k ∈ held (.cell (0, r)) := by
  unfold levelZero
  rw [Finset.mem_filter, tb.mem_armed]
  constructor
  · rintro ⟨⟨⟨l, r⟩, hk⟩, zero⟩
    have level := (tb.shape.cell hk).1
    rw [zero] at level
    cases level
    exact ⟨r, hk⟩
  · rintro ⟨r, hk⟩
    exact ⟨⟨_, hk⟩, (tb.shape.cell hk).1⟩

/-- The scan of level 0 yields the soonest event over the timers of the level. -/
lemma Table.levelZero_event (tb : Table q held) :
    (q.levelEvent 0 = none ∧ levelZero q = ∅) ∨
    ∃ k r, k ∈ held (.cell (0, r)) ∧ q.levelEvent 0 = some (nextAt 256 q.currentTick r) ∧
      ∀ k' r', k' ∈ held (.cell (0, r')) → nextAt 256 q.currentTick r ≤ nextAt 256 q.currentTick r' := by
  have occ : ∀ {r}, q.Occupied 0 r ↔ ∃ k, k ∈ held (.cell (0, r)) := by
    intro r
    rw [tb.shape.occ (0, r)]
    exact ⟨List.exists_mem_of_ne_nil _, fun ⟨_, hk⟩ => List.ne_nil_of_mem hk⟩
  rcases levelEvent_spec q 0 with ⟨e, none⟩ | ⟨r, lt, o, e, least⟩
  · refine .inl ⟨e, Finset.eq_empty_iff_forall_notMem.2 fun k hk => ?_⟩
    obtain ⟨r, hk⟩ := tb.mem_levelZero.1 hk
    exact none r (tb.shape.bounds hk).2 (occ.2 ⟨k, hk⟩)
  · obtain ⟨k, hk⟩ := occ.1 o
    refine .inr ⟨k, r, hk, e, fun k' r' hk' => ?_⟩
    exact least r' (tb.shape.bounds hk').2 (occ.2 ⟨k', hk'⟩)

/-- The first tick from the present on at which the wheel stands on a slot with a timer of level 0. -/
structure FirstVisit (q : Impl) (t : Int) : Prop where
  present : q.currentTick ≤ t
  visits : ∃ k ∈ levelZero q, t % 256 = (q.entries k).slot
  least : ∀ k ∈ levelZero q, ∀ t' ≥ q.currentTick, t' % 256 = (q.entries k).slot → t ≤ t'

/-- The least deadline of level 0, where a deadline that is past counts as the present. -/
structure LeastDeadline (q : Impl) (t : Int) : Prop where
  attained : ∃ k ∈ levelZero q, t = max q.currentTick (q.entries k).deadlineTick
  least : ∀ k ∈ levelZero q, t ≤ max q.currentTick (q.entries k).deadlineTick

/-- There is no event of level 0 when it has no timer. -/
lemma Table.levelZero_none (tb : Table q held) : q.levelEvent 0 = none ↔ levelZero q = ∅ := by
  rcases tb.levelZero_event with ⟨e, empty⟩ | ⟨k, r, hk, e, -⟩
  · simp only [e, empty]
  · constructor
    · intro none
      rw [e] at none
      cases none
    · intro empty
      have mem := tb.mem_levelZero.2 ⟨r, hk⟩
      rw [empty] at mem
      cases mem

/-- The event of level 0 is the first visit of a slot with a timer. -/
lemma Table.firstVisit (tb : Table q held) (e : q.levelEvent 0 = some t) : FirstVisit q t := by
  rcases tb.levelZero_event with ⟨none, -⟩ | ⟨k, r, hk, e', least⟩
  · rw [e] at none
    cases none
  rw [e] at e'
  cases e'
  have slot : ∀ {k r}, k ∈ held (.cell (0, r)) → (q.entries k).slot = r := fun hk => (tb.shape.cell hk).2
  have small : ∀ {k r}, k ∈ held (.cell (0, r)) → (r : Int) % 256 = r := by
    intro k r hk
    have lt := (tb.shape.bounds hk).2
    simp only at lt
    omega
  refine ⟨le_nextAt (by decide), ⟨k, tb.mem_levelZero.2 ⟨r, hk⟩, ?_⟩, fun k' hk' t' later on => ?_⟩
  · rw [nextAt_emod, small hk, slot hk]
  · obtain ⟨r', hk'⟩ := tb.mem_levelZero.1 hk'
    refine (least k' r' hk').trans ?_
    rw [slot hk'] at on
    unfold nextAt
    omega

/-- On a wheel whose timers come up in time it is the least deadline. -/
lemma Table.leastDeadline (tb : Table q held) (all : AllInTime q held) (e : q.levelEvent 0 = some t) :
    LeastDeadline q t := by
  have here : ∀ {k r}, k ∈ held (.cell (0, r)) →
      nextAt 256 q.currentTick r = max q.currentTick (q.entries k).deadlineTick := fun hk => all _ _ hk
  rcases tb.levelZero_event with ⟨none, -⟩ | ⟨k, r, hk, e', least⟩
  · rw [e] at none
    cases none
  rw [e] at e'
  cases e'
  refine ⟨⟨k, tb.mem_levelZero.2 ⟨r, hk⟩, here hk⟩, fun k' hk' => ?_⟩
  obtain ⟨r', hk'⟩ := tb.mem_levelZero.1 hk'
  rw [← here hk']
  exact least k' r' hk'

/-- Of every bitmap and every slot below `kSlots`, `NextOccupied` returns `kSlots` exactly if no slot of the level is
set, and otherwise the set slot that comes first in the turn from there. The scan of level 0 in a reachable queue
yields nothing exactly if the level has no armed timer, and otherwise the first tick at which the wheel stands on a
slot of one; as long as no `Arm` has stepped over a timer, that is the least deadline, counted from the present. -/
theorem next_occupied_first :
    (∀ (q : Impl) (l start : Nat), start < kSlots →
      (q.NextOccupied l start = kSlots ↔ ∀ s < kSlots, ¬q.Occupied l s) ∧
      ((∃ s < kSlots, q.Occupied l s) → q.First l start (q.NextOccupied l start))) ∧
    (∀ s, Reaches Step {} s →
      (s.impl.levelEvent 0 = none ↔ levelZero s.impl = ∅) ∧
      ∀ t, s.impl.levelEvent 0 = some t → FirstVisit s.impl t) ∧
    ∀ s, Runs Step NoStepOver {} s → ∀ t, s.impl.levelEvent 0 = some t → LeastDeadline s.impl t := by
  refine ⟨fun q l start lt => ?_, fun s rn => ?_, fun s rn t e => ?_⟩
  · rcases NextOccupied_spec (q := q) (l := l) lt with ⟨e, none⟩ | ⟨less, occ, least⟩
    · refine ⟨⟨fun _ => none, fun _ => e⟩, fun ⟨s, lt, occ⟩ => ?_⟩
      exact absurd occ (none s lt)
    · refine ⟨⟨fun e => ?_, fun none => ?_⟩, fun _ => ⟨less, occ, least⟩⟩
      · rw [e] at less
        exact absurd less (Nat.lt_irrefl _)
      · exact absurd occ (none _ less)
  · obtain ⟨⟨held, tb⟩, -, -⟩ := reaches_table rn
    exact ⟨tb.levelZero_none, fun t e => tb.firstVisit e⟩
  · obtain ⟨held, is⟩ := InSight.reached rn
    exact is.table.leastDeadline is.inTime e

/-- Slots 3 and 200 looked for from slot 100 and from slot 201; and a timer armed for tick 5 on a new wheel. -/
theorem next_occupied_first_two :
    (∃ q : Impl, q = (({} : Impl).MarkOccupied 0 3).MarkOccupied 0 200 ∧
      q.NextOccupied 0 100 = 200 ∧ q.First 0 100 200 ∧ q.NextOccupied 0 201 = 3 ∧ q.First 0 201 3) ∧
    ∃ s, Runs Step NoStepOver {} s ∧ s.impl.levelEvent 0 = some 5 ∧ LeastDeadline s.impl 5 := by
  obtain ⟨first, -, scan⟩ := next_occupied_first
  have r1 := (Runs.refl : Runs Step NoStepOver {} {}).next
    (.arm ⟨5000000, ⟨1, none, none⟩, true, false⟩) (fun _ => by decide +kernel) .arm
  generalize hq : (({} : Impl).MarkOccupied 0 3).MarkOccupied 0 200 = q
  have high : q.NextOccupied 0 100 = 200 := hq ▸ by decide +kernel
  have low : q.NextOccupied 0 201 = 3 := hq ▸ by decide +kernel
  have some : ∃ s < kSlots, q.Occupied 0 s := ⟨3, by decide, hq ▸ by decide +kernel⟩
  have f1 := (first q 0 100 (by decide)).2 some
  have f2 := (first q 0 201 (by decide)).2 some
  rw [high] at f1
  rw [low] at f2
  exact ⟨⟨q, rfl, high, f1, low, f2⟩, _, r1, by decide +kernel, scan _ r1 5 (by decide +kernel)⟩

/-- The wheel stands at 257 when the clock is at 256, and a timer is armed without a delay: its deadline is 256, the
least of level 0, and the scan of the level yields 257. -/
theorem past_deadline_counts_as_present :
    ∃ s, Reaches Step {} s ∧ (∃ k ∈ levelZero s.impl, (s.impl.entries k).deadlineTick = 256) ∧
      (∀ k ∈ levelZero s.impl, 256 ≤ (s.impl.entries k).deadlineTick) ∧ s.impl.levelEvent 0 = some 257 := by
  have rn := disarmedAtWindow_reached.next (.arm ⟨0, ⟨2, none, none⟩, true, false⟩) trivial .arm
  exact ⟨_, rn, ⟨0, by decide +kernel, by decide +kernel⟩, by decide +kernel, by decide +kernel⟩

end JLib.Timer
