import JLib.Timer.Table

/-!
# One pass of the timer thread

What a pass of `Run` does to a wheel on which every entry comes up in time: it sleeps until the next
event, fires entries that are due at the tick it moves to, or moves on because nothing was. In each case
every entry still comes up in time.
-/

namespace JLib.Timer
open LTS Links Bits Impl

variable {q q' : Impl} {held held' : Spot → List Nat} {t now : Int} {i k : Nat} {cl : Nat × Nat}

/-- The next event is the soonest over the armed entries. -/
lemma Table.nextEvent (tb : Table q held) (h0 : 0 ≤ q.currentTick) :
    (q.NextEventTick = -1 ∧ armed q = ∅) ∨
    (∃ cl k, k ∈ held (.cell cl) ∧ q.NextEventTick = eventAt q.currentTick cl.1 cl.2) ∧
      (0 ≤ q.NextEventTick) ∧
      ∀ cl k, k ∈ held (.cell cl) → q.NextEventTick ≤ eventAt q.currentTick cl.1 cl.2 := by
  have occ : ∀ {l s}, q.Occupied l s ↔ ∃ k, k ∈ held (.cell (l, s)) := by
    intro l s
    have := tb.shape.occ (l, s)
    rw [this]
    exact ⟨List.exists_mem_of_ne_nil _, fun ⟨_, hk⟩ => List.ne_nil_of_mem hk⟩
  have levels : ∀ {cl k}, k ∈ held (.cell cl) → cl.1 ∈ [0, 1, 2, 3] := by
    intro cl k hk
    have := (tb.shape.bounds hk).1
    simp only [List.mem_cons, List.not_mem_nil, or_false]
    omega
  rcases NextEventTick_spec h0 with ⟨e, none⟩ | ⟨⟨l, -, s, lt, o, e⟩, all⟩
  · left
    refine ⟨e, Finset.eq_empty_iff_forall_notMem.2 fun k hk => ?_⟩
    obtain ⟨cl, hk⟩ := tb.mem_armed.1 hk
    exact none cl.1 (levels hk) cl.2 (tb.shape.bounds hk).2 (occ.2 ⟨k, hk⟩)
  · right
    obtain ⟨k, hk⟩ := occ.1 o
    refine ⟨⟨(l, s), k, hk, e⟩, ?_, fun cl k hk => ?_⟩
    · rw [e]
      exact h0.trans le_eventAt
    · exact all cl.1 (levels hk) cl.2 (tb.shape.bounds hk).2 (occ.2 ⟨k, hk⟩)

/-- No armed timer is lost sight of. -/
lemma Table.next_le (tb : Table q held) (h0 : 0 ≤ q.currentTick) (all : AllInTime q held)
    (hk : k ∈ armed q) : q.NextEventTick ≤ max q.currentTick (q.entries k).deadlineTick := by
  obtain ⟨cl, hk'⟩ := tb.mem_armed.1 hk
  rcases tb.nextEvent h0 with ⟨-, e⟩ | ⟨-, -, le⟩
  · rw [e] at hk
    cases hk
  · exact (le cl k hk').trans (all cl k hk').eventAt_le

/-- A timer is the same in both tables. -/
def SameTimer (q q' : Impl) (k : Nat) : Prop :=
  (q'.entries k).deadlineTick = (q.entries k).deadlineTick ∧
  (q'.entries k).generation = (q.entries k).generation ∧
  (q'.entries k).action = (q.entries k).action

/-- The same timer as the same timer is the same. -/
lemma SameTimer.trans {u : Impl} (h : SameTimer q q' k) (h' : SameTimer q' u k) : SameTimer q u k :=
  ⟨h'.1.trans h.1, h'.2.1.trans h.2.1, h'.2.2.trans h.2.2⟩

/-- The ways a pass ends. -/
inductive PassEnds (q : Impl) (now : Int) : Impl → Pass → Prop where
  | wait :
    armed q = ∅ →
    PassEnds q now { q with currentTick := now } .wait
  | waitUntil :
    now < q.NextEventTick →
    PassEnds q now q (.waitUntil q.NextEventTick)
  | step {u} :
    armed u = armed q →
    (∀ k ∈ armed q, SameTimer q u k) →
    q.currentTick < u.currentTick →
    u.currentTick ≤ now + 1 →
    (∀ k ∈ armed q, u.currentTick ≤ (q.entries k).deadlineTick) →
    PassEnds q now u .step
  | fire {u Y} :
    Y ≠ [] →
    Y.Nodup →
    (∀ k ∈ Y, k ∈ armed q ∧ u.currentTick = max q.currentTick (q.entries k).deadlineTick) →
    armed u = armed q \ Y.toFinset →
    (∀ k ∈ armed u, SameTimer q u k) →
    q.currentTick ≤ u.currentTick →
    u.currentTick ≤ now →
    (∀ k ∈ armed q, u.currentTick ≤ max q.currentTick (q.entries k).deadlineTick) →
    PassEnds q now u (.fire u.currentTick (Y.map q.due))

/-- The firing loop over the slot the wheel stands on. -/
lemma Table.fireSlot (tb : Table q held) :
    ∃ held' Y, Fired q held (fireFrom q.size q (q.heads (0, slotAt q.currentTick 0)) 0).1 held' Y ∧
      Y.Sublist (held (.cell (0, slotAt q.currentTick 0))) ∧
      (fireFrom q.size q (q.heads (0, slotAt q.currentTick 0)) 0).2 = Y.map q.due ∧
      (Y.length < kBatch → ∀ k ∈ held (.cell (0, slotAt q.currentTick 0)), k ∉ Y →
        q.currentTick < (q.entries k).deadlineTick) := by
  obtain ⟨held', Y, f, sub, e, -, stop⟩ := fireFrom_spec (n := 0) (A := []) q.size tb
    rfl (tb.shape.lists (0, slotAt q.currentTick 0)).toSList (tb.shape.length_le _)
  exact ⟨held', Y, f, sub, e, stop⟩

/-- A pass keeps the representation, whatever it does. -/
lemma Table.pass_table (tb : Table q held) (now : Int) :
    ∃ held', Table (q.RunPass now).1 held' := by
  unfold RunPass
  simp only
  split
  · exact ⟨held, tb.setTick now⟩
  split
  · exact ⟨held, tb⟩
  have moved : ∃ held1, Table (q.AdvanceTo q.NextEventTick) held1 := by
    by_cases h : q.currentTick ≤ q.NextEventTick
    · obtain ⟨held1, tb1, -, -⟩ := tb.advance h
      exact ⟨held1, tb1⟩
    · exact ⟨held, by
        unfold AdvanceTo
        rw [if_pos (by omega)]
        exact tb⟩
  obtain ⟨held1, tb1⟩ := moved
  obtain ⟨held2, Y, f, -⟩ := tb1.fireSlot
  split
  · exact ⟨held2, f.table.setTick _⟩
  · exact ⟨held2, f.table⟩

/-- The timers of a table whose entries were only moved or retired. -/
lemma armed_eq_of_cells (tb : Table q held) (tb' : Table q' held') {Y : List Nat}
    (h : ∀ k, (∃ cl, k ∈ held' (.cell cl)) ↔ (∃ cl, k ∈ held (.cell cl)) ∧ k ∉ Y) :
    armed q' = armed q \ Y.toFinset := by
  ext k
  rw [Finset.mem_sdiff, tb'.mem_armed, tb.mem_armed, h, List.mem_toFinset]

/-- The slot the wheel stands on comes up now. -/
lemma eventAt_here : eventAt t 0 (slotAt t 0) = t := by
  unfold eventAt
  rw [if_pos rfl]
  apply nextAt_unique (by omega) (by omega)
  unfold slotAt kSlots
  rw [LevelGranularity_zero]
  omega

/-- An entry in the slot the wheel stands on is due. -/
lemma InTime.due {d : Int} (it : InTime t d (0, slotAt t 0)) : d ≤ t := by
  unfold InTime at it
  rw [if_pos rfl, eventAt_here] at it
  omega

/-- An entry in another slot is not. -/
lemma InTime.later {d : Int} (it : InTime t d cl) (lt : cl.2 < kSlots) (out : cl ≠ (0, slotAt t 0)) : t < d := by
  unfold InTime at it
  by_cases hl : cl.1 = 0
  · rw [if_pos hl] at it
    by_contra le
    apply out
    have e : eventAt t 0 cl.2 = t := by omega
    unfold eventAt at e
    rw [if_pos rfl] at e
    have same := nextAt_emod (m := 256) (c := t) (r := cl.2)
    rw [e] at same
    refine Prod.ext hl ?_
    change cl.2 = slotAt t 0
    unfold slotAt
    rw [LevelGranularity_zero]
    unfold kSlots at *
    omega
  · rw [if_neg hl] at it
    have := lt_eventAt (c := t) (s := cl.2) hl
    omega

/-- At the end of a window, an entry that is not due comes up in time from the next tick on. -/
lemma InTime.succ {d : Int} (it : InTime t d cl) (coarse : t % 256 = 0) (later : t < d) : InTime (t + 1) d cl := by
  unfold InTime at it ⊢
  split
  next hl =>
    rw [if_pos hl] at it
    have stable : eventAt (t + 1) 0 cl.2 = eventAt t 0 cl.2 := by
      apply eventAt_stable (by omega)
      rw [if_pos rfl]
      omega
    omega
  next hl =>
    rw [if_neg hl] at it
    have stable : eventAt (t + 1) cl.1 cl.2 = eventAt t cl.1 cl.2 := by
      apply eventAt_stable (by omega)
      rw [if_neg hl]
      -- the wheel stands at a multiple of 256 and the event is at another
      have h1 := lt_eventAt (c := t) (s := cl.2) hl
      have h2 := eventAt_emod (c := t) (s := cl.2) hl
      omega
    omega

/-- A pass over a wheel on which every entry comes up in time. -/
lemma Table.pass (tb : Table q held) (h0 : 0 ≤ q.currentTick) (all : AllInTime q held) (now : Int) :
    ∃ held', Table (q.RunPass now).1 held' ∧ AllInTime (q.RunPass now).1 held' ∧
      PassEnds q now (q.RunPass now).1 (q.RunPass now).2 := by
  rcases tb.nextEvent h0 with ⟨e, none⟩ | ⟨⟨cl0, k0, hk0, e0⟩, pos, least⟩
  · -- nothing is armed
    have run : q.RunPass now = ({ q with currentTick := now }, .wait) := by
      unfold RunPass
      rw [e]
      rfl
    rw [run]
    refine ⟨held, tb.setTick now, fun cl k hk => ?_, .wait none⟩
    have := tb.mem_armed.2 ⟨cl, hk⟩
    rw [none] at this
    cases this
  by_cases hnow : now < q.NextEventTick
  · have run : q.RunPass now = (q, .waitUntil q.NextEventTick) := by
      unfold RunPass
      simp only
      rw [if_neg (by omega), if_pos hnow]
    rw [run]
    exact ⟨held, tb, all, .waitUntil hnow⟩
  -- the wheel moves to the next event; on level 0 no slot before it is occupied
  have hct : q.currentTick ≤ q.NextEventTick := by
    rw [e0]
    exact le_eventAt
  generalize hN : q.NextEventTick = N at *
  obtain ⟨held1, tb1, mv, o⟩ := tb.advance hct
  have all1 : AllInTime (q.AdvanceTo N) held1 := by
    refine all.advance hct mv o fun s k hk => ?_
    have hin := all _ k hk
    have le := least _ k hk
    unfold InTime at hin ⊢
    simp only [if_true] at hin ⊢
    rw [eventAt_stable hct (by simpa using le), hin]
    simp only at le
    omega
  have tick1 : (q.AdvanceTo N).currentTick = N := mv.kept.currentTick
  have same1 : ∀ k, SameTimer q (q.AdvanceTo N) k := fun k =>
    ⟨mv.kept.deadlineTick k, mv.kept.generation k, mv.kept.action k⟩
  have arm1 : armed (q.AdvanceTo N) = armed q := by
    ext k
    rw [Timer.mem_armed, Timer.mem_armed]
    unfold Armed
    rw [(same1 k).2.1, mv.kept.size]
  have run : q.RunPass now =
      (let f := fireFrom (q.AdvanceTo N).size (q.AdvanceTo N)
        ((q.AdvanceTo N).heads (0, slotAt (q.AdvanceTo N).currentTick 0)) 0
      if f.2 = [] then ({ f.1 with currentTick := f.1.currentTick + 1 }, .step)
      else (f.1, .fire (q.AdvanceTo N).currentTick f.2)) := by
    unfold RunPass
    simp only [hN]
    rw [if_neg (by omega), if_neg hnow]
  rw [run]
  obtain ⟨held2, Y, f, sub, he, stop⟩ := tb1.fireSlot
  generalize hf : fireFrom (q.AdvanceTo N).size (q.AdvanceTo N)
    ((q.AdvanceTo N).heads (0, slotAt (q.AdvanceTo N).currentTick 0)) 0 = res at *
  have tick2 : res.1.currentTick = N := f.currentTick.trans tick1
  have dueq : (q.AdvanceTo N).due = q.due := by
    funext k
    obtain ⟨h1, h2, h3⟩ := same1 k
    unfold Impl.due
    rw [h1, h2, h3]
  rw [dueq] at he
  have le_max : ∀ k ∈ armed q, N ≤ max q.currentTick (q.entries k).deadlineTick := by
    intro k hk
    obtain ⟨cl, hk⟩ := tb.mem_armed.1 hk
    exact (least cl k hk).trans (all cl k hk).eventAt_le
  have all2 : ∀ cl k, k ∈ held2 (.cell cl) → k ∈ held1 (.cell cl) ∧ k ∉ Y ∧
      InTime N (q.entries k).deadlineTick cl := by
    intro cl k hk
    obtain ⟨hk1, hkY⟩ := (f.cells cl k).1 hk
    have := all1 cl k hk1
    rw [tick1, (same1 k).1] at this
    exact ⟨hk1, hkY, this⟩
  simp only
  by_cases hY : Y = []
  · -- nothing was due: the event was the window of a coarser level
    subst hY
    rw [he, List.map_nil, if_pos rfl]
    have later : ∀ cl k, k ∈ held2 (.cell cl) → N < (q.entries k).deadlineTick := by
      intro cl k hk
      obtain ⟨hk1, -, hin⟩ := all2 cl k hk
      by_cases here : cl = (0, slotAt N 0)
      · have lt := stop (by decide) k (by rw [tick1, ← here]; exact hk1) List.not_mem_nil
        rw [tick1, (same1 k).1] at lt
        rw [here] at hin
        exact absurd lt (not_lt_of_ge hin.due)
      · exact hin.later (tb1.shape.bounds hk1).2 here
    have coarse : N % 256 = 0 := by
      by_cases hl : cl0.1 = 0
      · -- an event of level 0 is an entry in the slot the wheel moves to, and it is still there
        exfalso
        have hk2 : ∃ cl, k0 ∈ held2 (.cell cl) := by
          have : k0 ∈ armed (q.AdvanceTo N) := by
            rw [arm1]
            exact tb.mem_armed.2 ⟨_, hk0⟩
          obtain ⟨cl, h⟩ := tb1.mem_armed.1 this
          exact ⟨cl, (f.cells cl k0).2 ⟨h, by simp⟩⟩
        obtain ⟨cl, hk2⟩ := hk2
        have lt := later cl k0 hk2
        have hin := all cl0 k0 hk0
        unfold InTime at hin
        rw [if_pos hl] at hin
        rw [hl] at e0
        omega
      · rw [e0]
        exact eventAt_emod hl
    have arm2 : armed { res.1 with currentTick := res.1.currentTick + 1 } = armed q := by
      have := armed_eq_of_cells (Y := []) tb1 f.table fun k => by
        simp only [f.cells, List.not_mem_nil, not_false_iff, and_true]
      rw [arm1, List.toFinset_nil, Finset.sdiff_empty] at this
      exact this
    refine ⟨held2, f.table.setTick _, fun cl k hk => ?_, .step arm2 (fun k hk => ?_) ?_ ?_
      fun k hk => ?_⟩
    · obtain ⟨-, -, hin⟩ := all2 cl k hk
      change InTime (res.1.currentTick + 1) (res.1.entries k).deadlineTick cl
      rw [tick2, (f.others k List.not_mem_nil).1, (same1 k).1]
      exact hin.succ coarse (later cl k hk)
    · exact (same1 k).trans (f.others k List.not_mem_nil)
    · show q.currentTick < res.1.currentTick + 1
      omega
    · show res.1.currentTick + 1 ≤ now + 1
      omega
    · show res.1.currentTick + 1 ≤ _
      rw [← arm1] at hk
      obtain ⟨cl, hk⟩ := tb1.mem_armed.1 hk
      have := later cl k ((f.cells cl k).2 ⟨hk, List.not_mem_nil⟩)
      omega
  · -- what is in the slot is due
    have hne : res.2 ≠ [] := by
      rw [he]
      simpa using hY
    rw [if_neg hne, tick1, he]
    have arm2 : armed res.1 = armed q \ Y.toFinset := by
      have := armed_eq_of_cells (Y := Y) tb1 f.table fun k => by
        simp only [f.cells]
        constructor
        · rintro ⟨cl, h, h'⟩
          exact ⟨⟨cl, h⟩, h'⟩
        · rintro ⟨⟨cl, h⟩, h'⟩
          exact ⟨cl, h, h'⟩
      rwa [arm1] at this
    have sameY : ∀ k ∉ Y, SameTimer q res.1 k := by
      intro k hk
      exact (same1 k).trans (f.others k hk)
    refine ⟨held2, f.table, fun cl k hk => ?_, ?_⟩
    · obtain ⟨-, hkY, hin⟩ := all2 cl k hk
      rw [tick2, (sameY k hkY).1]
      exact hin
    · have fire : PassEnds q now res.1 (.fire res.1.currentTick (Y.map q.due)) := by
        refine .fire hY (sub.nodup (tb1.shape.custody.nodup _)) (fun k hk => ?_) arm2
          (fun k hk => ?_) (by omega) (by omega) fun k hk => ?_
        · have hk1 := sub.subset hk
          have hka : k ∈ armed q := by
            rw [← arm1]
            exact tb1.mem_armed.2 ⟨_, hk1⟩
          refine ⟨hka, ?_⟩
          have hd := f.due k hk
          rw [tick1, (same1 k).1] at hd
          have := le_max k hka
          omega
        · rw [arm2, Finset.mem_sdiff, List.mem_toFinset] at hk
          exact sameY k hk.2
        · rw [tick2]
          exact le_max k hk
      rwa [tick2] at fire

end JLib.Timer
