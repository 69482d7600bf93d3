import JLib.Timer.Sight
import Mathlib.Tactic.Abel

/-!
# The wheel as a timer list

Timers are armed while the wheel stands at `c`, and after that there are only disarms and passes of
`Run`. A timer fires in a pass at which the wheel stands at `max c d`: each once, in the order of those
ticks, and passes at a time when it is due get to it. Timers that are due already when they are armed
are in one slot, and the last armed is the first of them.
-/

namespace JLib.Timer
open LTS Impl Bits

variable {s : Queue} {q q' : Impl} {held : Spot → List Nat} {c : Int} {ts : Multiset Due}

/-- Timers armed one after the other, without a move of the wheel. -/
def Impl.armAll (q : Impl) : List (Int × Action) → Impl × List Due
  | [] => (q, [])
  | d :: ds =>
    let r := q.armEntry d.1 d.2
    let w := r.1.armAll ds
    (w.1, r.1.due r.2 :: w.2)

/-- A wheel that is played on: what fired, each with the tick the wheel stood at, and what was
disarmed. -/
structure Play where
  impl : Impl
  clock : Int
  fired : List (Int × Due) := []
  disarmed : List Due := []

inductive Event where
  | disarm (h : TimerHandle)
  | pass (elapsed : Nat)

def Impl.Pass.firings : Pass → List (Int × Due)
  | .fire tick batch => batch.map (tick, ·)
  | _ => []

namespace Play

def event (u : Play) : Event → Play
  | .disarm h =>
    { u with
      impl := (u.impl.Disarm h).1
      disarmed := if (u.impl.Disarm h).2 then u.impl.due h.idx :: u.disarmed else u.disarmed }
  | .pass elapsed =>
    let r := u.impl.RunPass (u.clock + elapsed)
    { u with impl := r.1, clock := u.clock + elapsed, fired := u.fired ++ r.2.firings }

def play (u : Play) (evs : List Event) : Play := evs.foldl event u

end Play

def passes : List Event → Nat
  | [] => 0
  | .disarm _ :: evs => passes evs
  | .pass _ :: evs => passes evs + 1

/-- The timers that are armed. -/
def Impl.pending (q : Impl) : Multiset Due := (armed q).val.map q.due

/-! ## What the operations do to the pending timers -/

/-- The same timer is due at the same time. -/
lemma SameTimer.due {k : Nat} (h : SameTimer q q' k) : q'.due k = q.due k := by
  obtain ⟨h1, h2, h3⟩ := h
  unfold Impl.due
  rw [h1, h2, h3]

/-- What is armed is pending as before when no timer changed. -/
lemma pending_same (e : armed q' = armed q) (same : ∀ k ∈ armed q, SameTimer q q' k) :
    q'.pending = q.pending := by
  unfold Impl.pending
  rw [e]
  exact Multiset.map_congr rfl fun k hk => (same k hk).due

/-- What `Y` leaves behind and `Y` together were pending. -/
lemma pending_sdiff {Y : List Nat} (nodup : Y.Nodup) (sub : ∀ k ∈ Y, k ∈ armed q)
    (e : armed q' = armed q \ Y.toFinset) (same : ∀ k ∈ armed q', SameTimer q q' k) :
    q.pending = (Y.map q.due : List Due) + q'.pending := by
  have hY : (Y : Multiset Nat) = Y.toFinset.val := by
    rw [List.toFinset_val, nodup.dedup]
  have sub' : Y.toFinset ⊆ armed q := by
    intro k hk
    exact sub k (List.mem_toFinset.1 hk)
  have split : (armed q).val = (Y : Multiset Nat) + (armed q').val := by
    rw [hY, e, Finset.sdiff_val, add_tsub_cancel_of_le (Finset.val_le_iff.2 sub')]
  have rest : q'.pending = (armed q').val.map q.due :=
    Multiset.map_congr rfl fun k hk => (same k hk).due
  rw [rest, ← Multiset.map_coe, ← Multiset.map_add, ← split]
  rfl

/-- Retiring an entry leaves the timers of the others. -/
lemma Retired.same {i k : Nat} (re : Retired q q' i) (ne : k ≠ i) : SameTimer q q' k :=
  re.others k ne

/-- `Disarm` does nothing, or takes the timer out of what is pending. -/
lemma Table.disarm_pending (tb : Table q held) (h : TimerHandle) :
    q.Disarm h = (q, false) ∨
    q.Disarm h = (q.retire h.idx, true) ∧ q.pending = q.due h.idx ::ₘ (q.retire h.idx).pending ∧
      armed (q.retire h.idx) = (armed q).erase h.idx ∧
      ∀ k ≠ h.idx, SameTimer q (q.retire h.idx) k := by
  rcases tb.disarm h with e | ⟨held', e, hi, -, tb', re, cells⟩
  · exact .inl e
  · right
    have arm : armed (q.retire h.idx) = armed q \ [h.idx].toFinset := by
      apply armed_eq_of_cells tb tb'
      intro k
      simp only [cells, List.mem_singleton]
      constructor
      · rintro ⟨cl, hk, ne⟩
        exact ⟨⟨cl, hk⟩, ne⟩
      · rintro ⟨⟨cl, hk⟩, ne⟩
        exact ⟨cl, hk, ne⟩
    refine ⟨e, ?_, ?_, fun k ne => re.same ne⟩
    · have := pending_sdiff (List.nodup_singleton h.idx) (fun k hk => ?_) arm fun k hk => re.same ?_
      · rw [this, List.map_singleton, Multiset.coe_singleton, Multiset.singleton_add]
      · rwa [List.mem_singleton.1 hk]
      · rw [arm, Finset.mem_sdiff] at hk
        simpa using hk.2
    · rw [arm, List.toFinset_cons, List.toFinset_nil, insert_empty_eq, Finset.sdiff_singleton_eq_erase]

/-- Timers armed one after the other are all in the wheel, in time, and pending. -/
lemma armAll_spec (tb : Table q held) (all : AllInTime q held) (ds : List (Int × Action)) :
    ∃ held', Table (q.armAll ds).1 held' ∧ AllInTime (q.armAll ds).1 held' ∧
      (q.armAll ds).1.currentTick = q.currentTick ∧
      (q.armAll ds).1.pending = ((q.armAll ds).2 : Multiset Due) + q.pending ∧
      (q.armAll ds).2.map (fun e => (e.deadlineTick, e.action)) =
        ds.map fun d => (d.1, some d.2) := by
  induction ds generalizing q held with
  | nil => exact ⟨held, tb, all, rfl, by simp [armAll], rfl⟩
  | cons d ds ih =>
    obtain ⟨held1, tb1, all1, arm, -⟩ := all.armEntry tb d.1 d.2
    obtain ⟨held', tb', all', tick, pend, data⟩ := ih tb1 all1
    refine ⟨held', tb', all', tick.trans arm.currentTick, ?_, ?_⟩
    swap
    · show _ :: _ = _ :: _
      rw [data]
      congr 1
      exact Prod.ext arm.deadlineTick arm.action
    show (((q.armEntry d.1 d.2).1.armAll ds).1).pending = _
    rw [pend]
    have one : (q.armEntry d.1 d.2).1.pending =
        (q.armEntry d.1 d.2).1.due (q.armEntry d.1 d.2).2 ::ₘ q.pending := by
      unfold Impl.pending
      rw [arm.armed, Finset.insert_val_of_notMem arm.fresh, Multiset.map_cons]
      congr 1
      refine Multiset.map_congr rfl fun k hk => SameTimer.due ?_
      have ne : k ≠ (q.armEntry d.1 d.2).2 := fun e => arm.fresh (e ▸ hk)
      exact arm.others k ne (Timer.mem_armed.1 hk).1
    rw [one]
    show _ = ((_ :: _ : List Due) : Multiset Due) + _
    rw [← Multiset.cons_coe, Multiset.cons_add, Multiset.add_cons]

/-! ## Playing -/

/-- The timers `ts` were armed while the wheel stood at `c`. -/
structure Played (c : Int) (ts : Multiset Due) (u : Play) (held : Spot → List Nat) : Prop where
  table : Table u.impl held
  inTime : AllInTime u.impl held
  tick : 0 ≤ u.impl.currentTick
  clock : 0 ≤ u.clock
  conserved : ts = (u.fired.map Prod.snd : List Due) + (u.disarmed : Multiset Due) + u.impl.pending
  ahead : ∀ k ∈ armed u.impl, c ≤ u.impl.currentTick ∧
    u.impl.currentTick ≤ max c (u.impl.entries k).deadlineTick
  at_tick : ∀ p ∈ u.fired, p.1 = max c p.2.deadlineTick
  before : ∀ p ∈ u.fired, ∀ k ∈ armed u.impl, p.1 ≤ max c (u.impl.entries k).deadlineTick
  sorted : (u.fired.map Prod.fst).Pairwise (· ≤ ·)

variable {u : Play}

/-- A `Disarm` keeps the account. -/
lemma Played.disarm (pl : Played c ts u held) (h : TimerHandle) :
    ∃ held', Played c ts (u.event (.disarm h)) held' := by
  rcases pl.table.disarm_pending h with e | ⟨e, pend, arm, same⟩
  · refine ⟨held, ?_⟩
    unfold Play.event
    simp only [e, Bool.false_eq_true, if_false]
    exact pl
  · obtain e' | ⟨held', -, -, -, tb', re, cells⟩ := pl.table.disarm h
    · rw [e] at e'
      cases congrArg Prod.snd e'
    have old : ∀ k ∈ armed (u.impl.retire h.idx), k ∈ armed u.impl ∧
        ((u.impl.retire h.idx).entries k).deadlineTick = (u.impl.entries k).deadlineTick := by
      intro k hk
      rw [arm, Finset.mem_erase] at hk
      exact ⟨hk.2, (same k hk.1).1⟩
    refine ⟨held', ?_⟩
    unfold Play.event
    simp only [e, if_true]
    refine ⟨tb', fun cl k hk => ?_, ?_, pl.clock, ?_, fun k hk => ?_, pl.at_tick, fun p hp k hk => ?_,
      pl.sorted⟩
    · obtain ⟨hk, ne⟩ := (cells cl k).1 hk
      show InTime (u.impl.retire h.idx).currentTick _ _
      rw [re.currentTick, (re.others k ne).1]
      exact pl.inTime cl k hk
    · exact re.currentTick ▸ pl.tick
    · rw [pl.conserved, pend, ← Multiset.cons_coe, Multiset.add_cons, Multiset.add_cons,
        Multiset.cons_add]
    · obtain ⟨hk', e⟩ := old k hk
      show c ≤ (u.impl.retire h.idx).currentTick ∧ (u.impl.retire h.idx).currentTick ≤ _
      rw [re.currentTick, e]
      exact pl.ahead k hk'
    · obtain ⟨hk', e⟩ := old k hk
      rw [e]
      exact pl.before p hp k hk'

/-- A pass keeps the account. -/
lemma Played.pass (pl : Played c ts u held) (elapsed : Nat) :
    ∃ held', Played c ts (u.event (.pass elapsed)) held' := by
  obtain ⟨held', tb', all', pe⟩ := pl.table.pass pl.tick pl.inTime (u.clock + elapsed)
  have clock : 0 ≤ u.clock + elapsed := by
    have := pl.clock
    omega
  have tick := pe.tick_nonneg pl.tick clock
  refine ⟨held', ?_⟩
  unfold Play.event
  simp only
  generalize (u.impl.RunPass (u.clock + elapsed)).1 = q' at *
  generalize (u.impl.RunPass (u.clock + elapsed)).2 = p at *
  cases pe with
  | wait none =>
    have none' : ∀ k, k ∉ armed u.impl := by
      intro k hk
      rw [none] at hk
      cases hk
    simp only [Pass.firings, List.append_nil]
    exact ⟨tb', all', tick, clock, pl.conserved, fun k hk => absurd hk (none' k), pl.at_tick,
      fun _ _ k hk => absurd hk (none' k), pl.sorted⟩
  | waitUntil _ =>
    simp only [Pass.firings, List.append_nil]
    exact ⟨tb', all', tick, clock, pl.conserved, pl.ahead, pl.at_tick, pl.before, pl.sorted⟩
  | step arm same lt le before =>
    have dl : ∀ k ∈ armed q', k ∈ armed u.impl ∧
        (q'.entries k).deadlineTick = (u.impl.entries k).deadlineTick := by
      intro k hk
      rw [arm] at hk
      exact ⟨hk, (same k hk).1⟩
    simp only [Pass.firings, List.append_nil]
    refine ⟨tb', all', tick, clock, ?_, fun k hk => ?_, pl.at_tick, fun p hp k hk => ?_, pl.sorted⟩
    · show ts = _ + _ + q'.pending
      rw [pending_same arm same]
      exact pl.conserved
    · obtain ⟨hk', e⟩ := dl k hk
      have := pl.ahead k hk'
      have := before k hk'
      show c ≤ q'.currentTick ∧ q'.currentTick ≤ max c (q'.entries k).deadlineTick
      rw [e]
      omega
    · obtain ⟨hk', e⟩ := dl k hk
      rw [e]
      exact pl.before p hp k hk'
  | @fire _ Y ne nodup due arm same le now least =>
    have dl : ∀ k ∈ armed q', k ∈ armed u.impl ∧
        (q'.entries k).deadlineTick = (u.impl.entries k).deadlineTick := by
      intro k hk
      have := same k hk
      rw [arm, Finset.mem_sdiff] at hk
      exact ⟨hk.1, this.1⟩
    -- the tick of the pass is that of every timer in the batch
    have here : ∀ k ∈ Y, k ∈ armed u.impl ∧ c ≤ u.impl.currentTick ∧
        q'.currentTick = max c (u.impl.entries k).deadlineTick := by
      intro k hk
      obtain ⟨hk, e⟩ := due k hk
      have := pl.ahead k hk
      exact ⟨hk, this.1, by omega⟩
    have ahead : ∀ k ∈ armed q', c ≤ q'.currentTick ∧
        q'.currentTick ≤ max c (q'.entries k).deadlineTick := by
      intro k hk
      obtain ⟨hk', e⟩ := dl k hk
      have := pl.ahead k hk'
      have := least k hk'
      rw [e]
      omega
    refine ⟨tb', all', tick, clock, ?_, ahead, fun p hp => ?_, fun p hp k hk => ?_, ?_⟩
    · rw [pl.conserved, pending_sdiff nodup (fun k hk => (due k hk).1) arm same]
      have batch : ((Y.map u.impl.due).map (q'.currentTick, ·)).map Prod.snd =
          Y.map u.impl.due := by
        rw [List.map_map]
        exact List.map_id _
      simp only [Pass.firings, List.map_append, batch, ← Multiset.coe_add]
      abel
    · rcases List.mem_append.1 hp with hp | hp
      · exact pl.at_tick p hp
      · obtain ⟨e, he, rfl⟩ := List.mem_map.1 hp
        obtain ⟨k, hk, rfl⟩ := List.mem_map.1 he
        exact (here k hk).2.2
    · rcases List.mem_append.1 hp with hp | hp
      · obtain ⟨hk', e⟩ := dl k hk
        rw [e]
        exact pl.before p hp k hk'
      · obtain ⟨e, he, rfl⟩ := List.mem_map.1 hp
        exact (ahead k hk).2
    · simp only [Pass.firings, List.map_append, List.map_map]
      rw [List.pairwise_append]
      refine ⟨pl.sorted, ?_, fun x hx y hy => ?_⟩
      · rw [List.pairwise_map]
        exact List.pairwise_of_forall fun _ _ => le_rfl
      · obtain ⟨p, hp, rfl⟩ := List.mem_map.1 hx
        obtain ⟨k, hk, rfl⟩ := List.mem_map.1 hy
        obtain ⟨hk, -, e⟩ := here k hk
        show p.1 ≤ q'.currentTick
        rw [e]
        exact pl.before p hp k hk

/-- An event keeps the account. -/
lemma Played.event (pl : Played c ts u held) (ev : Event) :
    ∃ held', Played c ts (u.event ev) held' := by
  cases ev with
  | disarm h => exact pl.disarm h
  | pass elapsed => exact pl.pass elapsed

/-- Any events keep the account. -/
lemma Played.play (pl : Played c ts u held) (evs : List Event) :
    ∃ held', Played c ts (u.play evs) held' := by
  induction evs generalizing u held with
  | nil => exact ⟨held, pl⟩
  | cons ev evs ih =>
    obtain ⟨held1, pl1⟩ := pl.event ev
    exact ih pl1

/-! ## Every timer is got to -/

/-- No event arms a timer, changes one or turns the clock back. -/
lemma Played.shrinks (pl : Played c ts u held) (ev : Event) :
    u.clock ≤ (u.event ev).clock ∧ armed (u.event ev).impl ⊆ armed u.impl ∧
    ∀ k ∈ armed (u.event ev).impl,
      ((u.event ev).impl.entries k).deadlineTick = (u.impl.entries k).deadlineTick := by
  cases ev with
  | disarm h =>
    unfold Play.event
    rcases pl.table.disarm_pending h with e | ⟨e, -, arm, same⟩
    · simp [e]
    · simp only [e]
      refine ⟨le_rfl, arm ▸ Finset.erase_subset _ _, fun k hk => (same k ?_).1⟩
      rw [arm] at hk
      exact Finset.ne_of_mem_erase hk
  | pass elapsed =>
    obtain ⟨-, -, -, pe⟩ := pl.table.pass pl.tick pl.inTime (u.clock + elapsed)
    have clock : u.clock ≤ u.clock + elapsed := by omega
    unfold Play.event
    simp only
    generalize (u.impl.RunPass (u.clock + elapsed)).1 = q' at *
    generalize (u.impl.RunPass (u.clock + elapsed)).2 = p at *
    refine ⟨clock, ?_⟩
    cases pe with
    | wait _ => exact ⟨subset_rfl, fun _ _ => rfl⟩
    | waitUntil _ => exact ⟨subset_rfl, fun _ _ => rfl⟩
    | step arm same _ _ _ => exact ⟨arm.subset, fun k hk => (same k (arm ▸ hk)).1⟩
    | fire _ _ _ arm same _ _ _ =>
      exact ⟨arm ▸ Finset.sdiff_subset, fun k hk => (same k hk).1⟩

/-- How many passes at `T` or later it takes at most until nothing is left that is due by `T`. -/
def Play.left (u : Play) (T : Int) : Nat := (armed u.impl).card + (T - u.impl.currentTick).toNat

/-- A pass brings what is due by `T` nearer. -/
lemma Played.pass_left (pl : Played c ts u held) {T : Int} (hT : T ≤ u.clock) {k : Nat}
    (hk : k ∈ armed u.impl) (le : max c (u.impl.entries k).deadlineTick ≤ T) (elapsed : Nat) :
    (u.event (.pass elapsed)).left T < u.left T := by
  obtain ⟨-, -, -, pe⟩ := pl.table.pass pl.tick pl.inTime (u.clock + elapsed)
  have next := pl.table.next_le pl.tick pl.inTime hk
  have ahead := pl.ahead k hk
  unfold Play.event Play.left
  simp only
  generalize (u.impl.RunPass (u.clock + elapsed)).1 = q' at *
  generalize (u.impl.RunPass (u.clock + elapsed)).2 = p at *
  cases pe with
  | wait none =>
    rw [none] at hk
    cases hk
  | waitUntil lt => omega
  | step arm _ lt _ before =>
    have := before k hk
    rw [arm]
    omega
  | @fire _ Y ne _ due arm _ tick _ _ =>
    have fewer : (armed q').card < (armed u.impl).card := by
      obtain ⟨y, hy⟩ := List.exists_mem_of_ne_nil Y ne
      apply Finset.card_lt_card
      rw [arm]
      refine Finset.sdiff_ssubset (fun k hk => ?_) ⟨y, List.mem_toFinset.2 hy⟩
      exact (due k (List.mem_toFinset.1 hk)).1
    omega

/-- A `Disarm` does not take what is due by `T` further away. -/
lemma Played.disarm_left (pl : Played c ts u held) (h : TimerHandle) (T : Int) :
    (u.event (.disarm h)).left T ≤ u.left T := by
  unfold Play.event Play.left
  rcases pl.table.disarm h with e | ⟨_, e, -, -, -, re, -⟩
  · simp only [e]
    exact le_rfl
  · have := Finset.card_le_card (pl.shrinks (.disarm h)).2.1
    unfold Play.event at this
    simp only [e] at this ⊢
    rw [re.currentTick]
    omega

/-- Nothing that is due by `T` is left. -/
lemma Played.keeps_late (pl : Played c ts u held) {T : Int}
    (late : ∀ k ∈ armed u.impl, T < max c (u.impl.entries k).deadlineTick) (ev : Event) :
    ∀ k ∈ armed (u.event ev).impl, T < max c ((u.event ev).impl.entries k).deadlineTick := by
  obtain ⟨-, sub, same⟩ := pl.shrinks ev
  intro k hk
  rw [same k hk]
  exact late k (sub hk)

/-- What is due after `T` stays so through any events. -/
lemma Played.keeps_late_all (pl : Played c ts u held) {T : Int}
    (late : ∀ k ∈ armed u.impl, T < max c (u.impl.entries k).deadlineTick) (evs : List Event) :
    ∀ k ∈ armed (u.play evs).impl, T < max c ((u.play evs).impl.entries k).deadlineTick := by
  induction evs generalizing u held with
  | nil => exact late
  | cons ev evs ih =>
    obtain ⟨held1, pl1⟩ := pl.event ev
    exact ih pl1 (pl.keeps_late late ev)

/-- After enough passes nothing is left that was due by `T`. -/
lemma Played.reached (pl : Played c ts u held) {T : Int} (hT : T ≤ u.clock) (evs : List Event)
    (enough : u.left T ≤ passes evs) :
    ∀ k ∈ armed (u.play evs).impl, T < max c ((u.play evs).impl.entries k).deadlineTick := by
  induction evs generalizing u held with
  | nil =>
    intro k hk
    have : (armed u.impl).card = 0 := by
      unfold Play.left passes at enough
      omega
    rw [Finset.card_eq_zero] at this
    change k ∈ armed u.impl at hk
    rw [this] at hk
    cases hk
  | cons ev evs ih =>
    obtain ⟨held1, pl1⟩ := pl.event ev
    have hT1 := hT.trans (pl.shrinks ev).1
    cases ev with
    | disarm h => exact ih pl1 hT1 ((pl.disarm_left h T).trans enough)
    | pass elapsed =>
      by_cases due : ∃ k ∈ armed u.impl, max c (u.impl.entries k).deadlineTick ≤ T
      · obtain ⟨k, hk, le⟩ := due
        have := pl.pass_left hT hk le elapsed
        unfold passes at enough
        exact ih pl1 hT1 (by omega)
      · push Not at due
        exact pl1.keeps_late_all (pl.keeps_late due _) evs

/-! ## From a reachable queue -/

/-- The wheel does not go below zero. -/
lemma Touch.tick_nonneg (tb : Table s.impl held) (tc : Touch s q) (tick : 0 ≤ s.impl.currentTick)
    (clock : 0 ≤ s.clock) : 0 ≤ q.currentTick := by
  have advance : ∀ t, 0 ≤ (s.impl.AdvanceTo t).currentTick := by
    intro t
    by_cases h : s.impl.currentTick ≤ t
    · obtain ⟨_, -, mv, -⟩ := tb.advance h
      rw [mv.kept.currentTick]
      exact tick.trans h
    · unfold AdvanceTo
      rw [if_pos (by omega)]
      exact tick
  cases tc with
  | same => exact tick
  | @arm call _ =>
    obtain ⟨held1, tb1⟩ := tb.advance_any s.clock
    obtain ⟨_, -, arm, -⟩ := tb1.arm (s.clock + delayTicks call.delayNs) call.action
    show 0 ≤ ((s.impl.AdvanceTo s.clock).armEntry _ _).1.currentTick
    rw [arm.currentTick]
    exact advance _
  | @disarm h =>
    rcases tb.disarm h with e | ⟨_, e, -, -, -, re, -⟩
    · rw [e]
      exact tick
    · rw [e, re.currentTick]
      exact tick
  | run =>
    unfold RunPass
    simp only
    split
    · exact clock
    split
    · exact tick
    obtain ⟨held1, tb1⟩ := tb.advance_any s.impl.NextEventTick
    obtain ⟨_, Y, f, -⟩ := tb1.fireSlot
    have := advance s.impl.NextEventTick
    have := f.currentTick
    split
    · show 0 ≤ _ + 1
      omega
    · simp only
      omega

/-- The clock does not go back. -/
lemma Step.clock_le {u : Queue} {a : Label} (st : Step s a u) : s.clock ≤ u.clock := by
  cases st with
  | tick h => exact h
  | arm =>
    unfold Queue.Arm
    split
    · exact le_rfl
    · exact le_rfl
  | disarm => exact le_rfl
  | run _ _ =>
    unfold Queue.Run
    simp only
    split
    · exact le_rfl
    · exact le_rfl
    · exact le_rfl
    · exact le_rfl
  | wake _ => exact le_rfl
  | exit _ _ => exact le_rfl
  | stop =>
    unfold Queue.Stop
    split
    · exact le_rfl
    · exact le_rfl
  | start => exact le_rfl

/-- The wheel of a queue that is reached is a table, and neither it nor the clock is below zero. -/
lemma reaches_table (rn : Reaches Step {} s) :
    (∃ held, Table s.impl held) ∧ 0 ≤ s.impl.currentTick ∧ 0 ≤ s.clock := by
  refine rn.invariant
    (I := fun s => (∃ held, Table s.impl held) ∧ 0 ≤ s.impl.currentTick ∧ 0 ≤ s.clock)
    ⟨⟨_, Table.init⟩, le_rfl, le_rfl⟩ ?_
  rintro t a u ⟨⟨held, tb⟩, tick, clock⟩ - st
  exact ⟨st.touch.table tb, st.touch.tick_nonneg tb tick clock, clock.trans st.clock_le⟩

/-- Timers `ds` with any deadlines are armed on a reachable wheel that is empty and stands at `c`, and
then there are disarms and passes as the clock advances. Each timer is at any time exactly one of fired,
disarmed and pending; those that fired did so at tick `max c d`, in the order of these ticks; and once
the clock is at `T`, so many more passes leave nothing behind that is due by then. -/
theorem fires_like_list (rn : Reaches Step {} s) (empty : armed s.impl = ∅)
    (ds : List (Int × Action)) (evs : List Event) :
    let w := s.impl.armAll ds
    let u := Play.play { impl := w.1, clock := s.clock } evs
    w.2.map (fun e => (e.deadlineTick, e.action)) = ds.map (fun d => (d.1, some d.2)) ∧
    (w.2.map Due.idx).Nodup ∧
    (w.2 : Multiset Due) =
      (u.fired.map Prod.snd : List Due) + (u.disarmed : Multiset Due) + u.impl.pending ∧
    (∀ p ∈ u.fired, p.1 = max s.impl.currentTick p.2.deadlineTick) ∧
    (u.fired.map Prod.fst).Pairwise (· ≤ ·) ∧
    ∀ T ≤ u.clock, ∀ evs', u.left T ≤ passes evs' →
      ∀ e ∈ (u.play evs').impl.pending, T < max s.impl.currentTick e.deadlineTick := by
  obtain ⟨⟨held, tb⟩, tick, clock⟩ := reaches_table rn
  have all : AllInTime s.impl held := by
    intro cl k hk
    have := tb.mem_armed.2 ⟨cl, hk⟩
    rw [empty] at this
    cases this
  have none : s.impl.pending = 0 := by
    unfold Impl.pending
    rw [empty]
    rfl
  obtain ⟨held1, tb1, all1, tick1, pend, data⟩ := armAll_spec tb all ds
  rw [none, add_zero] at pend
  intro w u
  have start : Played s.impl.currentTick (w.2 : Multiset Due) { impl := w.1, clock := s.clock }
      held1 := by
    refine ⟨tb1, all1, tick1 ▸ tick, clock, ?_, fun k _ => ?_, nofun, nofun, .nil⟩
    · rw [← pend]
      simp [w]
    · show s.impl.currentTick ≤ w.1.currentTick ∧ w.1.currentTick ≤ _
      rw [tick1]
      exact ⟨le_rfl, le_max_left _ _⟩
  obtain ⟨held', pl⟩ := start.play evs
  refine ⟨data, ?_, pl.conserved, pl.at_tick, pl.sorted, fun T hT evs' enough e he => ?_⟩
  · have idx : ((w.2.map Due.idx : List Nat) : Multiset Nat) = (armed w.1).val := by
      rw [← Multiset.map_coe, ← pend]
      unfold Impl.pending
      rw [Multiset.map_map]
      exact Multiset.map_id _
    rw [← Multiset.coe_nodup, idx]
    exact (armed w.1).nodup
  · obtain ⟨k, hk, rfl⟩ := Multiset.mem_map.1 he
    exact pl.reached hT evs' enough k hk

/-- A timer is armed for tick 300 and the thread looks at its window at tick 256; the wheel then stands
at 257 while the clock is at 256. The timer is disarmed. -/
def disarmedAtWindow : Queue :=
  let s := ({} : Queue).Arm ⟨300000000, ⟨1, none, none⟩, true, false⟩
  let s := { s.Run with worker := .awake }
  let s := { s with clock := 256 }
  s.Run.Run.Disarm ⟨0, 1⟩

/-- The example is reached. -/
lemma disarmedAtWindow_reached : Reaches Step {} disarmedAtWindow := by
  have r1 := (Runs.refl : Reaches Step {} {}).next (.arm ⟨300000000, ⟨1, none, none⟩, true, false⟩)
    trivial .arm
  have r2 := r1.next .run trivial (.run (by decide +kernel) (by decide +kernel))
  have r3 := r2.next .wake trivial (.wake (u := some 256) (by decide +kernel))
  have r4 := r3.next (.tick 256) trivial (.tick (by decide +kernel))
  have r5 := r4.next .run trivial (.run (by decide +kernel) (by decide +kernel))
  have r6 := r5.next .run trivial (.run (by decide +kernel) (by decide +kernel))
  exact r6.next (.disarm ⟨0, 1⟩) trivial .disarm

/-- Three timers on that wheel, one of them disarmed again: the other two fire in two passes. -/
theorem fires_like_list_two :
    Reaches Step {} disarmedAtWindow ∧ armed disarmedAtWindow.impl = ∅ ∧
    ∃ w u, w = disarmedAtWindow.impl.armAll
        [(259, ⟨2, none, none⟩), (258, ⟨3, none, none⟩), (260, ⟨4, none, none⟩)] ∧
      u = Play.play { impl := w.1, clock := disarmedAtWindow.clock }
        [.pass 0, .disarm ⟨2, 1⟩, .pass 5, .pass 0] ∧
      u.fired.map Prod.fst = [258, 259] ∧
      (w.2 : Multiset Due) =
        (u.fired.map Prod.snd : List Due) + (u.disarmed : Multiset Due) + u.impl.pending := by
  have empty : armed disarmedAtWindow.impl = ∅ := by decide +kernel
  exact ⟨disarmedAtWindow_reached, empty, _, _, rfl, rfl, by decide +kernel,
    (fires_like_list disarmedAtWindow_reached empty _ _).2.2.1⟩

/-- On that wheel `Arm` without a delay makes a timer for tick 256, and with a delay of 1 ms one for
tick 257. Both are due, and the later deadline fires first. -/
theorem fires_out_of_deadline_order :
    ∃ s, Reaches Step {} s ∧ armed s.impl = ∅ ∧ s.impl.currentTick = 257 ∧ s.clock = 256 ∧
      s.clock + delayTicks 0 = 256 ∧ s.clock + delayTicks 1000000 = 257 ∧
      ((Play.play
          { impl := (s.impl.armAll [(256, ⟨2, none, none⟩), (257, ⟨3, none, none⟩)]).1, clock := 256 }
          [.pass 1]).fired.map fun p => p.2.deadlineTick) = [257, 256] := by
  exact ⟨disarmedAtWindow, disarmedAtWindow_reached, by decide +kernel, by decide +kernel,
    by decide +kernel, by decide +kernel, by decide +kernel, by decide +kernel⟩

end JLib.Timer
