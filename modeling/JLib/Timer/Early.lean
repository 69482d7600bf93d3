import JLib.Timer.History
import JLib.Timer.Wakeup

/-!
# Timers that fire early

`Arm` rounds the clock down to a tick and the delay up to ticks, and the firing loop compares ticks. What
the first rounding drops is not made up for by the second one unless the delay leaves room for it in its
last tick.
-/

namespace JLib.Timer
open LTS Impl

variable {s u : History} {held : Spot → List Nat} {i : Nat} {T d : Int}

/-- After a pass that goes on only the wheel has changed. -/
lemma Queue.Run_on {q : Queue} (on : (q.impl.RunPass q.clock).2 = .step ∨
    ∃ t batch, (q.impl.RunPass q.clock).2 = .fire t batch) :
    q.Run = { q with impl := (q.impl.RunPass q.clock).1 } := by
  unfold Queue.Run
  rcases on with e | ⟨t, batch, e⟩
  · simp only [e]
  · simp only [e]

/-- A due timer that the wheel has in sight is fired by passes that all read the same clock. -/
lemma InSight.fires (n : Nat) (is : InSight s.queue held) (awake : s.queue.worker = .awake)
    (up : s.queue.stopping = false) (cur : s.queue.impl.currentTick ≤ s.queue.clock)
    (hi : i ∈ armed s.queue.impl) (due : (s.queue.impl.entries i).deadlineTick ≤ s.queue.clock)
    (left : (armed s.queue.impl).card + (s.queue.clock - s.queue.impl.currentTick).toNat ≤ n) :
    ∃ u, Reaches Recorded s u ∧ .fired (s.owner i) s.ns ∈ u.log := by
  induction n generalizing s held with
  | zero =>
    have pos := Finset.card_pos.2 ⟨i, hi⟩
    omega
  | succ n ih =>
    have st : Recorded s .run (s.record .run s.queue.Run) := .mk nofun (.run awake up)
    obtain ⟨held', tb', all', pe⟩ := is.table.pass is.tick is.inTime s.queue.clock
    have tick' := pe.tick_nonneg is.tick is.clock
    have on := Queue.Run_on (q := s.queue)
    have log : (s.record .run s.queue.Run).log =
        ((s.queue.impl.RunPass s.queue.clock).2.batch.map fun d =>
          .fired (s.owner d.idx) s.ns) ++ s.log := rfl
    generalize s.queue.impl.RunPass s.queue.clock = r at *
    obtain ⟨q', p⟩ := r
    simp only at tb' all' pe tick' on log
    -- the next pass, if the timer is still there
    have again : s.queue.Run = { s.queue with impl := q' } → q'.currentTick ≤ s.queue.clock →
        i ∈ armed q' → SameTimer s.queue.impl q' i →
        (armed q').card + (s.queue.clock - q'.currentTick).toNat ≤ n →
        ∃ u, Reaches Recorded s u ∧ .fired (s.owner i) s.ns ∈ u.log := by
      intro e cur' hi' same left'
      rw [e] at st
      obtain ⟨u, rn, hu⟩ := ih (s := s.record .run { s.queue with impl := q' })
        ⟨tb', all', tick', is.clock⟩ awake up cur' hi' (same.1 ▸ due) left'
      exact ⟨u, (Runs.refl.tail trivial st).trans rn, hu⟩
    cases pe with
    | wait none =>
      rw [none] at hi
      cases hi
    | waitUntil lt =>
      have le := is.sight.le i hi
      omega
    | step arm same lt le ahead =>
      have reached := ahead i hi
      refine again (on (.inl rfl)) (by omega) (arm ▸ hi) (same i hi) ?_
      rw [arm]
      omega
    | @fire _ Y ne nodup fired arm same lt le ahead =>
      by_cases hY : i ∈ Y
      · refine ⟨_, Runs.refl.tail trivial st, ?_⟩
        rw [log]
        apply List.mem_append_left
        exact List.mem_map.2 ⟨s.queue.impl.due i, List.mem_map_of_mem hY, rfl⟩
      · have hi' : i ∈ armed q' := by
          rw [arm, Finset.mem_sdiff, List.mem_toFinset]
          exact ⟨hi, hY⟩
        have fewer : (armed q').card < (armed s.queue.impl).card := by
          obtain ⟨k, hk⟩ := List.exists_mem_of_ne_nil Y ne
          apply Finset.card_lt_card
          rw [arm]
          refine Finset.sdiff_ssubset ?_ ⟨k, List.mem_toFinset.2 hk⟩
          exact fun j hj => (fired j (List.mem_toFinset.1 hj)).1
        refine again (on (.inr ⟨_, _, rfl⟩)) le hi' (same i hi') ?_
        omega

/-- A tick is not nothing. -/
lemma tickNs_pos : 0 < tickNs := by
  decide

/-- A timer that is armed on an idle wheel can fire as soon as its deadline's tick begins. -/
lemma InSight.arm_fires (is : InSight s.queue held) (idle : armed s.queue.impl = ∅)
    (new : s.queue.running = false) (up : s.queue.stopping = false)
    (cur : s.queue.impl.currentTick ≤ s.queue.clock) (now : s.queue.clock = s.ns / tickNs) (d : Int) :
    ∃ u x, Reaches Recorded s u ∧ x.ns = s.ns ∧ x.call.delayNs = d ∧
      .fired x (max s.ns (x.deadlineTick * tickNs)) ∈ u.log := by
  let call : Call := { delayNs := d, action := ⟨0, none, none⟩ }
  have acc : s.queue.accepts call = true := by simp [Queue.accepts, up, call]
  obtain ⟨x, hx, en⟩ := is.table.enters acc
  have ok : NoStepOver s.queue (.arm call) := by
    intro _ k hk
    rw [idle] at hk
    cases hk
  obtain ⟨held1, is1⟩ := is.step ok .arm
  have st1 : Recorded s (.arm call) (s.record (.arm call) (s.queue.Arm call)) := .mk nofun .arm
  have queue1 := s.record_queue (.arm call) (s.queue.Arm call)
  have awake : (s.queue.Arm call).worker = .awake ∧ (s.queue.Arm call).stopping = false ∧
      (s.queue.Arm call).clock = s.queue.clock := by
    rw [Queue.Arm_eq acc]
    simp [new, up]
  have ns1 : (s.record (.arm call) (s.queue.Arm call)).ns = s.ns := by
    simp [History.record, acc]
  generalize s.record (.arm call) (s.queue.Arm call) = s1 at en st1 queue1 ns1
  rw [← queue1] at is1 awake
  obtain ⟨awake, up1, clock1⟩ := awake
  have clock : s.queue.clock = s1.ns / tickNs := by rw [now, ns1]
  -- the clock goes on to the deadline
  generalize hns : max s.ns (x.deadlineTick * tickNs) = ns
  have later : s1.ns ≤ ns := by omega
  have ticks : s.queue.clock ≤ ns / tickNs := clock ▸ Int.ediv_le_ediv tickNs_pos later
  have due : x.deadlineTick ≤ ns / tickNs := by
    apply Int.le_ediv_of_mul_le tickNs_pos
    omega
  have tick : Step s1.queue (.tick (ns / tickNs)) { s1.queue with clock := ns / tickNs } :=
    .tick (clock1 ▸ ticks)
  have st2 : Recorded s1 (.tick ns) (s1.record (.tick ns) { s1.queue with clock := ns / tickNs }) := by
    refine .mk (fun ns' e => ?_) tick
    cases e
    exact later
  obtain ⟨held2, is2⟩ := is1.step (a := .tick (ns / tickNs)) trivial tick
  have live : x.handle.idx ∈ armed s1.queue.impl := by
    rw [en.armed]
    exact Finset.mem_insert_self _ _
  have own : s1.owner x.handle.idx = x := by
    rw [en.owner, Function.update_self]
  have deadline : (s1.queue.impl.entries x.handle.idx).deadlineTick = x.deadlineTick := by
    rw [en.deadlineTick, now, ← en.now]
    rfl
  have behind : s1.queue.impl.currentTick ≤ ns / tickNs := by
    rw [en.currentTick, max_eq_right cur]
    exact ticks
  obtain ⟨u, rn, hu⟩ := InSight.fires _
    (s := s1.record (.tick ns) { s1.queue with clock := ns / tickNs }) is2 awake up1 behind live
    (deadline ▸ due) le_rfl
  refine ⟨u, x, ((Runs.refl.tail trivial st1).tail trivial st2).trans rn, en.now, by rw [hx], ?_⟩
  have e : (s1.record (.tick ns) { s1.queue with clock := ns / tickNs }).owner x.handle.idx = x := own
  rw [hns]
  rw [e] at hu
  exact hu

/-- Whatever the clock and the delay, some run fires the timer as the tick of its deadline begins. -/
lemma fires_at_deadline (hT : 0 ≤ T) (d : Int) :
    ∃ s x, Reaches Recorded {} s ∧ x.ns = T ∧ x.call.delayNs = d ∧
      .fired x (max T (x.deadlineTick * tickNs)) ∈ s.log := by
  have clock : 0 ≤ T / tickNs := Int.ediv_nonneg hT tickNs_pos.le
  have st : Recorded {} (.tick T) (({} : History).record (.tick T) { clock := T / tickNs }) := by
    refine .mk (fun ns e => ?_) (.tick clock)
    cases e
    exact hT
  obtain ⟨held, is⟩ := InSight.init.step (a := .tick (T / tickNs)) trivial (.tick clock)
  obtain ⟨u, x, rn, ns, delay, fired⟩ := InSight.arm_fires
    (s := ({} : History).record (.tick T) { clock := T / tickNs }) is rfl rfl rfl clock rfl d
  exact ⟨u, x, (Runs.refl.tail trivial st).trans rn, ns, delay, fired⟩

/-- A timer armed at the reading `T` for the delay `d` never fires before `T + d` on any run exactly if the
part of a tick that had passed at `T` fits, together with the delay, in the ticks the delay is rounded up
to. -/
theorem never_early (hT : 0 ≤ T) (hd : 0 < d) :
    (∀ s x ns, Reaches Recorded {} s → .fired x ns ∈ s.log → x.ns = T → x.call.delayNs = d →
      d ≤ ns - T) ↔
    T % tickNs + d ≤ delayTicks d * tickNs := by
  have split : tickNs * (T / tickNs) + T % tickNs = T := Int.mul_ediv_add_emod T tickNs
  have deadline : ∀ {x : Arming}, x.ns = T → x.call.delayNs = d →
      x.deadlineTick * tickNs = tickNs * (T / tickNs) + delayTicks d * tickNs := by
    intro x eT ed
    unfold Arming.deadlineTick
    rw [eT, ed, Int.add_mul, Int.mul_comm]
  constructor
  · intro never
    obtain ⟨s, x, rn, eT, ed, fired⟩ := fires_at_deadline hT d
    have late := never s x _ rn fired eT ed
    rw [deadline eT ed] at late
    have rest := Int.emod_nonneg T tickNs_pos.ne'
    omega
  · intro room s x ns rn fired eT ed
    have le := (Told.reached rn).fired x ns fired
    have bound := Int.mul_le_of_le_ediv tickNs_pos le
    rw [deadline eT ed] at bound
    omega

/-- Armed for a millisecond at the beginning of a tick. -/
theorem never_early_on_tick :
    ∃ s x ns, Reaches Recorded {} s ∧ .fired x ns ∈ s.log ∧ x.ns = 0 ∧ x.call.delayNs = 1000000 ∧
      1000000 ≤ ns - 0 := by
  obtain ⟨s, x, rn, start, delay, fired⟩ := fires_at_deadline (T := 0) (by decide) 1000000
  have never := (never_early (T := 0) (d := 1000000) (by decide) (by decide)).2 (by decide)
  exact ⟨s, x, _, rn, fired, start, delay, never s x _ rn fired start delay⟩

/-- Armed for a millisecond when a tick is almost over, a timer fires a nanosecond later. -/
theorem fires_early :
    ∃ s x, Reaches Recorded {} s ∧ .fired x 1000000 ∈ s.log ∧ x.ns = 999999 ∧
      x.call.delayNs = 1000000 ∧ ¬x.call.delayNs ≤ 1000000 - x.ns := by
  have r1 := (Runs.refl : Reaches Recorded {} {}).next (.tick 999999) trivial
    (.mk (fun _ e => by cases e; decide) (.tick (by decide)))
  have r2 := r1.next (.arm ⟨1000000, ⟨1, none, none⟩, true, false⟩) trivial (.mk nofun .arm)
  have r3 := r2.next (.tick 1000000) trivial
    (.mk (fun _ e => by cases e; decide +kernel) (.tick (by decide +kernel)))
  have r4 := r3.next .run trivial (.mk nofun (.run (by decide +kernel) (by decide +kernel)))
  refine ⟨_, ⟨⟨0, 1⟩, 0, 999999, ⟨1000000, ⟨1, none, none⟩, true, false⟩⟩, r4, ?_, rfl, rfl, by decide⟩
  decide +kernel

end JLib.Timer
