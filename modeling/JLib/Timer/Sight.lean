import JLib.Timer.Queue

/-!
# Timers in sight

`NextEventTick` is meant never to be later than a timer is due. `Run` keeps that, because it moves the
wheel to the next event and not past it. `Arm` moves the wheel straight to the clock, over any slot of
level 0 that is due and was not yet visited, and a timer in such a slot comes up a turn late. It is the
only way a timer gets out of sight.
-/

namespace JLib.Timer
open LTS Impl Bits

variable {s u : Queue} {a : Label} {q : Impl} {held : Spot → List Nat} {now d : Int} {k : Nat}

/-- Nothing is out of sight. -/
structure Sight (q : Impl) : Prop where
  none : q.NextEventTick = -1 → armed q = ∅
  le : ∀ k ∈ armed q, q.NextEventTick ≤ max q.currentTick (q.entries k).deadlineTick

/-- A move to `now` does not step over a timer of level 0: it is not overdue then, or the move ends on
its slot. -/
def NotSteppedOver (q : Impl) (now : Int) : Prop :=
  ∀ k ∈ armed q, (q.entries k).level = some 0 →
    now ≤ max q.currentTick (q.entries k).deadlineTick ∨
    (now - max q.currentTick (q.entries k).deadlineTick) % 256 = 0

instance : Decidable (NotSteppedOver q now) :=
  inferInstanceAs (Decidable (∀ k ∈ armed q, _ → _))

/-- An entry of level 0 that is not stepped over comes up in time afterwards. -/
lemma InTime.not_stepped_over {c : Int} {s : Nat} (hin : InTime c d (0, s)) (hc : c ≤ now)
    (h : now ≤ max c d ∨ (now - max c d) % 256 = 0) : InTime now d (0, s) := by
  unfold InTime eventAt at *
  simp only [if_true] at *
  by_cases le : now ≤ max c d
  · rw [nextAt_stable (by decide) hc (by omega), hin]
    omega
  · have e : nextAt 256 now s = now := by
      apply nextAt_unique (by omega) (by omega)
      have := nextAt_emod (m := 256) (c := c) (r := s)
      omega
    rw [e]
    omega

/-- `Arm` moves the wheel to the clock, if it is behind. -/
lemma AllInTime.toClock (tb : Table q held) (all : AllInTime q held)
    (h : NotSteppedOver q now) :
    ∃ held', Table (q.AdvanceTo now) held' ∧ AllInTime (q.AdvanceTo now) held' ∧
      (q.AdvanceTo now).currentTick = max q.currentTick now ∧ armed (q.AdvanceTo now) = armed q ∧
      ∀ k, SameTimer q (q.AdvanceTo now) k := by
  by_cases hc : q.currentTick ≤ now
  · obtain ⟨held', tb', mv, o⟩ := tb.advance hc
    refine ⟨held', tb', all.advance hc mv o fun s k hk => ?_, ?_, ?_, fun k =>
      ⟨mv.kept.deadlineTick k, mv.kept.generation k, mv.kept.action k⟩⟩
    · exact (all _ k hk).not_stepped_over hc
        (h k (tb.mem_armed.2 ⟨_, hk⟩) (tb.shape.cell hk).1)
    · rw [mv.kept.currentTick]
      exact (max_eq_right hc).symm
    · ext k
      rw [Timer.mem_armed, Timer.mem_armed]
      unfold Armed
      rw [mv.kept.generation, mv.kept.size]
  · have e : q.AdvanceTo now = q := by
      unfold AdvanceTo
      rw [if_pos (by omega)]
    rw [e]
    exact ⟨held, tb, all, by omega, rfl, fun k => ⟨rfl, rfl, rfl⟩⟩

/-- Placing a new timer keeps the others in time, and it comes up in time itself. -/
lemma AllInTime.armEntry (tb : Table q held) (all : AllInTime q held) (d : Int) (a : Action) :
    ∃ held', Table (q.armEntry d a).1 held' ∧ AllInTime (q.armEntry d a).1 held' ∧
      ArmedNow q (q.armEntry d a).1 (q.armEntry d a).2 d a ∧
      (q.armEntry d a).2 ∈ held' (.cell (placeOf q.currentTick d)) ∧
      ∀ cl k, k ≠ (q.armEntry d a).2 → (k ∈ held' (.cell cl) ↔ k ∈ held (.cell cl)) := by
  obtain ⟨held', tb', arm, placed, cells⟩ := tb.arm d a
  refine ⟨held', tb', fun cl k hk => ?_, arm, placed, cells⟩
  rw [arm.currentTick]
  by_cases e : k = (q.armEntry d a).2
  · subst e
    have := tb'.shape.custody.unique hk placed
    injection this with this
    rw [this, arm.deadlineTick]
    exact placeOf_inTime _ _
  · have hk' := (cells cl k e).1 hk
    have lt := (tb.shape.covers k).2 ⟨_, hk'⟩
    rw [(arm.others k e lt).1]
    exact all cl k hk'

/-- The wheel of a queue on which nothing is out of sight. -/
structure InSight (s : Queue) (held : Spot → List Nat) : Prop where
  table : Table s.impl held
  inTime : AllInTime s.impl held
  tick : 0 ≤ s.impl.currentTick
  clock : 0 ≤ s.clock

/-- Nothing on the wheel of the queue is out of sight. -/
lemma InSight.sight (is : InSight s held) : Sight s.impl := by
  refine ⟨fun e => ?_, fun k hk => is.table.next_le is.tick is.inTime hk⟩
  rcases is.table.nextEvent is.tick with ⟨-, none⟩ | ⟨-, pos, -⟩
  · exact none
  · omega

/-- The condition on the steps: no accepted `Arm` steps over a timer. -/
def NoStepOver (s : Queue) : Label → Prop
  | .arm call => s.accepts call = true → NotSteppedOver s.impl s.clock
  | _ => True

/-- After a pass the wheel does not stand below zero. -/
lemma PassEnds.tick_nonneg {q' : Impl} {p : Pass} (pe : PassEnds q now q' p) (h : 0 ≤ q.currentTick)
    (hn : 0 ≤ now) : 0 ≤ q'.currentTick := by
  cases pe with
  | wait _ => exact hn
  | waitUntil _ => exact h
  | step _ _ lt _ _ => omega
  | fire _ _ _ _ _ le _ _ => omega

/-- A step under the condition puts nothing out of sight. -/
lemma InSight.step (is : InSight s held) (ok : NoStepOver s a) (st : Step s a u) :
    ∃ held', InSight u held' := by
  have clock : ∀ {v : Queue}, v.impl = s.impl → s.clock ≤ v.clock → InSight v held := by
    intro v hi hc
    exact ⟨hi ▸ is.table, hi ▸ is.inTime, hi ▸ is.tick, is.clock.trans hc⟩
  cases st with
  | tick h => exact ⟨held, clock rfl h⟩
  | @arm call =>
    unfold Queue.Arm
    split
    next acc =>
      obtain ⟨held1, tb1, all1, tick1, -⟩ := is.inTime.toClock is.table (ok acc)
      obtain ⟨held', tb', all', arm, -⟩ :=
        all1.armEntry tb1 (s.clock + delayTicks call.delayNs) call.action
      refine ⟨held', tb', all', ?_, is.clock⟩
      show 0 ≤ ((s.impl.AdvanceTo s.clock).armEntry _ _).1.currentTick
      rw [arm.currentTick, tick1]
      exact is.tick.trans (le_max_left _ _)
    next => exact ⟨held, is⟩
  | @disarm h =>
    rcases is.table.disarm h with e | ⟨held', e, -, -, tb', r, cells⟩
    · refine ⟨held, clock ?_ le_rfl⟩
      show (s.impl.Disarm h).1 = s.impl
      rw [e]
    · have hi : (s.Disarm h).impl = s.impl.retire h.idx := by
        show (s.impl.Disarm h).1 = _
        rw [e]
      refine ⟨held', hi ▸ tb', fun cl k hk => ?_, ?_, is.clock⟩
      · obtain ⟨hk, ne⟩ := (cells cl k).1 hk
        rw [hi, r.currentTick, (r.others k ne).1]
        exact is.inTime cl k hk
      · rw [hi, r.currentTick]
        exact is.tick
  | run _ _ =>
    obtain ⟨held', tb', all', pe⟩ := is.table.pass is.tick is.inTime s.clock
    have hc : s.Run.clock = s.clock := by
      unfold Queue.Run
      simp only
      split <;> rfl
    refine ⟨held', ?_, ?_, ?_, ?_⟩
    · rw [Queue.Run_impl]
      exact tb'
    · rw [Queue.Run_impl]
      exact all'
    · rw [Queue.Run_impl]
      exact pe.tick_nonneg is.tick is.clock
    · rw [hc]
      exact is.clock
  | wake _ => exact ⟨held, clock rfl le_rfl⟩
  | exit _ _ => exact ⟨held, clock rfl le_rfl⟩
  | stop =>
    unfold Queue.Stop
    split
    · exact ⟨held, is⟩
    · exact ⟨held, clock rfl le_rfl⟩
  | start => exact ⟨held, clock rfl le_rfl⟩

/-- Nothing is out of sight on the empty wheel. -/
lemma InSight.init : InSight {} fun _ => [] := by
  refine ⟨Table.init, fun cl k hk => ?_, le_rfl, le_rfl⟩
  cases hk

/-- Nothing is out of sight in any state of a run under the condition. -/
lemma InSight.reached (rn : Runs Step NoStepOver {} s) : ∃ held, InSight s held := by
  refine rn.invariant (I := fun s => ∃ held, InSight s held) ⟨_, InSight.init⟩ ?_
  rintro t a u ⟨held, is⟩ ok st
  exact is.step ok st

/-- In every run in which no `Arm` steps over a timer of level 0, `NextEventTick` is `-1` only if nothing
is armed, and is not later than the present or any armed timer's deadline. -/
theorem never_out_of_sight (rn : Runs Step NoStepOver {} s) :
    (s.impl.NextEventTick = -1 → armed s.impl = ∅) ∧
    ∀ k ∈ armed s.impl,
      s.impl.NextEventTick ≤ max s.impl.currentTick (s.impl.entries k).deadlineTick := by
  obtain ⟨held, is⟩ := InSight.reached rn
  exact ⟨is.sight.none, is.sight.le⟩

/-- Two timers armed before either is due, the second after the wheel was moved by a pass. -/
theorem never_out_of_sight_two :
    ∃ s, Runs Step NoStepOver {} s ∧ s.impl.armedCount = 2 ∧
      ∀ k ∈ armed s.impl,
        s.impl.NextEventTick ≤ max s.impl.currentTick (s.impl.entries k).deadlineTick := by
  have r1 := (Runs.refl : Runs Step NoStepOver {} {}).next
    (.arm ⟨5000000, ⟨1, none, none⟩, true, false⟩) (fun _ => by decide +kernel) .arm
  have r2 := r1.next .run trivial (.run (by decide +kernel) (by decide +kernel))
  have r3 := r2.next (.tick 3) trivial (.tick (by decide +kernel))
  have r4 := r3.next (.arm ⟨1000000000, ⟨2, none, none⟩, true, false⟩)
    (fun _ => by decide +kernel) .arm
  exact ⟨_, r4, by decide +kernel, (never_out_of_sight r4).2⟩

/-- A timer is armed for tick 5. The worker has not run when, at tick 10, another is armed: the wheel
jumps to 10 and the first timer is next looked at at tick 261. -/
theorem out_of_sight_by_arm :
    ∃ s, Reaches Step {} s ∧ ∃ k ∈ armed s.impl, (s.impl.entries k).deadlineTick = 5 ∧
      s.impl.currentTick = 10 ∧ s.impl.NextEventTick = 261 ∧
      ¬s.impl.NextEventTick ≤ max s.impl.currentTick (s.impl.entries k).deadlineTick := by
  have r1 := (Runs.refl : Reaches Step {} {}).next (.arm ⟨5000000, ⟨1, none, none⟩, true, false⟩)
    trivial .arm
  have r2 := r1.next (.tick 10) trivial (.tick (by decide +kernel))
  have r3 := r2.next (.arm ⟨1000000000, ⟨2, none, none⟩, true, false⟩) trivial .arm
  exact ⟨_, r3, 0, by decide +kernel, by decide +kernel, by decide +kernel, by decide +kernel,
    by decide +kernel⟩

end JLib.Timer
