import JLib.Timer.Sight

/-!
# Wake-ups of the timer thread

A thread that is blocked and was not notified is to wake by itself before any timer is due. `Run` sees to
it when it blocks. `Arm` notifies only if the next event is not before the new deadline, and the window
of a coarser level opens before the deadlines in it: a timer more than a turn of level 0 away is armed
without a notify, however long the thread would have slept.
-/

namespace JLib.Timer
open LTS Impl Bits

variable {s u : Queue} {a : Label} {held : Spot → List Nat} {call : Call}

/-- The tick at which `Arm` makes a timer due. -/
def Queue.deadline (s : Queue) (call : Call) : Int := s.clock + delayTicks call.delayNs

/-- The thread is blocked and nothing was done to wake it. -/
def Queue.asleep (s : Queue) (w : Option Int) : Prop :=
  s.worker = .blocked w ∧ s.notified = false

/-- A timer with deadline `d`, placed on a wheel that stands at `c`, comes up no sooner than it is due. -/
def OpensOnTime (c d : Int) : Prop :=
  d - c < kMaxTicks ∧ d % LevelGranularity (placeOf c d).1 = 0

/-- The notify condition of `Arm` holds: the new timer opens no window before its deadline, and nor does
any other on a wheel that was moved to the clock. -/
def Notifies (s : Queue) (d : Int) : Prop :=
  OpensOnTime (max s.impl.currentTick s.clock) d ∧
  ((s.impl.AdvanceTo s.clock).NextEventTick < 0 ∨ d ≤ (s.impl.AdvanceTo s.clock).NextEventTick)

/-- The condition on an accepted `Arm`: it steps over no timer; the wheel is not past both the clock and
the deadline; and a sleeping thread wakes by the deadline anyway or is notified. -/
def WakesInTime (s : Queue) : Label → Prop
  | .arm call => s.accepts call = true →
      NotSteppedOver s.impl s.clock ∧
      (s.impl.currentTick ≤ s.clock ∨ s.impl.currentTick ≤ s.deadline call) ∧
      ∀ w, s.asleep w → (∃ t, w = some t ∧ t ≤ s.deadline call) ∨ Notifies s (s.deadline call)
  | _ => True

/-- The condition contains that no timer is stepped over. -/
lemma WakesInTime.noStepOver (ok : WakesInTime s a) : NoStepOver s a := by
  cases a with
  | arm call => exact fun acc => (ok acc).1
  | _ => trivial

/-- A delay is not negative. -/
lemma delayTicks_nonneg (n : Int) : 0 ≤ delayTicks n := by
  unfold delayTicks tickNs
  split
  · omega
  · exact le_rfl

/-- When `Arm` notifies: the next event of the wheel it leaves is none or not after the new deadline. -/
lemma Arm_notifies {q : Impl} {now delayNs : Int} {a : Action} :
    (q.Arm now delayNs a).2.2 =
      (decide (((q.AdvanceTo now).armEntry (now + delayTicks delayNs) a).1.NextEventTick < 0) ||
        decide (((q.AdvanceTo now).armEntry (now + delayTicks delayNs) a).1.NextEventTick ≥
          now + delayTicks delayNs)) := by
  unfold Impl.Arm
  rfl

/-- When `Arm` notifies. -/
lemma InSight.notifies (is : InSight s held) (no : NotSteppedOver s.impl s.clock)
    (h : Notifies s (s.deadline call)) :
    (s.impl.Arm s.clock call.delayNs call.action).2.2 = true := by
  obtain ⟨held1, tb1, all1, tick1, -⟩ := is.inTime.toClock is.table no
  obtain ⟨held', tb', -, arm, placed, cells⟩ :=
    all1.armEntry tb1 (s.deadline call) call.action
  obtain ⟨⟨far, opens⟩, other⟩ := h
  have tick0 : 0 ≤ (s.impl.AdvanceTo s.clock).currentTick := by
    rw [tick1]
    exact is.tick.trans (le_max_left _ _)
  rw [← tick1] at far opens
  have own := eventAt_placeOf far opens
  have hd : s.clock + delayTicks call.delayNs = s.deadline call := rfl
  rw [Arm_notifies, hd, Bool.or_eq_true, decide_eq_true_eq, decide_eq_true_eq]
  rcases tb'.nextEvent (arm.currentTick ▸ tick0) with ⟨e, -⟩ | ⟨⟨cl, k, hk, e⟩, -, -⟩
  · left
    exact e.trans_lt (by decide)
  · right
    rw [ge_iff_le, e, arm.currentTick]
    by_cases hk' : k = ((s.impl.AdvanceTo s.clock).armEntry (s.deadline call) call.action).2
    · subst hk'
      have := tb'.shape.custody.unique hk placed
      injection this with this
      rw [this]
      exact own
    · have hk1 := (cells cl k hk').1 hk
      rcases tb1.nextEvent tick0 with ⟨-, none⟩ | ⟨-, pos, least⟩
      · have := tb1.mem_armed.2 ⟨cl, hk1⟩
        rw [none] at this
        cases this
      · have := least cl k hk1
        omega

/-- A sleeping thread wakes by itself before anything is due, and the wheel has not passed both the clock
and a timer. -/
structure Rested (s : Queue) : Prop where
  asleep : ∀ w, s.asleep w → ∀ k ∈ armed s.impl, ∃ t, w = some t ∧ t ≤ (s.impl.entries k).deadlineTick
  behind : ∀ k ∈ armed s.impl,
    s.impl.currentTick ≤ (s.impl.entries k).deadlineTick ∨ s.impl.currentTick ≤ s.clock

/-- A timer that `Arm` accepts joins those that are armed. -/
lemma InSight.arm_timers (is : InSight s held) (no : NotSteppedOver s.impl s.clock)
    (acc : s.accepts call = true) :
    (s.Arm call).impl.currentTick = max s.impl.currentTick s.clock ∧
    ∀ k ∈ armed (s.Arm call).impl,
      ((s.Arm call).impl.entries k).deadlineTick = s.deadline call ∨
      k ∈ armed s.impl ∧
        ((s.Arm call).impl.entries k).deadlineTick = (s.impl.entries k).deadlineTick := by
  obtain ⟨held1, tb1, all1, tick1, arm1, same1⟩ := is.inTime.toClock is.table no
  obtain ⟨held', tb', -, arm, -⟩ := all1.armEntry tb1 (s.deadline call) call.action
  have e : (s.Arm call).impl =
      ((s.impl.AdvanceTo s.clock).armEntry (s.deadline call) call.action).1 := by
    rw [Queue.Arm_eq acc]
    rfl
  rw [e]
  refine ⟨arm.currentTick.trans tick1, fun k hk => ?_⟩
  rw [arm.armed, Finset.mem_insert] at hk
  by_cases hk' : k = ((s.impl.AdvanceTo s.clock).armEntry (s.deadline call) call.action).2
  · left
    rw [hk']
    exact arm.deadlineTick
  · right
    have hk1 := hk.resolve_left hk'
    have lt := (Timer.mem_armed.1 hk1).1
    rw [arm1] at hk1
    exact ⟨hk1, (arm.others k hk' lt).1.trans (same1 k).1⟩

/-- An `Arm` under the condition leaves the thread's sleep in order. -/
lemma Rested.arm (r : Rested s) (is : InSight s held) (ok : WakesInTime s (.arm call)) :
    Rested (s.Arm call) := by
  by_cases acc : s.accepts call = true
  · obtain ⟨no, late, wakes⟩ := ok acc
    obtain ⟨tick, timers⟩ := is.arm_timers no acc
    have clock : (s.Arm call).clock = s.clock := by rw [Queue.Arm_eq acc]
    refine ⟨fun w hw k hk => ?_, fun k hk => ?_⟩
    · -- nothing was notified, so the thread was asleep before and its own wake-up is soon enough
      rw [Queue.Arm_eq acc] at hw
      obtain ⟨hb, hn⟩ := hw
      simp only [Bool.or_eq_false_iff] at hn
      have was : s.asleep w := by
        refine ⟨?_, hn.1⟩
        by_cases run : s.running = true
        · simpa [run] using hb
        · simp [run] at hb
      rcases timers k hk with e | ⟨hk', e⟩
      · rw [e]
        refine (wakes w was).resolve_right fun h => ?_
        have := is.notifies no h
        rw [hn.2] at this
        cases this
      · rw [e]
        exact r.asleep w was k hk'
    · rw [tick, clock]
      rcases timers k hk with e | ⟨hk', e⟩
      · rw [e]
        have := delayTicks_nonneg call.delayNs
        unfold Queue.deadline at *
        omega
      · rw [e]
        have := r.behind k hk'
        omega
  · have e : s.Arm call = s := by
      unfold Queue.Arm
      rw [if_neg acc]
    rw [e]
    exact r

/-- A `Disarm` leaves the thread's sleep in order. -/
lemma Rested.disarm (r : Rested s) (is : InSight s held) (h : TimerHandle) :
    Rested (s.Disarm h) := by
  rcases is.table.disarm h with e | ⟨held', e, -, -, tb', re, cells⟩
  · have : s.Disarm h = s := by
      unfold Queue.Disarm
      rw [e]
    rw [this]
    exact r
  · have hi : (s.Disarm h).impl = s.impl.retire h.idx := by
      show (s.impl.Disarm h).1 = _
      rw [e]
    have old : ∀ k ∈ armed (s.Disarm h).impl, k ∈ armed s.impl ∧
        ((s.Disarm h).impl.entries k).deadlineTick = (s.impl.entries k).deadlineTick := by
      intro k hk
      rw [hi] at hk ⊢
      obtain ⟨cl, hk⟩ := tb'.mem_armed.1 hk
      obtain ⟨hk, ne⟩ := (cells cl k).1 hk
      exact ⟨is.table.mem_armed.2 ⟨cl, hk⟩, (re.others k ne).1⟩
    refine ⟨fun w hw k hk => ?_, fun k hk => ?_⟩
    · obtain ⟨hk', e⟩ := old k hk
      rw [e]
      exact r.asleep w hw k hk'
    · obtain ⟨hk', e⟩ := old k hk
      rw [e, hi, re.currentTick]
      exact r.behind k hk'

/-- A pass ends in a sleep that is in order. -/
lemma Rested.run (r : Rested s) (is : InSight s held) (awake : s.worker = .awake) :
    Rested s.Run := by
  obtain ⟨-, -, -, pe⟩ := is.table.pass is.tick is.inTime s.clock
  unfold Queue.Run
  simp only
  generalize (s.impl.RunPass s.clock).1 = q' at pe
  generalize (s.impl.RunPass s.clock).2 = p at pe
  have up : ∀ w, ¬({ s with impl := q' } : Queue).asleep w := by
    intro w hw
    have := awake.symm.trans hw.1
    cases this
  cases pe with
  | wait none =>
    constructor
    · intro w _ k hk
      change k ∈ armed s.impl at hk
      rw [none] at hk
      cases hk
    · intro k _
      exact .inr le_rfl
  | waitUntil lt =>
    constructor
    · intro w hw k hk
      cases hw.1
      refine ⟨_, rfl, ?_⟩
      have := is.sight.le k hk
      have := r.behind k hk
      show s.impl.NextEventTick ≤ (s.impl.entries k).deadlineTick
      omega
    · exact r.behind
  | step arm same lt le before =>
    constructor
    · intro w hw
      exact absurd hw (up w)
    · intro k hk
      change k ∈ armed q' at hk
      rw [arm] at hk
      have := before k hk
      rw [← (same k hk).1] at this
      exact .inl this
  | fire _ _ _ _ _ _ le _ =>
    constructor
    · intro w hw
      exact absurd hw (up w)
    · intro k _
      exact .inr le

/-- A step under the condition leaves the thread's sleep in order. -/
lemma Rested.step (r : Rested s) (is : InSight s held) (ok : WakesInTime s a) (st : Step s a u) :
    Rested u := by
  cases st with
  | tick h =>
    refine ⟨r.asleep, fun k hk => ?_⟩
    exact (r.behind k hk).imp_right fun le => le.trans h
  | arm => exact r.arm is ok
  | disarm => exact r.disarm is _
  | run awake _ => exact r.run is awake
  | wake _ =>
    refine ⟨fun w hw => ?_, r.behind⟩
    cases hw.1
  | exit _ _ =>
    refine ⟨fun w hw => ?_, r.behind⟩
    cases hw.1
  | stop =>
    unfold Queue.Stop
    split
    · exact r
    · refine ⟨fun w hw => ?_, r.behind⟩
      cases hw.2
  | start => exact ⟨r.asleep, r.behind⟩

/-- There is no thread at first. -/
lemma Rested.init : Rested {} := by
  refine ⟨fun w hw => ?_, fun k hk => ?_⟩
  · cases hw.1
  · cases hk

/-- In every run in which each accepted `Arm` meets the condition, a thread that is blocked and was not
notified is in a timed wait that ends by every armed timer's deadline. -/
theorem never_oversleeps (rn : Runs Step WakesInTime {} s) {w : Option Int}
    (blocked : s.worker = .blocked w) (quiet : s.notified = false) :
    ∀ k ∈ armed s.impl, ∃ t, w = some t ∧ t ≤ (s.impl.entries k).deadlineTick := by
  have inv : (∃ held, InSight s held) ∧ Rested s := by
    refine rn.invariant (I := fun s => (∃ held, InSight s held) ∧ Rested s)
      ⟨⟨_, InSight.init⟩, Rested.init⟩ ?_
    rintro t a u ⟨⟨held, is⟩, r⟩ ok st
    exact ⟨is.step ok.noStepOver st, r.step is ok st⟩
  exact inv.2.asleep w ⟨blocked, quiet⟩

/-- The thread blocks without a timeout, is notified of a timer 5 ticks away, and blocks up to it. A
second timer behind it needs no notify. -/
theorem never_oversleeps_timed :
    ∃ s, Runs Step WakesInTime {} s ∧ s.worker = .blocked (some 5) ∧ s.notified = false ∧
      s.impl.armedCount = 2 ∧
      ∀ k ∈ armed s.impl, ∃ t, some (5 : Int) = some t ∧ t ≤ (s.impl.entries k).deadlineTick := by
  have until5 : ∀ {s : Queue} {w d}, s.worker = .blocked (some 5) → s.asleep w → 5 ≤ d →
      ∃ t, w = some t ∧ t ≤ d := by
    intro s w d h hw le
    have := h.symm.trans hw.1
    injection this with this
    exact ⟨5, this.symm, le⟩
  have r1 := (Runs.refl : Runs Step WakesInTime {} {}).next
    (.arm ⟨5000000, ⟨1, none, none⟩, true, false⟩)
    (fun _ => ⟨by decide +kernel, .inl le_rfl, fun w hw => by cases hw.1⟩) .arm
  have r2 := r1.next .run trivial (.run (by decide +kernel) (by decide +kernel))
  have r3 := r2.next (.arm ⟨1000000000, ⟨2, none, none⟩, true, false⟩)
    (fun _ => ⟨by decide +kernel, .inl (by decide +kernel), fun w hw =>
      .inl (until5 (by decide +kernel) hw (by decide +kernel))⟩) .arm
  exact ⟨_, r3, by decide +kernel, by decide +kernel, by decide +kernel,
    never_oversleeps r3 (by decide +kernel) (by decide +kernel)⟩

/-- The thread is blocked without a timeout on an empty wheel. A timer is armed for tick 1000: its window
opens at tick 768, which is before the deadline, and nobody wakes the thread. -/
theorem oversleeps_coarse_window :
    ∃ s, Reaches Step {} s ∧ s.worker = .blocked none ∧ s.notified = false ∧
      ∃ k ∈ armed s.impl, (s.impl.entries k).deadlineTick = 1000 ∧
        ¬∃ t, (none : Option Int) = some t ∧ t ≤ (s.impl.entries k).deadlineTick := by
  have r1 := (Runs.refl : Reaches Step {} {}).next (.arm ⟨5000000, ⟨1, none, none⟩, true, false⟩)
    trivial .arm
  have r2 := r1.next (.disarm ⟨0, 1⟩) trivial .disarm
  have r3 := r2.next .run trivial (.run (by decide +kernel) (by decide +kernel))
  have r4 := r3.next (.arm ⟨1000000000, ⟨2, none, none⟩, true, false⟩) trivial .arm
  refine ⟨_, r4, by decide +kernel, by decide +kernel, 0, by decide +kernel, by decide +kernel, ?_⟩
  rintro ⟨t, e, -⟩
  cases e

end JLib.Timer
