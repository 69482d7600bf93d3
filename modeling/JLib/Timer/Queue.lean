import JLib.Timer.Pass
import JLib.LTS.Runs

/-!
# The timer queue

`TimerQueue` as a step system: calls of `Arm`, `Disarm`, `Stop` and `Start` by any thread, the worker
that executes `Run`, and a tick clock that does not go back. Everything under the lock is one step. A
worker that blocks gives up the lock; it is woken by a notify, by its timeout, or for no reason, so a
wake-up is possible at any time, and what is said about a blocked worker is said about the time before
that. A pass that ends with `++currentTick` keeps the lock for the next one; to let others in between the
two only adds runs.
-/

namespace JLib.Timer
open LTS Impl

/-- The thread that executes `Run`: there is none, it is awake, or it is blocked, up to a tick if it
called `wait_for`. -/
inductive Worker where
  | absent
  | awake
  | blocked (tick : Option Int)
  deriving Repr, DecidableEq

structure Queue where
  impl : Impl := {}
  running : Bool := false
  stopping : Bool := false
  worker : Worker := .absent
  -- a notify was issued since the worker blocked
  notified : Bool := false
  clock : Int := 0
  -- the timers that were accepted since the last `Start`
  fresh : List TimerHandle := []

/-- What `Arm` is called with: whether the token is valid, and whether there is a pool that was sized
without a core for the timer thread. -/
structure Call where
  delayNs : Int
  action : Action
  tokenValid : Bool := true
  timersOff : Bool := false

namespace Queue

/-- Whether `Arm` gets past its three refusals. -/
def accepts (s : Queue) (call : Call) : Bool :=
  call.tokenValid && !s.stopping && !call.timersOff

def Arm (s : Queue) (call : Call) : Queue :=
  if s.accepts call then
    let r := s.impl.Arm s.clock call.delayNs call.action
    { s with
      impl := r.1
      running := true
      worker := if s.running then s.worker else .awake
      notified := s.notified || r.2.2
      fresh := r.2.1 :: s.fresh }
  else s

def Disarm (s : Queue) (h : TimerHandle) : Queue := { s with impl := (s.impl.Disarm h).1 }

def Start (s : Queue) : Queue := { s with stopping := false, fresh := [] }

/-- The locked part of `Stop`; the join comes after it and touches nothing. -/
def Stop (s : Queue) : Queue :=
  if s.stopping then s else { s with stopping := true, notified := true }

/-- One pass of `Run`. -/
def Run (s : Queue) : Queue :=
  let r := s.impl.RunPass s.clock
  match r.2 with
  | .wait => { s with impl := r.1, worker := .blocked none, notified := false }
  | .waitUntil w => { s with impl := r.1, worker := .blocked (some w), notified := false }
  | .step | .fire _ _ => { s with impl := r.1 }

end Queue

inductive Label where
  | tick (t : Int)
  | arm (call : Call)
  | disarm (h : TimerHandle)
  | run
  | wake
  | exit
  | stop
  | start

inductive Step : Queue → Label → Queue → Prop where
  | tick {s t} :
    s.clock ≤ t →
    Step s (.tick t) { s with clock := t }
  | arm {s call} :
    Step s (.arm call) (s.Arm call)
  | disarm {s h} :
    Step s (.disarm h) (s.Disarm h)
  | run {s} :
    s.worker = .awake →
    s.stopping = false →
    Step s .run s.Run
  | wake {s u} :
    s.worker = .blocked u →
    Step s .wake { s with worker := .awake }
  | exit {s} :
    s.worker = .awake →
    s.stopping = true →
    Step s .exit { s with worker := .absent }
  | stop {s} :
    Step s .stop s.Stop
  | start {s} :
    Step s .start s.Start

variable {s u : Queue} {a : Label}

/-- What a step does to the wheel: nothing, or one of the four operations under the lock. -/
inductive Touch (s : Queue) : Impl → Prop where
  | same :
    Touch s s.impl
  | arm {call} :
    s.accepts call = true →
    Touch s (s.impl.Arm s.clock call.delayNs call.action).1
  | disarm {h} :
    Touch s (s.impl.Disarm h).1
  | run :
    Touch s (s.impl.RunPass s.clock).1

/-- An accepted `Arm` moves the wheel, arms an entry and tells the thread. -/
lemma Queue.Arm_eq {call : Call} (acc : s.accepts call = true) : s.Arm call =
    { s with
      impl := (s.impl.Arm s.clock call.delayNs call.action).1
      running := true
      worker := if s.running then s.worker else .awake
      notified := s.notified || (s.impl.Arm s.clock call.delayNs call.action).2.2
      fresh := (s.impl.Arm s.clock call.delayNs call.action).2.1 :: s.fresh } := by
  unfold Queue.Arm
  rw [if_pos acc]

/-- What a pass of the thread does to the wheel. -/
lemma Queue.Run_impl (s : Queue) : s.Run.impl = (s.impl.RunPass s.clock).1 := by
  unfold Queue.Run
  simp only
  split <;> rfl

/-- A step touches the wheel by one of the four operations, or not. -/
lemma Step.touch (st : Step s a u) : Touch s u.impl := by
  cases st with
  | tick _ => exact .same
  | @arm call =>
    unfold Queue.Arm
    split
    next h => exact .arm h
    next => exact .same
  | disarm => exact .disarm
  | run _ _ =>
    rw [Queue.Run_impl]
    exact .run
  | wake _ => exact .same
  | exit _ _ => exact .same
  | stop =>
    unfold Queue.Stop
    split
    · exact .same
    · exact .same
  | start => exact .same

/-! ## The representation -/

/-- A move to any tick leaves a table. -/
lemma Table.advance_any {q : Impl} {held : Spot → List Nat} (tb : Table q held) (t : Int) :
    ∃ held', Table (q.AdvanceTo t) held' := by
  by_cases h : q.currentTick ≤ t
  · obtain ⟨held', tb', -⟩ := tb.advance h
    exact ⟨held', tb'⟩
  · refine ⟨held, ?_⟩
    unfold AdvanceTo
    rw [if_pos (by omega)]
    exact tb

/-- Whatever touches the wheel leaves a table. -/
lemma Touch.table {q : Impl} {held : Spot → List Nat} (tb : Table s.impl held) (tc : Touch s q) :
    ∃ held', Table q held' := by
  cases tc with
  | same => exact ⟨held, tb⟩
  | @arm call _ =>
    obtain ⟨held1, tb1⟩ := tb.advance_any s.clock
    obtain ⟨held', tb', -⟩ := tb1.arm (s.clock + delayTicks call.delayNs) call.action
    exact ⟨held', tb'⟩
  | @disarm h =>
    rcases tb.disarm h with e | ⟨held', e, -, -, tb', -⟩
    · rw [e]
      exact ⟨held, tb⟩
    · rw [e]
      exact ⟨held', tb'⟩
  | run => exact tb.pass_table s.clock

/-- The empty wheel is a table. -/
lemma Table.init : Table {} fun _ => [] := by
  refine ⟨⟨Custody.empty fun _ => rfl, fun i => ?_, fun _ => .nil, .nil, fun h => ?_, fun h => ?_,
    fun cl => ?_⟩, rfl, fun i lt => ?_, rfl⟩
  · simp
  · cases h
  · cases h
  · simp [Occupied]
  · simp at lt

/-- In every reachable state every entry is at one place, on the free list or in the doubly linked list
of the slot its fields name; it is linked exactly when its generation is odd; the bitmap says which
lists are not empty; and the counter is the number of odd generations. -/
theorem table_invariant (rn : Reaches Step {} s) : ∃ held, Table s.impl held := by
  refine rn.invariant (I := fun s => ∃ held, Table s.impl held) ⟨_, Table.init⟩ ?_
  rintro t a u ⟨held, tb⟩ - st
  exact st.touch.table tb

/-- A state in which one timer is armed and another entry is free. -/
theorem table_invariant_armed :
    ∃ s, Reaches Step {} s ∧ (∃ held, Table s.impl held) ∧ s.impl.armedCount = 1 ∧
      s.impl.size = 2 := by
  have r1 := (Runs.refl : Reaches Step {} {}).next (.arm ⟨5000000, ⟨1, none, none⟩, true, false⟩)
    trivial .arm
  have r2 := r1.next (.arm ⟨1000000000, ⟨2, none, none⟩, true, false⟩) trivial .arm
  have r3 := r2.next (.disarm ⟨0, 1⟩) trivial .disarm
  exact ⟨_, r3, table_invariant r3, by decide +kernel, by decide +kernel⟩

end JLib.Timer
