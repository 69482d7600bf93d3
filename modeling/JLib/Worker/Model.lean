import JLib.LTS.Runs
import Mathlib.Data.Multiset.AddSub
import Mathlib.Logic.Function.Basic

/-!
# One pass of a worker

The body of the loop of `Thread::Worker` in `src/Thread.cpp`: the task found by the pass before is
dispatched, and before it runs a part of the ordinary inbox is published on the worker's own deque; then
the queues are searched in a fixed order for the next task. `task_to_run` is the one variable that all the
places of the search write. Every operation on a queue is a step of the worker. In between producers,
thieves and other workers do what they like to the queues they have access to: the worker's own deque
they can only steal from.

A pop of an inbox can fail although something was pushed, when a push is half linked.
-/

namespace JLib.Worker
open LTS

def BATCH_SIZE : Nat := 64
def kPublishAtMost : Nat := 32
def kDequeHeadroom : Nat := 256
def kStealHintDepth : Nat := 8

/-- Where the pass is. `drain` comes before the steal phase and once more after it. -/
inductive Phase where
  | dispatch
  | publish
  | run
  | intake
  | lane
  | yielded
  | yieldedDeque
  | resumed
  | bottom
  | drain (again : Bool)
  | steal
  | done
  deriving DecidableEq

/-- The queues, with the worker's deque from the bottom and the others' from the top, and the variables of
the pass. -/
structure Pass (τ ι : Type) where
  laneIntake : List τ
  myLane : List τ
  myInbox : List τ
  myResumed : List τ
  myDeque : List τ
  deques : ι → List τ
  inboxDepth : Int
  isReservedWorker : Bool
  yieldedLastPass : Bool
  fibersMigrate : Bool
  task_to_run : Option τ
  batch : List τ := []
  phase : Phase := .dispatch
  -- what the pass removed from queues other than its own deque, what thieves took from that deque, and
  -- what the task that ran put on it and took from it
  taken : Multiset τ := 0
  stolen : Multiset τ := 0
  spawned : Multiset τ := 0
  handed : Multiset τ := 0

inductive Label where
  | worker
  | body
  | outside
  deriving DecidableEq

variable {τ ι : Type} [DecidableEq ι]

namespace Pass

def publishes (s : Pass τ ι) : Bool :=
  !s.isReservedWorker && decide ((kStealHintDepth : Int) ≤ s.inboxDepth) &&
    decide (s.myDeque.length < kDequeHeadroom)

/-- The pass has found a task. -/
def found (s : Pass τ ι) (t : τ) : Pass τ ι := { s with task_to_run := some t, phase := .done }

/-- A task is removed from a queue of others. -/
def take (s : Pass τ ι) (t : τ) : Pass τ ι := { s with taken := t ::ₘ s.taken }

/-- The counter of the inbox after a drain. -/
def drained (s : Pass τ ι) : Int := if s.myInbox.isEmpty then 0 else s.inboxDepth - s.batch.length

/-- `push_bottom_batch`. -/
def push_bottom_batch (s : Pass τ ι) (items : List τ) : Pass τ ι :=
  { s with myDeque := items.reverse ++ s.myDeque }

end Pass

inductive Step : Pass τ ι → Label → Pass τ ι → Prop where
  -- the task of the pass before
  | idle {s} :
    s.phase = .dispatch →
    s.task_to_run = none →
    Step s .worker { s with phase := .intake }
  | dispatch {s} :
    s.phase = .dispatch →
    s.task_to_run ≠ none →
    Step s .worker { s with phase := if s.publishes then .publish else .run }
  | publishPop {s t rest} :
    s.phase = .publish →
    s.batch.length < kPublishAtMost →
    s.myInbox = t :: rest →
    Step s .worker { s.take t with myInbox := rest, batch := s.batch ++ [t] }
  | publishPush {s} :
    s.phase = .publish →
    Step s .worker { s.push_bottom_batch s.batch with
      batch := [], inboxDepth := s.inboxDepth - s.batch.length, phase := .run }
  | discard {s} :
    s.phase = .run →
    Step s .worker { s with task_to_run := none, phase := .done }
  | spawn {s t} :
    s.phase = .run →
    Step s .body { s with myDeque := t :: s.myDeque, spawned := t ::ₘ s.spawned }
  | hand {s t rest} :
    s.phase = .run →
    s.myDeque = t :: rest →
    Step s .body { s with myDeque := rest, handed := t ::ₘ s.handed }
  | ran {s} {y : Bool} :
    s.phase = .run →
    Step s .worker { s with
      task_to_run := none, yieldedLastPass := y || s.yieldedLastPass, phase := .intake }
  -- the search
  | intake {s t l r} :
    s.phase = .intake →
    s.isReservedWorker = true →
    s.laneIntake = l ++ t :: r →
    Step s .worker { s.take t with laneIntake := l ++ r, task_to_run := some t, phase := .lane }
  | noIntake {s} :
    s.phase = .intake →
    Step s .worker { s with phase := .lane }
  | lane {s t rest} :
    s.phase = .lane →
    s.task_to_run = none →
    s.myLane = t :: rest →
    Step s .worker ({ s.take t with myLane := rest, inboxDepth := s.inboxDepth - 1 }.found t)
  | noLane {s} :
    s.phase = .lane →
    Step s .worker { s with phase := .yielded }
  | notYielded {s} :
    s.phase = .yielded →
    s.yieldedLastPass = false →
    Step s .worker { s with phase := .resumed }
  | yieldedInbox {s t rest} :
    s.phase = .yielded →
    s.yieldedLastPass = true →
    s.isReservedWorker = false →
    s.myInbox = t :: rest →
    Step s .worker ({ s.take t with
      yieldedLastPass := false, myInbox := rest, inboxDepth := s.inboxDepth - 1 }.found t)
  | yieldedNoInbox {s} :
    s.phase = .yielded →
    s.yieldedLastPass = true →
    Step s .worker { s with yieldedLastPass := false, phase := .yieldedDeque }
  -- `task_to_run` is not looked at here
  | yieldedDeque {s t rest} :
    s.phase = .yieldedDeque →
    s.myDeque = t :: rest →
    Step s .worker ({ s with myDeque := rest }.found t)
  | yieldedNoDeque {s} :
    s.phase = .yieldedDeque →
    s.myDeque = [] →
    Step s .worker { s with phase := .resumed }
  | resumed {s t rest} :
    s.phase = .resumed →
    s.task_to_run = none →
    s.fibersMigrate = false →
    s.myResumed = t :: rest →
    Step s .worker ({ s.take t with myResumed := rest }.found t)
  | noResumed {s} :
    s.phase = .resumed →
    Step s .worker { s with phase := .bottom }
  | bottom {s t rest} :
    s.phase = .bottom →
    s.task_to_run = none →
    s.isReservedWorker = false →
    s.myDeque = t :: rest →
    Step s .worker ({ s with myDeque := rest }.found t)
  | noBottom {s} :
    s.phase = .bottom →
    s.task_to_run ≠ none ∨ s.isReservedWorker = true ∨ s.myDeque = [] →
    Step s .worker { s with phase := .drain false }
  | drainPop {s again t rest} :
    s.phase = .drain again →
    s.task_to_run = none →
    s.isReservedWorker = false →
    s.batch.length < BATCH_SIZE →
    s.myInbox = t :: rest →
    Step s .worker { s.take t with myInbox := rest, batch := s.batch ++ [t] }
  | noDrain {s again} :
    s.phase = .drain again →
    s.batch = [] →
    s.task_to_run ≠ none ∨ s.isReservedWorker = true →
    Step s .worker { s with phase := if again then .done else .steal }
  | drainNone {s again} :
    s.phase = .drain again →
    s.batch = [] →
    Step s .worker { s with
      inboxDepth := s.drained, phase := if again then .done else .steal }
  | drainPush {s again keep t} :
    s.phase = .drain again →
    s.batch = keep ++ [t] →
    Step s .worker { s.push_bottom_batch keep with
      batch := [], inboxDepth := s.drained, task_to_run := some t,
      phase := if again then .done else .steal }
  | steal {s t i rest} :
    s.phase = .steal →
    s.task_to_run = none →
    s.deques i = t :: rest →
    Step s .worker ({ s.take t with deques := Function.update s.deques i rest }.found t)
  | noSteal {s} :
    s.phase = .steal →
    Step s .worker { s with phase := .drain true }
  -- the others
  | outside {s intake lane inbox resumed deques depth} :
    Step s .outside { s with
      laneIntake := intake, myLane := lane, myInbox := inbox, myResumed := resumed, deques := deques,
      inboxDepth := depth }
  | thief {s t l} :
    s.myDeque = l ++ [t] →
    Step s .outside { s with myDeque := l, stolen := t ::ₘ s.stolen }

end JLib.Worker
