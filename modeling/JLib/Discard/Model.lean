import JLib.Cancel.Token
import JLib.Dispatch.Model
import JLib.TaskDAG.Model

/-!
# The dispatches of one task

What happens to one task from the queue to the return of its slot. A task is picked up by a worker's pass
(`Thread::Worker`), by `ProcessMainThread`, by the drain of a lane in `ParallelFor`, or by a thread that helps
(`TryRunStolenNativeTask`). Whoever has picked it up is the only one to touch it, so a dispatch is one step;
what it reads of the rest of the process, the scopes, the stock of fibers, the word of the `WaitGroup`, is
whatever it finds. What is done to the task, its node and its `WaitGroup` is written down in order.

`refused` is read by no step.
-/

namespace JLib.Discard
open LTS Dispatch TaskDAG

/-- What `fn` is, as far as it is compared: the trampoline that `TaskDAG::Fire` installs, the function of the
same name and text in `include/Thread.h`, or anything else. -/
inductive Fn where
  | user
  | dagWrapper
  | threadWrapper
  deriving DecidableEq

/-- The fields of a task that a dispatch reads. `data` is the node it points to, if it does. -/
structure Task (ν : Type) where
  fn : Fn
  data : Option ν
  type : TaskType
  waitGroup : Bool
  trivialDtor : Bool

inductive Effect (ν : Type) where
  | body
  -- `OnTaskFinished`
  | finished (n : ν) (outcome : Outcome)
  | decrement
  | wakeAll
  | destroy
  | free
  deriving DecidableEq

inductive Site where
  | worker (isReservedWorker : Bool)
  | main
  | drain
  | help

/-- How a fiber comes back to its worker. -/
inductive FiberStatus where
  | DEAD
  | WANTS_YIELD
  | WANTS_SUSPEND
  | SUSPEND_SIGNALED

/-- What a dispatch finds. -/
structure Env where
  world : World Unit
  -- `AcquireFiber` has one
  fiber : Bool
  status : FiberStatus
  -- the word of the `WaitGroup` at the decrement
  n : BitVec 32

inductive Place where
  | queued
  | suspended
  | gone
  deriving DecidableEq

structure State (ν : Type) where
  place : Place := .queued
  started : Bool := false
  assignedFiber : Bool := false
  log : List (Effect ν) := []
  -- the dispatches that got no fiber
  refused : Nat := 0

def WAITER_BIT : BitVec 32 := 0x40000000

def COUNT_MASK : BitVec 32 := WAITER_BIT - 1

variable {ν : Type}

namespace Task

/-- The node of a graph that the task was wrapped for. -/
def node (k : Task ν) : Option ν := if k.fn = .user then none else k.data

/-- The decrement of the `WaitGroup`. -/
def release (k : Task ν) (n : BitVec 32) : List (Effect ν) :=
  if k.waitGroup then
    if n &&& COUNT_MASK = 1 ∧ n &&& WAITER_BIT ≠ 0 then [.decrement, .wakeAll] else [.decrement]
  else []

/-- `DestroyTask` and `Free`. -/
def dispose (k : Task ν) : List (Effect ν) := if k.trivialDtor then [.free] else [.destroy, .free]

/-- The node is told of the discard if `fn` is the wrapper it is compared with. -/
def discarded (k : Task ν) (wrapper : Fn) : List (Effect ν) :=
  if k.fn = wrapper then (k.data.map (.finished · .Cancelled)).toList else []

/-- A wrapper tells the node when the body has returned. -/
def completed (k : Task ν) : List (Effect ν) := (k.node.map (.finished · .Completed)).toList

end Task

namespace State

/-- `DiscardIfCancelled`, in `Thread::Worker` with the wrapper of that class. -/
def discardIfCancelled (k : Task ν) (wrapper : Fn) (e : Env) (s : State ν) : Option (State ν) :=
  if s.started = false ∧ e.world.isTaskCancelled () = true then
    some { s with place := .gone, log := s.log ++ (k.discarded wrapper ++ k.release e.n ++ k.dispose) }
  else none

/-- `Execute()` on the stack of the thread, and what follows it. -/
def executed (k : Task ν) (e : Env) (s : State ν) : State ν :=
  { s with place := .gone, log := s.log ++ (.body :: k.completed ++ k.release e.n ++ k.dispose) }

/-- The switch to a new fiber or to the task's own, until it comes back. -/
def switched (k : Task ν) (e : Env) (s : State ν) : State ν :=
  let log := if s.assignedFiber then s.log else s.log ++ [.body]
  match e.status with
  | .DEAD =>
    { s with place := .gone, assignedFiber := false, log := log ++ (k.completed ++ k.release e.n ++ k.dispose) }
  | .WANTS_YIELD => { s with assignedFiber := true, log := log }
  | .WANTS_SUSPEND => { s with place := .suspended, assignedFiber := true, log := log }
  | .SUSPEND_SIGNALED => { s with assignedFiber := true, log := log }

/-- A task that got no fiber is pushed into an inbox. -/
def worker (k : Task ν) (isReservedWorker : Bool) (e : Env) (s : State ν) : State ν :=
  match s.discardIfCancelled k .threadWrapper e with
  | some s' => s'
  | none =>
    if k.type = .Native ∧ isReservedWorker = false then { s with started := true }.executed k e
    else if s.assignedFiber = true ∨ e.fiber = true then { s with started := true }.switched k e
    else { s with started := true, refused := s.refused + 1 }

/-- `ParallelFor` and `TryRunStolenNativeTask`. -/
def runHere (k : Task ν) (e : Env) (s : State ν) : State ν :=
  match s.discardIfCancelled k .dagWrapper e with
  | some s' => s'
  | none => s.executed k e

/-- The destructor is called whatever `trivialDtor` says. -/
def processMainThread (k : Task ν) (e : Env) (s : State ν) : State ν :=
  match s.discardIfCancelled k .dagWrapper e with
  | some s' => s'
  | none => s.executed { k with trivialDtor := false } e

def dispatch (k : Task ν) (e : Env) (s : State ν) : Site → State ν
  | .worker isReservedWorker => s.worker k isReservedWorker e
  | .main => s.processMainThread k e
  | .drain => s.runHere k e
  | .help => s.runHere k e

end State

inductive Label where
  | dispatch (site : Site) (e : Env)
  | resume

inductive Step (k : Task ν) : State ν → Label → State ν → Prop where
  | dispatch {s : State ν} {site e} :
    s.place = .queued →
    (site = .help → k.type ≠ .Fiber) →
    Step k s (.dispatch site e) (s.dispatch k e site)
  | resume {s : State ν} :
    s.place = .suspended →
    Step k s .resume { s with place := .queued }

end JLib.Discard
