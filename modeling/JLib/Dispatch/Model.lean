import JLib.LTS.Runs
import Mathlib.Logic.Function.Basic

/-!
# Who runs a task, and how

The queues of the pool and every place that takes a task out of one and runs it. A task is run on a fiber
by a worker's pass, or directly, by a call of `Execute()` on the stack of the thread that took it: in the
fast path of `Thread::Worker` for Native tasks, in `TaskScheduler::TryRunStolenNativeTask`, through which a
blocked thread helps, and in the drain of its own lane that `TaskScheduler::ParallelFor` does while it
waits. A task that was suspended goes through the same queues as fresh ones.

A pass reads the band once, at its top, and `isReservedWorker` holds what it read. A task found in one pass
is dispatched in the next. The threads that help or drain are those that run a task directly; for a worker
that means that its pass is not a reserved one.
-/

namespace JLib.Dispatch
open LTS

inductive TaskType where
  | Native
  | Fiber
  deriving DecidableEq

/-- A queued task. `assignedFiber` tells whether the pointer is set: only the worker that runs the task
changes it. -/
structure Task where
  id : Nat
  type : TaskType
  assignedFiber : Bool := false
  deriving DecidableEq

/-- The queues. A thread that is not a worker has a deque only. -/
inductive Queue (ω : Type) where
  | intake
  | lane (w : ω)
  | inbox (w : ω)
  | resumed (w : ω)
  | deque (w : ω)
  deriving DecidableEq

/-- Queues in the order they are popped; deques from the bottom. -/
structure Pool (ω : Type) where
  queue : Queue ω → List Task := fun _ => []
  isReservedWorker : ω → Bool := fun _ => false
  task_to_run : ω → Option Task := fun _ => none
  -- the task on the worker's current fiber
  running : ω → Option Task := fun _ => none
  suspended : List Task := []
  -- the tasks `Execute()` was called on directly
  executed : List Task := []

variable {ω : Type} [DecidableEq ω]

namespace Pool

def set (s : Pool ω) (q : Queue ω) (ts : List Task) : Pool ω :=
  { s with queue := Function.update s.queue q ts }

def push (s : Pool ω) (q : Queue ω) (t : Task) : Pool ω := s.set q (s.queue q ++ [t])

/-- `push_bottom`. -/
def push_bottom (s : Pool ω) (w : ω) (t : Task) : Pool ω := s.set (.deque w) (t :: s.queue (.deque w))

def find (s : Pool ω) (w : ω) (t : Task) : Pool ω :=
  { s with task_to_run := Function.update s.task_to_run w (some t) }

def execute (s : Pool ω) (t : Task) : Pool ω := { s with executed := t :: s.executed }

def clear (s : Pool ω) (w : ω) : Pool ω :=
  { s with task_to_run := Function.update s.task_to_run w none }

def run (s : Pool ω) (w : ω) (t : Option Task) : Pool ω :=
  { s with running := Function.update s.running w t }

end Pool

inductive Label (ω : Type) where
  | create (q : Queue ω) (t : Task)
  | latch (w : ω) (isReserved : Bool)
  | search (w : ω)
  | move (p q : Queue ω)
  | dispatch (w : ω)
  | finish (w : ω)
  | requeue (t : Task) (q : Queue ω)
  | suspend (w : ω)
  | help
  | drain (w : ω)

/-- The queues a pass of `w` looks at, besides the deques of others. -/
inductive Searches (s : Pool ω) (w : ω) : Queue ω → Prop where
  | intake : s.isReservedWorker w = true → Searches s w .intake
  | lane : Searches s w (.lane w)
  | inbox : s.isReservedWorker w = false → Searches s w (.inbox w)
  | resumed : Searches s w (.resumed w)
  | deque : Searches s w (.deque w)

/-- Where tasks are moved without being run: a drain of the inbox to the deque, a Fiber task of the lane to
the deque, a deque spread over inboxes, an inbox that a grown band sheds, the intake at the end. -/
inductive Moves : Task → Queue ω → Queue ω → Prop where
  | stage {t w} : Moves t (.inbox w) (.deque w)
  | relocate {t w} : t.type = .Fiber → Moves t (.lane w) (.deque w)
  | spread {t v w} : Moves t (.deque v) (.inbox w)
  | shed {t v w} : Moves t (.inbox v) (.inbox w)
  | rescue {t w} : Moves t .intake (.inbox w)

inductive Step : Pool ω → Label ω → Pool ω → Prop where
  | create {s : Pool ω} {q t} :
    t.assignedFiber = false →
    Step s (.create q t) (s.push q t)
  | split {s : Pool ω} {w t} :
    t.assignedFiber = false →
    Step s (.create (.deque w) t) (s.push_bottom w t)
  | latch {s : Pool ω} {w b} :
    Step s (.latch w b) { s with isReservedWorker := Function.update s.isReservedWorker w b }
  | search {s : Pool ω} {w q t ts} :
    Searches s w q →
    s.queue q = t :: ts →
    Step s (.search w) ((s.set q ts).find w t)
  | steal {s : Pool ω} {w v t l} :
    s.queue (.deque v) = l ++ [t] →
    Step s (.search w) ((s.set (.deque v) l).find w t)
  | move {s : Pool ω} {p q t ts} :
    s.queue p = t :: ts →
    Moves t p q →
    Step s (.move p q) ((s.set p ts).push q t)
  -- `fiberless`
  | direct {s : Pool ω} {w t} :
    s.task_to_run w = some t →
    t.type = .Native →
    s.isReservedWorker w = false →
    Step s (.dispatch w) ((s.clear w).execute t)
  | switch {s : Pool ω} {w t} :
    s.task_to_run w = some t →
    ¬(t.type = .Native ∧ s.isReservedWorker w = false) →
    Step s (.dispatch w) ((s.clear w).run w (some { t with assignedFiber := true }))
  | noFiber {s : Pool ω} {w v t} :
    s.task_to_run w = some t →
    t.assignedFiber = false →
    Step s (.dispatch w) ((s.clear w).push (.inbox v) t)
  | discard {s : Pool ω} {w} :
    Step s (.dispatch w) (s.clear w)
  | finish {s : Pool ω} {w} :
    Step s (.finish w) (s.run w none)
  | yield {s : Pool ω} {w t q} :
    s.running w = some t →
    Step s (.requeue t q) ((s.run w none).push q t)
  | suspend {s : Pool ω} {w t} :
    s.running w = some t →
    Step s (.suspend w) { s.run w none with suspended := t :: s.suspended }
  | resume {s : Pool ω} {t q l r} :
    s.suspended = l ++ t :: r →
    Step s (.requeue t q) ({ s with suspended := l ++ r }.push q t)
  -- `GetTask`: `steal_if` looks at the type before it takes the task
  | helpSteal {s : Pool ω} {v t l} :
    s.queue (.deque v) = l ++ [t] →
    t.type ≠ .Fiber →
    Step s .help ((s.set (.deque v) l).execute t)
  -- `TryTakeLaneTask`
  | helpLane {s : Pool ω} {w t ts} :
    s.isReservedWorker w = false →
    s.queue (.lane w) = t :: ts →
    t.type ≠ .Fiber →
    Step s .help ((s.set (.lane w) ts).execute t)
  -- `ParallelFor` takes whatever is at the bottom of its lane
  | drain {s : Pool ω} {w t ts} :
    s.queue (.deque w) = t :: ts →
    Step s (.drain w) ((s.set (.deque w) ts).execute t)

end JLib.Dispatch
