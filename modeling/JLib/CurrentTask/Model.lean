import JLib.Cancel.Token
import JLib.LTS.Runs
import Mathlib.Logic.Function.Basic

/-!
# The current task

What a thread takes for the task it is running: `currentRunningTask` of `include/Thread.h`, which the direct run and
the switch to a fiber in `Thread::Worker` set and clear, and which the other places that run a task leave alone:
`TryRunStolenNativeTask`, the drain in `ParallelFor` and `ProcessMainThread`. The bodies under way are the stack of a
thread, the innermost first; a fiber takes its part of it along when it is switched out. The field is read by its own
thread only, so what a thread does around a body is one step with its beginning or its end.

`worker` says of a thread whether `Thread::GetCurrent` has one there. What the scopes and flags say of a task may
change at any time.
-/

namespace JLib.CurrentTask
open LTS

inductive Site where
  -- `Thread::Worker`
  | native
  | fiber
  -- `TryRunStolenNativeTask`
  | help
  -- `ParallelFor`
  | drain
  -- `ProcessMainThread`
  | main
  deriving DecidableEq

/-- The thread's worker loop runs the body, not a body that waits. -/
def Site.direct : Site → Bool
  | native | fiber => true
  | _ => false

/-- A body under way. -/
structure Frame (τ : Type) where
  task : τ
  site : Site

structure State (θ τ : Type) where
  world : World τ
  stack : θ → List (Frame τ) := fun _ => []
  currentRunningTask : θ → Option τ := fun _ => none
  -- the stack of the task's fiber, switched out
  saved : τ → List (Frame τ) := fun _ => []
  -- the task is in a queue
  queued : τ → Bool := fun _ => true

variable {θ τ : Type} [DecidableEq θ] [DecidableEq τ]

namespace State

/-- The thread runs the frames, and takes `t` for its task. -/
def enter (s : State θ τ) (h : θ) (fs : List (Frame τ)) (t : Option τ) : State θ τ :=
  { s with
    stack := Function.update s.stack h fs
    currentRunningTask := Function.update s.currentRunningTask h t }

def setStack (s : State θ τ) (h : θ) (fs : List (Frame τ)) : State θ τ :=
  { s with stack := Function.update s.stack h fs }

def save (s : State θ τ) (t : τ) (fs : List (Frame τ)) : State θ τ :=
  { s with saved := Function.update s.saved t fs }

/-- The task is taken to be run. If it is not switched to, a fiber it may have is abandoned. -/
def pop (s : State θ τ) (t : τ) : State θ τ := { s with queued := Function.update s.queued t false }.save t []

/-- What the worker switches to: the task's fiber, or a new one. -/
def context (s : State θ τ) (t : τ) : List (Frame τ) := if (s.saved t).isEmpty then [⟨t, .fiber⟩] else s.saved t

/-- `TaskScheduler::GetCurrentTask` on a thread. -/
def GetCurrentTask (s : State θ τ) (worker : θ → Bool) (h : θ) : Option τ :=
  if worker h then s.currentRunningTask h else none

/-- `CurrentTaskCancelled` on a thread. -/
def CurrentTaskCancelled (s : State θ τ) (worker : θ → Bool) (h : θ) : Bool :=
  match s.GetCurrentTask worker h with
  | none => false
  | some t => s.world.isTaskCancelled t

end State

inductive Label (θ : Type) where
  | thread (h : θ)
  | ready
  | world

inductive Step (worker : θ → Bool) : State θ τ → Label θ → State θ τ → Prop where
  | native {s : State θ τ} {h t} :
    worker h = true →
    s.stack h = [] →
    s.queued t = true →
    Step worker s (.thread h) ((s.pop t).enter h [⟨t, .native⟩] (some t))
  | nativeReturns {s : State θ τ} {h t} :
    s.stack h = [⟨t, .native⟩] →
    Step worker s (.thread h) (s.enter h [] none)
  | switchIn {s : State θ τ} {h t} :
    worker h = true →
    s.stack h = [] →
    s.queued t = true →
    Step worker s (.thread h) ((s.pop t).enter h (s.context t) (some t))
  -- the fiber suspends or yields
  | switchOut {s : State θ τ} {h t} :
    (s.stack h).getLast? = some ⟨t, .fiber⟩ →
    Step worker s (.thread h) ((s.save t (s.stack h)).enter h [] none)
  | ready {s : State θ τ} {t} :
    s.saved t ≠ [] →
    Step worker s .ready { s with queued := Function.update s.queued t true }
  | fiberReturns {s : State θ τ} {h t} :
    s.stack h = [⟨t, .fiber⟩] →
    Step worker s (.thread h) (s.enter h [] none)
  -- a thread without a worker, or a body that waits
  | nest {s : State θ τ} {h t x} :
    x.direct = false →
    (worker h = true → s.stack h ≠ []) →
    s.queued t = true →
    Step worker s (.thread h) ((s.pop t).setStack h (⟨t, x⟩ :: s.stack h))
  | nestedReturns {s : State θ τ} {h t x fs} :
    x.direct = false →
    s.stack h = ⟨t, x⟩ :: fs →
    Step worker s (.thread h) (s.setStack h fs)
  | world {s : State θ τ} (c : World τ) :
    Step worker s .world { s with world := c }

end JLib.CurrentTask
