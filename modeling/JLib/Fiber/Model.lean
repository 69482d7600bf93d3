import JLib.LTS.Runs
import Mathlib.Logic.Function.Basic

/-!
# Suspending and resuming a fiber

The life of one fiber under `Fiber::Suspend`, `CoYield` and `Resume` of `include/Fiber.h` and the code of
`Thread::Worker` around the switch (`OnFiberReturned` has the same). The fiber records in `status` why it
switches out, and only the worker it comes back to may act on that; a resumer races with the worker on
`status`. Every access to `status`, every switch of contexts, every push and every pop is a step.

A suspension is resumed by one call of `Resume`, made when the fiber has stored `WANTS_SUSPEND`. `puts` counts
the pushes of the task since it was last taken from a queue and is read by no step.
-/

namespace JLib.Fiber
open LTS

inductive FiberStatus where
  | READY
  | RUNNING
  | WANTS_YIELD
  | WANTS_SUSPEND
  | SUSPEND_SIGNALED
  | SUSPENDED
  | DEAD
  deriving DecidableEq

/-- Where a worker is with the fiber. -/
inductive Pc where
  | away
  | taken
  | entering
  | run
  -- the fiber has recorded its intent and is still on the worker's core
  | asked
  -- back on the worker's own context
  | back
  | commit
  | signaled
  | yielded
  | push
  deriving DecidableEq

/-- Where a resumer is in `Resume`. `tries` are the exchanges that failed. -/
inductive Rpc where
  | idle
  | load (tries : Nat)
  | casWants (tries : Nat)
  | casSuspended
  | push
  deriving DecidableEq

structure State (ω ρ : Type) where
  status : FiberStatus := .READY
  -- the context of the fiber is in `ctx`
  saved : Bool := true
  -- the entries of the task in the queues
  queued : Nat := 1
  puts : Nat := 1
  worker : ω → Pc := fun _ => .away
  resumer : ρ → Rpc := fun _ => .idle
  -- the resumer of the last suspension was called
  called : Bool := false

variable {ω ρ : Type} [DecidableEq ω] [DecidableEq ρ]

namespace State

def goto (s : State ω ρ) (w : ω) (c : Pc) : State ω ρ := { s with worker := Function.update s.worker w c }

def call (s : State ω ρ) (r : ρ) (c : Rpc) : State ω ρ := { s with resumer := Function.update s.resumer r c }

/-- The task is put on a queue. -/
def enqueue (s : State ω ρ) : State ω ρ := { s with queued := s.queued + 1, puts := s.puts + 1 }

end State

/-- Where the worker goes by what it has loaded. -/
def Pc.resolve : FiberStatus → Pc
  | .DEAD => away
  | .WANTS_YIELD => yielded
  | _ => commit

/-- Where the resumer goes by what it has loaded. -/
def Rpc.resolve (tries : Nat) : FiberStatus → Rpc
  | .SUSPENDED => casSuspended
  | .WANTS_SUSPEND => casWants tries
  | _ => idle

inductive Label (ω ρ : Type) where
  | worker (w : ω)
  | call (r : ρ)
  | resumer (r : ρ)

inductive Step : State ω ρ → Label ω ρ → State ω ρ → Prop where
  -- a worker takes the task and switches to the fiber
  | take {s : State ω ρ} {w n} :
    s.worker w = .away →
    s.queued = n + 1 →
    Step s (.worker w) ({ s with queued := n, puts := 0 }.goto w .taken)
  | start {s : State ω ρ} {w} :
    s.worker w = .taken →
    Step s (.worker w) ({ s with status := .RUNNING }.goto w .entering)
  | switchIn {s : State ω ρ} {w} :
    s.worker w = .entering →
    Step s (.worker w) ({ s with saved := false }.goto w .run)
  -- the fiber
  | suspend {s : State ω ρ} {w} :
    s.worker w = .run →
    Step s (.worker w) ({ s with status := .WANTS_SUSPEND, called := false }.goto w .asked)
  | coYield {s : State ω ρ} {w} :
    s.worker w = .run →
    Step s (.worker w) ({ s with status := .WANTS_YIELD }.goto w .asked)
  | die {s : State ω ρ} {w} :
    s.worker w = .run →
    Step s (.worker w) ({ s with status := .DEAD }.goto w .asked)
  | switchOut {s : State ω ρ} {w} :
    s.worker w = .asked →
    Step s (.worker w) ({ s with saved := true }.goto w .back)
  -- the worker after the switch
  | back {s : State ω ρ} {w} :
    s.worker w = .back →
    Step s (.worker w) (s.goto w (.resolve s.status))
  | yielded {s : State ω ρ} {w} :
    s.worker w = .yielded →
    Step s (.worker w) ({ s with status := .READY }.goto w .push)
  | commit {s : State ω ρ} {w} :
    s.worker w = .commit →
    s.status = .WANTS_SUSPEND →
    Step s (.worker w) ({ s with status := .SUSPENDED }.goto w .away)
  | commitFails {s : State ω ρ} {w} :
    s.worker w = .commit →
    s.status ≠ .WANTS_SUSPEND →
    Step s (.worker w) (s.goto w (if s.status = .SUSPEND_SIGNALED then .signaled else .away))
  | signaled {s : State ω ρ} {w} :
    s.worker w = .signaled →
    Step s (.worker w) ({ s with status := .READY }.goto w .push)
  | push {s : State ω ρ} {w} :
    s.worker w = .push →
    Step s (.worker w) (s.enqueue.goto w .away)
  -- `Resume`
  | call {s : State ω ρ} {r} :
    s.resumer r = .idle →
    s.called = false →
    s.status = .WANTS_SUSPEND ∨ s.status = .SUSPENDED →
    Step s (.call r) ({ s with called := true }.call r (.load 0))
  | load {s : State ω ρ} {r n} :
    s.resumer r = .load n →
    Step s (.resumer r) (s.call r (.resolve n s.status))
  | casSuspended {s : State ω ρ} {r} :
    s.resumer r = .casSuspended →
    s.status = .SUSPENDED →
    Step s (.resumer r) ({ s with status := .READY }.call r .push)
  | casSuspendedFails {s : State ω ρ} {r} :
    s.resumer r = .casSuspended →
    s.status ≠ .SUSPENDED →
    Step s (.resumer r) (s.call r .idle)
  | casWants {s : State ω ρ} {r n} :
    s.resumer r = .casWants n →
    s.status = .WANTS_SUSPEND →
    Step s (.resumer r) ({ s with status := .SUSPEND_SIGNALED }.call r .idle)
  | casWantsFails {s : State ω ρ} {r n} :
    s.resumer r = .casWants n →
    s.status ≠ .WANTS_SUSPEND →
    Step s (.resumer r) (s.call r (.load (n + 1)))
  | requeue {s : State ω ρ} {r} :
    s.resumer r = .push →
    Step s (.resumer r) (s.enqueue.call r .idle)

end JLib.Fiber
