import JLib.Fiber.Model

/-!
# Direct events

`DirectEvent` and `EventPool` of `include/DirectEvent.h` and `WaitOnEventDirectArmed` of `src/TaskScheduler.cpp`, with
the worker a waiting fiber comes back to and `Fiber::Resume`. Fibers wait and threads signal; the free queue is a
bag, and the events are numbers. Every access to the queue, to `waiter` and to `status`, every switch of contexts and
every push is a step. A task that waits is named by its fiber.

A wait is a fiber and the number of the wait among its own. A call of `Signal` is made on the pointer that the arm
callback of some wait received; which wait that was, and whether it had ended when the call was made, is kept with
the call. These, `serial`, `wakes` and `returned` are read by no step.
-/

namespace JLib.DirectEvent
open LTS JLib.Fiber

/-- Where a fiber is in a wait, or the worker with it. -/
inductive Phase where
  | acquired
  | cleared
  | wants
  | published
  | armed
  -- switched out, the worker about to load the status
  | back
  | commit
  | signaled
  | push
  | parked
  -- made ready by a resumer that has not pushed it yet
  | handed
  | queued
  -- switched in, about to release the event
  | woken
  deriving DecidableEq

inductive Pc where
  | running
  | wait (p : Phase) (e : Nat)
  deriving DecidableEq

/-- The fiber and the number of its wait. -/
abbrev Wait (φ : Type) := φ × Nat

/-- Where a thread is in a call of `Signal`. `k` is the wait whose pointer the call is made on. -/
inductive Call (φ : Type) where
  | idle
  | exchange (e : Nat) (k : Wait φ) (late : Bool)
  | resume (f : φ) (k : Wait φ) (late : Bool) (c : Rpc)

/-- A call of `Signal` that resumed a fiber. -/
structure Wake (φ : Type) where
  pointer : Wait φ
  late : Bool
  deriving DecidableEq

structure State (φ θ : Type) where
  freeq : List Nat
  waiter : Nat → Option φ := fun _ => none
  status : φ → FiberStatus := fun _ => .RUNNING
  fiber : φ → Pc := fun _ => .running
  signal : θ → Call φ := fun _ => .idle
  -- what the arm callback of a wait received
  pointer : Wait φ → Option Nat := fun _ => none
  serial : φ → Nat := fun _ => 0
  wakes : Wait φ → List (Wake φ) := fun _ => []
  returned : List (Wait φ) := []

variable {φ θ : Type} [DecidableEq φ] [DecidableEq θ]

/-- The resumer takes a parked fiber. -/
def Pc.unpark : Pc → Pc
  | wait .parked e => wait .handed e
  | c => c

/-- The resumer pushes it. -/
def Pc.requeue : Pc → Pc
  | wait .handed e => wait .queued e
  | c => c

namespace State

def goto (s : State φ θ) (f : φ) (c : Pc) : State φ θ := { s with fiber := Function.update s.fiber f c }

def call (s : State φ θ) (t : θ) (c : Call φ) : State φ θ := { s with signal := Function.update s.signal t c }

def setStatus (s : State φ θ) (f : φ) (x : FiberStatus) : State φ θ :=
  { s with status := Function.update s.status f x }

def setWaiter (s : State φ θ) (e : Nat) (w : Option φ) : State φ θ :=
  { s with waiter := Function.update s.waiter e w }

/-- The wait a fiber is in, or its last. -/
def current (s : State φ θ) (f : φ) : Wait φ := (f, s.serial f)

/-- The fiber has come back from the wait. -/
def ended (s : State φ θ) (w : Wait φ) : Bool :=
  w.2 < s.serial w.1 || (w.2 = s.serial w.1 && s.fiber w.1 = .running)

/-- The call resumes the fiber in the wait that it is in. -/
def wake (s : State φ θ) (f : φ) (x : Wake φ) : State φ θ :=
  { s with wakes := Function.update s.wakes (s.current f) (x :: s.wakes (s.current f)) }

/-- The call returns. -/
def finish (s : State φ θ) (t : θ) (k : Wait φ) : State φ θ := { s.call t .idle with returned := k :: s.returned }

/-- `EventPool(n)`. -/
def start (n : Nat) : State φ θ := { freeq := List.range n }

end State

inductive Label (θ : Type) where
  | fiber
  | call (t : θ)
  | exchange (t : θ)
  | resume (t : θ)

inductive Step : State φ θ → Label θ → State φ θ → Prop where
  -- `WaitOnEventDirectArmed`
  | acquire {s : State φ θ} {f e} :
    s.fiber f = .running →
    e ∈ s.freeq →
    Step s .fiber
      ({ s with freeq := s.freeq.erase e, serial := Function.update s.serial f (s.serial f + 1) }.goto f
        (.wait .acquired e))
  | clear {s : State φ θ} {f e} :
    s.fiber f = .wait .acquired e →
    Step s .fiber ((s.setWaiter e none).goto f (.wait .cleared e))
  | want {s : State φ θ} {f e} :
    s.fiber f = .wait .cleared e →
    Step s .fiber ((s.setStatus f .WANTS_SUSPEND).goto f (.wait .wants e))
  | publish {s : State φ θ} {f e} :
    s.fiber f = .wait .wants e →
    Step s .fiber ((s.setWaiter e (some f)).goto f (.wait .published e))
  | arm {s : State φ θ} {f e} :
    s.fiber f = .wait .published e →
    Step s .fiber
      ({ s with pointer := Function.update s.pointer (s.current f) (some e) }.goto f (.wait .armed e))
  | switchOut {s : State φ θ} {f e} :
    s.fiber f = .wait .armed e →
    Step s .fiber (s.goto f (.wait .back e))
  -- the worker
  | back {s : State φ θ} {f e} :
    s.fiber f = .wait .back e →
    s.status f ≠ .DEAD →
    s.status f ≠ .WANTS_YIELD →
    Step s .fiber (s.goto f (.wait .commit e))
  | commit {s : State φ θ} {f e} :
    s.fiber f = .wait .commit e →
    s.status f = .WANTS_SUSPEND →
    Step s .fiber ((s.setStatus f .SUSPENDED).goto f (.wait .parked e))
  | commitFails {s : State φ θ} {f e} :
    s.fiber f = .wait .commit e →
    s.status f ≠ .WANTS_SUSPEND →
    Step s .fiber (s.goto f (.wait (if s.status f = .SUSPEND_SIGNALED then .signaled else .parked) e))
  | signaled {s : State φ θ} {f e} :
    s.fiber f = .wait .signaled e →
    Step s .fiber ((s.setStatus f .READY).goto f (.wait .push e))
  | push {s : State φ θ} {f e} :
    s.fiber f = .wait .push e →
    Step s .fiber (s.goto f (.wait .queued e))
  | take {s : State φ θ} {f e} :
    s.fiber f = .wait .queued e →
    Step s .fiber ((s.setStatus f .RUNNING).goto f (.wait .woken e))
  | release {s : State φ θ} {f e} :
    s.fiber f = .wait .woken e →
    Step s .fiber ({ s with freeq := e :: s.freeq }.goto f .running)
  -- `Signal`
  | call {s : State φ θ} {t k e} :
    s.signal t = .idle →
    s.pointer k = some e →
    Step s (.call t) (s.call t (.exchange e k (s.ended k)))
  | miss {s : State φ θ} {t e k late} :
    s.signal t = .exchange e k late →
    s.waiter e = none →
    Step s (.exchange t) (s.finish t k)
  | hit {s : State φ θ} {t e k late f} :
    s.signal t = .exchange e k late →
    s.waiter e = some f →
    Step s (.exchange t) ((s.setWaiter e none).call t (.resume f k late (.load 0)))
  -- `Resume`
  | load {s : State φ θ} {t f k late n} :
    s.signal t = .resume f k late (.load n) →
    s.status f = .SUSPENDED ∨ s.status f = .WANTS_SUSPEND →
    Step s (.resume t) (s.call t (.resume f k late (.resolve n (s.status f))))
  | loadOther {s : State φ θ} {t f k late n} :
    s.signal t = .resume f k late (.load n) →
    s.status f ≠ .SUSPENDED →
    s.status f ≠ .WANTS_SUSPEND →
    Step s (.resume t) (s.finish t k)
  | casSuspended {s : State φ θ} {t f k late} :
    s.signal t = .resume f k late .casSuspended →
    s.status f = .SUSPENDED →
    Step s (.resume t)
      ((((s.setStatus f .READY).wake f ⟨k, late⟩).goto f (s.fiber f).unpark).call t (.resume f k late .push))
  | casSuspendedFails {s : State φ θ} {t f k late} :
    s.signal t = .resume f k late .casSuspended →
    s.status f ≠ .SUSPENDED →
    Step s (.resume t) (s.finish t k)
  | casWants {s : State φ θ} {t f k late n} :
    s.signal t = .resume f k late (.casWants n) →
    s.status f = .WANTS_SUSPEND →
    Step s (.resume t) (((s.setStatus f .SUSPEND_SIGNALED).wake f ⟨k, late⟩).finish t k)
  | casWantsFails {s : State φ θ} {t f k late n} :
    s.signal t = .resume f k late (.casWants n) →
    s.status f ≠ .WANTS_SUSPEND →
    Step s (.resume t) (s.call t (.resume f k late (.load (n + 1))))
  | requeue {s : State φ θ} {t f k late} :
    s.signal t = .resume f k late .push →
    Step s (.resume t) ((s.goto f (s.fiber f).requeue).finish t k)

end JLib.DirectEvent
