import JLib.LTS.Runs
import JLib.LTS.Custody
import Mathlib.Logic.Function.Basic

/-!
# WaitGroup

`WaitGroup` of `include/WaitGroup.h` and `src/WaitGroup.cpp` (`WakeAllDirect`, `WakeAll`), with
`WaitFor` and `WaitForMain` of `src/TaskScheduler.cpp` and the completion of a counted task in
`Thread::Worker`, as an interleaving model. One step is one atomic access to the group or to a fiber's
`status`; an access that decides nothing (a failed compare-exchange, a poll that goes on) is no step.

`n` is kept unpacked: `count` is what `COUNT_MASK` selects and `bit` is `WAITER_BIT`. `directWaiters` is
the list of the fibers on the intrusive stack: a fiber's link is written before it is pushed and by the
drain that has it, so the chain from the head is the list. Of `WaitFor` on a fiber only the first branch
can run (the second tests the same condition again), so `waiters` stays empty and is left out.

Any party may wait, on a fiber or without one, complete a counted task, or add tasks to the group: as
long as some are counted, or when all waits have returned. `resumed` is a history variable: how often
the fiber was resumed in its current wait.
-/

namespace JLib.WaitGroup
open LTS

variable {T : Type} [DecidableEq T]

/-- The states of a fiber that waiting is about. -/
inductive FiberStatus where
  | running
  | ready
  | wantsSuspend
  | suspended
  | suspendSignaled
  deriving Repr, DecidableEq

/-- Where a party stands. The list is what a drain has in its hands. -/
inductive Pc (T : Type) where
  | idle
  -- WaitFor on a fiber
  | store
  | push
  | arm
  | direct
  | directAnd (ks : List T)
  | directResume (ks : List T)
  | switch
  | parked
  | awake
  -- WaitFor and WaitForMain without a fiber
  | poll
  -- WakeAll
  | wakeLock
  | wakeExchange
  | wakeAnd (ks : List T)
  | wakeUnlock (ks : List T)
  | wakeResume (ks : List T)
  deriving Repr, DecidableEq

namespace Pc

/-- The fibers taken off the stack and not yet resumed. -/
def hand : Pc T → List T
  | directAnd ks | directResume ks | wakeAnd ks | wakeUnlock ks | wakeResume ks => ks
  | _ => []

/-- Inside `WaitFor` on a fiber. -/
def waits : Pc T → Bool
  | store | push | arm | direct | directAnd _ | directResume _ | switch | parked | awake => true
  | _ => false

/-- Inside `WakeAll`, with the group still to be touched. -/
def touches : Pc T → Bool
  | wakeLock | wakeExchange | wakeAnd _ | wakeUnlock _ => true
  | _ => false

/-- Inside `WakeAll`. -/
def wakes : Pc T → Bool
  | wakeResume _ => true
  | p => p.touches

end Pc

/-- A party: where it stands, its fiber's status and how often the fiber was resumed. -/
structure Party (T : Type) where
  pc : Pc T := .idle
  status : FiberStatus := .running
  resumed : Nat := 0
  deriving Repr, DecidableEq

/-- The group and everybody who uses it. -/
structure St (T : Type) where
  count : Nat
  bit : Bool := false
  directWaiters : List T := []
  mtx : Option T := none
  th : T → Party T := fun _ => {}

/-- The top bit of `n`. -/
def WAITER_BIT : Nat := 0x40000000

namespace St

/-- The word `n`. -/
def word (s : St T) : Nat := s.count + if s.bit then WAITER_BIT else 0

/-- Replace what one party looks like. -/
def set (s : St T) (t : T) (h : Party T) : St T := { s with th := Function.update s.th t h }

/-- A party moves on. -/
def goto (s : St T) (t : T) (pc : Pc T) : St T := s.set t { s.th t with pc := pc }

/-- `Fiber::Resume`: a suspended fiber is queued, one on its way to suspend is told not to. -/
def resume (s : St T) (k : T) : St T :=
  s.set k <|
    match (s.th k).status with
    | .suspended =>
      { s.th k with pc := .awake, status := .ready, resumed := (s.th k).resumed + 1 }
    | .wantsSuspend =>
      { s.th k with status := .suspendSignaled, resumed := (s.th k).resumed + 1 }
    | _ => { s.th k with resumed := (s.th k).resumed + 1 }

/-- Nobody is inside a wait. -/
def AllReturned (s : St T) : Prop := ∀ i, (s.th i).pc.waits = false ∧ (s.th i).pc ≠ .poll

end St

/-- A new group with some tasks counted. -/
def init (T : Type) (count : Nat) : St T := { count := count }

/-- One step of one party. -/
inductive Step : St T → T → St T → Prop where
  -- WaitFor on a fiber
  | call {s t} :
    (s.th t).pc = .idle →
    Step s t (s.set t { pc := .store })
  | store {s t} :
    (s.th t).pc = .store →
    Step s t (s.set t { s.th t with pc := .push, status := .wantsSuspend })
  | push {s t} :
    (s.th t).pc = .push →
    Step s t (St.goto { s with directWaiters := t :: s.directWaiters } t .arm)
  | arm {s t} :
    (s.th t).pc = .arm →
    Step s t (St.goto { s with bit := true } t (if s.count = 0 then .direct else .switch))
  | switch {s t} :
    (s.th t).pc = .switch → (s.th t).status = .wantsSuspend →
    Step s t (s.set t { s.th t with pc := .parked, status := .suspended })
  | signaled {s t} :
    (s.th t).pc = .switch → (s.th t).status = .suspendSignaled →
    Step s t (s.set t { s.th t with pc := .awake, status := .ready })
  | returns {s t} :
    (s.th t).pc = .awake →
    Step s t (s.set t { s.th t with pc := .idle, status := .running })
  -- WakeAllDirect
  | direct {s t} :
    (s.th t).pc = .direct →
    Step s t (St.goto { s with directWaiters := [] } t
      (if s.directWaiters = [] then .switch else .directAnd s.directWaiters))
  | directAnd {s t ks} :
    (s.th t).pc = .directAnd ks →
    Step s t (St.goto { s with bit := false } t (.directResume ks))
  | directResume {s t k ks} :
    (s.th t).pc = .directResume (k :: ks) →
    Step s t ((s.resume k).goto t (.directResume ks))
  | directDone {s t} :
    (s.th t).pc = .directResume [] →
    Step s t (s.goto t .switch)
  -- WaitFor and WaitForMain without a fiber
  | callPoll {s t} :
    (s.th t).pc = .idle →
    Step s t (s.goto t .poll)
  | polled {s t} :
    (s.th t).pc = .poll → s.word = 0 →
    Step s t (s.goto t .idle)
  -- a counted task completes
  | complete {s t} :
    (s.th t).pc = .idle → s.count > 0 →
    Step s t (St.goto { s with count := s.count - 1 } t
      (if s.count = 1 ∧ s.bit = true then .wakeLock else .idle))
  -- WakeAll
  | wakeLock {s t} :
    (s.th t).pc = .wakeLock → s.mtx = none →
    Step s t (St.goto { s with mtx := some t } t .wakeExchange)
  | wakeExchange {s t} :
    (s.th t).pc = .wakeExchange →
    Step s t (St.goto { s with directWaiters := [] } t (.wakeAnd s.directWaiters))
  | wakeAnd {s t ks} :
    (s.th t).pc = .wakeAnd ks →
    Step s t (St.goto { s with bit := false } t (.wakeUnlock ks))
  | wakeUnlock {s t ks} :
    (s.th t).pc = .wakeUnlock ks →
    Step s t (St.goto { s with mtx := none } t (.wakeResume ks))
  | wakeResume {s t k ks} :
    (s.th t).pc = .wakeResume (k :: ks) →
    Step s t ((s.resume k).goto t (.wakeResume ks))
  | wakeDone {s t} :
    (s.th t).pc = .wakeResume [] →
    Step s t (s.goto t .idle)

/-- What happens next: tasks are pushed with this group, or a party moves. -/
inductive Act (T : Type) where
  | add (t : T) (k : Nat)
  | move (t : T)
  deriving Repr, DecidableEq

/-- One step of the system. -/
inductive Next : St T → Act T → St T → Prop where
  | add {s t} (k : Nat) :
    (s.th t).pc = .idle → k > 0 → (s.count > 0 ∨ s.AllReturned) →
    Next s (.add t k) { s with count := s.count + k }
  | move {s t s'} :
    Step s t s' →
    Next s (.move t) s'

end JLib.WaitGroup
