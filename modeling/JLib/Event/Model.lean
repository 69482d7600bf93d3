import JLib.Bits.Word
import JLib.LTS.Runs
import Mathlib.Logic.Function.Basic

/-!
# Events

`Event` of `include/Event.h`. A fiber waits by a store into the slot of its pool index followed by the bit
of that slot; who signals or cancels wins the bit first and then exchanges the slot for null. Every access
to a slot or to a word of the bitmap is a step, and so is the wake of a task that was taken.

A slot says whether a task waits there, not which of the fiber's waits it is. Here a registration has a
number as well, which no step reads, and the state keeps who took each of them and how often the fiber was
made ready for it.
-/

namespace JLib.Event
open LTS

/-- What `AddWaiter` puts in a slot. -/
structure Registration (τ : Type) where
  fiber : Nat
  serial : Nat
  task : τ

/-- The number of a registration among those of its fiber. -/
def Registration.key {τ} (r : Registration τ) : Nat × Nat := (r.fiber, r.serial)

/-- Who takes a registration: a thread that signals or cancels, or the fiber itself. -/
inductive Party (θ : Type) where
  | thread (t : θ)
  | self
  deriving DecidableEq

/-- Where a fiber is in `WaitOnEvent`. -/
inductive Fiber where
  | running
  -- in `AddWaiter`, the slot stored and the bit to be set
  | stored
  -- `AddWaiter` has returned
  | added
  -- in `SelfRemove`, the bit cleared and the slot to be exchanged
  | cleared
  -- `SelfRemove` has returned
  | removed (won : Bool)
  | parked
  deriving DecidableEq

inductive Call where
  | signalAll
  | signalOne
  | cancelWaiters

/-- Where a thread is in a call. `bits` are what is left of the word's bits in the inner loop. -/
inductive Pc (τ : Type) where
  | idle
  -- SignalAll
  | load (w : Nat)
  | swap (w : Nat)
  | drain (w : Nat) (bits : BitVec 64)
  | drainWake (w : Nat) (bits : BitVec 64) (r : Registration τ)
  -- CancelWaiters, and SignalOne if `one`
  | scan (one : Bool) (w : Nat)
  | pick (one : Bool) (w : Nat) (bits : BitVec 64)
  | take (one : Bool) (w : Nat) (bits : BitVec 64) (b : Nat)
  | wake (one : Bool) (w : Nat) (bits : BitVec 64) (r : Registration τ)

namespace Pc
variable {τ : Type}

/-- The registration a thread has taken and not woken yet. -/
def hand : Pc τ → Option (Registration τ)
  | drainWake _ _ r => some r
  | wake _ _ _ r => some r
  | _ => none

/-- The thread has won the bit of a slot and is to exchange the slot. -/
def Claims (i : Nat) : Pc τ → Prop
  | drain w bits => i / 64 = w ∧ bits.getLsbD (i % 64) = true
  | drainWake w bits _ => i / 64 = w ∧ bits.getLsbD (i % 64) = true
  | take _ w _ b => i = w * 64 + b
  | _ => False

end Pc

/-- An event with the fibers that wait on it and the threads that call it. -/
structure State (θ τ : Type) where
  -- `table` is published
  table : Bool := false
  slots : Nat → Option (Registration τ) := fun _ => none
  occupied : Nat → BitVec 64 := fun _ => 0
  cancelledDirect : τ → Bool := fun _ => false
  fiber : Nat → Fiber := fun _ => .running
  -- the fiber was made ready: `SUSPEND_SIGNALED` or `READY`
  resumed : Nat → Bool := fun _ => false
  thread : θ → Pc τ := fun _ => .idle
  -- the number of the fiber's last registration
  serial : Nat → Nat := fun _ => 0
  takers : Nat × Nat → List (Party θ) := fun _ => []
  wakes : Nat × Nat → Nat := fun _ => 0

variable {θ τ : Type} [DecidableEq θ] [DecidableEq τ]

namespace State

/-- The bit of a slot. -/
def marked (s : State θ τ) (i : Nat) : Bool := (s.occupied (i / 64)).getLsbD (i % 64)

/-- `occupied[w].fetch_or(m)`. -/
def fetchOr (s : State θ τ) (w b : Nat) : State θ τ :=
  { s with occupied := Function.update s.occupied w (s.occupied w ||| BitVec.twoPow 64 b) }

/-- `occupied[w].fetch_and(~m)`. -/
def fetchAnd (s : State θ τ) (w b : Nat) : State θ τ :=
  { s with occupied := Function.update s.occupied w (s.occupied w &&& ~~~BitVec.twoPow 64 b) }

/-- `AddWaiter`'s store: a new registration. -/
def store (s : State θ τ) (i : Nat) (x : τ) : State θ τ :=
  { s with
    slots := Function.update s.slots i (some ⟨i, s.serial i + 1, x⟩)
    serial := Function.update s.serial i (s.serial i + 1) }

/-- `TakeSlot`: who gets the task has taken the registration. -/
def takeSlot (s : State θ τ) (p : Party θ) (i : Nat) : State θ τ :=
  match s.slots i with
  | none => s
  | some r =>
    { s with
      slots := Function.update s.slots i none
      takers := Function.update s.takers r.key (p :: s.takers r.key) }

/-- `ResumeQueueless` on the fiber of a task that was taken. -/
def resume (s : State θ τ) (r : Registration τ) : State θ τ :=
  { s with
    resumed := Function.update s.resumed r.fiber true
    wakes := Function.update s.wakes r.key (s.wakes r.key + 1) }

def setFiber (s : State θ τ) (i : Nat) (f : Fiber) : State θ τ :=
  { s with fiber := Function.update s.fiber i f }

def setThread (s : State θ τ) (t : θ) (c : Pc τ) : State θ τ :=
  { s with thread := Function.update s.thread t c }

/-- The write of `CancelWaiters` to a task it has taken. -/
def markCancelled (s : State θ τ) (one : Bool) (x : τ) : State θ τ :=
  if one then s else { s with cancelledDirect := Function.update s.cancelledDirect x true }

end State

/-- `words` of a table for a pool of `fiberCount`. -/
def words (fiberCount : Nat) : Nat := (fiberCount + 63) / 64

/-- The bits left after the lowest: `CancelWaiters` has `bits &= bits - 1`, `SignalOne` `bits &= ~m`. -/
def rest (one : Bool) (bits : BitVec 64) : BitVec 64 :=
  if one then bits &&& ~~~BitVec.twoPow 64 bits.ctz.toNat else Bits.clearLowest bits

inductive Label (θ : Type) where
  | reserve
  | fiber (i : Nat)
  | begin (t : θ) (c : Call)
  | thread (t : θ)
  -- the end of a call, with the value of `SignalOne`
  | ends (t : θ)
  | returns (t : θ) (woken : Bool)

inductive Step (fiberCount : Nat) : State θ τ → Label θ → State θ τ → Prop where
  -- EnsureTable
  | reserve {s : State θ τ} :
    0 < fiberCount →
    Step fiberCount s .reserve { s with table := true }
  -- AddWaiter
  | store {s : State θ τ} {i x} :
    s.fiber i = .running →
    s.table = true →
    i < fiberCount →
    Step fiberCount s (.fiber i) ((s.store i x).setFiber i .stored)
  | publish {s : State θ τ} {i} :
    s.fiber i = .stored →
    Step fiberCount s (.fiber i) ((s.fetchOr (i / 64) (i % 64)).setFiber i .added)
  -- SelfRemove
  | withdraw {s : State θ τ} {i} :
    s.fiber i = .added →
    Step fiberCount s (.fiber i) ((s.fetchAnd (i / 64) (i % 64)).setFiber i .cleared)
  | selfTake {s : State θ τ} {i} :
    s.fiber i = .cleared →
    Step fiberCount s (.fiber i) ((s.takeSlot .self i).setFiber i (.removed (s.slots i).isSome))
  -- the rest of WaitOnEvent
  | leave {s : State θ τ} {i} :
    s.fiber i = .removed true →
    Step fiberCount s (.fiber i) (s.setFiber i .running)
  | park {s : State θ τ} {i} :
    s.fiber i = .added ∨ s.fiber i = .removed false →
    Step fiberCount s (.fiber i) (s.setFiber i .parked)
  | unpark {s : State θ τ} {i} :
    s.fiber i = .parked →
    s.resumed i = true →
    Step fiberCount s (.fiber i)
      { s.setFiber i .running with resumed := Function.update s.resumed i false }
  -- a call on an event nobody has waited on
  | beginEmpty {s : State θ τ} {t c} :
    s.thread t = .idle →
    s.table = false →
    Step fiberCount s (.begin t c) s
  -- SignalAll
  | beginAll {s : State θ τ} {t} :
    s.thread t = .idle →
    s.table = true →
    Step fiberCount s (.begin t .signalAll) (s.setThread t (.load 0))
  | loadEmpty {s : State θ τ} {t w} :
    s.thread t = .load w →
    w < words fiberCount →
    s.occupied w = 0 →
    Step fiberCount s (.thread t) (s.setThread t (.load (w + 1)))
  | load {s : State θ τ} {t w} :
    s.thread t = .load w →
    w < words fiberCount →
    s.occupied w ≠ 0 →
    Step fiberCount s (.thread t) (s.setThread t (.swap w))
  | swap {s : State θ τ} {t w} :
    s.thread t = .swap w →
    Step fiberCount s (.thread t)
      ({ s with occupied := Function.update s.occupied w 0 }.setThread t (.drain w (s.occupied w)))
  | drainMiss {s : State θ τ} {t w bits} :
    s.thread t = .drain w bits →
    bits ≠ 0 →
    s.slots (w * 64 + bits.ctz.toNat) = none →
    Step fiberCount s (.thread t) (s.setThread t (.drain w (Bits.clearLowest bits)))
  | drainTake {s : State θ τ} {t w bits r} :
    s.thread t = .drain w bits →
    bits ≠ 0 →
    s.slots (w * 64 + bits.ctz.toNat) = some r →
    Step fiberCount s (.thread t)
      ((s.takeSlot (.thread t) (w * 64 + bits.ctz.toNat)).setThread t
        (.drainWake w (Bits.clearLowest bits) r))
  | drainWake {s : State θ τ} {t w bits r} :
    s.thread t = .drainWake w bits r →
    Step fiberCount s (.thread t) ((s.resume r).setThread t (.drain w bits))
  | drainEnd {s : State θ τ} {t w} :
    s.thread t = .drain w 0 →
    Step fiberCount s (.thread t) (s.setThread t (.load (w + 1)))
  | endAll {s : State θ τ} {t w} :
    s.thread t = .load w →
    ¬w < words fiberCount →
    Step fiberCount s (.ends t) (s.setThread t .idle)
  -- CancelWaiters and SignalOne
  | beginCancel {s : State θ τ} {t} :
    s.thread t = .idle →
    s.table = true →
    Step fiberCount s (.begin t .cancelWaiters) (s.setThread t (.scan false 0))
  | beginOne {s : State θ τ} {t} :
    s.thread t = .idle →
    s.table = true →
    Step fiberCount s (.begin t .signalOne) (s.setThread t (.scan true 0))
  | scan {s : State θ τ} {t one w} :
    s.thread t = .scan one w →
    w < words fiberCount →
    Step fiberCount s (.thread t) (s.setThread t (.pick one w (s.occupied w)))
  | pickLost {s : State θ τ} {t one w bits} :
    s.thread t = .pick one w bits →
    bits ≠ 0 →
    (s.occupied w).getLsbD bits.ctz.toNat = false →
    Step fiberCount s (.thread t)
      ((s.fetchAnd w bits.ctz.toNat).setThread t (.pick one w (rest one bits)))
  | pick {s : State θ τ} {t one w bits} :
    s.thread t = .pick one w bits →
    bits ≠ 0 →
    (s.occupied w).getLsbD bits.ctz.toNat = true →
    Step fiberCount s (.thread t)
      ((s.fetchAnd w bits.ctz.toNat).setThread t (.take one w (rest one bits) bits.ctz.toNat))
  | takeMiss {s : State θ τ} {t one w bits b} :
    s.thread t = .take one w bits b →
    s.slots (w * 64 + b) = none →
    Step fiberCount s (.thread t) (s.setThread t (.pick one w bits))
  | take {s : State θ τ} {t one w bits b r} :
    s.thread t = .take one w bits b →
    s.slots (w * 64 + b) = some r →
    Step fiberCount s (.thread t)
      (((s.takeSlot (.thread t) (w * 64 + b)).markCancelled one r.task).setThread t (.wake one w bits r))
  | wakeCancelled {s : State θ τ} {t w bits r} :
    s.thread t = .wake false w bits r →
    Step fiberCount s (.thread t) ((s.resume r).setThread t (.pick false w bits))
  | wakeOne {s : State θ τ} {t w bits r} :
    s.thread t = .wake true w bits r →
    Step fiberCount s (.returns t true) ((s.resume r).setThread t .idle)
  | pickEnd {s : State θ τ} {t one w} :
    s.thread t = .pick one w 0 →
    Step fiberCount s (.thread t) (s.setThread t (.scan one (w + 1)))
  | endCancel {s : State θ τ} {t w} :
    s.thread t = .scan false w →
    ¬w < words fiberCount →
    Step fiberCount s (.ends t) (s.setThread t .idle)
  | endOne {s : State θ τ} {t w} :
    s.thread t = .scan true w →
    ¬w < words fiberCount →
    Step fiberCount s (.returns t false) (s.setThread t .idle)

end JLib.Event
