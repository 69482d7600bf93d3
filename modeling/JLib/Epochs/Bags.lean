import JLib.LTS.Runs
import JLib.Loops.Partition
import Mathlib.Logic.Function.Basic

/-!
# The bags of retired objects

`RetirePtr`, `TryReclaim`, `SweepEpochOrphans` and `OrphanEpochEntries` of `include/Epochs.h`, with the loops
as they are written: each compacts its vector in place and reads the size again in every round. A deleter that
a loop runs may retire; it pushes into the vector that its own thread's loop is in.

Each round of a loop is a step, and the deleter's calls are steps between its start and its return. The bound
of a pass is whatever `MinActiveEpoch` returns. Of the state, `retired` and `deleted` are read by no step.
-/

namespace JLib.Epochs.Bags
open LTS Loops

/-- An entry: the pointer with its deleter, and the epoch. The serial number tells retirements of one pointer
apart, and nothing reads it. -/
structure EpochRetired (π : Type) where
  ptr : π
  epoch : Nat
  serial : Nat

/-- Where a thread is in `TryReclaim`: in a loop, before its round `i`, or while the deleter of the round
before runs. -/
inductive Pass where
  | idle
  | own (safeEpoch i kept : Nat) (deleting : Bool)
  -- the gate in front of the sweep, and the wait for the lock
  | gate (safeEpoch : Nat)
  | lock (safeEpoch : Nat)
  | sweep (safeEpoch i kept : Nat) (deleting : Bool)

structure State (θ π : Type) where
  bag : θ → List (EpochRetired π) := fun _ => []
  bagDead : θ → Bool := fun _ => false
  pass : θ → Pass := fun _ => .idle
  orphans : List (EpochRetired π) := []
  orphanCount : Nat := 0
  -- who holds the lock of the store from one step to the next
  mtx : Option θ := none
  retired : List (EpochRetired π) := []
  deleted : List (EpochRetired π) := []

variable {θ π : Type} [DecidableEq θ]

namespace Pass

/-- The thread runs code that is not the loop's: the caller's own or a deleter's. -/
def outside : Pass → Bool
  | .idle => true
  | .own _ _ _ deleting => deleting
  | .sweep _ _ _ deleting => deleting
  | _ => false

end Pass

namespace State

def setPass (s : State θ π) (t : θ) (p : Pass) : State θ π :=
  { s with pass := Function.update s.pass t p }

/-- `OrphanEpochEntries`. -/
def orphanEpochEntries (s : State θ π) (v : List (EpochRetired π)) : State θ π :=
  if v = [] then s
  else { s with orphans := s.orphans ++ v, orphanCount := (s.orphans ++ v).length }

/-- `RetirePtr`. -/
def retirePtr (s : State θ π) (t : θ) (ptr : π) (epoch : Nat) : State θ π :=
  let x : EpochRetired π := ⟨ptr, epoch, s.retired.length⟩
  let s := { s with retired := x :: s.retired }
  if s.bagDead t then s.orphanEpochEntries [x]
  else { s with bag := Function.update s.bag t (s.bag t ++ [x]) }

/-- The deleter of an entry starts. -/
def delete (s : State θ π) (x : EpochRetired π) : State θ π := { s with deleted := s.deleted ++ [x] }

end State

inductive Label (θ π : Type) where
  | retire (t : θ) (ptr : π) (epoch : Nat)
  | reclaim (t : θ) (safeEpoch : Nat)
  | pass (t : θ)
  | exit (t : θ)

inductive Step : State θ π → Label θ π → State θ π → Prop where
  | retire {s : State θ π} {t ptr epoch} :
    (s.pass t).outside = true →
    (s.bagDead t = true → s.mtx = none) →
    Step s (.retire t ptr epoch) (s.retirePtr t ptr epoch)
  -- TryReclaim
  | reclaim {s : State θ π} {t v} :
    s.pass t = .idle →
    s.bagDead t = false →
    ¬(s.bag t = [] ∧ s.orphanCount = 0) →
    Step s (.reclaim t v) (s.setPass t (.own v 0 0 false))
  | ownDelete {s : State θ π} {t v i kept x} :
    s.pass t = .own v i kept false →
    (s.bag t)[i]? = some x →
    x.epoch < v →
    Step s (.pass t) ((s.delete x).setPass t (.own v (i + 1) kept true))
  | ownReturn {s : State θ π} {t v i kept} :
    s.pass t = .own v i kept true →
    Step s (.pass t) (s.setPass t (.own v i kept false))
  | ownKeep {s : State θ π} {t v i kept x} :
    s.pass t = .own v i kept false →
    (s.bag t)[i]? = some x →
    ¬x.epoch < v →
    Step s (.pass t)
      ({ s with bag := Function.update s.bag t ((s.bag t).set kept x) }.setPass t (.own v (i + 1) (kept + 1) false))
  | ownEnd {s : State θ π} {t v i kept} :
    s.pass t = .own v i kept false →
    i = (s.bag t).length →
    Step s (.pass t) ({ s with bag := Function.update s.bag t ((s.bag t).take kept) }.setPass t (.gate v))
  | shut {s : State θ π} {t v} :
    s.pass t = .gate v →
    s.orphanCount = 0 →
    Step s (.pass t) (s.setPass t .idle)
  | opened {s : State θ π} {t v} :
    s.pass t = .gate v →
    s.orphanCount ≠ 0 →
    Step s (.pass t) (s.setPass t (.lock v))
  -- SweepEpochOrphans
  | lock {s : State θ π} {t v} :
    s.pass t = .lock v →
    s.mtx = none →
    Step s (.pass t) ({ s with mtx := some t }.setPass t (.sweep v 0 0 false))
  | sweepDelete {s : State θ π} {t v i kept x} :
    s.pass t = .sweep v i kept false →
    s.orphans[i]? = some x →
    x.epoch < v →
    Step s (.pass t) ((s.delete x).setPass t (.sweep v (i + 1) kept true))
  | sweepReturn {s : State θ π} {t v i kept} :
    s.pass t = .sweep v i kept true →
    Step s (.pass t) (s.setPass t (.sweep v i kept false))
  | sweepKeep {s : State θ π} {t v i kept x} :
    s.pass t = .sweep v i kept false →
    s.orphans[i]? = some x →
    ¬x.epoch < v →
    Step s (.pass t) ({ s with orphans := s.orphans.set kept x }.setPass t (.sweep v (i + 1) (kept + 1) false))
  | sweepEnd {s : State θ π} {t v i kept} :
    s.pass t = .sweep v i kept false →
    i = s.orphans.length →
    Step s (.pass t)
      ({ s with
        orphans := s.orphans.take kept
        orphanCount := (s.orphans.take kept).length
        mtx := none }.setPass t .idle)
  -- ~EpochRetireBatch
  | exit {s : State θ π} {t} :
    s.pass t = .idle →
    (s.bag t ≠ [] → s.mtx = none) →
    Step s (.exit t)
      { s.orphanEpochEntries (s.bag t) with
        bag := Function.update s.bag t []
        bagDead := Function.update s.bagDead t true }

end JLib.Epochs.Bags
