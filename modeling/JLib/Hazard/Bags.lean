import JLib.LTS.Runs
import JLib.Loops.Partition
import Mathlib.Algebra.Order.Ring.Int
import Mathlib.Logic.Function.Basic

/-!
# The bags of retired objects

`Retire`, `Scan`, `AdoptOrphans` and `~RetireBatch` of `src/Hazard.cpp`, with the loops as they are written: each
runs over its vector with iterators taken when it began, collects what is named in a second vector and swaps the
two. A deleter that a loop runs may retire, and `Retire` may call `Scan` again.

Each round of a loop is a step, and the deleter's calls are steps between its start and its return. What `Scan`
finds in the cells is whatever it is. Of the state, `retired` and `deleted` are read by no step.
-/

namespace JLib.Hazard.Bags
open LTS Loops

/-- An entry: the pointer with its deleter. The serial number tells retirements of one pointer apart, and nothing
reads it. -/
structure Retired (π : Type) where
  ptr : π
  serial : Nat
  deriving DecidableEq

/-- A call of `Scan` in progress: in a loop, before the next round, or while a deleter of the loop runs. -/
inductive Frame (π : Type) where
  -- the loop over the thread's own bag, with the buffer that its iterators point into
  | own (named : List π) (buffer i stop : Nat) (keep : List (Retired π)) (deleting : Bool)
  -- the gate in front of the sweep, and the wait for the lock
  | gate (named : List π)
  | lock (named : List π)
  -- the loop over the store; its variables are with the lock
  | sweep (named : List π) (deleting : Bool)
  -- an iterator was used after its buffer was gone
  | undefined

/-- The variables of the loop over the store. -/
structure Sweep (π : Type) where
  i : Nat := 0
  stop : Nat
  stillNamed : List (Retired π) := []

structure State (θ π : Type) where
  items : θ → List (Retired π) := fun _ => []
  -- of the vector: how much fits without another buffer, and how many buffers it had
  capacity : θ → Nat := fun _ => 0
  buffer : θ → Nat := fun _ => 0
  retireDead : θ → Bool := fun _ => false
  -- the calls of `Scan`, the innermost first
  stack : θ → List (Frame π) := fun _ => []
  orphans : List (Retired π) := []
  orphanCount : Nat := 0
  -- who holds the lock of the store from one step to the next
  mtx : Option (θ × Sweep π) := none
  retired : List (Retired π) := []
  deleted : List (Retired π) := []

/-- The number of entries at which `Retire` scans, and the growth of a full vector. -/
structure Setup where
  threshold : Nat
  grow : Nat → Nat

variable {θ π : Type} [DecidableEq θ] [DecidableEq π]

/-- The deleter of a round runs. -/
def Frame.deleting : Frame π → Bool
  | .own _ _ _ _ _ deleting => deleting
  | .sweep _ deleting => deleting
  | _ => false

namespace State

/-- The thread runs code that is not that of `Scan`: the caller's own or a deleter's. -/
def outside (s : State θ π) (t : θ) : Bool :=
  match s.stack t with
  | [] => true
  | f :: _ => f.deleting

def setStack (s : State θ π) (t : θ) (fs : List (Frame π)) : State θ π :=
  { s with stack := Function.update s.stack t fs }

/-- `AdoptOrphans`. -/
def adoptOrphans (s : State θ π) (v : List (Retired π)) : State θ π :=
  if v = [] then s
  else { s with orphans := s.orphans ++ v, orphanCount := (s.orphans ++ v).length }

/-- `emplace_back`. -/
def emplaceBack (w : Setup) (s : State θ π) (t : θ) (x : Retired π) : State θ π :=
  let s := { s with items := Function.update s.items t (s.items t ++ [x]) }
  if (s.items t).length ≤ s.capacity t then s
  else
    { s with
      capacity := Function.update s.capacity t (w.grow (s.capacity t))
      buffer := Function.update s.buffer t (s.buffer t + 1) }

/-- `Scan` has read the cells and begins its first loop. -/
def beginScan (s : State θ π) (t : θ) (named : List π) : State θ π :=
  s.setStack t (.own named (s.buffer t) 0 (s.items t).length [] false :: s.stack t)

/-- `Retire`. -/
def retire (w : Setup) (s : State θ π) (t : θ) (p : π) (named : List π) : State θ π :=
  let x : Retired π := ⟨p, s.retired.length⟩
  let s := { s with retired := x :: s.retired }
  if s.retireDead t then s.adoptOrphans [x]
  else
    let s := s.emplaceBack w t x
    if w.threshold ≤ (s.items t).length then s.beginScan t named else s

/-- The deleter of an entry starts. -/
def delete (s : State θ π) (x : Retired π) : State θ π := { s with deleted := s.deleted ++ [x] }

end State

inductive Label (θ π : Type) where
  | retire (t : θ) (p : π) (named : List π)
  | scan (t : θ) (named : List π)
  | pass (t : θ)
  | exit (t : θ)

inductive Step (w : Setup) : State θ π → Label θ π → State θ π → Prop where
  | retire {s : State θ π} {t p named} :
    s.outside t = true →
    (s.retireDead t = true → s.mtx = none) →
    Step w s (.retire t p named) (s.retire w t p named)
  -- Scan
  | scan {s : State θ π} {t named} :
    s.stack t = [] →
    s.retireDead t = false →
    ¬(s.items t = [] ∧ s.orphanCount = 0) →
    Step w s (.scan t named) (s.beginScan t named)
  | ownDelete {s : State θ π} {t named b i stop keep x fs} :
    s.stack t = .own named b i stop keep false :: fs →
    b = s.buffer t →
    i < stop →
    (s.items t)[i]? = some x →
    x.ptr ∉ named →
    Step w s (.pass t) ((s.delete x).setStack t (.own named b (i + 1) stop keep true :: fs))
  | ownReturn {s : State θ π} {t named b i stop keep fs} :
    s.stack t = .own named b i stop keep true :: fs →
    Step w s (.pass t) (s.setStack t (.own named b i stop keep false :: fs))
  | ownKeep {s : State θ π} {t named b i stop keep x fs} :
    s.stack t = .own named b i stop keep false :: fs →
    b = s.buffer t →
    i < stop →
    (s.items t)[i]? = some x →
    x.ptr ∈ named →
    Step w s (.pass t) (s.setStack t (.own named b (i + 1) stop (keep ++ [x]) false :: fs))
  -- the vectors are swapped
  | ownEnd {s : State θ π} {t named b i stop keep fs} :
    s.stack t = .own named b i stop keep false :: fs →
    b = s.buffer t →
    i = stop →
    Step w s (.pass t)
      ({ s with
        items := Function.update s.items t keep
        capacity := Function.update s.capacity t (max named.length keep.length)
        buffer := Function.update s.buffer t (s.buffer t + 1) }.setStack t (.gate named :: fs))
  | undefined {s : State θ π} {t named b i stop keep fs} :
    s.stack t = .own named b i stop keep false :: fs →
    b ≠ s.buffer t →
    Step w s (.pass t) (s.setStack t (.undefined :: fs))
  | shut {s : State θ π} {t named fs} :
    s.stack t = .gate named :: fs →
    s.orphanCount = 0 →
    Step w s (.pass t) (s.setStack t fs)
  | opened {s : State θ π} {t named fs} :
    s.stack t = .gate named :: fs →
    s.orphanCount ≠ 0 →
    Step w s (.pass t) (s.setStack t (.lock named :: fs))
  | lock {s : State θ π} {t named fs} :
    s.stack t = .lock named :: fs →
    s.mtx = none →
    Step w s (.pass t)
      ({ s with mtx := some (t, { stop := s.orphans.length }) }.setStack t (.sweep named false :: fs))
  | sweepDelete {s : State θ π} {t named v x fs} :
    s.stack t = .sweep named false :: fs →
    s.mtx = some (t, v) →
    v.i < v.stop →
    s.orphans[v.i]? = some x →
    x.ptr ∉ named →
    Step w s (.pass t)
      ({ s.delete x with mtx := some (t, { v with i := v.i + 1 }) }.setStack t (.sweep named true :: fs))
  | sweepReturn {s : State θ π} {t named fs} :
    s.stack t = .sweep named true :: fs →
    Step w s (.pass t) (s.setStack t (.sweep named false :: fs))
  | sweepKeep {s : State θ π} {t named v x fs} :
    s.stack t = .sweep named false :: fs →
    s.mtx = some (t, v) →
    v.i < v.stop →
    s.orphans[v.i]? = some x →
    x.ptr ∈ named →
    Step w s (.pass t)
      { s with mtx := some (t, { v with i := v.i + 1, stillNamed := v.stillNamed ++ [x] }) }
  | sweepEnd {s : State θ π} {t named v fs} :
    s.stack t = .sweep named false :: fs →
    s.mtx = some (t, v) →
    v.i = v.stop →
    Step w s (.pass t)
      ({ s with
        orphans := v.stillNamed
        orphanCount := v.stillNamed.length
        mtx := none }.setStack t fs)
  -- ~RetireBatch
  | exit {s : State θ π} {t} :
    s.stack t = [] →
    (s.items t ≠ [] → s.mtx = none) →
    Step w s (.exit t)
      { s.adoptOrphans (s.items t) with
        items := Function.update s.items t []
        retireDead := Function.update s.retireDead t true }

end JLib.Hazard.Bags
