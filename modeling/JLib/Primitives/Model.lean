import JLib.LTS.Runs
import Mathlib.Logic.Function.Basic

/-!
# The registry of wait primitives

The chain of `WaitPrimitive`s that starts at `primitivesHead`, and the loop of `TaskScheduler::Join` that drains it
(`include/WaitPrimitive.h`, `src/TaskScheduler.cpp`). The chain is under `primitivesMtx`: what is done within one hold
of it is one step. Any thread constructs and destroys primitives at any time; an object that was destroyed does not
come back under its old name.
-/

namespace JLib.Primitives
open LTS

/-- The life of a primitive. Its destructor calls `LeaveRegistry` first and ends later. -/
inductive Life where
  | unborn
  -- constructed when there was no scheduler, and so not registered
  | unregistered
  | registered
  | destroying
  | destroyed
  deriving DecidableEq

/-- The drain loop of `Join`. -/
inductive Join (ν : Type) where
  | idle
  | loop
  -- the primitive is unlinked and the mutex released, the call is to come
  | unlinked (p : ν)
  | draining (p : ν)
  | done
  deriving DecidableEq

structure State (ν : Type) where
  initialized : Bool := false
  primitivesHead : Option ν := none
  nextPrimitive : ν → Option ν := fun _ => none
  prevPrimitive : ν → Option ν := fun _ => none
  life : ν → Life := fun _ => .unborn
  join : Join ν := .idle
  -- which ones the drain loop has unlinked
  drained : ν → Bool := fun _ => false

variable {ν : Type} [DecidableEq ν]

/-- A write through a pointer that may be null. -/
def store (f : ν → Option ν) (p : Option ν) (v : Option ν) : ν → Option ν :=
  match p with
  | some q => Function.update f q v
  | none => f

namespace State

def setLife (s : State ν) (p : ν) (x : Life) : State ν :=
  { s with life := Function.update s.life p x }

/-- The constructor, with a scheduler. -/
def enter (s : State ν) (p : ν) : State ν :=
  { s with
    nextPrimitive := Function.update s.nextPrimitive p s.primitivesHead
    prevPrimitive := store s.prevPrimitive s.primitivesHead (some p)
    primitivesHead := some p }

def LeaveRegistry (s : State ν) (p : ν) : State ν :=
  if s.initialized = false then s
  else if s.nextPrimitive p = none ∧ s.prevPrimitive p = none ∧ s.primitivesHead ≠ some p then s
  else
    { s with
      primitivesHead :=
        if (s.prevPrimitive p).isSome then s.primitivesHead
        else if s.primitivesHead = some p then s.nextPrimitive p else s.primitivesHead
      nextPrimitive :=
        Function.update (store s.nextPrimitive (s.prevPrimitive p) (s.nextPrimitive p)) p none
      prevPrimitive :=
        Function.update (store s.prevPrimitive (s.nextPrimitive p) (s.prevPrimitive p)) p none }

/-- The drain loop takes the head, which is `p`. -/
def pop (s : State ν) (p : ν) : State ν :=
  { s with
    primitivesHead := s.nextPrimitive p
    nextPrimitive := Function.update s.nextPrimitive p none
    prevPrimitive := Function.update (store s.prevPrimitive (s.nextPrimitive p) none) p none
    join := .unlinked p
    drained := Function.update s.drained p true }

end State

inductive Label (ν : Type) where
  | Init
  | construct (p : ν)
  | destroy (p : ν)
  | destroyed (p : ν)
  | Join
  | pop
  | DrainForShutdown (p : ν)
  | drained

inductive Step : State ν → Label ν → State ν → Prop where
  | Init {s : State ν} :
    s.initialized = false →
    Step s .Init { s with initialized := true }
  -- the primitives
  | construct {s : State ν} {p} :
    s.life p = .unborn →
    s.initialized = true →
    Step s (.construct p) ((s.enter p).setLife p .registered)
  | constructEarly {s : State ν} {p} :
    s.life p = .unborn →
    s.initialized = false →
    Step s (.construct p) (s.setLife p .unregistered)
  | destroy {s : State ν} {p} :
    s.life p = .registered ∨ s.life p = .unregistered →
    Step s (.destroy p) ((s.LeaveRegistry p).setLife p .destroying)
  -- by `~WaitPrimitive`, which leaves the registry once more
  | destroyed {s : State ν} {p} :
    s.life p = .destroying →
    Step s (.destroyed p) ((s.LeaveRegistry p).setLife p .destroyed)
  -- `Join`
  | Join {s : State ν} :
    s.initialized = true →
    s.join = .idle →
    Step s .Join { s with join := .loop }
  | pop {s : State ν} {p} :
    s.join = .loop →
    s.primitivesHead = some p →
    Step s .pop (s.pop p)
  | empty {s : State ν} :
    s.join = .loop →
    s.primitivesHead = none →
    Step s .pop { s with join := .done }
  | DrainForShutdown {s : State ν} {p} :
    s.join = .unlinked p →
    Step s (.DrainForShutdown p) { s with join := .draining p }
  | drained {s : State ν} {p} :
    s.join = .draining p →
    Step s .drained { s with join := .loop }

end JLib.Primitives
