import Mathlib.Tactic.Lemma
import Mathlib.Tactic.TypeStar

/-!
# Cancellation tokens

The read side of `include/CancelToken.h`: a token is a packed handle (16-bit slot index, 16-bit
generation) into a table of scope slots, a scope is cancelled when it or anything enclosing it is, and
a handle whose generation no longer matches reads as unscoped. `isTaskCancelled` is the one place
cancellation is decided (`include/TaskScheduler.h`).

The waiting primitives only read this state, and other threads may change it between any two of their
steps. A `World` is what such a step sees: the slot table and, for each party, the task it runs (a
bare application thread has none).
-/

namespace JLib

/-- One scope slot. `gen` is the high half and `cancelled` the low bit of the source's `state` word. -/
structure CancelSlot where
  gen : Nat := 0
  cancelled : Bool := false
  parent : Nat := 0xFFFFFFFF
  deriving Repr, DecidableEq

/-- The 16 generation bits a handle carries. -/
def CancelSlot.genOf (s : CancelSlot) : Nat := s.gen % 65536

/-- A handle: `raw % 65536` is the slot index, `raw / 65536` the generation. -/
structure CancelToken where
  raw : Nat
  deriving Repr, DecidableEq

namespace CancelToken

/-- The absent token. -/
def kNone : CancelToken := ⟨0xFFFFFFFF⟩

/-- Number of scope slots. -/
def kCancelSlots : Nat := 65535

/-- How far a walk towards the root goes. -/
def kMaxScopeDepth : Nat := 8

/-- A token that names something. -/
def valid (t : CancelToken) : Bool := t != kNone

/-- One level of the walk shared by `cancelled` and `isWithin`: the slot a raw handle resolves to. -/
def slotOf (tbl : Nat → CancelSlot) (raw : Nat) : Option CancelSlot :=
  if raw = kNone.raw then none
  else if raw % 65536 ≥ kCancelSlots then none
  else if (tbl (raw % 65536)).genOf ≠ raw / 65536 then none
  else some (tbl (raw % 65536))

/-- The walk of `Cancelled()`, `depth` levels. -/
def cancelledFrom (tbl : Nat → CancelSlot) : Nat → Nat → Bool
  | 0, _ => false
  | depth + 1, raw =>
    match slotOf tbl raw with
    | none => false
    | some s => s.cancelled || cancelledFrom tbl depth s.parent

/-- `CancelToken::Cancelled`. -/
def cancelled (tbl : Nat → CancelSlot) (t : CancelToken) : Bool :=
  cancelledFrom tbl kMaxScopeDepth t.raw

/-- The walk of `IsWithin()`: the identity test comes before the slot is resolved. -/
def withinFrom (tbl : Nat → CancelSlot) (ancestor : Nat) : Nat → Nat → Bool
  | 0, _ => false
  | depth + 1, raw =>
    if raw = kNone.raw then false
    else if raw = ancestor then true
    else
      match slotOf tbl raw with
      | none => false
      | some s => withinFrom tbl ancestor depth s.parent

/-- `CancelToken::IsWithin`. -/
def isWithin (tbl : Nat → CancelSlot) (t ancestor : CancelToken) : Bool :=
  ancestor.valid && withinFrom tbl ancestor.raw kMaxScopeDepth t.raw

end CancelToken

/-- The two fields of a task that cancellation reads. -/
structure TaskScope where
  cancelToken : CancelToken := .kNone
  cancelledDirect : Bool := false
  deriving Repr, DecidableEq

/-- What one step of a primitive sees of the rest of the process. -/
structure World (T : Type*) where
  slots : Nat → CancelSlot
  task : T → Option TaskScope

namespace World
variable {T : Type*}

/-- `IsTaskCancelled` of the task a party runs; a party without one is never cancelled. -/
def isTaskCancelled (c : World T) (t : T) : Bool :=
  match c.task t with
  | none => false
  | some k => k.cancelledDirect || k.cancelToken.cancelled c.slots

/-- `GetCurrentTask()`: the party's task, if it runs one. -/
def currentTask (c : World T) (t : T) : Option T := (c.task t).map fun _ => t

/-- `callerTask ? callerTask->cancelToken : kNone`. -/
def tokenOf (c : World T) (t : T) : CancelToken :=
  match c.task t with
  | none => .kNone
  | some k => k.cancelToken

/-- The filter of every `CancelWaiters(tok)`: an invalid token means everyone. -/
def selects (c : World T) (tok w : CancelToken) : Bool :=
  !tok.valid || w.isWithin c.slots tok

/-- A world in which the parties of `l` were cancelled individually and no scope exists. -/
def direct [DecidableEq T] (l : List T) : World T where
  slots _ := {}
  task t := some { cancelledDirect := l.contains t }

/-- In the direct world a party is cancelled when it is in the list. -/
@[simp] lemma isTaskCancelled_direct [DecidableEq T] (l : List T) (t : T) :
    (direct l).isTaskCancelled t = l.contains t := by
  simp [direct, isTaskCancelled, CancelToken.cancelled, CancelToken.cancelledFrom,
    CancelToken.kMaxScopeDepth, CancelToken.slotOf, CancelToken.kNone]

end World
end JLib
