import Mathlib.Tactic.Lemma

/-!
# Results of operations

`IoResult` of `include/IoReactor.h`: what an operation leaves in `*out` for the task that waits on it.
-/

namespace JLib.Io

inductive IoStatus where
  | completed
  | cancelled
  | failed
  deriving DecidableEq

structure IoResult where
  status : IoStatus
  bytes : Nat
  error : Nat
  deriving DecidableEq

/-- `IoRequest::kMaxVectors`. -/
def kMaxVectors : Nat := 8

/-- `ioplat::kErrMsgSize`: `EMSGSIZE`. -/
def kErrMsgSize : Nat := 90

def eagain : Nat := 11

def eshutdown : Nat := 108

def ecanceled : Nat := 125

/-- The result the kernel reports as one signed number. -/
def classify (res : Int) : IoResult :=
  if 0 ≤ res then ⟨.completed, res.toNat, 0⟩
  else if res = -(ecanceled : Int) then ⟨.cancelled, 0, ecanceled⟩
  else ⟨.failed, 0, (-res).toNat⟩

end JLib.Io
