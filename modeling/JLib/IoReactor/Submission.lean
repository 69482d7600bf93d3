import JLib.Cancel.Token
import JLib.Io.Result
import JLib.LTS.Runs
import JLib.Links.Chain
import JLib.Rings.Wrapped

/-!
# Submissions

The way of a request into the kernel, one call after the other: `SubmitOp` and `RequestCancel` of
`src/posix/IoReactor.cpp` over `GetSqe` and `Submit` of `src/posix/IoUring.cpp`. A request is an address. The
requests in flight are on doubly linked lists, one for each shard, and the shard of a request is a hash of its
address.

`io_uring_enter` for one entry consumes the oldest published entry, or it fails and consumes none. Of the
state, `linked`, `calls`, `answer`, `published` and `taken` are read by no function of the source.
-/

namespace JLib.IoReactor.Submission
open LTS Io Rings

abbrev Addr := BitVec 64

def kShards : Nat := 16

/-- The targets that `RequestCancel` collects from one shard. -/
def kTargets : Nat := 64

def enosys : Nat := 38

/-- `ShardFor`, the index. -/
def shardFor (r : Addr) : Nat := (((r >>> 4) * 0x9E3779B97F4A7C15) >>> 60 &&& 15).toNat

/-! ## The shards -/

/-- `Shard::head`, and `IoRequest::prev` and `IoRequest::next`. -/
structure Shards where
  head : Nat → Option Addr := fun _ => none
  prev : Addr → Option Addr := fun _ => none
  next : Addr → Option Addr := fun _ => none

namespace Shards

def Link (s : Shards) (r : Addr) : Shards :=
  let i := shardFor r
  { head := Function.update s.head i (some r)
    next := Function.update s.next r (s.head i)
    prev :=
      match s.head i with
      | some h => Function.update (Function.update s.prev r none) h (some r)
      | none => Function.update s.prev r none }

def UnlinkLocked (s : Shards) (r : Addr) : Shards :=
  let i := shardFor r
  let next :=
    match s.prev r with
    | some p => Function.update s.next p (s.next r)
    | none => s.next
  let prev :=
    match s.next r with
    | some n => Function.update s.prev n (s.prev r)
    | none => s.prev
  { head := if s.prev r = none ∧ s.head i = some r then Function.update s.head i (s.next r) else s.head
    next := Function.update next r none
    prev := Function.update prev r none }

/-- The loop over one shard, from `r`. -/
def collect (s : Shards) (isTarget : Addr → Bool) : Nat → Option Addr → List Addr → List Addr
  | 0, _, targets => targets
  | _ + 1, none, targets => targets
  | fuel + 1, some r, targets =>
    if targets.length < kTargets then
      s.collect isTarget fuel (s.next r) (if isTarget r then targets ++ [r] else targets)
    else targets

/-- No list is longer than there are addresses. -/
def targets (s : Shards) (isTarget : Addr → Bool) (i : Nat) : List Addr :=
  s.collect isTarget (2 ^ 64) (s.head i) []

end Shards

/-! ## The ring -/

/-- What an entry asks for; its `user_data` is the request or the sentinel. -/
inductive Sqe where
  | op (req : Addr)
  | asyncCancel (target : Addr)
  deriving DecidableEq

/-- An entry and the call that published it. -/
structure Entry where
  sqe : Sqe
  call : Nat
  deriving DecidableEq

structure State where
  ringUp : Bool
  ring : Ring 32 Entry
  shards : Shards := {}
  token : Addr → CancelToken := fun _ => .kNone
  out : Addr → Option IoResult := fun _ => none
  -- the requests that are linked, the last one first
  linked : List Addr := []
  -- the number of calls, and what each `SubmitOp` returned
  calls : Nat := 0
  answer : Nat → Option Bool := fun _ => none
  published : List Entry := []
  -- what the kernel consumed, each with the call that entered it
  taken : List (Nat × Entry) := []

/-- What a call finds: the scopes, `stopping`, and the error of `io_uring_enter`, if it fails. -/
structure Env where
  slots : Nat → CancelSlot
  stopping : Bool
  errno : Option Nat

namespace State

def init (ringUp : Bool) (bits : Nat) : State :=
  { ringUp, ring := .ofBits bits fun _ => ⟨.op 0, 0⟩ }

/-- `uring::Submit(ring, 0)` of an entry that is filled in. -/
def Submit (s : State) (x : Sqe) (errno : Option Nat) : State :=
  let s :=
    { s with
      ring := s.ring.push ⟨x, s.calls⟩
      published := s.published ++ [⟨x, s.calls⟩] }
  match errno with
  | some _ => s
  | none => { s with ring := s.ring.pop, taken := s.taken ++ [(s.calls, s.ring.front)] }

def link (s : State) (r : Addr) : State :=
  { s with shards := s.shards.Link r, linked := r :: s.linked }

/-- `UnlinkUnlocked`. -/
def unlink (s : State) (r : Addr) : State :=
  { s with shards := s.shards.UnlinkLocked r, linked := s.linked.erase r }

/-- The call returns; a final answer is in `*out`. -/
def returns (s : State) (r : Addr) (res : Option IoResult) : State :=
  { s with
    out := if res.isSome then Function.update s.out r res else s.out
    answer := Function.update s.answer s.calls (some res.isSome)
    calls := s.calls + 1 }

def SubmitOp (s : State) (req : Addr) (tok : CancelToken) (e : Env) : State :=
  if tok.cancelled e.slots then s.returns req (some ⟨.cancelled, 0, 0⟩)
  else if s.ringUp = false then s.returns req (some ⟨.failed, 0, enosys⟩)
  else if e.stopping then s.returns req (some ⟨.failed, 0, eshutdown⟩)
  else
    let s := { s with token := Function.update s.token req tok }.link req
    if s.ring.full then (s.unlink req).returns req (some ⟨.failed, 0, eagain⟩)
    else
      let s := s.Submit (.op req) e.errno
      match e.errno with
      | some errno => (s.unlink req).returns req (some ⟨.failed, 0, errno⟩)
      | none => s.returns req none

/-- `all || CancelToken(r->token).IsWithin(token)`. -/
def isTarget (s : State) (slots : Nat → CancelSlot) (token : CancelToken) (r : Addr) : Bool :=
  !token.valid || (s.token r).isWithin slots token

/-- The second loop of `RequestCancel`, over the targets of one shard; it ends early when the ring is full or
an enter fails. -/
def ask (errno : Addr → Option Nat) : List Addr → State × Nat → State × Nat
  | [], sn => sn
  | r :: rs, (s, asked) =>
    if s.ring.full then (s, asked)
    else
      let s := s.Submit (.asyncCancel r) (errno r)
      if (errno r).isSome then (s, asked) else ask errno rs (s, asked + 1)

/-- The loop of `RequestCancel` over the shards. -/
def askShards (isTarget : Addr → Bool) (errno : Addr → Option Nat) (is : List Nat) (sn : State × Nat) : State × Nat :=
  is.foldl (fun sn i => ask errno (sn.1.shards.targets isTarget i) sn) sn

/-- `RequestCancel`; an enter for a target may fail. -/
def RequestCancel (s : State) (token : CancelToken) (slots : Nat → CancelSlot) (errno : Addr → Option Nat) :
    State × Nat :=
  if s.ringUp = false then (s, 0)
  else
    let sn := askShards (s.isTarget slots token) errno (List.range kShards) (s, 0)
    ({ sn.1 with calls := s.calls + 1 }, sn.2)

end State

inductive Label where
  | submit (req : Addr) (tok : CancelToken) (e : Env)
  | complete (r : Addr)
  | cancel (token : CancelToken) (slots : Nat → CancelSlot) (errno : Addr → Option Nat)

/-- A request is in one operation at a time. -/
inductive Step : State → Label → State → Prop where
  | submit {s : State} {req tok e} :
    req ∉ s.linked →
    Step s (.submit req tok e) (s.SubmitOp req tok e)
  -- the completion unlinks it
  | complete {s : State} {r} :
    r ∈ s.linked →
    Step s (.complete r) (s.unlink r)
  | cancel {s : State} {token slots errno} :
    Step s (.cancel token slots errno) (s.RequestCancel token slots errno).1

end JLib.IoReactor.Submission
