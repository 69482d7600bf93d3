import JLib.Io.Result
import JLib.LTS.Runs
import JLib.Links.Fifo

/-!
# Streams

`IoStream` of `src/IoShared.cpp`. In each direction one transfer at a time is with the reactor; a transfer
that arrives meanwhile is linked behind the others, and who ends a transfer hands the next one in. The
direction is not released in between: `busy` stays set while `Advance` and `SubmitOne` call each other.

The critical sections of `lock_` are steps, and so are the calls of `SubmitPrepared`, which either takes the
request (it is with the kernel until its completion) or answers it at once. A short send that the reactor
submits again stays with the reactor all the time. While a request is with the reactor its link belongs to
the reactor's own lists, so it may change there at any time.

`SubmitPrepared` publishes the entry before the enter and does not take it back when the enter fails: the
request is answered, and a later enter, of whatever request, may hand the entry to the kernel. The completion
loop then takes the request from the entry and goes on as for any other. A request is used anew with another
token.
-/

namespace JLib.IoStream
open LTS Links Io

inductive Kind where
  | send
  | recv
  deriving DecidableEq

structure Chain (ρ : Type) where
  head : Option ρ := none
  tail : Option ρ := none
  busy : Bool := false
  queued : Nat := 0

/-- What is left to do when `Advance` returns: `SubmitChained` returns true to the caller of the request
that was answered at once, or the completion loop pushes the task of the request that completed. -/
inductive Unwind (ρ : Type) where
  | caller (r : ρ)
  | completion (r : ρ)

inductive Pc (ρ : Type) where
  | idle
  -- in `SubmitChained`, before the lock
  | enter (k : Kind) (r : ρ)
  -- in `SubmitOne`, for the caller of the request
  | first (k : Kind) (r : ρ)
  -- in `SubmitOne`, called by `Advance`
  | later (k : Kind) (r : ρ) (u : Unwind ρ)
  -- in `Advance`, before the lock
  | advance (k : Kind) (u : Unwind ρ)
  | unwind (u : Unwind ρ)

/-- A stream with the threads that call it and the completion loop. -/
structure State (θ ρ : Type) where
  chain : Kind → Chain ρ := fun _ => {}
  next : ρ → Option ρ := fun _ => none
  -- the requests that are with the reactor
  kernel : Kind → List ρ := fun _ => []
  -- the requests of the entries that a failed enter left in the submission queue
  stale : List ρ := []
  pc : θ → Pc ρ := fun _ => .idle
  kind : ρ → Kind := fun _ => .send
  -- the token of the request is cancelled
  cancelled : ρ → Bool := fun _ => false
  out : ρ → Option IoResult := fun _ => none
  -- the request is in use: its caller may not use it again
  live : ρ → Bool := fun _ => false
  -- `SubmitChained` returned false, so the caller has suspended
  suspended : ρ → Option Kind := fun _ => none
  -- how often the task of the request was pushed since it was submitted
  pushes : ρ → Nat := fun _ => 0
  -- what no step reads: the list the links spell, and in which order requests took the lock and were
  -- handed to the reactor
  line : Kind → List ρ := fun _ => []
  locked : Kind → List ρ := fun _ => []
  handed : Kind → List ρ := fun _ => []

variable {θ ρ : Type} [DecidableEq θ] [DecidableEq ρ]

namespace State

def setPc (s : State θ ρ) (t : θ) (c : Pc ρ) : State θ ρ :=
  { s with pc := Function.update s.pc t c }

def setChain (s : State θ ρ) (k : Kind) (c : Chain ρ) : State θ ρ :=
  { s with chain := Function.update s.chain k c }

/-- A request is used anew, with a token that is cancelled or not. -/
def fresh (s : State θ ρ) (r : ρ) (c : Bool) : State θ ρ :=
  { s with
    cancelled := Function.update s.cancelled r c
    suspended := Function.update s.suspended r none
    pushes := Function.update s.pushes r 0 }

def answer (s : State θ ρ) (r : ρ) (res : IoResult) : State θ ρ :=
  { s with out := Function.update s.out r (some res) }

/-- The critical section of `SubmitChained` on a busy direction. -/
def enqueue (s : State θ ρ) (k : Kind) (r : ρ) : State θ ρ :=
  { s.setChain k
      { s.chain k with
        head := if (s.chain k).tail.isSome then (s.chain k).head else some r
        tail := some r
        queued := (s.chain k).queued + 1 } with
    next := linkLast s.next (s.chain k).tail r
    suspended := Function.update s.suspended r (some k)
    line := Function.update s.line k (s.line k ++ [r])
    locked := Function.update s.locked k (s.locked k ++ [r]) }

/-- The critical section of `SubmitChained` on an idle direction. -/
def occupy (s : State θ ρ) (k : Kind) (r : ρ) : State θ ρ :=
  { s.setChain k { s.chain k with busy := true } with
    locked := Function.update s.locked k (s.locked k ++ [r]) }

/-- The critical section of `Advance` when a request waits. -/
def dequeue (s : State θ ρ) (k : Kind) (r : ρ) : State θ ρ :=
  { s.setChain k
      { s.chain k with
        head := s.next r
        tail := if s.next r = none then none else (s.chain k).tail
        queued := (s.chain k).queued - 1 } with
    next := Function.update s.next r none
    line := Function.update s.line k (s.line k).tail }

/-- The critical section of `Advance` when none does. -/
def release (s : State θ ρ) (k : Kind) : State θ ρ :=
  s.setChain k { s.chain k with busy := false }

/-- `SubmitPrepared` is called. -/
def handIn (s : State θ ρ) (k : Kind) (r : ρ) : State θ ρ :=
  { s with handed := Function.update s.handed k (s.handed k ++ [r]) }

/-- `SubmitPrepared` takes a request: its link is the reactor's from then on. -/
def toKernel (s : State θ ρ) (k : Kind) (r : ρ) (x : Option ρ) : State θ ρ :=
  { s with
    kernel := Function.update s.kernel k (r :: s.kernel k)
    next := Function.update s.next r x }

/-- A failed enter leaves the entry of the request published. -/
def strand (s : State θ ρ) (r : ρ) : State θ ρ := { s with stale := r :: s.stale }

/-- The answers `SubmitPrepared` gives at once. -/
def Answers (s : State θ ρ) (r : ρ) (res : IoResult) : Prop :=
  (s.cancelled r = true ∧ res = ⟨.cancelled, 0, 0⟩) ∨ (s.cancelled r = false ∧ ∃ e, res = ⟨.failed, 0, e⟩)

end State

inductive Label (θ ρ : Type) where
  | submit (t : θ) (k : Kind) (r : ρ) (count : Nat)
  | lock (t : θ)
  | accepted (t : θ)
  | answered (t : θ)
  | advance (t : θ)
  | complete (t : θ) (r : ρ) (res : IoResult)
  -- of an entry that a failed enter had left
  | stray (t : θ) (r : ρ) (res : IoResult)
  | strand (r : ρ)
  | unwind (t : θ)
  | relink (r : ρ)
  | cancel

inductive Step : State θ ρ → Label θ ρ → State θ ρ → Prop where
  -- SubmitChained
  | refuse {s : State θ ρ} {t k r count c} :
    s.pc t = .idle →
    s.live r = false →
    ¬(0 < count ∧ count ≤ kMaxVectors) →
    Step s (.submit t k r count) ((s.fresh r c).answer r ⟨.failed, 0, kErrMsgSize⟩)
  | tooLate {s : State θ ρ} {t k r count} :
    s.pc t = .idle →
    s.live r = false →
    0 < count ∧ count ≤ kMaxVectors →
    Step s (.submit t k r count) ((s.fresh r true).answer r ⟨.cancelled, 0, 0⟩)
  | enter {s : State θ ρ} {t k r count} :
    s.pc t = .idle →
    s.live r = false →
    0 < count ∧ count ≤ kMaxVectors →
    Step s (.submit t k r count)
      ({ s.fresh r false with
        kind := Function.update s.kind r k
        live := Function.update s.live r true
        next := Function.update s.next r none }.setPc t (.enter k r))
  | queue {s : State θ ρ} {t k r} :
    s.pc t = .enter k r →
    (s.chain k).busy = true →
    Step s (.lock t) ((s.enqueue k r).setPc t .idle)
  | start {s : State θ ρ} {t k r} :
    s.pc t = .enter k r →
    (s.chain k).busy = false →
    Step s (.lock t) ((s.occupy k r).setPc t (.first k r))
  -- SubmitOne
  | acceptFirst {s : State θ ρ} {t k r x} :
    s.pc t = .first k r →
    s.cancelled r = false →
    Step s (.accepted t)
      ({ (s.handIn k r).toKernel k r x with
        suspended := Function.update s.suspended r (some k) }.setPc t .idle)
  | answerFirst {s : State θ ρ} {t k r res} :
    s.pc t = .first k r →
    s.Answers r res →
    Step s (.answered t) (((s.handIn k r).answer r res).setPc t (.advance k (.caller r)))
  | failFirst {s : State θ ρ} {t k r e} :
    s.pc t = .first k r →
    s.cancelled r = false →
    Step s (.answered t)
      ((((s.handIn k r).answer r ⟨.failed, 0, e⟩).strand r).setPc t (.advance k (.caller r)))
  | acceptLater {s : State θ ρ} {t k r u x} :
    s.pc t = .later k r u →
    s.cancelled r = false →
    Step s (.accepted t) (((s.handIn k r).toKernel k r x).setPc t (.unwind u))
  | answerLater {s : State θ ρ} {t k r u res} :
    s.pc t = .later k r u →
    s.Answers r res →
    Step s (.answered t) (((s.handIn k r).answer r res).setPc t (.advance k u))
  | failLater {s : State θ ρ} {t k r u e} :
    s.pc t = .later k r u →
    s.cancelled r = false →
    Step s (.answered t) ((((s.handIn k r).answer r ⟨.failed, 0, e⟩).strand r).setPc t (.advance k u))
  -- Advance
  | pop {s : State θ ρ} {t k u r} :
    s.pc t = .advance k u →
    (s.chain k).head = some r →
    Step s (.advance t) ((s.dequeue k r).setPc t (.later k r u))
  | release {s : State θ ρ} {t k u} :
    s.pc t = .advance k u →
    (s.chain k).head = none →
    Step s (.advance t) ((s.release k).setPc t (.unwind u))
  -- the completion loop, and its call of OnSendComplete or OnRecvComplete
  | complete {s : State θ ρ} {t k r res} :
    s.pc t = .idle →
    r ∈ s.kernel k →
    Step s (.complete t r res)
      (({ s with
        kernel := Function.update s.kernel k ((s.kernel k).erase r)
        next := Function.update s.next r none }.answer r res).setPc t (.advance k (.completion r)))
  -- the enter that submits the rest of a short send fails
  | resubmitFails {s : State θ ρ} {t r e} :
    s.pc t = .idle →
    r ∈ s.kernel .send →
    Step s (.complete t r ⟨.failed, 0, e⟩)
      ((({ s with
        kernel := Function.update s.kernel .send ((s.kernel .send).erase r)
        next := Function.update s.next r none }.answer r ⟨.failed, 0, e⟩).strand r).setPc t
          (.advance .send (.completion r)))
  -- the kernel has consumed an entry that was left
  | stray {s : State θ ρ} {t r res} :
    s.pc t = .idle →
    r ∈ s.stale →
    Step s (.stray t r res)
      (({ s with
        stale := s.stale.erase r
        next := Function.update s.next r none }.answer r res).setPc t (.advance (s.kind r) (.completion r)))
  | push {s : State θ ρ} {t r} :
    s.pc t = .unwind (.completion r) →
    Step s (.unwind t)
      ({ s with
        pushes := Function.update s.pushes r (s.pushes r + 1)
        live := Function.update s.live r false }.setPc t .idle)
  | returns {s : State θ ρ} {t r} :
    s.pc t = .unwind (.caller r) →
    Step s (.unwind t) ({ s with live := Function.update s.live r false }.setPc t .idle)
  -- the reactor's own lists, and cancellation
  | relink {s : State θ ρ} {k r x} :
    r ∈ s.kernel k →
    Step s (.relink r) { s with next := Function.update s.next r x }
  -- the enter of another operation that had the request fails
  | strand {s : State θ ρ} {r} :
    s.live r = false →
    Step s (.strand r) (s.strand r)
  | cancel {s : State θ ρ} {p : ρ → Bool} :
    Step s .cancel { s with cancelled := fun r => s.cancelled r || p r }

end JLib.IoStream
