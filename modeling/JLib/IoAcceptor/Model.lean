import JLib.Io.Result
import JLib.LTS.Runs
import Mathlib.Algebra.Order.Ring.Int
import Mathlib.Logic.Function.Basic

/-!
# The acceptor

`IoAcceptor` of `src/IoShared.cpp` over the io_uring backend. `Start` posts one accept for each slot; the
completion thread runs `OnComplete` for each that completes, hands the socket to a waiter or puts it into
`ready`, and posts the slot again. `SubmitAccept` of `src/posix/IoReactor.cpp` closes the socket that `Post`
made, since here the kernel makes one and returns it with the completion, which goes to `aux`.

Steps are the critical sections of the acceptor's mutex and the calls between them. There is one completion
thread. Other threads call the acceptor when `Start` has returned. The descriptors the kernel returned and
what became of them are kept beside the state, and so are what each `CancelWaiters` saw and how many enters
failed; no step reads them.

`SubmitAccept` publishes its entry before the enter and does not take it back when the enter fails: `Post`
counts the accept out, and a later enter, of whatever operation, gives it to the kernel. It then completes like
any other, and `OnComplete` counts it out once more, below zero if no other is counted.
-/

namespace JLib.IoAcceptor
open LTS Io

/-- Who runs `Post`: the thread that calls `Start`, and the completion thread. -/
inductive Party where
  | starter
  | loop
  deriving DecidableEq

/-- Where a party is in `Post`. -/
inductive Post where
  | make
  | count
  -- in `SubmitAccept`: before the checks, and after them
  | submit
  | publish
  -- the accept was answered at once
  | undo
  | close
  deriving DecidableEq

/-- Where the completion thread is in `OnComplete`. -/
inductive Handler (ω : Type) where
  | idle
  -- before the lock
  | entered (i accepted : Nat) (status : IoStatus)
  -- after it: nobody takes the socket
  | unkept (accepted : Nat)
  -- after it: the waiter that is to get the socket, and the cancelled ones
  | kept (i accepted : Nat) (handTo : Option ω) (skipped : List ω)

/-- Where a thread is that calls the acceptor. -/
inductive Pc (ω κ : Type) where
  | idle
  -- in `TakeOrQueue`, past the check of the token
  | checked (w : ω) (token : Option κ)
  -- in `CancelWaiters`, called from `Stop` if `stop`
  | cancel (stop : Bool) (token : Option κ)
  | resume (stop : Bool) (token : Option κ) (taken : List ω)
  -- in `Stop`; `drained` if it saw that nothing is outstanding
  | scope
  | drain
  | leftovers (drained : Bool)
  | closing (drained : Bool)
  | returned (drained : Bool)

/-- A token is a scope or none. -/
structure State (θ ω κ : Type) where
  -- the slots
  sock : Nat → Nat := fun _ => 0
  aux : Nat → Nat := fun _ => 0
  -- last in first
  ready : List Nat := []
  -- what `Stop` took out of `ready` and is still to close
  leftovers : List Nat := []
  queue : List ω := []
  token : ω → Option κ := fun _ => none
  out : ω → Nat := fun _ => 0
  -- a `size_t`: what is read is its remainder
  outstanding : Int := 0
  stopping : Bool := false
  -- `scope` is cancelled
  scope : Bool := false
  -- the slots `Start` is still to post
  todo : List Nat := []
  started : Bool := false
  post : Party → Option (Nat × Post) := fun _ => none
  handler : Handler ω := .idle
  -- the accepts the kernel has, those whose entry a failed enter left in the ring, and the descriptors that
  -- are open
  posted : List Nat := []
  stale : List Nat := []
  opened : List Nat := []
  pc : θ → Pc ω κ := fun _ => .idle
  cancelled : κ → Bool := fun _ => false
  -- sockets `Post` made and `SubmitAccept` closed; those the kernel accepted, that were given to a caller,
  -- and that the acceptor closed
  made : List Nat := []
  dropped : List Nat := []
  accepted : List Nat := []
  handed : List Nat := []
  closed : List Nat := []
  -- the waiter is in use; it was queued, and how often it was pushed since
  live : ω → Bool := fun _ => false
  suspended : ω → Bool := fun _ => false
  pushes : ω → Nat := fun _ => 0
  -- the scopes that were cancelled when the thread's call began; those of a call that has gone through the
  -- queue, and of one that has returned
  seen : θ → κ → Bool := fun _ _ => false
  swept : κ → Bool := fun _ => false
  finished : κ → Bool := fun _ => false
  -- how many accepts were left in the ring
  failed : Nat := 0

variable {θ ω κ : Type} [DecidableEq θ] [DecidableEq ω]

/-- The filter of `CancelWaiters(token)` on the token of a waiter. -/
def selects (within : κ → κ → Bool) : Option κ → Option κ → Bool
  | none, _ => true
  | some _, none => false
  | some k, some x => within x k

/-- The loop of `OnComplete` over the queue: who gets the socket, who is left, and who was skipped. -/
def skipCancelled (p : ω → Bool) : List ω → List ω → Option ω × List ω × List ω
  | [], skipped => (none, [], skipped)
  | w :: l, skipped => if p w then skipCancelled p l (w :: skipped) else (some w, l, skipped)

namespace State

/-- The acceptor with `depth` slots, about to be started. -/
def init (depth : Nat) : State θ ω κ := { todo := List.range depth }

def setPc (s : State θ ω κ) (t : θ) (c : Pc ω κ) : State θ ω κ :=
  { s with pc := Function.update s.pc t c }

def setPost (s : State θ ω κ) (p : Party) (c : Option (Nat × Post)) : State θ ω κ :=
  { s with post := Function.update s.post p c }

/-- `CancelToken::Cancelled`. -/
def isCancelled (s : State θ ω κ) : Option κ → Bool
  | none => false
  | some k => s.cancelled k

/-- What `SubmitAccept` does before it submits. -/
def dropMade (s : State θ ω κ) (i : Nat) : State θ ω κ :=
  if s.sock i = 0 then { s with aux := Function.update s.aux i 0 }
  else
    { s with
      aux := Function.update s.aux i 0
      opened := s.opened.erase (s.sock i)
      dropped := s.sock i :: s.dropped }

/-- `CloseSocket`. -/
def close (s : State θ ω κ) (fd : Nat) : State θ ω κ :=
  { s with opened := s.opened.erase fd, closed := fd :: s.closed }

/-- `*w->out = fd`, and `w->resume` is pushed. -/
def push (s : State θ ω κ) (w : ω) (fd : Nat) : State θ ω κ :=
  { s with
    out := Function.update s.out w fd
    live := Function.update s.live w false
    pushes := Function.update s.pushes w (s.pushes w + 1) }

/-- `TakeOrQueue` answers without a suspension. -/
def answer (s : State θ ω κ) (w : ω) (fd : Nat) : State θ ω κ :=
  { s with out := Function.update s.out w fd, live := Function.update s.live w false }

/-- `TakeOrQueue` queues the waiter. -/
def enqueue (s : State θ ω κ) (w : ω) (token : Option κ) : State θ ω κ :=
  { s with
    queue := s.queue ++ [w]
    token := Function.update s.token w token
    suspended := Function.update s.suspended w true
    pushes := Function.update s.pushes w 0 }

/-- The critical section of `OnComplete` for a socket that is kept. -/
def hand (s : State θ ω κ) (i fd : Nat) : State θ ω κ :=
  match skipCancelled (fun w => s.isCancelled (s.token w)) s.queue [] with
  | (none, l, skipped) =>
    { s with
      outstanding := s.outstanding - 1
      queue := l
      ready := fd :: s.ready
      handler := .kept i fd none skipped }
  | (some w, l, skipped) =>
    { s with outstanding := s.outstanding - 1, queue := l, handler := .kept i fd (some w) skipped }

/-- The thread's call has gone through the queue. -/
def sweep (within : κ → κ → Bool) (s : State θ ω κ) (t : θ) (token : Option κ) : State θ ω κ :=
  { s with
    queue := s.queue.filter fun w => !selects within token (s.token w)
    swept := fun x => s.swept x || (s.seen t x && selects within token (some x)) }

/-- The thread's call has returned. -/
def finish (within : κ → κ → Bool) (s : State θ ω κ) (t : θ) (token : Option κ) : State θ ω κ :=
  { s with finished := fun x => s.finished x || (s.seen t x && selects within token (some x)) }

end State

inductive Label (θ ω κ : Type) where
  | start
  | post (p : Party)
  -- `SubmitAccept` returns true
  | answer (p : Party)
  -- the kernel gets an entry that was left
  | consume
  | complete (i : Nat) (res : Int)
  | handler
  -- some other code opens or closes a descriptor
  | other
  | tryTake (t : θ)
  | check (t : θ) (w : ω) (token : Option κ)
  | take (t : θ)
  | cancel (k : κ)
  | cancelWaiters (t : θ) (token : Option κ)
  | stop (t : θ)
  -- the next step of the thread's call, and its return
  | go (t : θ)
  | drain (t : θ)
  | finish (t : θ)

inductive Step (within : κ → κ → Bool) : State θ ω κ → Label θ ω κ → State θ ω κ → Prop where
  -- Start
  | startPost {s : State θ ω κ} {i l} :
    s.todo = i :: l →
    s.post .starter = none →
    Step within s .start ({ s with todo := l }.setPost .starter (some (i, .make)))
  | started {s : State θ ω κ} :
    s.todo = [] →
    s.post .starter = none →
    Step within s .start { s with started := true }
  -- Impl::Post
  | make {s : State θ ω κ} {p i fd} :
    s.post p = some (i, .make) →
    fd ≠ 0 →
    fd ∉ s.opened →
    Step within s (.post p)
      ({ s with
        sock := Function.update s.sock i fd
        opened := fd :: s.opened
        made := fd :: s.made }.setPost p (some (i, .count)))
  | makeFails {s : State θ ω κ} {p i} :
    s.post p = some (i, .make) →
    Step within s (.post p) ({ s with sock := Function.update s.sock i 0 }.setPost p none)
  | count {s : State θ ω κ} {p i} :
    s.post p = some (i, .count) →
    Step within s (.post p) ({ s with outstanding := s.outstanding + 1 }.setPost p (some (i, .submit)))
  | submit {s : State θ ω κ} {p i} :
    s.post p = some (i, .submit) →
    s.scope = false →
    Step within s (.post p) ((s.dropMade i).setPost p (some (i, .publish)))
  | submitAnswered {s : State θ ω κ} {p i} :
    s.post p = some (i, .submit) →
    Step within s (.answer p) ((s.dropMade i).setPost p (some (i, .undo)))
  | publish {s : State θ ω κ} {p i} :
    s.post p = some (i, .publish) →
    Step within s (.post p) ({ s with posted := i :: s.posted }.setPost p none)
  | publishFull {s : State θ ω κ} {p i} :
    s.post p = some (i, .publish) →
    Step within s (.answer p) (s.setPost p (some (i, .undo)))
  | publishFails {s : State θ ω κ} {p i} :
    s.post p = some (i, .publish) →
    Step within s (.answer p)
      ({ s with stale := i :: s.stale, failed := s.failed + 1 }.setPost p (some (i, .undo)))
  | undo {s : State θ ω κ} {p i} :
    s.post p = some (i, .undo) →
    Step within s (.post p) ({ s with outstanding := s.outstanding - 1 }.setPost p (some (i, .close)))
  | close {s : State θ ω κ} {p i} :
    s.post p = some (i, .close) →
    Step within s (.post p)
      ({ s.close (s.sock i) with sock := Function.update s.sock i 0 }.setPost p none)
  -- a later enter of any operation
  | consume {s : State θ ω κ} {i} :
    i ∈ s.stale →
    Step within s .consume { s with stale := s.stale.erase i, posted := i :: s.posted }
  -- the completion of an accept, up to the lock of `OnComplete`
  | completeAccepted {s : State θ ω κ} {i : Nat} {res : Int} :
    i ∈ s.posted →
    s.handler = .idle →
    s.post .loop = none →
    0 ≤ res →
    res.toNat ∉ s.opened →
    Step within s (.complete i res)
      { s with
        posted := s.posted.erase i
        opened := res.toNat :: s.opened
        accepted := res.toNat :: s.accepted
        aux := Function.update s.aux i res.toNat
        handler := .entered i (s.sock i) (classify res).status
        sock := Function.update s.sock i 0 }
  | completeFailed {s : State θ ω κ} {i : Nat} {res : Int} :
    i ∈ s.posted →
    s.handler = .idle →
    s.post .loop = none →
    res < 0 →
    Step within s (.complete i res)
      { s with
        posted := s.posted.erase i
        handler := .entered i (s.sock i) (classify res).status
        sock := Function.update s.sock i 0 }
  -- Impl::OnComplete
  | keep {s : State θ ω κ} {i fd} :
    s.handler = .entered i fd .completed →
    s.stopping = false →
    Step within s .handler (s.hand i fd)
  | unkeep {s : State θ ω κ} {i fd status} :
    s.handler = .entered i fd status →
    status ≠ .completed ∨ s.stopping = true →
    Step within s .handler { s with outstanding := s.outstanding - 1, handler := .unkept fd }
  | closeUnkept {s : State θ ω κ} {fd} :
    s.handler = .unkept fd →
    fd ≠ 0 →
    Step within s .handler { s.close fd with handler := .idle }
  | noneUnkept {s : State θ ω κ} :
    s.handler = .unkept 0 →
    Step within s .handler { s with handler := .idle }
  | handTo {s : State θ ω κ} {i fd w skipped} :
    s.handler = .kept i fd (some w) skipped →
    Step within s .handler { s.push w fd with handler := .kept i fd none skipped, handed := fd :: s.handed }
  | wakeSkipped {s : State θ ω κ} {i fd w skipped} :
    s.handler = .kept i fd none (w :: skipped) →
    Step within s .handler { s.push w 0 with handler := .kept i fd none skipped }
  | repost {s : State θ ω κ} {i fd} :
    s.handler = .kept i fd none [] →
    Step within s .handler ({ s with handler := .idle }.setPost .loop (some (i, .make)))
  -- other code
  | otherOpens {s : State θ ω κ} {fd} :
    fd ∉ s.opened →
    Step within s .other { s with opened := fd :: s.opened }
  | otherCloses {s : State θ ω κ} {fd} :
    Step within s .other { s with opened := s.opened.erase fd }
  -- TryTake
  | tryTakeNone {s : State θ ω κ} {t} :
    s.started = true →
    s.pc t = .idle →
    s.ready = [] →
    Step within s (.tryTake t) s
  | tryTake {s : State θ ω κ} {t fd l} :
    s.started = true →
    s.pc t = .idle →
    s.ready = fd :: l →
    Step within s (.tryTake t) { s with ready := l, handed := fd :: s.handed }
  -- TakeOrQueue
  | checkCancelled {s : State θ ω κ} {t w token} :
    s.started = true →
    s.pc t = .idle →
    s.live w = false →
    s.isCancelled token = true →
    Step within s (.check t w token) { s.answer w 0 with suspended := Function.update s.suspended w false }
  | check {s : State θ ω κ} {t w token} :
    s.started = true →
    s.pc t = .idle →
    s.live w = false →
    s.isCancelled token = false →
    Step within s (.check t w token)
      ({ s with
        live := Function.update s.live w true
        suspended := Function.update s.suspended w false }.setPc t (.checked w token))
  | takeReady {s : State θ ω κ} {t w token fd l} :
    s.pc t = .checked w token →
    s.ready = fd :: l →
    Step within s (.take t) ({ s.answer w fd with ready := l, handed := fd :: s.handed }.setPc t .idle)
  | takeStopping {s : State θ ω κ} {t w token} :
    s.pc t = .checked w token →
    s.ready = [] →
    s.stopping = true →
    Step within s (.take t) ((s.answer w 0).setPc t .idle)
  | takeQueue {s : State θ ω κ} {t w token} :
    s.pc t = .checked w token →
    s.ready = [] →
    s.stopping = false →
    Step within s (.take t) ((s.enqueue w token).setPc t .idle)
  -- a scope is cancelled, and what is within it
  | cancel {s : State θ ω κ} {k} :
    Step within s (.cancel k) { s with cancelled := fun x => s.cancelled x || within x k }
  -- CancelWaiters
  | cancelWaiters {s : State θ ω κ} {t token} :
    s.started = true →
    s.pc t = .idle →
    Step within s (.cancelWaiters t token)
      ({ s with seen := Function.update s.seen t s.cancelled }.setPc t (.cancel false token))
  | sweep {s : State θ ω κ} {t stop token} :
    s.pc t = .cancel stop token →
    Step within s (.go t)
      ((s.sweep within t token).setPc t
        (.resume stop token (s.queue.filter fun w => selects within token (s.token w))))
  | resume {s : State θ ω κ} {t stop token w taken} :
    s.pc t = .resume stop token (w :: taken) →
    Step within s (.go t) ((s.push w 0).setPc t (.resume stop token taken))
  | finish {s : State θ ω κ} {t token} :
    s.pc t = .resume false token [] →
    Step within s (.finish t) ((s.finish within t token).setPc t .idle)
  -- Stop
  | stopAgain {s : State θ ω κ} {t} :
    s.started = true →
    s.pc t = .idle →
    s.stopping = true →
    Step within s (.stop t) { s with finished := fun x => s.finished x || s.cancelled x }
  | stop {s : State θ ω κ} {t} :
    s.started = true →
    s.pc t = .idle →
    s.stopping = false →
    Step within s (.stop t)
      ({ s with stopping := true, seen := Function.update s.seen t s.cancelled }.setPc t (.cancel true none))
  | stopReleased {s : State θ ω κ} {t} :
    s.pc t = .resume true none [] →
    Step within s (.go t) (s.setPc t .scope)
  | stopScope {s : State θ ω κ} {t} :
    s.pc t = .scope →
    Step within s (.go t) ({ s with scope := true }.setPc t .drain)
  | drained {s : State θ ω κ} {t} :
    s.pc t = .drain →
    s.outstanding % 2 ^ 64 = 0 →
    Step within s (.drain t) (s.setPc t (.leftovers true))
  | sleep {s : State θ ω κ} {t} :
    s.pc t = .drain →
    s.outstanding % 2 ^ 64 ≠ 0 →
    Step within s (.drain t) s
  | timeLimit {s : State θ ω κ} {t} :
    s.pc t = .drain →
    Step within s (.go t) (s.setPc t (.leftovers false))
  | leftovers {s : State θ ω κ} {t drained} :
    s.pc t = .leftovers drained →
    Step within s (.go t)
      ({ s with ready := [], leftovers := s.leftovers ++ s.ready.reverse }.setPc t (.closing drained))
  | closeLeftover {s : State θ ω κ} {t drained fd l} :
    s.pc t = .closing drained →
    s.leftovers = fd :: l →
    Step within s (.go t) { s.close fd with leftovers := l }
  | stopReturns {s : State θ ω κ} {t drained} :
    s.pc t = .closing drained →
    s.leftovers = [] →
    Step within s (.finish t) ((s.finish within t none).setPc t (.returned drained))

end JLib.IoAcceptor
