import JLib.Cancel.Token
import JLib.Io.Result
import JLib.LTS.Runs
import Mathlib.Algebra.Order.Ring.Int
import Mathlib.Logic.Function.Basic

/-!
# The reactor over a completion port

`IoReactor::Impl` of `src/win32/IoReactor.cpp`. `Submit` links a request before it makes the kernel call; the kernel
queues one packet to the port for an operation that it has taken; the completion threads of `Run` take the packets,
unlink the request, write the result and collect the task to be resumed in a batch, which `Flush` hands to the
scheduler. `Stop` posts a wake-up to each of them and joins them. One step is one critical section, one kernel call or
one access to a flag or to `total`.

The lists of the shards are one list here, since no step looks at two requests of it, and `total` does not wrap. The
kernel completes what it holds at any time and with any outcome, so `CancelIoEx` changes nothing that is modelled, and
`RequestCancel` with it. The hook of a request runs while its thread is at `hook`; what it submits it submits as a
caller. `lent`, `calls`, `answers`, `completed`, `dropped` and `spent` are read by no function of
the source.
-/

namespace JLib.CompletionPort
open LTS Io

def ERROR_HANDLE_EOF : Nat := 38

def ERROR_BROKEN_PIPE : Nat := 109

def ERROR_OPERATION_ABORTED : Nat := 995

def ERROR_SHUTDOWN_IN_PROGRESS : Nat := 1115

def Classify (ok : Bool) (err bytes : Nat) : IoResult :=
  if ok then ⟨.completed, bytes, 0⟩
  else if err = ERROR_OPERATION_ABORTED then ⟨.cancelled, 0, 0⟩
  else if err = ERROR_HANDLE_EOF ∨ err = ERROR_BROKEN_PIPE then ⟨.completed, 0, 0⟩
  else ⟨.failed, 0, err⟩

def kBatch : Nat := 32

/-- What a packet says of the operation of its request. -/
structure Packet (ρ : Type) where
  req : ρ
  ok : Bool
  err : Nat
  bytes : Nat
  deriving DecidableEq

/-- Where a thread is that calls the reactor. -/
inductive Pc (ρ τ : Type) where
  | idle
  -- `Submit`
  | token (r : ρ) (tok : CancelToken) (resume : Option τ)
  | stopping (r : ρ)
  | ensure (r : ρ)
  | link (r : ρ)
  | call (r : ρ)
  | rejected (r : ρ) (err : Nat)
  -- `Register`
  | register
  | ensureOnly
  -- `Stop`
  | swap
  | wakeups (ts : List Nat) (n : Nat)
  | join (ts : List Nat)
  | joined
  deriving DecidableEq

/-- Where a completion thread is in `Run`. -/
inductive Loop (ρ τ : Type) where
  | wait
  -- a wake-up: before the read of `stopping`, and before that of `total`
  | null
  | draining
  | packet (r : ρ) (res : IoResult)
  | hook (resume : Option τ)
  | check
  | exited
  deriving DecidableEq

structure Thread (ρ τ : Type) where
  loop : Loop ρ τ := .wait
  batchHi : List τ := []
  batchLo : List τ := []
  deriving DecidableEq

namespace Thread
variable {ρ τ : Type}

/-- What is in the batches, and the task that is to be collected. -/
def hand (h : Thread ρ τ) : List τ :=
  match h.loop with
  | .hook resume => h.batchHi ++ h.batchLo ++ resume.toList
  | _ => h.batchHi ++ h.batchLo

/-- The task goes into the batch of its lane. -/
def collect (h : Thread ρ τ) (isLowLatency : τ → Bool) : Option τ → Thread ρ τ
  | none => h
  | some x =>
    if isLowLatency x then { h with batchHi := h.batchHi ++ [x] } else { h with batchLo := h.batchLo ++ [x] }

def full (h : Thread ρ τ) : Bool := h.batchHi.length = kBatch || h.batchLo.length = kBatch

end Thread

structure State (θ ρ τ : Type) where
  linked : List ρ := []
  total : Int := 0
  stopping : Bool := false
  running : Bool := false
  workers : List Nat := []
  -- the completion threads there have been, and those that run
  started : Nat := 0
  thread : Nat → Thread ρ τ := fun _ => {}
  caller : θ → Pc ρ τ := fun _ => .idle
  resume : ρ → Option τ := fun _ => none
  out : ρ → Option IoResult := fun _ => none
  -- what the kernel holds, and the packets of the port; one without a request is a wake-up
  kernel : List ρ := []
  port : List (Option (Packet ρ)) := []
  -- `TaskScheduler::IsInitialized()`, and what was handed to the scheduler
  initialized : Bool := true
  pushed : List τ := []
  -- the request is in an operation
  lent : ρ → Bool := fun _ => false
  calls : ρ → Nat := fun _ => 0
  answers : ρ → Nat := fun _ => 0
  completed : List τ := []
  -- what was in the batches while the pool was not up
  dropped : List τ := []
  -- the wake-ups of `Stop` that were taken in vain
  spent : Nat := 0

/-- `IoCompletionThreads`, and the lanes of the tasks. -/
structure Setup (τ : Type) where
  n : Nat
  isLowLatency : τ → Bool

variable {θ ρ τ : Type} [DecidableEq θ] [DecidableEq ρ]

namespace State

def goto (s : State θ ρ τ) (t : θ) (pc : Pc ρ τ) : State θ ρ τ :=
  { s with caller := Function.update s.caller t pc }

def setThread (s : State θ ρ τ) (u : Nat) (h : Thread ρ τ) : State θ ρ τ :=
  { s with thread := Function.update s.thread u h }

def Link (s : State θ ρ τ) (r : ρ) : State θ ρ τ :=
  { s with linked := r :: s.linked, total := s.total + 1 }

def Unlink (s : State θ ρ τ) (r : ρ) : State θ ρ τ :=
  { s with linked := s.linked.erase r, total := s.total - 1 }

/-- The result is written, and the request is its owner's again. -/
def answer (s : State θ ρ τ) (r : ρ) (res : IoResult) : State θ ρ τ :=
  { s with
    out := Function.update s.out r (some res)
    lent := Function.update s.lent r false
    answers := Function.update s.answers r (s.answers r + 1) }

/-- `EnsureThreads`. -/
def EnsureThreads (w : Setup τ) (s : State θ ρ τ) : State θ ρ τ :=
  if s.running then s
  else
    { s with
      running := true
      workers := s.workers ++ List.range' s.started w.n
      started := s.started + w.n }

/-- `Flush` of the batches of `h`. -/
def Flush (s : State θ ρ τ) (u : Nat) (h : Thread ρ τ) : State θ ρ τ :=
  { s with
    pushed := if s.initialized then s.pushed ++ (h.batchHi ++ h.batchLo) else s.pushed
    dropped := if s.initialized then s.dropped else s.dropped ++ (h.batchHi ++ h.batchLo) }.setThread u
    { h with batchHi := [], batchLo := [] }

end State

inductive Label (θ ρ τ : Type) where
  | submit (t : θ) (r : ρ) (tok : CancelToken) (resume : Option τ)
  | register (t : θ)
  | caller (t : θ)
  | stop (t : θ)
  | start
  | kernel (p : Packet ρ)
  -- the thread takes something from the port, or goes on
  | dequeue (u : Nat)
  | thread (u : Nat)
  | exit (u : Nat)
  | outside

inductive Step (w : Setup τ) : State θ ρ τ → Label θ ρ τ → State θ ρ τ → Prop where
  -- `Submit`
  | submit {s : State θ ρ τ} {t r tok resume} :
    s.caller t = .idle →
    s.lent r = false →
    Step w s (.submit t r tok resume)
      ({ s with
        lent := Function.update s.lent r true
        calls := Function.update s.calls r (s.calls r + 1) }.goto t (.token r tok resume))
  | cancelled {s : State θ ρ τ} {t r tok resume slots} :
    s.caller t = .token r tok resume →
    tok.cancelled slots = true →
    Step w s (.caller t) ((s.answer r ⟨.cancelled, 0, 0⟩).goto t .idle)
  | fill {s : State θ ρ τ} {t r tok resume slots} :
    s.caller t = .token r tok resume →
    tok.cancelled slots = false →
    Step w s (.caller t) ({ s with resume := Function.update s.resume r resume }.goto t (.stopping r))
  | stopped {s : State θ ρ τ} {t r} :
    s.caller t = .stopping r →
    s.stopping = true →
    Step w s (.caller t) ((s.answer r ⟨.failed, 0, ERROR_SHUTDOWN_IN_PROGRESS⟩).goto t .idle)
  | running {s : State θ ρ τ} {t r} :
    s.caller t = .stopping r →
    s.stopping = false →
    Step w s (.caller t) (s.goto t (.ensure r))
  | ensure {s : State θ ρ τ} {t r} :
    s.caller t = .ensure r →
    Step w s (.caller t) ((s.EnsureThreads w).goto t (.link r))
  | link {s : State θ ρ τ} {t r} :
    s.caller t = .link r →
    Step w s (.caller t) ((s.Link r).goto t (.call r))
  -- the call succeeds at once or is pending: the kernel will queue a packet
  | accept {s : State θ ρ τ} {t r} :
    s.caller t = .call r →
    Step w s (.caller t) ({ s with kernel := r :: s.kernel }.goto t .idle)
  | reject {s : State θ ρ τ} {t r err} :
    s.caller t = .call r →
    Step w s (.caller t) (s.goto t (.rejected r err))
  | rejected {s : State θ ρ τ} {t r err} :
    s.caller t = .rejected r err →
    Step w s (.caller t) (((s.Unlink r).answer r ⟨.failed, 0, err⟩).goto t .idle)
  -- `Register`
  | register {s : State θ ρ τ} {t} :
    s.caller t = .idle →
    Step w s (.register t) (s.goto t .register)
  | registers {s : State θ ρ τ} {t} :
    s.caller t = .register →
    Step w s (.caller t) (s.goto t (if s.stopping then .idle else .ensureOnly))
  | ensureOnly {s : State θ ρ τ} {t} :
    s.caller t = .ensureOnly →
    Step w s (.caller t) ((s.EnsureThreads w).goto t .idle)
  -- `Stop`
  | stop {s : State θ ρ τ} {t} :
    s.caller t = .idle →
    s.stopping = false →
    Step w s (.stop t) ({ s with stopping := true }.goto t (if s.running then .swap else .joined))
  | swap {s : State θ ρ τ} {t} :
    s.caller t = .swap →
    Step w s (.caller t) ({ s with workers := [], spent := 0 }.goto t (.wakeups s.workers s.workers.length))
  | wakeup {s : State θ ρ τ} {t ts n} :
    s.caller t = .wakeups ts (n + 1) →
    Step w s (.caller t) ({ s with port := s.port ++ [none] }.goto t (.wakeups ts n))
  | wakeups {s : State θ ρ τ} {t ts} :
    s.caller t = .wakeups ts 0 →
    Step w s (.caller t) (s.goto t (.join ts))
  | join {s : State θ ρ τ} {t u ts} :
    s.caller t = .join (u :: ts) →
    (s.thread u).loop = .exited →
    Step w s (.caller t) (s.goto t (.join ts))
  | joins {s : State θ ρ τ} {t} :
    s.caller t = .join [] →
    Step w s (.caller t) (s.goto t .joined)
  | joined {s : State θ ρ τ} {t} :
    s.caller t = .joined →
    Step w s (.caller t) ({ s with running := false }.goto t .idle)
  | start {s : State θ ρ τ} :
    Step w s .start { s with stopping := false }
  -- the kernel completes an operation
  | complete {s : State θ ρ τ} {p} :
    p.req ∈ s.kernel →
    Step w s (.kernel p) { s with kernel := s.kernel.erase p.req, port := s.port ++ [some p] }
  -- `GetQueuedCompletionStatus`
  | packet {s : State θ ρ τ} {u p} :
    u < s.started →
    (s.thread u).loop = .wait →
    some p ∈ s.port →
    Step w s (.dequeue u)
      ({ s with port := s.port.erase (some p) }.setThread u
        { s.thread u with loop := .packet p.req (Classify p.ok p.err p.bytes) })
  | null {s : State θ ρ τ} {u} :
    u < s.started →
    (s.thread u).loop = .wait →
    none ∈ s.port →
    Step w s (.dequeue u) ({ s with port := s.port.erase none }.setThread u { s.thread u with loop := .null })
  -- it has polled, since there is a batch, and finds nothing
  | timeout {s : State θ ρ τ} {u} :
    u < s.started →
    (s.thread u).loop = .wait →
    (s.thread u).batchHi ++ (s.thread u).batchLo ≠ [] →
    Step w s (.thread u) (s.Flush u (s.thread u))
  | wakes {s : State θ ρ τ} {u} :
    (s.thread u).loop = .null →
    Step w s (.thread u)
      (s.setThread u { s.thread u with loop := if s.stopping then .draining else .wait })
  | stays {s : State θ ρ τ} {u} :
    (s.thread u).loop = .draining →
    s.total ≠ 0 →
    Step w s (.thread u) ({ s with spent := s.spent + 1 }.setThread u { s.thread u with loop := .wait })
  | exit {s : State θ ρ τ} {u} :
    (s.thread u).loop = .draining →
    s.total = 0 →
    Step w s (.exit u)
      ({ s with port := s.port ++ [none] }.setThread u { s.thread u with loop := .exited })
  -- the request is unlinked and answered under the lock
  | unlink {s : State θ ρ τ} {u r res} :
    (s.thread u).loop = .packet r res →
    Step w s (.thread u)
      (({ s with completed := s.completed ++ (s.resume r).toList }.Unlink r).answer r res |>.setThread u
        { s.thread u with loop := .hook (s.resume r) })
  | collect {s : State θ ρ τ} {u resume h} :
    (s.thread u).loop = .hook resume →
    h = { (s.thread u).collect w.isLowLatency resume with loop := .check } →
    Step w s (.thread u) (if resume.isSome && h.full then s.Flush u h else s.setThread u h)
  | check {s : State θ ρ τ} {u h} :
    (s.thread u).loop = .check →
    h = { s.thread u with loop := .wait } →
    Step w s (.thread u) (if s.stopping then s.Flush u h else s.setThread u h)
  | outside {s : State θ ρ τ} {up} :
    Step w s .outside { s with initialized := up }

end JLib.CompletionPort
