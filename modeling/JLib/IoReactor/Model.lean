import JLib.Io.Result
import JLib.LTS.Runs
import Mathlib.Data.List.Nodup
import Mathlib.Logic.Function.Basic

/-!
# The reactor

`IoReactor` of `src/posix/IoReactor.cpp`, over one ring that is up. `SubmitOp` links a request into its shard
and publishes it; the kernel posts one completion for each operation, in any order; the completion thread
reaps them in the order in which they were posted, unlinks the request, writes its result and collects its
task, and pushes the collected tasks when it flushes. A cancel and a wake complete with the sentinel in
place of a request.

Steps are the critical sections of the shard locks and of `submitMx`, the posts of the kernel, and what the
completion thread does with one completion. The reactor is started once and stopped, and the completion thread
is started with it: that a submitter which passed the checks before `Stop` starts one too (`EnsureThreads`) is
left out. Each operation that was taken completes once; what a failed enter leaves in the ring is the subject
of `Submission`.
-/

namespace JLib.IoReactor
open LTS Io

/-- What the ring is asked for: an operation, or a cancel or a wake that reports with the sentinel. -/
inductive Op (ρ : Type) where
  | request (r : ρ)
  | sentinel
  deriving DecidableEq

inductive Cqe (ρ : Type) where
  | request (r : ρ) (res : Int)
  | sentinel

def kShards : Nat := 16

/-- `kCqBatch` and `kBatch`. -/
def kBatch : Nat := 64

/-- The targets `RequestCancel` collects from one shard. -/
def kTargets : Nat := 64

inductive Kind where
  | generic
  | accept
  | connect
  | send
  | recv
  deriving DecidableEq

/-- What does not change: the shard of a request, its kind, and the lane of its task. -/
structure Setup (ρ : Type) where
  shardFor : ρ → Nat
  kind : ρ → Kind
  lowLatency : ρ → Bool

/-- Where a thread is that submits, cancels or stops. -/
inductive Pc (ρ : Type) where
  | idle
  -- in `SubmitOp`, past the checks
  | checked (r : ρ)
  | linked (r : ρ)
  -- in `RequestCancel`: the next shard, and the targets of the last that are still to be asked
  | sweep (stop : Bool) (p : ρ → Bool) (i : Nat) (targets : List ρ)
  -- in `Stop`, after the sweep
  | swept
  | joining
  | returned

/-- Where the completion thread is. -/
inductive Loop (ρ : Type) where
  | absent
  | poll
  | handle (todo : List (Cqe ρ))
  -- a short send is submitted again: before and after the checks of `SubmitOp`
  | retry (r : ρ) (todo : List (Cqe ρ))
  | relink (r : ρ) (todo : List (Cqe ρ))
  | exited

structure State (θ ρ : Type) where
  stopping : Bool := true
  running : Bool := false
  shard : Nat → List ρ := fun _ => []
  ops : List (Op ρ) := []
  cq : List (Cqe ρ) := []
  loop : Loop ρ := .absent
  batchHi : List ρ := []
  batchLo : List ρ := []
  pc : θ → Pc ρ := fun _ => .idle
  cancelled : ρ → Bool := fun _ => false
  -- bytes of a send that are still to go, and that went
  remaining : ρ → Nat := fun _ => 0
  xferred : ρ → Nat := fun _ => 0
  -- the socket of an accept
  aux : ρ → Nat := fun _ => 0
  out : ρ → Option IoResult := fun _ => none
  -- the request is in use, and how often its task was pushed since it was submitted
  live : ρ → Bool := fun _ => false
  pushes : ρ → Nat := fun _ => 0
  -- what was in flight when the thread called `Stop`
  called : θ → List ρ := fun _ => []

variable {θ ρ : Type} [DecidableEq θ] [DecidableEq ρ]

def Op.requests : List (Op ρ) → List ρ :=
  List.filterMap fun | .request r => some r | .sentinel => none

def Cqe.requests : List (Cqe ρ) → List ρ :=
  List.filterMap fun | .request r _ => some r | .sentinel => none

/-- The requests whose completions the thread has reaped and not dealt with. -/
def Loop.requests : Loop ρ → List ρ
  | .handle todo => Cqe.requests todo
  | .retry r todo => r :: Cqe.requests todo
  | .relink r todo => r :: Cqe.requests todo
  | _ => []

namespace State

def setPc (s : State θ ρ) (t : θ) (c : Pc ρ) : State θ ρ :=
  { s with pc := Function.update s.pc t c }

/-- The requests that were submitted and not delivered. -/
def inFlight (s : State θ ρ) : List ρ :=
  Op.requests s.ops ++ Cqe.requests s.cq ++ s.loop.requests

/-- `Link`. -/
def link (w : Setup ρ) (s : State θ ρ) (r : ρ) : State θ ρ :=
  { s with shard := Function.update s.shard (w.shardFor r) (r :: s.shard (w.shardFor r)) }

/-- `UnlinkLocked`. -/
def unlink (w : Setup ρ) (s : State θ ρ) (r : ρ) : State θ ρ :=
  { s with shard := Function.update s.shard (w.shardFor r) ((s.shard (w.shardFor r)).erase r) }

/-- A request is used anew, with a token that is cancelled or not. -/
def renew (s : State θ ρ) (r : ρ) (c : Bool) : State θ ρ :=
  { s with cancelled := Function.update s.cancelled r c }

def answer (s : State θ ρ) (r : ρ) (res : IoResult) : State θ ρ :=
  { s with out := Function.update s.out r (some res) }

/-- The completion thread's `flush`: the collected tasks are pushed. -/
def flush (s : State θ ρ) : State θ ρ :=
  { s with
    pushes := fun r => s.pushes r + (s.batchHi ++ s.batchLo).count r
    live := fun r => s.live r && !decide (r ∈ s.batchHi ++ s.batchLo)
    batchHi := []
    batchLo := [] }

/-- The task of a request is collected. -/
def collect (w : Setup ρ) (s : State θ ρ) (r : ρ) : State θ ρ :=
  if w.lowLatency r then { s with batchHi := s.batchHi ++ [r] } else { s with batchLo := s.batchLo ++ [r] }

def flushFull (s : State θ ρ) : State θ ρ :=
  if s.batchHi.length = kBatch ∨ s.batchLo.length = kBatch then s.flush else s

/-- A request is delivered: unlinked, its result written, its task collected. -/
def deliver (w : Setup ρ) (s : State θ ρ) (r : ρ) (res : IoResult) : State θ ρ :=
  (((s.unlink w r).answer r res).collect w r).flushFull

/-- What a completion reports: for a send the bytes of all its parts, and no bytes for an accept, whose
number is a descriptor. -/
def report (w : Setup ρ) (s : State θ ρ) (r : ρ) (res : Int) : IoResult :=
  if w.kind r = .send ∧ 0 ≤ res then { classify res with bytes := (classify res).bytes + s.xferred r }
  else if w.kind r = .accept ∧ 0 ≤ res then { classify res with bytes := 0 }
  else classify res

/-- The descriptor of an accept goes to `aux`. -/
def keepSocket (w : Setup ρ) (s : State θ ρ) (r : ρ) (res : Int) : State θ ρ :=
  if w.kind r = .accept ∧ 0 ≤ res then { s with aux := Function.update s.aux r res.toNat } else s

/-- A send that the socket took in part. -/
def Short (w : Setup ρ) (s : State θ ρ) (r : ρ) (res : Int) : Prop :=
  w.kind r = .send ∧ 0 < res ∧ res < s.remaining r

instance (w : Setup ρ) (s : State θ ρ) (r : ρ) (res : Int) : Decidable (s.Short w r res) :=
  inferInstanceAs (Decidable (_ ∧ _ ∧ _))

end State

inductive Label (θ ρ : Type) where
  | start
  | submit (t : θ) (r : ρ) (len : Nat)
  | link (t : θ)
  | publish (t : θ)
  | cancel (p : ρ → Bool)
  | request (t : θ) (p : ρ → Bool)
  | sweep (t : θ)
  | stop (t : θ)
  | post (x : Cqe ρ)
  | loop
  -- the wait of the completion thread ends with nothing to reap
  | interrupted

inductive Step (w : Setup ρ) : State θ ρ → Label θ ρ → State θ ρ → Prop where
  -- Start
  | start {s : State θ ρ} :
    s.loop = .absent →
    Step w s .start { s with stopping := false, running := true, loop := .poll }
  -- SubmitOp
  | submitCancelled {s : State θ ρ} {t r len} :
    s.pc t = .idle →
    s.live r = false →
    Step w s (.submit t r len) ((s.renew r true).answer r ⟨.cancelled, 0, 0⟩)
  | submitStopping {s : State θ ρ} {t r len} :
    s.pc t = .idle →
    s.live r = false →
    s.stopping = true →
    Step w s (.submit t r len) ((s.renew r false).answer r ⟨.failed, 0, eshutdown⟩)
  | submit {s : State θ ρ} {t r len} :
    s.pc t = .idle →
    s.live r = false →
    s.stopping = false →
    Step w s (.submit t r len)
      ({ s.renew r false with
        live := Function.update s.live r true
        pushes := Function.update s.pushes r 0
        out := Function.update s.out r none
        remaining := Function.update s.remaining r len
        xferred := Function.update s.xferred r 0 }.setPc t (.checked r))
  | link {s : State θ ρ} {t r} :
    s.pc t = .checked r →
    Step w s (.link t) ((s.link w r).setPc t (.linked r))
  | publish {s : State θ ρ} {t r} :
    s.pc t = .linked r →
    Step w s (.publish t) ({ s with ops := .request r :: s.ops }.setPc t .idle)
  | publishFull {s : State θ ρ} {t r e} :
    s.pc t = .linked r →
    Step w s (.publish t)
      ({ (s.unlink w r).answer r ⟨.failed, 0, e⟩ with live := Function.update s.live r false }.setPc t .idle)
  -- the token of some requests is cancelled
  | cancel {s : State θ ρ} {p} :
    Step w s (.cancel p) { s with cancelled := fun r => s.cancelled r || p r }
  -- RequestCancel
  | request {s : State θ ρ} {t p} :
    s.pc t = .idle →
    Step w s (.request t p) (s.setPc t (.sweep false p 0 []))
  | sweepShard {s : State θ ρ} {t stop p i} :
    s.pc t = .sweep stop p i [] →
    i < kShards →
    Step w s (.sweep t) (s.setPc t (.sweep stop p (i + 1) (((s.shard i).filter p).take kTargets)))
  | sweepAsk {s : State θ ρ} {t stop p i r rs} :
    s.pc t = .sweep stop p i (r :: rs) →
    Step w s (.sweep t) ({ s with ops := .sentinel :: s.ops }.setPc t (.sweep stop p i rs))
  | sweepBreak {s : State θ ρ} {t stop p i r rs} :
    s.pc t = .sweep stop p i (r :: rs) →
    Step w s (.sweep t) (s.setPc t (.sweep stop p i []))
  | sweepEnd {s : State θ ρ} {t p} :
    s.pc t = .sweep false p kShards [] →
    Step w s (.sweep t) (s.setPc t .idle)
  -- Stop
  | stopAgain {s : State θ ρ} {t} :
    s.pc t = .idle →
    s.stopping = true →
    Step w s (.stop t) ({ s with called := Function.update s.called t s.inFlight }.setPc t .returned)
  | stop {s : State θ ρ} {t} :
    s.pc t = .idle →
    s.stopping = false →
    Step w s (.stop t)
      ({ s with
        stopping := true
        called := Function.update s.called t s.inFlight }.setPc t (.sweep true (fun _ => true) 0 []))
  | stopSwept {s : State θ ρ} {t p} :
    s.pc t = .sweep true p kShards [] →
    Step w s (.sweep t) (s.setPc t .swept)
  | wake {s : State θ ρ} {t} :
    s.pc t = .swept →
    Step w s (.sweep t) ({ s with running := false, ops := .sentinel :: s.ops }.setPc t .joining)
  | wakeFull {s : State θ ρ} {t} :
    s.pc t = .swept →
    Step w s (.sweep t) ({ s with running := false }.setPc t .joining)
  | join {s : State θ ρ} {t} :
    s.pc t = .joining →
    s.loop = .exited →
    Step w s (.sweep t) (s.setPc t .returned)
  -- the kernel
  | post {s : State θ ρ} {r res} :
    .request r ∈ s.ops →
    Step w s (.post (.request r res))
      { s with ops := s.ops.erase (.request r), cq := s.cq ++ [.request r res] }
  | postSentinel {s : State θ ρ} :
    .sentinel ∈ s.ops →
    Step w s (.post .sentinel) { s with ops := s.ops.erase .sentinel, cq := s.cq ++ [.sentinel] }
  -- CompletionLoopEntry
  | reap {s : State θ ρ} :
    s.loop = .poll →
    s.cq ≠ [] →
    Step w s .loop { s with loop := .handle (s.cq.take kBatch), cq := s.cq.drop kBatch }
  | emptyFlush {s : State θ ρ} :
    s.loop = .poll →
    s.cq = [] →
    s.batchHi ++ s.batchLo ≠ [] →
    Step w s .loop s.flush
  | emptyExit {s : State θ ρ} :
    s.loop = .poll →
    s.cq = [] →
    s.batchHi ++ s.batchLo = [] →
    s.stopping = true →
    Step w s .interrupted { s with loop := .exited }
  | sentinel {s : State θ ρ} {todo} :
    s.loop = .handle (.sentinel :: todo) →
    s.stopping = false →
    Step w s .loop { s.flush with loop := .handle todo }
  | sentinelStop {s : State θ ρ} {todo} :
    s.loop = .handle (.sentinel :: todo) →
    s.stopping = true →
    Step w s .loop { s.flush with loop := .exited, ops := .sentinel :: s.ops }
  | sentinelStopFull {s : State θ ρ} {todo} :
    s.loop = .handle (.sentinel :: todo) →
    s.stopping = true →
    Step w s .loop { s.flush with loop := .exited }
  | complete {s : State θ ρ} {r res todo} :
    s.loop = .handle (.request r res :: todo) →
    ¬s.Short w r res →
    Step w s .loop { (s.keepSocket w r res).deliver w r (s.report w r res) with loop := .handle todo }
  | short {s : State θ ρ} {r res todo} :
    s.loop = .handle (.request r res :: todo) →
    s.Short w r res →
    Step w s .loop
      { s.unlink w r with
        loop := .retry r todo
        xferred := Function.update s.xferred r (s.xferred r + res.toNat)
        remaining := Function.update s.remaining r (s.remaining r - res.toNat) }
  | retryCancelled {s : State θ ρ} {r todo} :
    s.loop = .retry r todo →
    s.cancelled r = true →
    Step w s .loop { s.deliver w r ⟨.cancelled, 0, 0⟩ with loop := .handle todo }
  | retryStopping {s : State θ ρ} {r todo} :
    s.loop = .retry r todo →
    s.cancelled r = false →
    s.stopping = true →
    Step w s .loop { s.deliver w r ⟨.failed, 0, eshutdown⟩ with loop := .handle todo }
  | retry {s : State θ ρ} {r todo} :
    s.loop = .retry r todo →
    s.cancelled r = false →
    s.stopping = false →
    Step w s .loop { s with loop := .relink r todo }
  | relink {s : State θ ρ} {r todo} :
    s.loop = .relink r todo →
    Step w s .loop { s.link w r with loop := .handle todo, ops := .request r :: s.ops }
  | relinkFull {s : State θ ρ} {r todo e} :
    s.loop = .relink r todo →
    Step w s .loop { s.deliver w r ⟨.failed, 0, e⟩ with loop := .handle todo }
  | batchEnd {s : State θ ρ} :
    s.loop = .handle [] →
    Step w s .loop { (if s.stopping then s.flush else s) with loop := .poll }

end JLib.IoReactor
