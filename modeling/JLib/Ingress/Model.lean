import JLib.LTS.Runs
import Mathlib.Algebra.BigOperators.Fin
import Mathlib.Algebra.Order.Ring.Int
import Mathlib.Data.Fintype.Prod

/-!
# The inboxes and the ingress depth

Every place of `src/TaskScheduler.cpp` and `src/Thread.cpp` that puts a task into an inbox or takes one out, on
a pool of `n` workers: what it does to the inbox and, in a step of its own, what it does to `g_inboxDepth`.
Deques, the shared lane intake and the per-worker depths are left out, and so is how a worker is chosen. The
limit is set before `Init` and stays.

A task is the address it stands at. A pop can fail on an inbox that is not empty, so that a loop of pops may
stop at any point.
-/

namespace JLib.Ingress
open LTS

/-- `normalInboxes`, `laneInboxes` and `resumedInboxes`. -/
inductive Family where
  | normal
  | lane
  | resumed
  deriving DecidableEq

instance : Fintype Family where
  elems := {.normal, .lane, .resumed}
  complete f := by cases f <;> decide

abbrev Box (n : Nat) := Family × Fin n

abbrev Task := BitVec 64

/-- What a call does, one after the other. -/
inductive Op (n : Nat) where
  | push (b : Box n) (tasks : List Task)
  | NoteInboxPush (k : Nat)
  | NoteInboxDrain (k : Nat)
  deriving DecidableEq

/-- The family of a push on a lane: with `HiPriLaneActive()` false everything goes to the normal inboxes. -/
def useHi (lowLatency hiPriLaneActive : Bool) : Family :=
  if lowLatency && hiPriLaneActive then .lane else .normal

/-- The calls and the places within `Thread::Worker` that put tasks into an inbox. -/
inductive Site (n : Nat) where
  | PushTarget (idx : Fin n) (lowLatency hiPriLaneActive : Bool) (task : Task)
  | submitRun (chosen : Fin n) (lowLatency hiPriLaneActive : Bool) (tasks : List Task)
  | Requeue (chosen : Fin n) (lowLatency hiPriLaneActive : Bool) (task : Task)
  | RequeuePinned (home : Fin n) (task : Task)
  | RedistributeToOverflow (target : Fin n) (t : Task)
  -- the copy of it in the worker loop, when the target is no worker
  | redistributeElsewhere (r : Fin n) (t : Task)
  -- `AcquireFiber` gave none
  | noFiber (r : Fin n) (task_to_run : Task)
  | wantsYield (me r : Fin n) (fibersMigrate : Bool) (task_to_run : Task)
  | suspendSignaled (me r : Fin n) (fibersMigrate : Bool) (task_to_run : Task)
  | PushResume (worker : Fin n) (task : Task)

namespace Site
variable {n : Nat}

def program : Site n → List (Op n)
  | PushTarget idx low act task => [.push (useHi low act, idx) [task], .NoteInboxPush 1]
  | submitRun chosen low act tasks => [.push (useHi low act, chosen) tasks]
  | Requeue chosen low act task => [.push (useHi low act, chosen) [task], .NoteInboxPush 1]
  | RequeuePinned home task => [.push (.resumed, home) [task], .NoteInboxPush 1]
  | RedistributeToOverflow target t => [.push (.normal, target) [t], .NoteInboxPush 1]
  | redistributeElsewhere r t => [.push (.normal, r) [t]]
  | noFiber r task => [.push (.normal, r) [task]]
  | wantsYield me r migrate task => [.push (if migrate then (.normal, r) else (.resumed, me)) [task]]
  | suspendSignaled me r migrate task =>
    [.push (if migrate then (.normal, r) else (.resumed, me)) [task]]
  | PushResume worker task => [.push (.resumed, worker) [task]]

/-- What is within the worker loop is done by a worker, which `me` is. -/
def runsOn : Site n → Option (Fin n) → Prop
  | wantsYield me .., w => w = some me
  | suspendSignaled me .., w => w = some me
  | redistributeElsewhere .., w => w.isSome
  | noFiber .., w => w.isSome
  | _, _ => True

end Site

/-- The places where a worker takes tasks out of an inbox of its own. -/
inductive Drain where
  | DrainOwnInboxesToDeques
  -- the two drains of the worker loop
  | InboxDrain
  -- from the inbox to the deque before a task is run
  | publish
  | yieldedLastPass
  | myLane
  | TryTakeLaneTask
  | myResumed
  deriving DecidableEq

namespace Drain

def family : Drain → Family
  | DrainOwnInboxesToDeques | InboxDrain | publish | yieldedLastPass => .normal
  | myLane | TryTakeLaneTask => .lane
  | myResumed => .resumed

/-- How many it takes at most. -/
def batch : Drain → Nat
  | DrainOwnInboxesToDeques | InboxDrain => 64
  | publish => 32
  | yieldedLastPass | myLane | TryTakeLaneTask | myResumed => 1

/-- What follows the pops. -/
def after {n : Nat} (count : Nat) : Drain → List (Op n)
  | DrainOwnInboxesToDeques | InboxDrain => [.NoteInboxDrain count]
  | publish | yieldedLastPass | myLane | TryTakeLaneTask | myResumed => []

end Drain

/-- Where a thread is. -/
inductive Pc (n : Nat) where
  | idle
  | doing (ops : List (Op n))
  | popping (d : Drain) (i : Fin n) (count : Nat)
  -- `SetHotWorkersEffective` empties the inbox of `i` into that of `firstCompute`
  | shed (i firstCompute : Fin n) (t : Option Task)
  deriving DecidableEq

structure State (n : Nat) (θ : Type) where
  submitLimit : BitVec 64
  inboxDepth : BitVec 64 := 0
  inbox : Box n → List Task := fun _ => []
  pc : θ → Pc n := fun _ => .idle

variable {n : Nat} {θ : Type} [DecidableEq θ]

namespace State

/-- The tasks in the inboxes. -/
def queued (s : State n θ) : Nat := ∑ b, (s.inbox b).length

/-- No push and no drain is in progress. -/
def Quiet (s : State n θ) : Prop := ∀ p, s.pc p = .idle

def setPc (s : State n θ) (p : θ) (c : Pc n) : State n θ :=
  { s with pc := Function.update s.pc p c }

def setInbox (s : State n θ) (b : Box n) (l : List Task) : State n θ :=
  { s with inbox := Function.update s.inbox b l }

def NoteInboxPush (s : State n θ) (k : Nat) : State n θ :=
  if s.submitLimit = 0 then s else { s with inboxDepth := s.inboxDepth + BitVec.ofNat 64 k }

def NoteInboxDrain (s : State n θ) (k : Nat) : State n θ :=
  if s.submitLimit = 0 ∨ k = 0 then s else { s with inboxDepth := s.inboxDepth - BitVec.ofNat 64 k }

/-- Whether the caller is held, that is made to help or to yield: `worker` is `Thread::GetCurrent`. -/
def ApplyIngressBackpressure (s : State n θ) (worker : Option (Fin n)) : Bool :=
  if s.submitLimit = 0 then false
  else if worker.isSome then false
  else !decide (s.inboxDepth ≤ s.submitLimit)

/-- The tasks may be linked: a task has one `next`. -/
def Loose (s : State n θ) (tasks : List Task) : Prop :=
  tasks.Nodup ∧ ∀ t ∈ tasks, t ≠ 0 ∧ ∀ b, t ∉ s.inbox b

instance [Fintype θ] (s : State n θ) : Decidable s.Quiet :=
  inferInstanceAs (Decidable (∀ p, s.pc p = .idle))

end State

inductive Label (n : Nat) (θ : Type) where
  | ApplyIngressBackpressure (p : θ) (held : Bool)
  | call (p : θ) (site : Site n)
  | op (p : θ)
  | drain (p : θ) (d : Drain)
  | pop (p : θ)
  | stop (p : θ)
  | promote (p : θ) (i firstCompute : Fin n)
  | shed (p : θ)

/-- `worker p` is the worker that the thread `p` runs, if it does. -/
inductive Step (worker : θ → Option (Fin n)) : State n θ → Label n θ → State n θ → Prop where
  | ApplyIngressBackpressure {s : State n θ} {p} :
    s.pc p = .idle →
    Step worker s (.ApplyIngressBackpressure p (s.ApplyIngressBackpressure (worker p))) s
  | call {s : State n θ} {p site} :
    s.pc p = .idle →
    site.runsOn (worker p) →
    Step worker s (.call p site) (s.setPc p (.doing site.program))
  | push {s : State n θ} {p b tasks ops} :
    s.pc p = .doing (.push b tasks :: ops) →
    s.Loose tasks →
    Step worker s (.op p) ((s.setInbox b (s.inbox b ++ tasks)).setPc p (.doing ops))
  | NoteInboxPush {s : State n θ} {p k ops} :
    s.pc p = .doing (.NoteInboxPush k :: ops) →
    Step worker s (.op p) ((s.NoteInboxPush k).setPc p (.doing ops))
  | NoteInboxDrain {s : State n θ} {p k ops} :
    s.pc p = .doing (.NoteInboxDrain k :: ops) →
    Step worker s (.op p) ((s.NoteInboxDrain k).setPc p (.doing ops))
  | done {s : State n θ} {p} :
    s.pc p = .doing [] →
    Step worker s (.op p) (s.setPc p .idle)
  -- the drains
  | drain {s : State n θ} {p d i} :
    s.pc p = .idle →
    worker p = some i →
    Step worker s (.drain p d) (s.setPc p (.popping d i 0))
  | pop {s : State n θ} {p d i count t rest} :
    s.pc p = .popping d i count →
    count < d.batch →
    s.inbox (d.family, i) = t :: rest →
    Step worker s (.pop p) ((s.setInbox (d.family, i) rest).setPc p (.popping d i (count + 1)))
  | stop {s : State n θ} {p d i count} :
    s.pc p = .popping d i count →
    Step worker s (.stop p) (s.setPc p (.doing (d.after count)))
  -- the promotion
  | promote {s : State n θ} {p i firstCompute} :
    s.pc p = .idle →
    Step worker s (.promote p i firstCompute) (s.setPc p (.shed i firstCompute none))
  | shedPop {s : State n θ} {p i e t rest} :
    s.pc p = .shed i e none →
    s.inbox (.normal, i) = t :: rest →
    Step worker s (.shed p) ((s.setInbox (.normal, i) rest).setPc p (.shed i e (some t)))
  | shedPush {s : State n θ} {p i e t} :
    s.pc p = .shed i e (some t) →
    s.Loose [t] →
    Step worker s (.shed p)
      ((s.setInbox (.normal, e) (s.inbox (.normal, e) ++ [t])).setPc p (.shed i e none))
  | shedEnd {s : State n θ} {p i e} :
    s.pc p = .shed i e none →
    Step worker s (.shed p) (s.setPc p .idle)

end JLib.Ingress
