import JLib.LTS.Runs
import JLib.LTS.Scan
import Mathlib.Data.List.FinRange
import Mathlib.Logic.Function.Basic

/-!
# The quiescence test of Join

The loop of `TaskScheduler::Join` (`src/TaskScheduler.cpp`) that waits for the pool to go quiet before it stops the
workers, and what the workers do meanwhile (`Thread::Worker` in `src/Thread.cpp`): where a task can be between two
queues, and when the busy flag is set. There are `n` workers, and `e` deques past theirs. No thread outside the pool
submits or wakes anything in the meantime, and none helps.

A task is moved by one thread at a time; what a worker has taken out of a queue is in its hand. The flag of a worker
is set just while it executes a task or is switched to its fiber. Which queue a push chooses is left open, and so is
which workers are reserved. An inbox can look empty while a push to it is not linked yet.

`missed` and `missedBefore` are not in the code. They record that the pass under way, or the clean pass before it,
has missed a task: one that is at a place where Join sees none, or comes to a place that the pass is done with.
-/

namespace JLib.Quiesce
open LTS

inductive Queue (n e : Nat) where
  | laneInboxes (w : Fin n)
  | normalInboxes (w : Fin n)
  | resumedInboxes (w : Fin n)
  | deques (d : Fin (n + e))
  | laneIntake
  deriving DecidableEq

/-- What a worker has taken, and what it is at. -/
inductive Hand (τ : Type) where
  -- `task_to_run` is null; `batch` is what a drain has popped
  | search (batch : List τ)
  -- `task_to_run`, and what is being published before it runs
  | found (t : τ) (batch : List τ)
  -- with the tasks that its body helps with, the innermost first
  | run (t : τ) (helped : List τ)
  -- its fiber has switched back, `status` has not been read
  | back (t : τ)
  -- completes, or is discarded
  | finish (t : τ)
  -- `RedistributeToOverflow`
  | spread (t : τ)

def Hand.busy {τ : Type} : Hand τ → Bool
  | run _ _ => true
  | _ => false

def Hand.holds {τ : Type} : Hand τ → Bool
  | search [] => false
  | _ => true

inductive Place (n e : Nat) where
  | hand (w : Fin n)
  | queue (q : Queue n e)
  deriving DecidableEq

inductive Loop (n e : Nat) where
  | between
  | pass (done todo : List (Place n e))
  | quiesced
  | timedOut

structure Pool (n e : Nat) (τ : Type) where
  -- inboxes in the order they are popped, deques from the bottom
  queue : Queue n e → List τ
  hand : Fin n → Hand τ
  -- the inbox that the worker's push is not linked into yet
  pushing : Fin n → Option (Queue n e)
  suspended : List τ

structure State (n e : Nat) (τ : Type) extends Pool n e τ where
  loop : Loop n e
  cleanPasses : Nat
  missed : Bool
  missedBefore : Bool

variable {n e : Nat} {τ : Type}

/-- Join gets to its loop. -/
def Pool.observe (p : Pool n e τ) : State n e τ where
  toPool := p
  loop := .between
  cleanPasses := 0
  missed := false
  missedBefore := false

/-- The places in the order that a pass looks at them. The shared intake is none of them. -/
def order (n e : Nat) : List (Place n e) :=
  ((List.finRange n).flatMap fun w =>
    [.hand w, .queue (.laneInboxes w), .queue (.normalInboxes w), .queue (.resumedInboxes w)]) ++
  (List.finRange (n + e)).flatMap fun d =>
    .queue (.deques d) :: if h : d.val < n then [.queue (.laneInboxes ⟨d, h⟩)] else []

/-- The worker's own deque. -/
def own (e : Nat) (w : Fin n) : Queue n e := .deques (w.castAdd e)

def Pool.occupied (s : Pool n e τ) : Place n e → Bool
  | .hand w => (s.hand w).holds
  | .queue q => !(s.queue q).isEmpty

namespace State

/-- The places that the pass under way is done with, among them the one that it leaves out. -/
def seen (s : State n e τ) (p : Place n e) : Bool :=
  match s.loop with
  | .pass done _ => done.contains p || p == .queue .laneIntake
  | _ => false

def set (s : State n e τ) (q : Queue n e) (ts : List τ) : State n e τ :=
  { s with queue := Function.update s.queue q ts }

def goto (s : State n e τ) (w : Fin n) (h : Hand τ) : State n e τ :=
  { s with hand := Function.update s.hand w h }

def push (s : State n e τ) (w : Fin n) (q : Queue n e) (ts : List τ) : State n e τ :=
  match q with
  | .deques d => s.set (.deques d) (ts.reverse ++ s.queue (.deques d))
  | .laneIntake => s.set .laneIntake (s.queue .laneIntake ++ ts)
  | q => { s.set q (s.queue q ++ ts) with pushing := Function.update s.pushing w (some q) }

/-- A task gets to the place. -/
def note (s : State n e τ) (p : Place n e) : State n e τ := { s with missed := s.missed || s.seen p }

end State

inductive Label (n e : Nat) where
  | take (w : Fin n) (q : Queue n e)
  | put (w : Fin n) (q : Queue n e)
  | own (w : Fin n)
  | start
  | look
  | dirty
  | clean
  | report
  | timeOut

/-! ## The workers -/

/-- The queues that a worker searches, besides the deques it steals from. -/
inductive Searches (w : Fin n) : Queue n e → Prop where
  | intake : Searches w .laneIntake
  | lane : Searches w (.laneInboxes w)
  | normal : Searches w (.normalInboxes w)
  | resumed : Searches w (.resumedInboxes w)
  | deque : Searches w (own e w)

/-- Where code of the pool runs that can submit and wake: in a body, and at the end of a task. -/
inductive Submits : Hand τ → Prop where
  | body {t helped} : Submits (.run t helped)
  | finish {t} : Submits (.finish t)

/-- Where a fiber that has yielded or was signaled goes: `myResumed`, or the inbox of any worker if fibers migrate. -/
inductive Requeues (w : Fin n) : Queue n e → Prop where
  | resumed : Requeues w (.resumedInboxes w)
  | migrate {r} : Requeues w (.normalInboxes r)

inductive Act (w : Fin n) (s : State n e τ) : Label n e → State n e τ → Prop where
  | pop {q t ts} :
    Searches w q →
    s.hand w = .search [] →
    s.queue q = t :: ts →
    Act w s (.take w q) (((s.set q ts).goto w (.found t [])).note (.hand w))
  | steal {d t l} :
    s.hand w = .search [] →
    s.queue (.deques d) = l ++ [t] →
    Act w s (.take w (.deques d)) (((s.set (.deques d) l).goto w (.found t [])).note (.hand w))
  -- the inbox is drained into `batch`, which goes to the deque but for its last task
  | drain {batch t ts} :
    s.hand w = .search batch →
    s.queue (.normalInboxes w) = t :: ts →
    Act w s (.take w (.normalInboxes w))
      (((s.set (.normalInboxes w) ts).goto w (.search (batch ++ [t]))).note (.hand w))
  | keep {batch t} :
    s.hand w = .search (batch ++ [t]) →
    Act w s (.put w (own e w)) (((s.push w (own e w) batch).goto w (.found t [])).note (.queue (own e w)))
  | last {t} :
    s.hand w = .search [t] →
    Act w s (.own w) (s.goto w (.found t []))
  | publishPop {t batch u ts} :
    s.hand w = .found t batch →
    s.queue (.normalInboxes w) = u :: ts →
    Act w s (.take w (.normalInboxes w))
      (((s.set (.normalInboxes w) ts).goto w (.found t (batch ++ [u]))).note (.hand w))
  | publish {t batch} :
    s.hand w = .found t batch →
    Act w s (.put w (own e w)) (((s.push w (own e w) batch).goto w (.found t [])).note (.queue (own e w)))
  | discard {t} :
    s.hand w = .found t [] →
    Act w s (.own w) (s.goto w (.finish t))
  -- `AcquireFiber` has failed
  | noFiber {t r} :
    s.hand w = .found t [] →
    Act w s (.put w (.normalInboxes r))
      (((s.push w (.normalInboxes r) [t]).goto w (.search [])).note (.queue (.normalInboxes r)))
  -- `busy` is set
  | dispatch {t} :
    s.hand w = .found t [] →
    Act w s (.own w) (s.goto w (.run t []))
  | submit {q u} :
    Submits (s.hand w) →
    Act w s (.put w q) ((s.push w q [u]).note (.queue q))
  | wake {q l u r} :
    Submits (s.hand w) →
    s.suspended = l ++ u :: r →
    Act w s (.put w q) (({ s with suspended := l ++ r }.push w q [u]).note (.queue q))
  -- `TryTakeLaneTask`, and the drain of its own lane in `ParallelFor`
  | helpOwn {t helped q u ts} :
    q = .laneInboxes w ∨ q = own e w →
    s.hand w = .run t helped →
    s.queue q = u :: ts →
    Act w s (.take w q) (((s.set q ts).goto w (.run t (u :: helped))).note (.hand w))
  | helpSteal {t helped d u l} :
    s.hand w = .run t helped →
    s.queue (.deques d) = l ++ [u] →
    Act w s (.take w (.deques d)) (((s.set (.deques d) l).goto w (.run t (u :: helped))).note (.hand w))
  -- a Fiber task of the lane is not run by who helps
  | relocate {t helped u ts} :
    s.hand w = .run t helped →
    s.queue (.laneInboxes w) = u :: ts →
    Act w s (.put w (own e w)) (((s.set (.laneInboxes w) ts).push w (own e w) [u]).note (.queue (own e w)))
  | helped {t u helped} :
    s.hand w = .run t (u :: helped) →
    Act w s (.own w) (s.goto w (.run t helped))
  -- `Execute` has returned, and the wait group has been told: `busy` is cleared
  | executed {t} :
    s.hand w = .run t [] →
    Act w s (.own w) (s.goto w (.search []))
  -- the fiber switches back: `busy` is cleared
  | switch {t} :
    s.hand w = .run t [] →
    Act w s (.own w) (s.goto w (.back t))
  | dead {t} :
    s.hand w = .back t →
    Act w s (.own w) (s.goto w (.finish t))
  | requeue {t q} :
    Requeues w q →
    s.hand w = .back t →
    Act w s (.put w q) (((s.push w q [t]).goto w (.search [])).note (.queue q))
  | suspend {t} :
    s.hand w = .back t →
    Act w s (.own w) ({ s with suspended := t :: s.suspended }.goto w (.search []))
  | finished {t} :
    s.hand w = .finish t →
    Act w s (.own w) (s.goto w (.search []))
  | spread {t ts} :
    s.hand w = .search [] →
    s.queue (own e w) = t :: ts →
    Act w s (.take w (own e w)) (((s.set (own e w) ts).goto w (.spread t)).note (.hand w))
  | spreadTo {t r} :
    s.hand w = .spread t →
    Act w s (.put w (.normalInboxes r))
      (((s.push w (.normalInboxes r) [t]).goto w (.search [])).note (.queue (.normalInboxes r)))

/-! ## The loop of Join -/

/-- What Join takes for idle. -/
inductive Idle (s : Pool n e τ) : Place n e → Prop where
  | notBusy {w} :
    (s.hand w).busy = false →
    Idle s (.hand w)
  | empty {q} :
    s.queue q = [] →
    Idle s (.queue q)
  | unlinked {q w} :
    s.pushing w = some q →
    Idle s (.queue q)

inductive NotIdle (s : Pool n e τ) : Place n e → Prop where
  | busy {w} :
    (s.hand w).busy = true →
    NotIdle s (.hand w)
  | nonempty {q} :
    s.queue q ≠ [] →
    NotIdle s (.queue q)

inductive Step : State n e τ → Label n e → State n e τ → Prop where
  | act {s : State n e τ} {w l u} :
    s.pushing w = none →
    Act w s l u →
    Step s l u
  | link {s : State n e τ} {w q} :
    s.pushing w = some q →
    Step s (.own w) { s with pushing := Function.update s.pushing w none }
  | start {s : State n e τ} :
    s.loop = .between →
    Step s .start { s with loop := .pass [] (order n e), missed := s.occupied (.queue .laneIntake) }
  | look {s : State n e τ} {done p todo} :
    s.loop = .pass done (p :: todo) →
    Idle s.toPool p →
    Step s .look { s with loop := .pass (done ++ [p]) todo, missed := s.missed || s.occupied p }
  | dirty {s : State n e τ} {done p todo} :
    s.loop = .pass done (p :: todo) →
    NotIdle s.toPool p →
    Step s .dirty { s with loop := .between, cleanPasses := 0 }
  | clean {s : State n e τ} {done} :
    s.loop = .pass done [] →
    s.cleanPasses + 1 < 2 →
    Step s .clean { s with loop := .between, cleanPasses := s.cleanPasses + 1, missedBefore := s.missed }
  | report {s : State n e τ} {done} :
    s.loop = .pass done [] →
    s.cleanPasses + 1 ≥ 2 →
    Step s .report { s with loop := .quiesced, cleanPasses := s.cleanPasses + 1 }
  | timeOut {s : State n e τ} :
    s.loop = .between →
    Step s .timeOut { s with loop := .timedOut }

end JLib.Quiesce
