import JLib.LTS.Runs
import Mathlib.Logic.Function.Basic

/-!
# The shared lanes

The two deques past the workers' of a pool, `deques[nonWorkerLane]` and `deques[mainPubLane]`, and who may push to
their bottom: `NonWorkerLaneClaim` around `ParallelFor`, and the claim of `PushMainPublish` and `PushLazy`
(`src/TaskScheduler.cpp`). The claims are members of the pool; which thread has won one is a `thread_local`. Pools
are numbered in the order of `Init`. Workers have a deque of their own and ask for neither lane.

A body of a `ParallelFor`, and a task that is run while one waits, may call again, so that a thread has a stack of
calls.
-/

namespace JLib.Lanes
open LTS

inductive Lane where
  | nonWorkerLane
  | mainPubLane
  deriving DecidableEq

structure Pool where
  poolActive : Bool := true
  nonWorkerLaneClaimed : Bool := false
  mainPubClaimed : Bool := false

/-- A call on the pool `k` of a thread that is no worker. -/
inductive Call where
  -- `ParallelFor`: before the exchange of the claim, after one that won, and within the range
  | claim (k : Nat)
  | claimed (k : Nat)
  | body (k : Nat) (held : Bool)
  -- the destructor of the claim: before the flag is cleared and after
  | disown (k : Nat)
  | release (k : Nat)
  -- `PushMainPublish` and `PushLazy`: before the flag is read, after an exchange that won, and before the push
  | test (k : Nat)
  | won (k : Nat)
  | push (k : Nat)
  deriving DecidableEq

def Call.pool : Call → Nat
  | claim k | claimed k | body k _ | disown k | release k | test k | won k | push k => k

/-- A thread: its flags, and its calls from the innermost on. -/
structure Local where
  t_ownsNonWorkerLane : Bool := false
  t_ownsMainPubLane : Bool := false
  calls : List Call := []

/-- User code runs on the thread: it is in no call, or in the body of a range. -/
def Local.Free (l : Local) : Prop := ∀ c rest, l.calls = c :: rest → ∃ k held, c = .body k held

structure State (θ : Type) where
  instance_ : Option Nat := none
  inits : Nat := 0
  pools : Nat → Pool := fun _ => {}
  mainPubOn : Bool := false
  thread : θ → Local := fun _ => {}

variable {θ : Type} [DecidableEq θ]

namespace State

def setPool (s : State θ) (k : Nat) (pl : Pool) : State θ :=
  { s with pools := Function.update s.pools k pl }

def setThread (s : State θ) (t : θ) (l : Local) : State θ :=
  { s with thread := Function.update s.thread t l }

/-- The thread goes on to other calls. -/
def setCalls (s : State θ) (t : θ) (cs : List Call) : State θ :=
  s.setThread t { s.thread t with calls := cs }

/-- On the pool `k` the thread may push to the bottom of the lane or pop from it: the code lets it do so without
asking again, or it is about to. -/
def Entitled (s : State θ) (k : Nat) : Lane → θ → Prop
  | .nonWorkerLane, t =>
    s.instance_ = some k ∧ ((s.thread t).t_ownsNonWorkerLane ∨ .body k true ∈ (s.thread t).calls)
  | .mainPubLane, t =>
    s.instance_ = some k ∧
      ((s.thread t).t_ownsMainPubLane ∨ .won k ∈ (s.thread t).calls ∨ .push k ∈ (s.thread t).calls)

end State

inductive Label (θ : Type) where
  | Init
  | Join
  | destroy
  | SetMainPublishDeque (on : Bool)
  | exit (t : θ)
  | ParallelFor (t : θ)
  | range (t : θ)
  | publish (t : θ)
  | go (t : θ)

inductive Step : State θ → Label θ → State θ → Prop where
  | Init {s : State θ} :
    s.instance_ = none →
    Step s .Init ({ s with instance_ := some s.inits, inits := s.inits + 1 }.setPool s.inits {})
  | Join {s : State θ} {k} :
    s.instance_ = some k →
    Step s .Join (s.setPool k { s.pools k with poolActive := false })
  -- `Join`, and `instance` is cleared
  | destroy {s : State θ} {k} :
    s.instance_ = some k →
    Step s .destroy ({ s with instance_ := none }.setPool k { s.pools k with poolActive := false })
  | SetMainPublishDeque {s : State θ} {on} :
    Step s (.SetMainPublishDeque on) { s with mainPubOn := on }
  -- and another thread may start in its place
  | exit {s : State θ} {t} :
    (s.thread t).calls = [] →
    Step s (.exit t) (s.setThread t {})
  -- `ParallelFor`
  | ParallelFor {s : State θ} {t k} :
    s.instance_ = some k →
    (s.thread t).Free →
    Step s (.ParallelFor t) (s.setCalls t (.claim k :: (s.thread t).calls))
  | win {s : State θ} {t k rest} :
    (s.thread t).calls = .claim k :: rest →
    (s.pools k).nonWorkerLaneClaimed = false →
    Step s (.range t)
      ((s.setPool k { s.pools k with nonWorkerLaneClaimed := true }).setCalls t (.claimed k :: rest))
  | lose {s : State θ} {t k rest} :
    (s.thread t).calls = .claim k :: rest →
    (s.pools k).nonWorkerLaneClaimed = true →
    Step s (.range t) (s.setCalls t (.body k false :: rest))
  | own {s : State θ} {t k rest} :
    (s.thread t).calls = .claimed k :: rest →
    Step s (.range t)
      (s.setThread t { s.thread t with t_ownsNonWorkerLane := true, calls := .body k true :: rest })
  | finish {s : State θ} {t k held rest} :
    (s.thread t).calls = .body k held :: rest →
    Step s (.range t) (s.setCalls t (if held then .disown k :: rest else rest))
  | disown {s : State θ} {t k rest} :
    (s.thread t).calls = .disown k :: rest →
    Step s (.range t)
      (s.setThread t { s.thread t with t_ownsNonWorkerLane := false, calls := .release k :: rest })
  | release {s : State θ} {t k rest} :
    (s.thread t).calls = .release k :: rest →
    Step s (.range t)
      ((s.setPool k { s.pools k with nonWorkerLaneClaimed := false }).setCalls t rest)
  -- `PushMainPublish` and `PushLazy`, when all that they ask of the tasks is met
  | publish {s : State θ} {t k} :
    s.instance_ = some k →
    (s.thread t).Free →
    s.mainPubOn = true →
    (s.pools k).poolActive = true →
    Step s (.publish t) (s.setCalls t (.test k :: (s.thread t).calls))
  | owns {s : State θ} {t k rest} :
    (s.thread t).calls = .test k :: rest →
    (s.thread t).t_ownsMainPubLane = true →
    Step s (.go t) (s.setCalls t (.push k :: rest))
  | taken {s : State θ} {t k rest} :
    (s.thread t).calls = .test k :: rest →
    (s.thread t).t_ownsMainPubLane = false →
    (s.pools k).mainPubClaimed = true →
    Step s (.go t) (s.setCalls t rest)
  | exchange {s : State θ} {t k rest} :
    (s.thread t).calls = .test k :: rest →
    (s.thread t).t_ownsMainPubLane = false →
    (s.pools k).mainPubClaimed = false →
    Step s (.go t)
      ((s.setPool k { s.pools k with mainPubClaimed := true }).setCalls t (.won k :: rest))
  | keep {s : State θ} {t k rest} :
    (s.thread t).calls = .won k :: rest →
    Step s (.go t)
      (s.setThread t { s.thread t with t_ownsMainPubLane := true, calls := .push k :: rest })
  | push {s : State θ} {t k rest} :
    (s.thread t).calls = .push k :: rest →
    Step s (.go t) (s.setCalls t rest)

end JLib.Lanes
