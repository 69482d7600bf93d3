import JLib.LTS.Runs
import Mathlib.Algebra.Order.Ring.Int
import Mathlib.Logic.Function.Basic

/-!
# A submitted task graph and the epochs

`TaskDAG::OnTaskFinished`, `Fire` and `SignalExternal` of `src/TaskDAG.cpp` on a graph that was
submitted, together with `EpochManager` of `include/Epochs.h`. A thread runs these functions as a stack
of activations, since `Fire` completes a gate, a cancelled node and an external node that was signalled
early on the spot, inside the walk that fires it. Every access to a shared variable is a step; a walk
announces itself in the thread's epoch slot when its guard is constructed and withdraws when it ends.

A pushed task that is cancelled before it runs is discarded. `DiscardIfCancelled` calls `OnTaskDiscarded`,
which completes the node as cancelled. The worker of the pool has a copy of its own, which compares the
task's function with `Thread::OnTaskFinishedWrapper` and so does not know the node; `discarded` records it.

Several threads may have one slot: a thread the pool does not know uses that of thread 0.
-/

namespace JLib.TaskDAG
open LTS

inductive Kind where
  | task
  | gate
  | external
  deriving DecidableEq

inductive LogicType where
  | AND
  | OR
  deriving DecidableEq

inductive Outcome where
  | Completed
  | Cancelled
  deriving DecidableEq

/-- A graph that `HasCycle` passes. `dependents n` are the edges of `n` in the order of the walk. -/
structure Graph (ν : Type) where
  nodes : List ν
  dependents : ν → List ν
  kind : ν → Kind
  gateType : ν → LogicType
  acyclic : ∃ rank : ν → Nat, ∀ m, ∀ n ∈ dependents m, rank m < rank n

/-- An activation on a thread's stack. `walk` carries the edges that are still to be read and the epoch
in which the walk began. -/
inductive Frame (ν : Type) where
  -- `Fire`: before the exchange of `submitted`, and after it
  | fire (n : ν) (outcome : Outcome)
  | decide (n : ν) (outcome : Outcome)
  | arm (n : ν)
  -- `OnTaskFinished`: the two halves of the guard's constructor, the walk, and the retirement
  | enter (n : ν) (outcome : Outcome)
  | announce (n : ν) (outcome : Outcome) (epoch : Nat)
  | walk (n : ν) (outcome : Outcome) (rest : List ν) (began : Nat)
  | retire (n : ν)
  deriving DecidableEq

structure State (ν θ κ : Type) where
  dependenciesLeft : ν → Int
  submitted : ν → Bool := fun _ => false
  armed : ν → Bool := fun _ => false
  signalled : ν → Bool := fun _ => false
  -- the node's task is with the scheduler
  dispatched : ν → Bool := fun _ => false
  -- history: a worker of the pool has discarded the node's task
  discarded : ν → Bool := fun _ => false
  -- the node's walk has ended
  walked : ν → Bool := fun _ => false
  freed : ν → Bool := fun _ => false
  cancelled : Bool := false
  -- roots that `Submit` has still to fire
  roots : List ν
  globalEpoch : Nat := 0
  -- `none` is `SIZE_MAX`
  slot : κ → Option Nat := fun _ => none
  stack : θ → List (Frame ν) := fun _ => []
  -- what each thread has retired; `none` is the store for the bags of threads that ended
  bag : Option θ → List (ν × Nat) := fun _ => []
  -- a `MinActiveEpoch` in progress: the minimum so far and the slots to come
  scan : θ → Option (Nat × List κ) := fun _ => none

/-- The graph, the slot of each thread, and the slots the manager scans. -/
structure Setup (ν θ κ : Type) where
  graph : Graph ν
  slotOf : θ → κ
  participants : List κ
  registered : ∀ c, c ∈ participants

variable {ν θ κ : Type} [DecidableEq ν] [DecidableEq θ] [DecidableEq κ]

def Graph.inDegree (g : Graph ν) (n : ν) : Nat :=
  (g.nodes.map fun m => (g.dependents m).count n).sum

def init (w : Setup ν θ κ) : State ν θ κ :=
  { dependenciesLeft := fun n => w.graph.inDegree n
    roots := w.graph.nodes.filter fun n => w.graph.inDegree n = 0 }

namespace State

def setStack (s : State ν θ κ) (t : θ) (fs : List (Frame ν)) : State ν θ κ :=
  { s with stack := Function.update s.stack t fs }

/-- One edge of a walk: the dependent's counter, and whether it is fired. -/
def visit (w : Setup ν θ κ) (s : State ν θ κ) (t : θ) (outcome : Outcome) (d : ν)
    (below : List (Frame ν)) : State ν θ κ :=
  match outcome with
  | .Cancelled => s.setStack t (.fire d .Cancelled :: below)
  | .Completed =>
    if w.graph.gateType d = .OR then s.setStack t (.fire d .Completed :: below)
    else
      { s.setStack t
          (if s.dependenciesLeft d - 1 = 0 then .fire d .Completed :: below else below) with
        dependenciesLeft := Function.update s.dependenciesLeft d (s.dependenciesLeft d - 1) }

/-- `Fire` after the exchange. -/
def dispatch (w : Setup ν θ κ) (s : State ν θ κ) (t : θ) (n : ν) (outcome : Outcome)
    (below : List (Frame ν)) : State ν θ κ :=
  if s.cancelled ∨ outcome = .Cancelled then s.setStack t (.enter n .Cancelled :: below)
  else
    match w.graph.kind n with
    | .gate => s.setStack t (.enter n .Completed :: below)
    | .external => s.setStack t (.arm n :: below)
    | .task => { s.setStack t below with dispatched := Function.update s.dispatched n true }

/-- The next action of a thread in the activation on top of its stack. -/
def exec (w : Setup ν θ κ) (s : State ν θ κ) (t : θ) : State ν θ κ :=
  match s.stack t with
  | [] => s
  | .fire n outcome :: fs =>
    if s.submitted n then s.setStack t fs
    else
      { s.setStack t (.decide n outcome :: fs) with
        submitted := Function.update s.submitted n true }
  | .decide n outcome :: fs => s.dispatch w t n outcome fs
  | .arm n :: fs =>
    { s.setStack t (if s.signalled n then .enter n .Completed :: fs else fs) with
      armed := Function.update s.armed n true }
  | .enter n outcome :: fs => s.setStack t (.announce n outcome s.globalEpoch :: fs)
  | .announce n outcome e :: fs =>
    { s.setStack t (.walk n outcome (w.graph.dependents n) s.globalEpoch :: fs) with
      slot := Function.update s.slot (w.slotOf t) (some e) }
  | .walk n outcome (d :: rest) began :: fs => s.visit w t outcome d (.walk n outcome rest began :: fs)
  | .walk n _ [] _ :: fs =>
    { s.setStack t (.retire n :: fs) with
      slot := Function.update s.slot (w.slotOf t) none
      walked := Function.update s.walked n true }
  | .retire n :: fs =>
    { s.setStack t fs with
      bag := Function.update s.bag (some t) ((n, s.globalEpoch) :: s.bag (some t)) }

/-- A function that ends in `OnTaskFinished` is called. -/
def call (s : State ν θ κ) (t : θ) (f : Frame ν) : State ν θ κ := s.setStack t (f :: s.stack t)

/-- `SignalExternal`. -/
def signal (s : State ν θ κ) (t : θ) (n : ν) : State ν θ κ :=
  if s.signalled n then s
  else
    let s' := { s with signalled := Function.update s.signalled n true }
    if s.armed n then s'.call t (.enter n .Completed) else s'

/-- The next slot of a `MinActiveEpoch`. -/
def look (s : State ν θ κ) (t : θ) : State ν θ κ :=
  match s.scan t with
  | some (v, c :: cs) =>
    let v' := match s.slot c with
      | some e => min v e
      | none => v
    { s with scan := Function.update s.scan t (some (v', cs)) }
  | _ => s

/-- The rest of `TryReclaim`, for the thread's own bag and the store of those that ended. -/
def sweep (s : State ν θ κ) (t : θ) (safeEpoch : Nat) : State ν θ κ :=
  let old := fun r : ν × Nat => decide (r.2 < safeEpoch)
  { s with
    freed := fun n =>
      s.freed n || ((s.bag (some t) ++ s.bag none).filter old).any fun r => r.1 = n
    bag := fun b =>
      if b = some t ∨ b = none then (s.bag b).filter fun r => !old r else s.bag b
    scan := Function.update s.scan t none }

/-- The thread ends, and leaves its bag. -/
def leave (s : State ν θ κ) (t : θ) : State ν θ κ :=
  { s with
    bag := Function.update (Function.update s.bag none (s.bag none ++ s.bag (some t))) (some t) [] }

end State

inductive Label (ν θ : Type) where
  | submit (t : θ)
  | run (t : θ) (n : ν)
  | discard (t : θ) (n : ν)
  | workerDiscard (n : ν)
  | signal (t : θ) (n : ν)
  | cancel
  | exec (t : θ)
  | advance
  | scan (t : θ)
  | look (t : θ)
  | sweep (t : θ)
  | leave (t : θ)

inductive Step (w : Setup ν θ κ) : State ν θ κ → Label ν θ → State ν θ κ → Prop where
  | submit {s : State ν θ κ} {t r rs} :
    s.roots = r :: rs →
    Step w s (.submit t) { s.call t (.fire r .Completed) with roots := rs }
  | run {s : State ν θ κ} {t n} :
    s.dispatched n = true →
    Step w s (.run t n)
      { s.call t (.enter n .Completed) with dispatched := Function.update s.dispatched n false }
  | discard {s : State ν θ κ} {t n} :
    s.dispatched n = true →
    Step w s (.discard t n)
      { s.call t (.enter n .Cancelled) with dispatched := Function.update s.dispatched n false }
  -- the copy in `Thread::Worker`
  | workerDiscard {s : State ν θ κ} {n} :
    s.dispatched n = true →
    Step w s (.workerDiscard n)
      { s with
        dispatched := Function.update s.dispatched n false
        discarded := Function.update s.discarded n true }
  | signal {s : State ν θ κ} {t n} :
    w.graph.kind n = .external →
    Step w s (.signal t n) (s.signal t n)
  | cancel {s : State ν θ κ} :
    Step w s .cancel { s with cancelled := true }
  | exec {s : State ν θ κ} {t} :
    Step w s (.exec t) (s.exec w t)
  | advance {s : State ν θ κ} :
    Step w s .advance { s with globalEpoch := s.globalEpoch + 1 }
  | scan {s : State ν θ κ} {t} :
    s.scan t = none →
    Step w s (.scan t)
      { s with scan := Function.update s.scan t (some (s.globalEpoch, w.participants)) }
  | look {s : State ν θ κ} {t} :
    Step w s (.look t) (s.look t)
  | sweep {s : State ν θ κ} {t v} :
    s.scan t = some (v, []) →
    Step w s (.sweep t) (s.sweep t v)
  | leave {s : State ν θ κ} {t} :
    s.stack t = [] →
    Step w s (.leave t) (s.leave t)

end JLib.TaskDAG
