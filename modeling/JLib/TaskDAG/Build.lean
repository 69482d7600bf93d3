import JLib.Graphs.Kahn
import JLib.TaskDAG.Model

/-!
# The construction of a task graph

`CreateNode`, `CreateMainNode`, `CreateGate`, `CreateExternalNode`, `AddDependency`, `AllocEdge`, `HasCycle` and
`Submit` of `src/TaskDAG.cpp`, up to the roots that `Submit` hands to `Fire`. Nodes are numbered in the order of
their creation, over all graphs that one `TaskDAG` builds; a `TaskNode*` is a number or null. Of an edge chunk only
the cursor is kept, and the edges of a node are the list from `firstEdge`.

`HasCycle` is Kahn's algorithm, whose loop is `Graphs.Kahn`; its fuel is the number of rounds. `added` is what
`AddDependency` has recorded for the present graph, and `wakes` the groups on which `Submit` called `WakeAll`; no
step reads them.
-/

namespace JLib.TaskDAG.Build
open LTS Graphs

/-- What `Submit` reads of a task. -/
structure Task (γ : Type) where
  waitGroup : Option γ

structure TaskNode (γ : Type) where
  task : Option (Task γ) := none
  isGate : Bool := false
  gateType : LogicType := .AND
  isExternal : Bool := false
  dependenciesLeft : Int := 0
  -- from `firstEdge`, the newest first
  edges : List Nat := []

def WAITER_BIT : BitVec 32 := 0x40000000

def COUNT_MASK : BitVec 32 := WAITER_BIT - 1

/-- `SLOT / sizeof(DagEdge)`. -/
def kEdgeChunk : Nat := 16

structure State (γ : Type) where
  -- the nodes of the present graph
  nodes : List Nat := []
  node : Nat → TaskNode γ := fun _ => {}
  created : Nat := 0
  edgeCursor : Nat := kEdgeChunk
  -- the word `n` of each group
  n : γ → BitVec 32
  wakes : List γ := []
  added : List (Nat × Nat) := []

variable {γ : Type} [DecidableEq γ]

namespace State

/-- A new node, null where there is no memory for it. -/
def create (s : State γ) (memory : Bool) (node : TaskNode γ) : Option Nat × State γ :=
  if memory = true then
    (some s.created,
      { s with
        nodes := s.nodes ++ [s.created]
        node := Function.update s.node s.created node
        created := s.created + 1 })
  else (none, s)

def createNode (s : State γ) (memory : Bool) (t : Option (Task γ)) : Option Nat × State γ :=
  s.create memory { task := t }

def createGate (s : State γ) (memory : Bool) (type : LogicType) : Option Nat × State γ :=
  s.create memory { isGate := true, gateType := type }

def createExternalNode (s : State γ) (memory : Bool) : Option Nat × State γ :=
  s.create memory { isExternal := true }

/-- The cursor after the call, `none` where a chunk is full and there is no memory for the next. -/
def allocEdge (s : State γ) (memory : Bool) : Option Nat :=
  if s.edgeCursor = kEdgeChunk then
    if memory = true then some 1 else none
  else some (s.edgeCursor + 1)

def addDependency (s : State γ) (memory : Bool) : Option Nat → Option Nat → State γ
  | some dependent, some dependency =>
    match s.allocEdge memory with
    | none => s
    | some cursor =>
      -- the edge first, then the counter: they may be of one node
      let node := Function.update s.node dependency
        { s.node dependency with edges := dependent :: (s.node dependency).edges }
      { s with
        edgeCursor := cursor
        node := Function.update node dependent
          { node dependent with dependenciesLeft := (node dependent).dependenciesLeft + 1 }
        added := (dependency, dependent) :: s.added }
  | _, _ => s

/-- `HasCycle` with the graph it leaves, `none` where the fuel does not suffice. -/
def hasCycle (s : State γ) (fuel : Nat) : Option (Bool × State γ) :=
  (Kahn.hasCycle (fun n => (s.node n).edges) s.nodes (fun n => (s.node n).dependenciesLeft) fuel).map (·, s)

/-- The task of a rejected node is destroyed and its group released. -/
def release (s : State γ) (g : γ) : State γ :=
  let old := s.n g
  { s with
    n := Function.update s.n g (old - 1)
    wakes := if old &&& COUNT_MASK = 1 ∧ old &&& WAITER_BIT ≠ 0 then s.wakes ++ [g] else s.wakes }

/-- A rejected node. -/
def discard (s : State γ) (n : Nat) : State γ :=
  match (s.node n).task.bind Task.waitGroup with
  | some g => s.release g
  | none => s

/-- What `Submit` returns: with `true`, the roots that it hands to `Fire`. -/
inductive Submitted where
  | rejected
  | accepted (roots : List Nat)
  deriving DecidableEq

def submit (s : State γ) (fuel : Nat) : Option (Submitted × State γ) :=
  match s.hasCycle fuel with
  | none => none
  | some (true, s) => some (.rejected, { s.nodes.foldl discard s with nodes := [], added := [] })
  | some (false, s) =>
    some (.accepted (s.nodes.filter fun n => (s.node n).dependenciesLeft = 0), { s with nodes := [], added := [] })

end State

inductive Label (γ : Type) where
  | createNode (t : Option (Task γ))
  | createGate (type : LogicType)
  | createExternalNode
  | addDependency (dependent dependency : Option Nat)
  | submit

inductive Step : State γ → Label γ → State γ → Prop where
  | createNode {s : State γ} {memory t} :
    Step s (.createNode t) (s.createNode memory t).2
  | createGate {s : State γ} {memory type} :
    Step s (.createGate type) (s.createGate memory type).2
  | createExternalNode {s : State γ} {memory} :
    Step s .createExternalNode (s.createExternalNode memory).2
  -- both are null or nodes of the present graph
  | addDependency {s : State γ} {memory dependent dependency} :
    (∀ n ∈ dependent, n ∈ s.nodes) →
    (∀ n ∈ dependency, n ∈ s.nodes) →
    Step s (.addDependency dependent dependency) (s.addDependency memory dependent dependency)
  | submit {s u : State γ} {fuel result} :
    s.submit fuel = some (result, u) →
    Step s .submit u

end JLib.TaskDAG.Build
