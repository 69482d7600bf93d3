import JLib.TaskDAG.Build

/-!
# `HasCycle` is exact

While a graph is built, the counter of every node is the number of edges into it, parallel ones and edges from the
node to itself included: an edge is recorded before it is counted, and counted once. So Kahn's algorithm on the
counters finds out whether there is a cycle. A graph without one is what the workers are given.
-/

namespace JLib.TaskDAG.Build
open LTS Graphs Relation

variable {γ : Type} {s u : State γ} {l : Label γ} {a b m n fuel : Nat} {g : γ}

/-- The edges of the nodes, and their counters. -/
def State.edges (s : State γ) (n : Nat) : List Nat :=
  (s.node n).edges

def State.left (s : State γ) (n : Nat) : Int :=
  (s.node n).dependenciesLeft

/-- The counters agree with the edges, and the edges are between nodes of the graph. -/
structure Built (s : State γ) : Prop where
  nodup : s.nodes.Nodup
  numbered : ∀ n ∈ s.nodes, n < s.created
  closed : ∀ m ∈ s.nodes, ∀ n ∈ s.edges m, n ∈ s.nodes
  left : ∀ n ∈ s.nodes, s.left n = inDegree s.edges s.nodes n
  added : ∀ m n, (m, n) ∈ s.added ↔ Edge s.edges s.nodes m n

/-- The empty graph is in order. -/
lemma Built.none (nodes : s.nodes = []) (added : s.added = []) : Built s := by
  refine ⟨nodes ▸ .nil, ?_, ?_, ?_, fun m n => ?_⟩
  · rw [nodes]
    nofun
  · rw [nodes]
    nofun
  · rw [nodes]
    nofun
  · unfold Edge
    rw [nodes, added]
    exact ⟨nofun, fun h => nomatch h.1⟩

/-- A new node has no edges and waits for none. -/
lemma Built.create {memory : Bool} {node : TaskNode γ} (bt : Built s) (edges : node.edges = [])
    (left : node.dependenciesLeft = 0) : Built (s.create memory node).2 := by
  unfold State.create
  split
  · have old : ∀ m ∈ s.nodes, Function.update s.node s.created node m = s.node m :=
      fun m mem => Function.update_of_ne (Nat.ne_of_lt (bt.numbered m mem)) ..
    have new : Function.update s.node s.created node s.created = node := Function.update_self ..
    have out : s.created ∉ s.nodes := fun mem => Nat.lt_irrefl _ (bt.numbered _ mem)
    constructor
    · exact bt.nodup.append (List.nodup_singleton _) (List.disjoint_singleton.2 out)
    · intro n mem
      obtain mem | mem := List.mem_append.1 mem
      · exact Nat.lt_succ_of_lt (bt.numbered n mem)
      · rw [List.mem_singleton.1 mem]
        exact Nat.lt_succ_self _
    · intro m mem n edge
      unfold State.edges at edge
      dsimp only at edge
      obtain mem | mem := List.mem_append.1 mem
      · rw [old m mem] at edge
        exact List.mem_append_left _ (bt.closed m mem n edge)
      · rw [List.mem_singleton.1 mem, new, edges] at edge
        cases edge
    · intro n mem
      have same : ∀ m ∈ s.nodes, (Function.update s.node s.created node m).edges = s.edges m :=
        fun m mem => by rw [old m mem, State.edges]
      have alone : inDegree (fun m => (Function.update s.node s.created node m).edges) [s.created] n = 0 := by
        rw [inDegree_eq_zero]
        intro m mem
        rw [List.mem_singleton.1 mem, new, edges]
        nofun
      change (Function.update s.node s.created node n).dependenciesLeft =
        inDegree (fun m => (Function.update s.node s.created node m).edges) (s.nodes ++ [s.created]) n
      have before : inDegree (fun m => (Function.update s.node s.created node m).edges) s.nodes n =
          inDegree s.edges s.nodes n := inDegree_congr same
      rw [inDegree_append, alone, before]
      obtain mem | mem := List.mem_append.1 mem
      · rw [old n mem]
        exact bt.left n mem
      · rw [List.mem_singleton.1 mem, new, left]
        have zero : inDegree s.edges s.nodes s.created = 0 :=
          inDegree_eq_zero.2 fun m mem edge => out (bt.closed m mem _ edge)
        rw [zero]
        rfl
    · intro m n
      unfold Edge State.edges
      dsimp only
      rw [bt.added, Edge, List.mem_append, List.mem_singleton]
      constructor
      · rintro ⟨mem, edge⟩
        exact ⟨.inl mem, by rw [old m mem]; exact edge⟩
      · rintro ⟨mem | rfl, edge⟩
        · rw [old m mem] at edge
          exact ⟨mem, edge⟩
        · rw [new, edges] at edge
          cases edge
  · exact bt

/-- What `AddDependency` does when there is memory: an edge and a count. -/
lemma addDependency_some {memory : Bool} {cursor : Nat} (eq : s.allocEdge memory = some cursor) :
    (s.addDependency memory (some b) (some a)).edges = Function.update s.edges a (b :: s.edges a) ∧
      (s.addDependency memory (some b) (some a)).left = Function.update s.left b (s.left b + 1) ∧
      (s.addDependency memory (some b) (some a)).nodes = s.nodes ∧
      (s.addDependency memory (some b) (some a)).created = s.created ∧
      (s.addDependency memory (some b) (some a)).added = (a, b) :: s.added := by
  unfold State.addDependency
  rw [eq]
  have same (node : Nat → TaskNode γ) : ∀ x,
      (Function.update node b { node b with dependenciesLeft := (node b).dependenciesLeft + 1 } x).edges =
        (node x).edges := by
    intro x
    rw [Function.apply_update fun _ => TaskNode.edges]
    exact congrFun (Function.update_eq_self ..) x
  have kept (l : List Nat) : ∀ x,
      (Function.update s.node a { s.node a with edges := l } x).dependenciesLeft = (s.node x).dependenciesLeft := by
    intro x
    rw [Function.apply_update fun _ => TaskNode.dependenciesLeft]
    exact congrFun (Function.update_eq_self ..) x
  refine ⟨funext fun x => ?_, funext fun x => ?_, rfl, rfl, rfl⟩
  · unfold State.edges
    dsimp only
    rw [same, Function.apply_update fun _ => TaskNode.edges]
  · unfold State.left
    dsimp only
    rw [Function.apply_update fun _ => TaskNode.dependenciesLeft, kept]
    simp only [kept]

/-- An edge that is added is counted at its dependent. -/
lemma Built.addDependency {memory : Bool} {dependent dependency : Option Nat} (bt : Built s)
    (hb : ∀ n ∈ dependent, n ∈ s.nodes) (ha : ∀ n ∈ dependency, n ∈ s.nodes) :
    Built (s.addDependency memory dependent dependency) := by
  cases dependent with
  | none => exact bt
  | some b =>
    cases dependency with
    | none => exact bt
    | some a =>
      have memA := ha a rfl
      have memB := hb b rfl
      cases eq : s.allocEdge memory with
      | none =>
        unfold State.addDependency
        rw [eq]
        exact bt
      | some cursor =>
        obtain ⟨edges, left, nodes, created, added⟩ := addDependency_some (a := a) (b := b) eq
        constructor
        · rw [nodes]
          exact bt.nodup
        · rw [nodes, created]
          exact bt.numbered
        · rw [nodes, edges]
          intro m mem n edge
          rw [Function.update_apply] at edge
          split at edge
          next same =>
            obtain rfl | edge := List.mem_cons.1 edge
            · exact memB
            · exact bt.closed a memA n edge
          next => exact bt.closed m mem n edge
        · rw [nodes, edges, left]
          intro n mem
          rw [inDegree_add bt.nodup memA, Function.update_apply]
          split
          next same =>
            rw [same, bt.left b memB]
            rfl
          next => exact bt.left n mem
        · rw [added, nodes, edges]
          intro m n
          unfold Edge
          rw [List.mem_cons, bt.added, Function.update_apply, Prod.ext_iff]
          unfold Edge
          split
          next same =>
            subst same
            rw [List.mem_cons]
            simp only [true_and, memA]
          next ne => simp only [ne, false_and, false_or]

/-- The groups of the tasks of some nodes. -/
def State.groups (s : State γ) (l : List Nat) : List γ :=
  l.filterMap fun n => (s.node n).task.bind Task.waitGroup

variable [DecidableEq γ]

/-- The loop over a rejected graph takes one from the group of each task. -/
lemma discard_all (l : List Nat) (s : State γ) (g : γ) :
    (l.foldl State.discard s).n g = s.n g - BitVec.ofNat 32 ((s.groups l).count g) := by
  induction l generalizing s with
  | nil => exact (BitVec.sub_zero _).symm
  | cons x l ih =>
    have n := ih (s.discard x)
    rw [List.foldl_cons]
    unfold State.discard at n ⊢
    cases task : (s.node x).task.bind Task.waitGroup with
    | none =>
      rw [task] at n
      rw [n]
      unfold State.groups
      rw [List.filterMap_cons, task]
    | some g' =>
      rw [task] at n
      have groups : (s.release g').groups l = s.groups l := rfl
      have cons : s.groups (x :: l) = g' :: s.groups l := by
        unfold State.groups
        rw [List.filterMap_cons, task]
      dsimp only at n ⊢
      rw [n, groups, cons, List.count_cons]
      unfold State.release
      dsimp only
      rw [Function.update_apply]
      by_cases same : g = g'
      · rw [if_pos same, if_pos (by rw [beq_iff_eq]; exact same.symm), same]
        rw [BitVec.ofNat_add]
        bv_omega
      · rw [if_neg same, if_neg (by rw [beq_iff_eq]; exact Ne.symm same)]
        rfl

/-- A call of the builder keeps the graph in order. -/
lemma Built.step (bt : Built s) (st : Step s l u) : Built u := by
  cases st with
  | createNode => exact bt.create rfl rfl
  | createGate => exact bt.create rfl rfl
  | createExternalNode => exact bt.create rfl rfl
  | addDependency hb ha => exact bt.addDependency hb ha
  | submit eq =>
    unfold State.submit at eq
    split at eq
    · cases eq
    · cases eq
      exact .none rfl rfl
    · cases eq
      exact .none rfl rfl

/-- The graph is in order after any calls. -/
lemma Built.of_runs {w : γ → BitVec 32} (rn : Reaches Step { n := w } s) : Built s := by
  induction rn with
  | refl => exact .none rfl rfl
  | tail _ _ st ih => exact ih.step st

omit [DecidableEq γ] in
/-- The check ends, leaves the graph as it is and is right. -/
lemma Built.hasCycle (bt : Built s) (enough : s.nodes.length ≤ fuel) :
    ∃ b, s.hasCycle fuel = some (b, s) ∧ Kahn.hasCycle s.edges s.nodes s.left fuel = some b ∧
      (b = true ↔ Cyclic s.edges s.nodes) := by
  obtain ⟨b, eq, iff⟩ := Kahn.hasCycle_iff bt.nodup bt.closed bt.left enough
  refine ⟨b, ?_, eq, iff⟩
  unfold State.hasCycle
  change (Kahn.hasCycle s.edges s.nodes s.left fuel).map _ = _
  rw [eq]
  rfl

/-- `HasCycle` ends within a round for each node, leaves the graph as it is, and returns true if and only if the
recorded dependencies have a cycle. `Submit` rejects exactly such a graph, and then it takes one from the group of
the task of each node. -/
theorem cycle_exact {w : γ → BitVec 32} (rn : Reaches Step { n := w } s) (enough : s.nodes.length ≤ fuel) :
    ∃ b, s.hasCycle fuel = some (b, s) ∧ (b = true ↔ ∃ n, TransGen (fun m n => (m, n) ∈ s.added) n n) ∧
      ∃ result u, s.submit fuel = some (result, u) ∧ (result = .rejected ↔ b = true) ∧
        ∀ g, u.n g = if result = .rejected then s.n g - BitVec.ofNat 32 ((s.groups s.nodes).count g)
          else s.n g := by
  have bt := Built.of_runs rn
  obtain ⟨b, has, -, iff⟩ := bt.hasCycle enough
  have edges : (fun m n => (m, n) ∈ s.added) = Edge s.edges s.nodes :=
    funext fun m => funext fun n => propext (bt.added m n)
  refine ⟨b, has, ?_, ?_⟩
  · rw [edges]
    exact iff
  · unfold State.submit
    rw [has]
    cases b with
    | true =>
      refine ⟨_, _, rfl, ⟨fun _ => rfl, fun _ => rfl⟩, fun g => ?_⟩
      rw [if_pos rfl]
      exact discard_all s.nodes s g
    | false =>
      refine ⟨_, _, rfl, ⟨nofun, nofun⟩, fun g => ?_⟩
      rw [if_neg nofun]

/-- Two edges from a node to another are no cycle; with an edge back they are. -/
theorem cycle_exact_parallel : ∃ s : State Unit, s.added = [(1, 0), (0, 1), (0, 1)] ∧
    ∃ b, s.hasCycle 2 = some (b, s) ∧ (b = true ↔ ∃ n, TransGen (fun m n => (m, n) ∈ s.added) n n) := by
  have r : Reaches Step ({ n := fun _ => 0 } : State Unit) _ := .refl
  have r1 := r.next (.createNode none) trivial (@Step.createNode _ _ _ true _)
  have r2 := r1.next (.createNode none) trivial (@Step.createNode _ _ _ true _)
  have r3 := r2.next (.addDependency (some 1) (some 0)) trivial
    (@Step.addDependency _ _ _ true _ _ (by decide) (by decide))
  have r4 := r3.next (.addDependency (some 1) (some 0)) trivial
    (@Step.addDependency _ _ _ true _ _ (by decide) (by decide))
  have r5 := r4.next (.addDependency (some 0) (some 1)) trivial
    (@Step.addDependency _ _ _ true _ _ (by decide) (by decide))
  obtain ⟨b, has, iff, -⟩ := @cycle_exact _ _ 2 _ _ r5 (by decide)
  exact ⟨_, rfl, b, has, iff⟩

/-! ## The graph that the workers are given -/

/-- An accepted graph is one that the workers' model starts from: its counters are the degrees, its roots the nodes
that `Submit` fires, and its edges have no cycle. -/
theorem accepted_graph {w : γ → BitVec 32} {roots : List Nat} (rn : Reaches Step { n := w } s)
    (enough : s.nodes.length ≤ fuel) (sub : s.submit fuel = some (.accepted roots, u)) :
    ∃ g : Graph Nat, g.nodes = s.nodes ∧ (∀ n ∈ s.nodes, g.dependents n = s.edges n) ∧
      (∀ n ∈ s.nodes, s.left n = g.inDegree n) ∧ roots = g.nodes.filter fun n => g.inDegree n = 0 := by
  have bt := Built.of_runs rn
  obtain ⟨b, has, eq, -⟩ := bt.hasCycle enough
  unfold State.submit at sub
  rw [has] at sub
  cases b with
  | true => cases sub
  | false =>
    cases sub
    obtain ⟨rank, up⟩ := Kahn.ranked bt.nodup bt.closed bt.left enough eq
    have degree : ∀ n, inDegree (fun m => if m ∈ s.nodes then s.edges m else []) s.nodes n =
        inDegree s.edges s.nodes n :=
      fun n => inDegree_congr fun m mem => if_pos mem
    refine ⟨{
      nodes := s.nodes
      dependents := fun n => if n ∈ s.nodes then s.edges n else []
      kind := fun n => if (s.node n).isGate then .gate else if (s.node n).isExternal then .external else .task
      gateType := fun n => (s.node n).gateType
      acyclic := ⟨rank, fun m n edge => ?_⟩ }, rfl, fun n mem => if_pos mem, ?_, ?_⟩
    · split at edge
      next mem => exact up m n ⟨mem, edge⟩
      next => cases edge
    · intro n mem
      rw [bt.left n mem, ← degree n]
      rfl
    · refine List.filter_congr fun n mem => decide_eq_decide.2 ?_
      change s.left n = 0 ↔ inDegree (fun m => if m ∈ s.nodes then s.edges m else []) s.nodes n = 0
      rw [bt.left n mem, degree n, Int.natCast_eq_zero]

end JLib.TaskDAG.Build
