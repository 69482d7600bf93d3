import Mathlib.Algebra.BigOperators.Group.List.Basic
import Mathlib.Algebra.Order.Ring.Int
import Mathlib.Data.Fintype.Card
import Mathlib.Data.Set.Finite.Basic
import Mathlib.Data.List.Perm.Lattice
import Mathlib.Logic.Function.Basic
import Mathlib.Logic.Relation
import Mathlib.Order.WellFounded

/-!
# Kahn's algorithm

A directed multigraph is a list of nodes and the list of the successors of each. The algorithm counts the edges into
every node down, on a copy of the counters: a node without edges into it is ready, and the edges of a ready node are
taken away with it. What is never taken away is on a cycle or behind one. A counter that is visited once for every
parallel edge reaches zero once, so a node is ready once.
-/

namespace Graphs
open Relation

variable {ν : Type*} [DecidableEq ν]

/-- The number of edges into a node from the nodes of a list. -/
def inDegree (succ : ν → List ν) (l : List ν) (x : ν) : Nat :=
  (l.map fun m => (succ m).count x).sum

/-- An edge of the graph. -/
def Edge (succ : ν → List ν) (nodes : List ν) (m n : ν) : Prop :=
  m ∈ nodes ∧ n ∈ succ m

def Cyclic (succ : ν → List ν) (nodes : List ν) : Prop :=
  ∃ n, TransGen (Edge succ nodes) n n

variable {succ : ν → List ν} {nodes done rest l l' es : List ν} {x m n : ν}

/-- The degree does not depend on the order of the nodes. -/
lemma inDegree_perm (perm : l.Perm l') : inDegree succ l x = inDegree succ l' x :=
  (perm.map _).sum_eq

/-- The edges of one more node are counted in. -/
lemma inDegree_cons : inDegree succ (m :: l) x = (succ m).count x + inDegree succ l x := by
  unfold inDegree
  rw [List.map_cons, List.sum_cons]

/-- The edges of more nodes are counted in. -/
lemma inDegree_append : inDegree succ (l ++ l') x = inDegree succ l x + inDegree succ l' x := by
  unfold inDegree
  rw [List.map_append, List.sum_append]

/-- Only the edges of the nodes that are counted matter. -/
lemma inDegree_congr {succ' : ν → List ν} (same : ∀ m ∈ l, succ' m = succ m) :
    inDegree succ' l x = inDegree succ l x := by
  unfold inDegree
  rw [List.map_congr_left fun m mem => by rw [same m mem]]

/-- One edge more. -/
lemma inDegree_add (nd : l.Nodup) (mem : m ∈ l) :
    inDegree (Function.update succ m (n :: succ m)) l x = inDegree succ l x + if x = n then 1 else 0 := by
  have perm := List.perm_cons_erase mem
  have others : ∀ m' ∈ l.erase m, Function.update succ m (n :: succ m) m' = succ m' := by
    intro m' mem'
    exact Function.update_of_ne (nd.mem_erase_iff.1 mem').1 ..
  rw [inDegree_perm perm, inDegree_perm perm, inDegree_cons, inDegree_cons, inDegree_congr others,
    Function.update_self, List.count_cons]
  simp only [beq_iff_eq, eq_comm (a := n)]
  omega

/-- A degree of zero means that no edge comes in. -/
lemma inDegree_eq_zero : inDegree succ l x = 0 ↔ ∀ m ∈ l, x ∉ succ m := by
  unfold inDegree
  rw [List.sum_eq_zero_iff_forall_eq_nat, List.forall_mem_map]
  exact forall₂_congr fun _ _ => List.count_eq_zero

namespace Kahn

/-- The variables of the loop. The top of the stack is the head of `ready`. -/
structure Loop (ν : Type*) where
  indeg : ν → Int
  ready : List ν
  processed : Nat

/-- One edge to `x`. -/
def visit (k : Loop ν) (x : ν) : Loop ν :=
  { k with
    indeg := Function.update k.indeg x (k.indeg x - 1)
    ready := if k.indeg x - 1 = 0 then x :: k.ready else k.ready }

/-- The nodes that no edge leads to are put on the stack in the order of the list. -/
def start (nodes : List ν) (indeg : ν → Int) : Loop ν :=
  { indeg
    ready := (nodes.filter fun n => indeg n = 0).reverse
    processed := 0 }

/-- The number of nodes that were ready, `none` where the fuel does not suffice. -/
def run (succ : ν → List ν) : Nat → Loop ν → Option Nat
  | fuel, k =>
    match k.ready with
    | [] => some k.processed
    | n :: ready =>
      match fuel with
      | 0 => none
      | fuel + 1 => run succ fuel ((succ n).foldl visit { k with ready, processed := k.processed + 1 })

/-- Not all nodes were ready. -/
def hasCycle (succ : ν → List ν) (nodes : List ν) (indeg : ν → Int) (fuel : Nat) : Option Bool :=
  (run succ fuel (start nodes indeg)).map fun processed => processed ≠ nodes.length

variable {k : Loop ν}

/-! ## Counting down -/

/-- The edges of one node. -/
lemma visits (enough : ∀ x ∈ es, (es.count x : Int) ≤ k.indeg x) (fresh : ∀ x ∈ es, x ∉ k.ready)
    (nodup : k.ready.Nodup) :
    (∀ x, (es.foldl visit k).indeg x = k.indeg x - es.count x) ∧
      (∀ x, x ∈ (es.foldl visit k).ready ↔ x ∈ k.ready ∨ x ∈ es ∧ k.indeg x = es.count x) ∧
      (es.foldl visit k).ready.Nodup ∧ (es.foldl visit k).processed = k.processed := by
  induction es generalizing k with
  | nil => simp [nodup]
  | cons y es ih =>
    have first := enough y (.head _)
    rw [List.count_cons_self] at first
    have indeg : ∀ x, (visit k y).indeg x = if x = y then k.indeg y - 1 else k.indeg x :=
      fun x => Function.update_apply ..
    have ready : ∀ x, x ∈ (visit k y).ready ↔ x ∈ k.ready ∨ x = y ∧ k.indeg y = 1 := by
      intro x
      unfold visit
      dsimp only
      split
      next zero =>
        rw [List.mem_cons, or_comm]
        exact or_congr_right (iff_self_and.2 fun _ => by omega)
      next no => exact ⟨.inl, fun h => h.resolve_right fun h => no (by omega)⟩
    -- a counter that reaches zero is not visited again
    have last : k.indeg y = 1 → y ∉ es := by
      intro one mem
      have := List.count_pos_iff.2 mem
      omega
    have enough' : ∀ x ∈ es, (es.count x : Int) ≤ (visit k y).indeg x := by
      intro x mem
      have now := enough x (.tail _ mem)
      rw [List.count_cons] at now
      rw [indeg]
      split
      next same =>
        rw [same] at now ⊢
        omega
      next ne =>
        rw [if_neg (by rw [beq_iff_eq]; exact Ne.symm ne)] at now
        omega
    have fresh' : ∀ x ∈ es, x ∉ (visit k y).ready := by
      intro x mem
      rw [ready]
      rintro (h | ⟨rfl, one⟩)
      · exact fresh x (.tail _ mem) h
      · exact last one mem
    have nodup' : (visit k y).ready.Nodup := by
      unfold visit
      dsimp only
      split
      · exact nodup.cons (fresh y (.head _))
      · exact nodup
    obtain ⟨indeg', ready', nodup', processed'⟩ := ih enough' fresh' nodup'
    refine ⟨fun x => ?_, fun x => ?_, nodup', processed'⟩
    · rw [List.foldl_cons, indeg', indeg, List.count_cons]
      by_cases same : x = y
      · rw [if_pos same, same, if_pos (beq_self_eq_true y)]
        omega
      · rw [if_neg same, if_neg (by rw [beq_iff_eq]; exact Ne.symm same)]
        omega
    · rw [List.foldl_cons, ready', ready, indeg, List.mem_cons, List.count_cons]
      by_cases same : x = y
      · subst same
        rw [if_pos rfl, if_pos (beq_self_eq_true x)]
        have none : x ∉ es → es.count x = 0 := List.count_eq_zero.2
        by_cases mem : x ∈ es
        · simp only [mem, true_and, true_or, Nat.cast_add, Nat.cast_one]
          constructor
          · rintro ((h | h) | h)
            · exact .inl h
            · exact absurd mem (last h)
            · right
              omega
          · rintro (h | h)
            · exact .inl (.inl h)
            · right
              omega
        · simp only [mem, none mem, true_and, or_false, false_and, Nat.zero_add, Nat.cast_one]
      · rw [if_neg same, if_neg (by rw [beq_iff_eq]; exact Ne.symm same)]
        simp only [same, false_and, or_false, false_or, Nat.add_zero]

/-! ## The invariant -/

/-- Every node of the list comes after the nodes that have an edge to it. -/
def Topo (succ : ν → List ν) (nodes : List ν) : List ν → Prop
  | [] => True
  | n :: l => (∀ m, Edge succ nodes m n → m ∈ l) ∧ Topo succ nodes l

/-- What was taken away and what is left. -/
structure Drained (succ : ν → List ν) (nodes done rest : List ν) (k : Loop ν) : Prop where
  perm : nodes.Perm (done ++ rest)
  indeg : ∀ x ∈ nodes, k.indeg x = inDegree succ rest x
  ready : ∀ x, x ∈ k.ready ↔ x ∈ rest ∧ k.indeg x = 0
  nodup : k.ready.Nodup
  processed : k.processed = done.length
  topo : Topo succ nodes done

omit [DecidableEq ν] in
/-- What comes before a node that is done is done. -/
lemma Topo.pred (tp : Topo succ nodes done) (mem : n ∈ done) (edge : Edge succ nodes m n) : m ∈ done := by
  induction done with
  | nil => cases mem
  | cons y l ih =>
    obtain rfl | mem := List.mem_cons.1 mem
    · exact .tail _ (tp.1 m edge)
    · exact .tail _ (ih tp.2 mem)

omit [DecidableEq ν] in
/-- What a path leads from to a node that is done is done. -/
lemma Topo.trans (tp : Topo succ nodes done) (path : TransGen (Edge succ nodes) m n) (mem : n ∈ done) :
    m ∈ done := by
  induction path with
  | single edge => exact tp.pred mem edge
  | tail _ edge ih => exact ih (tp.pred mem edge)

omit [DecidableEq ν] in
/-- What was taken away is on no cycle. -/
lemma Topo.acyclic (tp : Topo succ nodes done) (mem : n ∈ done) : ¬TransGen (Edge succ nodes) n n := by
  induction done with
  | nil => cases mem
  | cons y l ih =>
    obtain rfl | mem := List.mem_cons.1 mem
    · intro path
      obtain ⟨m, path, edge⟩ := TransGen.tail'_iff.1 path
      have there := tp.1 m edge
      have here : n ∈ l := by
        obtain rfl | path := reflTransGen_iff_eq_or_transGen.1 path
        · exact there
        · exact tp.2.trans path there
      exact ih tp.2 here (.tail' path edge)
    · exact ih tp.2 mem

/-- The place of a node in the order, the first one lowest. -/
def rank : List ν → ν → Nat
  | [], _ => 0
  | y :: l, x => if x = y then l.length + 1 else rank l x

/-- A rank is at most the length. -/
lemma rank_le : rank l x ≤ l.length := by
  induction l with
  | nil => exact Nat.le_refl 0
  | cons y l ih =>
    unfold rank
    split
    · exact Nat.le_refl _
    · exact Nat.le_succ_of_le ih

/-- An edge goes from a lower rank to a higher one. -/
lemma Topo.rank_lt (tp : Topo succ nodes done) (nd : done.Nodup) (mem : n ∈ done) (edge : Edge succ nodes m n) :
    rank done m < rank done n := by
  induction done with
  | nil => cases mem
  | cons y l ih =>
    obtain ⟨out, nd⟩ := List.nodup_cons.1 nd
    have before : m ∈ l := by
      obtain rfl | mem := List.mem_cons.1 mem
      · exact tp.1 m edge
      · exact tp.2.pred mem edge
    have ne : m ≠ y := by
      rintro rfl
      exact out before
    unfold rank
    rw [if_neg ne]
    split
    · exact Nat.lt_succ_of_le rank_le
    · next other => exact ih tp.2 nd ((List.mem_cons.1 mem).resolve_left other)

/-- Before the loop the queue is the roots, and the counters are the degrees. -/
lemma Drained.start (nd : nodes.Nodup) {indeg : ν → Int} (deg : ∀ x ∈ nodes, indeg x = inDegree succ nodes x) :
    Drained succ nodes [] nodes (start nodes indeg) := by
  refine ⟨.refl _, deg, fun x => ?_, ?_, rfl, trivial⟩
  · unfold Kahn.start
    rw [List.mem_reverse, List.mem_filter, decide_eq_true_iff]
  · exact List.nodup_reverse.2 (nd.filter _)

/-- One round: a node that is ready is taken away with its edges. -/
lemma Drained.round (nd : nodes.Nodup) (closed : ∀ m ∈ nodes, ∀ n ∈ succ m, n ∈ nodes) {ready : List ν}
    (dr : Drained succ nodes done rest k) (top : k.ready = n :: ready) :
    Drained succ nodes (n :: done) (rest.erase n)
      ((succ n).foldl visit { k with ready, processed := k.processed + 1 }) := by
  have nodup := dr.nodup
  rw [top] at nodup
  obtain ⟨out, nodup⟩ := List.nodup_cons.1 nodup
  obtain ⟨here, zero⟩ := (dr.ready n).1 (top ▸ .head _)
  have apart := List.nodup_append.1 (dr.perm.nodup_iff.1 nd)
  have node : ∀ {x}, x ∈ rest → x ∈ nodes := fun h => dr.perm.mem_iff.2 (List.mem_append_right _ h)
  have perm : rest.Perm (n :: rest.erase n) := List.perm_cons_erase here
  have degree : ∀ x ∈ nodes, k.indeg x = (succ n).count x + inDegree succ (rest.erase n) x := by
    intro x mem
    rw [dr.indeg x mem, inDegree_perm perm, inDegree_cons, Nat.cast_add]
  have waiting : ∀ {x}, x ∈ ready → x ∈ rest ∧ k.indeg x = 0 :=
    fun h => (dr.ready _).1 (top ▸ .tail _ h)
  have none : ∀ m ∈ rest, n ∉ succ m := by
    rw [← inDegree_eq_zero]
    have := dr.indeg n (node here)
    omega
  have edge : ∀ x ∈ succ n, x ∈ nodes := closed n (node here)
  have enough : ∀ x ∈ succ n,
      ((succ n).count x : Int) ≤ ({ k with ready, processed := k.processed + 1 } : Loop ν).indeg x := by
    intro x mem
    have := degree x (edge x mem)
    dsimp only
    omega
  have fresh : ∀ x ∈ succ n, x ∉ ready := by
    intro x mem h
    have count := List.count_pos_iff.2 mem
    have := degree x (edge x mem)
    have := (waiting h).2
    omega
  obtain ⟨indeg', ready', nodup', processed'⟩ := visits enough fresh nodup
  refine ⟨?_, fun x mem => ?_, fun x => ?_, nodup', ?_, ?_, dr.topo⟩
  · exact dr.perm.trans ((perm.append_left done).trans List.perm_middle)
  · rw [indeg' x]
    have := degree x mem
    dsimp only
    omega
  · rw [ready' x, indeg' x, apart.2.1.mem_erase_iff]
    dsimp only
    constructor
    · rintro (h | ⟨mem, all⟩)
      · obtain ⟨left, zero⟩ := waiting h
        have := degree x (node left)
        refine ⟨⟨?_, left⟩, by omega⟩
        rintro rfl
        exact out h
      · refine ⟨⟨?_, ?_⟩, by omega⟩
        · rintro rfl
          exact none x here mem
        · -- a node that was taken away has no edge from what is left
          obtain gone | left := List.mem_append.1 (dr.perm.mem_iff.1 (edge x mem))
          · have gone' := dr.topo.pred gone ⟨node here, mem⟩
            exact absurd rfl (apart.2.2 n gone' n here)
          · exact left
    · rintro ⟨⟨ne, left⟩, zero⟩
      by_cases mem : x ∈ succ n
      · exact .inr ⟨mem, by omega⟩
      · rw [List.count_eq_zero.2 mem] at zero
        have h := (dr.ready x).2 ⟨left, by omega⟩
        rw [top] at h
        exact .inl ((List.mem_cons.1 h).resolve_left ne)
  · rw [processed', dr.processed]
    rfl
  · intro m edge'
    obtain gone | left := List.mem_append.1 (dr.perm.mem_iff.1 edge'.1)
    · exact gone
    · exact absurd edge'.2 (none m left)

/-- The loop ends when no node that is left is ready, after at most one round for each node. -/
lemma Drained.run (nd : nodes.Nodup) (closed : ∀ m ∈ nodes, ∀ n ∈ succ m, n ∈ nodes) {fuel : Nat}
    (dr : Drained succ nodes done rest k) (enough : rest.length ≤ fuel) :
    ∃ done' rest' k', Drained succ nodes done' rest' k' ∧ k'.ready = [] ∧ run succ fuel k = some done'.length := by
  induction fuel generalizing done rest k with
  | zero =>
    have empty : k.ready = [] := by
      rw [List.eq_nil_iff_forall_not_mem]
      intro x h
      have left := ((dr.ready x).1 h).1
      rw [List.eq_nil_of_length_eq_zero (Nat.le_zero.1 enough)] at left
      cases left
    refine ⟨done, rest, k, dr, empty, ?_⟩
    unfold Kahn.run
    rw [empty, ← dr.processed]
  | succ fuel ih =>
    cases top : k.ready with
    | nil =>
      refine ⟨done, rest, k, dr, top, ?_⟩
      unfold Kahn.run
      rw [top, ← dr.processed]
    | cons n ready =>
      have here := ((dr.ready n).1 (top ▸ .head _)).1
      have shorter := List.length_erase_of_mem here
      obtain ⟨done', rest', k', dr', empty, eq⟩ := ih (dr.round nd closed top) (by omega)
      refine ⟨done', rest', k', dr', empty, ?_⟩
      unfold Kahn.run
      rw [top]
      exact eq

omit [DecidableEq ν] in
/-- Where every node has an edge from another one of a finite set, there is a cycle. -/
lemma cyclic_of_pred (some : rest ≠ []) (pred : ∀ x ∈ rest, ∃ m ∈ rest, Edge succ nodes m x) :
    Cyclic succ nodes := by
  by_contra no
  let before : {x // x ∈ rest} → {x // x ∈ rest} → Prop := fun a b => TransGen (Edge succ nodes) a.1 b.1
  have trans : IsTrans _ before := ⟨fun _ _ _ ab bc => ab.trans bc⟩
  have irrefl : Std.Irrefl before := ⟨fun a h => no ⟨a.1, h⟩⟩
  have finite : Finite {x // x ∈ rest} := rest.finite_toSet
  have wf : WellFounded before := Finite.wellFounded_of_trans_of_irrefl before
  obtain ⟨x, mem⟩ := List.exists_mem_of_ne_nil rest some
  obtain ⟨⟨y, left⟩, -, least⟩ := wf.has_min Set.univ ⟨⟨x, mem⟩, trivial⟩
  obtain ⟨m, left', edge⟩ := pred y left
  exact least ⟨m, left'⟩ trivial (.single edge)

/-- The algorithm ends, and finds out whether there is a cycle. -/
theorem hasCycle_iff (nd : nodes.Nodup) (closed : ∀ m ∈ nodes, ∀ n ∈ succ m, n ∈ nodes) {indeg : ν → Int}
    (deg : ∀ x ∈ nodes, indeg x = inDegree succ nodes x) {fuel : Nat} (enough : nodes.length ≤ fuel) :
    ∃ b, hasCycle succ nodes indeg fuel = some b ∧ (b = true ↔ Cyclic succ nodes) := by
  obtain ⟨done, rest, k, dr, empty, eq⟩ := (Drained.start nd deg).run nd closed enough
  unfold hasCycle
  rw [eq]
  refine ⟨_, rfl, ?_⟩
  rw [decide_eq_true_iff, dr.perm.length_eq, List.length_append]
  constructor
  · intro ne
    have some : rest ≠ [] := by
      rintro rfl
      exact ne rfl
    apply cyclic_of_pred some
    intro x left
    have node : x ∈ nodes := dr.perm.mem_iff.2 (List.mem_append_right _ left)
    have busy : inDegree succ rest x ≠ 0 := by
      intro zero
      have h := (dr.ready x).2 ⟨left, by rw [dr.indeg x node, zero]; rfl⟩
      rw [empty] at h
      cases h
    rw [Ne, inDegree_eq_zero] at busy
    push Not at busy
    obtain ⟨m, left', edge⟩ := busy
    exact ⟨m, left', dr.perm.mem_iff.2 (List.mem_append_right _ left'), edge⟩
  · rintro ⟨n, path⟩ all
    have none : rest = [] := List.eq_nil_of_length_eq_zero (by omega)
    obtain ⟨m, edge, -⟩ := TransGen.head'_iff.1 path
    have gone := dr.perm.mem_iff.1 edge.1
    rw [none, List.append_nil] at gone
    exact dr.topo.acyclic gone path

/-- Where it finds none, the nodes have an order that the edges respect. -/
theorem ranked (nd : nodes.Nodup) (closed : ∀ m ∈ nodes, ∀ n ∈ succ m, n ∈ nodes) {indeg : ν → Int}
    (deg : ∀ x ∈ nodes, indeg x = inDegree succ nodes x) {fuel : Nat} (enough : nodes.length ≤ fuel)
    (no : hasCycle succ nodes indeg fuel = some false) :
    ∃ rank : ν → Nat, ∀ m n, Edge succ nodes m n → rank m < rank n := by
  obtain ⟨done, rest, k, dr, -, eq⟩ := (Drained.start nd deg).run nd closed enough
  have all : done.length = nodes.length := by
    unfold hasCycle at no
    rw [eq] at no
    simpa using no
  have none : rest = [] := by
    have := dr.perm.length_eq
    rw [List.length_append] at this
    exact List.eq_nil_of_length_eq_zero (by omega)
  have perm := dr.perm
  rw [none, List.append_nil] at perm
  exact ⟨rank done, fun m n edge =>
    dr.topo.rank_lt (perm.nodup_iff.1 nd) (perm.mem_iff.1 (closed m edge.1 n edge.2)) edge⟩

end Kahn
end Graphs
