import Mathlib.Data.List.Nodup
import Mathlib.Tactic.Lemma
import Mathlib.Tactic.TypeStar

/-!
# Neighbours in a list

`Adj l x y`: somewhere in `l` the element `x` is directly before `y`. A list that is held by links which
may be missing for a time is described through it: what each pair of neighbours has, not how far the
links from the front reach.
-/

namespace Links

variable {K : Type*} {x y z : K} {l a b : List K}

def Adj : List K → K → K → Prop
  | a :: b :: l, x, y => x = a ∧ y = b ∨ Adj (b :: l) x y
  | _, _, _ => False

/-- Neighbours stay neighbours without the first element, unless it is the left one. -/
lemma Adj.tail (h : Adj (z :: l) x y) (ne : x ≠ z) : Adj l x y := by
  cases l with
  | nil => exact h.elim
  | cons b l => exact h.resolve_left fun e => ne e.1

/-- Neighbours stay neighbours behind another element. -/
lemma Adj.cons (h : Adj l x y) (z : K) : Adj (z :: l) x y := by
  cases l with
  | nil => exact h.elim
  | cons b l => exact .inr h

/-- Neighbours are in the list. -/
lemma Adj.mem (h : Adj l x y) : x ∈ l ∧ y ∈ l := by
  induction l with
  | nil => exact h.elim
  | cons a l ih =>
    cases l with
    | nil => exact h.elim
    | cons b l =>
      rcases h with ⟨rfl, rfl⟩ | h
      · simp
      · exact ⟨List.mem_cons_of_mem _ (ih h).1, List.mem_cons_of_mem _ (ih h).2⟩

/-- In a list without repetition the right neighbour is one. -/
lemma Adj.unique (nd : l.Nodup) (h : Adj l x y) (h' : Adj l x z) : y = z := by
  induction l with
  | nil => exact h.elim
  | cons a l ih =>
    cases l with
    | nil => exact h.elim
    | cons b l =>
      have out := (List.nodup_cons.1 nd).1
      rcases h with ⟨rfl, rfl⟩ | h
      · rcases h' with ⟨-, rfl⟩ | h'
        · rfl
        · exact absurd h'.mem.1 out
      · rcases h' with ⟨rfl, -⟩ | h'
        · exact absurd h.mem.1 out
        · exact ih (List.nodup_cons.1 nd).2 h h'

/-- The last element is before nothing. -/
lemma Adj.ne_last (nd : l.Nodup) (h : Adj l x y) : l.getLast? ≠ some x := by
  induction l with
  | nil => exact h.elim
  | cons a l ih =>
    cases l with
    | nil => exact h.elim
    | cons b l =>
      rw [List.getLast?_cons_cons]
      rcases h with ⟨rfl, rfl⟩ | h
      · intro e
        exact (List.nodup_cons.1 nd).1 (List.mem_of_getLast? e)
      · exact ih (List.nodup_cons.1 nd).2 h

/-- In a list that is put together of two, the one pair that is new is at the seam. -/
lemma adj_append (hb : b.head? = some z) :
    Adj (a ++ b) x y ↔ Adj a x y ∨ a.getLast? = some x ∧ y = z ∨ Adj b x y := by
  induction a with
  | nil => simp [Adj]
  | cons c a ih =>
    cases a with
    | nil =>
      cases b with
      | nil => cases hb
      | cons d b =>
        cases hb
        simp only [List.cons_append, List.nil_append, Adj, List.getLast?_singleton,
          Option.some.injEq, false_or, eq_comm]
    | cons d a =>
      rw [List.getLast?_cons_cons]
      show x = c ∧ y = d ∨ Adj (d :: a ++ b) x y ↔ _
      rw [ih]
      simp only [Adj, or_assoc]

end Links
