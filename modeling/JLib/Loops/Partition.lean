import Mathlib.Data.List.TakeDrop
import Mathlib.Tactic.Lemma
import Mathlib.Tactic.TypeStar

/-!
# Loops that keep a part of an array

Two ways to run over an array, get rid of some elements and keep the others. A `Compaction` writes what it
keeps to the front of the array and cuts the array at the end; what is pushed meanwhile is visited in its turn.
A `Walk` puts what it keeps into a second array, which takes the place of the first when the walk is done; it
ends where the array ended when it began, and what was pushed meanwhile is gone with the first array.
-/

namespace Loops

variable {α : Type*}

/-- The elements from `i` on are to be visited; those before `kept` were kept. -/
structure Compaction (α : Type*) where
  items : List α
  i : Nat := 0
  kept : Nat := 0

namespace Compaction

/-- The element at `i` goes. -/
def drop (c : Compaction α) : Compaction α := { c with i := c.i + 1 }

/-- The element at `i` is kept. -/
def keep (c : Compaction α) (x : α) : Compaction α :=
  { items := c.items.set c.kept x, i := c.i + 1, kept := c.kept + 1 }

def push (c : Compaction α) (x : α) : Compaction α := { c with items := c.items ++ [x] }

/-- The array that is cut. -/
def result (c : Compaction α) : List α := c.items.take c.kept

/-- What the array stands for while the loop is in progress. -/
def content (c : Compaction α) : List α := c.items.take c.kept ++ c.items.drop c.i

/-- The loop is inside the array. -/
def Inside (c : Compaction α) : Prop := c.kept ≤ c.i ∧ c.i ≤ c.items.length

variable {c : Compaction α} {x : α}

/-- Before the loop the content is the whole list. -/
lemma content_begin (items : List α) : (⟨items, 0, 0⟩ : Compaction α).content = items := rfl

/-- Before the loop both indices are inside. -/
lemma inside_begin (items : List α) : (⟨items, 0, 0⟩ : Compaction α).Inside :=
  ⟨Nat.le_refl _, Nat.zero_le _⟩

/-- An element was read, so the loop is not at the end. -/
lemma lt_of_getElem? (h : c.items[c.i]? = some x) : c.i < c.items.length :=
  (List.getElem?_eq_some_iff.1 h).1

/-- What is unread begins with the element that is read. -/
lemma drop_getElem? (h : c.items[c.i]? = some x) : c.items.drop c.i = x :: c.items.drop (c.i + 1) := by
  obtain ⟨lt, e⟩ := List.getElem?_eq_some_iff.1 h
  rw [List.drop_eq_getElem_cons lt, e]

/-- Dropping an element keeps the indices inside. -/
lemma drop_inside (ins : c.Inside) (h : c.items[c.i]? = some x) : c.drop.Inside :=
  ⟨Nat.le_succ_of_le ins.1, lt_of_getElem? h⟩

/-- Dropping an element takes it out of the content. -/
lemma content_drop (h : c.items[c.i]? = some x) : c.content.Perm (x :: c.drop.content) := by
  rw [content, drop_getElem? h]
  exact List.perm_middle

/-- Keeping an element keeps the indices inside. -/
lemma keep_inside (ins : c.Inside) (h : c.items[c.i]? = some x) : (c.keep x).Inside := by
  refine ⟨Nat.succ_le_succ ins.1, ?_⟩
  rw [keep, List.length_set]
  exact lt_of_getElem? h

/-- What is kept moves to the front. -/
lemma content_keep (ins : c.Inside) (h : c.items[c.i]? = some x) : (c.keep x).content = c.content := by
  have lt : c.kept < c.items.length := Nat.lt_of_le_of_lt ins.1 (lt_of_getElem? h)
  have front : (c.items.set c.kept x).take (c.kept + 1) = c.items.take c.kept ++ [x] := by
    rw [List.take_add_one, List.take_set_of_le (Nat.le_refl _), List.getElem?_set_self lt]
    rfl
  have back : (c.items.set c.kept x).drop (c.i + 1) = c.items.drop (c.i + 1) :=
    List.drop_set_of_lt (Nat.lt_succ_of_le ins.1)
  rw [content, content, keep, front, back, drop_getElem? h, List.append_assoc]
  rfl

/-- A push behind the list keeps the indices inside. -/
lemma push_inside (ins : c.Inside) : (c.push x).Inside := by
  refine ⟨ins.1, ?_⟩
  rw [push, List.length_append]
  exact Nat.le_add_right_of_le ins.2

/-- What is pushed behind the list joins the content. -/
lemma content_push (ins : c.Inside) : (c.push x).content = c.content ++ [x] := by
  rw [content, content, push, List.take_append_of_le_length (Nat.le_trans ins.1 ins.2),
    List.drop_append_of_le_length ins.2,
    List.append_assoc]

/-- At the end the content is what the loop leaves. -/
lemma content_end (h : c.i = c.items.length) : c.content = c.result := by
  rw [content, h, List.drop_length, List.append_nil, result]

end Compaction

/-- The elements from `i` up to `stop` are to be visited. -/
structure Walk (α : Type*) where
  items : List α
  i : Nat := 0
  stop : Nat
  kept : List α := []

namespace Walk

/-- What the first array and the second stand for while the walk is in progress. -/
def content (w : Walk α) : List α := w.kept ++ w.items.drop w.i

def drop (w : Walk α) : Walk α := { w with i := w.i + 1 }

def keep (w : Walk α) (x : α) : Walk α := { w with i := w.i + 1, kept := w.kept ++ [x] }

variable {w : Walk α} {x : α}

/-- What is unread begins with the element that is read. -/
lemma drop_getElem? (h : w.items[w.i]? = some x) : w.items.drop w.i = x :: w.items.drop (w.i + 1) := by
  obtain ⟨lt, e⟩ := List.getElem?_eq_some_iff.1 h
  rw [List.drop_eq_getElem_cons lt, e]

/-- Dropping an element takes it out of the content. -/
lemma content_drop (h : w.items[w.i]? = some x) : w.content.Perm (x :: w.drop.content) := by
  rw [content, drop_getElem? h]
  exact List.perm_middle

/-- Keeping an element leaves the content. -/
lemma content_keep (h : w.items[w.i]? = some x) : (w.keep x).content = w.content := by
  rw [content, content, drop_getElem? h, keep, List.append_assoc]
  rfl

/-- Nothing was pushed: the second array is all there is. -/
lemma content_end (h : w.items.length ≤ w.i) : w.content = w.kept := by
  rw [content, List.drop_of_length_le h, List.append_nil]

end Walk

end Loops
