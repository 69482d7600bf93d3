import Mathlib.Data.List.Nodup
import Mathlib.Logic.Function.Basic
import Mathlib.Tactic.Lemma
import Mathlib.Tactic.TypeStar

/-!
# Linked lists

A linked list is a start and a field that names the next element. `SList` is a singly linked list and
`DList` a doubly linked one, whose first element's back link holds `p`. Both say which list of elements
the links spell, so what an update of the links does is a statement about lists.
-/

namespace Links

variable {K : Type*}

/-- The links from `h` spell the list. -/
inductive SList (next : K → Option K) : Option K → List K → Prop where
  | nil :
    SList next none []
  | cons {i l} :
    SList next (next i) l →
    SList next (some i) (i :: l)

/-- The links from `h` and back to `p` spell the list. -/
inductive DList (prev next : K → Option K) : Option K → Option K → List K → Prop where
  | nil {p} :
    DList prev next p none []
  | cons {p i l} :
    prev i = p →
    DList prev next (some i) (next i) l →
    DList prev next p (some i) (i :: l)

variable {prev prev' next next' : K → Option K} {p h : Option K} {i : K} {l a b : List K}

namespace SList

/-- Links outside the list do not matter. -/
lemma frame (sl : SList next h l) (hn : ∀ k ∈ l, next' k = next k) : SList next' h l := by
  induction sl with
  | nil => exact .nil
  | @cons i l _ ih =>
    have hi : next' i = next i := hn i List.mem_cons_self
    apply SList.cons
    rw [hi]
    exact ih fun k hk => hn k (List.mem_cons_of_mem _ hk)

/-- The start is the first element. -/
lemma start_eq (sl : SList next h l) : h = l.head? := by
  cases sl with
  | nil => rfl
  | cons _ => rfl

/-- The links spell one list. -/
lemma unique {l' : List K} (sl : SList next h l) (sl' : SList next h l') : l = l' := by
  induction sl generalizing l' with
  | nil =>
    cases sl'
    rfl
  | cons _ ih =>
    cases sl' with
    | cons sl' => rw [ih sl']

end SList

namespace DList

/-- Links outside the list do not matter. -/
lemma frame (dl : DList prev next p h l) (hp : ∀ k ∈ l, prev' k = prev k)
    (hn : ∀ k ∈ l, next' k = next k) : DList prev' next' p h l := by
  induction dl with
  | nil => exact .nil
  | @cons p i l e _ ih =>
    have hi : next' i = next i := hn i List.mem_cons_self
    refine .cons ((hp i List.mem_cons_self).trans e) ?_
    rw [hi]
    exact ih (fun k hk => hp k (List.mem_cons_of_mem _ hk))
      fun k hk => hn k (List.mem_cons_of_mem _ hk)

/-- The start is the first element. -/
lemma start_eq (dl : DList prev next p h l) : h = l.head? := by
  cases dl with
  | nil => rfl
  | cons _ _ => rfl

/-- The forward links alone. -/
lemma toSList (dl : DList prev next p h l) : SList next h l := by
  induction dl with
  | nil => exact .nil
  | cons _ _ ih => exact .cons ih

/-- The back link of an element is the element before it. -/
lemma prev_eq (dl : DList prev next p h (a ++ i :: b)) :
    prev i = if a = [] then p else a.getLast? := by
  induction a generalizing p h with
  | nil =>
    cases dl with
    | cons e _ => exact e
  | cons x a ih =>
    cases dl with
    | cons _ dl =>
      rw [ih dl]
      cases a with
      | nil => rfl
      | cons y a => simp

/-- The forward link of an element is the element after it. -/
lemma next_eq (dl : DList prev next p h (a ++ i :: b)) : next i = b.head? := by
  induction a generalizing p h with
  | nil =>
    cases dl with
    | cons _ dl => exact dl.start_eq
  | cons x a ih =>
    cases dl with
    | cons _ dl => exact ih dl

variable [DecidableEq K]

/-- A new first element: it points at the old one, which points back. -/
lemma pushFront (dl : DList prev next none h l) (nd : l.Nodup) (hi : prev' i = none)
    (hin : next' i = h) (hp : ∀ k ∈ l, prev' k = if h = some k then some i else prev k)
    (hn : ∀ k ∈ l, next' k = next k) : DList prev' next' none (some i) (i :: l) := by
  refine .cons hi ?_
  rw [hin]
  cases dl with
  | nil => exact .nil
  | @cons _ j l _ dl =>
    have hj : prev' j = some i := by
      rw [hp j List.mem_cons_self]
      exact if_pos rfl
    have hjn : next' j = next j := hn j List.mem_cons_self
    refine .cons hj ?_
    rw [hjn]
    refine dl.frame (fun k hk => ?_) fun k hk => hn k (List.mem_cons_of_mem _ hk)
    have ne : j ≠ k := by
      rintro rfl
      exact (List.nodup_cons.1 nd).1 hk
    rw [hp k (List.mem_cons_of_mem _ hk)]
    exact if_neg fun e => ne (Option.some.inj e)

/-- An element is taken out: its neighbours are linked to each other. -/
lemma remove (dl : DList prev next p h (a ++ i :: b)) (nd : (a ++ i :: b).Nodup)
    (hout : ∀ k ∈ a ++ i :: b, p ≠ some k)
    (hn : ∀ k ∈ a ++ b, next' k = if prev i = some k then next i else next k)
    (hp : ∀ k ∈ a ++ b, prev' k = if next i = some k then prev i else prev k) :
    DList prev' next' p (if a = [] then next i else h) (a ++ b) := by
  induction a generalizing p h with
  | nil =>
    obtain ⟨hib, ndb⟩ := List.nodup_cons.1 nd
    cases dl with
    | @cons _ _ _ e dl =>
      -- the list starts with what followed the element
      generalize hni : next i = ni at dl hp hn
      cases dl with
      | nil =>
        rw [if_pos rfl]
        exact .nil
      | @cons _ j b ej dl =>
        rw [if_pos rfl]
        have nej : p ≠ some j := hout j (by simp)
        have hpj : prev' j = p := by
          rw [hp j (by simp), if_pos rfl, e]
        have hnj : next' j = next j := by
          rw [hn j (by simp), if_neg (by rw [e]; exact nej)]
        refine .cons hpj ?_
        rw [hnj]
        refine dl.frame (fun k hk => ?_) fun k hk => ?_
        · have ne : j ≠ k := by
            rintro rfl
            exact (List.nodup_cons.1 ndb).1 hk
          rw [hp k (by simp [hk])]
          exact if_neg fun e => ne (Option.some.inj e)
        · rw [hn k (by simp [hk]), if_neg]
          rw [e]
          exact hout k (by simp [hk])
  | cons x a ih =>
    have hprev := dl.prev_eq
    cases dl with
    | @cons _ _ _ e dl =>
      obtain ⟨hxa, nda⟩ := List.nodup_cons.1 nd
      have rest := ih dl nda
        (fun k hk e => by
          cases e
          exact hxa hk)
        (fun k hk => hn k (List.mem_cons_of_mem _ hk))
        (fun k hk => hp k (List.mem_cons_of_mem _ hk))
      have hpx : prev' x = p := by
        rw [hp x List.mem_cons_self, if_neg, e]
        -- the element after the one taken out is further down the list
        intro h'
        have : next i = b.head? := dl.next_eq
        rw [this] at h'
        have : x ∈ b := List.mem_of_mem_head? h'
        exact hxa (by simp [this])
      have hnx : next' x = if a = [] then next i else next x := by
        rw [hn x List.mem_cons_self]
        cases a with
        | nil =>
          rw [if_pos (by rw [hprev]; rfl), if_pos rfl]
        | cons y a =>
          rw [if_neg (List.cons_ne_nil y a), if_neg]
          intro h'
          rw [hprev, if_neg (List.cons_ne_nil x _)] at h'
          have : x ∈ y :: a := by
            rw [List.getLast?_cons_cons] at h'
            exact List.mem_of_getLast? h'
          exact hxa (List.mem_append_left _ this)
      rw [if_neg (List.cons_ne_nil x a), List.cons_append]
      refine .cons hpx ?_
      rw [hnx]
      exact rest

end DList

end Links
