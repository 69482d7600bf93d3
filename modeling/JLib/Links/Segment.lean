import JLib.Links.Chain

/-!
# Segments of linked lists

A segment is a run of elements that the links spell from a start up to an end, the link of its last element.
A list is a segment that ends nowhere. Splicing is what allocators and queues do with segments: a segment is
cut off a list without touching a link, and is put before another list by one write to its last element.
-/

namespace Links

variable {K : Type*}

/-- The links from `h` spell the list and arrive at `e`. -/
inductive Seg (next : K → Option K) : Option K → List K → Option K → Prop where
  | nil {h} :
    Seg next h [] h
  | cons {i l e} :
    Seg next (next i) l e →
    Seg next (some i) (i :: l) e

variable {next next' : K → Option K} {h e : Option K} {i : K} {l a b : List K}

namespace Seg

/-- Links outside the segment do not matter. -/
lemma frame (sg : Seg next h l e) (hn : ∀ k ∈ l, next' k = next k) : Seg next' h l e := by
  induction sg with
  | nil => exact .nil
  | @cons i l e _ ih =>
    have hi : next' i = next i := hn i List.mem_cons_self
    apply Seg.cons
    rw [hi]
    exact ih fun k hk => hn k (List.mem_cons_of_mem _ hk)

/-- The start is the first element. -/
lemma start_eq (sg : Seg next h (i :: l) e) : h = some i := by
  cases sg with
  | cons _ => rfl

/-- The end of a segment is the link of its last element. -/
lemma end_eq (sg : Seg next h (l ++ [i]) e) : next i = e := by
  induction l generalizing h with
  | nil =>
    cases sg with
    | cons sg =>
      generalize next i = x at sg
      cases sg with
      | nil => rfl
  | cons j l ih =>
    cases sg with
    | cons sg => exact ih sg

/-- A list follows a segment. -/
lemma append (sg : Seg next h a e) (sl : SList next e b) : SList next h (a ++ b) := by
  induction sg with
  | nil => exact sl
  | cons _ ih => exact .cons (ih sl)

/-- A list splits into a segment and a list, and no link is written. -/
lemma split (sl : SList next h (a ++ b)) : ∃ e, Seg next h a e ∧ SList next e b := by
  induction a generalizing h with
  | nil => exact ⟨h, .nil, sl⟩
  | cons i a ih =>
    cases sl with
    | cons sl =>
      obtain ⟨e, sg, sl⟩ := ih sl
      exact ⟨e, .cons sg, sl⟩

/-- One write to the last element changes the end. -/
lemma relink [DecidableEq K] {x : Option K} (sg : Seg next h (l ++ [i]) e) (nd : (l ++ [i]).Nodup) :
    Seg (Function.update next i x) h (l ++ [i]) x := by
  induction l generalizing h with
  | nil =>
    cases sg with
    | cons _ =>
      apply Seg.cons
      rw [Function.update_self]
      exact .nil
  | cons j l ih =>
    obtain ⟨hj, nd⟩ := List.nodup_cons.1 nd
    cases sg with
    | cons sg =>
      have ne : j ≠ i := by
        rintro rfl
        exact hj (List.mem_append_right _ List.mem_cons_self)
      apply Seg.cons
      rw [Function.update_of_ne ne]
      exact ih sg nd

/-- A segment is put before a list by one write to its last element. -/
lemma splice [DecidableEq K] {h' : Option K} (sg : Seg next h (l ++ [i]) e) (sl : SList next h' b)
    (nd : (l ++ [i] ++ b).Nodup) : SList (Function.update next i h') h (l ++ [i] ++ b) := by
  obtain ⟨nda, _, dis⟩ := List.nodup_append.1 nd
  apply (sg.relink nda).append
  apply sl.frame
  intro k hk
  apply Function.update_of_ne
  rintro rfl
  exact dis k (List.mem_append_right _ List.mem_cons_self) k hk rfl

/-- A segment that ends nowhere is a list. -/
lemma toSList (sg : Seg next h l none) : SList next h l := by
  have sl := sg.append .nil
  rwa [List.append_nil] at sl

end Seg

/-- A list is a segment that ends nowhere. -/
lemma SList.toSeg (sl : SList next h l) : Seg next h l none := by
  induction sl with
  | nil => exact .nil
  | cons _ ih => exact .cons ih

/-- The first elements of a list, by following links. -/
def follow (next : K → Option K) : Nat → Option K → Option K
  | 0, h => h
  | n + 1, h => follow next n (h.bind next)

/-- Following links reaches the element of that place. -/
lemma follow_eq (sg : Seg next h (l ++ [i]) e) : follow next l.length h = some i := by
  induction l generalizing h with
  | nil => exact sg.start_eq
  | cons j l ih =>
    cases sg with
    | cons sg => exact ih sg

end Links
