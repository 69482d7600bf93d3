import JLib.Links.Segment

/-!
# Linked queues

A queue kept in a start, an end and one link for each element. An element is put behind the last by one
write to the last element's link, or to the start of an empty queue; the first is taken by moving the start.
-/

namespace Links

variable {K : Type*}

/-- The links from `head` spell the list, and `tail` is its last element. -/
structure Fifo (next : K → Option K) (head tail : Option K) (l : List K) : Prop where
  links : SList next head l
  last : tail = l.getLast?
  nodup : l.Nodup

/-- The links after an element is put behind `tail`. -/
def linkLast [DecidableEq K] (next : K → Option K) (tail : Option K) (i : K) : K → Option K :=
  match tail with
  | some j => Function.update next j (some i)
  | none => next

namespace Fifo
variable {next next' : K → Option K} {head tail : Option K} {i : K} {l : List K}

/-- No head and no tail spell the empty queue. -/
lemma empty : Fifo next none none [] := ⟨.nil, rfl, List.nodup_nil⟩

/-- Links outside the queue do not matter. -/
lemma frame (q : Fifo next head tail l) (hn : ∀ k ∈ l, next' k = next k) : Fifo next' head tail l :=
  ⟨q.links.frame hn, q.last, q.nodup⟩

/-- The head is the first element. -/
lemma head_eq (q : Fifo next head tail l) : head = l.head? := q.links.start_eq

/-- A new element is put behind the last. -/
lemma push [DecidableEq K] (q : Fifo next head tail l) (new : i ∉ l) (hi : next i = none) :
    Fifo (linkLast next tail i) (if tail.isSome then head else some i) (some i) (l ++ [i]) := by
  have nd : (l ++ [i]).Nodup := List.nodup_append.2 ⟨q.nodup, List.nodup_singleton i, by
    rintro a ha b hb rfl
    exact new (List.mem_singleton.1 hb ▸ ha)⟩
  have one : SList next (some i) [i] := by
    apply SList.cons
    rw [hi]
    exact .nil
  refine ⟨?_, List.getLast?_concat.symm, nd⟩
  rcases List.eq_nil_or_concat l with rfl | ⟨l, j, rfl⟩
  · rw [q.last]
    exact one
  · rw [List.concat_eq_append] at *
    rw [q.last, List.getLast?_concat]
    exact q.links.toSeg.splice one nd

/-- The first element is taken. -/
lemma pop (q : Fifo next (some i) tail l) :
    ∃ l', l = i :: l' ∧ Fifo next (next i) (if next i = none then none else tail) l' := by
  obtain ⟨links, last, nd⟩ := q
  cases links with
  | @cons _ l links =>
    refine ⟨l, rfl, links, ?_, (List.nodup_cons.1 nd).2⟩
    cases l with
    | nil =>
      rw [links.start_eq, last]
      rfl
    | cons j l =>
      rw [links.start_eq, last, List.getLast?_cons_cons]
      rfl

end Fifo
end Links
