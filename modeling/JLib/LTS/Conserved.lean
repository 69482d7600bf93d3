import JLib.LTS.Custody

/-!
# Conserved items

Items that come in and are never lost or doubled: each item that has come in is at one place, once. A place
where items end, such as the deleter that ran, is a place too.
-/

namespace LTS

variable {P K : Type*}

/-- The items that have come in are those that are at a place, and each is at one place, once. -/
structure Conserved (held : P → List K) (live : List K) : Prop where
  custody : Custody held
  cover : ∀ k, (∃ p, k ∈ held p) ↔ k ∈ live

namespace Conserved
variable {held held' : P → List K} {live : List K} {p q : P} {k : K}

/-- Nothing is held and nothing is live. -/
lemma empty (h : ∀ p, held p = []) : Conserved held [] := by
  refine ⟨.empty h, fun k => ⟨?_, fun mem => absurd mem List.not_mem_nil⟩⟩
  rintro ⟨p, mem⟩
  rw [h p] at mem
  cases mem

/-- Items change between two places. -/
lemma move (con : Conserved held live) (ne : p ≠ q) (frame : ∀ r, r ≠ p → r ≠ q → held' r = held r)
    (perm : (held' p ++ held' q).Perm (held p ++ held q)) : Conserved held' live :=
  ⟨con.custody.move ne frame perm.subperm, fun k => (Custody.mem_move frame perm).trans (con.cover k)⟩

/-- Items leave a place and are put behind those of another. -/
lemma hand {del : List K} (con : Conserved held live) (ne : p ≠ q) (frame : ∀ r, r ≠ p → r ≠ q → held' r = held r)
    (out : (held' p ++ del).Perm (held p)) (into : held' q = held q ++ del) : Conserved held' live := by
  refine con.move ne frame ?_
  rw [into]
  calc held' p ++ (held q ++ del)
    _ |>.Perm (held' p ++ (del ++ held q)) := List.perm_append_comm.append_left _
    _ = held' p ++ del ++ held q := (List.append_assoc ..).symm
    _ |>.Perm (held p ++ held q) := out.append_right _

/-- An item comes in. -/
lemma put (con : Conserved held live) (new : k ∉ live) (frame : ∀ r, r ≠ p → held' r = held r)
    (perm : (held' p).Perm (k :: held p)) : Conserved held' (k :: live) := by
  refine ⟨con.custody.put (fun q mem => new ((con.cover k).1 ⟨q, mem⟩)) frame perm, fun j => ?_⟩
  rw [List.mem_cons, ← con.cover j]
  constructor
  · rintro ⟨r, mem⟩
    by_cases h : r = p
    · subst h
      exact (List.mem_cons.1 (perm.mem_iff.1 mem)).imp id fun mem => ⟨r, mem⟩
    · exact .inr ⟨r, frame r h ▸ mem⟩
  · rintro (rfl | ⟨r, mem⟩)
    · exact ⟨p, perm.mem_iff.2 List.mem_cons_self⟩
    · by_cases h : r = p
      · subst h
        exact ⟨r, perm.mem_iff.2 (List.mem_cons_of_mem _ mem)⟩
      · exact ⟨r, (frame r h).symm ▸ mem⟩

/-- An item that has come in is at exactly one place. -/
lemma one_place (con : Conserved held live) (mem : k ∈ live) : ∃! p, k ∈ held p := by
  obtain ⟨p, here⟩ := (con.cover k).2 mem
  exact ⟨p, here, fun q there => con.custody.unique there here⟩

end Conserved

/-- Items are numbered by how many came in before them. -/
def Numbered (number : K → Nat) (live : List K) : Prop := ∀ k ∈ live, number k < live.length

namespace Numbered
variable {number : K → Nat} {live : List K} {k : K}

/-- The next number is not in use. -/
lemma fresh (num : Numbered number live) (next : number k = live.length) : k ∉ live := fun mem =>
  absurd (num k mem) (next ▸ Nat.lt_irrefl _)

/-- The next number is given out. -/
lemma cons (num : Numbered number live) (next : number k = live.length) : Numbered number (k :: live) := by
  intro j mem
  rw [List.length_cons]
  rcases List.mem_cons.1 mem with rfl | mem
  · exact next ▸ Nat.lt_succ_self _
  · exact Nat.lt_succ_of_lt (num j mem)

end Numbered
end LTS
