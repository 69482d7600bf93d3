import JLib.LTS.Custody

/-!
# Items that are lent

A client lends an item to a system and has it back when the system is done with it. As long as it is lent it is at one
place of the system, once, and an item that is not lent is at none.
-/

namespace LTS

variable {P K : Type*}

/-- The items that are lent are those that are at a place, and each is at one place, once. -/
structure Lent (held : P → List K) (lent : K → Bool) : Prop where
  custody : Custody held
  cover : ∀ k, (∃ p, k ∈ held p) ↔ lent k = true

namespace Lent
variable {held held' : P → List K} {lent : K → Bool} {p q : P} {k : K}

/-- Nothing is held and nothing is lent. -/
lemma empty (h : ∀ p, held p = []) : Lent held fun _ => false := by
  refine ⟨.empty h, fun k => ⟨?_, nofun⟩⟩
  rintro ⟨p, mem⟩
  rw [h p] at mem
  cases mem

/-- What is held is lent. -/
lemma mem (ln : Lent held lent) (here : k ∈ held p) : lent k = true := (ln.cover k).1 ⟨p, here⟩

/-- What is not lent is nowhere. -/
lemma not_mem (ln : Lent held lent) (free : lent k = false) (p : P) : k ∉ held p := by
  intro here
  rw [ln.mem here] at free
  cases free

/-- An item that is lent is at exactly one place. -/
lemma one_place (ln : Lent held lent) (out : lent k = true) : ∃! p, k ∈ held p := by
  obtain ⟨p, here⟩ := (ln.cover k).2 out
  exact ⟨p, here, fun q there => ln.custody.unique there here⟩

/-- Items change between two places. -/
lemma move (ln : Lent held lent) (ne : p ≠ q) (frame : ∀ r, r ≠ p → r ≠ q → held' r = held r)
    (perm : (held' p ++ held' q).Perm (held p ++ held q)) : Lent held' lent :=
  ⟨ln.custody.move ne frame perm.subperm, fun k => (Custody.mem_move frame perm).trans (ln.cover k)⟩

/-- The places are left as they are. -/
lemma congr (ln : Lent held lent) (h : ∀ p, held' p = held p) : Lent held' lent := by
  rwa [funext h]

variable [DecidableEq K]

/-- An item is lent. -/
lemma put (ln : Lent held lent) (free : lent k = false) (frame : ∀ r, r ≠ p → held' r = held r)
    (perm : (held' p).Perm (k :: held p)) : Lent held' (Function.update lent k true) := by
  refine ⟨ln.custody.put (ln.not_mem free) frame perm, fun j => ?_⟩
  by_cases e : j = k
  · subst e
    rw [Function.update_self]
    exact ⟨fun _ => rfl, fun _ => ⟨p, perm.mem_iff.2 List.mem_cons_self⟩⟩
  · rw [Function.update_of_ne e, ← ln.cover j]
    have same : ∀ r, j ∈ held' r ↔ j ∈ held r := by
      intro r
      by_cases er : r = p
      · subst er
        rw [perm.mem_iff, List.mem_cons]
        exact or_iff_right e
      · rw [frame r er]
    exact exists_congr same

/-- An item is given back. -/
lemma drop (ln : Lent held lent) (frame : ∀ r, r ≠ p → held' r = held r) (perm : (held p).Perm (k :: held' p)) :
    Lent held' (Function.update lent k false) := by
  have sub : (held' p).Subperm (held p) := (List.sublist_cons_self k (held' p)).subperm.trans perm.symm.subperm
  have here : k ∈ held p := perm.symm.subset List.mem_cons_self
  have gone : k ∉ held' p := (List.nodup_cons.1 (perm.nodup_iff.1 (ln.custody.nodup p))).1
  refine ⟨ln.custody.shrink frame sub, fun j => ?_⟩
  by_cases e : j = k
  · subst e
    rw [Function.update_self]
    refine ⟨?_, nofun⟩
    rintro ⟨r, mem⟩
    by_cases er : r = p
    · subst er
      exact absurd mem gone
    · rw [frame r er] at mem
      exact absurd (ln.custody.unique mem here) er
  · rw [Function.update_of_ne e, ← ln.cover j]
    have same : ∀ r, j ∈ held' r ↔ j ∈ held r := by
      intro r
      by_cases er : r = p
      · subst er
        rw [perm.mem_iff, List.mem_cons]
        exact (or_iff_right e).symm
      · rw [frame r er]
    exact exists_congr same

end Lent
end LTS
