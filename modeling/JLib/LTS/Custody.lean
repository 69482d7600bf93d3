import Mathlib.Data.List.Nodup
import Mathlib.Data.List.Perm.Subperm
import Mathlib.Logic.Function.Basic
import Mathlib.Tactic.Lemma
import Mathlib.Tactic.TypeStar

/-!
# Custody of items

A waiting item (a queued waiter, a parked fiber, a task) is at one place at a time: in a queue, or in
the local variables of the one thread that took it out. `Custody held` says that of a placement
`held : P → List K`: no place holds an item twice and no two places hold the same item. The lemmas
are the moves a program makes: an item that is nowhere is put down, items change place, items leave.
-/

namespace LTS

variable {P K : Type*}

/-- Every item is at most at one place, and there at most once. -/
structure Custody (held : P → List K) : Prop where
  nodup : ∀ p, (held p).Nodup
  unique : ∀ {p q k}, k ∈ held p → k ∈ held q → p = q

namespace Custody
variable {held held' : P → List K}

/-- An empty placement is in custody. -/
lemma empty (h : ∀ p, held p = []) : Custody held := by
  refine ⟨fun p => ?_, fun {p q k} hp _ => ?_⟩
  · rw [h p]
    exact List.nodup_nil
  · rw [h p] at hp
    exact absurd hp List.not_mem_nil

/-- A list inside a duplicate-free list, up to order, is duplicate-free. -/
lemma nodup_of_subperm {l l' : List K} (sub : l.Subperm l') (nd : l'.Nodup) : l.Nodup := by
  obtain ⟨m, perm, sl⟩ := sub
  exact perm.nodup_iff.1 (nd.sublist sl)

/-- Containment up to order is kept by a map. -/
lemma subperm_map {J : Type*} (f : J → K) {l l' : List J} (sub : l.Subperm l') :
    (l.map f).Subperm (l'.map f) := by
  obtain ⟨m, perm, sl⟩ := sub
  exact ⟨m.map f, perm.map f, sl.map f⟩

/-- Items of two places change between the two or leave; every other place is untouched. -/
lemma move (cus : Custody held) {p q : P} (ne : p ≠ q)
    (frame : ∀ r, r ≠ p → r ≠ q → held' r = held r)
    (sub : (held' p ++ held' q).Subperm (held p ++ held q)) : Custody held' := by
  have nd : (held p ++ held q).Nodup := by
    refine List.nodup_append.2 ⟨cus.nodup p, cus.nodup q, ?_⟩
    rintro a ha b hb rfl
    exact ne (cus.unique ha hb)
  have nd' : (held' p ++ held' q).Nodup := nodup_of_subperm sub nd
  obtain ⟨ndp, ndq, dis⟩ := List.nodup_append.1 nd'
  have back : ∀ k, k ∈ held' p ∨ k ∈ held' q → k ∈ held p ∨ k ∈ held q := by
    intro k hk
    exact List.mem_append.1 (sub.subset (List.mem_append.2 hk))
  refine ⟨fun r => ?_, fun {r r' k} hr hr' => ?_⟩
  · by_cases h1 : r = p
    · subst h1; exact ndp
    · by_cases h2 : r = q
      · subst h2; exact ndq
      · rw [frame r h1 h2]
        exact cus.nodup r
  · -- both places inside `{p, q}`, both outside, or one of each: the last is refuted by `unique`
    have out : ∀ {r}, r ≠ p → r ≠ q → k ∈ held' r → ¬(k ∈ held' p ∨ k ∈ held' q) := by
      intro r h1 h2 hk hpq
      rw [frame r h1 h2] at hk
      rcases back k hpq with h | h
      · exact h1 (cus.unique hk h)
      · exact h2 (cus.unique hk h)
    by_cases h1 : r = p <;> by_cases h2 : r = q <;> by_cases h3 : r' = p <;> by_cases h4 : r' = q
    all_goals first
      | (subst_vars; rfl)
      | (subst_vars; exact (dis _ hr _ hr' rfl).elim)
      | (subst_vars; exact (dis _ hr' _ hr rfl).elim)
      | (subst_vars; exact (out h3 h4 hr' (.inl hr)).elim)
      | (subst_vars; exact (out h3 h4 hr' (.inr hr)).elim)
      | (subst_vars; exact (out h1 h2 hr (.inl hr')).elim)
      | (subst_vars; exact (out h1 h2 hr (.inr hr')).elim)
      | skip
    rw [frame r h1 h2] at hr
    rw [frame r' h3 h4] at hr'
    exact cus.unique hr hr'

/-- Items of one place leave or are reordered; every other place is untouched. -/
lemma shrink (cus : Custody held) {p : P} (frame : ∀ r, r ≠ p → held' r = held r)
    (sub : (held' p).Subperm (held p)) : Custody held' := by
  refine ⟨fun r => ?_, fun {r r' k} hr hr' => ?_⟩
  · by_cases h : r = p
    · subst h; exact nodup_of_subperm sub (cus.nodup r)
    · rw [frame r h]
      exact cus.nodup r
  · have back : ∀ {r}, k ∈ held' r → k ∈ held r := by
      intro r hk
      by_cases h : r = p
      · subst h; exact sub.subset hk
      · rwa [frame r h] at hk
    exact cus.unique (back hr) (back hr')

/-- An item that is nowhere is put down at one place. -/
lemma put (cus : Custody held) {p : P} {k : K} (new : ∀ q, k ∉ held q)
    (frame : ∀ r, r ≠ p → held' r = held r)
    (perm : (held' p).Perm (k :: held p)) : Custody held' := by
  have mem : ∀ {r j}, j ∈ held' r → j ∈ held r ∨ (j = k ∧ r = p) := by
    intro r j hj
    by_cases h : r = p
    · subst h
      rcases List.mem_cons.1 (perm.subset hj) with e | hj
      · exact .inr ⟨e, rfl⟩
      · exact .inl hj
    · rw [frame r h] at hj
      exact .inl hj
  refine ⟨fun r => ?_, fun {r r' j} hr hr' => ?_⟩
  · by_cases h : r = p
    · subst h
      exact (perm.nodup_iff).2 (List.nodup_cons.2 ⟨new r, cus.nodup r⟩)
    · rw [frame r h]
      exact cus.nodup r
  · rcases mem hr with h | ⟨rfl, rfl⟩ <;> rcases mem hr' with h' | ⟨e, rfl⟩
    · exact cus.unique h h'
    · subst e; exact absurd h (new _)
    · exact absurd h' (new _)
    · rfl

/-- New items are put down at one place. -/
lemma puts [DecidableEq P] (cus : Custody held) {p : P} {ks : List K} (nd : ks.Nodup)
    (new : ∀ k ∈ ks, ∀ q, k ∉ held q) : Custody (Function.update held p (held p ++ ks)) := by
  induction ks generalizing held with
  | nil =>
    rw [List.append_nil, Function.update_eq_self]
    exact cus
  | cons k ks ih =>
    obtain ⟨fresh, nd⟩ := List.nodup_cons.1 nd
    have one : Custody (Function.update held p (held p ++ [k])) := by
      refine cus.put (new k List.mem_cons_self) (fun r ne => Function.update_of_ne ne _ _) ?_
      rw [Function.update_self]
      exact List.perm_append_singleton k (held p)
    have rest := ih one nd fun j mem q here => by
      by_cases e : q = p
      · subst e
        rw [Function.update_self] at here
        rcases List.mem_append.1 here with old | last
        · exact new j (List.mem_cons_of_mem k mem) q old
        · exact fresh (List.mem_singleton.1 last ▸ mem)
      · rw [Function.update_of_ne e] at here
        exact new j (List.mem_cons_of_mem k mem) q here
    rw [Function.update_self, Function.update_idem, List.append_assoc] at rest
    exact rest

/-- What two places hold is only moved between them: the same items are somewhere. -/
lemma mem_move {p q : P} (frame : ∀ r, r ≠ p → r ≠ q → held' r = held r)
    (perm : (held' p ++ held' q).Perm (held p ++ held q)) {k : K} :
    (∃ r, k ∈ held' r) ↔ ∃ r, k ∈ held r := by
  have both : k ∈ held' p ∨ k ∈ held' q ↔ k ∈ held p ∨ k ∈ held q := by
    rw [← List.mem_append, perm.mem_iff, List.mem_append]
  constructor
  · rintro ⟨r, hr⟩
    by_cases h1 : r = p
    · exact (both.1 (.inl (h1 ▸ hr))).elim (fun h => ⟨p, h⟩) fun h => ⟨q, h⟩
    by_cases h2 : r = q
    · exact (both.1 (.inr (h2 ▸ hr))).elim (fun h => ⟨p, h⟩) fun h => ⟨q, h⟩
    rw [frame r h1 h2] at hr
    exact ⟨r, hr⟩
  · rintro ⟨r, hr⟩
    by_cases h1 : r = p
    · exact (both.2 (.inl (h1 ▸ hr))).elim (fun h => ⟨p, h⟩) fun h => ⟨q, h⟩
    by_cases h2 : r = q
    · exact (both.2 (.inr (h2 ▸ hr))).elim (fun h => ⟨p, h⟩) fun h => ⟨q, h⟩
    rw [← frame r h1 h2] at hr
    exact ⟨r, hr⟩

/-- Items change between two places; every other place is untouched. -/
def Moved (held held' : P → List K) : Prop :=
  ∃ p q, p ≠ q ∧ (∀ r, r ≠ p → r ≠ q → held' r = held r) ∧ (held' p ++ held' q).Perm (held p ++ held q)

/-- A move between two places loses and adds nothing. -/
lemma Moved.mem (mv : Moved held held') {k : K} : (∃ r, k ∈ held' r) ↔ ∃ r, k ∈ held r := by
  obtain ⟨p, q, _, frame, perm⟩ := mv
  exact mem_move frame perm

/-- What is said of the items by a function moves with them. -/
lemma Moved.map {J : Type*} (mv : Moved held held') (f : K → J) :
    Moved (fun p => (held p).map f) (fun p => (held' p).map f) := by
  obtain ⟨p, q, ne, frame, perm⟩ := mv
  refine ⟨p, q, ne, fun r h h' => congrArg (List.map f) (frame r h h'), ?_⟩
  rw [← List.map_append, ← List.map_append]
  exact perm.map f

/-- A placement that agrees everywhere is in custody. -/
lemma congr (cus : Custody held) (h : ∀ p, held' p = held p) : Custody held' := by
  have e : held' = held := funext h
  rwa [e]

end Custody
end LTS
