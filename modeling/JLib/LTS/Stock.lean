import JLib.LTS.Custody
import Mathlib.Logic.Function.Basic

/-!
# Items between taking in and giving out

A reclaimer takes objects in, keeps each of them at one place (a bag, a shared store, the local variables
of a pass) and at last gives it out: the deleter runs. `Stock` is custody of what was taken in together with
the account of it: what is at a place was taken in and not given out, and what was taken in and not given
out is at a place.
-/

namespace LTS

variable {P K : Type*}

/-- Items that were taken in are at one place until they are given out. -/
structure Stock (held : P → List K) (taken spent : K → Bool) : Prop where
  custody : Custody held
  live : ∀ {p k}, k ∈ held p → taken k = true ∧ spent k = false
  gone : ∀ {k}, spent k = true → taken k = true
  all : ∀ {k}, taken k = true → spent k = true ∨ ∃ p, k ∈ held p

namespace Stock
variable {held held' : P → List K} {taken spent : K → Bool}

/-- Nothing was taken in. -/
lemma empty (h : ∀ p, held p = []) (none : ∀ k, taken k = false) (none' : ∀ k, spent k = false) :
    Stock held taken spent := by
  refine ⟨.empty h, fun {p k} hk => ?_, fun {k} hk => ?_, fun {k} hk => ?_⟩
  · rw [h p] at hk
    cases hk
  · rw [none' k] at hk
    cases hk
  · rw [none k] at hk
    cases hk

/-- Items change place. -/
lemma move (stk : Stock held taken spent) (mv : Custody.Moved held held') : Stock held' taken spent := by
  obtain ⟨p, q, ne, frame, perm⟩ := id mv
  refine ⟨stk.custody.move ne frame perm.subperm, fun {r k} h => ?_, stk.gone, fun h => ?_⟩
  · obtain ⟨r', h⟩ := mv.mem.1 ⟨r, h⟩
    exact stk.live h
  · rw [mv.mem]
    exact stk.all h

variable [DecidableEq K]

/-- An item that was not in stock is taken in and put down at a place. -/
lemma put {p : P} {k : K} (stk : Stock held taken spent) (new : taken k = false)
    (frame : ∀ r, r ≠ p → held' r = held r) (perm : (held' p).Perm (k :: held p)) :
    Stock held' (Function.update taken k true) spent := by
  have nowhere : ∀ r, k ∉ held r := by
    intro r h
    rw [(stk.live h).1] at new
    cases new
  have stays : spent k = false := by
    apply Bool.eq_false_iff.2
    intro h
    rw [stk.gone h] at new
    cases new
  have mem : ∀ {r j}, j ∈ held' r → j = k ∨ j ∈ held r := by
    intro r j h
    by_cases e : r = p
    · subst e
      exact List.mem_cons.1 (perm.subset h)
    · rw [frame r e] at h
      exact .inr h
  have keep : ∀ {r j}, j ∈ held r → j ∈ held' r := by
    intro r j h
    by_cases e : r = p
    · subst e
      exact perm.symm.subset (List.mem_cons_of_mem k h)
    · rwa [frame r e]
  refine ⟨stk.custody.put nowhere frame perm, fun {r j} h => ?_, fun {j} h => ?_, fun {j} h => ?_⟩
  · rcases mem h with rfl | h
    · exact ⟨Function.update_self .., stays⟩
    · obtain ⟨tk, live⟩ := stk.live h
      exact ⟨by rw [Function.update_apply, tk, ite_self], live⟩
  · rw [Function.update_apply, stk.gone h, ite_self]
  · by_cases e : j = k
    · exact .inr ⟨p, e ▸ perm.symm.subset List.mem_cons_self⟩
    · rw [Function.update_of_ne e] at h
      rcases stk.all h with h | ⟨r, h⟩
      · exact .inl h
      · exact .inr ⟨r, keep h⟩

/-- An item leaves its place and is given out. -/
lemma spend {p : P} {k : K} (stk : Stock held taken spent) (frame : ∀ r, r ≠ p → held' r = held r)
    (perm : (held p).Perm (k :: held' p)) : Stock held' taken (Function.update spent k true) := by
  have mine : k ∈ held p := perm.symm.subset List.mem_cons_self
  -- the item was only there, and once
  have back : ∀ {r j}, j ∈ held' r → j ∈ held r ∧ j ≠ k := by
    intro r j h
    by_cases e : r = p
    · subst e
      have nd := (perm.nodup_iff).1 (stk.custody.nodup r)
      exact ⟨perm.symm.subset (List.mem_cons_of_mem k h), fun e => (List.nodup_cons.1 nd).1 (e ▸ h)⟩
    · rw [frame r e] at h
      exact ⟨h, fun e' => e (stk.custody.unique (e' ▸ h) mine)⟩
  refine ⟨stk.custody.shrink frame ?_, fun {r j} h => ?_, fun {j} h => ?_, fun {j} h => ?_⟩
  · exact ((List.sublist_cons_self k _).subperm).trans perm.symm.subperm
  · obtain ⟨h, ne⟩ := back h
    rw [Function.update_of_ne ne]
    exact stk.live h
  · rw [Function.update_apply] at h
    split at h
    · rename_i e
      rw [e]
      exact (stk.live mine).1
    · exact stk.gone h
  · rw [Function.update_apply]
    split
    · exact .inl rfl
    · rename_i ne
      rcases stk.all h with h | ⟨r, h⟩
      · exact .inl h
      · refine .inr ⟨r, ?_⟩
        by_cases e : r = p
        · subst e
          exact (List.mem_cons.1 (perm.subset h)).resolve_left ne
        · rwa [frame r e]

/-- An item that was given out can be taken in again. -/
lemma renew {k : K} (stk : Stock held taken spent) (out : spent k = true) :
    Stock held (Function.update taken k false) (Function.update spent k false) := by
  have other : ∀ {p j}, j ∈ held p → j ≠ k := by
    rintro p j h rfl
    rw [(stk.live h).2] at out
    cases out
  refine ⟨stk.custody, fun {p j} h => ?_, fun {j} h => ?_, fun {j} h => ?_⟩
  · rw [Function.update_of_ne (other h), Function.update_of_ne (other h)]
    exact stk.live h
  all_goals
    rw [Function.update_apply] at h ⊢
    split at h
    · cases h
    · rename_i ne
      simp only [if_neg ne]
      first
      | exact stk.gone h
      | exact stk.all h

/-- An item that was given out comes back to a place. -/
lemma restore {p : P} {k : K} (stk : Stock held taken spent) (out : spent k = true)
    (frame : ∀ r, r ≠ p → held' r = held r) (perm : (held' p).Perm (k :: held p)) :
    Stock held' taken (Function.update spent k false) := by
  have back := (stk.renew out).put (Function.update_self ..) frame perm
  rw [Function.update_idem, ← stk.gone out, Function.update_eq_self] at back
  exact back

/-- Items that were not in stock are taken in and put down at one place. -/
lemma putAll [DecidableEq P] {taken' : K → Bool} {p : P} {ks : List K} (stk : Stock held taken spent) (nd : ks.Nodup)
    (new : ∀ k ∈ ks, taken k = false) (taken_iff : ∀ k, taken' k = true ↔ taken k = true ∨ k ∈ ks)
    (frame : ∀ r, r ≠ p → held' r = held r) (perm : (held' p).Perm (ks ++ held p)) :
    Stock held' taken' spent := by
  induction ks generalizing held taken with
  | nil =>
    have same : taken' = taken := by
      funext k
      apply Bool.eq_iff_iff.2
      simpa using taken_iff k
    rw [same]
    refine ⟨stk.custody.shrink frame perm.subperm, fun {r k} h => ?_, stk.gone, fun {k} h => ?_⟩
    · by_cases e : r = p
      · subst e
        exact stk.live (perm.subset h)
      · exact stk.live (frame r e ▸ h)
    · rcases stk.all h with h | ⟨r, h⟩
      · exact .inl h
      · refine .inr ⟨r, ?_⟩
        by_cases e : r = p
        · subst e
          exact perm.symm.subset h
        · rwa [frame r e]
  | cons k ks ih =>
    obtain ⟨out, nd⟩ := List.nodup_cons.1 nd
    have first : Stock (Function.update held p (k :: held p)) (Function.update taken k true) spent := by
      apply stk.put (new k List.mem_cons_self) (fun r h => Function.update_of_ne h ..)
      rw [Function.update_self]
    refine ih first nd (fun j hj => ?_) (fun j => ?_) (fun r h => ?_) ?_
    · have ne : j ≠ k := by
        rintro rfl
        exact out hj
      rw [Function.update_of_ne ne]
      exact new j (List.mem_cons_of_mem _ hj)
    · rw [taken_iff j, Function.update_apply]
      by_cases e : j = k
      · simp [e]
      · simp [e]
    · rw [frame r h, Function.update_of_ne h]
    · rw [Function.update_self]
      exact perm.trans (List.perm_middle.symm)

end Stock
end LTS
