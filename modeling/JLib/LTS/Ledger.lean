import JLib.LTS.Custody
import Mathlib.Data.List.Count
import Mathlib.Logic.Function.Basic

/-!
# Counting what is out

A fork-join counter counts the items of a group that are out: an item is counted before it is put
down anywhere and uncounted after it is done. `Ledger` ties the counters to a placement: there is a list
`live` of the items that are out, each place holds items of that list only, each item is at one place, and
the counter of a group is the number of its items in the list. So a counter that reads zero tells that no
item of the group is anywhere.
-/

namespace LTS

variable {P K R : Type*} [DecidableEq R]

/-- The counters count the items that are out. -/
structure Ledger (held : P → List K) (group : K → R) (count : R → Nat) (live : List K) : Prop where
  cus : Custody held
  nodup : live.Nodup
  mem : ∀ {p k}, k ∈ held p → k ∈ live
  count_eq : ∀ r, count r = live.countP (group · = r)

namespace Ledger
variable {held held' : P → List K} {group : K → R} {count : R → Nat} {live : List K} {p q : P} {k : K}

/-- A counter that reads zero has no item anywhere. -/
lemma group_ne (l : Ledger held group count live) {r : R} (h0 : count r = 0) (hk : k ∈ held p) :
    group k ≠ r := by
  intro e
  have pos : 0 < live.countP (group · = r) := by
    apply List.countP_pos_iff.2
    exact ⟨k, l.mem hk, by simpa using e⟩
  rw [← l.count_eq r] at pos
  omega

/-- Items change place. -/
lemma move (l : Ledger held group count live) (ne : p ≠ q)
    (frame : ∀ r, r ≠ p → r ≠ q → held' r = held r)
    (perm : (held' p ++ held' q).Perm (held p ++ held q)) : Ledger held' group count live := by
  refine ⟨l.cus.move ne frame perm.subperm, l.nodup, fun {r k} hk => ?_, l.count_eq⟩
  have back : k ∈ held' p ++ held' q → k ∈ live := by
    intro hk
    rcases List.mem_append.1 (perm.subset hk) with h | h <;> exact l.mem h
  by_cases ep : r = p
  · exact back (List.mem_append_left _ (ep ▸ hk))
  · by_cases eq : r = q
    · exact back (List.mem_append_right _ (eq ▸ hk))
    · rw [frame r ep eq] at hk
      exact l.mem hk

/-- The places are left as they are. -/
lemma congr (l : Ledger held group count live) (h : ∀ p, held' p = held p) :
    Ledger held' group count live := by
  have e : held' = held := funext h
  rwa [e]

/-- An item is counted and put down. -/
lemma put (l : Ledger held group count live) (new : k ∉ live)
    (frame : ∀ r, r ≠ p → held' r = held r) (perm : (held' p).Perm (k :: held p)) :
    Ledger held' group (Function.update count (group k) (count (group k) + 1)) (k :: live) := by
  refine ⟨?_, List.nodup_cons.2 ⟨new, l.nodup⟩, fun {r j} hj => ?_, fun r => ?_⟩
  · exact l.cus.put (fun q hq => new (l.mem hq)) frame perm
  · by_cases er : r = p
    · subst er
      rcases List.mem_cons.1 (perm.subset hj) with e | hj
      · exact e ▸ List.mem_cons_self
      · exact List.mem_cons_of_mem k (l.mem hj)
    · rw [frame r er] at hj
      exact List.mem_cons_of_mem k (l.mem hj)
  · rw [List.countP_cons, ← l.count_eq r]
    by_cases er : r = group k
    · simp [er]
    · simp [er, Ne.symm er]

/-- An item is done and uncounted. -/
lemma done [DecidableEq K] (l : Ledger held group count live) (frame : ∀ r, r ≠ p → held' r = held r)
    (perm : (held p).Perm (k :: held' p)) :
    Ledger held' group (Function.update count (group k) (count (group k) - 1)) (live.erase k) := by
  have hk : k ∈ held p := perm.symm.subset List.mem_cons_self
  have nd : k ∉ held' p := by
    have h := perm.nodup_iff.1 (l.cus.nodup p)
    exact (List.nodup_cons.1 h).1
  have sub : (held' p).Subperm (held p) :=
    (List.sublist_cons_self k (held' p)).subperm.trans perm.symm.subperm
  refine ⟨l.cus.shrink frame sub, l.nodup.erase k, fun {r j} hj => ?_, fun r => ?_⟩
  · have ne : j ≠ k := by
      rintro rfl
      by_cases er : r = p
      · exact nd (er ▸ hj)
      · rw [frame r er] at hj
        exact er (l.cus.unique hj hk)
    refine (List.mem_erase_of_ne ne).2 ?_
    by_cases er : r = p
    · subst er
      exact l.mem (sub.subset hj)
    · rw [frame r er] at hj
      exact l.mem hj
  · rw [List.countP_erase, ← l.count_eq r]
    by_cases er : r = group k
    · simp [er, l.mem hk]
    · simp [er, Ne.symm er]

end Ledger
end LTS
