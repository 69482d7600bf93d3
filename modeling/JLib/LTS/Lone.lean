import Mathlib.Logic.Function.Basic
import Mathlib.Tactic.Lemma
import Mathlib.Tactic.TypeStar

/-!
# At most one party under way

Parties of which at most one is not at its resting place. `Lone z f b` says so of their places `f`, and `b` is
where that party is, or `z` if all rest. An invariant of such a system is a relation between `b` and the rest
of the state, and a step of the one party replaces `b`.
-/

namespace LTS

variable {A B : Type*} {z b c : B} {f : A → B} {a a' : A}

/-- Everybody rests but for one party, which is at `b`. -/
def Lone (z : B) (f : A → B) (b : B) : Prop :=
  (∀ a, f a = z) ∧ b = z ∨ ∃ a, f a = b ∧ ∀ a', a' ≠ a → f a' = z

namespace Lone

/-- All are at rest. -/
lemma rest (z : B) : Lone z (fun _ : A => z) z := .inl ⟨fun _ => rfl, rfl⟩

/-- Who does not rest is where the one party is. -/
lemma eq_of_ne (h : Lone z f b) (ne : f a ≠ z) : f a = b := by
  rcases h with ⟨all, -⟩ | ⟨a', here, others⟩
  · exact absurd (all a) ne
  · by_contra no
    refine ne (others a fun e => no ?_)
    rw [e]
    exact here

/-- Two that are not at rest are one. -/
lemma unique (h : Lone z f b) (ne : f a ≠ z) (ne' : f a' ≠ z) : a = a' := by
  rcases h with ⟨all, -⟩ | ⟨a₀, -, others⟩
  · exact absurd (all a) ne
  · have e : a = a₀ := by_contra fun no => ne (others a no)
    have e' : a' = a₀ := by_contra fun no => ne' (others a' no)
    rw [e, e']

/-- If the lone value is the rest, all are at rest. -/
lemma all_rest (h : Lone z f z) (a : A) : f a = z := by
  rcases h with ⟨all, -⟩ | ⟨a₀, here, others⟩
  · exact all a
  · by_cases e : a = a₀
    · rw [e]
      exact here
    · exact others a e

/-- If all are at rest, so is the lone one. -/
lemma eq_rest (h : Lone z f b) (all : ∀ a, f a = z) : b = z := by
  rcases h with ⟨-, e⟩ | ⟨a, here, -⟩
  · exact e
  · rw [← here]
    exact all a

/-- The one party goes on. -/
lemma move [DecidableEq A] (h : Lone z f b) (ne : f a ≠ z) : Lone z (Function.update f a c) c := by
  refine .inr ⟨a, Function.update_self .., fun a' other => ?_⟩
  rw [Function.update_of_ne other]
  by_contra ne'
  exact other (h.unique ne' ne)

/-- A party sets out. -/
lemma enter [DecidableEq A] (h : Lone z f z) : Lone z (Function.update f a c) c := by
  refine .inr ⟨a, Function.update_self .., fun a' other => ?_⟩
  rw [Function.update_of_ne other]
  exact h.all_rest a'

end Lone
end LTS
