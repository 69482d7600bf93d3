import Mathlib.Algebra.BigOperators.Finprod
import Mathlib.Algebra.Order.Ring.Int
import Mathlib.Data.Set.Finite.Basic

/-!
# A balance over the parties

A shared counter is off by what the calls under way have still to add to it. `Balance f b` says that `b` is the
total of what the single parties are off by: all but finitely many are off by nothing. A step of one party
changes the total by what it changes for that party.
-/

namespace LTS

variable {A B M : Type*} [AddCommGroup M] {f g : A → M} {b c : M} {a : A} {x : M}

/-- The entries of `f` add up to `b`. -/
structure Balance (f : A → M) (b : M) : Prop where
  finite : (Function.support f).Finite
  total : finsum f = b

namespace Balance

/-- With nothing anywhere the sum is zero. -/
lemma rest : Balance (fun _ : A => (0 : M)) 0 := by
  refine ⟨?_, finsum_zero⟩
  rw [Function.support_fun_zero]
  exact Set.finite_empty

/-- The sum does not depend on how it is taken. -/
lemma unique (h : Balance f b) (h' : Balance f c) : b = c := by
  rw [← h.total, ← h'.total]

/-- Nobody is off. -/
lemma eq_zero (h : Balance f b) (all : ∀ a, f a = 0) : b = 0 := by
  have e : f = fun _ => 0 := funext all
  subst e
  exact h.unique rest

/-- Over finitely many holders it is the ordinary sum. -/
lemma of_fintype [Fintype A] (f : A → M) : Balance f (∑ a, f a) :=
  ⟨Set.toFinite _, finsum_eq_sum_of_fintype f⟩

variable [DecidableEq A]

/-- One entry changes. -/
lemma set (h : Balance f b) (a : A) (x : M) : Balance (Function.update f a x) (b + (x - f a)) := by
  have single : (Function.support (Pi.single a (x - f a))).Finite := by
    refine (Set.finite_singleton a).subset fun a' ne => ?_
    by_contra other
    exact ne (Pi.single_eq_of_ne other _)
  have split : Function.update f a x = fun a' => f a' + (Pi.single a (x - f a) : A → M) a' := by
    funext a'
    by_cases e : a' = a
    · subst e
      rw [Function.update_self, Pi.single_eq_same, add_sub_cancel]
    · rw [Function.update_of_ne e, Pi.single_eq_of_ne e, add_zero]
  rw [split]
  constructor
  · exact (h.finite.union single).subset (Function.support_add _ _)
  · rw [finsum_add_distrib h.finite single, h.total]
    congr 1
    rw [finsum_eq_single _ a fun a' other => Pi.single_eq_of_ne other _, Pi.single_eq_same]

/-- One party moves, and `w` is what a place is worth. -/
lemma step {loc : A → B} {w : B → M} (h : Balance (fun a => w (loc a)) b) (a : A) (y : B) :
    Balance (fun a' => w (Function.update loc a y a')) (b + (w y - w (loc a))) := by
  have e : (fun a' => w (Function.update loc a y a')) = Function.update (fun a => w (loc a)) a (w y) := by
    funext a'
    exact Function.apply_update (fun _ => w) loc a y a'
  rw [e]
  exact h.set a (w y)

/-- Where nobody is below zero and the total is at most one, one party is above zero. -/
lemma lone {f : A → Int} {b : Int} {a a' : A} (h : Balance f b) (pos : ∀ a, 0 ≤ f a) (one : b ≤ 1)
    (ha : 0 < f a) (ha' : 0 < f a') : a = a' := by
  by_contra ne
  have without := h.set a 0
  have pos' : ∀ j, 0 ≤ Function.update f a 0 j := by
    intro j
    rw [Function.update_apply]
    split
    · exact le_refl 0
    · exact pos j
  have le := single_le_finsum a' without.finite pos'
  rw [without.total, Function.update_of_ne (Ne.symm ne)] at le
  omega

omit [DecidableEq A] in
/-- Where nobody is below zero, nobody is above the total. -/
lemma le_of_nonneg {f : A → Int} {b : Int} (h : Balance f b) (pos : ∀ a, 0 ≤ f a) (a : A) : f a ≤ b := by
  rw [← h.total]
  exact single_le_finsum a h.finite pos

end Balance
end LTS
