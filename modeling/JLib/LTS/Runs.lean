import Mathlib.Tactic.Lemma
import Mathlib.Tactic.TypeStar

/-!
# Runs of a labelled step relation

The interleaving models of this development are labelled step relations `step : σ → α → σ → Prop`.
A run is a chain of steps each of which meets a side condition `ok` on the state it starts from and
on its label; `Reaches` is the unconditional case. Safety results are all proved through
`Runs.invariant`: what the initial state has and every admitted step keeps holds along the run.
-/

namespace LTS

variable {σ α : Type*}

/-- Runs from `s` whose every step meets `ok`. -/
inductive Runs (step : σ → α → σ → Prop) (ok : σ → α → Prop) (s : σ) : σ → Prop where
  | refl :
    Runs step ok s s
  | tail {t a u} :
    Runs step ok s t →
    ok t a →
    step t a u →
    Runs step ok s u

/-- Runs without a side condition. -/
abbrev Reaches (step : σ → α → σ → Prop) : σ → σ → Prop :=
  Runs step fun _ _ => True

variable {step : σ → α → σ → Prop} {ok ok' : σ → α → Prop} {s t u : σ}

/-- What the first state has and every admitted step keeps holds along the run. -/
lemma Runs.invariant {I : σ → Prop} (init : I s)
    (pres : ∀ {t a u}, I t → ok t a → step t a u → I u) (rn : Runs step ok s t) : I t := by
  induction rn with
  | refl => exact init
  | tail _ hok st ih => exact pres ih hok st

/-- A run under a condition is a run under any weaker one. -/
lemma Runs.mono (h : ∀ t a, ok t a → ok' t a) (rn : Runs step ok s t) : Runs step ok' s t := by
  induction rn with
  | refl => exact .refl
  | tail _ hok st ih => exact ih.tail (h _ _ hok) st

/-- Forgetting the side condition. -/
lemma Runs.reaches (rn : Runs step ok s t) : Reaches step s t :=
  rn.mono fun _ _ _ => trivial

/-- Runs compose. -/
lemma Runs.trans (r1 : Runs step ok s t) (r2 : Runs step ok t u) : Runs step ok s u := by
  induction r2 with
  | refl => exact r1
  | tail _ hok st ih => exact ih.tail hok st

/-- One more step, its label given. -/
lemma Runs.next (rn : Runs step ok s t) (a : α) (hok : ok t a) (st : step t a u) :
    Runs step ok s u :=
  rn.tail hok st

/-- A run under another condition, from where this one has come. -/
lemma Runs.again (_ : Runs step ok s t) : Runs step ok' t t :=
  .refl

/-- Where every admitted step lowers a number, every run is finite. -/
lemma acc_of_descent {I : Nat → σ → Prop} {n : Nat}
    (desc : ∀ {n t a u}, I n t → ok t a → step t a u → ∃ m, m < n ∧ I m u) (h : I n s) :
    Acc (fun u t => ∃ a, ok t a ∧ step t a u) s := by
  induction n using Nat.strongRecOn generalizing s with
  | ind n ih =>
    constructor
    rintro u ⟨a, hok, st⟩
    obtain ⟨m, lt, h'⟩ := desc h hok st
    exact ih m lt h'

end LTS
