import Mathlib.Algebra.BigOperators.Group.Finset.Piecewise
import Mathlib.Algebra.Order.Ring.Int
import Mathlib.Data.Int.Interval
import Mathlib.Tactic.Lemma

/-!
# Tilings of an interval

Half-open intervals of integers, as pairs. `cover l i` counts the intervals of the list that have `i`, and a list
tiles `[a, b)` if it covers every element of it once and nothing else. The order of the list does not matter, so
a tiling is cut and rearranged freely.
-/

namespace Intervals

/-- How many of the intervals have `i`. -/
def cover (l : List (Int × Int)) (i : Int) : Nat := l.countP fun r => r.1 ≤ i ∧ i < r.2

/-- The intervals are the parts of `[a, b)`. -/
structure Tiles (l : List (Int × Int)) (a b : Int) : Prop where
  pos : ∀ r ∈ l, r.1 < r.2
  once : ∀ i, cover l i = if a ≤ i ∧ i < b then 1 else 0

variable {l l' : List (Int × Int)} {a b lo hi m i : Int} {r : Int × Int}

/-- The interval, if it is not empty. -/
def piece (a b : Int) : List (Int × Int) := if a < b then [(a, b)] else []

/-- No intervals cover nothing. -/
@[simp] lemma cover_nil : cover [] i = 0 := rfl

/-- One more interval covers its own points once more. -/
lemma cover_cons : cover (r :: l) i = cover l i + if r.1 ≤ i ∧ i < r.2 then 1 else 0 := by
  unfold cover
  rw [List.countP_cons]
  simp only [decide_eq_true_eq]

/-- Covers add up. -/
lemma cover_append : cover (l ++ l') i = cover l i + cover l' i := List.countP_append

/-- One interval covers its points once. -/
lemma cover_single : cover [r] i = if r.1 ≤ i ∧ i < r.2 then 1 else 0 := by
  rw [cover_cons, cover_nil, Nat.zero_add]

/-- A piece covers its points once, also if it is empty. -/
lemma cover_piece : cover (piece a b) i = if a ≤ i ∧ i < b then 1 else 0 := by
  unfold piece
  split
  · exact cover_single
  · rw [cover_nil, if_neg (by omega)]

/-- A piece that is there is not empty. -/
lemma mem_piece (h : r ∈ piece a b) : r.1 < r.2 := by
  unfold piece at h
  split at h
  · rw [List.mem_singleton.1 h]
    assumption
  · cases h

/-- The order of the intervals does not matter. -/
lemma cover_perm (p : l.Perm l') : cover l i = cover l' i := p.countP_eq _

namespace Tiles

/-- The order of the intervals does not matter. -/
lemma perm (t : Tiles l a b) (p : l.Perm l') : Tiles l' a b :=
  ⟨fun r h => t.pos r (p.mem_iff.2 h), fun i => by rw [← cover_perm p, t.once i]⟩

/-- A tiling is known by what it covers. -/
lemma congr (t : Tiles l a b) (pos : ∀ r ∈ l', r.1 < r.2) (same : ∀ i, cover l' i = cover l i) : Tiles l' a b :=
  ⟨pos, fun i => (same i).trans (t.once i)⟩

/-- One interval tiles itself. -/
lemma one (h : a < b) : Tiles [(a, b)] a b := by
  refine ⟨fun r hr => ?_, fun i => ?_⟩
  · rw [List.mem_singleton.1 hr]
    exact h
  · rw [cover_cons, cover_nil, Nat.zero_add]

/-- Every part lies within. -/
lemma within (t : Tiles l a b) (h : r ∈ l) : a ≤ r.1 ∧ r.2 ≤ b := by
  have pos := t.pos r h
  have has : ∀ i, r.1 ≤ i → i < r.2 → a ≤ i ∧ i < b := by
    intro i h₁ h₂
    by_contra no
    have none := t.once i
    rw [if_neg no] at none
    have here : 0 < cover l i := List.countP_pos_iff.2 ⟨r, h, by simp [h₁, h₂]⟩
    omega
  have := has r.1 (Int.le_refl _) pos
  have := has (r.2 - 1) (by omega) (by omega)
  omega

/-- The lengths of the parts add up. -/
lemma sum (t : Tiles l a b) : (l.map fun r => (r.2 - r.1).toNat).sum = (b - a).toNat := by
  have parts : ∀ l : List (Int × Int), (∀ r ∈ l, a ≤ r.1 ∧ r.2 ≤ b) →
      ∑ i ∈ Finset.Ico a b, cover l i = (l.map fun r => (r.2 - r.1).toNat).sum := by
    intro l within
    induction l with
    | nil => simp
    | cons r l ih =>
      obtain ⟨h₁, h₂⟩ := within r List.mem_cons_self
      have inner : (Finset.Ico a b).filter (fun i => r.1 ≤ i ∧ i < r.2) = Finset.Ico r.1 r.2 := by
        ext i
        rw [Finset.mem_filter, Finset.mem_Ico, Finset.mem_Ico]
        omega
      simp only [cover_cons, List.map_cons, List.sum_cons]
      rw [Finset.sum_add_distrib, ih fun r hr => within r (List.mem_cons_of_mem _ hr), ← Finset.card_filter, inner,
        Int.card_Ico, Nat.add_comm]
  rw [← parts l fun r hr => t.within hr]
  have ones : ∀ i ∈ Finset.Ico a b, cover l i = 1 := by
    intro i hi
    rw [t.once i, if_pos (Finset.mem_Ico.1 hi)]
  rw [Finset.sum_congr rfl ones, ← Finset.card_eq_sum_ones, Int.card_Ico]

/-- There is room for so many parts of some length. -/
lemma length_le {n : Nat} (t : Tiles (l ++ l') a b) (long : ∀ r ∈ l, (n : Int) ≤ r.2 - r.1) :
    n * l.length ≤ (b - a).toNat := by
  rw [← t.sum, List.map_append, List.sum_append]
  refine Nat.le_trans ?_ (Nat.le_add_right _ _)
  clear t
  induction l with
  | nil => exact Nat.zero_le _
  | cons r l ih =>
    have first := long r List.mem_cons_self
    have rest := ih fun r hr => long r (List.mem_cons_of_mem _ hr)
    rw [List.length_cons, List.map_cons, List.sum_cons]
    rw [Nat.mul_succ]
    omega

end Tiles
end Intervals
