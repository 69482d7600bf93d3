import Mathlib.Algebra.Order.Ring.Int
import Mathlib.Data.List.Nodup
import Mathlib.Data.List.Range
import Mathlib.Tactic.Lemma

/-!
# Words as sets

A machine word read as the set of its bits. `x &&& (x - 1)` takes the lowest bit out of a set, so
clearing `j` bits of a set with more than `j` members leaves a set that is not empty and whose members
were there before: the bit it names next is a member of the set one started from.
-/

namespace Bits

variable {w : Nat} {x : BitVec w} {i j : Nat}

/-- The number of bits that are set. -/
def popCount (x : BitVec w) : Nat := (List.range w).countP x.getLsbD

/-- Take the lowest bit out. -/
def clearLowest (x : BitVec w) : BitVec w := x &&& (x - 1#w)

/-- Take the `j` lowest bits out. -/
def clearLow : Nat → BitVec w → BitVec w
  | 0, x => x
  | j + 1, x => clearLow j (clearLowest x)

/-- A word that is not zero has a bit. -/
lemma popCount_pos : 0 < popCount x ↔ x ≠ 0#w := by
  rw [popCount, List.countP_pos_iff]
  constructor
  · rintro ⟨i, -, hi⟩ rfl
    simp at hi
  · intro hx
    have hc := BitVec.getLsbD_true_ctz_of_ne_zero hx
    exact ⟨x.ctz.toNat, List.mem_range.2 (BitVec.lt_of_getLsbD hc), hc⟩

/-- The borrow of `x - 1` stops at the lowest bit that is set. -/
lemma getLsbD_sub_one (hi : i < w) :
    (x - 1#w).getLsbD i = (x.getLsbD i ^^ decide (x.toNat % 2 ^ i = 0)) := by
  have e : x - 1#w = x + BitVec.allOnes w := by
    rw [BitVec.sub_eq_add_neg, BitVec.neg_one_eq_allOnes]
  have c : BitVec.carry i x (BitVec.allOnes w) false = decide (x.toNat % 2 ^ i ≠ 0) := by
    have h : (2 ^ w - 1) % 2 ^ i = 2 ^ i - 1 := by
      apply Nat.eq_of_testBit_eq
      intro k
      rw [Nat.testBit_mod_two_pow, Nat.testBit_two_pow_sub_one, Nat.testBit_two_pow_sub_one]
      by_cases hk : k < i
      · simp [hk, hk.trans hi]
      · simp [hk]
    unfold BitVec.carry
    rw [BitVec.toNat_allOnes, h]
    have := Nat.two_pow_pos i
    congr 1
    simp
    omega
  rw [e, BitVec.getLsbD_add hi, c]
  simp [hi]

/-- Clearing the lowest bit takes out that bit and no other. -/
lemma getLsbD_clearLowest :
    (clearLowest x).getLsbD i = (x.getLsbD i && decide (i ≠ x.ctz.toNat)) := by
  cases hx : x.getLsbD i with
  | false => simp [clearLowest, hx]
  | true =>
    have hi := BitVec.lt_of_getLsbD hx
    have hz : x ≠ 0#w := by
      rintro rfl
      simp at hx
    rw [clearLowest, BitVec.getLsbD_and, getLsbD_sub_one hi, hx]
    by_cases e : i = x.ctz.toNat
    · -- nothing is set below the lowest bit
      have low : x.toNat % 2 ^ i = 0 := by
        apply Nat.eq_of_testBit_eq
        intro k
        rw [Nat.testBit_mod_two_pow, Nat.zero_testBit]
        by_cases hk : k < i
        · have := BitVec.getLsbD_false_of_lt_ctz (x := x) (i := k) (by omega)
          simp only [hk, decide_true, Bool.true_and]
          exact this
        · simp [hk]
      simp [e ▸ low, e]
    · have lt : x.ctz.toNat < i := by
        by_contra h
        have := BitVec.getLsbD_false_of_lt_ctz (x := x) (i := i) (by omega)
        rw [hx] at this
        cases this
      have low : x.toNat % 2 ^ i ≠ 0 := by
        intro h0
        have hb := Nat.testBit_mod_two_pow x.toNat i x.ctz.toNat
        rw [h0, Nat.zero_testBit] at hb
        have hc := BitVec.getLsbD_true_ctz_of_ne_zero hz
        simp [lt, BitVec.testBit_toNat, hc] at hb
      simp [low, e]

/-- Clearing the lowest bit takes one away. -/
lemma popCount_clearLowest (hx : x ≠ 0#w) : popCount (clearLowest x) = popCount x - 1 := by
  have hc := BitVec.getLsbD_true_ctz_of_ne_zero hx
  have mem : x.ctz.toNat ∈ (List.range w).filter x.getLsbD :=
    List.mem_filter.2 ⟨List.mem_range.2 (BitVec.lt_of_getLsbD hc), hc⟩
  have nd : ((List.range w).filter x.getLsbD).Nodup := List.nodup_range.filter _
  have same : (List.range w).filter (clearLowest x).getLsbD =
      ((List.range w).filter x.getLsbD).erase x.ctz.toNat := by
    rw [nd.erase_eq_filter, List.filter_filter]
    apply List.filter_congr
    intro k _
    rw [getLsbD_clearLowest]
    rw [Bool.and_comm]
    by_cases e : k = x.ctz.toNat <;> simp [e]
  rw [popCount, popCount, List.countP_eq_length_filter, List.countP_eq_length_filter, same,
    List.length_erase_of_mem mem]

/-- Clearing fewer bits than are set leaves a bit that was set before. -/
lemma clearLow_ne_zero (h : j < popCount x) : clearLow j x ≠ 0#w := by
  induction j generalizing x with
  | zero => exact popCount_pos.1 h
  | succ j ih =>
    have hx : x ≠ 0#w := popCount_pos.1 (by omega)
    apply ih
    rw [popCount_clearLowest hx]
    omega

/-- A bit that is left was there. -/
lemma of_clearLow (h : (clearLow j x).getLsbD i = true) : x.getLsbD i = true := by
  induction j generalizing x with
  | zero => exact h
  | succ j ih =>
    have := ih h
    rw [getLsbD_clearLowest] at this
    simp only [Bool.and_eq_true] at this
    exact this.1

end Bits
