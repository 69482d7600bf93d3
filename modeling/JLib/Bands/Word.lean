import Mathlib.Tactic.Lemma

/-!
# The band word

The pool is cut into bands, `[0, K)` reserved, `[K, K + F)` the awake floor, and the bands are one atomic
word of 8-bit fields (`include/TaskScheduler.h`).
-/

namespace JLib

/-- What a reader of the word sees. -/
structure Bands where
  k : Nat
  f : Nat
  fbase : Nat
  kmin : Nat
  kmax : Nat
  deriving Repr, DecidableEq

end JLib

namespace JLib.Bands

def kBandF : Nat := 0
def kBandFbase : Nat := 8
def kBandK : Nat := 16
def kBandKmax : Nat := 24
def kBandKmin : Nat := 32

def BandField (w : BitVec 64) (sh : Nat) : Nat := ((w >>> sh) &&& 0xFF#64).toNat

/-- A field has eight bits. -/
lemma BandField_lt (w : BitVec 64) (sh : Nat) : BandField w sh < 256 := by
  unfold BandField
  rw [BitVec.toNat_and]
  exact Nat.lt_succ_of_le Nat.and_le_right

/-- `GetBands`: the fields of the word, clamped to a pool of `nw` workers. -/
def GetBands (w : BitVec 64) (nw : Nat) : Bands :=
  let b : Bands := ⟨BandField w kBandK, BandField w kBandF, BandField w kBandFbase,
    BandField w kBandKmin, BandField w kBandKmax⟩
  if nw > 1 then
    let k := if b.k > nw - 1 then nw - 1 else b.k
    { b with k := k, f := if k + b.f > nw then nw - k else b.f }
  else if nw = 1 then { b with k := 0, f := 1 }
  else b

/-! ## Writing a field -/

def BandPut (w : BitVec 64) (sh v : Nat) : BitVec 64 :=
  (w &&& ~~~(0xFF#64 <<< sh)) ||| (BitVec.ofNat 64 (v &&& 0xFF) <<< sh)

/-- A field that was written reads back modulo 256. -/
lemma BandField_put (w : BitVec 64) {sh : Nat} (v : Nat) (h : sh + 8 ≤ 64) :
    BandField (BandPut w sh v) sh = v % 256 := by
  have ones : ∀ i, Nat.testBit 255 i = decide (i < 8) := fun i => Nat.testBit_two_pow_sub_one 8 i
  have low : (BandPut w sh v >>> sh) &&& 0xFF#64 = BitVec.ofNat 64 (v &&& 0xFF) := by
    apply BitVec.eq_of_getLsbD_eq
    intro i hi
    simp only [BandPut, BitVec.getLsbD_and, BitVec.getLsbD_ushiftRight, BitVec.getLsbD_or,
      BitVec.getLsbD_not, BitVec.getLsbD_shiftLeft, BitVec.getLsbD_ofNat, Nat.testBit_and, ones]
    by_cases h8 : i < 8
    · have : sh + i < 64 := by omega
      have : ¬sh + i < sh := by omega
      simp [*]
    · simp [h8]
  have small : v &&& 0xFF = v % 256 := Nat.and_two_pow_sub_one_eq_mod v 8
  unfold BandField
  rw [low, small, BitVec.toNat_ofNat]
  omega

/-- A write leaves all bits outside of its field. -/
lemma BandPut_bit (w : BitVec 64) {sh i : Nat} (v : Nat) (h : i < sh ∨ sh + 8 ≤ i) :
    (BandPut w sh v).getLsbD i = w.getLsbD i := by
  have ones : ∀ i, Nat.testBit 255 i = decide (i < 8) := fun i => Nat.testBit_two_pow_sub_one 8 i
  simp only [BandPut, BitVec.getLsbD_and, BitVec.getLsbD_or, BitVec.getLsbD_not, BitVec.getLsbD_shiftLeft,
    BitVec.getLsbD_ofNat, Nat.testBit_and, ones]
  by_cases hi : i < 64
  · rcases h with h | h
    · simp [h, hi]
    · have : ¬i - sh < 8 := by omega
      simp [this, hi]
  · simp [hi, BitVec.getLsbD_of_ge w i (Nat.not_lt.1 hi)]

/-- A write leaves every field that does not overlap with its own. -/
lemma BandField_put_of_ne (w : BitVec 64) {sh sh' : Nat} (v : Nat) (h : sh' + 8 ≤ sh ∨ sh + 8 ≤ sh') :
    BandField (BandPut w sh v) sh' = BandField w sh' := by
  unfold BandField
  congr 1
  apply BitVec.eq_of_getLsbD_eq
  intro i hi
  simp only [BitVec.getLsbD_and, BitVec.getLsbD_ushiftRight]
  by_cases h8 : i < 8
  · rw [BandPut_bit w v (by omega)]
  · have high : (0xFF#64).getLsbD i = false := by
      rw [BitVec.getLsbD_ofNat, show (0xFF : Nat) = 2 ^ 8 - 1 from rfl, Nat.testBit_two_pow_sub_one]
      simp [h8]
    rw [high, Bool.and_false, Bool.and_false]

/-- `BandsSetK`, from the word its successful exchange read to the word it wrote. -/
def BandsSetK (w : BitVec 64) (k n : Nat) : BitVec 64 :=
  let f := BandField w kBandF
  let kmax := BandField w kBandKmax
  let want := if kmax ≠ 0 ∧ k > kmax then kmax else k
  let room := if n > f + 1 then n - f - 1 else 0
  BandPut w kBandK (if n ≥ 2 ∧ want > room then room else want)

/-- `K` leaves a worker outside of the band if the request did. -/
lemma BandsSetK_lt (w : BitVec 64) {k n : Nat} (h : k < n) :
    BandField (BandsSetK w k n) kBandK < n := by
  have clamp : ∀ {a b : Nat}, a < n → b < n → (if n ≥ 2 ∧ a > b then b else a) < n := by
    intro a b ha hb
    split
    · exact hb
    · exact ha
  unfold BandsSetK
  rw [BandField_put _ _ (by decide)]
  apply Nat.lt_of_le_of_lt (Nat.mod_le _ _)
  apply clamp
  · split <;> omega
  · split <;> omega

end JLib.Bands
