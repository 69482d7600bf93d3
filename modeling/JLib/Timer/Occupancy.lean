import JLib.Timer.Model
import JLib.Bits.Cyclic
import Mathlib.Tactic.IntervalCases

/-!
# The occupancy bitmap

What the scans over the bitmap return, in terms of the set of occupied slots: `LevelEmpty` whether it is
empty, `NextOccupied` its first member at or after a slot, going round once.
-/

namespace JLib.Timer.Impl
open Bits

variable {q : Impl} {l s i start : Nat}

/-- The bit of a slot. -/
def Occupied (q : Impl) (l s : Nat) : Prop := (q.occ l (s / 64)).getLsbD (s % 64) = true

instance (q : Impl) (l s : Nat) : Decidable (q.Occupied l s) := by
  unfold Occupied
  infer_instance

/-- The bit is set and the others are left. -/
lemma MarkOccupied_iff {l' s' : Nat} :
    (q.MarkOccupied l s).Occupied l' s' ↔ (l' = l ∧ s' = s) ∨ q.Occupied l' s' := by
  unfold Occupied MarkOccupied setOcc
  by_cases e : l' = l ∧ s' / 64 = s / 64
  · obtain ⟨rfl, e⟩ := e
    simp only [e, and_self, if_true, BitVec.getLsbD_or, BitVec.getLsbD_twoPow, Bool.or_eq_true,
      Bool.and_eq_true, decide_eq_true_eq, true_and]
    have h : s' = s ↔ s' % 64 = s % 64 := by omega
    rw [h]
    have : s % 64 < 64 := Nat.mod_lt _ (by decide)
    constructor
    · rintro (h | ⟨-, h⟩)
      · exact .inr h
      · exact .inl h.symm
    · rintro (h | h)
      · exact .inr ⟨by omega, h.symm⟩
      · exact .inl h
  · simp only [e, if_false]
    constructor
    · exact .inr
    · rintro (⟨rfl, rfl⟩ | h)
      · exact absurd ⟨rfl, rfl⟩ e
      · exact h

/-- The bit is cleared and the others are left. -/
lemma MarkEmpty_iff {l' s' : Nat} :
    (q.MarkEmpty l s).Occupied l' s' ↔ ¬(l' = l ∧ s' = s) ∧ q.Occupied l' s' := by
  unfold Occupied MarkEmpty setOcc
  by_cases e : l' = l ∧ s' / 64 = s / 64
  · obtain ⟨rfl, e⟩ := e
    have hs : s' % 64 < 64 := Nat.mod_lt _ (by decide)
    simp only [e, and_self, if_true, BitVec.getLsbD_and, BitVec.getLsbD_not,
      BitVec.getLsbD_twoPow, hs, decide_true, Bool.true_and, Bool.and_eq_true,
      Bool.not_eq_true', Bool.and_eq_false_iff, decide_eq_false_iff_not, true_and]
    have h : s' = s ↔ s' % 64 = s % 64 := by omega
    rw [h]
    have : s % 64 < 64 := Nat.mod_lt _ (by decide)
    constructor
    · rintro ⟨h, h' | h'⟩
      · exact absurd this h'
      · exact ⟨fun e => h' e.symm, h⟩
    · rintro ⟨h, h'⟩
      exact ⟨h', .inr fun e => h e.symm⟩
  · simp only [e, if_false]
    constructor
    · intro h
      refine ⟨?_, h⟩
      rintro ⟨rfl, rfl⟩
      exact e ⟨rfl, rfl⟩
    · exact And.right

/-- A word of zero has no occupied slot. -/
lemma occ_eq_zero_iff {w : Nat} : q.occ l w = 0 ↔ ∀ k < 64, ¬q.Occupied l (w * 64 + k) := by
  constructor
  · intro h k hk
    have e : (w * 64 + k) / 64 = w := by omega
    simp [Occupied, e, h]
  · intro h
    apply BitVec.eq_of_getLsbD_eq
    intro k hk
    have := h k hk
    have e : (w * 64 + k) / 64 = w := by omega
    have e' : (w * 64 + k) % 64 = k := by omega
    simp only [Occupied, e, e', Bool.not_eq_true] at this
    rw [this]
    simp

/-- An empty level has no occupied slot. -/
lemma LevelEmpty_iff : q.LevelEmpty l = true ↔ ∀ s < kSlots, ¬q.Occupied l s := by
  simp only [LevelEmpty, kOccWords, List.all_eq_true, List.mem_range, beq_iff_eq]
  constructor
  · intro h s hs
    have := occ_eq_zero_iff.1 (h (s / 64) (by unfold kSlots at hs; omega)) (s % 64)
      (Nat.mod_lt _ (by decide))
    have e : s / 64 * 64 + s % 64 = s := by omega
    rwa [e] at this
  · intro h w hw
    exact occ_eq_zero_iff.2 fun k hk => h _ (by unfold kSlots; omega)

/-- The lowest bit of a part of a word. -/
lemma lowest {x : BitVec 64} (hx : x ≠ 0) :
    x.ctz.toNat < 64 ∧ x.getLsbD x.ctz.toNat = true ∧
      ∀ k, x.getLsbD k = true → x.ctz.toNat ≤ k := by
  have hc := BitVec.getLsbD_true_ctz_of_ne_zero hx
  refine ⟨BitVec.lt_of_getLsbD hc, hc, fun k hk => ?_⟩
  by_contra lt
  rw [BitVec.getLsbD_false_of_lt_ctz (by omega)] at hk
  cases hk

/-- The bits a word keeps under a mask of the positions `P`: the lowest is the first slot of the word
among them, and no bit is left only if there is none. -/
lemma part_spec {w : Nat} {x : BitVec 64} {P : Nat → Prop}
    (hx : ∀ k < 64, x.getLsbD k = true ↔ P k ∧ q.Occupied l (w * 64 + k)) :
    (x = 0 → ∀ s, q.Occupied l s → s / 64 = w → ¬P (s % 64)) ∧
    (x ≠ 0 → x.ctz.toNat < 64 ∧ P x.ctz.toNat ∧ q.Occupied l (w * 64 + x.ctz.toNat) ∧
      ∀ s, q.Occupied l s → s / 64 = w → P (s % 64) → x.ctz.toNat ≤ s % 64) := by
  have bit : ∀ s, q.Occupied l s → s / 64 = w → P (s % 64) → x.getLsbD (s % 64) = true := by
    intro s hs hw hP
    have e : w * 64 + s % 64 = s := by omega
    exact (hx _ (Nat.mod_lt _ (by decide))).2 ⟨hP, by rwa [e]⟩
  constructor
  · rintro rfl s hs hw hP
    have := bit s hs hw hP
    simp at this
  · intro ne
    obtain ⟨lt, on, least⟩ := lowest ne
    obtain ⟨hP, ho⟩ := (hx _ lt).1 on
    exact ⟨lt, hP, ho, fun s hs hw hP => least _ (bit s hs hw hP)⟩

/-- The bits of a word are its occupied slots. -/
lemma occ_spec (q : Impl) (l w : Nat) (k : Nat) (hk : k < 64) :
    (q.occ l w).getLsbD k = true ↔ True ∧ q.Occupied l (w * 64 + k) := by
  have e : (w * 64 + k) / 64 = w := by omega
  have e' : (w * 64 + k) % 64 = k := by omega
  simp [Occupied, e, e']

/-- The bits from `b` on are the occupied slots from there on. -/
lemma high_spec (q : Impl) (l w b : Nat) (k : Nat) (hk : k < 64) :
    (q.occ l w &&& BitVec.allOnes 64 <<< b).getLsbD k = true ↔
      b ≤ k ∧ q.Occupied l (w * 64 + k) := by
  have e := occ_spec q l w k hk
  have lt : k - b < 64 := by omega
  simp only [BitVec.getLsbD_and, BitVec.getLsbD_shiftLeft, BitVec.getLsbD_allOnes, Bool.and_eq_true,
    Bool.not_eq_true', decide_eq_true_eq, decide_eq_false_iff_not, e, hk, lt, true_and, and_true,
    not_lt]
  exact and_comm

/-- The bits under `b` are the occupied slots under it. -/
lemma low_spec (q : Impl) (l w b : Nat) (k : Nat) (hk : k < 64) :
    (q.occ l w &&& ~~~(BitVec.allOnes 64 <<< b)).getLsbD k = true ↔
      k < b ∧ q.Occupied l (w * 64 + k) := by
  have e := occ_spec q l w k hk
  have lt : k - b < 64 := by omega
  simp only [BitVec.getLsbD_and, BitVec.getLsbD_not, BitVec.getLsbD_shiftLeft,
    BitVec.getLsbD_allOnes, Bool.and_eq_true, Bool.not_eq_true', Bool.and_eq_false_iff,
    Bool.not_eq_false', decide_eq_true_eq, decide_eq_false_iff_not, e, hk, lt, true_and,
    not_true_eq_false, or_false, false_or]
  exact and_comm

/-- A whole word. -/
lemma word_spec (q : Impl) (l w : Nat) :
    (q.occ l w = 0 → ∀ s, q.Occupied l s → s / 64 ≠ w) ∧
    (q.occ l w ≠ 0 → (q.occ l w).ctz.toNat < 64 ∧ q.Occupied l (w * 64 + (q.occ l w).ctz.toNat) ∧
      ∀ s, q.Occupied l s → s / 64 = w → (q.occ l w).ctz.toNat ≤ s % 64) := by
  obtain ⟨none, some⟩ := part_spec (occ_spec q l w)
  refine ⟨fun h s hs hw => none h s hs hw trivial, fun h => ?_⟩
  obtain ⟨lt, -, ho, least⟩ := some h
  exact ⟨lt, ho, fun s hs hw => least s hs hw trivial⟩

/-- The search, word by word: the rest of the first word, the three others, and the first up to the start. -/
lemma NextOccupied_eq :
    q.NextOccupied l start =
      if q.occ l (start / 64) &&& BitVec.allOnes 64 <<< (start % 64) ≠ 0 then
        start / 64 * 64 +
          (q.occ l (start / 64) &&& BitVec.allOnes 64 <<< (start % 64)).ctz.toNat
      else if q.occ l ((start / 64 + 1) % 4) ≠ 0 then
        (start / 64 + 1) % 4 * 64 + (q.occ l ((start / 64 + 1) % 4)).ctz.toNat
      else if q.occ l ((start / 64 + 2) % 4) ≠ 0 then
        (start / 64 + 2) % 4 * 64 + (q.occ l ((start / 64 + 2) % 4)).ctz.toNat
      else if q.occ l ((start / 64 + 3) % 4) ≠ 0 then
        (start / 64 + 3) % 4 * 64 + (q.occ l ((start / 64 + 3) % 4)).ctz.toNat
      else if q.occ l (start / 64) &&& ~~~(BitVec.allOnes 64 <<< (start % 64)) ≠ 0 then
        start / 64 * 64 +
          (q.occ l (start / 64) &&& ~~~(BitVec.allOnes 64 <<< (start % 64))).ctz.toNat
      else 256 := by
  simp only [NextOccupied, scanWords, kOccWords, kSlots, ne_eq, ite_not]
  by_cases h1 : q.occ l ((start / 64 + 1) % 4) = 0
  · by_cases h2 : q.occ l ((start / 64 + 2) % 4) = 0
    · by_cases h3 : q.occ l ((start / 64 + 3) % 4) = 0
      · simp only [h1, h2, h3, if_true]
      · simp only [h1, h2, h3, if_true, if_false]
    · simp only [h1, h2, if_true, if_false]
  · simp only [h1, if_false]

/-- How far a slot is into the turn that starts at `start`. -/
lemma turn_eq (hs : start < 256) (lt : s < 256) :
    ((s : Int) - start) % 256 = if start ≤ s then (s : Int) - start else (s : Int) - start + 256 := by
  split
  · rw [Int.emod_eq_of_lt] <;> omega
  · rw [← Int.add_emod_right, Int.emod_eq_of_lt] <;> omega

/-- How many words after the one of `start` the scan comes to the word of a slot. -/
def away (start s : Nat) : Nat :=
  if start / 64 ≤ s / 64 then s / 64 - start / 64 else s / 64 + 4 - start / 64

/-- The word of a slot is as far from the first word as the slot is from the start. -/
lemma away_word {j : Nat} (hs : start < 256) (lt : s < 256) (hj : j < 4) :
    s / 64 = (start / 64 + j) % 4 ↔ away start s = j := by
  have word : s / 64 < 4 := by omega
  have first : start / 64 < 4 := by omega
  unfold away
  split
  · omega
  · omega

/-- The turn goes through the words in the order of the scan; the slots of the first word before `start` are last. -/
lemma turn_away (hs : start < 256) (lt : s < 256) :
    ((s : Int) - start) % 256 = (if away start s = 0 ∧ s % 64 < start % 64 then 256 else 64 * (away start s : Int)) +
      (s % 64 : Nat) - (start % 64 : Nat) := by
  rw [turn_eq hs lt]
  unfold away
  by_cases word : start / 64 ≤ s / 64
  · rw [if_pos word]
    split
    · rw [if_neg (by omega)]
      omega
    · rw [if_pos (by omega)]
      omega
  · rw [if_neg word, if_neg (by omega), if_neg (by omega)]
    omega

/-- The first occupied slot of the turn that starts at `start`. -/
def First (q : Impl) (l start i : Nat) : Prop :=
  i < 256 ∧ q.Occupied l i ∧
    ∀ s < 256, q.Occupied l s → ((i : Int) - start) % 256 ≤ ((s : Int) - start) % 256

/-- The slot `k` of the word that the scan comes to in round `j` is the first one, if no slot before it is occupied. -/
lemma First.of_seen {i j k : Nat} (hs : start < 256) (lt : i < 256) (here : away start i = j) (low : i % 64 = k)
    (after : j = 0 → start % 64 ≤ k) (ho : q.Occupied l i)
    (seen : ∀ s, q.Occupied l s → s < 256 → away start s < j → away start s = 0 ∧ s % 64 < start % 64)
    (least : ∀ s, q.Occupied l s → s < 256 → away start s = j → start % 64 ≤ s % 64 ∨ 0 < j → k ≤ s % 64) :
    q.First l start i := by
  refine ⟨lt, ho, fun s lt' hso => ?_⟩
  have seen := seen s hso lt'
  have least := least s hso lt'
  have last : s % 64 < 64 := Nat.mod_lt _ (by decide)
  have top : k < 64 := low ▸ Nat.mod_lt _ (by decide)
  have most : j < 4 := by
    rw [← here, away]
    split
    · omega
    · omega
  rw [turn_away hs lt, turn_away hs lt', here, low, if_neg (by omega)]
  generalize away start s = m at *
  generalize s % 64 = r at *
  generalize start % 64 = b at *
  split
  · omega
  · omega

/-- A word after the first one. -/
lemma First.word {j : Nat} (hs : start < 256) (pos : 0 < j) (hj : j < 4)
    (some : q.occ l ((start / 64 + j) % 4) ≠ 0)
    (seen : ∀ s, q.Occupied l s → s < 256 → away start s < j → away start s = 0 ∧ s % 64 < start % 64) :
    q.First l start ((start / 64 + j) % 4 * 64 + (q.occ l ((start / 64 + j) % 4)).ctz.toNat) := by
  obtain ⟨top, ho, least⟩ := (word_spec q l ((start / 64 + j) % 4)).2 some
  have lt : (start / 64 + j) % 4 * 64 + (q.occ l ((start / 64 + j) % 4)).ctz.toNat < 256 := by omega
  have low : ((start / 64 + j) % 4 * 64 + (q.occ l ((start / 64 + j) % 4)).ctz.toNat) % 64 =
      (q.occ l ((start / 64 + j) % 4)).ctz.toNat := by omega
  refine .of_seen hs lt ((away_word hs lt hj).1 (by omega)) low (by omega) ho seen ?_
  intro s hso lt' here _
  exact least s hso ((away_word hs lt' hj).2 here)

/-- `NextOccupied` returns the first occupied slot of the turn that starts at `start`. -/
lemma NextOccupied_spec (hs : start < 256) :
    (q.NextOccupied l start = 256 ∧ ∀ s < 256, ¬q.Occupied l s) ∨
    (q.NextOccupied l start < 256 ∧ q.Occupied l (q.NextOccupied l start) ∧
      ∀ s < 256, q.Occupied l s →
        ((q.NextOccupied l start : Int) - start) % 256 ≤ ((s : Int) - start) % 256) := by
  have first : ∀ s, s < 256 → (s / 64 = start / 64 ↔ away start s = 0) := by
    intro s lt
    rw [← away_word hs lt (Nat.zero_lt_succ 3)]
    have word : start / 64 < 4 := by omega
    rw [Nat.add_zero, Nat.mod_eq_of_lt word]
  have round {j : Nat} (hj : j < 4) (none : q.occ l ((start / 64 + j) % 4) = 0) :
      ∀ s, q.Occupied l s → s < 256 → away start s ≠ j := by
    intro s ho lt eq
    exact (word_spec q l _).1 none s ho ((away_word hs lt hj).2 eq)
  rw [NextOccupied_eq]
  -- the words in the order of the scan; the first that has a bit left gives the answer
  split
  next h =>
    obtain ⟨top, after, ho, least⟩ := (part_spec (high_spec q l (start / 64) (start % 64))).2 h
    refine .inr (First.of_seen (j := 0) hs (by omega) ((first _ (by omega)).1 (by omega)) (by omega)
      (fun _ => after) ho nofun ?_)
    rintro s hso lt' here (le | pos)
    · exact least s hso ((first s lt').2 here) le
    · cases pos
  next h0 =>
  have seen0 : ∀ s, q.Occupied l s → s < 256 → away start s < 1 → away start s = 0 ∧ s % 64 < start % 64 := by
    intro s hso lt' zero
    have here := Nat.lt_one_iff.1 zero
    have before := (part_spec (high_spec q l (start / 64) (start % 64))).1 (not_not.1 h0) s hso ((first s lt').2 here)
    exact ⟨here, Nat.lt_of_not_le before⟩
  split
  next h => exact .inr (First.word hs (by decide) (by decide) h seen0)
  next h1 =>
  have seen1 : ∀ s, q.Occupied l s → s < 256 → away start s < 2 → away start s = 0 ∧ s % 64 < start % 64 := by
    intro s hso lt' less
    have out := round (by decide) (not_not.1 h1) s hso lt'
    exact seen0 s hso lt' (by omega)
  split
  next h => exact .inr (First.word hs (by decide) (by decide) h seen1)
  next h2 =>
  have seen2 : ∀ s, q.Occupied l s → s < 256 → away start s < 3 → away start s = 0 ∧ s % 64 < start % 64 := by
    intro s hso lt' less
    have out := round (by decide) (not_not.1 h2) s hso lt'
    exact seen1 s hso lt' (by omega)
  split
  next h => exact .inr (First.word hs (by decide) (by decide) h seen2)
  next h3 =>
  -- what is left is the part of the first word before `start`
  have seen3 : ∀ s, q.Occupied l s → s < 256 → away start s = 0 ∧ s % 64 < start % 64 := by
    intro s hso lt'
    have out := round (by decide) (not_not.1 h3) s hso lt'
    have most : away start s < 4 := by
      unfold away
      split
      · omega
      · omega
    exact seen2 s hso lt' (by omega)
  split
  next h =>
    obtain ⟨top, before, ho, least⟩ := (part_spec (low_spec q l (start / 64) (start % 64))).2 h
    refine .inr ⟨by omega, ho, fun s lt' hso => ?_⟩
    obtain ⟨here, low⟩ := seen3 s hso lt'
    have same := (first s lt').2 here
    have le := least s hso same low
    rw [turn_eq hs (by omega), turn_eq hs lt', if_neg (by omega), if_neg (by omega)]
    omega
  next h4 =>
  refine .inl ⟨rfl, fun s lt' hso => ?_⟩
  obtain ⟨here, low⟩ := seen3 s hso lt'
  exact (part_spec (low_spec q l (start / 64) (start % 64))).1 (not_not.1 h4) s hso ((first s lt').2 here) low

end JLib.Timer.Impl
