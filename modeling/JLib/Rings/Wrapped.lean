import Mathlib.Algebra.Order.Ring.Int
import Mathlib.Data.List.Basic
import Mathlib.Data.Nat.ModEq
import Mathlib.Tactic.Lemma
import Mathlib.Tactic.TypeStar

/-!
# Rings with wrapping counters

A ring of `2 ^ k` cells between a producer, who counts what was put in, and a consumer, who counts what was
taken out. The counters are machine words that wrap and are never reduced to an index; a counter is masked
where it is used. `Holds k r l` says that the ring holds the list `l`, the oldest element first.
-/

namespace Rings

variable {α : Type*} {w : Nat}

structure Ring (w : Nat) (α : Type*) where
  head : BitVec w := 0
  tail : BitVec w := 0
  mask : BitVec w
  entries : BitVec w
  cell : BitVec w → α

namespace Ring

/-- A ring of `2 ^ k` cells. -/
def ofBits (k : Nat) (cell : BitVec w → α) : Ring w α :=
  { mask := .ofNat w (2 ^ k - 1), entries := .ofNat w (2 ^ k), cell }

def full (r : Ring w α) : Bool := r.entries ≤ r.tail - r.head

/-- The cell under the tail is written and the tail moves on. -/
def push (r : Ring w α) (x : α) : Ring w α :=
  { r with cell := fun i => if i = r.tail &&& r.mask then x else r.cell i, tail := r.tail + 1 }

/-- What the consumer reads. -/
def front (r : Ring w α) : α := r.cell (r.head &&& r.mask)

def pop (r : Ring w α) : Ring w α := { r with head := r.head + 1 }

end Ring

/-- `n` is what the head counts when it does not wrap. -/
structure Holds (k : Nat) (r : Ring w α) (l : List α) : Prop where
  fits : k < w
  mask : r.mask = .ofNat w (2 ^ k - 1)
  entries : r.entries = .ofNat w (2 ^ k)
  length : l.length ≤ 2 ^ k
  counted : ∃ n, r.head = .ofNat w n ∧ r.tail = .ofNat w (n + l.length) ∧
    ∀ i (h : i < l.length), r.cell (.ofNat w (n + i) &&& r.mask) = l[i]

variable {k n i j : Nat} {r : Ring w α} {l : List α} {x : α}

/-- A masked counter is its remainder by the number of cells. -/
lemma toNat_mask (fits : k < w) : (BitVec.ofNat w n &&& .ofNat w (2 ^ k - 1)).toNat = n % 2 ^ k := by
  have less : 2 ^ k < 2 ^ w := Nat.pow_lt_pow_right Nat.one_lt_two fits
  rw [BitVec.toNat_and, BitVec.toNat_ofNat, BitVec.toNat_ofNat,
    Nat.mod_eq_of_lt (Nat.lt_of_le_of_lt (Nat.sub_le _ _) less),
    Nat.and_two_pow_sub_one_eq_mod]
  exact Nat.mod_mod_of_dvd n (Nat.pow_dvd_pow 2 fits.le)

/-- Two counters less than a ring apart are in different cells. -/
lemma mask_inj (fits : k < w) (hi : i < 2 ^ k) (hj : j < 2 ^ k)
    (h : BitVec.ofNat w (n + i) &&& .ofNat w (2 ^ k - 1) = .ofNat w (n + j) &&& .ofNat w (2 ^ k - 1)) : i = j := by
  have e := congrArg BitVec.toNat h
  rw [toNat_mask fits, toNat_mask fits] at e
  have e : i ≡ j [MOD 2 ^ k] := Nat.ModEq.add_left_cancel' n e
  rwa [Nat.ModEq, Nat.mod_eq_of_lt hi, Nat.mod_eq_of_lt hj] at e

namespace Holds

/-- A fresh ring is empty. -/
lemma ofBits (fits : k < w) (cell : BitVec w → α) : Holds k (Ring.ofBits k cell) [] :=
  ⟨fits, rfl, rfl, Nat.zero_le _, 0, rfl, rfl, nofun⟩

/-- The difference of the counters, which may have wrapped, is the number of elements. -/
lemma count (hd : Holds k r l) : (r.tail - r.head).toNat = l.length := by
  obtain ⟨n, hh, ht, -⟩ := hd.counted
  have less : l.length < 2 ^ w := Nat.lt_of_le_of_lt hd.length (Nat.pow_lt_pow_right Nat.one_lt_two hd.fits)
  have e : r.tail - r.head = .ofNat w l.length := by
    rw [hh, ht, BitVec.ofNat_add, BitVec.add_comm, BitVec.add_sub_cancel]
  rw [e, BitVec.toNat_ofNat, Nat.mod_eq_of_lt less]

/-- Head and tail meet when the ring is empty, and only then. -/
lemma empty_iff (hd : Holds k r l) : r.head = r.tail ↔ l = [] := by
  have c := hd.count
  constructor
  · intro e
    rw [e, BitVec.sub_self, BitVec.toNat_zero] at c
    exact List.eq_nil_of_length_eq_zero c.symm
  · rintro rfl
    obtain ⟨n, hh, ht, -⟩ := hd.counted
    rw [hh, ht]
    rfl

/-- The test for a full ring is exact. -/
lemma full_iff (hd : Holds k r l) : r.full = true ↔ l.length = 2 ^ k := by
  have less : 2 ^ k < 2 ^ w := Nat.pow_lt_pow_right Nat.one_lt_two hd.fits
  rw [Ring.full, decide_eq_true_iff, BitVec.le_def, hd.count, hd.entries, BitVec.toNat_ofNat, Nat.mod_eq_of_lt less]
  exact ⟨fun h => Nat.le_antisymm hd.length h, Nat.le_of_eq ∘ Eq.symm⟩

/-- A ring that is not full has room. -/
lemma room (hd : Holds k r l) (h : r.full = false) : l.length < 2 ^ k := by
  apply Nat.lt_of_le_of_ne hd.length
  intro e
  rw [hd.full_iff.2 e] at h
  cases h

/-- A push puts the entry last. -/
lemma push (hd : Holds k r l) (room : l.length < 2 ^ k) : Holds k (r.push x) (l ++ [x]) := by
  obtain ⟨n, hh, ht, cells⟩ := hd.counted
  refine ⟨hd.fits, hd.mask, hd.entries, ?_, n, hh, ?_, ?_⟩
  · rw [List.length_append, List.length_singleton]
    exact room
  · rw [List.length_append, List.length_singleton, ← Nat.add_assoc, BitVec.ofNat_add, ← ht]
    rfl
  · intro i hi
    rw [List.length_append, List.length_singleton] at hi
    unfold Ring.push
    dsimp only
    rw [ht]
    split
    next e =>
      -- only the new element is in the cell that is written
      rw [hd.mask] at e
      obtain rfl := mask_inj hd.fits (by omega) room e
      simp
    next ne =>
      have old : i < l.length := by
        apply Nat.lt_of_le_of_ne (Nat.le_of_lt_succ hi)
        rintro rfl
        exact ne rfl
      rw [cells i old, List.getElem_append_left old]

/-- The front is the oldest entry. -/
lemma front (hd : Holds k r (x :: l)) : r.front = x := by
  obtain ⟨n, hh, -, cells⟩ := hd.counted
  have e := cells 0 (Nat.zero_lt_succ _)
  rw [Nat.add_zero, ← hh] at e
  exact e

/-- A pop takes the oldest entry. -/
lemma pop (hd : Holds k r (x :: l)) : Holds k r.pop l := by
  obtain ⟨n, hh, ht, cells⟩ := hd.counted
  have shift : ∀ i, n + 1 + i = n + (i + 1) := fun i => by omega
  refine ⟨hd.fits, hd.mask, hd.entries, Nat.le_of_succ_le hd.length, n + 1, ?_, ?_, ?_⟩
  · rw [BitVec.ofNat_add, ← hh]
    rfl
  · rw [shift]
    exact ht
  · intro i hi
    rw [shift]
    exact cells (i + 1) (Nat.succ_lt_succ hi)

/-- An element goes in and the oldest comes out. -/
lemma push_pop (hd : Holds k r l) (room : l.length < 2 ^ k) (x : α) :
    ∃ m, Holds k (r.push x).pop m ∧ m.length = l.length := by
  have pushed := hd.push (x := x) room
  cases l with
  | nil => exact ⟨[], pushed.pop, rfl⟩
  | cons y l => exact ⟨l ++ [x], pushed.pop, List.length_append⟩

end Holds

end Rings
