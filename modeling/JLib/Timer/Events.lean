import JLib.Timer.Occupancy
import Mathlib.Algebra.Order.Ring.Int
import Mathlib.Tactic.Positivity

/-!
# The next event

A slot of level `l` comes up at the first multiple of the level's granularity after the present that
lies on it; on level 0 the present itself counts. `NextEventTick` is the soonest such tick over the
occupied slots.
-/

namespace JLib.Timer
open Bits

variable {c t : Int} {l s : Nat}

/-- A slot spans at least a tick. -/
lemma LevelGranularity_pos (l : Nat) : 0 < LevelGranularity l := by
  unfold LevelGranularity
  positivity

/-- A slot of level 0 spans one tick. -/
lemma LevelGranularity_zero : LevelGranularity 0 = 1 := rfl

/-- A slot of the next level spans a round of this one. -/
lemma LevelGranularity_succ (l : Nat) : LevelGranularity (l + 1) = 256 * LevelGranularity l := by
  unfold LevelGranularity kSlotBits
  rw [Nat.mul_add, pow_add, mul_comm]
  rfl

/-- The tick at which slot `s` of level `l` comes up when the wheel stands at `c`. -/
def eventAt (c : Int) (l s : Nat) : Int :=
  if l = 0 then nextAt 256 c s
  else nextAt 256 (c / LevelGranularity l + 1) s * LevelGranularity l

/-- No slot comes up in the past. -/
lemma le_eventAt : c ≤ eventAt c l s := by
  unfold eventAt
  split
  · exact le_nextAt (by decide)
  · have hg := LevelGranularity_pos l
    have h1 : c / LevelGranularity l + 1 ≤ nextAt 256 (c / LevelGranularity l + 1) s :=
      le_nextAt (by decide)
    have h2 := Int.lt_ediv_add_one_mul_self c hg
    have h3 := Int.mul_le_mul_of_nonneg_right h1 hg.le
    omega

/-- Above level 0 the slot the wheel stands on is a turn away. -/
lemma lt_eventAt (hl : l ≠ 0) : c < eventAt c l s := by
  unfold eventAt
  rw [if_neg hl]
  have hg := LevelGranularity_pos l
  have h1 : c / LevelGranularity l + 1 ≤ nextAt 256 (c / LevelGranularity l + 1) s :=
    le_nextAt (by decide)
  have h2 := Int.lt_ediv_add_one_mul_self c hg
  have h3 := Int.mul_le_mul_of_nonneg_right h1 hg.le
  omega

/-- Above level 0 an event is at a multiple of 256. -/
lemma eventAt_emod (hl : l ≠ 0) : eventAt c l s % 256 = 0 := by
  obtain ⟨k, rfl⟩ := Nat.exists_eq_succ_of_ne_zero hl
  unfold eventAt
  rw [if_neg hl, LevelGranularity_succ]
  apply Int.emod_eq_zero_of_dvd
  exact Dvd.dvd.mul_left (Dvd.intro _ rfl) _

/-- What is not yet due comes up at the same tick from a later present. -/
lemma eventAt_stable (hc : c ≤ t)
    (ht : if l = 0 then t ≤ eventAt c l s else t < eventAt c l s) :
    eventAt t l s = eventAt c l s := by
  unfold eventAt at *
  split
  next h =>
    subst h
    exact nextAt_stable (by decide) hc (by simpa using ht)
  next h =>
    simp only [if_neg h] at ht
    have hg := LevelGranularity_pos l
    have h1 : c / LevelGranularity l ≤ t / LevelGranularity l := Int.ediv_le_ediv hg hc
    have h2 : t / LevelGranularity l < nextAt 256 (c / LevelGranularity l + 1) s :=
      Int.ediv_lt_of_lt_mul hg ht
    congr 1
    exact nextAt_stable (by decide) (by omega) (by omega)

/-- A level has 256 slots. -/
lemma slotAt_lt : slotAt c l < 256 := by
  unfold slotAt kSlots
  omega

namespace Impl

variable {q : Impl}

/-- The soonest event of a level. -/
lemma levelEvent_spec (q : Impl) (l : Nat) :
    (q.levelEvent l = none ∧ ∀ s < 256, ¬q.Occupied l s) ∨
    (∃ s < 256, q.Occupied l s ∧ q.levelEvent l = some (eventAt q.currentTick l s) ∧
      ∀ s' < 256, q.Occupied l s' → eventAt q.currentTick l s ≤ eventAt q.currentTick l s') := by
  by_cases he : q.LevelEmpty l = true
  · left
    exact ⟨by simp [levelEvent, he], LevelEmpty_iff.1 he⟩
  have hcur : slotAt q.currentTick l < 256 := slotAt_lt
  have hstart : (if l = 0 then slotAt q.currentTick l
      else (slotAt q.currentTick l + 1) % kSlots) < 256 := by
    split
    · exact hcur
    · exact Nat.mod_lt _ (by decide)
  rcases NextOccupied_spec (q := q) (l := l) hstart with ⟨e, none⟩ | ⟨lt, occ, least⟩
  · exact absurd (LevelEmpty_iff.2 none) he
  right
  generalize hs : q.NextOccupied l
    (if l = 0 then slotAt q.currentTick l else (slotAt q.currentTick l + 1) % kSlots) = s
    at lt occ least
  -- the distance the code computes is the one to the next time the slot comes up
  have dist : ∀ s' < 256, eventAt q.currentTick l s' =
      (if l = 0 then q.currentTick
        else (q.currentTick / LevelGranularity l + 1) * LevelGranularity l) +
      ((s' : Int) - ((if l = 0 then slotAt q.currentTick l
        else (slotAt q.currentTick l + 1) % kSlots : Nat) : Int)) % kSlots *
        LevelGranularity l := by
    intro s' _
    unfold eventAt nextAt
    split
    next h =>
      subst h
      rw [LevelGranularity_zero]
      unfold slotAt kSlots
      rw [LevelGranularity_zero]
      omega
    next h =>
      rw [← add_mul]
      congr 1
      unfold slotAt kSlots
      generalize q.currentTick / LevelGranularity l = x
      omega
  refine ⟨s, lt, occ, ?_, fun s' lt' occ' => ?_⟩
  · have ne : s ≠ kSlots := by
      unfold kSlots
      omega
    simp only [levelEvent, he, hs, ne, if_false, Bool.false_eq_true]
    rw [dist s lt]
  · have hg := LevelGranularity_pos l
    rw [dist s lt, dist s' lt']
    exact Int.add_le_add_left (Int.mul_le_mul_of_nonneg_right (least s' lt' occ') hg.le) _

/-- One step of the minimum over the levels. -/
def sooner (q : Impl) (best : Int) (l : Nat) : Int :=
  match q.levelEvent l with
  | none => best
  | some when => if best < 0 ∨ when < best then when else best

/-- `best` is the soonest event over the levels in `ls`. -/
def Soonest (q : Impl) (ls : List Nat) (best : Int) : Prop :=
  (best = -1 ∧ ∀ l ∈ ls, ∀ s < 256, ¬q.Occupied l s) ∨
  (∃ l ∈ ls, ∃ s < 256, q.Occupied l s ∧ best = eventAt q.currentTick l s) ∧
    ∀ l ∈ ls, ∀ s < 256, q.Occupied l s → best ≤ eventAt q.currentTick l s

/-- One more level is looked at. -/
lemma Soonest.step {ls : List Nat} {best : Int} (h0 : 0 ≤ q.currentTick)
    (sn : q.Soonest ls best) : q.Soonest (ls ++ [l]) (q.sooner best l) := by
  unfold sooner
  rcases levelEvent_spec q l with ⟨e, none⟩ | ⟨s, lt, occ, e, least⟩
  · rw [e]
    rcases sn with ⟨rfl, all⟩ | ⟨⟨l', hl', w⟩, all⟩
    · left
      refine ⟨rfl, fun l' hl' => ?_⟩
      rcases List.mem_append.1 hl' with h | h
      · exact all l' h
      · rw [List.mem_singleton.1 h]
        exact none
    · right
      refine ⟨⟨l', List.mem_append_left _ hl', w⟩, fun l'' hl'' s'' lt'' occ'' => ?_⟩
      rcases List.mem_append.1 hl'' with h | h
      · exact all l'' h s'' lt'' occ''
      · rw [List.mem_singleton.1 h] at occ''
        exact absurd occ'' (none s'' lt'')
  · rw [e]
    simp only
    have pos : 0 ≤ eventAt q.currentTick l s := h0.trans le_eventAt
    rcases sn with ⟨rfl, all⟩ | ⟨⟨l', hl', s', lt', occ', rfl⟩, all⟩
    · right
      rw [if_pos (by omega)]
      refine ⟨⟨l, by simp, s, lt, occ, rfl⟩, fun l'' hl'' s'' lt'' occ'' => ?_⟩
      rcases List.mem_append.1 hl'' with h | h
      · exact absurd occ'' (all l'' h s'' lt'')
      · rw [List.mem_singleton.1 h] at occ'' ⊢
        exact least s'' lt'' occ''
    · right
      have pos' : 0 ≤ eventAt q.currentTick l' s' := h0.trans le_eventAt
      split
      next h =>
        refine ⟨⟨l, by simp, s, lt, occ, rfl⟩, fun l'' hl'' s'' lt'' occ'' => ?_⟩
        rcases List.mem_append.1 hl'' with h' | h'
        · have := all l'' h' s'' lt'' occ''
          omega
        · rw [List.mem_singleton.1 h'] at occ'' ⊢
          exact least s'' lt'' occ''
      next h =>
        refine ⟨⟨l', by simp [hl'], s', lt', occ', rfl⟩, fun l'' hl'' s'' lt'' occ'' => ?_⟩
        rcases List.mem_append.1 hl'' with h' | h'
        · exact all l'' h' s'' lt'' occ''
        · rw [List.mem_singleton.1 h'] at occ'' ⊢
          have := least s'' lt'' occ''
          omega

/-- `NextEventTick` is the soonest event of the wheel. -/
lemma NextEventTick_spec (h0 : 0 ≤ q.currentTick) :
    q.Soonest [0, 1, 2, 3] q.NextEventTick := by
  have e : q.NextEventTick = q.sooner (q.sooner (q.sooner (q.sooner (-1) 0) 1) 2) 3 := rfl
  rw [e]
  have start : q.Soonest [] (-1) := .inl ⟨rfl, by simp⟩
  exact (((start.step h0).step h0).step h0).step h0

end Impl

end JLib.Timer
