import JLib.Timer.Wakeup

/-!
# The arithmetic of `Arm`

`Arm` adds `tickNs - 1` to the delay before it divides, in `int64_t`. `Timer/Model.lean` computes over the
integers; here is the same computation with what an overflow may do, and where the two agree.
-/

namespace JLib.Timer
open Impl

def int64Min : Int := -9223372036854775808
def int64Max : Int := 9223372036854775807

/-- An overflow is an error. -/
def checked (x : Int) : Option Int := if int64Min ≤ x ∧ x ≤ int64Max then some x else none

/-- An overflow wraps around. -/
def wrapped (x : Int) : Int :=
  (x + 9223372036854775808) % 18446744073709551616 - 9223372036854775808

/-- `deadlineTick` of `Arm`, where `int64` is what becomes of the result of a sum. -/
def deadlineTick {m : Type → Type} [Monad m] (int64 : Int → m Int) (nowTick delayNs : Int) : m Int := do
  let delayTicks ←
    if delayNs > 0 then do
      let sum ← int64 (delayNs + tickNs)
      let sum ← int64 (sum - 1)
      pure (sum.tdiv tickNs)
    else pure 0
  int64 (nowTick + delayTicks)

def deadlineTickChecked (nowTick delayNs : Int) : Option Int := deadlineTick checked nowTick delayNs

def deadlineTickWrapped (nowTick delayNs : Int) : Int := deadlineTick (m := Id) wrapped nowTick delayNs

variable {ns now d d₁ d₂ : Int} {x : Int}

/-- A value inside the bounds is represented. -/
lemma checked_of_le (h : int64Min ≤ x) (h' : x ≤ int64Max) : checked x = some x :=
  if_pos ⟨h, h'⟩

/-- A longer delay is no fewer ticks. -/
lemma delayTicks_mono (le : d₁ ≤ d₂) : delayTicks d₁ ≤ delayTicks d₂ := by
  unfold delayTicks tickNs
  split
  · rw [if_pos (by omega)]
    omega
  · split
    · omega
    · exact le_rfl

/-- The readings of the clock that `NowTick` can return. -/
lemma nowTick_le (h : ns ≤ int64Max) : ns / tickNs ≤ 9223372036854 := by
  unfold int64Max tickNs at *
  omega

/-- Where the first sum does not overflow, `Arm` computes what the model says. -/
lemma deadlineTick_checked (h : 0 ≤ now) (h' : now ≤ 9223372036854) (low : int64Min ≤ d)
    (fits : d + tickNs ≤ int64Max) : deadlineTickChecked now d = some (now + delayTicks d) := by
  unfold int64Min int64Max tickNs at *
  unfold deadlineTickChecked deadlineTick delayTicks tickNs
  by_cases pos : d > 0
  · rw [if_pos pos, if_pos pos, checked_of_le (by unfold int64Min; omega) fits]
    simp only [Option.bind_eq_bind, Option.bind_some, Option.pure_def]
    rw [checked_of_le (by unfold int64Min; omega) (by unfold int64Max; omega)]
    simp only [Option.bind_some]
    rw [Int.tdiv_eq_ediv_of_nonneg (by omega)]
    exact checked_of_le (by unfold int64Min; omega) (by unfold int64Max; omega)
  · rw [if_neg pos, if_neg pos]
    simp only [Option.bind_eq_bind, Option.pure_def, Option.bind_some]
    exact checked_of_le (by unfold int64Min; omega) (by unfold int64Max; omega)

/-- A delay near the largest `int64_t` overflows. -/
lemma deadlineTick_overflows (exceeds : int64Max < d + tickNs) : deadlineTickChecked now d = none := by
  have pos : d > 0 := by
    unfold int64Max tickNs at exceeds
    omega
  have none : checked (d + tickNs) = none := if_neg fun h => absurd h.2 (by omega)
  unfold deadlineTickChecked deadlineTick
  rw [if_pos pos, none]
  rfl

/-- A delay that fits is not wrapped. -/
lemma deadlineTick_wrapped (h : 0 ≤ now) (h' : now ≤ 9223372036854) (low : int64Min ≤ d)
    (fits : d + tickNs - 1 ≤ int64Max) : deadlineTickWrapped now d = now + delayTicks d := by
  unfold int64Min int64Max tickNs at *
  unfold deadlineTickWrapped deadlineTick delayTicks tickNs
  by_cases pos : d > 0
  · rw [if_pos pos, if_pos pos]
    show wrapped (now + (wrapped (wrapped (d + 1000000) - 1)).tdiv 1000000) = _
    have sum : wrapped (wrapped (d + 1000000) - 1) = d + 1000000 - 1 := by
      unfold wrapped
      omega
    rw [sum, Int.tdiv_eq_ediv_of_nonneg (by omega)]
    unfold wrapped
    omega
  · rw [if_neg pos, if_neg pos]
    show wrapped (now + 0) = _
    unfold wrapped
    omega

/-- Where the round-up wraps around the deadline is before the present. -/
lemma deadlineTick_wraps (h : 0 ≤ now) (h' : now ≤ 9223372036854) (high : d ≤ int64Max)
    (exceeds : int64Max < d + tickNs - 1) :
    deadlineTickWrapped now d = now - (18446744073709551617 - d - tickNs) / tickNs := by
  unfold int64Max tickNs at *
  unfold deadlineTickWrapped deadlineTick tickNs
  rw [if_pos (by omega)]
  show wrapped (now + (wrapped (wrapped (d + 1000000) - 1)).tdiv 1000000) = _
  have sum : wrapped (wrapped (d + 1000000) - 1) = -(18446744073709551617 - d - 1000000) := by
    unfold wrapped
    omega
  rw [sum, Int.neg_tdiv, Int.tdiv_eq_ediv_of_nonneg (by omega)]
  unfold wrapped
  omega

/-- For two delays in order `Arm` computes two deadlines in order exactly if the larger delay plus a tick
does not overflow. With sums that wrap around, exactly if the larger delay rounds up without, or both
do not. -/
theorem deadline_monotone (h : 0 ≤ ns) (h' : ns ≤ int64Max) (low : int64Min ≤ d₁) (le : d₁ ≤ d₂)
    (high : d₂ ≤ int64Max) :
    ((∃ t₁ t₂, deadlineTickChecked (ns / tickNs) d₁ = some t₁ ∧
        deadlineTickChecked (ns / tickNs) d₂ = some t₂ ∧ t₁ ≤ t₂) ↔ d₂ + tickNs ≤ int64Max) ∧
    (deadlineTickWrapped (ns / tickNs) d₁ ≤ deadlineTickWrapped (ns / tickNs) d₂ ↔
      d₂ + tickNs - 1 ≤ int64Max ∨ int64Max < d₁ + tickNs - 1) := by
  have first : 0 ≤ ns / tickNs := Int.ediv_nonneg h (by decide)
  have last := nowTick_le h'
  generalize ns / tickNs = now at *
  constructor
  · constructor
    · rintro ⟨t₁, t₂, -, e, -⟩
      by_contra exceeds
      rw [deadlineTick_overflows (not_le.1 exceeds)] at e
      cases e
    · intro fits
      have mono := delayTicks_mono le
      exact ⟨_, _, deadlineTick_checked first last low (by omega),
        deadlineTick_checked first last (by omega) fits, by omega⟩
  · by_cases fits₂ : d₂ + tickNs - 1 ≤ int64Max
    · have mono := delayTicks_mono le
      rw [deadlineTick_wrapped first last low (by omega),
        deadlineTick_wrapped first last (by omega) fits₂]
      simp only [fits₂, true_or, iff_true]
      omega
    · rw [deadlineTick_wraps first last high (not_le.1 fits₂)]
      by_cases fits₁ : d₁ + tickNs - 1 ≤ int64Max
      · rw [deadlineTick_wrapped first last low fits₁]
        have pos := delayTicks_nonneg d₁
        unfold int64Max tickNs at *
        omega
      · rw [deadlineTick_wraps first last (by omega) (not_le.1 fits₁)]
        unfold int64Max tickNs at *
        omega

/-- One millisecond and half a second. -/
theorem deadline_monotone_half_second :
    ∃ t₁ t₂, deadlineTickChecked (0 / tickNs) 1000000 = some t₁ ∧
      deadlineTickChecked (0 / tickNs) 500000000 = some t₂ ∧ t₁ ≤ t₂ :=
  (deadline_monotone (by decide) (by decide) (by decide) (by decide) (by decide)).1.2 (by decide)

/-- The longest delay there is: the sum overflows, or the deadline comes before that of the shortest. -/
theorem longest_delay_overflows :
    deadlineTickChecked 0 int64Max = none ∧
      deadlineTickWrapped 0 int64Max < deadlineTickWrapped 0 1 := by
  decide

end JLib.Timer
