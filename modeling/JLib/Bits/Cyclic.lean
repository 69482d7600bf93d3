import Mathlib.Tactic.Lemma

/-!
# Positions on a ring

A ring of `m` positions that a counter moves round: position `r` comes up for the first time at or
after `c` at `nextAt m c r`. Until then the answer does not change, which is what lets a counter jump.
-/

namespace Bits

variable {m c t r x : Int}

/-- The first value at or after `c` that lies on position `r` of a ring of `m`. -/
def nextAt (m c r : Int) : Int := c + (r - c) % m

/-- The next position is not before the cursor. -/
lemma le_nextAt (hm : 0 < m) : c ≤ nextAt m c r := by
  have := Int.emod_nonneg (r - c) (show m ≠ 0 by omega)
  unfold nextAt
  omega

/-- The next position is less than a round away. -/
lemma nextAt_lt (hm : 0 < m) : nextAt m c r < c + m := by
  have := Int.emod_lt_of_pos (r - c) hm
  unfold nextAt
  omega

/-- The next position has the residue that is asked for. -/
lemma nextAt_emod : nextAt m c r % m = r % m := by
  unfold nextAt
  rw [Int.add_emod_emod]
  congr 1
  omega

/-- It is the only one within one turn. -/
lemma nextAt_unique (hc : c ≤ x) (hx : x < c + m) (e : x % m = r % m) :
    nextAt m c r = x := by
  have h : (r - c) % m = x - c := by
    rw [Int.sub_emod, ← e, ← Int.sub_emod]
    exact Int.emod_eq_of_lt (by omega) (by omega)
  unfold nextAt
  omega

/-- A counter that has not gone past it sees the same value. -/
lemma nextAt_stable (hm : 0 < m) (hc : c ≤ t) (ht : t ≤ nextAt m c r) :
    nextAt m t r = nextAt m c r := by
  have := nextAt_lt (c := c) (r := r) hm
  exact nextAt_unique ht (by omega) nextAt_emod

end Bits
