import Mathlib.Tactic.Lemma
import Mathlib.Tactic.TypeStar

/-!
# A scan of places

A thread looks at places one after the other while others put things into them and take them out. `Clear` says that
nothing is at the places behind the scan. It grows by a place that is free when it is looked at, it is kept as long as
nothing is put behind the scan, and at the end of the scan it says that nothing is anywhere. From then on nothing
comes back, if what is put down was somewhere before.
-/

namespace LTS

variable {π : Type*} {occupied occupied' seen seen' : π → Prop}

/-- No place behind the scan is occupied. -/
def Clear (occupied seen : π → Prop) : Prop := ∀ p, seen p → ¬ occupied p

namespace Clear

/-- A free place gets behind the scan. -/
lemma look (c : Clear occupied seen) {p : π} (free : ¬ occupied p) (grow : ∀ q, seen' q → seen q ∨ q = p) :
    Clear occupied seen' := by
  intro q hq
  obtain old | rfl := grow q hq
  · exact c q old
  · exact free

/-- What is put down is put down before the scan. -/
lemma act (c : Clear occupied seen) (puts : ∀ q, occupied' q → occupied q ∨ ¬ seen q) : Clear occupied' seen := by
  intro q hq now
  obtain old | ahead := puts q now
  · exact c q hq old
  · exact ahead hq

/-- At the end every place is behind the scan. -/
lemma everywhere (c : Clear occupied seen) (all : ∀ p, seen p) : Clear occupied fun _ => True :=
  fun p _ => c p (all p)

/-- Where nothing is, nothing is put down. -/
lemma still (c : Clear occupied fun _ => True) (source : ∀ q, occupied' q → ∃ p, occupied p) :
    Clear occupied' fun _ => True := by
  intro q _ now
  obtain ⟨p, hp⟩ := source q now
  exact c p trivial hp

end Clear

end LTS
