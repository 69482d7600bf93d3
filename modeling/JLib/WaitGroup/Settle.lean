import JLib.WaitGroup.Custody
import Mathlib.Algebra.BigOperators.Group.Finset.Basic
import Mathlib.Algebra.Order.BigOperators.Group.Finset

/-!
# WaitGroup: waits and wakes settle

A wait and a wake are straight code with a walk over the fibers taken, and a fiber is taken once. So
the parties that are inside take finitely many steps before somebody calls again: `rank` counts what is
left to do, and every step of a party that is inside makes it smaller.
-/

namespace JLib.WaitGroup
open LTS

variable {T : Type} [DecidableEq T]

/-- A bound on the steps a party has left in its call. -/
def Pc.rank : Pc T → Nat
  | idle | poll => 0
  | awake => 1
  | parked => 2
  | switch => 3
  | directResume ks => 4 + ks.length
  | directAnd ks => 5 + ks.length
  | direct => 6
  | arm => 7
  | push => 9
  | store => 10
  | wakeResume ks => 1 + ks.length
  | wakeUnlock ks => 2 + ks.length
  | wakeAnd ks => 3 + ks.length
  | wakeExchange => 4
  | wakeLock => 5

/-- A step of a party inside `WaitFor` on a fiber or `WakeAll`. -/
def Works (s : St T) (t : T) (s' : St T) : Prop :=
  Step s t s' ∧ ((s.th t).pc.waits ∨ (s.th t).pc.wakes)

namespace St

/-- What is left to do, when `F` has everybody who is inside. -/
def rank (s : St T) (F : Finset T) : Nat :=
  ∑ i ∈ F, (s.th i).pc.rank + s.directWaiters.length

/-- Everybody outside `F` is idle. -/
def Within (s : St T) (F : Finset T) : Prop := ∀ i, (s.th i).pc ≠ .idle → i ∈ F

end St

namespace Inv
variable {s s' : St T} {t i : T} {F : Finset T} {a : Act T}

/-- The party that moves has less to do, the fibers on the stack counted. -/
lemma rank_self (w : Works s t s') :
    (s'.th t).pc.rank + s'.directWaiters.length < (s.th t).pc.rank + s.directWaiters.length := by
  obtain ⟨st, inside⟩ := w
  cases st with
  | call e | callPoll e | polled e _ | complete e _ =>
    rw [e] at inside
    rcases inside with h | h <;> cases h
  | push e | store e | switch e _ | signaled e _ | returns e | directAnd e | directResume e
  | directDone e | wakeLock e _ | wakeExchange e | wakeAnd e | wakeUnlock e | wakeResume e
  | wakeDone e =>
    simp [e, St.goto, St.set, Pc.rank]
    try omega
  | arm e =>
    rw [e, St.goto_pc]
    split <;> simp [St.goto, St.set, Pc.rank]
  | direct e =>
    rw [e, St.goto_pc]
    split <;> simp [St.goto, St.set, Pc.rank]
    all_goals omega

/-- A step brings nobody else further from the end. -/
lemma rank_other (inv : Inv s) (st : Step s t s') (ne : i ≠ t) :
    (s'.th i).pc.rank ≤ (s.th i).pc.rank := by
  rcases inv.pc_other st ne with h | ⟨h, h'⟩
  · rw [h]
  · rw [h, h']
    exact Nat.le_succ 1

/-- A step of a party inside brings all nearer to the end. -/
lemma rank_lt (inv : Inv s) (w : Works s t s') (ht : t ∈ F) : s'.rank F < s.rank F := by
  have mine := rank_self w
  have rest : ∑ i ∈ F.erase t, (s'.th i).pc.rank ≤ ∑ i ∈ F.erase t, (s.th i).pc.rank := by
    apply Finset.sum_le_sum
    intro i hi
    exact inv.rank_other w.1 (Finset.ne_of_mem_erase hi)
  unfold St.rank
  rw [← Finset.add_sum_erase F _ ht, ← Finset.add_sum_erase F _ ht]
  omega

/-- Who steps is inside. -/
lemma within_step (inv : Inv s) (fin : s.Within F) (st : Step s t s') :
    s'.Within (insert t F) := by
  intro i hi
  by_cases ei : i = t
  · rw [ei]
    exact Finset.mem_insert_self t F
  · apply Finset.mem_insert_of_mem
    apply fin
    rcases inv.pc_other st ei with h | ⟨h, -⟩
    · rwa [← h]
    · rw [h]
      nofun

/-- Who works is inside. -/
lemma mem_of_works (fin : s.Within F) (w : Works s t s') : t ∈ F := by
  apply fin
  intro e
  obtain ⟨-, h⟩ := w
  rw [e] at h
  rcases h with h | h <;> cases h

/-- Every sequence of steps of the parties inside is finite. -/
lemma settles (inv : Inv s) (fin : s.Within F) : Acc (fun b a => ∃ t, Works a t b) s := by
  induction h : s.rank F using Nat.strong_induction_on generalizing s with
  | _ n ih =>
    constructor
    rintro s' ⟨t, w⟩
    have ht := mem_of_works fin w
    have fin' := inv.within_step fin w.1
    rw [Finset.insert_eq_self.2 ht] at fin'
    exact ih _ (h ▸ inv.rank_lt w ht) (inv.step w.1) fin' rfl

/-- Only finitely many parties are anywhere but idle. -/
lemma within_next (inv : Inv s) (fin : ∃ F, s.Within F) (nx : Next s a s') : ∃ F, s'.Within F := by
  obtain ⟨F, fin⟩ := fin
  cases nx with
  | add k _ _ _ => exact ⟨F, fin⟩
  | move st => exact ⟨_, inv.within_step fin st⟩

end Inv
end JLib.WaitGroup
