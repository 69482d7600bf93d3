import JLib.WaitGroup.Custody

/-!
# WaitGroup: what only happens at zero

Drains run and fibers are resumed only while the count is zero. A count that is zero stays zero until the
waits have returned, so a positive count tells that nobody is inside a drain and that no waiting fiber
has been resumed. The one step that could break this is the reuse of the group: an old `WakeAll` that has
not got to the stack yet would drain the waiters of the next round.
-/

namespace JLib.WaitGroup
open LTS

variable {T : Type}

/-- Inside `WakeAll`, with the stack to take or the bit to clear. -/
def Pc.sweeps : Pc T → Bool
  | wakeLock | wakeExchange | wakeAnd _ => true
  | _ => false

/-- Inside a drain, with something to do that a waiter would notice. -/
def Pc.late : Pc T → Bool
  | direct | directAnd _ | directResume _ => true
  | wakeUnlock ks | wakeResume ks => ks ≠ []
  | p => p.sweeps

/-- Whoever has fibers in its hands is inside a drain. -/
lemma Pc.late_of_hand {p : Pc T} (h : p.hand ≠ []) : p.late = true := by
  cases p with
  | directAnd _ | directResume _ | wakeAnd _ => rfl
  | wakeUnlock ks | wakeResume ks => simpa [late, hand] using h
  | _ => exact absurd rfl h

namespace St

/-- With tasks counted nobody drains, and no waiting fiber has been resumed. -/
def Zero (s : St T) : Prop :=
  0 < s.count → ∀ i, (s.th i).pc.late = false ∧ ((s.th i).pc.waits → (s.th i).resumed = 0)

/-- A finished group is reused when every `WakeAll` has taken the stack and cleared the bit. -/
def Fresh (s : St T) : Prop := s.count = 0 → s.AllReturned → ∀ i, (s.th i).pc.sweeps = false

end St

namespace Inv
variable {s s' : St T} {t i : T}

/-- Nothing is published when nobody waits on a fiber. -/
lemma not_placed (inv : Inv s) (nw : ∀ i, (s.th i).pc.waits = false) : ¬s.Placed i := by
  intro h
  obtain ⟨-, -, w, -⟩ := inv.placed h
  rw [nw i] at w
  cases w

/-- When nobody waits nobody has a waiter in hand. -/
lemma hand_nil (inv : Inv s) (nw : ∀ i, (s.th i).pc.waits = false) : (s.th i).pc.hand = [] := by
  apply List.eq_nil_iff_forall_not_mem.2
  intro k hk
  exact inv.not_placed nw ⟨some i, hk⟩

/-- When nobody waits the stack is empty. -/
lemma stack_nil (inv : Inv s) (nw : ∀ i, (s.th i).pc.waits = false) : s.directWaiters = [] := by
  apply List.eq_nil_iff_forall_not_mem.2
  intro k hk
  exact inv.not_placed nw ⟨none, hk⟩

/-- When all waits have returned only a `WakeAll` that has not swept yet is late. -/
lemma late_of_returned (inv : Inv s) (all : s.AllReturned) (h : (s.th i).pc.sweeps = false) :
    (s.th i).pc.late = false := by
  have w := (all i).1
  have hn := inv.hand_nil (fun j => (all j).1) (i := i)
  cases e : (s.th i).pc with
  | wakeUnlock ks | wakeResume ks =>
    rw [e] at hn
    simpa [Pc.late, Pc.hand] using hn
  | direct | directAnd _ | directResume _ =>
    rw [e] at w
    cases w
  | _ =>
    rw [e] at h
    exact h

end Inv

namespace St.Zero
variable {s s' : St T} {t i : T}

/-- Nobody drains yet. -/
lemma init (c : Nat) : (WaitGroup.init T c).Zero := fun _ _ => ⟨rfl, nofun⟩

/-- Who is inside a drain found the count at zero. -/
lemma not_late (z : s.Zero) (h : (s.th i).pc.late = true) : s.count = 0 := by
  by_contra hc
  have := (z (Nat.pos_of_ne_zero hc) i).1
  rw [h] at this
  cases this

variable [DecidableEq T]

/-- One party moves on while tasks are counted. -/
lemma own {m : St T} {h : Party T} (z : s.Zero) (hc : 0 < s.count) (hm : m.th = s.th)
    (hl : h.pc.late = false) (hw : h.pc.waits → h.resumed = 0) : (m.set t h).Zero := by
  intro _ i
  by_cases ei : i = t
  · subst ei
    simpa [St.set] using ⟨hl, hw⟩
  · simpa [St.set, ei, hm] using z hc i

/-- Every step keeps it. -/
lemma step (z : s.Zero) (st : Step s t s') : s'.Zero := by
  intro hc'
  -- only a completion changes the count, downwards
  have hc : 0 < s.count := by
    cases st with
    | complete _ h => exact h
    | _ => exact hc'
  obtain ⟨nl, nr⟩ := z hc t
  cases st with
  | call e => exact z.own hc rfl rfl (fun _ => rfl) hc'
  | store e | push e | switch e _ | signaled e _ =>
    rw [e] at nr
    exact z.own hc rfl rfl (fun _ => nr rfl) hc'
  | arm e =>
    rw [e] at nr
    rw [if_neg (Nat.ne_of_gt hc)] at hc' ⊢
    exact z.own hc rfl rfl (fun _ => nr rfl) hc'
  | wakeUnlock e =>
    rw [e] at nl
    exact z.own hc rfl nl nofun hc'
  | returns e | callPoll e | polled e _ | wakeDone e => exact z.own hc rfl rfl nofun hc'
  | complete e _ =>
    have h1 : ¬(s.count = 1 ∧ s.bit = true) := by
      rintro ⟨h, -⟩
      have : 0 < s.count - 1 := hc'
      omega
    rw [if_neg h1] at hc' ⊢
    exact z.own hc rfl rfl nofun hc'
  | direct e | directAnd e | directResume e | directDone e | wakeLock e _ | wakeExchange e
  | wakeAnd e | wakeResume e =>
    rw [e] at nl
    cases nl

/-- A step keeps it, and so does an `Add` to a fresh group. -/
lemma next {a : Act T} (z : s.Zero) (inv : Inv s)
    (fresh : ∀ t k, a = .add t k → s.Fresh) (nx : Next s a s') : s'.Zero := by
  cases nx with
  | move st => exact z.step st
  | @add t k _ _ h =>
    intro _ i
    by_cases hc : s.count = 0
    · have all : s.AllReturned := h.resolve_left (by omega)
      refine ⟨inv.late_of_returned all (fresh t k rfl hc all i), fun w => ?_⟩
      rw [(all i).1] at w
      cases w
    · exact z (Nat.pos_of_ne_zero hc) i

end St.Zero
end JLib.WaitGroup
