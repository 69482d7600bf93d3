import JLib.WaitGroup.Zero

/-!
# WaitGroup: when the group may die

A fork-join group is a local of the frame that waits on it, so the last access to the group has to come
before the last wait returns. `WakeAll` keeps to that by itself: it resumes nobody before it has let go
of the group, so as long as it touches the group a fiber still waits, if it is `WakeAll` that takes that
fiber. A late waiter breaks this: it finds the count zero, takes the whole stack and resumes everybody,
while the completer that saw the bit has not taken the mutex yet. The other way to an access with nobody
waiting is a bit left over from an earlier round.
-/

namespace JLib.WaitGroup
open LTS

variable {T : Type}

/-- Inside `WakeAll`, before the stack is taken. -/
def Pc.nears : Pc T → Bool
  | wakeLock | wakeExchange => true
  | _ => false

/-- What the steps of a run have to meet: a late waiter does not take the stack under a `WakeAll` on
its way to it, and the group is not reused with the bit set. -/
def Alone (s : St T) : Act T → Prop
  | .add _ _ => s.count = 0 → s.bit = false
  | .move t => (s.th t).pc = .direct → ∀ u, (s.th u).pc.nears = false

/-- Once the count is zero and every wait has returned nobody touches the group. -/
def St.MayDie (s : St T) : Prop := s.count = 0 → s.AllReturned → ∀ i, (s.th i).pc.touches = false

/-- Why a completer that touches the group has somebody waiting. -/
structure Held (s : St T) : Prop where
  bit : 0 < s.count → s.bit = true → s.directWaiters ≠ []
  single : ∀ i j, (s.th i).pc.touches = true → (s.th j).pc.touches = true → i = j
  nears : ∀ i, (s.th i).pc.nears = true → s.directWaiters ≠ []
  hands : ∀ i, (s.th i).pc.touches = true → (s.th i).pc.nears = true ∨ (s.th i).pc.hand ≠ []

namespace Held
variable {s s' : St T} {t i : T} {a : Act T}

/-- Nobody touches the group. -/
lemma init (c : Nat) : Held (WaitGroup.init T c) where
  bit _ := nofun
  single _ _ := nofun
  nears _ := nofun
  hands _ := nofun

/-- Somebody who touches the group keeps a fiber waiting. -/
lemma mayDie (h : Held s) (inv : Inv s) : s.MayDie := by
  intro _ all i
  by_contra ht
  have nw : ∀ j, (s.th j).pc.waits = false := fun j => (all j).1
  rcases h.hands i (by simpa using ht) with hn | hh
  · exact h.nears i hn (inv.stack_nil nw)
  · exact hh (inv.hand_nil nw)

/-- Who touches the group is inside a drain. -/
lemma late (h : Held s) (ht : (s.th i).pc.touches = true) : (s.th i).pc.late = true := by
  rcases h.hands i ht with hn | hh
  · cases e : (s.th i).pc with
    | wakeLock | wakeExchange => rfl
    | _ =>
      rw [e] at hn
      cases hn
  · exact Pc.late_of_hand hh

variable [DecidableEq T]

/-- An armed fiber is on the stack as long as tasks are counted. -/
lemma stack_of_arm (inv : Inv s) (z : s.Zero) (hc : 0 < s.count) (e : (s.th t).pc = .arm) :
    t ∈ s.directWaiters := by
  have ok := inv.ok t
  have h0 := (z hc t).2 (by rw [e]; rfl)
  simp only [Party.Ok, e] at ok
  rcases ok with ⟨-, -, q, hq⟩ | ⟨h1, -, -⟩
  · cases q with
    | none => exact hq
    | some j =>
      have := z.not_late (Pc.late_of_hand (List.ne_nil_of_mem hq))
      omega
  · omega

/-- With tasks counted and the bit set, somebody waits. -/
lemma bit_step (h : Held s) (inv : Inv s) (z : s.Zero) (st : Step s t s') (hc' : 0 < s'.count)
    (hb : s'.bit = true) : s'.directWaiters ≠ [] := by
  have hc : 0 < s.count := by
    cases st with
    | complete _ h => exact h
    | _ => exact hc'
  have nl := (z hc t).1
  cases st with
  | push e => exact List.cons_ne_nil t s.directWaiters
  | arm e =>
    have ht := stack_of_arm inv z hc e
    exact List.ne_nil_of_mem ht
  | direct e | wakeExchange e =>
    rw [e] at nl
    cases nl
  | directAnd e | wakeAnd e => cases hb
  | _ => exact h.bit hc hb

/-- Only the last completion starts to touch the group, and then the bit was set. -/
lemma touches_self (st : Step s t s') (ht : (s'.th t).pc.touches = true) :
    (s.th t).pc.touches = true ∨ 0 < s.count ∧ s.bit = true ∧ s'.directWaiters = s.directWaiters ∧
      (s'.th t).pc = .wakeLock := by
  cases st with
  | complete e hc =>
    rw [St.goto_pc] at ht ⊢
    split at ht
    case isTrue h => exact .inr ⟨hc, h.2, rfl, if_pos h⟩
    case isFalse => cases ht
  | wakeLock e _ | wakeExchange e | wakeAnd e | wakeUnlock e =>
    rw [e]
    exact .inl rfl
  | arm e | direct e =>
    rw [St.goto_pc] at ht
    split at ht <;> cases ht
  | _ => simp [St.goto, St.set, Pc.touches] at ht

/-- At most one party touches the group. -/
lemma single_step (h : Held s) (inv : Inv s) (z : s.Zero) (st : Step s t s') (i j : T)
    (hi : (s'.th i).pc.touches = true) (hj : (s'.th j).pc.touches = true) : i = j := by
  have back : ∀ k, (s'.th k).pc.touches = true → k ≠ t → (s.th k).pc.touches = true := by
    intro k hk ne
    rwa [inv.of_other Pc.touches rfl st ne] at hk
  -- two parties, one of them the one that moves: it touched the group before, or nobody did
  have pair : ∀ k, (s'.th t).pc.touches = true → (s'.th k).pc.touches = true → k = t := by
    intro k ht hk
    by_contra ne
    rcases touches_self st ht with ht | ⟨hc, -⟩
    · exact ne (h.single k t (back k hk ne) ht)
    · have := z.not_late (h.late (back k hk ne))
      omega
  by_cases ei : i = t
  · subst ei
    exact (pair j hi hj).symm
  · by_cases ej : j = t
    · subst ej
      exact pair i hj hi
    · exact h.single i j (back i hi ei) (back j hj ej)

/-- A drain that is alone finds the stack not empty. -/
lemma nears_step (h : Held s) (inv : Inv s) (al : Alone s (.move t)) (st : Step s t s') (i : T)
    (hi : (s'.th i).pc.nears = true) : s'.directWaiters ≠ [] := by
  have other : i ≠ t → (s.th i).pc.nears = true := by
    intro ne
    rwa [inv.of_other Pc.nears rfl st ne] at hi
  -- the party that moves is not on its way to the stack, unless it took the mutex just now
  have keep : (s'.th t).pc.nears = false → s.directWaiters ≠ [] := by
    intro ht
    refine h.nears i (other ?_)
    rintro rfl
    rw [ht] at hi
    cases hi
  cases st with
  | push e => exact List.cons_ne_nil t s.directWaiters
  | wakeLock e _ => exact h.nears t (by rw [e]; rfl)
  | direct e =>
    have ne : i ≠ t := by
      rintro rfl
      rw [St.goto_pc] at hi
      split at hi <;> cases hi
    have := al e i
    rw [other ne] at this
    cases this
  | wakeExchange e =>
    have ne : i ≠ t := by
      rintro rfl
      rw [St.goto_pc] at hi
      cases hi
    have hn := other ne
    refine absurd (h.single i t ?_ (by rw [e]; rfl)) ne
    cases ei : (s.th i).pc with
    | wakeLock | wakeExchange => rfl
    | _ =>
      rw [ei] at hn
      cases hn
  | complete e hc =>
    by_cases hb : s.count = 1 ∧ s.bit = true
    · exact h.bit hc hb.2
    · exact keep (by rw [St.goto_pc, if_neg hb]; rfl)
  | arm e =>
    refine keep ?_
    rw [St.goto_pc]
    split <;> rfl
  | _ => exact keep (by simp [St.goto, St.set, Pc.nears])

/-- Who touches the group is on its way to the stack or has waiters in hand. -/
lemma hands_step (h : Held s) (inv : Inv s) (st : Step s t s') (i : T)
    (hi : (s'.th i).pc.touches = true) :
    (s'.th i).pc.nears = true ∨ (s'.th i).pc.hand ≠ [] := by
  by_cases ei : i = t
  · subst ei
    have mine := h.hands i
    cases st with
    | complete e hc =>
      rw [St.goto_pc] at hi ⊢
      split at hi
      case isTrue hb =>
        rw [if_pos hb]
        exact .inl rfl
      case isFalse => cases hi
    | wakeLock e _ => exact .inl (by rw [St.goto_pc]; rfl)
    | wakeExchange e =>
      rw [St.goto_pc]
      exact .inr (h.nears i (by rw [e]; rfl))
    | wakeAnd e =>
      rw [e] at mine
      rw [St.goto_pc]
      exact .inr ((mine rfl).resolve_left nofun)
    | arm e | direct e =>
      rw [St.goto_pc] at hi
      split at hi <;> cases hi
    | _ => simp [St.goto, St.set, Pc.touches] at hi
  · rw [inv.of_other Pc.touches rfl st ei] at hi
    rw [inv.of_other Pc.nears rfl st ei, inv.of_other Pc.hand rfl st ei]
    exact h.hands i hi

/-- A step whose drain is alone keeps it. -/
lemma next (h : Held s) (inv : Inv s) (z : s.Zero) (al : Alone s a) (nx : Next s a s') :
    Held s' := by
  cases nx with
  | move st =>
    exact ⟨h.bit_step inv z st, h.single_step inv z st, h.nears_step inv al st,
      h.hands_step inv st⟩
  | add k e hk _ =>
    refine ⟨fun _ hb => ?_, h.single, h.nears, h.hands⟩
    have hc : s.count ≠ 0 := by
      intro hc
      have hb : s.bit = true := hb
      rw [al hc] at hb
      cases hb
    exact h.bit (Nat.pos_of_ne_zero hc) hb

end Held

/-- The invariant of the runs whose drains are alone. -/
structure Sound (s : St T) : Prop where
  inv : Inv s
  zero : s.Zero
  held : Held s

namespace Sound
variable {s s' : St T} {a : Act T}

/-- Nothing has happened yet. -/
lemma init (c : Nat) : Sound (WaitGroup.init T c) :=
  ⟨Inv.init c, St.Zero.init c, Held.init c⟩

/-- A step whose drain is alone keeps the invariant. -/
lemma next [DecidableEq T] (sd : Sound s) (al : Alone s a) (nx : Next s a s') : Sound s' := by
  refine ⟨sd.inv.next nx, sd.zero.next sd.inv ?_ nx, sd.held.next sd.inv sd.zero al nx⟩
  -- nobody touches a group that is reused, so nobody is going to sweep it
  rintro t k - hc all i
  have h := sd.held.mayDie sd.inv hc all i
  cases e : (s.th i).pc with
  | wakeLock | wakeExchange | wakeAnd _ =>
    rw [e] at h
    cases h
  | _ => rfl

end Sound

/-- In a run whose drains are alone nobody touches the group after the count has reached zero and every
wait has returned. -/
theorem group_may_die [DecidableEq T] {c : Nat} {s : St T} (rn : Runs Next Alone (init T c) s) : s.MayDie := by
  have sd : Sound s := rn.invariant (Sound.init c) Sound.next
  exact sd.held.mayDie sd.inv

/-- Fiber 1 parks and the last task completes; before `WakeAll` takes the mutex fiber 0 finds the count
zero and wakes both. Both waits have returned and `WakeAll` is still to come. -/
theorem group_may_die_late_waiter : ∃ s : St (Fin 3), Reaches Next (init (Fin 3) 1) s ∧
    s.count = 0 ∧ s.AllReturned ∧ (s.th 2).pc = .wakeLock ∧ ¬s.MayDie := by
  have r1 := (Runs.refl : Reaches Next (init (Fin 3) 1) _).next (.move 1) trivial (.move (.call rfl))
  have r2 := r1.next (.move 1) trivial (.move (.store rfl))
  have r3 := r2.next (.move 1) trivial (.move (.push rfl))
  have r4 := r3.next (.move 1) trivial (.move (.arm rfl))
  have r5 := r4.next (.move 1) trivial (.move (.switch rfl rfl))
  have r6 := r5.next (.move 2) trivial (.move (.complete rfl Nat.zero_lt_one))
  have r7 := r6.next (.move 0) trivial (.move (.call rfl))
  have r8 := r7.next (.move 0) trivial (.move (.store rfl))
  have r9 := r8.next (.move 0) trivial (.move (.push rfl))
  have r10 := r9.next (.move 0) trivial (.move (.arm rfl))
  have r11 := r10.next (.move 0) trivial (.move (.direct rfl))
  have r12 := r11.next (.move 0) trivial (.move (.directAnd rfl))
  have r13 := r12.next (.move 0) trivial (.move (.directResume rfl))
  have r14 := r13.next (.move 0) trivial (.move (.directResume rfl))
  have r15 := r14.next (.move 0) trivial (.move (.directDone rfl))
  have r16 := r15.next (.move 0) trivial (.move (.signaled rfl rfl))
  have r17 := r16.next (.move 0) trivial (.move (.returns rfl))
  have r18 := r17.next (.move 1) trivial (.move (.returns rfl))
  refine ⟨_, r18, rfl, ?_, rfl, fun die => ?_⟩
  · unfold St.AllReturned
    decide
  · have none := die rfl (by unfold St.AllReturned; decide) 2
    cases none

/-- Fiber 0 waits for one task and is woken by its completion; the group is let go of before that. -/
theorem group_may_die_wait : ∃ s : St (Fin 2), Runs Next Alone (init (Fin 2) 1) s ∧
    s.count = 0 ∧ s.AllReturned ∧ s.MayDie := by
  have r1 := (Runs.refl : Runs Next Alone (init (Fin 2) 1) _).next (.move 0) nofun
    (.move (.call rfl))
  have r2 := r1.next (.move 0) nofun (.move (.store rfl))
  have r3 := r2.next (.move 0) nofun (.move (.push rfl))
  have r4 := r3.next (.move 0) nofun (.move (.arm rfl))
  have r5 := r4.next (.move 0) nofun (.move (.switch rfl rfl))
  have r6 := r5.next (.move 1) nofun (.move (.complete rfl Nat.zero_lt_one))
  have r7 := r6.next (.move 1) nofun (.move (.wakeLock rfl rfl))
  have r8 := r7.next (.move 1) nofun (.move (.wakeExchange rfl))
  have r9 := r8.next (.move 1) nofun (.move (.wakeAnd rfl))
  have r10 := r9.next (.move 1) nofun (.move (.wakeUnlock rfl))
  have r11 := r10.next (.move 1) nofun (.move (.wakeResume rfl))
  have r12 := r11.next (.move 0) nofun (.move (.returns rfl))
  refine ⟨_, r12, rfl, ?_, group_may_die r12⟩
  unfold St.AllReturned
  decide

end JLib.WaitGroup
