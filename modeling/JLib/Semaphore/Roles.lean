import JLib.Semaphore.Permits

/-!
# Semaphore: what the steps of one call do

A semaphore that is used in one way only, by waiting fibers, by `Signal` and by `CancelWaiters`, as
the condition variable does. For each of the three roles this module says once what a step of a party
in that role does to the party, to the counter and to everybody else.
-/

namespace JLib.Semaphore
open LTS

variable {T : Type} [DecidableEq T]

/-- Inside `Wait` (no slot) or `WaitCancellable` (slot) on a fiber, or just back from it. -/
def Pc.waits (slot : Bool) : Pc T → Bool
  | .check b => slot && !b
  | .enter b | .parked b | .awake b => b == slot
  | .ret (.res .ok) => true
  | .ret (.res .cancelled) => slot
  | _ => false

/-- Inside `Signal`, or just back from it. -/
def Pc.signals : Pc T → Bool
  | .ret .signalled => true
  | p => p.inSignal

/-- Inside `CancelWaiters`, or just back from it. -/
def Pc.cancels : Pc T → Bool
  | .canEnter _ | .canWrite .. | .canResume .. | .ret .ejected => true
  | _ => false

/-- Back from a call. -/
def Pc.back : Pc T → Bool
  | .ret _ => true
  | _ => false

/-- A `Signal` that skips nobody and a `CancelWaiters` with one victim at most. -/
def Pc.Tame : Pc T → Prop
  | .sigWrite _ _ skip | .sigResume _ _ skip => skip = false
  | .sigRetake _ => False
  | .canWrite _ _ ws f | .canResume _ _ ws f => ws = [] ∧ f = false
  | _ => True

/-- About to take the lock of the semaphore on behalf of somebody else's wait. -/
def Pc.touches : Pc T → Bool
  | .sigEnter | .sigRetake _ | .canEnter _ => true
  | _ => false

section Steps
variable {s s' : St T} {c : World T} {t : T} {sl : Bool}

/-- What a step of a waiting party does. -/
inductive WaitStep (c : World T) (s : St T) (t : T) (sl : Bool) (s' : St T) : Prop where
  | pass :
    (s.th t).pc = .check false → s' = s.goto t (.enter true) → sl = true →
    WaitStep c s t sl s'
  | cancelled :
    ((s.th t).pc = .check false ∨ (s.th t).pc = .enter true ∧ ¬s.sem.permits > 0) →
    c.isTaskCancelled t → s' = s.goto t (.ret (.res .cancelled)) → sl = true →
    WaitStep c s t sl s'
  | take :
    (s.th t).pc = .enter sl → s.sem.permits > 0 → s' = s.takeFor t (.ret (.res .ok)) →
    WaitStep c s t sl s'
  | push (tok : CancelToken) :
    (s.th t).pc = .enter sl → ¬s.sem.permits > 0 → (sl && c.isTaskCancelled t) = false →
    s' = (s.withSem (s.sem.push t .fiber sl tok)).goto t (.parked sl) →
    WaitStep c s t sl s'
  | awake :
    (s.th t).pc = .awake sl →
    s' = s.goto t (.ret (.res (if sl then (s.th t).slot else .ok))) →
    WaitStep c s t sl s'

/-- A step of a waiting party is one of these. -/
lemma Step.waiter (st : Step c s t s') (h : (s.th t).pc.waits sl)
    (nr : ∀ r, (s.th t).pc ≠ .ret r) : WaitStep c s t sl s' := by
  cases st with
  | done e => exact absurd e (nr _)
  | @checkCancelled b e hc =>
    rw [e] at h
    obtain ⟨hs, hb⟩ := Bool.and_eq_true_iff.1 h
    cases b
    · exact .cancelled (.inl e) hc rfl hs
    · cases hb
  | @checkPass b e hc =>
    rw [e] at h
    obtain ⟨hs, hb⟩ := Bool.and_eq_true_iff.1 h
    cases b
    · exact .pass e rfl hs
    · cases hb
  | @enterTake b e hp =>
    rw [e] at h
    obtain rfl : b = sl := eq_of_beq h
    exact .take e hp rfl
  | enterCancelled e hp hc =>
    rw [e] at h
    exact .cancelled (.inr ⟨e, hp⟩) hc rfl (eq_of_beq h).symm
  | @enterPush b e hp hc =>
    rw [e] at h
    obtain rfl : b = sl := eq_of_beq h
    exact .push _ e hp hc rfl
  | @awake b e =>
    rw [e] at h
    obtain rfl : b = sl := eq_of_beq h
    exact .awake e rfl
  | call _ e | bareTake e _ | bareFail e _ | bareCancelled e _ | bareAgain e _ | tryTake e _
  | tryFail e _ | asyncTake e _ | asyncCancelled e _ _ | asyncPush e _ _ | asyncWrite e
  | sigEmpty e _ | sigPop e _ | sigTest e | sigWrite e | sigGrant e | sigSkip e | sigBack e _
  | sigNext e _ | canPass e | canWrite e | canResume e =>
    rw [e] at h
    cases h

/-- What a step of a signalling party does. -/
inductive SignalStep (c : World T) (s : St T) (t : T) (s' : St T) : Prop where
  | put :
    ((s.th t).pc = .sigEnter ∧ s.sem.waiters = [] ∨ ∃ e, (s.th t).pc = .sigRetake e) →
    s' = s.putBack t →
    SignalStep c s t s'
  | pop (w : Waiter T) (ws : List (Waiter T)) :
    ((s.th t).pc = .sigEnter ∨ ∃ e, (s.th t).pc = .sigRetake e) → s.sem.waiters = w :: ws →
    s' = (s.withSem { s.sem with waiters := ws }).goto t (.sigPop w ws) →
    SignalStep c s t s'
  | test (w : Waiter T) (e : Bool) :
    (s.th t).pc = .sigTest w e →
    s' = s.goto t (.sigWrite w e (w.slot && c.isTaskCancelled w.party)) →
    SignalStep c s t s'
  | write (w : Waiter T) (e skip : Bool) :
    (s.th t).pc = .sigWrite w e skip →
    s' = (s.writeSlot w (if skip then .cancelled else .ok)).goto t (.sigResume w e skip) →
    SignalStep c s t s'
  | grant (w : Waiter T) (e : Bool) :
    (s.th t).pc = .sigResume w e false → s' = s.grant t w →
    SignalStep c s t s'
  | skip (w : Waiter T) (e : Bool) :
    (s.th t).pc = .sigResume w e true → s' = (s.resume w).goto t (.sigRetake e) →
    SignalStep c s t s'

/-- A step of a signalling party is one of these. -/
lemma Step.signaller (st : Step c s t s') (h : (s.th t).pc.signals)
    (nr : ∀ r, (s.th t).pc ≠ .ret r) : SignalStep c s t s' := by
  cases st with
  | done e => exact absurd e (nr _)
  | sigEmpty e hq => exact .put (.inl ⟨e, hq⟩) rfl
  | sigPop e hq => exact .pop _ _ (.inl e) hq rfl
  | sigTest e => exact .test _ _ e rfl
  | sigWrite e => exact .write _ _ _ e rfl
  | sigGrant e => exact .grant _ _ e rfl
  | sigSkip e => exact .skip _ _ e rfl
  | sigBack e _ => exact .put (.inr ⟨_, e⟩) rfl
  | sigNext e hq => exact .pop _ _ (.inr ⟨_, e⟩) hq rfl
  | call _ e | checkCancelled e _ | checkPass e _ | enterTake e _ | enterCancelled e _ _
  | enterPush e _ _ | awake e | bareTake e _ | bareFail e _ | bareCancelled e _ | bareAgain e _
  | tryTake e _ | tryFail e _ | asyncTake e _ | asyncCancelled e _ _ | asyncPush e _ _
  | asyncWrite e | canPass e | canWrite e | canResume e =>
    rw [e] at h
    cases h

/-- What a step of a cancelling party does. -/
inductive CancelStep (c : World T) (s : St T) (t : T) (s' : St T) : Prop where
  | pass (tok : CancelToken) :
    (s.th t).pc = .canEnter tok →
    s' = (s.withSem (s.sem.cancelPass c tok).2).goto t
      (.canNext tok (kBuf ≤ (s.sem.cancelPass c tok).1.length) (s.sem.cancelPass c tok).1) →
    CancelStep c s t s'
  | write (tok : CancelToken) (w : Waiter T) (ws : List (Waiter T)) (f : Bool) :
    (s.th t).pc = .canWrite tok w ws f →
    s' = (s.writeSlot w .cancelled).goto t (.canResume tok w ws f) →
    CancelStep c s t s'
  | resume (tok : CancelToken) (w : Waiter T) (ws : List (Waiter T)) (f : Bool) :
    (s.th t).pc = .canResume tok w ws f →
    s' = (s.resume w).goto t (.canNext tok f ws) →
    CancelStep c s t s'

/-- A step of a cancelling party is one of these. -/
lemma Step.canceller (st : Step c s t s') (h : (s.th t).pc.cancels)
    (nr : ∀ r, (s.th t).pc ≠ .ret r) : CancelStep c s t s' := by
  cases st with
  | done e => exact absurd e (nr _)
  | canPass e => exact .pass _ e rfl
  | canWrite e => exact .write _ _ _ _ e rfl
  | canResume e => exact .resume _ _ _ _ e rfl
  | call _ e | checkCancelled e _ | checkPass e _ | enterTake e _ | enterCancelled e _ _
  | enterPush e _ _ | awake e | bareTake e _ | bareFail e _ | bareCancelled e _ | bareAgain e _
  | tryTake e _ | tryFail e _ | asyncTake e _ | asyncCancelled e _ _ | asyncPush e _ _
  | asyncWrite e | sigEmpty e _ | sigPop e _ | sigTest e | sigWrite e | sigGrant e | sigSkip e
  | sigBack e _ | sigNext e _ =>
    rw [e] at h
    cases h

/-- What a step does to the other parties: the one it resumes was switched out. -/
lemma Step.other (inv : Inv s) (st : Step c s t s') {i : T} (ne : i ≠ t) :
    (s'.th i).pc = (s.th i).pc ∨ ∃ b, (s.th i).pc = .parked b ∧ (s'.th i).pc = .awake b := by
  have woke : ∀ {w : Waiter T} {p q : Pc T}, (s.th t).pc = p → w ∈ p.hand →
      (((s.resume w).goto t q).th i).pc = (s.th i).pc ∨
        ∃ b, (s.th i).pc = .parked b ∧ (((s.resume w).goto t q).th i).pc = .awake b := by
    intro w p q e hw
    rw [St.resume_goto (inv.ne_of_hand e hw)]
    by_cases ei : i = w.party
    · subst ei
      exact .inr ⟨w.slot, inv.parked e hw, by simp [ne]⟩
    · exact .inl (by simp [ne, ei])
  cases st with
  | sigWrite e | canWrite e =>
    refine .inl ?_
    rw [St.goto_th, Function.update_of_ne ne]
    exact St.writeSlot_pc _ _ _ _
  | @sigGrant w e h =>
    have hw : w ∈ Pc.hand (.sigResume w e false) := List.mem_singleton_self w
    rw [St.grant_eq (inv.ne_of_hand h hw)]
    by_cases ei : i = w.party
    · subst ei
      exact .inr ⟨w.slot, inv.parked h hw, by simp [ne]⟩
    · exact .inl (by simp [ne, ei])
  | sigSkip e => exact woke e (List.mem_singleton_self _)
  | canResume e => exact woke e List.mem_cons_self
  | _ =>
    refine .inl ?_
    simp [St.takeFor, St.putBack, ne]

/-- A waiting party stays one. -/
lemma WaitStep.waits {sl : Bool} (inv : Inv s) (st : WaitStep c s t sl s') :
    (s'.th t).pc.waits sl := by
  cases st with
  | pass e he hs => simp [he, Pc.waits, hs]
  | cancelled e _ he hs => simp [he, Pc.waits, hs]
  | take e _ he => simp [he, Pc.waits, St.takeFor]
  | push tok e _ _ he => simp [he, Pc.waits]
  | awake e he =>
    have ok := inv.ok t
    simp only [Thread.Ok, e] at ok
    rcases ok with ⟨-, hs⟩ | ⟨-, hs, hsl⟩
    · simp [he, Pc.waits, hs]
    · simp [he, Pc.waits, hs, hsl]

/-- A signalling party stays one. -/
lemma SignalStep.signals (inv : Inv s) (st : SignalStep c s t s') : (s'.th t).pc.signals := by
  cases st with
  | put e he => simp [he, St.putBack, Pc.signals]
  | pop w ws e _ he => simp [he, Pc.sigPop, Pc.signals, Pc.inSignal]
  | test w e h he => simp [he, Pc.signals, Pc.inSignal]
  | write w e k h he => simp [he, Pc.signals, Pc.inSignal]
  | grant w e h he =>
    rw [he, St.grant_eq (inv.ne_of_hand h (List.mem_singleton_self w))]
    simp [Pc.signals]
  | skip w e h he => simp [he, Pc.signals, Pc.inSignal]

/-- A cancelling party stays one. -/
lemma CancelStep.cancels (st : CancelStep c s t s') : (s'.th t).pc.cancels := by
  have next : ∀ (tok : CancelToken) (f : Bool) (ws : List (Waiter T)),
      (Pc.canNext tok f ws).cancels := by
    intro tok f ws
    cases ws with
    | nil => cases f <;> rfl
    | cons w ws => rfl
  cases st with
  | pass tok e he => simp [he, next]
  | write tok w ws f e he => simp [he, Pc.cancels]
  | resume tok w ws f e he => simp [he, next]

/-- A waiting party adds no permit. -/
lemma WaitStep.permits (st : WaitStep c s t sl s') : s'.sem.permits ≤ s.sem.permits := by
  cases st with
  | pass _ e _ | cancelled _ _ e _ | push _ _ _ _ e | awake _ e =>
    rw [e]
    exact Int.le_refl _
  | take _ _ e =>
    rw [e]
    show s.sem.permits - 1 ≤ s.sem.permits
    omega

/-- A signalling party that adds a permit has finished. -/
lemma SignalStep.permits (st : SignalStep c s t s') :
    s'.sem.permits ≤ s.sem.permits ∨ (s'.th t).pc.back := by
  cases st with
  | put _ e =>
    refine .inr ?_
    simp [e, St.putBack, Pc.back]
  | pop _ _ _ _ e | test _ _ _ e | write _ _ _ _ e | grant _ _ _ e | skip _ _ _ e =>
    rw [e]
    exact .inl (Int.le_refl _)

/-- A cancelling party adds no permit. -/
lemma CancelStep.permits (st : CancelStep c s t s') : s'.sem.permits = s.sem.permits := by
  cases st with
  | pass _ _ e | write _ _ _ _ _ e | resume _ _ _ _ _ e =>
    rw [e]
    rfl

/-- A waiting party wakes nobody. -/
lemma WaitStep.wakes {i : T} (st : WaitStep c s t sl s') (ne : i ≠ t) :
    (s'.th i).pc = (s.th i).pc := by
  cases st with
  | pass _ e _ | cancelled _ _ e _ | push _ _ _ _ e | awake _ e | take _ _ e =>
    simp [e, St.takeFor, ne]

/-- A tame `Signal` has finished when it has let its waiter go. -/
lemma SignalStep.wakes {i : T} (inv : Inv s) (st : SignalStep c s t s') (tm : (s.th t).pc.Tame)
    (ne : i ≠ t) : (s'.th i).pc = (s.th i).pc ∨ (s'.th t).pc.back := by
  cases st with
  | put _ e =>
    refine .inr ?_
    simp [e, St.putBack, Pc.back]
  | grant w _ h e =>
    refine .inr ?_
    simp [e, St.grant_eq (inv.ne_of_hand h (List.mem_singleton_self w)), Pc.back]
  | pop _ _ _ _ e | test _ _ _ e =>
    refine .inl ?_
    simp [e, ne]
  | write _ _ _ _ e =>
    refine .inl ?_
    rw [e, St.goto_th, Function.update_of_ne ne]
    exact St.writeSlot_pc _ _ _ _
  | skip w e h _ =>
    rw [h] at tm
    cases tm

/-- A tame `CancelWaiters` has finished when it has let its one victim go. -/
lemma CancelStep.wakes {i : T} (st : CancelStep c s t s') (tm : (s.th t).pc.Tame)
    (ne : i ≠ t) : (s'.th i).pc = (s.th i).pc ∨ (s'.th t).pc.back := by
  cases st with
  | pass _ _ e =>
    refine .inl ?_
    simp [e, ne]
  | write _ _ _ _ _ e =>
    refine .inl ?_
    rw [e, St.goto_th, Function.update_of_ne ne]
    exact St.writeSlot_pc _ _ _ _
  | resume tok w ws f h e =>
    rw [h] at tm
    obtain ⟨rfl, rfl⟩ := tm
    refine .inr ?_
    simp [e, Pc.canNext, Pc.back]

omit [DecidableEq T] in
/-- A waiting party is tame. -/
lemma Pc.tame_of_waits {p : Pc T} (h : p.waits sl) : p.Tame := by
  cases p with
  | sigWrite _ _ _ | sigResume _ _ _ | sigRetake _ | canWrite _ _ _ _ | canResume _ _ _ _ => cases h
  | _ => trivial

/-- A `Signal` that finds its waiter not cancelled stays tame. -/
lemma SignalStep.tame (inv : Inv s) (st : SignalStep c s t s') (tm : (s.th t).pc.Tame)
    (skip : ∀ w e, (s.th t).pc = .sigTest w e → (w.slot && c.isTaskCancelled w.party) = false) :
    (s'.th t).pc.Tame := by
  cases st with
  | put _ e => simp [e, St.putBack, Pc.Tame]
  | pop _ _ _ _ e => simp [e, Pc.sigPop, Pc.Tame]
  | test w e h he => simp only [he, St.goto_th, Function.update_self, Pc.Tame, skip w e h]
  | write w e k h he =>
    rw [h] at tm
    rw [he, St.goto_th, Function.update_self]
    exact tm
  | grant w e h he => simp [he, St.grant_eq (inv.ne_of_hand h (List.mem_singleton_self w)), Pc.Tame]
  | skip w e h he =>
    rw [h] at tm
    cases tm

/-- With one waiter at most there is one victim at most. -/
lemma CancelStep.tame (st : CancelStep c s t s') (tm : (s.th t).pc.Tame)
    (one : s.sem.waiters.length ≤ 1) : (s'.th t).pc.Tame := by
  cases st with
  | pass tok h e =>
    have sub : (s.sem.cancelPass c tok).1.Sublist s.sem.waiters := eject_victims_sublist _ _ _
    have len := Nat.le_trans sub.length_le one
    rw [e, St.goto_th, Function.update_self]
    show (Pc.canNext tok _ _).Tame
    generalize (s.sem.cancelPass c tok).1 = l at len
    match l, len with
    | [], _ => trivial
    | [w], _ => exact ⟨rfl, rfl⟩
  | write tok w ws f h e =>
    rw [h] at tm
    rw [e, St.goto_th, Function.update_self]
    exact tm
  | resume tok w ws f h e =>
    rw [h] at tm
    obtain ⟨rfl, rfl⟩ := tm
    rw [e, St.goto_th, Function.update_self]
    trivial

end Steps
end JLib.Semaphore
