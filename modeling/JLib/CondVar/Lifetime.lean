import JLib.CondVar.Custody

/-!
# Condition variable: the life of a waiter's semaphore

`waitingQueue` and the local variables of notifiers and cancellers hold pointers into the frames of
waiting calls. A waiter may leave in two ways: somebody took its pointer out of the queue and woke it,
or its own cancellation test said so. The second way does not ask whether somebody has the pointer, and
a `Signal` that skips the waiter takes the semaphore's lock once more after it let the waiter go.
`Guard` excludes exactly these: under it, a semaphore that is still going to be used is alive.
-/

namespace JLib.CondVar
open LTS

variable {T : Type} [DecidableEq T]

/-- In a waiting call with its semaphore call at `q`: cancelled, the entry not yet looked for. -/
def Pc.Withdraws (p : Pc) (q : Semaphore.Pc T) : Prop :=
  match p with
  | .waiting _ _ => q = .ret (.res .cancelled)
  | .sweep _ => True
  | _ => False

/-- In a waiting call with its semaphore call at `q`: woken, or on the way to the mutex. -/
def Pc.Leaves (p : Pc) (q : Semaphore.Pc T) : Prop :=
  match p with
  | .waiting _ sl => q = .awake sl ∨ q = .ret (.res .ok)
  | .lock _ _ | .locking _ _ => True
  | _ => False

namespace St

/-- `i` has the pointer to `k` and has not finished with it. -/
def Uses (s : St T) (i : T) (k : Nat) : Prop :=
  k ∈ (s.th i).pc.hand ∧ ((s.th i).pc.active = some k → ¬((s.sem k).th i).pc.back)

/-- Nobody will use `k` any more. -/
def Left (s : St T) (k : Nat) : Prop := k ∉ s.places none ∧ ∀ i, ¬s.Uses i k

/-- What the next step of a party takes out of the queue. -/
def taken (s : St T) (a : World T × T) : List Nat :=
  match (s.th a.2).pc with
  | .notify all => if all then s.queue.map (·.sem) else (s.queue.map (·.sem)).take 1
  | .canEnter tok => (s.cancelPass a.1 tok).1.map (·.sem)
  | _ => []

/-- A waiter's own test is about to answer that it is cancelled. -/
def SelfCancels (s : St T) (a : World T × T) (k : Nat) : Prop :=
  (s.th a.2).pc.own = some k ∧ a.1.isTaskCancelled a.2 ∧
    (((s.sem k).th a.2).pc = .check false ∨
      ((s.sem k).th a.2).pc = .enter true ∧ ¬(s.sem k).sem.permits > 0)

/-- The waiter has found out that it is cancelled and has not yet looked for its entry. -/
def Withdrawing (s : St T) (i : T) (k : Nat) : Prop :=
  (s.th i).pc.own = some k ∧ (s.th i).pc.Withdraws ((s.sem k).th i).pc

/-- The waiter is on its way out and has nothing more to do with the queue. -/
def Leaving (s : St T) (i : T) (k : Nat) : Prop :=
  (s.th i).pc.own = some k ∧ (s.th i).pc.Leaves ((s.sem k).th i).pc

end St

/-- The condition on a step: a waiter does not answer its own cancellation while somebody who has
its pointer is not finished with it, nobody takes out a waiter that is withdrawing, and no `Signal`
finds the waiter it popped cancelled. -/
structure Guard (s : St T) (a : World T × T) : Prop where
  self : ∀ k, s.SelfCancels a k → ∀ i, ¬s.Uses i k
  take : ∀ k ∈ s.taken a, ∀ i, ¬s.Withdrawing i k
  skip : ∀ k w e, (s.th a.2).pc.active = some k → ((s.sem k).th a.2).pc = .sigTest w e →
    (w.slot && a.1.isTaskCancelled w.party) = false

section Stable
variable {s s' : St T} {c : World T} {t i : T} {k : Nat}

omit [DecidableEq T] in
/-- What a step takes out was queued. -/
lemma St.taken_queued (h : k ∈ s.taken (c, t)) : k ∈ s.places none := by
  unfold St.taken at h
  simp only [St.places]
  split at h
  · split at h
    · exact h
    · exact List.mem_of_mem_take h
  · exact ((eject_victims_sublist _ _ _).map _).subset h
  · cases h

/-- In a semaphore, other parties stay where they are or are let run. -/
lemma Step.pc_other (rl : Roles s) (st : Step c s t s') (ne : i ≠ t) :
    ((s'.sem k).th i).pc = ((s.sem k).th i).pc ∨
      ∃ b, ((s.sem k).th i).pc = .parked b ∧ ((s'.sem k).th i).pc = .awake b := by
  rcases st.sem_cases with e | ⟨j, m, e, st⟩
  · rw [e]
    exact .inl rfl
  · by_cases ej : k = j
    · subst ej
      rw [e, Function.update_self]
      exact st.other (rl.inv k) ne
    · rw [e, Function.update_of_ne ej]
      exact .inl rfl

/-- Other parties stay inside their calls, or outside. -/
lemma Step.back_other (rl : Roles s) (st : Step c s t s') (ne : i ≠ t) :
    ((s'.sem k).th i).pc.back = ((s.sem k).th i).pc.back := by
  rcases st.pc_other rl ne with e | ⟨b, e, e'⟩
  · rw [e]
  · rw [e, e']
    rfl

omit [DecidableEq T] in
/-- The pointers after the current one are still to be used. -/
lemma uses_of_rest (nm : Names s) {j : Nat} {ks : List Nat} (hh : (s.th i).pc.hand = j :: ks)
    (ha : (s.th i).pc.active = some j) (hk : k ∈ ks) : s.Uses i k := by
  refine ⟨by rw [hh]; exact List.mem_cons_of_mem j hk, fun hb => ?_⟩
  have nd : (j :: ks).Nodup := hh ▸ nm.cus.nodup (some i)
  rw [ha] at hb
  cases hb
  exact absurd hk (List.nodup_cons.1 nd).1

/-- A use after a step was one before it, or the pointer was just taken out of the queue. -/
lemma St.Uses.of_step (nm : Names s) (rl : Roles s) (st : Step c s t s') (h : s'.Uses i k) :
    s.Uses i k ∨ k ∈ s.taken (c, t) := by
  obtain ⟨hk, hb⟩ := h
  by_cases ei : i = t
  · subst ei
    cases st with
    | user _ _ | mutex _ _ _ _ => exact .inl ⟨hk, hb⟩
    | inside h0 _ nr st =>
      refine .inl ⟨hk, fun ha hr => ?_⟩
      rw [show (s.th i).pc.active = some k from ha] at h0
      cases h0
      cases e : ((s.sem k).th i).pc with
      | ret r => exact nr r e
      | _ => rw [e] at hr; cases hr
    | @notify all e =>
      rw [St.dequeue_pc, Pc.hand_signalNext] at hk
      refine .inr ?_
      simpa only [St.taken, e] using hk
    | @canPass tok e =>
      rw [St.goto_pc, Pc.hand_canNext] at hk
      refine .inr ?_
      simpa only [St.taken, e] using hk
    | @signal j ks e _ =>
      rw [St.goto_pc] at hk
      refine .inl ⟨by rw [e]; exact hk, fun ha => ?_⟩
      rw [e] at ha
      cases ha
    | @cancel tok j ks f e _ =>
      rw [St.goto_pc] at hk
      refine .inl ⟨by rw [e]; exact hk, fun ha => ?_⟩
      rw [e] at ha
      cases ha
    | @signalled j ks e _ =>
      rw [St.goto_pc, Pc.hand_signalNext] at hk
      exact .inl (uses_of_rest nm (by rw [e]; rfl) (by rw [e]; rfl) hk)
    | @cancelled tok j ks f e _ =>
      rw [St.goto_pc, Pc.hand_canNext] at hk
      exact .inl (uses_of_rest nm (by rw [e]; rfl) (by rw [e]; rfl) hk)
    | callWait sl _ _ _ =>
      rw [St.goto_pc] at hk
      cases sl <;> cases hk
    | callBareWait sl n _ _ _ =>
      rw [St.goto_pc] at hk
      cases sl <;> cases hk
    | @waited j sl r e _ =>
      rw [St.goto_pc] at hk
      cases r <;> cases hk
    | push _ _ =>
      rw [St.enqueue_pc] at hk
      cases hk
    | _ =>
      rw [St.goto_pc] at hk
      cases hk
  · rw [st.th_other ei] at hk hb
    rw [st.back_other rl ei] at hb
    exact .inl ⟨hk, hb⟩

/-- A semaphore that is not new is not queued anew. -/
lemma St.places_step (st : Step c s t s') (lt : k < s.next) (h : k ∈ s'.places none) :
    k ∈ s.places none := by
  cases st with
  | push _ _ =>
    have hk : k ∈ s.places none ∨ k = s.next := by
      simpa [St.places, St.enqueue, St.goto, St.set] using h
    rcases hk with hk | rfl
    · exact hk
    · exact absurd lt (Nat.lt_irrefl _)
  | @sweep j _ =>
    have sub : (s.queue.filter (·.sem ≠ j)).Sublist s.queue := List.filter_sublist
    exact (sub.map _).subset h
  | @notify all _ =>
    have h' : k ∈ (if all then [] else s.queue.tail).map (·.sem) := h
    cases all with
    | true => cases h'
    | false => exact ((List.tail_sublist s.queue).map _).subset h'
  | canPass _ => exact ((eject_keep_sublist _ _ _).map _).subset h
  | _ => exact h

/-- Once nobody will use a semaphore, nobody ever will. -/
lemma St.Left.step (lf : s.Left k) (nm : Names s) (rl : Roles s) (st : Step c s t s')
    (lt : k < s.next) : s'.Left k := by
  refine ⟨fun hq => lf.1 (St.places_step st lt hq), fun i hu => ?_⟩
  rcases hu.of_step nm rl st with hu | hu
  · exact lf.2 i hu
  · exact lf.1 (St.taken_queued hu)

omit [DecidableEq T] in
/-- The call that finished with a semaphore was the last that would use it. -/
lemma St.left_of_back (nm : Names s) (hk : k ∈ (s.th t).pc.hand)
    (ha : (s.th t).pc.active = some k) (hb : ((s.sem k).th t).pc.back) : s.Left k := by
  refine ⟨fun hq => ?_, fun i hu => ?_⟩
  · cases nm.cus.unique hq (show k ∈ s.places (some t) from hk)
  · obtain rfl : i = t := Option.some.inj
      (nm.cus.unique (show k ∈ s.places (some i) from hu.1) (show k ∈ s.places (some t) from hk))
    exact hu.2 ha hb

/-- A waiter that is not taken out gets no new user. -/
lemma no_use_step (nm : Names s) (rl : Roles s) (st : Step c s t s')
    (none : ∀ i, ¬s.Uses i k) (nt : k ∉ s.taken (c, t)) (i : T) : ¬s'.Uses i k := by
  intro hu
  rcases hu.of_step nm rl st with hu | hu
  · exact none i hu
  · exact nt hu

/-- Who is inside somebody's semaphore and is not its owner has the pointer. -/
lemma Roles.hand_of_role (p : Pc) (ha : p.active = some k) (ho : p.own ≠ some k) :
    k ∈ p.hand := by
  cases p with
  | waiting j sl => exact absurd ha ho
  | signalling j ks | cancelling tok j ks f =>
    cases ha
    exact List.mem_cons_self
  | _ => cases ha

/-- Who is inside a semaphore and has one of its own waits on it. -/
lemma Pc.waiting_of {p : Pc} {j : Nat} (ha : p.active = some j) (ho : p.own = some k) :
    j = k ∧ ∃ sl, p = .waiting j sl := by
  cases p with
  | waiting i sl =>
    cases ha
    cases ho
    exact ⟨rfl, sl, rfl⟩
  | signalling _ _ | cancelling _ _ _ _ => cases ho
  | _ => cases ha

/-- Whoever is parked in a semaphore owns it. -/
lemma Roles.own_of_parked (rl : Roles s) {b : Bool} (h : ((s.sem k).th i).pc = .parked b) :
    (s.th i).pc.own = some k := by
  have ha : (s.th i).pc.active = some k := by
    by_contra ne
    rw [rl.quiet i k ne] at h
    cases h
  have ro := rl.role i k ha
  rw [h] at ro
  cases e : (s.th i).pc with
  | waiting j sl =>
    rw [e] at ha
    exact ha
  | _ =>
    rw [e] at ro
    cases ro

/-- The waiters of a waiting call's semaphore are the caller: there is one at most. -/
lemma Roles.waiters_le (nm : Names s) (rl : Roles s) : (s.sem k).sem.waiters.length ≤ 1 := by
  have nd := (rl.inv k).cus.cus.nodup none
  have own : ∀ w ∈ (s.sem k).sem.waiters, (s.th w.party).pc.own = some k := fun w hw =>
    rl.own_of_parked ((rl.inv k).cus.queued w hw).1
  simp only [Handoff.places] at nd
  rcases h : (s.sem k).sem.waiters with - | ⟨v, - | ⟨w, ws⟩⟩
  · exact Nat.zero_le _
  · exact Nat.le_refl _
  · rw [h] at nd own
    have e := nm.one v.party w.party k (own v List.mem_cons_self)
      (own w (List.mem_cons_of_mem _ List.mem_cons_self))
    exact absurd (List.mem_map.2 ⟨w, List.mem_cons_self, e.symm⟩) (List.nodup_cons.1 nd).1

/-- A semaphore with a permit has been handed out. -/
lemma Roles.lt_of_permit (rl : Roles s) (h : (s.sem k).sem.permits > 0) : k < s.next := by
  by_contra ge
  rw [rl.fresh k (Nat.le_of_not_lt ge)] at h
  exact absurd h (Int.lt_irrefl 0)

/-- Why nobody uses a semaphore whose waiter has left. -/
structure Lifetime (s : St T) : Prop where
  tame : ∀ i k, ((s.sem k).th i).pc.Tame
  permit : ∀ k, (s.sem k).sem.permits > 0 → s.Left k
  leaving : ∀ i k, s.Leaving i k → s.Left k
  withdrawing : ∀ i k, s.Withdrawing i k → ∀ j, ¬s.Uses j k
  dead : ∀ k, k < s.next → ¬s.Alive k → s.Left k

namespace Lifetime

omit [DecidableEq T] in
/-- There is no semaphore yet. -/
lemma init : Lifetime (CondVar.init T) where
  tame _ _ := trivial
  permit _ h := absurd h (Int.lt_irrefl 0)
  leaving _ _ h := h.2.elim
  withdrawing _ _ h := h.2.elim
  dead k lt := absurd lt (Nat.not_lt_zero k)

/-- A step inside a semaphore under the condition is tame. -/
lemma tame_inside (lf : Lifetime s) (nm : Names s) (rl : Roles s) (g : Guard s (c, t))
    {m : Semaphore.St T} (ha : (s.th t).pc.active = some k)
    (nr : ∀ r, ((s.sem k).th t).pc ≠ .ret r) (st : Semaphore.Step c (s.sem k) t m) :
    (m.th t).pc.Tame := by
  have ro := rl.role t k ha
  cases e : (s.th t).pc with
  | waiting j sl =>
    rw [e] at ro
    exact Semaphore.Pc.tame_of_waits ((st.waiter ro nr).waits (rl.inv k))
  | signalling j ks =>
    rw [e] at ro
    exact (st.signaller ro nr).tame (rl.inv k) (lf.tame t k) fun w b h => g.skip k w b ha h
  | cancelling tok j ks f =>
    rw [e] at ro
    exact (st.canceller ro nr).tame (lf.tame t k) (rl.waiters_le nm)
  | _ =>
    rw [e] at ha
    cases ha

/-- A step under the condition keeps the calls on every semaphore tame. -/
lemma tame_step (lf : Lifetime s) (nm : Names s) (rl : Roles s) (g : Guard s (c, t))
    (st : Step c s t s') (i : T) (k : Nat) : ((s'.sem k).th i).pc.Tame := by
  by_cases ei : i = t
  · subst ei
    -- the step inside a semaphore is the one that needs the guard
    have upd : ∀ {j : Nat} {m : Semaphore.St T}, (m.th i).pc.Tame →
        ((Function.update s.sem j m k).th i).pc.Tame := by
      intro j m tm
      by_cases e : k = j
      · rw [e, Function.update_self]
        exact tm
      · rw [Function.update_of_ne e]
        exact lf.tame i k
    cases st with
    | inside ha _ nr st => exact upd (lf.tame_inside nm rl g ha nr st)
    | @semWait k sl _ _ =>
      apply upd
      cases sl <;> simp [Semaphore.Op.entry, Semaphore.Pc.Tame]
    | signal _ _ | cancel _ _ =>
      apply upd
      simp [Semaphore.Op.entry, Semaphore.Pc.Tame]
    | waited _ _ | signalled _ _ | cancelled _ _ =>
      apply upd
      simp [Semaphore.Pc.Tame]
    | _ => exact lf.tame i k
  · rcases st.pc_other rl ei with e | ⟨b, -, e⟩
    · rw [e]
      exact lf.tame i k
    · rw [e]
      trivial

/-- A `Signal` or a `CancelWaiters` that adds a permit or wakes somebody was the last user. -/
lemma left_inside (lf : Lifetime s) (nm : Names s) (rl : Roles s) {m : Semaphore.St T}
    (ha : (s.th t).pc.active = some k) (nr : ∀ r, ((s.sem k).th t).pc ≠ .ret r)
    (st : Semaphore.Step c (s.sem k) t m) :
    (m.sem.permits ≤ (s.sem k).sem.permits ∧ ∀ i, i ≠ t → (m.th i).pc = ((s.sem k).th i).pc) ∨
      (s.withSem k m).Left k := by
  have ro := rl.role t k ha
  by_cases hb : k ∈ (s.th t).pc.hand ∧ (m.th t).pc.back
  · refine .inr ?_
    have nm' : Names (s.withSem k m) := nm.congr rfl rfl rfl
    apply St.left_of_back nm' hb.1 ha
    show ((Function.update s.sem k m k).th t).pc.back
    rw [Function.update_self]
    exact hb.2
  · refine .inl ?_
    cases e : (s.th t).pc with
    | waiting j sl =>
      rw [e] at ro
      have ws := st.waiter ro nr
      exact ⟨ws.permits, fun i ne => ws.wakes ne⟩
    | signalling j ks =>
      rw [e] at ro ha hb
      cases ha
      have ss := st.signaller ro nr
      have nb : ¬(m.th t).pc.back := fun h => hb ⟨List.mem_cons_self, h⟩
      exact ⟨ss.permits.resolve_right nb, fun i ne =>
        (ss.wakes (rl.inv k) (lf.tame t k) ne).resolve_right nb⟩
    | cancelling tok j ks f =>
      rw [e] at ro ha hb
      cases ha
      have cs := st.canceller ro nr
      have nb : ¬(m.th t).pc.back := fun h => hb ⟨List.mem_cons_self, h⟩
      exact ⟨cs.permits.le, fun i ne => (cs.wakes (lf.tame t k) ne).resolve_right nb⟩
    | _ =>
      rw [e] at ha
      cases ha

/-- A step that adds a permit to a semaphore or wakes its waiter was the last use of it. -/
lemma left_or_same (lf : Lifetime s) (nm : Names s) (rl : Roles s) (st : Step c s t s') (k : Nat) :
    ((s'.sem k).sem.permits ≤ (s.sem k).sem.permits ∧
      ∀ i, i ≠ t → ((s'.sem k).th i).pc = ((s.sem k).th i).pc) ∨ s'.Left k := by
  have upd : ∀ {j : Nat} {h : Semaphore.Thread T},
      (Function.update s.sem j ((s.sem j).set t h) k).sem.permits ≤ (s.sem k).sem.permits ∧
        ∀ i, i ≠ t →
          ((Function.update s.sem j ((s.sem j).set t h) k).th i).pc = ((s.sem k).th i).pc := by
    intro j h
    by_cases e : k = j
    · subst e
      refine ⟨by simp, fun i ne => ?_⟩
      simp [ne]
    · rw [Function.update_of_ne e]
      exact ⟨le_rfl, fun _ _ => rfl⟩
  cases st with
  | @inside j m ha _ nr st =>
    by_cases e : k = j
    · subst e
      have h := lf.left_inside nm rl ha nr st
      simpa only [St.withSem, Function.update_self] using h
    · refine .inl ?_
      simp [St.withSem, e]
  | semWait _ _ | signal _ _ | cancel _ _ | waited _ _ | signalled _ _ | cancelled _ _ =>
    exact .inl upd
  | _ => exact .inl ⟨le_rfl, fun _ _ => rfl⟩

/-- A semaphore with a permit is done with. -/
lemma permit_step (lf : Lifetime s) (nm : Names s) (rl : Roles s) (st : Step c s t s') (k : Nat)
    (h : (s'.sem k).sem.permits > 0) : s'.Left k := by
  rcases lf.left_or_same nm rl st k with ⟨le, -⟩ | h
  · have hp : (s.sem k).sem.permits > 0 := Int.lt_of_lt_of_le h le
    exact (lf.permit k hp).step nm rl st (rl.lt_of_permit hp)
  · exact h

/-- The moving party comes to leave after it has been woken or has withdrawn. -/
lemma leaving_self (lf : Lifetime s) (nm : Names s) (rl : Roles s) (st : Step c s t s')
    (h : s'.Leaving t k) : s.Leaving t k ∨ (s.sem k).sem.permits > 0 ∨ s'.Left k := by
  obtain ⟨ho, hl⟩ := h
  cases st with
  | user _ _ | mutex _ _ _ _ => exact .inl ⟨ho, hl⟩
  | @inside j m ha _ nr st =>
    obtain ⟨rfl, sl, e⟩ := Pc.waiting_of ha ho
    have ro := rl.role t j ha
    have hl : (s.th t).pc.Leaves ((Function.update s.sem j m j).th t).pc := hl
    rw [e] at ro hl
    rw [Function.update_self] at hl
    cases st.waiter ro nr with
    | pass _ he _ | push _ _ _ _ he | cancelled _ _ he _ => simp [he, Pc.Leaves] at hl
    | take _ hp _ => exact .inr (.inl hp)
    | awake ha _ => exact .inl ⟨by rw [e]; rfl, by rw [e]; exact .inl ha⟩
  | @waited j sl r e back =>
    rw [St.goto_pc] at ho hl
    cases r with
    | ok =>
      cases ho
      exact .inl ⟨by rw [e]; rfl, by rw [e]; exact .inr back⟩
    | cancelled => exact hl.elim
  | @sweep j e =>
    rw [St.goto_pc] at ho
    cases ho
    refine .inr (.inr ⟨fun hq => ?_, ?_⟩)
    · obtain ⟨w, hw, hk⟩ := List.mem_map.1 hq
      exact absurd hk (of_decide_eq_true (List.mem_filter.1 hw).2)
    · have wd : s.Withdrawing t k := ⟨by rw [e]; rfl, by rw [e]; trivial⟩
      exact no_use_step (c := c) nm rl (.sweep e) (lf.withdrawing t k wd) (by simp [St.taken, e])
  | @lock j r e _ =>
    rw [St.goto_pc] at ho
    cases ho
    exact .inl ⟨by rw [e]; rfl, by rw [e]; trivial⟩
  | @semWait j sl e _ =>
    rw [St.goto_pc] at ho hl
    cases ho
    simp only [Pc.Leaves, St.semCall, St.withSem, St.goto, St.set, Function.update_self,
      Semaphore.St.set_th] at hl
    cases sl <;> simp [Semaphore.Op.entry] at hl
  | notify _ =>
    rw [St.dequeue_pc, Pc.own_signalNext] at ho
    cases ho
  | signalled _ _ =>
    rw [St.goto_pc, Pc.own_signalNext] at ho
    cases ho
  | canPass _ | cancelled _ _ =>
    rw [St.goto_pc, Pc.own_canNext] at ho
    cases ho
  | callWait sl _ _ _ =>
    rw [St.goto_pc] at ho
    cases sl <;> cases ho
  | callBareWait sl _ _ _ _ =>
    rw [St.goto_pc] at ho
    cases sl <;> cases ho
  | push _ _ =>
    rw [St.enqueue_pc] at hl
    exact hl.elim
  | _ =>
    rw [St.goto_pc] at hl
    exact hl.elim

/-- A waiter that leaves has a semaphore that is done with. -/
lemma leaving_step (lf : Lifetime s) (nm : Names s) (rl : Roles s) (st : Step c s t s')
    (h : s'.Leaving i k) : s'.Left k := by
  have old : s.Leaving i k → s'.Left k := fun h =>
    (lf.leaving i k h).step nm rl st (nm.owned i k h.1)
  by_cases ei : i = t
  · subst ei
    rcases lf.leaving_self nm rl st h with h' | h' | h'
    · exact old h'
    · exact (lf.permit k h').step nm rl st (rl.lt_of_permit h')
    · exact h'
  · rcases lf.left_or_same nm rl st k with ⟨-, same⟩ | h'
    · refine old ?_
      have h : (s'.th i).pc.own = some k ∧ (s'.th i).pc.Leaves ((s'.sem k).th i).pc := h
      rw [st.th_other ei, same i ei] at h
      exact h
    · exact h'

/-- A waiter that finds itself cancelled is alone with its semaphore. -/
lemma withdrawing_self (rl : Roles s) (g : Guard s (c, t)) (lf : Lifetime s) (st : Step c s t s')
    (h : s'.Withdrawing t k) : ∀ j, ¬s.Uses j k := by
  obtain ⟨ho, hw⟩ := h
  cases st with
  | user _ _ | mutex _ _ _ _ => exact lf.withdrawing t k ⟨ho, hw⟩
  | @inside j m ha _ nr st =>
    obtain ⟨rfl, sl, e⟩ := Pc.waiting_of ha ho
    have ro := rl.role t j ha
    have hw : (s.th t).pc.Withdraws ((Function.update s.sem j m j).th t).pc := hw
    rw [e] at ro hw
    rw [Function.update_self] at hw
    cases st.waiter ro nr with
    | pass _ he _ | push _ _ _ _ he => simp [he, Pc.Withdraws] at hw
    | take _ _ he => simp [he, Semaphore.St.takeFor, Pc.Withdraws] at hw
    | cancelled hp hc _ _ => exact g.self j ⟨ho, hc, hp⟩
    | awake he _ =>
      have lv : s.Leaving t j := ⟨ho, by rw [e]; exact .inl he⟩
      exact (lf.leaving t j lv).2
  | @waited j sl r e back =>
    rw [St.goto_pc] at ho hw
    cases r with
    | ok => exact hw.elim
    | cancelled =>
      cases ho
      exact lf.withdrawing t k ⟨by rw [e]; rfl, by rw [e]; exact back⟩
  | @semWait j sl e _ =>
    rw [St.goto_pc] at ho hw
    cases ho
    simp only [Pc.Withdraws, St.semCall, St.withSem, St.goto, St.set, Function.update_self,
      Semaphore.St.set_th] at hw
    cases sl <;> simp [Semaphore.Op.entry] at hw
  | notify _ =>
    rw [St.dequeue_pc, Pc.own_signalNext] at ho
    cases ho
  | signalled _ _ =>
    rw [St.goto_pc, Pc.own_signalNext] at ho
    cases ho
  | canPass _ | cancelled _ _ =>
    rw [St.goto_pc, Pc.own_canNext] at ho
    cases ho
  | callWait sl _ _ _ =>
    rw [St.goto_pc] at ho
    cases sl <;> cases ho
  | callBareWait sl _ _ _ _ =>
    rw [St.goto_pc] at ho
    cases sl <;> cases ho
  | push _ _ =>
    rw [St.enqueue_pc] at hw
    exact hw.elim
  | _ =>
    rw [St.goto_pc] at hw
    exact hw.elim

/-- A semaphore is given up when the call has the mutex back. -/
lemma own_lost (st : Step c s t s') (h : (s.th t).pc.own = some k)
    (h' : (s'.th t).pc.own ≠ some k) : ∃ r, (s.th t).pc = .locking k r := by
  cases st with
  | user _ _ | mutex _ _ _ _ | inside _ _ _ _ => exact absurd h h'
  | @locked j r e _ =>
    rw [e] at h
    cases h
    exact ⟨r, e⟩
  | @waited j sl r e _ =>
    rw [e] at h
    rw [St.goto_pc] at h'
    cases r <;> exact absurd h h'
  | unlock e _ _ | unlocked e _ | semWait e _ | sweep e | lock e _ =>
    rw [e] at h
    rw [St.goto_pc] at h'
    exact absurd h h'
  | callWait _ e _ _ | callBareWait _ _ e _ _ | callNotify _ e _ | callCancel _ e _ | done e
  | checkCancelled e _ | checkPass e _ | pushCancelled e _ | push e _ | bareCancelled e _
  | barePass e _ | bareUnlock e _ _ | bareUnlocked e _ | bareLock e _ | bareLocked e _ | bareEnd e
  | notify e | signal e _ | signalled e _ | canPass e | cancel e _ | cancelled e _ =>
    rw [e] at h
    cases h

/-- A semaphore is made by the call that queues it. -/
lemma next_step (st : Step c s t s') :
    s'.next = s.next ∨ s'.next = s.next + 1 ∧ (s'.th t).pc.own = some s.next := by
  cases st with
  | push _ _ => exact .inr ⟨rfl, by rw [St.enqueue_pc]; rfl⟩
  | _ => exact .inl rfl

/-- Whoever has a semaphore had it before, or has just made it. -/
lemma own_gained (st : Step c s t s') (h : (s'.th t).pc.own = some k) :
    (s.th t).pc.own = some k ∨ k = s.next := by
  cases st with
  | user _ _ | mutex _ _ _ _ | inside _ _ _ _ => exact .inl h
  | push _ _ =>
    rw [St.enqueue_pc] at h
    exact .inr (Option.some.inj h).symm
  | @waited j sl r e _ =>
    rw [St.goto_pc] at h
    rw [e]
    cases r <;> exact .inl h
  | unlock e _ _ | unlocked e _ | semWait e _ | sweep e | lock e _ =>
    rw [St.goto_pc] at h
    rw [e]
    exact .inl h
  | notify _ =>
    rw [St.dequeue_pc, Pc.own_signalNext] at h
    cases h
  | signalled _ _ =>
    rw [St.goto_pc, Pc.own_signalNext] at h
    cases h
  | canPass _ | cancelled _ _ =>
    rw [St.goto_pc, Pc.own_canNext] at h
    cases h
  | callWait sl _ _ _ | callBareWait sl _ _ _ _ =>
    rw [St.goto_pc] at h
    cases sl <;> cases h
  | _ =>
    rw [St.goto_pc] at h
    cases h

/-- A waiter does not take itself out. -/
lemma not_taken (nm : Names s) (st : Step c s t s') (h : (s'.th t).pc.own = some k) :
    k ∉ s.taken (c, t) := by
  intro tk
  rcases own_gained st h with h | rfl
  · unfold St.taken at tk
    split at tk
    · simp_all [Pc.own]
    · simp_all [Pc.own]
    · cases tk
  · exact Nat.lt_irrefl _ (nm.pointed none _ (St.taken_queued tk))

/-- A waiter that withdraws stays alone with its semaphore. -/
lemma withdrawing_step (lf : Lifetime s) (nm : Names s) (rl : Roles s) (g : Guard s (c, t))
    (st : Step c s t s') (h : s'.Withdrawing i k) (j : T) : ¬s'.Uses j k := by
  by_cases ei : i = t
  · subst ei
    exact no_use_step nm rl st (lf.withdrawing_self rl g st h) (not_taken nm st h.1) j
  · rcases lf.left_or_same nm rl st k with ⟨-, same⟩ | lt
    · have h : (s'.th i).pc.own = some k ∧ (s'.th i).pc.Withdraws ((s'.sem k).th i).pc := h
      rw [st.th_other ei, same i ei] at h
      exact no_use_step nm rl st (lf.withdrawing i k h) (fun tk => g.take k tk i h) j
    · exact lt.2 j

/-- A semaphore whose call has returned is done with. -/
lemma dead_step (lf : Lifetime s) (nm : Names s) (rl : Roles s) (st : Step c s t s')
    (lt : k < s'.next) (nd : ¬s'.Alive k) : s'.Left k := by
  by_cases al : s.Alive k
  · obtain ⟨i, hi⟩ := al
    obtain rfl : i = t := by
      by_contra ne
      exact nd ⟨i, by rwa [st.th_other ne]⟩
    obtain ⟨r, e⟩ := own_lost st hi fun h => nd ⟨i, h⟩
    have lv : s.Leaving i k := ⟨hi, by rw [e]; trivial⟩
    exact (lf.leaving i k lv).step nm rl st (nm.owned i k hi)
  · have lt' : k < s.next := by
      rcases next_step st with e | ⟨e, hown⟩
      · rwa [e] at lt
      · rw [e] at lt
        have ne : k ≠ s.next := by
          rintro rfl
          exact nd ⟨t, hown⟩
        omega
    exact (lf.dead k lt' al).step nm rl st lt'

/-- A step under the condition keeps it. -/
lemma step (lf : Lifetime s) (nm : Names s) (rl : Roles s) (g : Guard s (c, t))
    (st : Step c s t s') : Lifetime s' where
  tame := lf.tame_step nm rl g st
  permit := lf.permit_step nm rl st
  leaving _ _ := lf.leaving_step nm rl st
  withdrawing _ _ := lf.withdrawing_step nm rl g st
  dead _ := lf.dead_step nm rl st

end Lifetime
end Stable

/-- The invariant of all runs under the guard. -/
structure Safe (s : St T) : Prop where
  names : Names s
  roles : Roles s
  life : Lifetime s

/-- It holds in every state of a run under the condition. -/
lemma Safe.of_runs {s : St T} (rn : Runs Next Guard (CondVar.init T) s) : Safe s := by
  refine rn.invariant ⟨.init, .init, .init⟩ ?_
  intro s a s' sf g st
  exact ⟨sf.names.step st, sf.roles.step sf.names st, sf.life.step sf.names sf.roles g st⟩

/-- Whoever still has a use of a semaphore ahead, and in particular whoever is about to take its
`spinLock`, finds it alive. -/
theorem semaphore_outlives_users {s : St T} (rn : Runs Next Guard (CondVar.init T) s) :
    (∀ i k, ((s.sem k).th i).pc.touches → s.Alive k) ∧ ∀ i k, s.Uses i k → s.Alive k := by
  obtain ⟨nm, rl, lf⟩ := Safe.of_runs rn
  have uses : ∀ i k, s.Uses i k → s.Alive k := by
    intro i k hu
    by_contra nd
    exact (lf.dead k (nm.pointed (some i) k hu.1) nd).2 i hu
  refine ⟨fun i k ht => ?_, uses⟩
  have ha : (s.th i).pc.active = some k := by
    by_contra ne
    rw [rl.quiet i k ne] at ht
    cases ht
  by_cases ho : (s.th i).pc.own = some k
  · exact ⟨i, ho⟩
  · refine uses i k ⟨Roles.hand_of_role _ ha ho, fun _ hb => ?_⟩
    cases e : ((s.sem k).th i).pc with
    | ret r => rw [e] at ht; cases ht
    | _ => rw [e] at hb; cases hb

section Pop

/-- A step that takes nobody out, in a world where no task is cancelled. -/
lemma Guard.calm {s : St T} {t : T} (h : s.taken (.direct [], t) = []) :
    Guard s (.direct [], t) where
  self k hk := absurd hk.2.1 (by simp)
  take k hk := by
    rw [h] at hk
    cases hk
  skip k w e _ _ := by simp

/-- A step that takes out one waiter, which is parked. -/
lemma Guard.takes {s : St T} {t i : T} {k : Nat} {sl : Bool} (nm : Names s)
    (h : s.taken (.direct [], t) = [k]) (e : (s.th i).pc = .waiting k sl)
    (hp : ((s.sem k).th i).pc = .parked sl) : Guard s (.direct [], t) where
  self k hk := absurd hk.2.1 (by simp)
  take j hj u hw := by
    rw [h] at hj
    cases List.mem_singleton.1 hj
    cases nm.one u i k hw.1 (by rw [e]; rfl)
    have hw := hw.2
    rw [e, hp] at hw
    cases hw
  skip k w e _ _ := by simp

/-- The waiter of the schedules below: fiber 1 in `WaitCancellable`, first on its semaphore. -/
abbrev w1 : Waiter Nat := ⟨1, .fiber, true, .kNone, 0⟩

/-- Fiber 1 waits and fiber 0's `Notify_One` has popped it from its semaphore. -/
lemma popped_reached : ∃ s : St Nat, Runs Next Guard (init Nat) s ∧
    s.queue = [] ∧ s.th 0 = { pc := .signalling 0 [], found := true, took := [0] } ∧
    s.th 1 = { pc := .waiting 0 true } ∧ (∀ t, t ≠ 0 → t ≠ 1 → s.th t = {}) ∧
    (s.sem 0).sem = ⟨0, 1, [], 1⟩ ∧ (s.sem 0).th 0 = { pc := .sigTest w1 true } ∧
    (s.sem 0).th 1 = { pc := .parked true } ∧
    s.mx.mx.locked = false ∧ (s.mx.th 1).pc = .idle := by
  have r1 := (Runs.refl : Runs Next Guard (init Nat) _).next (.direct [], 1) (.calm rfl)
    (.user rfl (.here (.call .lock rfl)))
  have r2 := r1.next (.direct [], 1) (.calm rfl) (.user rfl (.here (.enterTake rfl rfl)))
  have r3 := r2.next (.direct [], 1) (.calm rfl) (.user rfl (.here (.record rfl)))
  have r4 := r3.next (.direct [], 1) (.calm rfl) (.user rfl (.here (.done rfl)))
  have r5 := r4.next (.direct [], 1) (.calm rfl) (.callWait true rfl rfl rfl)
  have r6 := r5.next (.direct [], 1) (.calm rfl) (.checkPass rfl (by simp))
  have r7 := r6.next (.direct [], 1) (.calm rfl) (.push rfl (by simp))
  have r8 := r7.next (.direct [], 1) (.calm rfl) (.unlock rfl rfl rfl)
  have r9 := r8.next (.direct [], 1) (.calm rfl)
    (.mutex rfl nofun nofun (.here (.unlHolder rfl)))
  have r10 := r9.next (.direct [], 1) (.calm rfl)
    (.mutex rfl nofun nofun (.here (.unlFree rfl rfl)))
  have r11 := r10.next (.direct [], 1) (.calm rfl)
    (.mutex rfl nofun nofun (.here (.unlLoadZero rfl rfl)))
  have r12 := r11.next (.direct [], 1) (.calm rfl) (.unlocked rfl rfl)
  have r13 := r12.next (.direct [], 1) (.calm rfl) (.semWait rfl rfl)
  have r14 := r13.next (.direct [], 1) (.calm rfl)
    (.inside rfl nofun nofun (.checkPass rfl (by simp)))
  have r15 := r14.next (.direct [], 1) (.calm rfl)
    (.inside rfl nofun nofun (.enterPush rfl (by decide) (by simp)))
  have r16 := r15.next (.direct [], 0) (.calm rfl) (.callNotify false rfl rfl)
  have r17 := r16.next (.direct [], 0) (.takes (i := 1) (Safe.of_runs r16).names rfl rfl rfl) (.notify rfl)
  have r18 := r17.next (.direct [], 0) (.calm rfl) (.signal rfl rfl)
  have r19 := r18.next (.direct [], 0) (.calm rfl)
    (.inside rfl nofun nofun (.sigPop (w := w1) rfl rfl))
  refine ⟨_, r19, rfl, rfl, rfl, fun t h0 h1 => ?_, rfl, rfl, rfl, rfl, rfl⟩
  simp [St.withSem, St.goto, St.set, St.semCall, St.dequeue, St.withQueue, St.withTaker,
    St.unlockDone, St.withMx, St.unlockCall, St.enqueue, h0, h1, init]

/-- Fiber 1 is cancelled while it is popped: it is let go, returns and destroys its semaphore while
fiber 0 still has to take the semaphore's lock. -/
theorem signal_retakes_dead_semaphore : ∃ s : St Nat, Reaches Next (init Nat) s ∧
    ((s.sem 0).th 0).pc.touches ∧ ¬s.Alive 0 := by
  obtain ⟨s, rn, hq, h0, h1, ho, hs, q0, q1, hl, m1⟩ := popped_reached
  have a0 : (s.th 0).pc.active = some 0 := by rw [h0]; rfl
  have a1 : (s.th 1).pc.active = some 0 := by rw [h1]; rfl
  have r1 := rn.reaches.next (.direct [1], 0) trivial
    (.inside a0 (by simp [q0]) (by simp [q0]) (.sigTest (congrArg Semaphore.Thread.pc q0)))
  have r2 := r1.next (.direct [1], 0) trivial (.inside a0 nofun nofun (.sigWrite rfl))
  have r3 := r2.next (.direct [1], 0) trivial (.inside a0 nofun nofun (.sigSkip (w := w1) rfl))
  have r4 := r3.next (.direct [1], 1) trivial (.inside a1 nofun nofun (.awake rfl))
  have r5 := r4.next (.direct [1], 1) trivial (.waited (congrArg Thread.pc h1) rfl)
  have r6 := r5.next (.direct [1], 1) trivial (.sweep rfl)
  have r7 := r6.next (.direct [1], 1) trivial (.lock rfl m1)
  have r8 := r7.next (.direct [1], 1) trivial (.mutex rfl nofun nofun (.here (.enterTake rfl hl)))
  have r9 := r8.next (.direct [1], 1) trivial (.mutex rfl nofun nofun (.here (.record rfl)))
  have r10 := r9.next (.direct [1], 1) trivial (.locked rfl rfl)
  refine ⟨_, r10, rfl, fun ⟨i, hi⟩ => ?_⟩
  by_cases e1 : i = 1
  · subst e1
    cases hi
  · have hi : (s.th i).pc.own = some 0 := by
      simpa [St.goto, St.set, St.withResult, St.lockDone, St.withMx, St.lockCall, St.withQueue,
        St.semDone, St.withSem, e1] using hi
    by_cases e0 : i = 0
    · rw [e0, h0] at hi
      cases hi
    · rw [ho i e0 e1] at hi
      cases hi

/-- Nobody is cancelled: fiber 0 hands over the permit, fiber 1 returns, and fiber 0 is through. -/
theorem semaphore_outlives_users_notify : ∃ s : St Nat, Runs Next Guard (init Nat) s ∧
    s.result 0 = some .ok ∧ ∀ i k, s.Uses i k → s.Alive k := by
  obtain ⟨s, rn, hq, h0, h1, ho, hs, q0, q1, hl, m1⟩ := popped_reached
  have a0 : (s.th 0).pc.active = some 0 := by rw [h0]; rfl
  have a1 : (s.th 1).pc.active = some 0 := by rw [h1]; rfl
  have n0 : s.taken (.direct [], 0) = [] := by simp [St.taken, h0]
  have n1 : s.taken (.direct [], 1) = [] := by simp [St.taken, h1]
  have r1 := rn.next (.direct [], 0) (.calm n0)
    (.inside a0 (by simp [q0]) (by simp [q0]) (.sigTest (congrArg Semaphore.Thread.pc q0)))
  have r2 := r1.next (.direct [], 0) (.calm n0) (.inside a0 nofun nofun (.sigWrite rfl))
  have r3 := r2.next (.direct [], 0) (.calm n0) (.inside a0 nofun nofun (.sigGrant (w := w1) rfl))
  have r4 := r3.next (.direct [], 1) (.calm n1) (.inside a1 nofun nofun (.awake rfl))
  have r5 := r4.next (.direct [], 1) (.calm n1) (.waited (congrArg Thread.pc h1) rfl)
  have r7 := r5.next (.direct [], 1) (.calm rfl) (.lock rfl m1)
  have r8 := r7.next (.direct [], 1) (.calm rfl) (.mutex rfl nofun nofun (.here (.enterTake rfl hl)))
  have r9 := r8.next (.direct [], 1) (.calm rfl) (.mutex rfl nofun nofun (.here (.record rfl)))
  have r10 := r9.next (.direct [], 1) (.calm rfl) (.locked rfl rfl)
  exact ⟨_, r10, rfl, (semaphore_outlives_users r10).2⟩

end Pop
end JLib.CondVar
