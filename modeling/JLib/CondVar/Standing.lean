import JLib.CondVar.Stage

/-!
# Condition variable: what every run keeps

A waiting call is queued until a `Notify` or a `CancelWaiters` takes it out or it looks for its entry itself, and
whoever took it out has its pointer until it is through with it. None of this asks for a condition. What comes of
the call is another matter: `Waking` is a `Signal` that has not decided it yet.
-/

namespace JLib.CondVar
open LTS
open Semaphore (Stage)

variable {T : Type} [DecidableEq T]

/-- In a plain `Wait`, which has nowhere to report a cancellation. -/
def Pc.plain : Pc → Bool
  | .unlock _ sl | .unlocking _ sl | .semWait _ sl | .waiting _ sl => !sl
  | _ => false

/-- On the way back to the mutex. -/
def Pc.relocks : Pc → Bool
  | .lock _ _ | .locking _ _ => true
  | _ => false

/-- Taken out to be cancelled. -/
def Taker.cancels : Taker → Bool
  | .cancelWaiters => true
  | _ => false

namespace Delivery

/-- `j` is going to signal semaphore `k` and, if an `ok` is owed, will not skip its waiter. -/
structure Waking (s : St T) (j : T) (k : Nat) (owed : Prop) : Prop where
  uses : s.Uses j k
  fresh : ∀ e, ((s.sem k).th j).pc ≠ .sigRetake e
  tame : owed → ((s.sem k).th j).pc.Tame

/-- What holds without any condition. -/
structure Basic (s : St T) : Prop where
  names : Names s
  roles : Roles s
  counters : Counters s

/-- The history of a waiting call goes with its place. -/
structure Standing (s : St T) : Prop extends Basic s where
  placed : ∀ k, Semaphore.Placed (s.sem k)
  hands : ∀ i k, k ∈ (s.th i).pc.hand →
    ∃ x, s.taker k = some x ∧ x.cancels = !(s.th i).pc.notifies
  fresh : ∀ k, s.next ≤ k → s.taker k = none ∧ s.result k = none
  closed : ∀ k i, (s.th i).pc.own = some k → s.result k = none
  swept : ∀ i k, (s.th i).pc.own = some k → (s.th i).pc.relocks → k ∉ s.places none
  queued : ∀ k ∈ s.places none, s.taker k = none ∧
    ∃ i, (s.th i).pc.own = some k ∧
      (s.stage i k = .early ∨ s.stage i k = .asleep ∨ s.stage i k = .bound .cancelled)

section Steps
variable {s s' : St T} {c : World T} {t i j : T} {k : Nat}

/-- A step keeps the counters of the semaphores. -/
lemma counters_step (ct : Counters s) (st : Step c s t s') : Counters s' := by
  have sem : ∀ {m m' : Semaphore.St T}, Semaphore.Step c m t m' →
      0 ≤ m.sem.permits ∧ m.sem.maxPermits = 1 → 0 ≤ m'.sem.permits ∧ m'.sem.maxPermits = 1 := by
    intro m m' st h
    cases st with
    | enterTake _ hp | bareTake _ hp | tryTake _ hp | asyncTake _ hp =>
      exact ⟨Int.sub_nonneg_of_le hp, h.2⟩
    | sigEmpty _ _ | sigBack _ _ =>
      show 0 ≤ m.sem.put.permits ∧ m.sem.put.maxPermits = 1
      unfold Semaphore.Sem.put
      split
      · exact ⟨Int.add_nonneg h.1 (by decide), h.2⟩
      · exact h
    | _ => exact h
  intro k
  rcases st.sem_cases with e | ⟨l, m, e, st⟩
  · rw [e]
    exact ct k
  · rw [e]
    by_cases el : k = l
    · subst el
      rw [Function.update_self]
      exact sem st (ct k)
    · rw [Function.update_of_ne el]
      exact ct k

/-- A step keeps whoever is switched out in a queue or in somebody's hands. -/
lemma placed_step (rl : Roles s) (pl : ∀ k, Semaphore.Placed (s.sem k)) (st : Step c s t s')
    (k : Nat) : Semaphore.Placed (s'.sem k) := by
  rcases st.sem_cases with e | ⟨l, m, e, st⟩
  · rw [e]
    exact pl k
  · rw [e]
    by_cases el : k = l
    · subst el
      rw [Function.update_self]
      exact (pl k).step (rl.inv k) st
    · rw [Function.update_of_ne el]
      exact pl k

/-- Who is taken out by a step, and by whom. -/
inductive Takes (c : World T) (s : St T) (t : T) (k : Nat) (s' : St T) : Prop where
  | none : k ∉ s.taken (c, t) → s'.taker k = s.taker k → Takes c s t k s'
  | notify (all : Bool) :
    (s.th t).pc = .notify all → k ∈ s.taken (c, t) →
    s'.taker k = some (if all then .notifyAll else .notifyOne (s.queue.tail.map (·.sem))) →
    (s'.th t).pc.notifies → Takes c s t k s'
  | cancel (tok : CancelToken) :
    (s.th t).pc = .canEnter tok → k ∈ s.taken (c, t) → s'.taker k = some .cancelWaiters →
    (s'.th t).pc.notifies = false → Takes c s t k s'

/-- A `Notify` with waiters left goes on. -/
lemma notifies_signalNext {ks : List Nat} (h : k ∈ ks) : (Pc.signalNext ks).notifies := by
  cases ks with
  | nil => cases h
  | cons l ks => rfl

/-- A `CancelWaiters` is no `Notify`. -/
lemma notifies_canNext (tok : CancelToken) (f : Bool) (ks : List Nat) :
    (Pc.canNext tok f ks).notifies = false := by
  cases ks with
  | nil => cases f <;> rfl
  | cons l ks => rfl

/-- Who a step takes out is noted with who took it. -/
lemma takes (st : Step c s t s') (k : Nat) : Takes c s t k s' := by
  cases st with
  | @notify all e =>
    by_cases hk : k ∈ s.taken (c, t)
    · have hk' : k ∈ if all then s.queue.map (·.sem) else (s.queue.map (·.sem)).take 1 := by
        simpa only [St.taken, e] using hk
      refine .notify all e hk (if_pos hk') ?_
      rw [St.dequeue_pc]
      exact notifies_signalNext hk'
    · refine .none hk (if_neg ?_)
      simpa only [St.taken, e] using hk
  | @canPass tok e =>
    by_cases hk : k ∈ s.taken (c, t)
    · refine .cancel tok e hk (if_pos ?_) ?_
      · simpa only [St.taken, e] using hk
      · rw [St.goto_pc]
        exact notifies_canNext _ _ _
    · refine .none hk (if_neg ?_)
      simpa only [St.taken, e] using hk
  | mutex hm _ _ _ =>
    refine .none ?_ rfl
    unfold St.taken
    split <;> simp_all [Pc.inMutex]
  | inside ha _ _ _ =>
    refine .none ?_ rfl
    unfold St.taken
    split <;> simp_all [Pc.active]
  | user e _ | callWait _ e _ _ | callBareWait _ _ e _ _ | callNotify _ e _ | callCancel _ e _
  | done e | checkCancelled e _ | checkPass e _ | pushCancelled e _ | push e _ | bareCancelled e _
  | barePass e _ | bareUnlock e _ _ | bareUnlocked e _ | bareLock e _ | bareLocked e _ | bareEnd e
  | signal e _ | signalled e _ | cancel e _ | cancelled e _ | unlock e _ _ | unlocked e _
  | semWait e _ | waited e _ | sweep e | lock e _ | locked e _ =>
    exact .none (by simp [St.taken, e]) rfl

/-- What a party has in its hands it had before, in the same kind of call, or has just taken out. -/
lemma hand_self (st : Step c s t s') (h : k ∈ (s'.th t).pc.hand) :
    (k ∈ (s.th t).pc.hand ∧ (s'.th t).pc.notifies = (s.th t).pc.notifies) ∨
      k ∈ s.taken (c, t) := by
  cases st with
  | user _ _ | mutex _ _ _ _ | inside _ _ _ _ => exact .inl ⟨h, rfl⟩
  | @notify all e =>
    rw [St.dequeue_pc, Pc.hand_signalNext] at h
    refine .inr ?_
    simpa only [St.taken, e] using h
  | @canPass tok e =>
    rw [St.goto_pc, Pc.hand_canNext] at h
    refine .inr ?_
    simpa only [St.taken, e] using h
  | signal e _ | cancel e _ =>
    rw [St.goto_pc] at h ⊢
    rw [e]
    exact .inl ⟨h, rfl⟩
  | signalled e _ =>
    rw [St.goto_pc] at h ⊢
    rw [Pc.hand_signalNext] at h
    rw [e]
    exact .inl ⟨List.mem_cons_of_mem _ h, notifies_signalNext h⟩
  | cancelled e _ =>
    rw [St.goto_pc] at h ⊢
    rw [Pc.hand_canNext] at h
    rw [e]
    exact .inl ⟨List.mem_cons_of_mem _ h, notifies_canNext _ _ _⟩
  | push _ _ =>
    rw [St.enqueue_pc] at h
    cases h
  | callWait sl _ _ _ | callBareWait sl _ _ _ _ =>
    rw [St.goto_pc] at h
    cases sl <;> cases h
  | @waited l sl r _ _ =>
    rw [St.goto_pc] at h
    cases r <;> cases h
  | _ =>
    rw [St.goto_pc] at h
    cases h

/-- What a step takes out is in the hands of its party. -/
lemma hand_of_taken (st : Step c s t s') (h : k ∈ s.taken (c, t)) : k ∈ (s'.th t).pc.hand := by
  cases st with
  | @notify all e =>
    rw [St.dequeue_pc, Pc.hand_signalNext]
    simpa only [St.taken, e] using h
  | @canPass tok e =>
    rw [St.goto_pc, Pc.hand_canNext]
    simpa only [St.taken, e] using h
  | mutex hm _ _ _ =>
    unfold St.taken at h
    split at h <;> simp_all [Pc.inMutex]
  | inside ha _ _ _ =>
    unfold St.taken at h
    split at h <;> simp_all [Pc.active]
  | user e _ | callWait _ e _ _ | callBareWait _ _ e _ _ | callNotify _ e _ | callCancel _ e _
  | done e | checkCancelled e _ | checkPass e _ | pushCancelled e _ | push e _ | bareCancelled e _
  | barePass e _ | bareUnlock e _ _ | bareUnlocked e _ | bareLock e _ | bareLocked e _ | bareEnd e
  | signal e _ | signalled e _ | cancel e _ | cancelled e _ | unlock e _ _ | unlocked e _
  | semWait e _ | waited e _ | sweep e | lock e _ | locked e _ =>
    simp [St.taken, e] at h

namespace Standing

/-- What is in somebody's hands was taken out for what the call is about. -/
lemma hands_step (sd : Standing s) (st : Step c s t s') (i : T) (k : Nat)
    (hk : k ∈ (s'.th i).pc.hand) :
    ∃ x, s'.taker k = some x ∧ x.cancels = !(s'.th i).pc.notifies := by
  by_cases ei : i = t
  · subst ei
    cases takes st k with
    | none nt e =>
      obtain ⟨hk, hn⟩ := (hand_self st hk).resolve_right nt
      rw [e, hn]
      exact sd.hands i k hk
    | notify all _ _ e hn =>
      refine ⟨_, e, ?_⟩
      rw [hn]
      cases all <;> rfl
    | cancel tok _ _ e hn =>
      refine ⟨_, e, ?_⟩
      rw [hn]
      rfl
  · rw [st.th_other ei] at hk ⊢
    have same : s'.taker k = s.taker k := by
      cases takes st k with
      | none _ e => exact e
      | notify _ _ hq _ _ | cancel _ _ hq _ _ =>
        cases sd.names.cus.unique (St.taken_queued hq) (show k ∈ s.places (some i) from hk)
    rw [same]
    exact sd.hands i k hk

/-- A semaphore that is not made yet has no history. -/
lemma fresh_step (sd : Standing s) (st : Step c s t s') (k : Nat) (lt : s'.next ≤ k) :
    s'.taker k = none ∧ s'.result k = none := by
  have le : s.next ≤ k := by
    rcases Lifetime.next_step st with e | ⟨e, -⟩
    · rwa [e] at lt
    · rw [e] at lt
      exact Nat.le_of_succ_le lt
  obtain ⟨ht, hr⟩ := sd.fresh k le
  constructor
  · cases takes st k with
    | none _ e => rw [e, ht]
    | notify _ _ hq _ _ | cancel _ _ hq _ _ =>
      have := sd.names.pointed none k (St.taken_queued hq)
      omega
  · cases st with
    | @locked l r e _ =>
      have := sd.names.owned t l (by rw [e]; rfl)
      show Function.update s.result l (some r) k = none
      rw [Function.update_of_ne (by omega)]
      exact hr
    | _ => exact hr

/-- A call in progress has no result. -/
lemma closed_step (sd : Standing s) (st : Step c s t s') (k : Nat) (i : T)
    (ho : (s'.th i).pc.own = some k) : s'.result k = none := by
  have hi : (s.th i).pc.own = some k ∨ k = s.next := by
    by_cases ei : i = t
    · subst ei
      exact Lifetime.own_gained st ho
    · rw [st.th_other ei] at ho
      exact .inl ho
  have old : s.result k = none := by
    rcases hi with hi | rfl
    · exact sd.closed k i hi
    · exact (sd.fresh _ (Nat.le_refl _)).2
  cases st with
  | @locked l r e _ =>
    have hl : (s.th t).pc.own = some l := by
      rw [e]
      rfl
    have ne : k ≠ l := by
      rintro rfl
      rcases hi with hi | rfl
      · obtain rfl := sd.names.one i t k hi hl
        rw [St.goto_pc] at ho
        cases ho
      · exact Nat.lt_irrefl _ (sd.names.owned t _ hl)
    show Function.update s.result l (some r) k = none
    rw [Function.update_of_ne ne]
    exact old
  | _ => exact old

/-- Who goes back to the mutex is not queued. -/
lemma swept_step (sd : Standing s) (st : Step c s t s') (i : T) (k : Nat)
    (ho : (s'.th i).pc.own = some k) (hr : (s'.th i).pc.relocks) : k ∉ s'.places none := by
  have old : (s.th i).pc.own = some k → (s.th i).pc.relocks → k ∉ s'.places none := by
    intro ho hr hk
    exact sd.swept i k ho hr (St.places_step st (sd.names.owned i k ho) hk)
  by_cases ei : i = t
  · subst ei
    cases st with
    | user _ _ | mutex _ _ _ _ | inside _ _ _ _ => exact old ho hr
    | lock e _ =>
      rw [St.goto_pc] at ho
      exact old (by rw [e]; exact ho) (by rw [e]; rfl)
    | @waited l sl r e back =>
      rw [St.goto_pc] at ho hr
      cases r with
      | cancelled => cases hr
      | ok =>
        cases ho
        intro hk
        -- a waiter that is queued is not bound to return `ok`
        have he : (s.th i).pc.own = some k := by rw [e]; rfl
        have hx : s.stage i k = .bound .ok := by
          simp [St.stage, e, Pc.stage, Semaphore.Thread.stage, back]
        obtain ⟨-, j, hj, hs⟩ := sd.queued k hk
        obtain rfl := sd.names.one j i k hj he
        rw [hx] at hs
        rcases hs with hs | hs | hs <;> cases hs
    | @sweep l e =>
      rw [St.goto_pc] at ho
      cases ho
      intro hq
      obtain ⟨w, hw, hk⟩ := List.mem_map.1 hq
      exact absurd hk (of_decide_eq_true (List.mem_filter.1 hw).2)
    | push _ _ =>
      rw [St.enqueue_pc] at hr
      cases hr
    | notify _ =>
      rw [St.dequeue_pc, Pc.own_signalNext] at ho
      cases ho
    | signalled _ _ =>
      rw [St.goto_pc, Pc.own_signalNext] at ho
      cases ho
    | canPass _ | cancelled _ _ =>
      rw [St.goto_pc, Pc.own_canNext] at ho
      cases ho
    | callWait sl _ _ _ | callBareWait sl _ _ _ _ =>
      rw [St.goto_pc] at hr
      cases sl <;> cases hr
    | _ =>
      rw [St.goto_pc] at hr
      cases hr
  · rw [st.th_other ei] at ho hr
    exact old ho hr

/-- A wait that has just made its semaphore is at its beginning. -/
lemma stage_new (sd : Standing s) (st : Step c s t s') (e : s'.next = s.next + 1) :
    s'.stage t s.next = .early := by
  cases st with
  | push _ _ =>
    rw [St.stage, St.enqueue_pc]
    show (s.sem s.next).stage t = .early
    rw [sd.roles.fresh _ (Nat.le_refl _)]
    rfl
  | _ => exact absurd e (by simp [St.withMx, St.withSem, St.goto, St.set, St.dequeue,
      St.withQueue, St.withTaker, St.unlockCall, St.unlockDone, St.semCall, St.semDone,
      St.lockCall, St.lockDone, St.withResult])

/-- A semaphore that is queued was queued before, or has just been made. -/
lemma queue_gained (sd : Standing s) (nm' : Names s') (st : Step c s t s')
    (hk : k ∈ s'.places none) :
    k ∈ s.places none ∨ (k = s.next ∧ (s'.th t).pc.own = some k ∧ s'.stage t k = .early) := by
  have lt := nm'.pointed none k hk
  rcases Nat.lt_or_ge k s.next with lt' | ge
  · exact .inl (St.places_step st lt' hk)
  · refine .inr ?_
    rcases Lifetime.next_step st with e | ⟨e, ho⟩
    · rw [e] at lt
      exact absurd ge (Nat.not_le.2 lt)
    · rw [e] at lt
      obtain rfl : k = s.next := Nat.le_antisymm (Nat.le_of_lt_succ lt) ge
      exact ⟨rfl, ho, sd.stage_new st e⟩

/-- What is queued was not taken out, and is of a call that may sleep. -/
lemma queued_step (sd : Standing s) (nm' : Names s') (st : Step c s t s') (k : Nat)
    (hk : k ∈ s'.places none) : s'.taker k = none ∧
    ∃ i, (s'.th i).pc.own = some k ∧
      (s'.stage i k = .early ∨ s'.stage i k = .asleep ∨ s'.stage i k = .bound .cancelled) := by
  have same : s'.taker k = s.taker k := by
    cases takes st k with
    | none _ e => exact e
    | notify _ _ hq _ _ | cancel _ _ hq _ _ =>
      cases nm'.cus.unique hk (show k ∈ s'.places (some t) from hand_of_taken st hq)
  rw [same]
  rcases sd.queue_gained nm' st hk with hq | ⟨rfl, ho, hx⟩
  · obtain ⟨ht, i, ho, hx⟩ := sd.queued k hq
    have unused : ¬s.Uses t k := by
      intro hu
      cases sd.names.cus.unique hq (show k ∈ s.places (some t) from hu.1)
    have ho' : (s'.th i).pc.own = some k := by
      by_contra ne
      obtain ⟨r, e, -⟩ := st.returns ho ne
      exact sd.swept i k ho (by rw [e]; rfl) hq
    refine ⟨ht, i, ho', ?_⟩
    cases st.stage sd.names sd.roles sd.counters ho ho' with
    | same e => rwa [e]
    | cancels _ _ e => exact .inr (.inr e)
    | parks _ _ _ _ _ _ e => exact .inr (.inl e)
    | granted hu _ _ _ => exact absurd hu unused
    | skipped _ _ hu _ _ _ _ => exact absurd hu unused
    | ejected hu _ _ _ => exact absurd hu unused
  · exact ⟨(sd.fresh _ (Nat.le_refl _)).1, t, ho, .inl hx⟩

/-- What a call has returned it has returned. -/
lemma result_step (sd : Standing s) (st : Step c s t s') {r : WaitResult}
    (h : s.result k = some r) : s'.result k = some r := by
  cases st with
  | @locked l q e _ =>
    have ne : k ≠ l := by
      rintro rfl
      rw [sd.closed k t (by rw [e]; rfl)] at h
      cases h
    show Function.update s.result l (some q) k = some r
    rw [Function.update_of_ne ne]
    exact h
  | _ => exact h

/-- A call that is bound stays bound; only its own test can still turn `ok` into `cancelled`. -/
lemma bound_step (sd : Standing s) (st : Step c s t s') {r : WaitResult} (h : s.Bound k r) :
    s'.Bound k r ∨ (s.SelfCancels (c, t) k ∧ s'.Bound k .cancelled) := by
  rcases h with h | h
  · exact .inl (.inl (sd.result_step st h))
  · rcases h.step sd.names sd.roles sd.counters st with ⟨i, -, ho', hx, hs⟩ | ⟨q, e, hr⟩
    · cases hs with
      | same e => exact .inl (.inr ⟨i, ho', e.trans hx⟩)
      | cancels _ sc e => exact .inr ⟨sc, .inr ⟨i, ho', e⟩⟩
      | parks _ _ _ _ _ e _ =>
        rw [hx] at e
        cases e
      | granted _ _ e _ =>
        rw [hx] at e
        rcases e with e | e <;> cases e
      | skipped _ _ _ _ _ e _ | ejected _ _ e _ =>
        rw [hx] at e
        cases e
    · cases e
      exact .inl (.inl hr)

/-- What is bound to be cancelled stays so. -/
lemma bound_cancelled_step (sd : Standing s) (st : Step c s t s') (h : s.Bound k .cancelled) :
    s'.Bound k .cancelled := by
  rcases sd.bound_step st h with h | ⟨-, h⟩
  · exact h
  · exact h

/-- The one who has the pointer. -/
lemma user_eq (sd : Standing s) (hi : s.Uses i k) (hj : s.Uses j k) : i = j :=
  Option.some.inj (sd.names.cus.unique (show k ∈ s.places (some i) from hi.1)
    (show k ∈ s.places (some j) from hj.1))

/-- The kind of call that has the pointer is the kind that took the waiter out. -/
lemma kind (sd : Standing s) (hu : s.Uses i k) {x : Taker} (ht : s.taker k = some x) :
    x.cancels = !(s.th i).pc.notifies := by
  obtain ⟨y, hy, hn⟩ := sd.hands i k hu.1
  rw [ht] at hy
  cases hy
  exact hn

omit [DecidableEq T] in
/-- A waiting call is not the one that has its pointer. -/
lemma own_ne_user (ho : (s.th i).pc.own = some k) (hu : s.Uses j k) : i ≠ j := by
  rintro rfl
  have hk := hu.1
  cases e : (s.th i).pc with
  | signal _ _ | signalling _ _ | cancel _ _ _ _ | cancelling _ _ _ _ =>
    rw [e] at ho
    cases ho
  | _ =>
    rw [e] at hk
    cases hk

/-- A step of the signaller inside the semaphore. -/
lemma waking_inside (sd : Standing s) {owed : Prop} {m : Semaphore.St T}
    (skip : owed → ∀ w e, (s.th t).pc.active = some k → ((s.sem k).th t).pc = .sigTest w e →
      (w.slot && c.isTaskCancelled w.party) = false)
    (nt : (s.th t).pc.notifies) (wk : Waking s t k owed) (ho : (s.th i).pc.own = some k)
    (ha : (s.th t).pc.active = some k) (nr : ∀ r, ((s.sem k).th t).pc ≠ .ret r)
    (st : Semaphore.Step c (s.sem k) t m)
    (hx : ∀ r, (s.withSem k m).stage i k ≠ .bound r) :
    (∀ e, (m.th t).pc ≠ .sigRetake e) ∧ (owed → (m.th t).pc.Tame) := by
  obtain ⟨ks, e⟩ := Pc.signalling_of ha nt
  have ne := own_ne_user ho wk.uses
  have inv := sd.roles.inv k
  have ro := sd.roles.role t k ha
  rw [e] at ro
  have ss := st.signaller ro nr
  refine ⟨fun b hb => ?_, fun eo => ?_⟩
  · cases ss with
    | put _ he | pop _ _ _ _ he | test _ _ _ he | write _ _ _ _ he =>
      simp [he, Semaphore.St.putBack, Semaphore.Pc.sigPop] at hb
    | grant w b h he =>
      rw [he, Semaphore.St.grant_eq (inv.ne_of_hand h (List.mem_singleton_self w))] at hb
      simp at hb
    | skip w b h he =>
      -- the waiter it let go is decided
      have hw : w ∈ (Semaphore.Pc.sigResume w b true : Semaphore.Pc T).hand :=
        List.mem_singleton_self w
      have hs : m.stage i = .bound (if w.slot then ((s.sem k).th i).slot else .ok) := by
        rw [he, Semaphore.St.stage_resume ne (inv.ne_of_hand h hw),
          if_pos (sd.roles.party_of_hand sd.names ho h hw).symm]
      have hq : (s.withSem k m).stage i k = (s.th i).pc.stage (m.th i) m.sem.permits := by
        rw [St.stage, show (s.withSem k m).sem k = m from Function.update_self ..]
        rfl
      rcases Pc.stage_cases (T := T) (s.th i).pc with same | ⟨r, same⟩
      · rw [same] at hq
        exact hx _ (hq.trans hs)
      · rw [same] at hq
        exact hx _ hq
  · exact ss.tame inv (wk.tame eo) fun w b h => skip eo w b ha h

/-- A signaller stays on its way, or has decided the call. -/
lemma waking_step (sd : Standing s) {owed : Prop}
    (skip : owed → ∀ w e, (s.th t).pc.active = some k → ((s.sem k).th t).pc = .sigTest w e →
      (w.slot && c.isTaskCancelled w.party) = false)
    (st : Step c s t s') (nt : (s.th j).pc.notifies) (wk : Waking s j k owed)
    (ho : (s.th i).pc.own = some k) (hx : ∀ r, s'.stage i k ≠ .bound r) :
    Waking s' j k owed := by
  rcases wk.uses.step sd.roles st with hu | ⟨rfl, m, fin⟩
  · by_cases ej : j = t
    · subst ej
      have keep : ((s'.sem k).th j).pc = ((s.sem k).th j).pc →
          Waking s' j k owed := by
        intro e
        exact ⟨hu, by rw [e]; exact wk.fresh, by rw [e]; exact wk.tame⟩
      cases st with
      | @inside l m ha _ nr st =>
        by_cases el : k = l
        · subst el
          have here : (s.withSem k m).sem k = m := Function.update_self ..
          obtain ⟨h1, h2⟩ := sd.waking_inside skip nt wk ho ha nr st hx
          exact ⟨hu, by rw [here]; exact h1, by rw [here]; exact h2⟩
        · refine keep ?_
          rw [show (s.withSem l m).sem k = s.sem k from Function.update_of_ne el ..]
      | @signal l ks e idle =>
        by_cases el : k = l
        · subst el
          have here : ((((s.semCall k j .signal).goto j (.signalling k ks)).sem k).th j).pc =
              .sigEnter := by
            simp [St.semCall, St.withSem, St.goto, St.set, Semaphore.Op.entry]
          exact ⟨hu, by rw [here]; rintro _ ⟨⟩, by rw [here]; exact fun _ => trivial⟩
        · refine keep ?_
          simp [St.semCall, St.withSem, St.goto, St.set, el]
      | @signalled l ks e back =>
        by_cases el : k = l
        · subst el
          exact absurd (by rw [back]; rfl) (wk.uses.2 (by rw [e]; rfl))
        · refine keep ?_
          simp [St.semDone, St.withSem, St.goto, St.set, el]
      | semWait e _ | waited e _ | cancel e _ | cancelled e _ =>
        rw [e] at nt
        cases nt
      | _ => exact keep rfl
    · rcases st.pc_other sd.roles ej (k := k) with e | ⟨b, -, e⟩
      · exact ⟨hu, by rw [e]; exact wk.fresh, by rw [e]; exact wk.tame⟩
      · exact ⟨hu, by rw [e]; rintro _ ⟨⟩, by rw [e]; exact fun _ => trivial⟩
  · obtain ⟨r, hr⟩ := fin.signal sd.names sd.roles sd.counters (sd.placed k) ho
      (own_ne_user ho wk.uses) nt wk.fresh
    exact absurd hr (hx r)

/-- The stage of a call is untouched by whoever takes it out of the queue. -/
lemma stage_taken (sd : Standing s) (st : Step c s t s') (ho : (s.th i).pc.own = some k)
    (hq : k ∈ s.taken (c, t)) : (s'.th i).pc.own = some k ∧ s'.stage i k = s.stage i k := by
  have ne : i ≠ t := by
    rintro rfl
    unfold St.taken at hq
    split at hq <;> simp_all [Pc.own]
  have ho' : (s'.th i).pc.own = some k := by rwa [st.th_other ne]
  have unused : ¬s.Uses t k := by
    intro hu
    cases sd.names.cus.unique (St.taken_queued hq) (show k ∈ s.places (some t) from hu.1)
  refine ⟨ho', ?_⟩
  cases st.stage sd.names sd.roles sd.counters ho ho' with
  | same e => exact e
  | cancels e _ _ => exact absurd e ne
  | parks _ e _ _ _ _ _ => exact absurd e ne
  | granted hu _ _ _ => exact absurd hu unused
  | skipped _ _ hu _ _ _ _ => exact absurd hu unused
  | ejected hu _ _ _ => exact absurd hu unused

/-- Whoever has just taken a pointer out has it to use. -/
lemma uses_taken (nm' : Names s') (rl' : Roles s') (st : Step c s t s')
    (hq : k ∈ s.taken (c, t)) : s'.Uses t k ∧ ((s'.sem k).th t).pc = .idle := by
  have ha : (s'.th t).pc.active = none := by
    cases st with
    | notify _ =>
      rw [St.dequeue_pc]
      exact Pc.active_signalNext _
    | canPass _ =>
      rw [St.goto_pc]
      exact Pc.active_canNext _ _ _
    | mutex hm _ _ _ =>
      unfold St.taken at hq
      split at hq <;> simp_all [Pc.inMutex]
    | inside ha _ _ _ =>
      unfold St.taken at hq
      split at hq <;> simp_all [Pc.active]
    | user e _ | callWait _ e _ _ | callBareWait _ _ e _ _ | callNotify _ e _ | callCancel _ e _
    | done e | checkCancelled e _ | checkPass e _ | pushCancelled e _ | push e _
    | bareCancelled e _ | barePass e _ | bareUnlock e _ _ | bareUnlocked e _ | bareLock e _
    | bareLocked e _ | bareEnd e | signal e _ | signalled e _ | cancel e _ | cancelled e _
    | unlock e _ _ | unlocked e _ | semWait e _ | waited e _ | sweep e | lock e _ | locked e _ =>
      simp [St.taken, e] at hq
  refine ⟨⟨hand_of_taken st hq, fun h => ?_⟩, rl'.quiet t k (by rw [ha]; rintro ⟨⟩)⟩
  rw [ha] at h
  cases h

/-- Nobody waits yet. -/
lemma init : Standing (CondVar.init T) where
  names := .init
  roles := .init
  counters _ := ⟨Int.le_refl 0, rfl⟩
  placed _ := Semaphore.Placed.init
  hands _ _ h := by cases h
  fresh _ _ := ⟨rfl, rfl⟩
  closed _ _ _ := rfl
  swept _ _ h := by cases h
  queued _ h := by cases h

/-- Every step keeps it. -/
lemma step (sd : Standing s) (st : Step c s t s') : Standing s' := by
  have nm' := sd.names.step st
  exact
    { names := nm'
      roles := sd.roles.step sd.names st
      counters := counters_step sd.counters st
      placed := placed_step sd.roles sd.placed st
      hands := sd.hands_step st
      fresh := sd.fresh_step st
      closed := sd.closed_step st
      swept := sd.swept_step st
      queued := sd.queued_step nm' st }

end Standing

/-- What holds without a condition holds in every state of a run. -/
lemma Basic.of_runs {ok : St T → World T × T → Prop} {s0 : St T} (b : Basic s0)
    (rn : Runs Next ok s0 s) : Basic s := by
  refine rn.invariant b ?_
  rintro u a u' ⟨nm, rl, ct⟩ _ st
  exact ⟨nm.step st, rl.step nm st, counters_step ct st⟩

/-- It holds at first. -/
lemma Basic.init : Basic (CondVar.init T) := ⟨.init, .init, fun _ => ⟨Int.le_refl 0, rfl⟩⟩

end Steps
end Delivery
end JLib.CondVar
