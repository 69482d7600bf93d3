import JLib.CondVar.Standing
import JLib.CondVar.Held

/-!
# Condition variable: notifies are delivered

A `Notify_One` takes a waiter out of the queue and signals its semaphore, a `CancelWaiters` takes
waiters out and cancels the waits on their semaphores. Either is a promise about what the waiting call
returns, and both can be broken: a waiter that finds out by itself that it is cancelled does not ask
whether it was notified, a `Signal` skips a cancelled waiter and the other waiters of the condition
variable never hear of it, and `CancelWaiters` takes out waiters that its pass on their semaphores
does not wake. `Guard` excludes these steps; `Delivers` is what holds then.
-/

namespace JLib.CondVar
open LTS
open Semaphore (Stage)

variable {T : Type} [DecidableEq T]

namespace Delivery

/-- The waits of `N` are those that are never cancelled. A `Notify_One` that took `k` out and left `rest`
owes an `ok` if one of them was queued. -/
def Owed (N : Nat → Prop) (k : Nat) (rest : List Nat) : Prop := N k ∨ ∃ n ∈ rest, N n

/-- The condition on a step. `self`, `take`, `skip`: a waiter that is taken out by a `Notify_One` that owes
an `ok` is not about to return `Cancelled`, does not find out by itself that it is cancelled and is
not skipped. `plain`, `eject`, `miss`: `CancelWaiters` takes out no plain `Wait`, its pass on a
semaphore selects the waiter if there is one, and a waiter it came too early for finds out by itself
that it is cancelled. -/
structure Guard (N : Nat → Prop) (s : St T) (a : World T × T) : Prop where
  self : ∀ k r, s.SelfCancels a k → s.taker k = some (.notifyOne r) → ¬Owed N k r
  take : (s.th a.2).pc = .notify false → ∀ k ∈ s.taken a, Owed N k (s.queue.tail.map (·.sem)) →
    ¬s.At k (.bound .cancelled)
  skip : ∀ k r w e, (s.th a.2).pc.active = some k → ((s.sem k).th a.2).pc = .sigTest w e →
    s.taker k = some (.notifyOne r) → Owed N k r → (w.slot && a.1.isTaskCancelled w.party) = false
  plain : ∀ tok, (s.th a.2).pc = .canEnter tok → ∀ k ∈ s.taken a, ∀ i,
    (s.th i).pc.own = some k → (s.th i).pc.plain = false
  eject : ∀ k tok, (s.th a.2).pc.active = some k → ((s.sem k).th a.2).pc = .canEnter tok →
    ∀ w ∈ (s.sem k).sem.waiters, w.slot && a.1.selects tok w.token
  miss : ∀ k sl, (s.th a.2).pc.own = some k → ((s.sem k).th a.2).pc = .enter sl →
    ¬(s.sem k).sem.permits > 0 → s.taker k = some .cancelWaiters → (∀ j, ¬s.Uses j k) →
    a.1.isTaskCancelled a.2

/-- What has been promised about the waiters, and why it will be kept. -/
structure Promises (N : Nat → Prop) (s : St T) : Prop extends Basic s where
  placed : ∀ k, Semaphore.Placed (s.sem k)
  hands : ∀ i k, k ∈ (s.th i).pc.hand →
    ∃ x, s.taker k = some x ∧ x.cancels = !(s.th i).pc.notifies
  fresh : ∀ k, s.next ≤ k → s.taker k = none ∧ s.result k = none
  closed : ∀ k i, (s.th i).pc.own = some k → s.result k = none
  swept : ∀ i k, (s.th i).pc.own = some k → (s.th i).pc.relocks → k ∉ s.places none
  queued : ∀ k ∈ s.places none, s.taker k = none ∧
    ∃ i, (s.th i).pc.own = some k ∧
      (s.stage i k = .early ∨ s.stage i k = .asleep ∨ s.stage i k = .bound .cancelled)
  one : ∀ k r, s.taker k = some (.notifyOne r) → s.Bound k .ok ∨
    (¬Owed N k r ∧ s.Bound k .cancelled) ∨
    ((s.At k .early ∨ s.At k .asleep) ∧ ∃ j, Waking s j k (Owed N k r))
  can : ∀ k, s.taker k = some .cancelWaiters → s.Bound k .cancelled ∨
    ∃ i, (s.th i).pc.own = some k ∧ (s.th i).pc.plain = false ∧
      (s.stage i k = .early ∨ s.stage i k = .asleep ∧ ∃ j, s.Uses j k)

section Steps
variable {N : Nat → Prop} {s s' : St T} {c : World T} {t i j : T} {k : Nat}
/-- The part that needs no condition. -/
lemma Promises.standing (pr : Promises N s) : Standing s :=
  ⟨pr.toBasic, pr.placed, pr.hands, pr.fresh, pr.closed, pr.swept, pr.queued⟩

namespace Promises

/-- A signaller stays on its way, or has decided the call. -/
lemma waking_step (pr : Promises N s) (g : Guard N s (c, t)) (st : Step c s t s') {o : List Nat}
    (ht : s.taker k = some (.notifyOne o)) (wk : Waking s j k (Owed N k o))
    (ho : (s.th i).pc.own = some k) (hx : ∀ r, s'.stage i k ≠ .bound r) :
    Waking s' j k (Owed N k o) := by
  have nt : (s.th j).pc.notifies := by
    have h := pr.standing.kind wk.uses ht
    simpa [Taker.cancels] using h
  exact pr.standing.waking_step (fun ow w e ha h => g.skip k o w e ha h ht ow) st nt wk ho hx

/-- A step under the condition keeps what a `Notify_One` promised. -/
lemma one_step (pr : Promises N s) (nm' : Names s') (rl' : Roles s') (g : Guard N s (c, t))
    (st : Step c s t s') (k : Nat) (o : List Nat) (ht : s'.taker k = some (.notifyOne o)) :
    s'.Bound k .ok ∨ (¬Owed N k o ∧ s'.Bound k .cancelled) ∨
      ((s'.At k .early ∨ s'.At k .asleep) ∧ ∃ j, Waking s' j k (Owed N k o)) := by
  cases takes st k with
  | none _ e =>
    rw [e] at ht
    -- a test of its own is answered only if nothing is owed
    have alone : s.SelfCancels (c, t) k → ¬Owed N k o := fun sc => g.self k o sc ht
    rcases pr.one k o ht with h | ⟨eo, h⟩ | ⟨h, j, wk⟩
    · rcases pr.standing.bound_step st h with h | ⟨sc, h⟩
      · exact .inl h
      · exact .inr (.inl ⟨alone sc, h⟩)
    · exact .inr (.inl ⟨eo, pr.standing.bound_cancelled_step st h⟩)
    · obtain ⟨x, hat, hx⟩ : ∃ x, s.At k x ∧ (x = .early ∨ x = .asleep) := by
        rcases h with h | h
        · exact ⟨_, h, .inl rfl⟩
        · exact ⟨_, h, .inr rfl⟩
      rcases hat.step pr.names pr.roles pr.counters st with ⟨i, ho, ho', e, hs⟩ | ⟨r, e, -⟩
      · have on : (s'.stage i k = .early ∨ s'.stage i k = .asleep) →
            ((s'.At k .early ∨ s'.At k .asleep) ∧ ∃ j, Waking s' j k (Owed N k o)) := by
          intro hy
          refine ⟨?_, j, pr.waking_step g st ht wk ho fun r hr => ?_⟩
          · rcases hy with hy | hy
            · exact .inl ⟨i, ho', hy⟩
            · exact .inr ⟨i, ho', hy⟩
          · rw [hr] at hy
            rcases hy with hy | hy <;> cases hy
        cases hs with
        | same e' => exact .inr (.inr (on (by rwa [e', e])))
        | cancels _ sc e' => exact .inr (.inl ⟨alone sc, .inr ⟨i, ho', e'⟩⟩)
        | parks _ _ _ _ _ _ e' => exact .inr (.inr (on (.inr e')))
        | granted _ _ _ e' => exact .inl (.inr ⟨i, ho', e'⟩)
        | skipped w b hu _ hp _ e' =>
          obtain rfl := pr.standing.user_eq hu wk.uses
          have eo : ¬Owed N k o := by
            intro ow
            have tm := wk.tame ow
            rw [hp] at tm
            cases tm
          exact .inr (.inl ⟨eo, .inr ⟨i, ho', e'⟩⟩)
        | ejected hu nt _ _ =>
          have h := pr.standing.kind hu ht
          rw [nt] at h
          cases h
      · subst e
        rcases hx with hx | hx <;> cases hx
  | notify all e hq ht' _ =>
    rw [ht] at ht'
    cases all with
    | true => cases ht'
    | false =>
      obtain ⟨-, i, ho, hx⟩ := pr.queued k (St.taken_queued hq)
      obtain ⟨ho', hs⟩ := pr.standing.stage_taken st ho hq
      obtain ⟨hu, idle⟩ := Standing.uses_taken nm' rl' st hq
      have wk : Waking s' t k (Owed N k o) :=
        ⟨hu, by rw [idle]; nofun, by rw [idle]; exact fun _ => trivial⟩
      rw [← hs] at hx
      rcases hx with hx | hx | hx
      · exact .inr (.inr ⟨.inl ⟨i, ho', hx⟩, t, wk⟩)
      · exact .inr (.inr ⟨.inr ⟨i, ho', hx⟩, t, wk⟩)
      · refine .inr (.inl ⟨fun ow => ?_, .inr ⟨i, ho', hx⟩⟩)
        cases ht'
        exact g.take e k hq ow ⟨i, ho, hs ▸ hx⟩
  | cancel _ _ _ e _ =>
    rw [e] at ht
    cases ht

/-- A wait is plain or not from its beginning. -/
lemma plain_step (st : Step c s t s') (ho : (s.th i).pc.own = some k)
    (hp : (s.th i).pc.plain = false) : (s'.th i).pc.plain = false := by
  by_cases ei : i = t
  · subst ei
    cases st with
    | user _ _ | mutex _ _ _ _ | inside _ _ _ _ => exact hp
    | unlock e _ _ | unlocked e _ | semWait e _ =>
      rw [St.goto_pc]
      rw [e] at hp
      exact hp
    | @waited l sl r e _ =>
      rw [St.goto_pc]
      cases r <;> rfl
    | sweep _ | lock _ _ | locked _ _ =>
      rw [St.goto_pc]
      rfl
    | callWait _ e _ _ | callBareWait _ _ e _ _ | callNotify _ e _ | callCancel _ e _ | done e
    | checkCancelled e _ | checkPass e _ | pushCancelled e _ | push e _ | bareCancelled e _
    | barePass e _ | bareUnlock e _ _ | bareUnlocked e _ | bareLock e _ | bareLocked e _
    | bareEnd e | notify e | signal e _ | signalled e _ | canPass e | cancel e _
    | cancelled e _ =>
      rw [e] at ho
      cases ho
  · rwa [st.th_other ei]

/-- A cancellable wait that parks after its entry was taken out is going to be ejected. -/
lemma eject_of_parks (pr : Promises N s) (g : Guard N s (c, t)) (st : Step c s t s') {sl : Bool}
    (ho : (s.th t).pc.own = some k) (hp : (s.th t).pc.plain = false)
    (he : ((s.sem k).th t).pc = .enter sl) (np : ¬(s.sem k).sem.permits > 0)
    (hc : (sl && c.isTaskCancelled t) = false) (ht : s.taker k = some .cancelWaiters) :
    ∃ j, s'.Uses j k := by
  by_contra none
  have unused : ∀ j, ¬s.Uses j k := by
    intro j hu
    rcases hu.step pr.roles st with hu' | ⟨rfl, -, -⟩
    · exact none ⟨j, hu'⟩
    · exact Standing.own_ne_user ho hu rfl
  have hcan := g.miss k sl ho he np ht unused
  have ha : (s.th t).pc.active = some k := by
    by_contra ne
    rw [pr.roles.quiet t k ne] at he
    cases he
  obtain ⟨-, sl', e⟩ := Pc.waiting_of ha ho
  have ro := pr.roles.role t k ha
  rw [e, he] at ro
  obtain rfl : sl = sl' := eq_of_beq ro
  rw [e] at hp
  have : sl = true := by simpa [Pc.plain] using hp
  subst this
  rw [hcan] at hc
  cases hc

/-- A step under the condition keeps what a `CancelWaiters` promised. -/
lemma can_step (pr : Promises N s) (nm' : Names s') (rl' : Roles s') (g : Guard N s (c, t))
    (st : Step c s t s') (k : Nat) (ht : s'.taker k = some .cancelWaiters) :
    s'.Bound k .cancelled ∨ ∃ i, (s'.th i).pc.own = some k ∧ (s'.th i).pc.plain = false ∧
      (s'.stage i k = .early ∨ s'.stage i k = .asleep ∧ ∃ j, s'.Uses j k) := by
  cases takes st k with
  | none _ e =>
    rw [e] at ht
    -- only `CancelWaiters` has the pointer
    have nt : ∀ {j}, s.Uses j k → (s.th j).pc.notifies = false := by
      intro j hu
      simpa [Taker.cancels] using pr.standing.kind hu ht
    rcases pr.can k ht with h | ⟨i, ho, hp, hx⟩
    · exact .inl (pr.standing.bound_cancelled_step st h)
    · have ho' : (s'.th i).pc.own = some k := by
        by_contra ne
        obtain ⟨r, -, hr, -⟩ := st.returns ho ne
        rw [hr] at hx
        rcases hx with hx | ⟨hx, -⟩ <;> cases hx
      have hp' := plain_step st ho hp
      cases st.stage pr.names pr.roles pr.counters ho ho' with
      | same e' =>
        refine .inr ⟨i, ho', hp', ?_⟩
        rcases hx with hx | ⟨hx, j, hu⟩
        · exact .inl (e'.trans hx)
        · refine .inr ⟨e'.trans hx, ?_⟩
          rcases hu.step pr.roles st with hu' | ⟨rfl, m, fin⟩
          · exact ⟨j, hu'⟩
          · have no : (s.th j).pc.own ≠ some k := fun h => Standing.own_ne_user h hu rfl
            exact absurd (e'.trans hx) (fin.cancel pr.names pr.roles (pr.placed k) ho
              (Standing.own_ne_user ho hu) (nt hu) no fun tok h => g.eject k tok fin.active h)
      | cancels _ _ e' => exact .inl (.inr ⟨i, ho', e'⟩)
      | parks sl ei he np hc _ e' =>
        subst ei
        exact .inr ⟨i, ho', hp', .inr ⟨e', pr.eject_of_parks g st ho hp he np hc ht⟩⟩
      | granted hu hn _ _ =>
        rw [nt hu] at hn
        cases hn
      | skipped _ _ hu hn _ _ _ =>
        rw [nt hu] at hn
        cases hn
      | ejected _ _ _ e' => exact .inl (.inr ⟨i, ho', e'⟩)
  | notify all _ _ e _ =>
    rw [e] at ht
    cases all <;> cases ht
  | cancel tok e hq _ _ =>
    obtain ⟨-, i, ho, hx⟩ := pr.queued k (St.taken_queued hq)
    obtain ⟨ho', hs⟩ := pr.standing.stage_taken st ho hq
    have hp' := plain_step st ho (g.plain tok e k hq i ho)
    rw [← hs] at hx
    rcases hx with hx | hx | hx
    · exact .inr ⟨i, ho', hp', .inl hx⟩
    · exact .inr ⟨i, ho', hp', .inr ⟨hx, t, (Standing.uses_taken nm' rl' st hq).1⟩⟩
    · exact .inl (.inr ⟨i, ho', hx⟩)

/-- Nothing was promised. -/
lemma init : Promises N (CondVar.init T) where
  names := .init
  roles := .init
  counters _ := ⟨Int.le_refl 0, rfl⟩
  placed _ := Semaphore.Placed.init
  hands _ _ h := by cases h
  fresh _ _ := ⟨rfl, rfl⟩
  closed _ _ _ := rfl
  swept _ _ h := by cases h
  queued _ h := by cases h
  one _ _ h := by cases h
  can _ h := by cases h

/-- A step under the condition keeps every promise. -/
lemma step (pr : Promises N s) (g : Guard N s (c, t)) (st : Step c s t s') : Promises N s' := by
  have nm' := pr.names.step st
  have rl' := pr.roles.step pr.names st
  exact
    { names := nm'
      roles := rl'
      counters := counters_step pr.counters st
      placed := placed_step pr.roles pr.placed st
      hands := pr.standing.hands_step st
      fresh := pr.standing.fresh_step st
      closed := pr.standing.closed_step st
      swept := pr.standing.swept_step st
      queued := pr.standing.queued_step nm' st
      one := pr.one_step nm' rl' g st
      can := pr.can_step nm' rl' g st }

end Promises

/-- Going through the waiter of a `Notify`, or just back from it. -/
def tells : Pc → Bool
  | .signal _ _ | .signalling _ _ | .ret .notified => true
  | _ => false

/-- The history of a `Notify_One` that found a waiter. -/
def Heard (s : St T) : Prop :=
  ∀ i, (s.th i).found → tells (s.th i).pc → ∃ k o, (s.th i).took = [k] ∧
    s.taker k = some (.notifyOne o) ∧ (k ∈ (s.th i).pc.hand ∨ s.Left k)

/-- A `CancelWaiters` tells nobody. -/
lemma tells_canNext (tok : CancelToken) (f : Bool) (ks : List Nat) :
    tells (.canNext tok f ks) = false := by
  cases ks with
  | nil => cases f <;> rfl
  | cons k ks => rfl

/-- A step keeps the history of every `Notify_One` that found a waiter. -/
lemma heard_step (pr : Promises N s) (hd : Heard s) (st : Step c s t s') : Heard s' := by
  -- what is known of a waiter stays known
  have keep : ∀ {k o}, s.taker k = some (.notifyOne o) →
      s'.taker k = some (.notifyOne o) ∧ (s.Left k → s'.Left k) := by
    intro k o ht
    have lt : k < s.next := by
      by_contra ge
      rw [(pr.fresh k (Nat.le_of_not_lt ge)).1] at ht
      cases ht
    refine ⟨?_, fun lf => lf.step pr.names pr.roles st lt⟩
    cases takes st k with
    | none _ e => rwa [e]
    | notify _ _ hq _ _ | cancel _ _ hq _ _ =>
      rw [(pr.queued k (St.taken_queued hq)).1] at ht
      cases ht
  intro i hf hp
  by_cases ei : i = t
  · subst ei
    have same : s'.th i = s.th i → ∃ k o, (s'.th i).took = [k] ∧
        s'.taker k = some (.notifyOne o) ∧ (k ∈ (s'.th i).pc.hand ∨ s'.Left k) := by
      intro e
      rw [e] at hf hp ⊢
      obtain ⟨k, o, h1, h2, h3⟩ := hd i hf hp
      exact ⟨k, o, h1, (keep h2).1, h3.imp_right (keep h2).2⟩
    cases st with
    | user _ _ | mutex _ _ _ _ | inside _ _ _ _ => exact same rfl
    | @notify all e =>
      have hf : (!all && !s.queue.isEmpty) = true := by
        simpa [St.dequeue, St.set] using hf
      obtain ⟨ha, hq⟩ := Bool.and_eq_true_iff.1 hf
      obtain rfl : all = false := by simpa using ha
      obtain ⟨w, q, hw⟩ : ∃ w q, s.queue = w :: q := by
        cases h : s.queue with
        | nil =>
          rw [h] at hq
          cases hq
        | cons w q => exact ⟨w, q, rfl⟩
      refine ⟨w.sem, q.map (·.sem), ?_, ?_, .inl ?_⟩
      · simp [St.dequeue, St.set, hw]
      · simp [St.dequeue, St.set, St.withTaker, hw]
      · rw [St.dequeue_pc, Pc.hand_signalNext]
        simp [hw]
    | signal e idle =>
      have hf : (s.th i).found := by
        simpa [St.goto, St.set, St.semCall, St.semDone, St.withSem] using hf
      obtain ⟨k, o, h1, h2, h3⟩ := hd i hf (by rw [e]; rfl)
      refine ⟨k, o, ?_, (keep h2).1, ?_⟩
      · simpa [St.goto, St.set, St.semCall, St.semDone, St.withSem] using h1
      rw [St.goto_pc]
      rw [e] at h3
      exact h3.imp_right (keep h2).2
    | @signalled l ks e back =>
      have hf : (s.th i).found := by
        simpa [St.goto, St.set, St.semCall, St.semDone, St.withSem] using hf
      obtain ⟨k, o, h1, h2, h3⟩ := hd i hf (by rw [e]; rfl)
      refine ⟨k, o, ?_, (keep h2).1, ?_⟩
      · simpa [St.goto, St.set, St.semCall, St.semDone, St.withSem] using h1
      rw [St.goto_pc, Pc.hand_signalNext]
      rcases h3 with h3 | h3
      · rw [e] at h3
        rcases List.mem_cons.1 h3 with rfl | h3
        · exact .inr ((keep h2).2 (St.left_of_back pr.names (by rw [e]; exact List.mem_cons_self)
            (by rw [e]; rfl) (by rw [back]; rfl)))
        · exact .inl h3
      · exact .inr ((keep h2).2 h3)
    | canPass _ | cancelled _ _ =>
      rw [St.goto_pc, tells_canNext] at hp
      cases hp
    | push _ _ =>
      rw [St.enqueue_pc] at hp
      cases hp
    | callWait sl _ _ _ | callBareWait sl _ _ _ _ =>
      rw [St.goto_pc] at hp
      cases sl <;> cases hp
    | @waited l sl r _ _ =>
      rw [St.goto_pc] at hp
      cases r <;> cases hp
    | _ =>
      rw [St.goto_pc] at hp
      cases hp
  · rw [st.th_other ei] at hf hp ⊢
    obtain ⟨k, o, h1, h2, h3⟩ := hd i hf hp
    exact ⟨k, o, h1, (keep h2).1, h3.imp_right (keep h2).2⟩

end Steps

/-- What the condition variable promises. A call is bound to a result when it has returned it, or has
been resumed with it, or finds a permit: every further step under the guard keeps that.
`notified`, `kept`: a `Notify_One` that found a waiter took one out and is through with it, and that one
is bound to return; it returns `ok` if a waiter that is never cancelled was queued.
`ejected`: a waiter that a `CancelWaiters` took out is cancellable and returns `cancelled`; while it is
switched out somebody is on the way to eject it, and if it is not yet there its own test is to come.
`mutex`: a call that returns has the mutex, and nobody else has it. -/
structure Delivers (N : Nat → Prop) (s : St T) : Prop where
  notified : ∀ t, (s.th t).pc = .ret .notified → (s.th t).found →
    ∃ k r, k ∈ (s.th t).took ∧ s.taker k = some (.notifyOne r) ∧ s.Left k
  kept : ∀ k r, s.taker k = some (.notifyOne r) → s.Left k →
    s.Bound k .ok ∨ (¬Owed N k r ∧ s.Bound k .cancelled)
  ejected : ∀ k, s.taker k = some .cancelWaiters → s.Bound k .cancelled ∨
    ∃ i, (s.th i).pc.own = some k ∧ (s.th i).pc.plain = false ∧
      (s.stage i k = .early ∨ s.stage i k = .asleep ∧ ∃ j, s.Uses j k)
  mutex : ∀ t r, (s.th t).pc = .ret (.res r) →
    (s.mx.th t).pc = .idle ∧ s.mx.Owner t ∧ ∀ u, s.mx.Owner u → u = t

/-- Every run under the guard delivers, whichever waits are never cancelled. -/
theorem notifies_delivered {s : St T} (N : Nat → Prop)
    (rn : Runs Next (Guard N) (CondVar.init T) s) : Delivers N s := by
  obtain ⟨pr, he, hd⟩ : Promises N s ∧ Held s ∧ Heard s := by
    refine rn.invariant (I := fun u => Promises N u ∧ Held u ∧ Heard u)
      ⟨.init, .init, fun i hf => by cases hf⟩ ?_
    rintro u a u' ⟨pr, he, hd⟩ g st
    exact ⟨pr.step g st, he.step st, heard_step pr hd st⟩
  constructor
  · intro t ht hf
    obtain ⟨k, r, h1, h2, h3⟩ := hd t hf (by rw [ht]; rfl)
    refine ⟨k, r, by rw [h1]; exact List.mem_singleton_self k, h2, h3.resolve_left fun h => ?_⟩
    rw [ht] at h
    cases h
  · intro k r ht lf
    rcases pr.one k r ht with h | h | ⟨-, j, wk⟩
    · exact .inl h
    · exact .inr h
    · exact absurd wk.uses (lf.2 j)
  · exact pr.can
  · exact fun t r ht => he.owner (by rw [ht]; rfl)

section Lost
variable {s s' : St T} {c : World T} {t i : T} {k : Nat}

/-- A waiter that is switched out and that nobody will use stays switched out. -/
lemma lost_step (b : Basic s) (st : Step c s t s') (lt : k < s.next) (hx : s.At k .asleep)
    (lf : s.Left k) : k < s'.next ∧ s'.At k .asleep ∧ s'.Left k := by
  refine ⟨?_, ?_, lf.step b.names b.roles st lt⟩
  · rcases Lifetime.next_step st with e | ⟨e, -⟩
    · rwa [e]
    · rw [e]
      exact Nat.lt_succ_of_lt lt
  · rcases hx.step b.names b.roles b.counters st with ⟨i, ho, ho', e, hs⟩ | ⟨r, e, -⟩
    · cases hs with
      | same e' => exact ⟨i, ho', e'.trans e⟩
      | cancels ei sc _ =>
        -- it is not testing anything, it is switched out
        subst ei
        rcases Pc.stage_cases (T := T) (s.th i).pc with same | ⟨r, same⟩
        · obtain ⟨b, pk⟩ := Semaphore.Thread.parked_of_asleep ((same _ _).symm.trans e)
          have h := sc.2.2
          rw [pk] at h
          rcases h with h | ⟨h, -⟩ <;> cases h
        · rw [St.stage, same] at e
          cases e
      | parks _ _ _ _ _ e' _ =>
        rw [e] at e'
        cases e'
      | granted hu _ _ _ | skipped _ _ hu _ _ _ _ | ejected hu _ _ _ => exact absurd hu (lf.2 t)
    · cases e

/-- A waiter that nobody will use any more stays asleep. -/
lemma lost_runs (b : Basic s) (lt : k < s.next) (hx : s.At k .asleep) (lf : s.Left k)
    (rn : Reaches Next s s') : s'.At k .asleep ∧ s'.Left k := by
  obtain ⟨-, -, h⟩ : Basic s' ∧ k < s'.next ∧ s'.At k .asleep ∧ s'.Left k := by
    refine rn.invariant (I := fun u => Basic u ∧ k < u.next ∧ u.At k .asleep ∧ u.Left k)
      ⟨b, lt, hx, lf⟩ ?_
    rintro u a u' ⟨b, lt, hx, lf⟩ _ st
    exact ⟨b.of_runs (Runs.refl.tail trivial st : Reaches Next u u'), lost_step b st lt hx lf⟩
  exact h

end Lost

section Schedules
variable {N : Nat → Prop} {s : St T} {t i : T} {k : Nat}

/-- Neither taking waiters out nor cancelling any. -/
def steady : Pc → Bool
  | .notify _ | .canEnter _ | .cancelling _ _ _ _ => false
  | _ => true

/-- A step in a world where no task is cancelled. -/
lemma Guard.calm (rl : Roles s) (h : steady (s.th t).pc)
    (ht : ∀ k, (s.th t).pc.own = some k → s.taker k ≠ some .cancelWaiters) :
    Guard N s (.direct [], t) where
  self k r sc := absurd sc.2.1 (by simp)
  take e := by
    rw [e] at h
    cases h
  skip k r w e _ _ _ _ := by simp
  plain tok e := by
    rw [e] at h
    cases h
  eject k tok ha e := by
    have ro := rl.role t k ha
    rw [e] at ro
    cases e' : (s.th t).pc with
    | cancelling _ _ _ _ =>
      rw [e'] at h
      cases h
    | _ =>
      rw [e'] at ro
      cases ro
  miss k sl ho _ _ e := absurd e (ht k ho)

/-- A `Notify_One` takes out one waiter, which is switched out. -/
lemma Guard.takes (nm : Names s) (e : (s.th t).pc = .notify false)
    (h : s.taken (.direct [], t) = [k]) (ho : (s.th i).pc.own = some k)
    (hx : s.stage i k = .asleep) : Guard N s (.direct [], t) where
  self k r sc := absurd sc.2.1 (by simp)
  take _ j hj _ hb := by
    rw [h] at hj
    cases List.mem_singleton.1 hj
    obtain ⟨u, hu, hb⟩ := hb
    cases nm.one u i k hu ho
    rw [hx] at hb
    cases hb
  skip k r w e _ _ _ _ := by simp
  plain tok e' := by
    rw [e] at e'
    cases e'
  eject k tok ha _ := by
    rw [e] at ha
    cases ha
  miss k sl ho _ _ _ := by
    rw [e] at ho
    cases ho

/-- The waiter of the schedules below: fiber 1 in `Wait`, first on its semaphore. -/
abbrev w1 : Waiter Nat := ⟨1, .fiber, false, .kNone, 0⟩

/-- Fiber 1 is switched out in a plain `Wait`. -/
lemma plain_reached (N : Nat → Prop) : ∃ s : St Nat, Runs Next (Guard N) (init Nat) s ∧
    s.queue = [⟨0, .kNone⟩] ∧ s.next = 1 ∧ s.taker 0 = none ∧ s.th 1 = { pc := .waiting 0 false } ∧
    (∀ t, t ≠ 1 → s.th t = {}) ∧ (s.mx.th 0).pc = .idle ∧
    (s.sem 0).sem = ⟨0, 1, [w1], 1⟩ ∧ (s.sem 0).th 0 = {} ∧
    (s.sem 0).th 1 = { pc := .parked false } := by
  have b : Basic (init Nat) := .init
  have r1 := (Runs.refl : Runs Next (Guard N) (init Nat) _).next (.direct [], 1)
    (.calm b.roles rfl nofun) (.user rfl (.here (.call .lock rfl)))
  have r2 := r1.next (.direct [], 1) (.calm (b.of_runs r1).roles rfl nofun)
    (.user rfl (.here (.enterTake rfl rfl)))
  have r3 := r2.next (.direct [], 1) (.calm (b.of_runs r2).roles rfl nofun)
    (.user rfl (.here (.record rfl)))
  have r4 := r3.next (.direct [], 1) (.calm (b.of_runs r3).roles rfl nofun)
    (.user rfl (.here (.done rfl)))
  have r5 := r4.next (.direct [], 1) (.calm (b.of_runs r4).roles rfl nofun)
    (.callWait false rfl rfl rfl)
  have r6 := r5.next (.direct [], 1) (.calm (b.of_runs r5).roles rfl nofun) (.push rfl rfl)
  have r7 := r6.next (.direct [], 1) (.calm (b.of_runs r6).roles rfl fun _ _ => nofun)
    (.unlock rfl rfl rfl)
  have r8 := r7.next (.direct [], 1) (.calm (b.of_runs r7).roles rfl fun _ _ => nofun)
    (.mutex rfl nofun nofun (.here (.unlHolder rfl)))
  have r9 := r8.next (.direct [], 1) (.calm (b.of_runs r8).roles rfl fun _ _ => nofun)
    (.mutex rfl nofun nofun (.here (.unlFree rfl rfl)))
  have r10 := r9.next (.direct [], 1) (.calm (b.of_runs r9).roles rfl fun _ _ => nofun)
    (.mutex rfl nofun nofun (.here (.unlLoadZero rfl rfl)))
  have r11 := r10.next (.direct [], 1) (.calm (b.of_runs r10).roles rfl fun _ _ => nofun)
    (.unlocked rfl rfl)
  have r12 := r11.next (.direct [], 1) (.calm (b.of_runs r11).roles rfl fun _ _ => nofun)
    (.semWait rfl rfl)
  have r13 := r12.next (.direct [], 1) (.calm (b.of_runs r12).roles rfl fun _ _ => nofun)
    (.inside rfl nofun nofun (.enterPush rfl (by decide) rfl))
  refine ⟨_, r13, rfl, rfl, rfl, rfl, fun t h1 => ?_, rfl, rfl, rfl, rfl⟩
  simp [St.withSem, St.goto, St.set, St.semCall, St.unlockDone, St.withMx, St.unlockCall,
    St.enqueue, h1, init]

/-- `CancelWaiters` with no token takes a plain `Wait` out of the queue and wakes nobody: the waiter never
returns, and no notify will find it. -/
theorem ejected_waiter_lost : ∃ s : St Nat, Reaches Next (init Nat) s ∧
    (s.th 0).pc = .ret .ejected ∧ s.taker 0 = some .cancelWaiters ∧
    ∀ s', Reaches Next s s' → s'.At 0 .asleep ∧ s'.Left 0 := by
  obtain ⟨⟨mx, sem, q, n, th, tk, res⟩, rn, rfl, rfl, -, h1, ho, m0, hs, q0, q1⟩ :=
    plain_reached fun _ => True
  dsimp only at h1 ho m0 hs q0 q1
  have h0 := ho 0 (by decide)
  have r1 := rn.reaches.next (.direct [], 0) trivial
    (.callCancel .kNone (congrArg Thread.pc h0) m0)
  have r2 := r1.next (.direct [], 0) trivial (.canPass rfl)
  have r3 := r2.next (.direct [], 0) trivial (.cancel (k := 0) rfl (congrArg Semaphore.Thread.pc q0))
  have r4 := r3.next (.direct [], 0) trivial (.inside rfl nofun nofun (.canPass rfl))
  have b4 := Basic.init.of_runs r4
  have none : ((sem 0).sem.cancelPass (World.direct []) .kNone).1 = [] := by
    rw [hs]
    rfl
  -- the pass on the semaphore found nobody with a result slot
  have back : Semaphore.Pc.canNext .kNone
      (kBuf ≤ ((sem 0).sem.cancelPass (World.direct []) .kNone).1.length)
      ((sem 0).sem.cancelPass (World.direct []) .kNone).1 = .ret .ejected := by
    rw [none]
    rfl
  have r5 := r4.next (.direct [], 0) trivial (.cancelled rfl back)
  have lf := St.left_of_back b4.names (t := 0) (k := 0) List.mem_cons_self rfl
    (congrArg Semaphore.Pc.back back)
  have hx := lost_step b4 (.cancelled (c := .direct []) (t := 0) rfl back) Nat.zero_lt_one
    ⟨1, congrArg (fun h : Thread => h.pc.own) h1, by
      simp [St.stage, h1, q1, Pc.stage, Semaphore.Thread.stage, St.withSem, St.goto, St.set, St.semCall,
          St.withTaker, St.withQueue]⟩ lf
  refine ⟨_, r5, rfl, rfl, fun s' rn' => ?_⟩
  exact lost_runs (Basic.init.of_runs r5) hx.1 hx.2.1 hx.2.2 rn'

/-- Fiber 0 notifies it: the waiter is bound to return `ok`. -/
theorem notifies_delivered_wait : ∃ s : St Nat,
    Runs Next (Guard fun _ => True) (init Nat) s ∧ (s.th 0).pc = .ret .notified ∧
    (s.th 0).found = true ∧ Delivers (fun _ => True) s := by
  obtain ⟨⟨mx, sem, q, n, th, tk, res⟩, rn, rfl, rfl, -, h1, ho, m0, hs, q0, q1⟩ :=
    plain_reached fun _ => True
  dsimp only at h1 ho m0 hs q0 q1
  have b : Basic (init Nat) := .init
  have h0 := ho 0 (by decide)
  have r1 := rn.next (.direct [], 0)
    (.calm (b.of_runs rn).roles (congrArg (fun h : Thread => steady h.pc) h0) fun k hk => by
      cases (congrArg (fun h : Thread => h.pc.own) h0).symm.trans hk)
    (.callNotify false (congrArg Thread.pc h0) m0)
  have r2 := r1.next (.direct [], 0) (.takes (i := 1) (k := 0) (b.of_runs r1).names rfl rfl
    (congrArg (fun h : Thread => h.pc.own) h1) (by
      change Pc.stage (th 1).pc ((sem 0).th 1) (sem 0).sem.permits = _
      rw [h1, q1]
      rfl)) (.notify rfl)
  have r3 := r2.next (.direct [], 0) (.calm (b.of_runs r2).roles rfl nofun)
    (.signal rfl (congrArg Semaphore.Thread.pc q0))
  have r4 := r3.next (.direct [], 0) (.calm (b.of_runs r3).roles rfl nofun)
    (.inside rfl nofun nofun (.sigPop (w := w1) rfl (congrArg Semaphore.Sem.waiters hs)))
  have r5 := r4.next (.direct [], 0) (.calm (b.of_runs r4).roles rfl nofun)
    (.inside rfl nofun nofun (.sigTest (w := w1) rfl))
  have r6 := r5.next (.direct [], 0) (.calm (b.of_runs r5).roles rfl nofun)
    (.inside rfl nofun nofun (.sigWrite (w := w1) rfl))
  have r7 := r6.next (.direct [], 0) (.calm (b.of_runs r6).roles rfl nofun)
    (.inside rfl nofun nofun (.sigGrant (w := w1) rfl))
  have r8 := r7.next (.direct [], 0) (.calm (b.of_runs r7).roles rfl nofun) (.signalled rfl rfl)
  exact ⟨_, r8, rfl, rfl, notifies_delivered _ r8⟩

end Schedules
end Delivery
end JLib.CondVar
