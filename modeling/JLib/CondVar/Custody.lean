import JLib.CondVar.Model
import JLib.Semaphore.Roles

/-!
# Condition variable: names and roles

What holds of the three queues whatever the tasks do. `Names`: a semaphore belongs to one waiting call,
and the pointer to it is in `waitingQueue` or in the hands of one `Notify` or `CancelWaiters`, once.
`Roles`: who is inside a semaphore, and in which of its operations, is what the party's place in the
condition variable says. `Held`: a waiting call that is about to unlock the mutex or has returned
has it.
-/

namespace JLib.CondVar
open LTS

variable {T : Type}

/-- Where the pointers are: `none` is the queue, `some i` the hands of `i`. -/
def St.places (s : St T) : Option T → List Nat
  | none => s.queue.map (·.sem)
  | some i => (s.th i).pc.hand

/-- Semaphores have one owner each and one pointer each. -/
structure Names (s : St T) : Prop where
  cus : Custody s.places
  pointed : ∀ p, ∀ k ∈ s.places p, k < s.next
  owned : ∀ i k, (s.th i).pc.own = some k → k < s.next
  one : ∀ i j k, (s.th i).pc.own = some k → (s.th j).pc.own = some k → i = j

namespace Names
variable {s s' : St T} {t : T} {h : Thread}

/-- There is no semaphore yet. -/
lemma init : Names (CondVar.init T) := by
  constructor
  · exact Custody.empty fun p => by cases p <;> rfl
  · intro p k hk
    cases p <;> cases hk
  · intro i k hk
    cases hk
  · intro i j k hk
    cases hk

/-- Nothing that `Names` speaks of changes. -/
lemma congr (nm : Names s) (hth : s'.th = s.th) (hq : s'.queue = s.queue)
    (hn : s'.next = s.next) : Names s' := by
  have hp : s'.places = s.places := by
    funext p
    cases p with
    | none => simp only [St.places, hq]
    | some i => simp only [St.places, hth]
  constructor
  · rw [hp]
    exact nm.cus
  · rw [hp, hn]
    exact nm.pointed
  · rw [hth, hn]
    exact nm.owned
  · rw [hth]
    exact nm.one

variable [DecidableEq T]

/-- A party takes pointers from the queue or lets go of some, and keeps or destroys its semaphore. -/
lemma move (nm : Names s) (hth : s'.th = Function.update s.th t h) (hn : s'.next = s.next)
    (sub : (s'.queue.map (·.sem) ++ h.pc.hand).Subperm
      (s.queue.map (·.sem) ++ (s.th t).pc.hand))
    (own : ∀ k, h.pc.own = some k → (s.th t).pc.own = some k) : Names s' := by
  have self : s'.th t = h := by rw [hth, Function.update_self]
  have other : ∀ i, i ≠ t → s'.th i = s.th i := fun i hi => by rw [hth, Function.update_of_ne hi]
  have hown : ∀ i k, (s'.th i).pc.own = some k → (s.th i).pc.own = some k := by
    intro i k hk
    by_cases e : i = t
    · subst e
      rw [self] at hk
      exact own k hk
    · rwa [other i e] at hk
  constructor
  · apply nm.cus.move (p := none) (q := some t) (by simp)
    · intro r h0 ht
      cases r with
      | none => exact absurd rfl h0
      | some i => simp only [St.places, other i fun e => ht (e ▸ rfl)]
    · simpa only [St.places, self] using sub
  · rw [hn]
    have both : ∀ k, k ∈ s'.places none ∨ k ∈ s'.places (some t) → k < s.next := by
      intro k hk
      have hm : k ∈ s'.queue.map (·.sem) ++ h.pc.hand := by
        rw [List.mem_append]
        simpa only [St.places, self] using hk
      rcases List.mem_append.1 (sub.subset hm) with hm | hm
      · exact nm.pointed none k hm
      · exact nm.pointed (some t) k hm
    intro p k hk
    cases p with
    | none => exact both k (.inl hk)
    | some i =>
      by_cases e : i = t
      · subst e
        exact both k (.inr hk)
      · refine nm.pointed (some i) k ?_
        simpa only [St.places, other i e] using hk
  · intro i k hk
    rw [hn]
    exact nm.owned i k (hown i k hk)
  · intro i j k hi hj
    exact nm.one i j k (hown i k hi) (hown j k hj)

/-- A waiting call queues a new semaphore. -/
lemma enqueue (nm : Names s) {sl : Bool} {tok : CancelToken} (h0 : (s.th t).pc.hand = []) :
    Names (s.enqueue t sl tok) := by
  have self : (s.enqueue t sl tok).th t = { s.th t with pc := .unlock s.next sl } :=
    Function.update_self ..
  have other : ∀ i, i ≠ t → (s.enqueue t sl tok).th i = s.th i := fun i hi =>
    Function.update_of_ne hi ..
  have hands : ∀ i, ((s.enqueue t sl tok).th i).pc.hand = (s.th i).pc.hand := by
    intro i
    by_cases e : i = t
    · subst e
      rw [self, h0]
      rfl
    · rw [other i e]
  have notin : ∀ p, s.next ∉ s.places p := fun p hp => Nat.lt_irrefl _ (nm.pointed p _ hp)
  constructor
  · apply nm.cus.put (p := none) (k := s.next) notin
    · intro r hr
      cases r with
      | none => exact absurd rfl hr
      | some i => exact hands i
    · simp [St.places, St.enqueue, St.goto, St.set]
  · intro p k hk
    show k < s.next + 1
    cases p with
    | none =>
      have hk' : k ∈ s.places none ∨ k = s.next := by
        simpa [St.places, St.enqueue, St.goto, St.set] using hk
      rcases hk' with hk | rfl
      · exact Nat.lt_succ_of_lt (nm.pointed none k hk)
      · exact Nat.lt_succ_self _
    | some i =>
      refine Nat.lt_succ_of_lt (nm.pointed (some i) k ?_)
      rw [St.places, hands i] at hk
      exact hk
  · intro i k hk
    show k < s.next + 1
    by_cases e : i = t
    · subst e
      rw [self] at hk
      cases hk
      exact Nat.lt_succ_self _
    · rw [other i e] at hk
      exact Nat.lt_succ_of_lt (nm.owned i k hk)
  · intro i j k hi hj
    by_cases ei : i = t <;> by_cases ej : j = t
    · rw [ei, ej]
    · rw [ei, self] at hi
      cases hi
      rw [other j ej] at hj
      exact absurd (nm.owned j _ hj) (Nat.lt_irrefl _)
    · rw [ej, self] at hj
      cases hj
      rw [other i ei] at hi
      exact absurd (nm.owned i _ hi) (Nat.lt_irrefl _)
    · rw [other i ei] at hi
      rw [other j ej] at hj
      exact nm.one i j k hi hj

/-- A party moves on, the queue is untouched. -/
lemma goto (nm : Names s) (hth : s'.th = Function.update s.th t h) (hn : s'.next = s.next)
    (hq : s'.queue = s.queue) (hh : h.pc.hand.Sublist (s.th t).pc.hand)
    (own : ∀ k, h.pc.own = some k → (s.th t).pc.own = some k) : Names s' := by
  refine nm.move hth hn ?_ own
  rw [hq]
  exact (hh.append_left _).subperm

end Names

/-- A `Notify` that goes on has what it has still to signal. -/
lemma Pc.hand_signalNext (ks : List Nat) : (Pc.signalNext ks).hand = ks := by
  cases ks <;> rfl

/-- A `CancelWaiters` that goes on has its other victims. -/
lemma Pc.hand_canNext (tok : CancelToken) (f : Bool) (ks : List Nat) :
    (Pc.canNext tok f ks).hand = ks := by
  cases ks with
  | nil => cases f <;> rfl
  | cons k ks => rfl

/-- A `Notify` has no semaphore in its frame. -/
lemma Pc.own_signalNext (ks : List Nat) : (Pc.signalNext ks).own = none := by
  cases ks <;> rfl

/-- A `CancelWaiters` has no semaphore in its frame. -/
lemma Pc.own_canNext (tok : CancelToken) (f : Bool) (ks : List Nat) :
    (Pc.canNext tok f ks).own = none := by
  cases ks with
  | nil => cases f <;> rfl
  | cons k ks => rfl

/-- Between two signals a `Notify` is inside no semaphore. -/
lemma Pc.active_signalNext (ks : List Nat) : (Pc.signalNext ks).active = none := by
  cases ks <;> rfl

/-- Between two victims a `CancelWaiters` is inside no semaphore. -/
lemma Pc.active_canNext (tok : CancelToken) (f : Bool) (ks : List Nat) :
    (Pc.canNext tok f ks).active = none := by
  cases ks with
  | nil => cases f <;> rfl
  | cons k ks => rfl

/-- A `Notify` moves pointers from the queue into its hands. -/
lemma St.dequeue_perm (s : St T) (all : Bool) :
    ((if all then [] else s.queue.tail).map (·.sem) ++
      (if all then s.queue.map (·.sem) else (s.queue.map (·.sem)).take 1)).Perm
      (s.queue.map (·.sem) ++ []) := by
  rw [List.append_nil]
  cases all with
  | true => simp
  | false =>
    cases s.queue with
    | nil => simp
    | cons w q => simp

/-- A pass of `CancelWaiters` moves pointers from the queue into its hands. -/
lemma St.cancelPass_perm (s : St T) (c : World T) (tok : CancelToken) :
    ((s.cancelPass c tok).2.map (·.sem) ++ (s.cancelPass c tok).1.map (·.sem)).Perm
      (s.queue.map (·.sem) ++ []) := by
  rw [List.append_nil, ← List.map_append]
  exact (List.perm_append_comm.trans (eject_perm _ _ _)).map _

variable [DecidableEq T]

/-- A step keeps the owners and the pointers apart. -/
lemma Names.step {s s' : St T} {t : T} {c : World T} (nm : Names s) (st : Step c s t s') :
    Names s' := by
  cases st with
  | user _ _ | mutex _ _ _ _ | inside _ _ _ _ => exact nm.congr rfl rfl rfl
  | push e _ => exact nm.enqueue (by rw [e]; rfl)
  | callWait sl e _ _ =>
    cases sl <;> exact nm.goto rfl rfl rfl (List.nil_sublist _) (fun k hk => by cases hk)
  | callBareWait sl n e _ _ =>
    cases sl <;> exact nm.goto rfl rfl rfl (List.nil_sublist _) (fun k hk => by cases hk)
  | callNotify _ e _ | callCancel _ e _ | done e | checkCancelled e _ | checkPass e _
  | pushCancelled e _ | bareCancelled e _ | barePass e _ | bareUnlock e _ _ | bareUnlocked e _
  | bareLock e _ | bareLocked e _ | bareEnd e | locked e _ =>
    exact nm.goto rfl rfl rfl (List.nil_sublist _) (fun k hk => by cases hk)
  | unlock e _ _ | unlocked e _ | semWait e _ | lock e _ =>
    exact nm.goto rfl rfl rfl (List.nil_sublist _) (fun k hk => by rw [e]; exact hk)
  | @waited k sl r e _ =>
    refine nm.goto rfl rfl rfl ?_ ?_
    · split <;> exact List.nil_sublist _
    · intro j hj
      rw [e]
      revert hj
      split <;> exact id
  | @sweep k e =>
    refine nm.move rfl rfl ?_ (fun j hj => by rw [e]; exact hj)
    have sub : (s.queue.filter (·.sem ≠ k)).Sublist s.queue := List.filter_sublist
    exact ((sub.map _).append (List.nil_sublist _)).subperm
  | signal e _ | cancel e _ =>
    exact nm.goto rfl rfl rfl (by rw [e]; exact List.Sublist.refl _) (fun k hk => by cases hk)
  | @signalled k ks e _ =>
    refine nm.goto rfl rfl rfl ?_ ?_
    · show (Pc.signalNext ks).hand.Sublist _
      rw [Pc.hand_signalNext, e]
      exact List.sublist_cons_self k ks
    · intro j (hj : (Pc.signalNext ks).own = some j)
      rw [Pc.own_signalNext] at hj
      cases hj
  | @cancelled tok k ks f e _ =>
    refine nm.goto rfl rfl rfl ?_ ?_
    · show (Pc.canNext tok f ks).hand.Sublist _
      rw [Pc.hand_canNext, e]
      exact List.sublist_cons_self k ks
    · intro j (hj : (Pc.canNext tok f ks).own = some j)
      rw [Pc.own_canNext] at hj
      cases hj
  | @notify all e =>
    refine nm.move rfl rfl ?_ ?_
    · show (List.map _ _ ++ (Pc.signalNext _).hand).Subperm _
      rw [Pc.hand_signalNext, e]
      exact (s.dequeue_perm all).subperm
    · intro j (hj : (Pc.signalNext _).own = some j)
      rw [Pc.own_signalNext] at hj
      cases hj
  | @canPass tok e =>
    refine nm.move rfl rfl ?_ ?_
    · show (List.map _ _ ++ (Pc.canNext _ _ _).hand).Subperm _
      rw [Pc.hand_canNext, e]
      exact (s.cancelPass_perm c tok).subperm
    · intro j (hj : (Pc.canNext _ _ _).own = some j)
      rw [Pc.own_canNext] at hj
      cases hj

section Frame
variable {s s' : St T} {c : World T} {t i : T}

/-- A step only moves the party that makes it. -/
lemma Step.th_other (st : Step c s t s') (ne : i ≠ t) : s'.th i = s.th i := by
  cases st with
  | user _ _ | mutex _ _ _ _ | inside _ _ _ _ => rfl
  | _ => exact Function.update_of_ne ne _ _

/-- A step changes at most one semaphore, and that by a step of the semaphore. -/
lemma Step.sem_cases (st : Step c s t s') :
    s'.sem = s.sem ∨ ∃ k m, s'.sem = Function.update s.sem k m ∧ Semaphore.Step c (s.sem k) t m := by
  cases st with
  | inside _ _ _ st => exact .inr ⟨_, _, rfl, st⟩
  | semWait _ idle | signal _ idle | cancel _ idle => exact .inr ⟨_, _, rfl, .call _ idle⟩
  | waited _ back | signalled _ back | cancelled _ back => exact .inr ⟨_, _, rfl, .done back⟩
  | _ => exact .inl rfl

/-- A step changes the mutex by a step of the mutex. -/
lemma Step.mx_cases (st : Step c s t s') : s'.mx = s.mx ∨ Mutex.Step c s.mx t s'.mx := by
  cases st with
  | user _ st | mutex _ _ _ st => exact .inr st
  | unlock _ idle hh | bareUnlock _ idle hh => exact .inr (.here (.callUnlock idle hh))
  | unlocked _ back | bareUnlocked _ back =>
    refine .inr ?_
    have st : Mutex.Step c s.mx t _ := .here (.done back)
    simpa [St.unlockDone, St.withMx, St.goto, St.set, Mutex.St.goto, Mutex.St.set] using st
  | lock _ idle | bareLock _ idle => exact .inr (.here (.call _ idle))
  | locked _ back | bareLocked _ back =>
    refine .inr ?_
    have st : Mutex.Step c s.mx t _ := .here (.done back)
    simpa [St.lockDone, St.withMx, St.withResult, St.goto, St.set, Mutex.St.set] using st
  | _ => exact .inl rfl

end Frame

/-- The places inside a semaphore that go with a place in the condition variable. -/
def Pc.Role (p : Pc) (q : Semaphore.Pc T) : Prop :=
  match p with
  | .waiting _ sl => q.waits sl
  | .signalling _ _ => q.signals
  | .cancelling _ _ _ _ => q.cancels
  | _ => False

/-- Parties are inside the semaphores they should be inside, in the right operation. -/
structure Roles (s : St T) : Prop where
  inv : ∀ k, Semaphore.Inv (s.sem k)
  quiet : ∀ i k, (s.th i).pc.active ≠ some k → ((s.sem k).th i).pc = .idle
  role : ∀ i k, (s.th i).pc.active = some k → (s.th i).pc.Role ((s.sem k).th i).pc
  fresh : ∀ k, s.next ≤ k → s.sem k = Semaphore.init (.new 0 1)

omit [DecidableEq T] in
/-- A semaphore that a party is inside was made. -/
lemma Names.active_lt {s : St T} (nm : Names s) {i : T} {k : Nat}
    (h : (s.th i).pc.active = some k) : k < s.next := by
  have hp := nm.pointed (some i) k
  have ho := nm.owned i k
  simp only [St.places] at hp
  cases e : (s.th i).pc with
  | waiting j sl =>
    rw [e] at h ho
    exact ho h
  | signalling j ks =>
    rw [e] at h hp
    cases h
    exact hp List.mem_cons_self
  | cancelling tok j ks f =>
    rw [e] at h hp
    cases h
    exact hp List.mem_cons_self
  | _ =>
    rw [e] at h
    cases h

namespace Roles
variable {s s' : St T} {t : T} {h : Thread} {c : World T} {k : Nat}

/-- Nobody is inside a semaphore. -/
lemma init : Roles (CondVar.init T) := by
  refine ⟨fun k => Semaphore.Inv.init rfl Int.one_nonneg, fun i k _ => rfl, fun i k hk => ?_,
    fun k _ => rfl⟩
  cases hk

/-- The mutex moved. -/
lemma congr (rl : Roles s) (hth : s'.th = s.th) (hs : s'.sem = s.sem) (hn : s'.next = s.next) :
    Roles s' := by
  constructor
  · rw [hs]
    exact rl.inv
  · rw [hth, hs]
    exact rl.quiet
  · rw [hth, hs]
    exact rl.role
  · rw [hn, hs]
    exact rl.fresh

/-- A party moves on outside all semaphores. -/
lemma move (rl : Roles s) (hth : s'.th = Function.update s.th t h) (hs : s'.sem = s.sem)
    (hn : s.next ≤ s'.next) (h0 : (s.th t).pc.active = none) (h1 : h.pc.active = none) :
    Roles s' := by
  have self : s'.th t = h := by rw [hth, Function.update_self]
  have other : ∀ i, i ≠ t → s'.th i = s.th i := fun i hi => by rw [hth, Function.update_of_ne hi]
  constructor
  · rw [hs]
    exact rl.inv
  · intro i k hk
    rw [hs]
    by_cases e : i = t
    · subst e
      exact rl.quiet i k (by rw [h0]; simp)
    · exact rl.quiet i k (other i e ▸ hk)
  · intro i k hk
    rw [hs]
    by_cases e : i = t
    · subst e
      rw [self, h1] at hk
      cases hk
    · rw [other i e] at hk ⊢
      exact rl.role i k hk
  · intro k hk
    rw [hs]
    exact rl.fresh k (hn.trans hk)

/-- One semaphore changes: the moving party's record in it, and others that were switched out. -/
lemma change (rl : Roles s) {m : Semaphore.St T} (lt : k < s.next)
    (hth : ∀ i, i ≠ t → s'.th i = s.th i) (hs : s'.sem = Function.update s.sem k m)
    (hn : s'.next = s.next) (inv : Semaphore.Inv m)
    (other : ∀ i, i ≠ t → (m.th i).pc = ((s.sem k).th i).pc ∨
      ∃ b, ((s.sem k).th i).pc = .parked b ∧ (m.th i).pc = .awake b)
    (h0 : ∀ j, j ≠ k → (s.th t).pc.active ≠ some j)
    (h1 : ∀ j, j ≠ k → (s'.th t).pc.active ≠ some j)
    (quiet : (s'.th t).pc.active ≠ some k → (m.th t).pc = .idle)
    (role : (s'.th t).pc.active = some k → (s'.th t).pc.Role (m.th t).pc) : Roles s' := by
  have here : s'.sem k = m := by rw [hs, Function.update_self]
  have there : ∀ j, j ≠ k → s'.sem j = s.sem j := fun j hj => by rw [hs, Function.update_of_ne hj]
  constructor
  · intro j
    by_cases e : j = k
    · rw [e, here]
      exact inv
    · rw [there j e]
      exact rl.inv j
  · intro i j hj
    by_cases ej : j = k
    · subst ej
      rw [here]
      by_cases ei : i = t
      · subst ei
        exact quiet hj
      · have idle := rl.quiet i j (hth i ei ▸ hj)
        rcases other i ei with e | ⟨b, e, -⟩
        · rw [e, idle]
        · rw [idle] at e
          cases e
    · rw [there j ej]
      by_cases ei : i = t
      · subst ei
        exact rl.quiet i j (h0 j ej)
      · exact rl.quiet i j (hth i ei ▸ hj)
  · intro i j hj
    by_cases ej : j = k
    · subst ej
      rw [here]
      by_cases ei : i = t
      · subst ei
        exact role hj
      · rw [hth i ei] at hj ⊢
        have ro := rl.role i j hj
        rcases other i ei with e | ⟨b, e, e'⟩
        · rw [e]
          exact ro
        · -- only a waiting party is ever switched out
          rw [e] at ro
          rw [e']
          revert ro
          cases (s.th i).pc <;> simp [Pc.Role, Semaphore.Pc.waits, Semaphore.Pc.signals,
            Semaphore.Pc.inSignal, Semaphore.Pc.cancels]
    · rw [there j ej]
      by_cases ei : i = t
      · subst ei
        exact absurd hj (h1 j ej)
      · rw [hth i ei] at hj ⊢
        exact rl.role i j hj
  · intro j hj
    rw [hn] at hj
    have ne : j ≠ k := by
      rintro rfl
      exact absurd lt (Nat.not_lt.2 hj)
    rw [there j ne]
    exact rl.fresh j hj

/-- A call into a semaphore starts. -/
lemma call (rl : Roles s) (op : Semaphore.Op) (lt : k < s.next)
    (hth : s'.th = Function.update s.th t h)
    (hs : s'.sem = Function.update s.sem k ((s.sem k).set t { pc := op.entry }))
    (hn : s'.next = s.next) (idle : ((s.sem k).th t).pc = .idle)
    (h0 : (s.th t).pc.active = none) (h1 : h.pc.active = some k)
    (role : h.pc.Role (op.entry : Semaphore.Pc T)) : Roles s' := by
  have self : s'.th t = h := by rw [hth, Function.update_self]
  -- the world is no matter: any one will do
  have st : Semaphore.Step (World.direct []) (s.sem k) t ((s.sem k).set t { pc := op.entry }) :=
    .call op idle
  have entry : ((((s.sem k).set t { pc := op.entry }).th t).pc : Semaphore.Pc T) = op.entry := by
    simp
  refine rl.change (t := t) lt (fun i hi => by rw [hth, Function.update_of_ne hi]) hs hn
    ((rl.inv k).step st) (fun i hi => st.other (rl.inv k) hi) ?_ ?_ ?_ ?_
  · intro j _
    rw [h0]
    simp
  · intro j hj
    rw [self, h1]
    exact fun e => hj (Option.some.inj e).symm
  · intro ne
    rw [self] at ne
    exact absurd h1 ne
  · intro _
    rw [self, entry]
    exact role

/-- A call into a semaphore has returned. -/
lemma done (rl : Roles s) (lt : k < s.next) {r : Semaphore.Ret}
    (hth : s'.th = Function.update s.th t h)
    (hs : s'.sem = Function.update s.sem k ((s.sem k).goto t .idle)) (hn : s'.next = s.next)
    (back : ((s.sem k).th t).pc = .ret r) (h0 : (s.th t).pc.active = some k)
    (h1 : h.pc.active = none) : Roles s' := by
  have self : s'.th t = h := by rw [hth, Function.update_self]
  have st : Semaphore.Step (World.direct []) (s.sem k) t ((s.sem k).goto t .idle) := .done back
  refine rl.change (t := t) lt (fun i hi => by rw [hth, Function.update_of_ne hi]) hs hn
    ((rl.inv k).step st) (fun i hi => st.other (rl.inv k) hi) ?_ ?_ ?_ ?_
  · intro j hj
    rw [h0]
    exact fun e => hj (Option.some.inj e).symm
  · intro j _
    rw [self, h1]
    simp
  · intro _
    simp
  · intro e
    rw [self, h1] at e
    cases e

/-- A step inside a semaphore. -/
lemma inside (rl : Roles s) {m : Semaphore.St T} (lt : k < s.next)
    (h0 : (s.th t).pc.active = some k) (nr : ∀ r, ((s.sem k).th t).pc ≠ .ret r)
    (st : Semaphore.Step c (s.sem k) t m) : Roles (s.withSem k m) := by
  have ne : ∀ j, j ≠ k → (s.th t).pc.active ≠ some j := by
    intro j hj
    rw [h0]
    exact fun e => hj (Option.some.inj e).symm
  refine rl.change (t := t) lt (fun i _ => rfl) rfl rfl ((rl.inv k).step st)
    (fun i hi => st.other (rl.inv k) hi) ne ne (fun e => absurd h0 e) fun _ => ?_
  show (s.th t).pc.Role (m.th t).pc
  have ro := rl.role t k h0
  cases e : (s.th t).pc with
  | waiting j sl =>
    rw [e] at ro
    exact (st.waiter ro nr).waits (rl.inv k)
  | signalling j ks =>
    rw [e] at ro
    exact (st.signaller ro nr).signals (rl.inv k)
  | cancelling tok j ks f =>
    rw [e] at ro
    exact (st.canceller ro nr).cancels
  | _ =>
    rw [e] at h0
    cases h0

/-- A step keeps the parties where they should be. -/
lemma step (rl : Roles s) (nm : Names s) (st : Step c s t s') : Roles s' := by
  cases st with
  | user _ _ | mutex _ _ _ _ => exact rl.congr rfl rfl rfl
  | inside h0 _ nr st => exact rl.inside (nm.active_lt h0) h0 nr st
  | push e _ => exact rl.move rfl rfl (Nat.le_succ _) (by rw [e]; rfl) rfl
  | callWait sl e _ _ => cases sl <;> exact rl.move rfl rfl le_rfl (by rw [e]; rfl) rfl
  | callBareWait sl n e _ _ => cases sl <;> exact rl.move rfl rfl le_rfl (by rw [e]; rfl) rfl
  | callNotify _ e _ | callCancel _ e _ | done e | checkCancelled e _ | checkPass e _
  | pushCancelled e _ | bareCancelled e _ | barePass e _ | bareUnlock e _ _ | bareUnlocked e _
  | bareLock e _ | bareLocked e _ | bareEnd e | unlock e _ _ | unlocked e _ | sweep e | lock e _
  | locked e _ =>
    exact rl.move rfl rfl le_rfl (by rw [e]; rfl) rfl
  | notify e => exact rl.move rfl rfl le_rfl (by rw [e]; rfl) (Pc.active_signalNext _)
  | canPass e => exact rl.move rfl rfl le_rfl (by rw [e]; rfl) (Pc.active_canNext _ _ _)
  | @semWait k sl e idle =>
    have lt : k < s.next := nm.owned t k (by rw [e]; rfl)
    exact rl.call _ lt rfl rfl rfl idle (by rw [e]; rfl) rfl (by cases sl <;> rfl)
  | @signal k ks e idle =>
    have lt : k < s.next := nm.pointed (some t) k (by rw [St.places, e]; exact List.mem_cons_self)
    exact rl.call _ lt rfl rfl rfl idle (by rw [e]; rfl) rfl rfl
  | @cancel tok k ks f e idle =>
    have lt : k < s.next := nm.pointed (some t) k (by rw [St.places, e]; exact List.mem_cons_self)
    exact rl.call _ lt rfl rfl rfl idle (by rw [e]; rfl) rfl rfl
  | @waited k sl r e back =>
    have h0 : (s.th t).pc.active = some k := by rw [e]; rfl
    refine rl.done (nm.active_lt h0) rfl rfl rfl back h0 ?_
    show Pc.active (if r = .cancelled then _ else _) = none
    split <;> rfl
  | @signalled k ks e back =>
    have h0 : (s.th t).pc.active = some k := by rw [e]; rfl
    exact rl.done (nm.active_lt h0) rfl rfl rfl back h0 (Pc.active_signalNext _)
  | @cancelled tok k ks f e back =>
    have h0 : (s.th t).pc.active = some k := by rw [e]; rfl
    exact rl.done (nm.active_lt h0) rfl rfl rfl back h0 (Pc.active_canNext _ _ _)

end Roles
end JLib.CondVar
