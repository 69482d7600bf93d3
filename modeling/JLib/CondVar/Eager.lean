import JLib.CondVar.Standing
import JLib.Semaphore.Eager

/-!
# Condition variable: eager cancellation

A scope is cancelled and `CancelWaiters` called with a token that selects it. From the cancellation on no
cancellable wait of a task of the scope is queued, and none switches out. One that was switched out before is in the
queue or in the hands of a `Notify`; the last pass takes it out of the queue, and the pass over its semaphore
resumes it, because its entry and its waiter bear the same token. Waiters that the token does not select are not
touched.
-/

namespace JLib.CondVar
open LTS Delivery
open Semaphore (Stage)

variable {T : Type} [DecidableEq T]

/-- The semaphore of a `WaitCancellable` that has not gone back to the mutex. -/
def Pc.cancellable : Pc → Option Nat
  | .unlock k true | .unlocking k true | .semWait k true | .waiting k true | .sweep k => some k
  | _ => none

/-- Inside `CancelWaiters(tok)`. -/
def Pc.sweeps (tok : CancelToken) : Pc → Prop
  | .canEnter x | .cancel x _ _ _ | .cancelling x _ _ _ => x = tok
  | _ => False

/-- Inside `CancelWaiters(tok)`, with a pass still to come. -/
def Pc.toPass (tok : CancelToken) : Pc → Prop
  | .canEnter x => x = tok
  | .cancel x _ _ full | .cancelling x _ _ full => x = tok ∧ full = true
  | _ => False

/-- `j` has the pointer to `k` and is going to decide the call: it is on the way to signal it, or it cancels it with a
token that selects its task. -/
inductive Tends (encloses : CancelToken → Bool) (s : St T) (j : T) (k : Nat) : Prop where
  | notify :
    (s.th j).pc.notifies → Waking s j k False →
    Tends encloses s j k
  | cancel (tok : CancelToken) :
    encloses tok = true → (s.th j).pc.sweeps tok → s.Uses j k →
    Tends encloses s j k

/-- The waits of a task that is cancelled and swept. None is queued but plain ones, and whatever is queued is of a
call in progress; if a cancellable one is switched out, somebody has its pointer and is going to decide it; and what
returns `ok` was taken out by a `Notify`. -/
structure Swept (encloses : CancelToken → Bool) (s : St T) (t : T) : Prop where
  unqueued : ∀ k ∈ s.places none, s.Alive k ∧ ((s.th t).pc.own = some k → (s.th t).pc.plain = true)
  woken : ∀ k, (s.th t).pc.own = some k → (s.th t).pc.plain = false → s.stage t k = .asleep → ∃ j, Tends encloses s j k
  answer : ∀ k, s.Bound k .ok → ∃ x, s.taker k = some x ∧ x.cancels = false

variable {s s' : St T} {c : World T} {i j t u : T} {k : Nat} {w : CvWaiter}
variable {tok scope : CancelToken} {encloses : CancelToken → Bool}

/-- The semaphore of a cancellable wait is in its frame. -/
lemma Pc.own_of_cancellable {p : Pc} (h : p.cancellable = some k) : p.own = some k := by
  cases p with
  | unlock _ sl | unlocking _ sl | semWait _ sl | waiting _ sl =>
    cases sl
    · cases h
    · exact h
  | sweep _ => exact h
  | _ => cases h

/-- A cancellable wait was one before, or it has just queued itself and was not cancelled then. -/
lemma Step.cancellable (rl : Roles s) (st : Step c s i s') (h : (s'.th t).pc.cancellable = some k) :
    (s.th t).pc.cancellable = some k ∨
      t = i ∧ k = s.next ∧ c.isTaskCancelled t = false ∧ s'.queue = s.queue ++ [⟨k, c.tokenOf t⟩] := by
  by_cases et : t = i
  · subst et
    cases st with
    | user _ _ | mutex _ _ _ _ | inside _ _ _ _ => exact .inl h
    | @push sl e hc =>
      rw [St.enqueue_pc] at h
      cases sl with
      | false => cases h
      | true =>
        cases h
        exact .inr ⟨rfl, rfl, hc, rfl⟩
    | @waited l sl r e back =>
      have ro := rl.role t l (by rw [e]; rfl)
      rw [e, back] at ro
      rw [St.goto_pc] at h
      cases r with
      | ok => cases h
      | cancelled =>
        have ro : sl = true := ro
        subst ro
        left
        rw [e]
        exact h
    | @unlock _ sl e _ _ | @unlocked _ sl e _ | @semWait _ sl e _ =>
      rw [St.goto_pc] at h
      left
      rw [e]
      cases sl
      · cases h
      · exact h
    | callWait sl _ _ _ =>
      rw [St.goto_pc] at h
      cases sl <;> cases h
    | callBareWait sl _ _ _ _ =>
      rw [St.goto_pc] at h
      cases sl <;> cases h
    | notify _ =>
      rw [St.dequeue_pc] at h
      have h := Pc.own_of_cancellable h
      rw [Pc.own_signalNext] at h
      cases h
    | signalled _ _ =>
      rw [St.goto_pc] at h
      have h := Pc.own_of_cancellable h
      rw [Pc.own_signalNext] at h
      cases h
    | canPass _ | cancelled _ _ =>
      rw [St.goto_pc] at h
      have h := Pc.own_of_cancellable h
      rw [Pc.own_canNext] at h
      cases h
    | _ =>
      rw [St.goto_pc] at h
      cases h
  · rw [st.th_other et] at h
    exact .inl h

/-! ## The steps of `CancelWaiters` -/

/-- What a step inside `CancelWaiters(tok)` does. -/
inductive SweepStep (c : World T) (s : St T) (u : T) (tok : CancelToken) (s' : St T) : Prop where
  | pass :
    (s.th u).pc = .canEnter tok →
    s' = ((s.withQueue (s.cancelPass c tok).2).withTaker ((s.cancelPass c tok).1.map (·.sem)) .cancelWaiters).goto u
      (.canNext tok (kBuf ≤ (s.cancelPass c tok).1.length) ((s.cancelPass c tok).1.map (·.sem))) →
    SweepStep c s u tok s'
  | call (k : Nat) (ks : List Nat) (f : Bool) :
    (s.th u).pc = .cancel tok k ks f →
    s' = (s.semCall k u (.cancelWaiters tok)).goto u (.cancelling tok k ks f) →
    SweepStep c s u tok s'
  | inside (k : Nat) (ks : List Nat) (f : Bool) (m : Semaphore.St T) :
    (s.th u).pc = .cancelling tok k ks f → (∀ r, ((s.sem k).th u).pc ≠ .ret r) → Semaphore.Step c (s.sem k) u m →
    s' = s.withSem k m →
    SweepStep c s u tok s'
  | back (k : Nat) (ks : List Nat) (f : Bool) :
    (s.th u).pc = .cancelling tok k ks f → s' = (s.semDone k u).goto u (.canNext tok f ks) →
    SweepStep c s u tok s'

/-- A step inside `CancelWaiters(tok)` is one of these. -/
lemma Step.sweeper (st : Step c s u s') (sweeps : (s.th u).pc.sweeps tok) : SweepStep c s u tok s' := by
  cases st with
  | canPass e =>
    rw [e] at sweeps
    cases sweeps
    exact .pass e rfl
  | cancel e _ =>
    rw [e] at sweeps
    cases sweeps
    exact .call _ _ _ e rfl
  | cancelled e _ =>
    rw [e] at sweeps
    cases sweeps
    exact .back _ _ _ e rfl
  | inside ha _ nr st =>
    cases e : (s.th u).pc with
    | cancelling x l ks f =>
      rw [e] at sweeps ha
      cases sweeps
      cases ha
      exact .inside _ _ _ _ e nr st rfl
    | canEnter _ | cancel _ _ _ _ =>
      rw [e] at ha
      cases ha
    | _ =>
      rw [e] at sweeps
      exact sweeps.elim
  | mutex hm _ _ _ =>
    cases e : (s.th u).pc with
    | canEnter _ | cancel _ _ _ _ | cancelling _ _ _ _ =>
      rw [e] at hm
      cases hm
    | _ =>
      rw [e] at sweeps
      exact sweeps.elim
  | user e _ | callWait _ e _ _ | callBareWait _ _ e _ _ | callNotify _ e _ | callCancel _ e _ | done e
  | checkCancelled e _ | checkPass e _ | pushCancelled e _ | push e _ | bareCancelled e _ | barePass e _
  | bareUnlock e _ _ | bareUnlocked e _ | bareLock e _ | bareLocked e _ | bareEnd e | notify e | signal e _
  | signalled e _ | unlock e _ _ | unlocked e _ | semWait e _ | waited e _ | sweep e | lock e _ | locked e _ =>
    rw [e] at sweeps
    exact sweeps.elim

/-- What a step of a `CancelWaiters(tok)` leaves alone. -/
structure Spared (c : World T) (tok : CancelToken) (s s' : St T) : Prop where
  order : s'.queue.filter (fun w => !c.selects tok w.token) = s.queue.filter fun w => !c.selects tok w.token
  untouched : ∀ w ∈ s.queue, c.selects tok w.token = false → s'.sem w.sem = s.sem w.sem

/-- A step of a `CancelWaiters` keeps the waiters that it does not select, in their order, and does not touch their
semaphores. -/
lemma spares (nm : Names s) (sweeps : (s.th u).pc.sweeps tok) (st : Step c s u s') : Spared c tok s s' := by
  -- a semaphore in its hands is not in the queue
  have apart : ∀ {w : CvWaiter}, w ∈ s.queue → ∀ l ∈ (s.th u).pc.hand, w.sem ≠ l := by
    rintro w hw l hl rfl
    cases nm.cus.unique (show w.sem ∈ s.places none from List.mem_map_of_mem hw)
      (show w.sem ∈ s.places (some u) from hl)
  cases st.sweeper sweeps with
  | pass e e' =>
    rw [e']
    exact ⟨eject_keep_filter _ _ _, fun w _ _ => rfl⟩
  | call k ks f e e' =>
    rw [e']
    refine ⟨rfl, fun w hw _ => Function.update_of_ne (apart hw k ?_) _ _⟩
    rw [e]
    exact List.mem_cons_self
  | inside k ks f m e _ _ e' =>
    rw [e']
    refine ⟨rfl, fun w hw _ => Function.update_of_ne (apart hw k ?_) _ _⟩
    rw [e]
    exact List.mem_cons_self
  | back k ks f e e' =>
    rw [e']
    refine ⟨rfl, fun w hw _ => Function.update_of_ne (apart hw k ?_) _ _⟩
    rw [e]
    exact List.mem_cons_self

/-! ## Tokens -/

/-- A `CancelWaiters` passes its token on to the semaphores. -/
def Named (s : St T) : Prop :=
  ∀ j tok k ks f, (s.th j).pc = .cancelling tok k ks f →
    ((s.sem k).th j).pc = .ret .ejected ∨ ((s.sem k).th j).pc.sweeps tok

/-- Between two victims a `CancelWaiters` is inside no semaphore's. -/
lemma Pc.canNext_ne_cancelling (x tok : CancelToken) (f g : Bool) (ks ls : List Nat) (k : Nat) :
    Pc.canNext x f ks ≠ .cancelling tok k ls g := by
  cases ks with
  | nil => cases f <;> exact nofun
  | cons l ks => exact nofun

/-- A `Notify` cancels nothing. -/
lemma Pc.signalNext_ne_cancelling (tok : CancelToken) (g : Bool) (ks ls : List Nat) (k : Nat) :
    Pc.signalNext ks ≠ .cancelling tok k ls g := by
  cases ks <;> exact nofun

/-- A step keeps the tokens that were passed on. -/
lemma Named.step (na : Named s) (rl : Roles s) (st : Step c s i s') : Named s' := by
  intro j tok k ks f e
  by_cases ej : j = i
  · subst ej
    cases st with
    | user e' _ =>
      have e : (s.th j).pc = .cancelling tok k ks f := e
      rw [e] at e'
      cases e'
    | mutex hm _ _ _ =>
      have e : (s.th j).pc = .cancelling tok k ks f := e
      rw [e] at hm
      cases hm
    | @inside l m ha _ nr st =>
      have here : (s.th j).pc = .cancelling tok k ks f := e
      rw [here] at ha
      obtain rfl : k = l := Option.some.inj ha
      have ro := rl.role j k (by rw [here]; rfl)
      rw [here] at ro
      rw [show (s.withSem k m).sem k = m from Function.update_self ..]
      exact (st.canceller ro nr).sweeps ((na j tok k ks f here).resolve_left (nr _))
    | cancel _ _ =>
      rw [St.goto_pc] at e
      cases e
      right
      show ((Function.update s.sem k _ k).th j).pc.sweeps tok
      rw [Function.update_self, Semaphore.St.set_th, Function.update_self]
      exact rfl
    | callWait sl _ _ _ =>
      rw [St.goto_pc] at e
      cases sl <;> cases e
    | callBareWait sl _ _ _ _ =>
      rw [St.goto_pc] at e
      cases sl <;> cases e
    | @waited l sl r _ _ =>
      rw [St.goto_pc] at e
      cases r <;> cases e
    | push _ _ =>
      rw [St.enqueue_pc] at e
      cases e
    | notify _ =>
      rw [St.dequeue_pc] at e
      exact absurd e (Pc.signalNext_ne_cancelling _ _ _ _ _)
    | signalled _ _ =>
      rw [St.goto_pc] at e
      exact absurd e (Pc.signalNext_ne_cancelling _ _ _ _ _)
    | canPass _ | cancelled _ _ =>
      rw [St.goto_pc] at e
      exact absurd e (Pc.canNext_ne_cancelling _ _ _ _ _ _ _)
    | _ =>
      rw [St.goto_pc] at e
      cases e
  · rw [st.th_other ej] at e
    have old := na j tok k ks f e
    obtain same | ⟨b, pk, -⟩ := st.pc_other rl ej (k := k)
    · rwa [same]
    · rw [pk] at old
      obtain old | old := old
      · cases old
      · exact old.elim

/-- The entry of a cancellable wait of `t` bears the token of its task, and so does its waiter on the semaphore. -/
structure Bears (t : T) (scope : CancelToken) (s : St T) : Prop where
  entries : ∀ w ∈ s.queue, (s.th t).pc.cancellable = some w.sem → w.token = scope
  waiters : ∀ k, Semaphore.Tokens t scope (s.sem k)

/-- What is in the queue was there before, or has just been made. -/
lemma Step.queue (st : Step c s i s') (hw : w ∈ s'.queue) : w ∈ s.queue ∨ w.sem = s.next := by
  cases st with
  | push _ _ =>
    have hw : w ∈ s.queue ++ [_] := hw
    obtain hw | hw := List.mem_append.1 hw
    · exact .inl hw
    · rw [List.mem_singleton.1 hw]
      exact .inr rfl
  | sweep _ => exact .inl (List.mem_filter.1 hw).1
  | @notify all _ =>
    have hw : w ∈ if all then [] else s.queue.tail := hw
    cases all with
    | true => cases hw
    | false => exact .inl (List.mem_of_mem_tail hw)
  | canPass _ => exact .inl ((eject_keep_sublist _ _ _).subset hw)
  | _ => exact .inl hw

/-- A step keeps the tokens of the entries. -/
lemma Bears.step (be : Bears t scope s) (sd : Standing s) (token : c.tokenOf t = scope) (st : Step c s i s') :
    Bears t scope s' := by
  refine ⟨fun w hw mine => ?_, fun k => ?_⟩
  · obtain old | ⟨rfl, new, -, q⟩ := st.cancellable sd.roles mine
    · obtain hw | hw := st.queue hw
      · exact be.entries w hw old
      · have lt := sd.names.owned t _ (Pc.own_of_cancellable old)
        rw [hw] at lt
        exact absurd lt (Nat.lt_irrefl _)
    · rw [q] at hw
      obtain hw | hw := List.mem_append.1 hw
      · have lt := sd.names.pointed none w.sem (List.mem_map_of_mem hw)
        rw [new] at lt
        exact absurd lt (Nat.lt_irrefl _)
      · rw [List.mem_singleton.1 hw]
        exact token
  · obtain e | ⟨l, m, e, st⟩ := st.sem_cases
    · rw [e]
      exact be.waiters k
    · rw [e]
      by_cases el : k = l
      · subst el
        rw [Function.update_self]
        exact (be.waiters k).step token st
      · rw [Function.update_of_ne el]
        exact be.waiters k

/-! ## The last pass over the queue -/

/-- No cancellable wait of `t` is queued, or a pass is still to come. -/
def Sweeping (t u : T) (tok : CancelToken) (s : St T) : Prop :=
  (s.th u).pc.toPass tok ∨ ∀ k, (s.th t).pc.cancellable = some k → k ∉ s.places none

/-- With a pass still to come the call is not over. -/
lemma Pc.sweeps_of_toPass {p : Pc} (pass : p.toPass tok) : p.sweeps tok := by
  cases p with
  | canEnter x => exact pass
  | cancel x k ks f | cancelling x k ks f => exact pass.1
  | _ => exact pass.elim

/-- A pass that filled its buffer is repeated. -/
lemma Pc.toPass_canNext (tok : CancelToken) (ks : List Nat) : (Pc.canNext tok true ks).toPass tok := by
  cases ks with
  | nil => exact rfl
  | cons k ks => exact ⟨rfl, rfl⟩

/-- A pass is still to come, or there was one that left no entry of `t`. -/
lemma Sweeping.pass (pass : (s.th u).pc.toPass tok) (sd : Standing s) (be : Bears t scope s)
    (cn : c.Cancelled t scope encloses) (sel : encloses tok = true) (st : Step c s i s') : Sweeping t u tok s' := by
  by_cases eu : u = i
  · subst eu
    cases st.sweeper (Pc.sweeps_of_toPass pass) with
    | pass e e' =>
      by_cases full : kBuf ≤ (s.cancelPass c tok).1.length
      · left
        rw [e', St.goto_pc, decide_eq_true full]
        exact Pc.toPass_canNext _ _
      · -- the buffer is not full, so nobody who is selected is left
        right
        intro k mine hk
        rw [e'] at hk
        obtain ⟨w, hw, rfl⟩ := List.mem_map.1 hk
        have out := eject_keep_not_match _ (Nat.lt_of_not_le full) hw
        have old : w ∈ s.queue := (eject_keep_sublist _ _ _).subset hw
        obtain mine | ⟨-, -, live, -⟩ := st.cancellable sd.roles mine
        · rw [be.entries w old mine, cn.selects, sel] at out
          exact out rfl
        · rw [cn.cancelled] at live
          cases live
    | call k ks f e e' =>
      rw [e] at pass
      left
      rw [e', St.goto_pc]
      exact pass
    | inside k ks f m e _ _ e' =>
      left
      rw [e']
      exact pass
    | back k ks f e e' =>
      rw [e] at pass
      obtain ⟨-, rfl⟩ := pass
      left
      rw [e', St.goto_pc]
      exact Pc.toPass_canNext _ _
  · left
    rwa [st.th_other eu]

/-- A pass leaves no cancellable wait of the task queued. -/
lemma Sweeping.step (sw : Sweeping t u tok s) (sd : Standing s) (be : Bears t scope s)
    (cn : c.Cancelled t scope encloses) (sel : encloses tok = true) (st : Step c s i s') : Sweeping t u tok s' := by
  obtain pass | clear := sw
  · exact Sweeping.pass pass sd be cn sel st
  · right
    intro k mine hk
    obtain mine | ⟨-, -, live, -⟩ := st.cancellable sd.roles mine
    · exact clear k mine (St.places_step st (sd.names.owned t k (Pc.own_of_cancellable mine)) hk)
    · rw [cn.cancelled] at live
      cases live

/-! ## Who is switched out is tended -/

/-- An entry of a call that goes on stays in the queue, or is taken out. -/
lemma Step.queue_kept (sd : Standing s) (st : Step c s i s') (mine : (s'.th t).pc.cancellable = some k)
    (before : (s.th t).pc.own = some k) (hk : k ∈ s.places none) : k ∈ s'.places none ∨ k ∈ s.taken (c, i) := by
  cases st with
  | push _ _ =>
    left
    obtain ⟨w, hw, rfl⟩ := List.mem_map.1 hk
    exact List.mem_map_of_mem (List.mem_append_left _ hw)
  | @sweep l e =>
    left
    have ne : k ≠ l := by
      rintro rfl
      obtain rfl : t = i := sd.names.one t i k before (by rw [e]; rfl)
      rw [St.goto_pc] at mine
      cases mine
    obtain ⟨w, hw, rfl⟩ := List.mem_map.1 hk
    exact List.mem_map_of_mem (List.mem_filter.2 ⟨hw, decide_eq_true ne⟩)
  | @notify all e =>
    have old := (s.dequeue_perm all).mem_iff.2 (List.mem_append_left [] hk)
    obtain stays | out := List.mem_append.1 old
    · exact .inl stays
    · right
      simpa only [St.taken, e] using out
  | @canPass x e =>
    have old := (s.cancelPass_perm c x).mem_iff.2 (List.mem_append_left [] hk)
    obtain stays | out := List.mem_append.1 old
    · exact .inl stays
    · right
      simpa only [St.taken, e] using out
  | _ => exact .inl hk

/-- With victims left the call is not over. -/
lemma Pc.sweeps_canNext (tok : CancelToken) (f : Bool) {ks : List Nat} (h : k ∈ ks) :
    (Pc.canNext tok f ks).sweeps tok := by
  cases ks with
  | nil => cases h
  | cons l ks => exact rfl

/-- Whoever takes out the entry of a cancellable wait of `t` is on the way to signal it, or cancels it with a token that
selects its task. -/
lemma Step.takes_out (sd : Standing s) (be : Bears t scope s) (sc : c.InScope t scope encloses) (st : Step c s i s')
    (mine : (s.th t).pc.cancellable = some k) (hk : k ∈ s.taken (c, i)) :
    (s'.th i).pc.notifies ∧ Waking s' i k False ∨
      ∃ x, (s.th i).pc = .canEnter x ∧ encloses x = true ∧ (s'.th i).pc.sweeps x ∧ s'.Uses i k := by
  have nm' := sd.names.step st
  have rl' := sd.roles.step sd.names st
  obtain ⟨uses, idle⟩ := Standing.uses_taken nm' rl' st hk
  cases takes st k with
  | none no _ => exact absurd hk no
  | notify all e _ _ nt =>
    refine .inl ⟨nt, uses, ?_, False.elim⟩
    rw [idle]
    exact nofun
  | cancel x e _ _ nt =>
    right
    have out : k ∈ (s.cancelPass c x).1.map (·.sem) := by simpa only [St.taken, e] using hk
    obtain ⟨w, hw, rfl⟩ := List.mem_map.1 out
    have hit := eject_victims_match _ hw
    have old : w ∈ s.queue := (eject_victims_sublist _ _ _).subset hw
    rw [be.entries w old mine, sc.selects] at hit
    refine ⟨x, e, hit, ?_, uses⟩
    have sw : (s.th i).pc.sweeps x := by
      rw [e]
      exact rfl
    cases st.sweeper sw with
    | pass _ e' =>
      rw [e', St.goto_pc]
      exact Pc.sweeps_canNext _ _ out
    | call _ _ _ e' _ | inside _ _ _ _ e' _ _ _ | back _ _ _ e' _ =>
      rw [e] at e'
      cases e'

/-- A party with a pointer in its hands stays in the same kind of call. -/
lemma Step.kind_same (sd : Standing s) (st : Step c s i s') (hk : k ∈ (s.th j).pc.hand) (hk' : k ∈ (s'.th j).pc.hand) :
    (s'.th j).pc.notifies = (s.th j).pc.notifies := by
  by_cases ej : j = i
  · subst ej
    obtain ⟨-, same⟩ | taken := hand_self st hk'
    · exact same
    · cases sd.names.cus.unique (St.taken_queued taken) (show k ∈ s.places (some j) from hk)
  · rw [st.th_other ej]

/-- A call that keeps a victim goes on with its token. -/
lemma Step.sweeps_same (st : Step c s i s') (sw : (s.th j).pc.sweeps tok) (hk : k ∈ (s.th j).pc.hand)
    (hk' : k ∈ (s'.th j).pc.hand) : (s'.th j).pc.sweeps tok := by
  by_cases ej : j = i
  · subst ej
    cases st.sweeper sw with
    | pass e _ =>
      rw [e] at hk
      cases hk
    | call l ks f e e' =>
      rw [e', St.goto_pc]
      exact rfl
    | inside l ks f m e _ _ e' =>
      rw [e']
      exact sw
    | back l ks f e e' =>
      rw [e', St.goto_pc, Pc.hand_canNext] at hk'
      rw [e', St.goto_pc]
      exact Pc.sweeps_canNext _ _ hk'
  · rwa [st.th_other ej]

/-- A signaller stays on its way until the call is decided. -/
lemma Step.still_signals (sd : Standing s) (st : Step c s i s') (mine : (s.th t).pc.own = some k)
    (nt : (s.th j).pc.notifies) (wk : Waking s j k False) (open' : ∀ r, s'.stage t k ≠ .bound r) :
    (s'.th j).pc.notifies ∧ Waking s' j k False := by
  have wk' := sd.waking_step False.elim st nt wk mine open'
  rw [st.kind_same sd wk.uses.1 wk'.uses.1]
  exact ⟨nt, wk'⟩

/-- The waiter on the semaphore of a cancellable wait has a result slot. -/
lemma slot_of_waiter (nm : Names s) (rl : Roles s) (mine : (s.th t).pc.cancellable = some k) {w : Waiter T}
    (hw : w ∈ (s.sem k).sem.waiters) : w.party = t ∧ w.slot = true := by
  have pk : ((s.sem k).th w.party).pc = .parked w.slot := ((rl.inv k).cus.queued w hw).1
  have own := Pc.own_of_cancellable mine
  have party : w.party = t := nm.one _ _ k (rl.own_of_parked pk) own
  refine ⟨party, ?_⟩
  rw [party] at pk
  have active : (s.th t).pc.active = some k := by
    by_contra ne
    rw [rl.quiet t k ne] at pk
    cases pk
  obtain ⟨-, sl, e⟩ := Pc.waiting_of active own
  have ro := rl.role t k active
  rw [e, pk] at ro
  have same : w.slot = sl := eq_of_beq ro
  rw [e] at mine
  cases sl
  · cases mine
  · exact same

/-- A `CancelWaiters` whose token selects the task stays on its way until the call is not switched out any more. -/
lemma Step.still_cancels (sd : Standing s) (na : Named s) (be : Bears t scope s) (sc : c.InScope t scope encloses)
    (st : Step c s i s') (mine : (s.th t).pc.cancellable = some k) (sel : encloses tok = true)
    (sw : (s.th j).pc.sweeps tok) (uses : s.Uses j k) (asleep : s'.stage t k = .asleep) :
    (s'.th j).pc.sweeps tok ∧ s'.Uses j k := by
  have own := Pc.own_of_cancellable mine
  obtain uses' | ⟨rfl, m, fin⟩ := uses.step sd.roles st
  · exact ⟨st.sweeps_same sw uses.1 uses'.1, uses'⟩
  · have no : (s.th j).pc.own ≠ some k := fun h => Standing.own_ne_user h uses rfl
    have quiet : (s.th j).pc.notifies = false := by
      cases e : (s.th j).pc with
      | canEnter _ | cancel _ _ _ _ | cancelling _ _ _ _ => rfl
      | _ =>
        rw [e] at sw
        exact sw.elim
    refine absurd asleep (fin.cancel sd.names sd.roles (sd.placed k) own (Standing.own_ne_user own uses) quiet no ?_)
    intro x e w hw
    obtain ⟨y, ks, f, ej⟩ := Pc.cancelling_of fin.active quiet no
    rw [ej] at sw
    obtain rfl : y = tok := sw
    have named := na j y k ks f ej
    rw [e] at named
    obtain named | named := named
    · cases named
    · obtain rfl : x = y := named
      obtain ⟨party, slot⟩ := slot_of_waiter sd.names sd.roles mine hw
      rw [slot, be.waiters k w hw party slot, sc.selects, sel]
      rfl

/-! ## Before and after the cancellation -/

/-- Before: a cancellable wait that is not decided is queued, or about to be signalled. -/
def Waited (t : T) (s : St T) : Prop :=
  ∀ k, (s.th t).pc.cancellable = some k → (∀ r, s.stage t k ≠ .bound r) →
    k ∈ s.places none ∨ ∃ j, (s.th j).pc.notifies ∧ Waking s j k False

/-- After: a cancellable wait that is switched out is queued, or somebody is going to decide it. -/
def Tended (t : T) (encloses : CancelToken → Bool) (s : St T) : Prop :=
  ∀ k, (s.th t).pc.cancellable = some k → s.stage t k = .asleep →
    k ∈ s.places none ∨ ∃ j, Tends encloses s j k

/-- The world shows the task of `t` in its scope, and nobody sweeps the scope yet. -/
structure Before (t : T) (scope : CancelToken) (encloses : CancelToken → Bool) (s : St T) (a : World T × T) : Prop where
  scope : a.1.InScope t scope encloses
  early : ∀ x, (s.th a.2).pc = .canEnter x → encloses x = false

/-- The world shows the task of `t` in its scope, which is cancelled. -/
def Gone (t : T) (scope : CancelToken) (encloses : CancelToken → Bool) (_ : St T) (a : World T × T) : Prop :=
  a.1.Cancelled t scope encloses

omit [DecidableEq T] in
/-- A wait that has just queued itself is in the queue. -/
lemma places_new {token : CancelToken} (q : s'.queue = s.queue ++ [⟨k, token⟩]) : k ∈ s'.places none := by
  show k ∈ s'.queue.map (·.sem)
  rw [q, List.map_append]
  exact List.mem_append_right _ (List.mem_singleton_self k)

/-- A call that is not decided after a step was not before. -/
lemma Step.undecided (sd : Standing s) (st : Step c s i s') (own : (s.th t).pc.own = some k)
    (own' : (s'.th t).pc.own = some k) (open' : ∀ r, s'.stage t k ≠ .bound r) : ∀ r, s.stage t k ≠ .bound r := by
  intro r decided
  cases st.stage sd.names sd.roles sd.counters own own' with
  | same e => exact open' r (e.trans decided)
  | cancels _ _ e => exact open' _ e
  | parks _ _ _ _ _ e _ =>
    rw [decided] at e
    cases e
  | granted _ _ _ e => exact open' _ e
  | skipped _ _ _ _ _ _ e => exact open' _ e
  | ejected _ _ _ e => exact open' _ e

/-- Before the sweep a step keeps every undecided wait queued or about to be signalled. -/
lemma Waited.step (wa : Waited t s) (sd : Standing s) (be : Bears t scope s) (bf : Before t scope encloses s (c, i))
    (st : Step c s i s') : Waited t s' := by
  intro k mine open'
  obtain old | ⟨-, -, -, q⟩ := st.cancellable sd.roles mine
  · have own := Pc.own_of_cancellable old
    obtain queued | ⟨j, nt, wk⟩ := wa k old (st.undecided sd own (Pc.own_of_cancellable mine) open')
    · obtain stays | out := st.queue_kept sd mine own queued
      · exact .inl stays
      · obtain sig | ⟨x, e, sel, -, -⟩ := st.takes_out sd be bf.scope old out
        · exact .inr ⟨i, sig⟩
        · rw [bf.early x e] at sel
          cases sel
    · exact .inr ⟨j, st.still_signals sd own nt wk open'⟩
  · exact .inl (places_new q)

/-- After the cancellation nobody switches out. -/
lemma Step.asleep (sd : Standing s) (cn : c.Cancelled t scope encloses) (st : Step c s i s')
    (old : (s.th t).pc.cancellable = some k) (mine : (s'.th t).pc.cancellable = some k)
    (asleep : s'.stage t k = .asleep) : s.stage t k = .asleep := by
  have own := Pc.own_of_cancellable old
  cases st.stage sd.names sd.roles sd.counters own (Pc.own_of_cancellable mine) with
  | same e => exact e.symm.trans asleep
  | parks sl ei e _ live _ _ =>
    subst ei
    have active : (s.th t).pc.active = some k := by
      by_contra ne
      rw [sd.roles.quiet t k ne] at e
      cases e
    obtain ⟨-, sl', ew⟩ := Pc.waiting_of active own
    have ro := sd.roles.role t k active
    rw [ew, e] at ro
    have same : sl = sl' := eq_of_beq ro
    rw [ew] at old
    cases sl'
    · cases old
    · subst same
      rw [cn.cancelled] at live
      cases live
  | cancels _ _ e | granted _ _ _ e | skipped _ _ _ _ _ _ e | ejected _ _ _ e =>
    rw [asleep] at e
    cases e

/-- After the cancellation somebody is going to decide every wait that is switched out. -/
lemma Tended.step (td : Tended t encloses s) (sd : Standing s) (na : Named s) (be : Bears t scope s)
    (cn : c.Cancelled t scope encloses) (st : Step c s i s') : Tended t encloses s' := by
  intro k mine asleep
  obtain old | ⟨-, -, live, -⟩ := st.cancellable sd.roles mine
  · have own := Pc.own_of_cancellable old
    obtain queued | ⟨j, tends⟩ := td k old (st.asleep sd cn old mine asleep)
    · obtain stays | out := st.queue_kept sd mine own queued
      · exact .inl stays
      · right
        obtain ⟨nt, wk⟩ | ⟨x, -, sel, sw, uses⟩ := st.takes_out sd be cn.toInScope old out
        · exact ⟨i, .notify nt wk⟩
        · exact ⟨i, .cancel x sel sw uses⟩
    · refine .inr ⟨j, ?_⟩
      cases tends with
      | notify nt wk =>
        obtain ⟨nt, wk⟩ := st.still_signals sd own nt wk fun r e => by
          rw [asleep] at e
          cases e
        exact .notify nt wk
      | cancel tok sel sw uses =>
        obtain ⟨sw, uses⟩ := st.still_cancels sd na be cn.toInScope old sel sw uses asleep
        exact .cancel tok sel sw uses
  · rw [cn.cancelled] at live
    cases live

omit [DecidableEq T] in
/-- What a call was bound to return when it was cancelled does not matter: the rest is tended. -/
lemma Waited.tended (wa : Waited t s) : Tended t encloses s := by
  intro k mine asleep
  obtain queued | ⟨j, nt, wk⟩ := wa k mine fun r e => by
    rw [asleep] at e
    cases e
  · exact .inl queued
  · exact .inr ⟨j, .notify nt wk⟩

/-! ## Who returns `ok` was notified -/

/-- What is bound to return `ok` was taken out by a `Notify`. -/
def Notified (s : St T) : Prop := ∀ k, s.Bound k .ok → ∃ x, s.taker k = some x ∧ x.cancels = false

/-- What a call returns it was bound to. -/
lemma Step.result_gained (st : Step c s i s') {r : WaitResult} (h : s'.result k = some r) : s.Bound k r := by
  cases st with
  | @locked l q e _ =>
    have h : Function.update s.result l (some q) k = some r := h
    by_cases el : k = l
    · subst el
      rw [Function.update_self] at h
      cases h
      exact .inr ⟨i, by rw [e]; rfl, by rw [St.stage, e]; rfl⟩
    · rw [Function.update_of_ne el] at h
      exact .inl h
  | _ => exact .inl h

/-- A step binds a wait to `ok` only for a `Notify`. -/
lemma Notified.step (no : Notified s) (sd : Standing s) (st : Step c s i s') : Notified s' := by
  intro k h
  have keep : (∃ x, s.taker k = some x ∧ x.cancels = false) → ∃ x, s'.taker k = some x ∧ x.cancels = false := by
    rintro ⟨x, tx, nx⟩
    cases takes st k with
    | none _ e => exact ⟨x, e.trans tx, nx⟩
    | notify _ _ out _ _ | cancel _ _ out _ _ =>
      rw [(sd.queued k (St.taken_queued out)).1] at tx
      cases tx
  obtain h | ⟨a, own', ok⟩ := h
  · exact keep (no k (st.result_gained h))
  · by_cases own : (s.th a).pc.own = some k
    · cases st.stage sd.names sd.roles sd.counters own own' with
      | same e => exact keep (no k (.inr ⟨a, own, e.symm.trans ok⟩))
      | granted uses nt _ _ =>
        obtain ⟨x, tx, nx⟩ := sd.hands i k uses.1
        rw [nt] at nx
        exact keep ⟨x, tx, nx⟩
      | parks _ _ _ _ _ _ e | cancels _ _ e | skipped _ _ _ _ _ _ e | ejected _ _ _ e =>
        rw [ok] at e
        cases e
    · -- a call that has just begun is bound to nothing
      obtain rfl : a = i := by
        by_contra ne
        rw [st.th_other ne] at own'
        exact own own'
      obtain rfl : k = s.next := (Lifetime.own_gained st own').resolve_left own
      obtain e | ⟨e, -⟩ := Lifetime.next_step st
      · have lt := (sd.names.step st).owned a _ own'
        rw [e] at lt
        exact absurd lt (Nat.lt_irrefl _)
      · rw [sd.stage_new st e] at ok
        cases ok

/-! ## Runs -/

/-- What every run keeps. -/
structure Fair (t : T) (scope : CancelToken) (s : St T) : Prop where
  standing : Standing s
  named : Named s
  bears : Bears t scope s
  notified : Notified s

/-- Nobody waits yet. -/
lemma Fair.init : Fair t scope (CondVar.init T) where
  standing := .init
  named _ _ _ _ _ e := by cases e
  bears := ⟨fun _ hw => (by cases hw), fun _ _ hw => (by cases hw)⟩
  notified k h := by
    obtain h | ⟨_, h, -⟩ := h
    · cases h
    · cases h

/-- Every step keeps it. -/
lemma Fair.step (fa : Fair t scope s) (token : c.tokenOf t = scope) (st : Step c s i s') : Fair t scope s' :=
  ⟨fa.standing.step st, fa.named.step fa.standing.roles st, fa.bears.step fa.standing token st,
    fa.notified.step fa.standing st⟩

/-- The waits of the task are tended through the cancellation. -/
lemma tended_of_runs {s₀ : St T} (rn : Runs Next (Before t scope encloses) (init T) s₀)
    (rn' : Runs Next (Gone t scope encloses) s₀ s) : Fair t scope s ∧ Tended t encloses s := by
  have first : Fair t scope s₀ ∧ Waited t s₀ := by
    refine rn.invariant (I := fun s => Fair t scope s ∧ Waited t s) ⟨.init, fun k h => by cases h⟩ ?_
    rintro s a s' ⟨fa, wa⟩ bf st
    have bf : Before t scope encloses s a := bf
    exact ⟨fa.step bf.scope.token st, wa.step fa.standing fa.bears bf st⟩
  refine rn'.invariant (I := fun s => Fair t scope s ∧ Tended t encloses s) ⟨first.1, first.2.tended⟩ ?_
  rintro s a s' ⟨fa, td⟩ cn st
  have cn : a.1.Cancelled t scope encloses := cn
  exact ⟨fa.step cn.token st, td.step fa.standing fa.named fa.bears cn st⟩

/-- A `CancelWaiters(tok)` of `u` is over: it began after the scope of the task of `t` was cancelled, which `tok`
selects. -/
inductive SweepOver (t u : T) (tok scope : CancelToken) (encloses : CancelToken → Bool) : St T → Prop where
  | intro {s₀ s₁ s : St T} :
    Runs Next (Before t scope encloses) (init T) s₀ →
    Runs Next (Gone t scope encloses) s₀ s₁ →
    (s₁.th u).pc = .canEnter tok → encloses tok = true →
    Runs Next (Gone t scope encloses) s₁ s →
    (s.th u).pc = .ret .ejected →
    SweepOver t u tok scope encloses s

/-- Then a wait of the task is not left behind. -/
lemma SweepOver.swept (so : SweepOver t u tok scope encloses s) : Swept encloses s t := by
  obtain @⟨s₀, s₁, _, rn, rn₁, enter, sel, rn₂, back⟩ := so
  obtain ⟨fa, td⟩ := tended_of_runs rn (rn₁.trans rn₂)
  have clear : ∀ k, (s.th t).pc.cancellable = some k → k ∉ s.places none := by
    have first : Sweeping t u tok s₁ := by
      left
      rw [enter]
      exact rfl
    have last : Fair t scope s ∧ Sweeping t u tok s := by
      refine rn₂.invariant (I := fun s => Fair t scope s ∧ Sweeping t u tok s) ⟨(tended_of_runs rn rn₁).1, first⟩ ?_
      rintro s a s' ⟨fa, sw⟩ cn st
      have cn : a.1.Cancelled t scope encloses := cn
      exact ⟨fa.step cn.token st, sw.step fa.standing fa.bears cn sel st⟩
    have sw := last.2
    rw [Sweeping, back] at sw
    exact sw.resolve_left id
  refine ⟨fun k hk => ?_, fun k own np asleep => ?_, fa.notified⟩
  · obtain ⟨-, a, own, -⟩ := fa.standing.queued k hk
    refine ⟨⟨a, own⟩, fun mine => ?_⟩
    have none : (s.th t).pc.cancellable ≠ some k := fun h => clear k h hk
    cases e : (s.th t).pc with
    | unlock l sl | unlocking l sl | semWait l sl | waiting l sl =>
      rw [e] at mine none
      cases mine
      cases sl
      · rfl
      · exact absurd rfl none
    | sweep l =>
      rw [e] at mine none
      cases mine
      exact absurd rfl none
    | lock l r | locking l r => exact absurd hk (fa.standing.swept t k mine (by rw [e]; rfl))
    | _ =>
      rw [e] at mine
      cases mine
  · have mine : (s.th t).pc.cancellable = some k := by
      cases e : (s.th t).pc with
      | unlock l sl | unlocking l sl | semWait l sl | waiting l sl =>
        rw [e] at own np
        cases sl
        · cases np
        · exact own
      | sweep l =>
        rw [e] at own
        exact own
      | lock l r | locking l r =>
        rw [St.stage, e] at asleep
        cases asleep
      | _ =>
        rw [e] at own
        cases own
    exact (td k mine asleep).resolve_left (clear k mine)

end JLib.CondVar
