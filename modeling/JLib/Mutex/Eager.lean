import JLib.Mutex.Custody

/-!
# Mutex: eager cancellation

A scope is cancelled and `CancelWaiters` called with a token that selects it. `LockCancellable` and the awaiter ask
whether the task is cancelled before they take the spin lock and not again, so a wait can be queued after the last
pass, and there it stays until the mutex is unlocked. Where no wait of the task is queued behind the last pass, none
is left behind. Waiters that the token does not select are not touched.
-/

namespace JLib.Mutex
open LTS

variable {T : Type}

/-- A cancellable wait of a task that is cancelled and swept: it is not queued; if it is switched out, a call in
progress has its waiter and is going to resume it; if it has returned, it has the lock or was told that it has not. -/
structure Swept (s : St T) (t : T) : Prop where
  unqueued : ∀ w ∈ s.mx.waiters, w.party = t → w.slot = false
  woken : (s.th t).pc = .parked true → ∃ j, ∃ w ∈ (s.th j).pc.hand, w.party = t
  answer : ∀ r, (s.th t).pc = .ret (.res r) → ((s.th t).got = true ↔ r = .ok)

/-- Inside `CancelWaiters(tok)`. -/
def Pc.sweeps (tok : CancelToken) : Pc T → Prop
  | .canEnter x | .canWrite x _ _ _ | .canResume x _ _ _ => x = tok
  | _ => False

/-- Inside `CancelWaiters(tok)`, with a pass still to come. -/
def Pc.toPass (tok : CancelToken) : Pc T → Prop
  | .canEnter x => x = tok
  | .canWrite x _ _ full | .canResume x _ _ full => x = tok ∧ full = true
  | _ => False

/-- About to take the spin lock for a cancellable wait. -/
def Pc.cancellable : Pc T → Bool
  | .enter sl | .asyncEnter sl _ => sl
  | _ => false

variable {s s' : St T} {c : World T} {i t u : T} {m : Mtx T} {h : Thread T} {w : Waiter T}
variable {tok scope : CancelToken} {encloses : CancelToken → Bool}

/-! ## Who is switched out can be found -/

/-- Between two victims a `CancelWaiters` runs. -/
lemma Pc.canNext_ne_parked (tok : CancelToken) (f : Bool) (ws : List (Waiter T)) (b : Bool) :
    Pc.canNext tok f ws ≠ .parked b := by
  cases ws with
  | nil => cases f <;> exact nofun
  | cons w ws => exact nofun

/-- A step of `Local` keeps the waiters, in the queue or in the hands of the party. -/
lemma Local.keeps (lo : Local c t s.mx (s.th t) m h) (hw : w ∈ s.mx.waiters ∨ w ∈ (s.th t).pc.hand) :
    w ∈ m.waiters ∨ w ∈ h.pc.hand := by
  have free : ∀ {p : Pc T}, (s.th t).pc = p → p.hand = [] → w ∈ s.mx.waiters := by
    intro p e none
    rw [e, none] at hw
    exact hw.resolve_right List.not_mem_nil
  cases lo with
  | enterPush e _ | asyncPush e _ => exact .inl (List.mem_append_left _ (free e rfl))
  | unlPop e hq =>
    have old := free e rfl
    rw [hq, List.mem_cons] at old
    obtain rfl | old := old
    · exact .inr (List.mem_singleton_self _)
    · exact .inl old
  | @canPass tok e =>
    have old := (s.mx.cancelPass_perm c tok).mem_iff.2 (free e rfl)
    obtain out | kept := List.mem_append.1 old
    · right
      show w ∈ (Pc.canNext _ _ _).hand
      rwa [Pc.hand_canNext]
    · exact .inl kept
  | unlTestSkip e _ | unlTestChoose e _ | unlRecord e =>
    rw [e] at hw
    exact hw
  | bareAcquire e _ =>
    obtain e | e := e
    · exact .inl (free e rfl)
    · exact .inl (free e rfl)
  | call _ e | callUnlock e _ | done e | checkCancelled e _ | checkPass e _ | enterTake e _ | awakeCancelled e _
  | awakeOk e _ | record e | tryTake e _ | tryFail e _ | cancelTake e _ | cancelFail e _ | cancelCancelled e _
  | cancelAgain e _ | asyncTake e _ | asyncRecord e | asyncWrite e | lockTake e _ | lockViolation e _
  | lockFail e _ | bareRegister e | barePredTake e _ | barePredFail e _ | bareSleep e | spuriousWake e
  | bareRecord e | bareRelease e | bareDeregister e | unlHolder e | unlFree e _ | unlLoadZero e _
  | unlLoadSome e _ | unlBareLock e _ | unlBareUnlock e => exact .inl (free e rfl)

/-- Whoever switches out has queued itself. -/
lemma Local.parked_self (lo : Local c t s.mx (s.th t) m h) {b : Bool} (pk : h.pc = .parked b) :
    ∃ w, w.party = t ∧ w ∈ m.waiters := by
  cases lo with
  | enterPush _ _ | asyncPush _ _ => exact ⟨_, rfl, List.mem_append_right _ (List.mem_singleton_self _)⟩
  | call op _ => cases op <;> cases pk
  | @checkPass b _ _ => cases b <;> cases pk
  | @awakeOk k _ _ _ => cases k <;> cases pk
  | canPass _ => exact absurd pk (Pc.canNext_ne_parked _ _ _ _)
  | _ => cases pk

variable [DecidableEq T]

/-- The party is where it went. -/
@[simp] lemma St.goto_pc (s : St T) (t : T) (p : Pc T) : ((s.goto t p).th t).pc = p :=
  congrArg Thread.pc (Function.update_self t _ s.th)

/-- A step of another party leaves a party where it is, or resumes it, or wakes it from `bareCv`. -/
lemma Step.other (inv : Inv s) (st : Step c s t s') (ne : i ≠ t) :
    (s'.th i).pc = (s.th i).pc ∨ (∃ b k, (s.th i).pc = .parked b ∧ (s'.th i).pc = .awake k b) ∨
      (s.th i).pc = .asleep ∧ (s'.th i).pc = .notified := by
  have wrote : ∀ {p q : Pc T} {w : Waiter T} {r : WaitResult}, (s.th t).pc = p → w ∈ p.hand →
      (((s.writeSlot w r).goto t q).th i).pc = (s.th i).pc := by
    intro p q w r e hw
    rw [inv.writeSlot_goto e hw, Function.update_of_ne ne]
    by_cases ew : i = w.party
    · subst ew
      rw [Function.update_self]
    · rw [Function.update_of_ne ew]
  have woke : ∀ {p q : Pc T} {w : Waiter T} {g : Bool}, (s.th t).pc = p → w ∈ p.hand →
    (s.th w.party).pc = .parked w.slot →
      (((s.resume w g).goto t q).th i).pc = (s.th i).pc ∨
        ∃ b k, (s.th i).pc = .parked b ∧ (((s.resume w g).goto t q).th i).pc = .awake k b := by
    intro p q w g e hw pk
    rw [inv.resume_goto e hw, Function.update_of_ne ne]
    by_cases ew : i = w.party
    · subst ew
      rw [Function.update_self]
      exact .inr ⟨w.slot, w.kind, pk, rfl⟩
    · rw [Function.update_of_ne ew]
      exact .inl rfl
  cases st with
  | here _ => exact .inl (congrArg Thread.pc (Function.update_of_ne ne _ _))
  | @unlSkip w e => exact .inl (wrote e (List.mem_singleton_self w))
  | @unlWrite w e => exact .inl (wrote e (List.mem_singleton_self w))
  | canWrite e => exact .inl (wrote e List.mem_cons_self)
  | @unlSkipResume w e =>
    have hw : w ∈ Pc.hand (.unlSkipResume w) := List.mem_singleton_self w
    exact (woke e hw (inv.knows e hw).1.1).imp_right .inl
  | @unlResume w e =>
    have hw : w ∈ Pc.hand (.unlResume w) := List.mem_singleton_self w
    exact (woke e hw (inv.knows e hw).1).imp_right .inl
  | @canResume tok w ws f e =>
    have hw : w ∈ Pc.hand (.canResume tok w ws f) := List.mem_cons_self
    exact (woke e hw (inv.knows e hw).1.1).imp_right .inl
  | @notifyOne v e ev =>
    rw [St.goto_goto (ne_of_pc ev e (by simp)), Function.update_of_ne ne]
    by_cases eiv : i = v
    · subst eiv
      rw [Function.update_self]
      exact .inr (.inr ⟨ev, rfl⟩)
    · rw [Function.update_of_ne eiv]
      exact .inl rfl
  | notifyNone _ _ => exact .inl (congrArg Thread.pc (Function.update_of_ne ne _ _))

/-- A waiter in the queue or in the hands of the moving party stays in one of the two, or runs. -/
lemma Step.keeps (inv : Inv s) (st : Step c s t s') (hw : w ∈ s.mx.waiters ∨ w ∈ (s.th t).pc.hand) :
    (w ∈ s'.mx.waiters ∨ w ∈ (s'.th t).pc.hand) ∨ ∃ k b, (s'.th w.party).pc = .awake k b := by
  have woke : ∀ {p q : Pc T} {v : Waiter T} {vs g}, (s.th t).pc = p → p.hand = v :: vs → q.hand = vs →
      (w ∈ s.mx.waiters ∨ w ∈ (((s.resume v g).goto t q).th t).pc.hand) ∨
        ∃ k b, (((s.resume v g).goto t q).th w.party).pc = .awake k b := by
    intro p q v vs g e hp hq
    rw [St.goto_pc, hq]
    rw [e, hp, List.mem_cons] at hw
    obtain hw | rfl | hw := hw
    · exact .inl (.inl hw)
    · refine .inr ⟨w.kind, w.slot, ?_⟩
      have mem : w ∈ p.hand := hp ▸ List.mem_cons_self
      rw [inv.resume_goto e mem, Function.update_of_ne (inv.ne_of_hand e mem), Function.update_self]
    · exact .inl (.inr hw)
  cases st with
  | here lo =>
    refine .inl ((lo.keeps hw).imp_right fun hw => ?_)
    show w ∈ (Function.update s.th t _ t).pc.hand
    rwa [Function.update_self]
  | unlSkip e | canWrite e =>
    rw [e] at hw
    rw [St.goto_pc]
    exact .inl hw
  | @unlWrite v e =>
    rw [e] at hw
    rw [St.goto_pc]
    refine .inl (hw.imp_right fun hw => ?_)
    split
    · exact hw
    · exact hw
  | unlSkipResume e | unlResume e => exact woke e rfl rfl
  | canResume e => exact woke e rfl (Pc.hand_canNext _ _ _)
  | notifyOne e _ | notifyNone e _ =>
    rw [e] at hw
    exact .inl (.inl (hw.resolve_right List.not_mem_nil))

/-- Whoever switches out has queued itself. -/
lemma Step.parked_self (st : Step c s t s') {b : Bool} (pk : (s'.th t).pc = .parked b) :
    ∃ w, w.party = t ∧ w ∈ s'.mx.waiters := by
  cases st with
  | here lo =>
    have pk : (Function.update s.th t _ t).pc = .parked b := pk
    rw [Function.update_self] at pk
    exact lo.parked_self pk
  | canResume _ =>
    rw [St.goto_pc] at pk
    exact absurd pk (Pc.canNext_ne_parked _ _ _ _)
  | unlWrite _ =>
    rw [St.goto_pc] at pk
    split at pk
    · cases pk
    · cases pk
  | unlSkip _ | unlSkipResume _ | unlResume _ | notifyOne _ _ | notifyNone _ _ | canWrite _ =>
    rw [St.goto_pc] at pk
    cases pk

/-- Whoever is switched out is in the queue or in somebody's hands. -/
abbrev Placed (s : St T) : Prop := (handoff T).Placed s.mx.waiters s.th

/-- Nobody is switched out. -/
lemma Placed.init : Placed (init T) := by
  rintro i ⟨b, pk⟩
  cases pk

/-- A step keeps whoever is switched out in the queue or in somebody's hands. -/
lemma Placed.step (pl : Placed s) (inv : Inv s) (st : Step c s t s') : Placed s' := by
  apply Handoff.Placed.step pl
  · intro i ne w (hw : w ∈ (s.th i).pc.hand)
    show w ∈ (s'.th i).pc.hand
    obtain same | ⟨b, k, pk, -⟩ | ⟨sl, -⟩ := st.other inv ne
    · rwa [same]
    · rw [pk] at hw
      cases hw
    · rw [sl] at hw
      cases hw
  · rintro i ne ⟨b, pk⟩
    obtain same | ⟨b, k, -, aw⟩ | ⟨-, no⟩ := st.other inv ne
    · exact ⟨b, same.symm.trans pk⟩
    · cases aw.symm.trans pk
    · cases no.symm.trans pk
  · intro w hw
    refine (st.keeps inv hw).imp_right ?_
    rintro ⟨k, b, aw⟩ ⟨d, pk⟩
    cases aw.symm.trans pk
  · rintro ⟨b, pk⟩
    exact st.parked_self pk

/-! ## The steps of `CancelWaiters` -/

/-- What a step inside `CancelWaiters(tok)` does. -/
inductive SweepStep (c : World T) (s : St T) (u : T) (tok : CancelToken) (s' : St T) : Prop where
  | pass :
    (s.th u).pc = .canEnter tok →
    s' = { mx := (s.mx.cancelPass c tok).2, th := Function.update s.th u { s.th u with
      pc := .canNext tok (kBuf ≤ (s.mx.cancelPass c tok).1.length) (s.mx.cancelPass c tok).1 } } →
    SweepStep c s u tok s'
  | write (w : Waiter T) (ws : List (Waiter T)) (f : Bool) :
    (s.th u).pc = .canWrite tok w ws f → s' = (s.writeSlot w .cancelled).goto u (.canResume tok w ws f) →
    SweepStep c s u tok s'
  | resume (w : Waiter T) (ws : List (Waiter T)) (f : Bool) :
    (s.th u).pc = .canResume tok w ws f → s' = (s.resume w false).goto u (.canNext tok f ws) →
    SweepStep c s u tok s'

/-- A step inside `CancelWaiters(tok)` is one of these. -/
lemma Step.sweeper (st : Step c s u s') (sweeps : (s.th u).pc.sweeps tok) : SweepStep c s u tok s' := by
  cases st with
  | here lo =>
    cases lo with
    | canPass e =>
      rw [e] at sweeps
      cases sweeps
      exact .pass e rfl
    | bareAcquire e _ =>
      obtain e | e := e
      · rw [e] at sweeps
        cases sweeps
      · rw [e] at sweeps
        cases sweeps
    | call _ e | callUnlock e _ | done e | checkCancelled e _ | checkPass e _ | enterTake e _ | enterPush e _
    | awakeCancelled e _ | awakeOk e _ | record e | tryTake e _ | tryFail e _ | cancelTake e _ | cancelFail e _
    | cancelCancelled e _ | cancelAgain e _ | asyncTake e _ | asyncPush e _ | asyncRecord e | asyncWrite e
    | lockTake e _ | lockViolation e _ | lockFail e _ | bareRegister e | barePredTake e _ | barePredFail e _
    | bareSleep e | spuriousWake e | bareRecord e | bareRelease e | bareDeregister e | unlHolder e | unlPop e _
    | unlFree e _ | unlTestSkip e _ | unlTestChoose e _ | unlRecord e | unlLoadZero e _ | unlLoadSome e _
    | unlBareLock e _ | unlBareUnlock e =>
      rw [e] at sweeps
      cases sweeps
  | canWrite e =>
    rw [e] at sweeps
    cases sweeps
    exact .write _ _ _ e rfl
  | canResume e =>
    rw [e] at sweeps
    cases sweeps
    exact .resume _ _ _ e rfl
  | unlSkip e | unlSkipResume e | unlWrite e | unlResume e | notifyOne e _ | notifyNone e _ =>
    rw [e] at sweeps
    cases sweeps

/-- What a step of a `CancelWaiters(tok)` leaves alone. -/
structure Spared (c : World T) (tok : CancelToken) (s s' : St T) : Prop where
  order : s'.mx.waiters.filter (fun w => !(w.slot && c.selects tok w.token)) =
    s.mx.waiters.filter fun w => !(w.slot && c.selects tok w.token)
  untouched : ∀ w ∈ s.mx.waiters, (w.slot && c.selects tok w.token) = false → s'.th w.party = s.th w.party

/-- A step of a `CancelWaiters` keeps the waiters that it does not select, in their order, and does not touch them. -/
lemma spares (inv : Inv s) (sweeps : (s.th u).pc.sweeps tok) (st : Step c s u s') : Spared c tok s s' := by
  have queued : ∀ {w v : Waiter T}, w ∈ s.mx.waiters → v ∈ (s.th u).pc.hand → w.party ≠ v.party :=
    fun hw hv => inv.cus.ne_of_queued_held hw hv
  have runs : ¬(handoff T).Parked (s.th u) := by
    rintro ⟨b, e⟩
    rw [show (s.th u).pc = .parked b from e] at sweeps
    exact sweeps
  have self : ∀ {w : Waiter T}, w ∈ s.mx.waiters → w.party ≠ u := fun hw => inv.cus.ne_of_queued runs hw
  cases st.sweeper sweeps with
  | pass e e' =>
    rw [e']
    exact ⟨eject_keep_filter _ _ _, fun w hw _ => Function.update_of_ne (self hw) _ _⟩
  | write v ws f e e' =>
    have hv : v ∈ Pc.hand (.canWrite tok v ws f) := List.mem_cons_self
    rw [e']
    refine ⟨rfl, fun w hw _ => ?_⟩
    rw [inv.writeSlot_goto e hv, Function.update_of_ne (self hw), Function.update_of_ne (queued hw (e ▸ hv))]
  | resume v ws f e e' =>
    have hv : v ∈ Pc.hand (.canResume tok v ws f) := List.mem_cons_self
    rw [e']
    refine ⟨rfl, fun w hw _ => ?_⟩
    rw [inv.resume_goto e hv, Function.update_of_ne (self hw), Function.update_of_ne (queued hw (e ▸ hv))]

/-! ## The last pass -/

/-- An awaiter that has a slot has a token. -/
def Pc.Tokened : Pc T → Prop
  | .asyncEnter sl sc => sl = true → sc = true
  | _ => True

/-- Whoever queues itself with a slot was about to, finds the mutex locked, and bears the token of its task. -/
lemma Step.queued (st : Step c s i s') (hw : w ∈ s'.mx.waiters) :
    w ∈ s.mx.waiters ∨ w.party = i ∧ (w.slot = true → (s.th i).pc.Tokened →
      (s.th i).pc.cancellable = true ∧ s.mx.locked = true ∧ w.token = c.tokenOf i) := by
  have pushed : ∀ {v : Waiter T}, w ∈ s.mx.waiters ++ [v] → w ∈ s.mx.waiters ∨ w = v := fun h => by simpa using h
  cases st with
  | here lo =>
    cases lo with
    | @enterPush sl e hl =>
      obtain old | rfl := pushed hw
      · exact .inl old
      · refine .inr ⟨rfl, fun hs _ => ?_⟩
        have hs : sl = true := hs
        subst hs
        rw [e]
        exact ⟨rfl, hl, rfl⟩
    | @asyncPush sl sc e hl =>
      obtain old | rfl := pushed hw
      · exact .inl old
      · refine .inr ⟨rfl, fun hs tk => ?_⟩
        have hs : sl = true := hs
        rw [e] at tk ⊢
        exact ⟨hs, hl, if_pos (tk hs)⟩
    | unlPop _ hq =>
      left
      rw [hq]
      exact List.mem_cons_of_mem _ hw
    | canPass _ => exact .inl ((eject_keep_sublist _ _ _).subset hw)
    | _ => exact .inl hw
  | _ => exact .inl hw

/-- The call has a token wherever it is. -/
lemma Step.tokened (inv : Inv s) (tk : (s.th t).pc.Tokened) (st : Step c s i s') : (s'.th t).pc.Tokened := by
  by_cases et : t = i
  · subst et
    have goto : ∀ {p : Pc T} {s₁ : St T}, p.Tokened → ((s₁.goto t p).th t).pc.Tokened := fun h => by rwa [St.goto_pc]
    cases st with
    | here lo =>
      show (Function.update s.th t _ t).pc.Tokened
      rw [Function.update_self]
      cases lo with
      | call op _ =>
        cases op with
        | lockAsyncEnqueue sl sc => exact fun h => (Bool.and_eq_true_iff.1 h).2
        | _ => trivial
      | @checkPass b _ _ => cases b <;> trivial
      | @awakeOk k _ _ _ => cases k <;> trivial
      | @canPass tok _ =>
        show (Pc.canNext _ _ _).Tokened
        unfold Pc.canNext
        split
        · split <;> trivial
        · trivial
      | _ => trivial
    | unlWrite _ =>
      refine goto ?_
      split <;> trivial
    | @canResume _ _ ws f _ =>
      refine goto ?_
      cases ws with
      | nil => cases f <;> trivial
      | cons v ws => trivial
    | unlSkip _ | unlSkipResume _ | unlResume _ | notifyOne _ _ | notifyNone _ _ | canWrite _ => exact goto trivial
  · obtain same | ⟨b, k, -, aw⟩ | ⟨-, no⟩ := st.other inv et
    · rwa [same]
    · rw [aw]
      trivial
    · rw [no]
      trivial

/-- The waiters of `t` bear the token of its task. -/
structure Tokens (t : T) (scope : CancelToken) (s : St T) : Prop where
  queued : ∀ w ∈ s.mx.waiters, w.party = t → w.slot = true → w.token = scope
  call : (s.th t).pc.Tokened

/-- A step keeps the tokens of the waiters. -/
lemma Tokens.step (tk : Tokens t scope s) (inv : Inv s) (token : c.tokenOf t = scope) (st : Step c s i s') :
    Tokens t scope s' := by
  refine ⟨fun w hw mine hs => ?_, st.tokened inv tk.call⟩
  obtain old | ⟨rfl, now⟩ := st.queued hw
  · exact tk.queued w old mine hs
  · subst mine
    rw [(now hs tk.call).2.2, token]

/-- No cancellable wait of `t` is queued, or a pass is still to come. -/
def Sweeping (t u : T) (tok : CancelToken) (s : St T) : Prop :=
  (s.th u).pc.toPass tok ∨ ∀ w ∈ s.mx.waiters, w.party = t → w.slot = false

/-- The world shows the task of `t` in its scope. -/
def Shown (t : T) (scope : CancelToken) (encloses : CancelToken → Bool) (_ : St T) (a : World T × T) : Prop :=
  a.1.InScope t scope encloses

/-- The same, and cancelled. -/
def Gone (t : T) (scope : CancelToken) (encloses : CancelToken → Bool) (_ : St T) (a : World T × T) : Prop :=
  a.1.Cancelled t scope encloses

/-- The same, and a cancellable wait of `t` that passed its check before comes to the spin lock, with the mutex locked,
only while `u` has a pass still to make. -/
structure Ahead (t u : T) (tok scope : CancelToken) (encloses : CancelToken → Bool) (s : St T) (a : World T × T) :
    Prop where
  cancelled : a.1.Cancelled t scope encloses
  ahead : a.2 = t → (s.th t).pc.cancellable = true → s.mx.locked = true → (s.th u).pc.toPass tok

omit [DecidableEq T] in
/-- A pass that filled its buffer is repeated. -/
lemma Pc.toPass_canNext {ws : List (Waiter T)} (some : ws ≠ []) : (Pc.canNext tok true ws).toPass tok := by
  cases ws with
  | nil => exact absurd rfl some
  | cons w ws => exact ⟨rfl, rfl⟩

omit [DecidableEq T] in
/-- With a pass still to come the call is not over. -/
lemma Pc.sweeps_of_toPass {p : Pc T} (pass : p.toPass tok) : p.sweeps tok := by
  cases p with
  | canEnter x => exact pass
  | canWrite x w ws f | canResume x w ws f => exact pass.1
  | _ => exact pass.elim

/-- A pass is still to come, or there was one that left no wait of `t`. -/
lemma Sweeping.pass (pass : (s.th u).pc.toPass tok) (inv : Inv s) (tk : Tokens t scope s)
    (cn : c.Cancelled t scope encloses) (sel : encloses tok = true) (st : Step c s i s') : Sweeping t u tok s' := by
  by_cases eu : u = i
  · subst eu
    cases st.sweeper (Pc.sweeps_of_toPass pass) with
    | pass e e' =>
      rw [e']
      by_cases full : kBuf ≤ (s.mx.cancelPass c tok).1.length
      · left
        show (Function.update s.th u _ u).pc.toPass tok
        rw [Function.update_self]
        show (Pc.canNext tok (decide _) _).toPass tok
        rw [decide_eq_true full]
        exact Pc.toPass_canNext fun none => by simp [none, kBuf] at full
      · -- the buffer is not full, so nobody who is selected is left
        right
        intro w hw mine
        have out := eject_keep_not_match _ (Nat.lt_of_not_le full) hw
        have old : w ∈ s.mx.waiters := (eject_keep_sublist _ _ _).subset hw
        by_contra hs
        have hs : w.slot = true := by simpa using hs
        rw [hs, tk.queued w old mine hs, cn.selects, sel] at out
        exact out rfl
    | write w ws f e e' =>
      rw [e] at pass
      left
      rw [e', St.goto_pc]
      exact pass
    | resume w ws f e e' =>
      rw [e] at pass
      obtain ⟨-, rfl⟩ := pass
      left
      rw [e', St.goto_pc]
      cases ws with
      | nil => exact rfl
      | cons v ws => exact ⟨rfl, rfl⟩
  · left
    obtain same | ⟨b, k, pk, -⟩ | ⟨sl, -⟩ := st.other inv eu
    · rwa [same]
    · rw [pk] at pass
      exact pass.elim
    · rw [sl] at pass
      exact pass.elim

/-- A pass leaves no cancellable wait of the task queued. -/
lemma Sweeping.step (sw : Sweeping t u tok s) (inv : Inv s) (tk : Tokens t scope s)
    (ah : Ahead t u tok scope encloses s (c, i)) (sel : encloses tok = true) (st : Step c s i s') :
    Sweeping t u tok s' := by
  by_cases pass : (s.th u).pc.toPass tok
  · exact Sweeping.pass pass inv tk ah.cancelled sel st
  · right
    intro w hw mine
    obtain old | ⟨rfl, now⟩ := st.queued hw
    · exact sw.resolve_left pass w old mine
    · by_contra hs
      subst mine
      obtain ⟨goes, locked, -⟩ := now (by simpa using hs) tk.call
      exact pass (ah.ahead rfl goes locked)

/-! ## Runs -/

/-- From the call on, no wait of the task is queued or a pass is still to come. -/
lemma Sweeping.of_runs {s₁ : St T} (rn : Runs Next (Shown t scope encloses) (init T) s₁)
    (enter : (s₁.th u).pc = .canEnter tok) (sel : encloses tok = true)
    (rn' : Runs Next (Ahead t u tok scope encloses) s₁ s) : Inv s ∧ Placed s ∧ Sweeping t u tok s := by
  have before : Inv s₁ ∧ Placed s₁ ∧ Tokens t scope s₁ := by
    refine rn.invariant (I := fun s => Inv s ∧ Placed s ∧ Tokens t scope s)
      ⟨.init, .init, ⟨fun w hw => (by cases hw), trivial⟩⟩ ?_
    rintro s a s' ⟨inv, pl, tk⟩ sh st
    exact ⟨inv.step st, pl.step inv st, tk.step inv (World.InScope.token sh) st⟩
  obtain ⟨inv₁, pl₁, tk₁⟩ := before
  have first : Sweeping t u tok s₁ := by
    left
    rw [enter]
    exact rfl
  have all : (Inv s ∧ Placed s) ∧ Tokens t scope s ∧ Sweeping t u tok s := by
    refine rn'.invariant (I := fun s => (Inv s ∧ Placed s) ∧ Tokens t scope s ∧ Sweeping t u tok s)
      ⟨⟨inv₁, pl₁⟩, tk₁, first⟩ ?_
    rintro s a s' ⟨⟨inv, pl⟩, tk, sw⟩ ah st
    have ah : Ahead t u tok scope encloses s a := ah
    exact ⟨⟨inv.step st, pl.step inv st⟩, tk.step inv ah.cancelled.token st, sw.step inv tk ah sel st⟩
  exact ⟨all.1.1, all.1.2, all.2.2⟩

/-- A `CancelWaiters(tok)` of `u` is over: it began when the scope of the task of `t` was cancelled, which `tok`
selects, and no wait of `t` was queued behind its last pass. -/
inductive SweepOver (t u : T) (tok scope : CancelToken) (encloses : CancelToken → Bool) : St T → Prop where
  | intro {s₁ s : St T} :
    Runs Next (Shown t scope encloses) (init T) s₁ →
    (s₁.th u).pc = .canEnter tok → encloses tok = true →
    Runs Next (Ahead t u tok scope encloses) s₁ s →
    (s.th u).pc = .ret .ejected →
    SweepOver t u tok scope encloses s

/-- Then none is left behind. -/
lemma SweepOver.swept (so : SweepOver t u tok scope encloses s) : Swept s t := by
  obtain ⟨rn, enter, sel, rn', back⟩ := so
  obtain ⟨inv, pl, sw⟩ := Sweeping.of_runs rn enter sel rn'
  rw [Sweeping, back] at sw
  have clear := sw.resolve_left id
  refine ⟨clear, fun pk => ?_, fun r hr => ?_⟩
  · obtain ⟨w, mine, hw | hand⟩ := pl t ⟨true, pk⟩
    · have waits : (s.th w.party).pc = .parked w.slot := (inv.cus.queued w hw).1
      rw [show w.party = t from mine, pk, clear w hw mine] at waits
      cases waits
    · obtain ⟨j, hw⟩ := hand
      exact ⟨j, w, hw, mine⟩
  · have ok := inv.ok t
    simp only [Thread.Ok, hr] at ok
    cases r with
    | ok => simpa using ok
    | cancelled => simpa using ok

end JLib.Mutex
