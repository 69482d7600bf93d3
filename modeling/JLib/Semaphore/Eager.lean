import JLib.Semaphore.Stage

/-!
# Semaphore: eager cancellation

A scope is cancelled and `CancelWaiters` called with a token that selects it. A waiting call of a task of the scope
is then not in the queue when `CancelWaiters` has made its last pass: it queues itself only if it finds under the
lock that it is not cancelled. Waiters that the token does not select are not touched.
-/

namespace JLib.Semaphore
open LTS

variable {T : Type} [DecidableEq T]

/-- A cancellable wait of a task that is cancelled and swept: it is not queued; if it is switched out, a call in
progress has its waiter and is going to resume it; if it has returned, it has a permit or was told that it has not. -/
structure Swept (s : St T) (t : T) : Prop where
  unqueued : ∀ w ∈ s.sem.waiters, w.party = t → w.slot = false
  woken : (s.th t).pc = .parked true → ∃ j, ∃ w ∈ (s.th j).pc.hand, w.party = t
  answer : ∀ r, (s.th t).pc = .ret (.res r) → (s.th t).got = if r = .ok then 1 else 0

/-- Inside `CancelWaiters(tok)`. -/
def Pc.sweeps (tok : CancelToken) : Pc T → Prop
  | .canEnter x | .canWrite x _ _ _ | .canResume x _ _ _ => x = tok
  | _ => False

/-- Inside `CancelWaiters(tok)`, with a pass still to come. -/
def Pc.toPass (tok : CancelToken) : Pc T → Prop
  | .canEnter x => x = tok
  | .canWrite x _ _ full | .canResume x _ _ full => x = tok ∧ full = true
  | _ => False

variable {s s' : St T} {c : World T} {i t u : T} {w : Waiter T} {tok scope : CancelToken}
    {encloses : CancelToken → Bool}

/-! ## The last pass -/

/-- Whoever queues itself with a slot is not cancelled. -/
lemma Step.queued (st : Step c s i s') (hw : w ∈ s'.sem.waiters) :
    w ∈ s.sem.waiters ∨ w.party = i ∧ (w.slot = true → w.token = c.tokenOf i ∧ c.isTaskCancelled i = false) := by
  have pushed : ∀ {v : Waiter T}, w ∈ s.sem.waiters ++ [v] → w ∈ s.sem.waiters ∨ w = v := fun h => by simpa using h
  cases st with
  | @enterPush sl _ _ hc =>
    obtain old | rfl := pushed hw
    · exact .inl old
    · refine .inr ⟨rfl, fun hs => ?_⟩
      subst hs
      exact ⟨rfl, hc⟩
  | asyncPush _ _ hc =>
    obtain old | rfl := pushed hw
    · exact .inl old
    · exact .inr ⟨rfl, fun _ => ⟨rfl, by simpa using hc⟩⟩
  | sigPop _ hq | sigNext _ hq =>
    left
    rw [hq]
    exact List.mem_cons_of_mem _ hw
  | canPass _ => exact .inl ((eject_keep_sublist _ _ _).subset hw)
  | sigEmpty _ _ | sigBack _ _ =>
    left
    revert hw
    show w ∈ s.sem.put.waiters → _
    unfold Sem.put
    split <;> exact id
  | sigWrite _ | canWrite _ =>
    left
    simpa using hw
  | _ => exact .inl hw

/-- The waiters of `t` bear the token of its task. -/
def Tokens (t : T) (scope : CancelToken) (s : St T) : Prop :=
  ∀ w ∈ s.sem.waiters, w.party = t → w.slot = true → w.token = scope

/-- A step keeps the tokens of the waiters. -/
lemma Tokens.step (tk : Tokens t scope s) (token : c.tokenOf t = scope) (st : Step c s i s') : Tokens t scope s' := by
  intro w hw mine hs
  obtain old | ⟨rfl, now⟩ := st.queued hw
  · exact tk w old mine hs
  · rw [(now hs).1, mine, token]

/-- No cancellable wait of `t` is queued, or a pass is still to come. -/
def Sweeping (t u : T) (tok : CancelToken) (s : St T) : Prop :=
  (s.th u).pc.toPass tok ∨ ∀ w ∈ s.sem.waiters, w.party = t → w.slot = false

omit [DecidableEq T] in
/-- A pass that filled its buffer is repeated. -/
lemma Pc.toPass_canNext {ws : List (Waiter T)} (some : ws ≠ []) : (Pc.canNext tok true ws).toPass tok := by
  cases ws with
  | nil => exact absurd rfl some
  | cons w ws => exact ⟨rfl, rfl⟩

omit [DecidableEq T] in
/-- With a pass still to come the call is not over. -/
lemma Pc.sweeps_of_toPass {p : Pc T} (pass : p.toPass tok) : p.sweeps tok := by
  cases p with
  | canEnter x => exact pass
  | canWrite x w ws f | canResume x w ws f => exact pass.1
  | _ => exact pass.elim

/-- A step inside `CancelWaiters(tok)`. -/
lemma Step.sweeper (st : Step c s u s') (sweeps : (s.th u).pc.sweeps tok) : CancelStep c s u s' := by
  apply st.canceller
  · cases e : (s.th u).pc with
    | canEnter _ | canWrite _ _ _ _ | canResume _ _ _ _ => rfl
    | _ =>
      rw [e] at sweeps
      exact sweeps.elim
  · intro r e
    rw [e] at sweeps
    exact sweeps

/-- Whoever is inside `CancelWaiters(tok)` stays there until it returns. -/
lemma CancelStep.sweeps (cs : CancelStep c s u s') (sw : (s.th u).pc.sweeps tok) :
    (s'.th u).pc = .ret .ejected ∨ (s'.th u).pc.sweeps tok := by
  have next : ∀ (f : Bool) (ws : List (Waiter T)),
      Pc.canNext tok f ws = .ret .ejected ∨ (Pc.canNext tok f ws).sweeps tok := by
    intro f ws
    cases ws with
    | nil =>
      cases f
      · exact .inl rfl
      · exact .inr rfl
    | cons w ws => exact .inr rfl
  cases cs with
  | pass x e e' =>
    rw [e] at sw
    obtain rfl : x = tok := sw
    rw [e', St.goto_th, Function.update_self]
    exact next _ _
  | write x w ws f e e' =>
    rw [e] at sw
    rw [e', St.goto_th, Function.update_self]
    exact .inr sw
  | resume x w ws f e e' =>
    rw [e] at sw
    obtain rfl : x = tok := sw
    rw [e', St.goto_th, Function.update_self]
    exact next _ _

/-- A pass is still to come, or there was one that left no wait of `t`. -/
lemma Sweeping.pass (pass : (s.th u).pc.toPass tok) (inv : Inv s) (tk : Tokens t scope s)
    (cn : c.Cancelled t scope encloses) (sel : encloses tok = true) (st : Step c s i s') : Sweeping t u tok s' := by
  by_cases eu : u = i
  · subst eu
    cases st.sweeper (Pc.sweeps_of_toPass pass) with
    | pass x e e' =>
      rw [e] at pass
      obtain rfl : x = tok := pass
      rw [e']
      by_cases full : kBuf ≤ (s.sem.cancelPass c x).1.length
      · left
        rw [St.goto_th, Function.update_self]
        show (Pc.canNext x (decide _) _).toPass x
        rw [decide_eq_true full]
        exact Pc.toPass_canNext fun none => by simp [none, kBuf] at full
      · -- the buffer is not full, so nobody who is selected is left
        right
        intro w hw mine
        have out := eject_keep_not_match _ (Nat.lt_of_not_le full) hw
        have old : w ∈ s.sem.waiters := (eject_keep_sublist _ _ _).subset hw
        by_contra hs
        have hs : w.slot = true := by simpa using hs
        rw [hs, tk w old mine hs, cn.selects, sel] at out
        exact out rfl
    | write x w ws f e e' =>
      rw [e] at pass
      left
      rw [e', St.goto_th, Function.update_self]
      exact pass
    | resume x w ws f e e' =>
      rw [e] at pass
      obtain ⟨rfl, rfl⟩ := pass
      left
      rw [e', St.goto_th, Function.update_self]
      cases ws with
      | nil => exact rfl
      | cons v ws => exact ⟨rfl, rfl⟩
  · left
    obtain same | ⟨b, pk, -⟩ := st.other inv eu
    · rwa [same]
    · rw [pk] at pass
      exact pass.elim

/-- A pass leaves no cancellable wait of the task queued. -/
lemma Sweeping.step (sw : Sweeping t u tok s) (inv : Inv s) (tk : Tokens t scope s) (cn : c.Cancelled t scope encloses)
    (sel : encloses tok = true) (st : Step c s i s') : Sweeping t u tok s' := by
  obtain pass | clear := sw
  · exact Sweeping.pass pass inv tk cn sel st
  · right
    intro w hw mine
    obtain old | ⟨rfl, now⟩ := st.queued hw
    · exact clear w old mine
    · by_contra hs
      have live := (now (by simpa using hs)).2
      rw [mine, cn.cancelled] at live
      cases live

/-! ## Runs -/

/-- The world shows the task of `t` in its scope. -/
def Shown (t : T) (scope : CancelToken) (encloses : CancelToken → Bool) (_ : St T) (a : World T × T) : Prop :=
  a.1.InScope t scope encloses

/-- The same, and cancelled. -/
def Gone (t : T) (scope : CancelToken) (encloses : CancelToken → Bool) (_ : St T) (a : World T × T) : Prop :=
  a.1.Cancelled t scope encloses

/-- From the call on, no wait of the task is queued or a pass is still to come. -/
lemma Sweeping.of_runs {i max : Int} {s₁ : St T} (h : i ≤ max)
    (rn : Runs Next (Shown t scope encloses) (init (Sem.new i max)) s₁) (enter : (s₁.th u).pc = .canEnter tok)
    (sel : encloses tok = true) (rn' : Runs Next (Gone t scope encloses) s₁ s) : Sweeping t u tok s := by
  have tk : Tokens t scope s₁ := by
    refine rn.invariant (I := Tokens t scope) (fun w hw => by cases hw) ?_
    intro s a s' tk sh st
    exact tk.step (World.InScope.token sh) st
  have first : Sweeping t u tok s₁ := by
    left
    rw [enter]
    exact rfl
  have all : Inv s ∧ Tokens t scope s ∧ Sweeping t u tok s := by
    refine rn'.invariant (I := fun s => Inv s ∧ Tokens t scope s ∧ Sweeping t u tok s)
      ⟨(inv_of_runs h rn).1, tk, first⟩ ?_
    rintro s a s' ⟨inv, tk, sw⟩ cn st
    have cn : a.1.Cancelled t scope encloses := cn
    exact ⟨inv.step st, tk.step cn.token st, sw.step inv tk cn sel st⟩
  exact all.2.2

/-- The invariants hold in the second run too. -/
lemma inv_of_both {i max : Int} {s₁ : St T} (h : i ≤ max)
    (rn : Runs Next (Shown t scope encloses) (init (Sem.new i max)) s₁)
    (rn' : Runs Next (Gone t scope encloses) s₁ s) : Inv s ∧ Placed s := by
  have both := rn.reaches.trans rn'.reaches
  refine both.invariant (I := fun s => Inv s ∧ Placed s) ⟨Inv.init rfl h, .init⟩ ?_
  rintro s a s' ⟨inv, pl⟩ - st
  exact ⟨inv.step st, pl.step inv st⟩

/-- A `CancelWaiters(tok)` of `u` is over: it began when the scope of the task of `t` was cancelled, which `tok`
selects. -/
inductive SweepOver (t u : T) (tok scope : CancelToken) (encloses : CancelToken → Bool) : St T → Prop where
  | intro {i max : Int} {s₁ s : St T} :
    i ≤ max →
    Runs Next (Shown t scope encloses) (init (Sem.new i max)) s₁ →
    (s₁.th u).pc = .canEnter tok → encloses tok = true →
    Runs Next (Gone t scope encloses) s₁ s →
    (s.th u).pc = .ret .ejected →
    SweepOver t u tok scope encloses s

/-- Then a wait of the task is not left behind. -/
lemma SweepOver.swept (so : SweepOver t u tok scope encloses s) : Swept s t := by
  obtain ⟨h, rn, enter, sel, rn', back⟩ := so
  have sw := Sweeping.of_runs h rn enter sel rn'
  obtain ⟨inv, pl⟩ := inv_of_both h rn rn'
  rw [Sweeping, back] at sw
  have clear := sw.resolve_left id
  refine ⟨clear, fun pk => ?_, fun r hr => ?_⟩
  · obtain ⟨w, mine, hw | hand⟩ := pl t true pk
    · have waits : (s.th w.party).pc = .parked w.slot := (inv.cus.queued w hw).1
      rw [mine, pk, clear w hw mine] at waits
      cases waits
    · obtain ⟨j, hw⟩ := hand
      exact ⟨j, w, hw, mine⟩
  · have ok := inv.ok t
    simp only [Thread.Ok, hr] at ok
    cases r with
    | ok => exact ok
    | cancelled => exact ok

/-- What a step of a `CancelWaiters(tok)` leaves alone. -/
structure Spared (c : World T) (tok : CancelToken) (s s' : St T) : Prop where
  order : s'.sem.waiters.filter (fun w => !(w.slot && c.selects tok w.token)) =
    s.sem.waiters.filter fun w => !(w.slot && c.selects tok w.token)
  untouched : ∀ w ∈ s.sem.waiters, (w.slot && c.selects tok w.token) = false → s'.th w.party = s.th w.party

/-- A step of a `CancelWaiters` keeps the waiters that it does not select, in their order, and does not touch them. -/
lemma spares (inv : Inv s) (sweeps : (s.th u).pc.sweeps tok) (st : Step c s u s') : Spared c tok s s' := by
  have queued : ∀ {w v : Waiter T}, w ∈ s.sem.waiters → v ∈ (s.th u).pc.hand → w.party ≠ v.party :=
    fun hw hv => inv.cus.ne_of_queued_held hw hv
  have runs : ¬(handoff T).Parked (s.th u) := by
    rintro ⟨b, e⟩
    rw [show (s.th u).pc = .parked b from e] at sweeps
    exact sweeps
  have self : ∀ {w : Waiter T}, w ∈ s.sem.waiters → w.party ≠ u := fun hw => inv.cus.ne_of_queued runs hw
  cases st.sweeper sweeps with
  | pass x e e' =>
    rw [e] at sweeps
    obtain rfl : x = tok := sweeps
    rw [e']
    refine ⟨eject_keep_filter _ _ _, fun w hw _ => ?_⟩
    rw [St.goto_th, Function.update_of_ne (self hw)]
    rfl
  | write x v ws f e e' =>
    rw [e']
    refine ⟨by simp, fun w hw _ => ?_⟩
    rw [St.goto_th, Function.update_of_ne (self hw)]
    refine Function.update_of_ne (queued hw ?_) _ _
    rw [e]
    exact List.mem_cons_self
  | resume x v ws f e e' =>
    rw [e']
    refine ⟨rfl, fun w hw _ => ?_⟩
    rw [St.goto_th, Function.update_of_ne (self hw)]
    refine Function.update_of_ne (queued hw ?_) _ _
    rw [e]
    exact List.mem_cons_self

end JLib.Semaphore
