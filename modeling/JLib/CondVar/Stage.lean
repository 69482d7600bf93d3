import JLib.CondVar.Lifetime
import JLib.Semaphore.Stage

/-!
# Condition variable: the stages of a wait

How far a waiting call has come is read off its place in the condition variable and, while it is on its
semaphore, off the semaphore's stage. `StageStep` is what one step of anybody can do to that:
nothing, or one of the few moves that decide the call. Whoever has the call's pointer keeps it until
its `Signal` or `CancelWaiters` on the semaphore is over, and then the call is decided.
-/

namespace JLib.CondVar
open LTS
open Semaphore (Stage)

variable {T : Type} [DecidableEq T]

/-- How far a waiting call has come. -/
def Pc.stage (p : Pc) (h : Semaphore.Thread T) (permits : Int) : Stage :=
  match p with
  | .sweep _ => .bound .cancelled
  | .lock _ r | .locking _ r => .bound r
  | _ => h.stage permits

/-- Working through what a `Notify` took out. -/
def Pc.notifies : Pc → Bool
  | .signal _ _ | .signalling _ _ => true
  | _ => false

namespace St

/-- The stage of the waiting call of `i`, which has semaphore `k`. -/
def stage (s : St T) (i : T) (k : Nat) : Stage :=
  (s.th i).pc.stage ((s.sem k).th i) (s.sem k).sem.permits

/-- The call with semaphore `k` is at this stage. -/
def At (s : St T) (k : Nat) (x : Stage) : Prop := ∃ i, (s.th i).pc.own = some k ∧ s.stage i k = x

/-- The call with semaphore `k` has returned `r`, or is bound to. -/
def Bound (s : St T) (k : Nat) (r : WaitResult) : Prop := s.result k = some r ∨ s.At k (.bound r)

end St

section Steps
variable {s s' : St T} {c : World T} {t i j : T} {k : Nat}

/-- What a step does to a waiting call that goes on. -/
inductive StageStep (c : World T) (s : St T) (t i : T) (k : Nat) (s' : St T) : Prop where
  | same :
    s'.stage i k = s.stage i k → StageStep c s t i k s'
  | cancels :
    i = t → s.SelfCancels (c, t) k → s'.stage i k = .bound .cancelled →
    StageStep c s t i k s'
  | parks (sl : Bool) :
    i = t → ((s.sem k).th t).pc = .enter sl → ¬(s.sem k).sem.permits > 0 →
    (sl && c.isTaskCancelled t) = false → s.stage i k = .early → s'.stage i k = .asleep →
    StageStep c s t i k s'
  | granted :
    s.Uses t k → (s.th t).pc.notifies → (s.stage i k = .early ∨ s.stage i k = .asleep) →
    s'.stage i k = .bound .ok →
    StageStep c s t i k s'
  | skipped (w : Waiter T) (e : Bool) :
    s.Uses t k → (s.th t).pc.notifies → ((s.sem k).th t).pc = .sigResume w e true →
    s.stage i k = .asleep → s'.stage i k = .bound .cancelled →
    StageStep c s t i k s'
  | ejected :
    s.Uses t k → (s.th t).pc.notifies = false → s.stage i k = .asleep →
    s'.stage i k = .bound .cancelled →
    StageStep c s t i k s'

omit [DecidableEq T] in
/-- The stage is the semaphore's, or no longer depends on it. -/
lemma Pc.stage_cases (p : Pc) :
    (∀ (h : Semaphore.Thread T) n, p.stage h n = h.stage n) ∨
      ∃ r, ∀ (h : Semaphore.Thread T) n, p.stage h n = .bound r := by
  cases p with
  | sweep k => exact .inr ⟨.cancelled, fun _ _ => rfl⟩
  | lock k r | locking k r => exact .inr ⟨r, fun _ _ => rfl⟩
  | _ => exact .inl fun _ _ => rfl

/-- The counters of the waiting calls' semaphores. -/
def Counters (s : St T) : Prop :=
  ∀ k, 0 ≤ (s.sem k).sem.permits ∧ (s.sem k).sem.maxPermits = 1

/-- A step of another party inside the semaphore. -/
lemma stage_inside (rl : Roles s) (ct : Counters s) {m : Semaphore.St T} (ne : i ≠ t)
    (ha : (s.th t).pc.active = some k) (nr : ∀ r, ((s.sem k).th t).pc ≠ .ret r)
    (no : (s.th t).pc.own ≠ some k) (st : Semaphore.Step c (s.sem k) t m) :
    StageStep c s t i k (s.withSem k m) := by
  have hu : s.Uses t k := by
    refine ⟨Roles.hand_of_role _ ha no, fun _ hb => ?_⟩
    cases e : ((s.sem k).th t).pc with
    | ret r => exact nr r e
    | _ => rw [e] at hb; cases hb
  have here : (s.withSem k m).sem k = m := Function.update_self ..
  have eq : (s.withSem k m).stage i k = (s.th i).pc.stage (m.th i) m.sem.permits := by
    unfold St.stage
    rw [here]
    rfl
  have ro := rl.role t k ha
  rcases Pc.stage_cases (T := T) (s.th i).pc with same | ⟨r, same⟩
  · rw [same] at eq
    have eq0 : s.stage i k = (s.sem k).stage i := same _ _
    have eq1 : (s.withSem k m).stage i k = m.stage i := eq
    cases e : (s.th t).pc with
    | waiting j sl =>
      rw [e] at ha no
      exact absurd ha no
    | signalling j ks =>
      rw [e] at ro
      have nt : (s.th t).pc.notifies := by rw [e]; rfl
      rcases (st.signaller ro nr).stage (rl.inv k) ne (ct k).1 (by rw [(ct k).2]; decide) with
        h | ⟨h, h', -⟩ | ⟨h, h', w, b, hp⟩
      · exact .same (by rw [eq0, eq1, h])
      · exact .granted hu nt (by rw [eq0]; exact h) (by rw [eq1, h'])
      · exact .skipped w b hu nt hp (by rw [eq0, h]) (by rw [eq1, h'])
    | cancelling tok j ks f =>
      rw [e] at ro
      rcases (st.canceller ro nr).stage (rl.inv k) ne with h | ⟨h, h'⟩
      · exact .same (by rw [eq0, eq1, h])
      · exact .ejected hu (by rw [e]; rfl) (by rw [eq0, h]) (by rw [eq1, h'])
    | _ =>
      rw [e] at ha
      cases ha
  · refine .same ?_
    rw [eq, same, St.stage, same]

/-- The waiting party's own step inside its semaphore. -/
lemma stage_wait (rl : Roles s) {m : Semaphore.St T} {sl : Bool} (e : (s.th t).pc = .waiting k sl)
    (nr : ∀ r, ((s.sem k).th t).pc ≠ .ret r) (st : Semaphore.Step c (s.sem k) t m) :
    StageStep c s t t k (s.withSem k m) := by
  have ro := rl.role t k (by rw [e]; rfl)
  have here : (s.withSem k m).sem k = m := Function.update_self ..
  have eq1 : (s.withSem k m).stage t k = m.stage t := by
    show (s.th t).pc.stage (((s.withSem k m).sem k).th t) ((s.withSem k m).sem k).sem.permits = _
    rw [here, e]
    rfl
  have eq0 : s.stage t k = (s.sem k).stage t := by
    rw [St.stage, e]
    rfl
  rw [e] at ro
  rcases (st.waiter ro nr).stage with h | ⟨h, hc, h'⟩ | ⟨h, hp, hc, h', h''⟩
  · exact .same (by rw [eq0, eq1, h])
  · exact .cancels rfl ⟨by rw [e]; rfl, hc, h⟩ (by rw [eq1, h'])
  · exact .parks sl rfl h hp hc (by rw [eq0, h']) (by rw [eq1, h''])

omit [DecidableEq T] in
/-- Nothing the stage depends on changes. -/
lemma St.stage_congr (hth : s'.th i = s.th i) (hs : (s'.sem k).th i = (s.sem k).th i)
    (hp : (s'.sem k).sem.permits = (s.sem k).sem.permits) : s'.stage i k = s.stage i k := by
  rw [St.stage, St.stage, hth, hs, hp]

/-- What a step of one party does to the waiting call of another. -/
lemma stage_other (nm : Names s) (rl : Roles s) (ct : Counters s) (st : Step c s t s') (ne : i ≠ t)
    (ho : (s.th i).pc.own = some k) : StageStep c s t i k s' := by
  have hth := st.th_other ne
  have upd : ∀ {l : Nat} {h : Semaphore.Thread T},
      s'.sem = Function.update s.sem l ((s.sem l).set t h) → s'.stage i k = s.stage i k := by
    intro l h hs
    by_cases el : k = l
    · subst el
      refine St.stage_congr hth ?_ ?_
      · rw [hs, Function.update_self]
        exact Function.update_of_ne ne _ _
      · rw [hs, Function.update_self]
        rfl
    · refine St.stage_congr hth ?_ ?_ <;> rw [hs, Function.update_of_ne el]
  cases st with
  | @inside l m ha _ nr st =>
    by_cases el : k = l
    · subst el
      exact stage_inside rl ct ne ha nr (fun h => ne (nm.one i t k ho h)) st
    · have there : (s.withSem l m).sem k = s.sem k := Function.update_of_ne el ..
      exact .same (St.stage_congr rfl (by rw [there]) (by rw [there]))
  | semWait _ _ | signal _ _ | cancel _ _ | waited _ _ | signalled _ _ | cancelled _ _ =>
    exact .same (upd rfl)
  | _ => exact .same (St.stage_congr hth rfl rfl)

/-- What a step of a waiting party does to its call. -/
lemma stage_self (rl : Roles s) (st : Step c s t s') (ho : (s.th t).pc.own = some k)
    (ho' : (s'.th t).pc.own = some k) : StageStep c s t t k s' := by
  cases st with
  | user _ _ | mutex _ _ _ _ => exact .same rfl
  | inside ha _ nr st =>
    obtain ⟨rfl, sl, e⟩ := Pc.waiting_of ha ho
    exact stage_wait rl e nr st
  | unlock e _ _ | unlocked e _ | lock e _ | sweep e =>
    refine .same ?_
    rw [St.stage, St.stage, St.goto_pc, e]
    rfl
  | @semWait l sl e idle =>
    rw [e] at ho
    cases ho
    refine .same ?_
    rw [St.stage, St.stage, St.goto_pc, e]
    have here : (s.semCall k t (if sl then .waitCancellable else .wait)).sem k =
        (s.sem k).set t { pc := (if sl then .waitCancellable else .wait : Semaphore.Op).entry } :=
      Function.update_self ..
    show Semaphore.Thread.stage (((s.semCall k t _).sem k).th t)
      ((s.semCall k t _).sem k).sem.permits = ((s.sem k).th t).stage _
    rw [here]
    simp only [Semaphore.St.set_th, Function.update_self, Semaphore.Thread.stage, idle]
    cases sl <;> rfl
  | @waited l sl r e back =>
    rw [e] at ho
    cases ho
    refine .same ?_
    rw [St.stage, St.stage, St.goto_pc, e]
    cases r with
    | ok | cancelled => simp [Pc.stage, Semaphore.Thread.stage, back]
  | callWait _ e _ _ | callBareWait _ _ e _ _ | callNotify _ e _ | callCancel _ e _ | done e
  | checkCancelled e _ | checkPass e _ | pushCancelled e _ | push e _ | bareCancelled e _
  | barePass e _ | bareUnlock e _ _ | bareUnlocked e _ | bareLock e _ | bareLocked e _ | bareEnd e
  | notify e | signal e _ | signalled e _ | canPass e | cancel e _ | cancelled e _ =>
    rw [e] at ho
    cases ho
  | locked _ _ =>
    rw [St.goto_pc] at ho'
    cases ho'

/-- What a step does to a waiting call that is still there afterwards. -/
lemma Step.stage (nm : Names s) (rl : Roles s) (ct : Counters s) (st : Step c s t s')
    (ho : (s.th i).pc.own = some k) (ho' : (s'.th i).pc.own = some k) :
    StageStep c s t i k s' := by
  by_cases ei : i = t
  · subst ei
    exact stage_self rl st ho ho'
  · exact stage_other nm rl ct st ei ho

/-- A waiting call that ends returns what it was bound to. -/
lemma Step.returns (st : Step c s t s') (ho : (s.th i).pc.own = some k)
    (hn : (s'.th i).pc.own ≠ some k) :
    ∃ r, (s.th i).pc = .locking k r ∧ s.stage i k = .bound r ∧ s'.result k = some r := by
  by_cases ei : i = t
  · subst ei
    obtain ⟨r, e⟩ := Lifetime.own_lost st ho hn
    cases st with
    | @locked l q e' _ =>
      rw [e] at e'
      cases e'
      exact ⟨r, e, by rw [St.stage, e]; rfl, Function.update_self ..⟩
    | mutex _ _ _ _ | user _ _ | inside _ _ _ _ => exact absurd ho hn
    | callWait _ e' _ _ | callBareWait _ _ e' _ _ | callNotify _ e' _ | callCancel _ e' _ | done e'
    | checkCancelled e' _ | checkPass e' _ | pushCancelled e' _ | push e' _ | bareCancelled e' _
    | barePass e' _ | bareUnlock e' _ _ | bareUnlocked e' _ | bareLock e' _ | bareLocked e' _
    | bareEnd e' | notify e' | signal e' _ | signalled e' _ | canPass e' | cancel e' _
    | cancelled e' _ | unlock e' _ _ | unlocked e' _ | semWait e' _ | waited e' _ | sweep e'
    | lock e' _ =>
      rw [e] at e'
      cases e'
  · rw [st.th_other ei] at hn
    exact absurd ho hn

/-- A call that is at a stage goes on by a `StageStep`, or returns. -/
lemma St.At.step {x : Stage} (nm : Names s) (rl : Roles s) (ct : Counters s) (st : Step c s t s')
    (h : s.At k x) :
    (∃ i, (s.th i).pc.own = some k ∧ (s'.th i).pc.own = some k ∧ s.stage i k = x ∧
      StageStep c s t i k s') ∨ ∃ r, x = .bound r ∧ s'.result k = some r := by
  obtain ⟨i, ho, hx⟩ := h
  by_cases ho' : (s'.th i).pc.own = some k
  · exact .inl ⟨i, ho, ho', hx, st.stage nm rl ct ho ho'⟩
  · obtain ⟨r, -, hr, hr'⟩ := st.returns ho ho'
    exact .inr ⟨r, hx.symm.trans hr, hr'⟩

/-- The end of a `Signal` or `CancelWaiters` on semaphore `k`. -/
structure Finish (c : World T) (s : St T) (t : T) (k : Nat) (s' : St T) (m : Semaphore.St T) :
    Prop where
  eq : s' = s.withSem k m
  active : (s.th t).pc.active = some k
  run : ∀ r, ((s.sem k).th t).pc ≠ .ret r
  step : Semaphore.Step c (s.sem k) t m
  back : (m.th t).pc.back

/-- Whoever has a pointer to use keeps it until it is through with it. -/
lemma St.Uses.step (rl : Roles s) (st : Step c s t s') (hu : s.Uses j k) :
    s'.Uses j k ∨ (j = t ∧ ∃ m, Finish c s t k s' m) := by
  by_cases ej : j = t
  · subst ej
    obtain ⟨hk, hb⟩ := hu
    cases st with
    | user _ _ | mutex _ _ _ _ => exact .inl ⟨hk, hb⟩
    | @inside l m ha _ nr st =>
      by_cases el : l = k
      · subst el
        by_cases hm : (m.th j).pc.back
        · exact .inr ⟨rfl, m, rfl, ha, nr, st, hm⟩
        · refine .inl ⟨hk, fun _ => ?_⟩
          rw [show (s.withSem l m).sem l = m from Function.update_self ..]
          exact hm
      · refine .inl ⟨hk, fun ha' => ?_⟩
        rw [show ((s.withSem l m).th j).pc.active = some l from ha] at ha'
        exact absurd (Option.some.inj ha') el
    | @signal l ks e _ =>
      refine .inl ⟨by rw [St.goto_pc]; rwa [e] at hk, fun ha => ?_⟩
      rw [St.goto_pc] at ha
      cases ha
      simp [St.semCall, St.withSem, St.goto, St.set, Semaphore.Op.entry, Semaphore.Pc.back]
    | @cancel tok l ks f e _ =>
      refine .inl ⟨by rw [St.goto_pc]; rwa [e] at hk, fun ha => ?_⟩
      rw [St.goto_pc] at ha
      cases ha
      simp [St.semCall, St.withSem, St.goto, St.set, Semaphore.Op.entry, Semaphore.Pc.back]
    | @signalled l ks e back =>
      rw [e] at hk hb
      have hk' : k ∈ ks := by
        rcases List.mem_cons.1 hk with rfl | hk
        · rw [back] at hb
          exact absurd rfl (hb rfl)
        · exact hk
      refine .inl ⟨by rw [St.goto_pc, Pc.hand_signalNext]; exact hk', fun ha => ?_⟩
      rw [St.goto_pc, Pc.active_signalNext] at ha
      cases ha
    | @cancelled tok l ks f e back =>
      rw [e] at hk hb
      have hk' : k ∈ ks := by
        rcases List.mem_cons.1 hk with rfl | hk
        · rw [back] at hb
          exact absurd rfl (hb rfl)
        · exact hk
      refine .inl ⟨by rw [St.goto_pc, Pc.hand_canNext]; exact hk', fun ha => ?_⟩
      rw [St.goto_pc, Pc.active_canNext] at ha
      cases ha
    | callWait _ e _ _ | callBareWait _ _ e _ _ | callNotify _ e _ | callCancel _ e _ | done e
    | checkCancelled e _ | checkPass e _ | pushCancelled e _ | push e _ | bareCancelled e _
    | barePass e _ | bareUnlock e _ _ | bareUnlocked e _ | bareLock e _ | bareLocked e _
    | bareEnd e | notify e | canPass e | unlock e _ _ | unlocked e _ | semWait e _ | waited e _
    | sweep e | lock e _ | locked e _ =>
      rw [e] at hk
      cases hk
  · refine .inl ?_
    unfold St.Uses
    rw [st.th_other ej, st.back_other rl ej]
    exact hu

/-- A waiter in somebody's hands is the one whose semaphore it is. -/
lemma Roles.party_of_hand (nm : Names s) (rl : Roles s) (ho : (s.th i).pc.own = some k)
    {w : Waiter T} {p : Semaphore.Pc T} (e : ((s.sem k).th t).pc = p) (hw : w ∈ p.hand) :
    w.party = i :=
  nm.one _ _ k (rl.own_of_parked ((rl.inv k).parked e hw)) ho

/-- A waiter that is switched out is in the semaphore's queue, or in the hands of whoever has the
pointer. -/
lemma Roles.found (nm : Names s) (rl : Roles s) (pl : Semaphore.Placed (s.sem k))
    (hk : k ∈ (s.th t).pc.hand) {b : Bool} (pk : ((s.sem k).th i).pc = .parked b) :
    ∃ w, w.party = i ∧ (w ∈ (s.sem k).sem.waiters ∨ w ∈ ((s.sem k).th t).pc.hand) := by
  obtain ⟨w, hp, hw⟩ := pl i b pk
  refine ⟨w, hp, ?_⟩
  rcases hw with hw | ⟨j, hw⟩
  · exact .inl hw
  · have ha : (s.th j).pc.active = some k := by
      by_contra ne
      rw [rl.quiet j k ne] at hw
      cases hw
    have no : (s.th j).pc.own ≠ some k := by
      intro ho
      obtain ⟨-, sl, e⟩ := Pc.waiting_of ha ho
      have ro := rl.role j k ha
      rw [e] at ro
      cases e' : ((s.sem k).th j).pc with
      | sigTest _ _ | sigWrite _ _ _ | sigResume _ _ _ | canWrite _ _ _ _ | canResume _ _ _ _ =>
        rw [e'] at ro
        cases ro
      | _ =>
        rw [e'] at hw
        cases hw
    have hj : k ∈ (s.th j).pc.hand := Roles.hand_of_role _ ha no
    obtain rfl : j = t := Option.some.inj
      (nm.cus.unique (show k ∈ s.places (some j) from hj) (show k ∈ s.places (some t) from hk))
    exact .inr hw

/-- Who is inside a semaphore for a `Notify` signals it. -/
lemma Pc.signalling_of {p : Pc} (ha : p.active = some k) (nt : p.notifies) :
    ∃ ks, p = .signalling k ks := by
  cases p with
  | signalling l ks =>
    cases ha
    exact ⟨ks, rfl⟩
  | signal _ _ => cases ha
  | _ => cases nt

/-- Who is inside a semaphore that is neither its own nor for a `Notify` cancels it. -/
lemma Pc.cancelling_of {p : Pc} (ha : p.active = some k) (nt : p.notifies = false)
    (no : p.own ≠ some k) : ∃ tok ks f, p = .cancelling tok k ks f := by
  cases p with
  | cancelling tok l ks f =>
    cases ha
    exact ⟨tok, ks, f, rfl⟩
  | waiting _ _ => exact absurd ha no
  | signalling _ _ => cases nt
  | _ => cases ha

section Finish
variable {m : Semaphore.St T}

/-- At the end of a call on a semaphore the stage is read off it. -/
lemma Finish.stage_eq (fin : Finish c s t k s' m) :
    s'.stage i k = (s.th i).pc.stage (m.th i) m.sem.permits := by
  rw [fin.eq]
  show (s.th i).pc.stage (((s.withSem k m).sem k).th i) ((s.withSem k m).sem k).sem.permits = _
  rw [show (s.withSem k m).sem k = m from Function.update_self ..]

/-- When a `Signal` that did not skip is over, the waiting call is decided. -/
lemma Finish.signal (nm : Names s) (rl : Roles s) (ct : Counters s)
    (pl : Semaphore.Placed (s.sem k)) (fin : Finish c s t k s' m)
    (ho : (s.th i).pc.own = some k) (ne : i ≠ t) (nt : (s.th t).pc.notifies)
    (nr : ∀ e, ((s.sem k).th t).pc ≠ .sigRetake e) : ∃ r, s'.stage i k = .bound r := by
  rw [fin.stage_eq]
  rcases Pc.stage_cases (T := T) (s.th i).pc with same | ⟨r, same⟩
  · rw [same]
    obtain ⟨ks, e⟩ := Pc.signalling_of fin.active nt
    have hk : k ∈ (s.th t).pc.hand := by rw [e]; exact List.mem_cons_self
    have ro := rl.role t k fin.active
    have hb := fin.back
    rw [e] at ro
    cases fin.step.signaller ro fin.run with
    | put h he =>
      rcases h with ⟨h, hq⟩ | ⟨b, h⟩
      · rw [he]
        show ∃ r, ((s.sem k).putBack t).stage i = .bound r
        rw [Semaphore.St.stage_putBack ne (ct k).1 (by rw [(ct k).2]; decide)]
        split
        · exact ⟨.ok, rfl⟩
        · next early =>
          -- it is not switched out either: nobody is in the queue
          cases hx : (s.sem k).stage i with
          | early => exact absurd hx early
          | bound r => exact ⟨r, rfl⟩
          | asleep =>
            obtain ⟨b, pk⟩ := Semaphore.Thread.parked_of_asleep hx
            obtain ⟨w, -, hw⟩ := rl.found nm pl hk pk
            rw [hq, h] at hw
            rcases hw with hw | hw <;> cases hw
      · exact absurd h (nr b)
    | grant w b h he =>
      have hw : w ∈ (Semaphore.Pc.sigResume w b false : Semaphore.Pc T).hand :=
        List.mem_singleton_self w
      rw [he]
      show ∃ r, ((s.sem k).grant t w).stage i = .bound r
      rw [Semaphore.St.stage_grant ne ((rl.inv k).ne_of_hand h hw),
        if_pos (rl.party_of_hand nm ho h hw).symm]
      exact ⟨_, rfl⟩
    | pop _ _ _ _ he | test _ _ _ he | write _ _ _ _ he | skip _ _ _ he =>
      rw [he] at hb
      simp [Semaphore.Pc.back, Semaphore.Pc.sigPop] at hb
  · exact ⟨r, same _ _⟩

/-- When a `CancelWaiters` that selects all the waiters is over, the waiting call is not switched
out. -/
lemma Finish.cancel (nm : Names s) (rl : Roles s) (pl : Semaphore.Placed (s.sem k))
    (fin : Finish c s t k s' m) (ho : (s.th i).pc.own = some k) (ne : i ≠ t)
    (nt : (s.th t).pc.notifies = false) (nw : (s.th t).pc.own ≠ some k)
    (all : ∀ tok, ((s.sem k).th t).pc = .canEnter tok →
      ∀ w ∈ (s.sem k).sem.waiters, w.slot && c.selects tok w.token) :
    s'.stage i k ≠ .asleep := by
  intro hx
  rw [fin.stage_eq] at hx
  rcases Pc.stage_cases (T := T) (s.th i).pc with same | ⟨r, same⟩
  · rw [same] at hx
    obtain ⟨b, pk⟩ := Semaphore.Thread.parked_of_asleep hx
    obtain ⟨tok, ks, f, e⟩ := Pc.cancelling_of fin.active nt nw
    have hk : k ∈ (s.th t).pc.hand := by rw [e]; exact List.mem_cons_self
    have ro := rl.role t k fin.active
    have hb := fin.back
    rw [e] at ro
    cases fin.step.canceller ro fin.run with
    | pass tok' h he =>
      have none := Semaphore.Pc.victims_of_back (by simpa [he] using hb)
      have pk : ((s.sem k).th i).pc = .parked b := by simpa [he, ne] using pk
      obtain ⟨w, -, hw⟩ := rl.found nm pl hk pk
      rw [h] at hw
      have hw : w ∈ (s.sem k).sem.waiters := hw.resolve_right List.not_mem_nil
      -- it was kept by a pass that took nobody
      have hm := ((s.sem k).sem.cancelPass_perm c tok').mem_iff.2 hw
      rw [none, List.nil_append] at hm
      refine eject_keep_not_match _ ?_ hm (all tok' h w hw)
      rw [show (eject _ kBuf (s.sem k).sem.waiters).1 = [] from none]
      exact Nat.zero_lt_succ _
    | resume tok' w ws f' h he =>
      have hw : w ∈ (Semaphore.Pc.canResume tok' w ws f' : Semaphore.Pc T).hand :=
        List.mem_cons_self
      rw [he, Semaphore.St.resume_goto ((rl.inv k).ne_of_hand h hw)] at pk
      simp [rl.party_of_hand nm ho h hw, ne] at pk
    | write _ _ _ _ _ he =>
      rw [he] at hb
      simp [Semaphore.Pc.back] at hb
  · rw [same] at hx
    cases hx

end Finish
end Steps
end JLib.CondVar
