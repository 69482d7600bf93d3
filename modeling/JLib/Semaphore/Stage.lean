import JLib.Semaphore.Roles

/-!
# Semaphore: how far a wait has come

A waiting call is still running and undecided, or it is switched out, or it is bound to return a
certain result: it has been resumed, has returned, or there is a permit for it. This module says how a
step of each role moves a waiting party from one stage to another. `Placed` is the converse of custody:
whoever is switched out can be found, in the queue or in somebody's hands.
-/

namespace JLib.Semaphore
open LTS

variable {T : Type} [DecidableEq T]

section Placed
variable {s s' : St T} {c : World T} {t : T}

/-- A waiter in the queue or in the hands of the moving party stays in one of the two, or runs. -/
lemma Step.keeps (inv : Inv s) (st : Step c s t s') {w : Waiter T}
    (hw : w ∈ s.sem.waiters ∨ w ∈ (s.th t).pc.hand) :
    (w ∈ s'.sem.waiters ∨ w ∈ (s'.th t).pc.hand) ∨ ∃ b, (s'.th w.party).pc = .awake b := by
  have pop : ∀ {p : Pc T} {v ws}, (s.th t).pc = p → p.hand = [] → s.sem.waiters = v :: ws →
      w ∈ ws ∨ w ∈ [v] := by
    intro p v ws e he hq
    rw [e, he, hq] at hw
    simpa [or_comm] using hw
  have woke : ∀ {v ws} {p q : Pc T}, (s.th t).pc = p → p.hand = v :: ws → q.hand = ws →
      (w ∈ s.sem.waiters ∨ w ∈ q.hand) ∨
        ∃ b, (((s.resume v).goto t q).th w.party).pc = .awake b := by
    intro v ws p q e hp hq
    rw [e, hp, List.mem_cons] at hw
    rw [hq]
    rcases hw with hw | rfl | hw
    · exact .inl (.inl hw)
    · refine .inr ⟨w.slot, ?_⟩
      have ne := inv.ne_of_hand e (hp ▸ List.mem_cons_self)
      rw [St.resume_goto ne]
      simp [ne]
    · exact .inl (.inr hw)
  cases st with
  | enterPush e _ _ | asyncPush e _ _ =>
    rw [e] at hw
    refine .inl (.inl ?_)
    rcases hw with hw | hw
    · exact List.mem_append_left _ hw
    · cases hw
  | sigPop e hq | sigNext e hq =>
    refine .inl ?_
    simpa [Pc.sigPop, Pc.hand] using pop e rfl hq
  | sigTest e =>
    rw [e] at hw
    refine .inl ?_
    simpa [Pc.hand] using hw
  | sigWrite e | canWrite e =>
    rw [e] at hw
    refine .inl ?_
    simpa [Pc.hand, St.writeSlot] using hw
  | @sigGrant v e h =>
    have ne := inv.ne_of_hand h (List.mem_singleton_self v)
    rw [h] at hw
    rcases hw with hw | hw
    · exact .inl (.inl hw)
    · refine .inr ⟨v.slot, ?_⟩
      rw [List.mem_singleton.1 hw, St.grant_eq ne]
      simp [ne]
  | @sigSkip v b e =>
    have h := woke (q := .sigRetake b) e rfl rfl
    simpa [St.resume] using h
  | @canResume tok v ws f e =>
    have h := woke (q := .canNext tok f ws) e rfl (Pc.hand_canNext _ _ _)
    simpa [St.resume] using h
  | @canPass tok e =>
    rw [e] at hw
    refine .inl ?_
    rcases hw with hw | hw
    · have hm := ((s.sem.cancelPass_perm c tok).mem_iff).2 hw
      rcases List.mem_append.1 hm with hm | hm
      · refine .inr ?_
        simpa [Pc.hand_canNext] using hm
      · exact .inl hm
    · cases hw
  | sigEmpty e _ | sigBack e _ =>
    rw [e] at hw
    refine .inl (.inl ?_)
    rcases hw with hw | hw
    · show w ∈ s.sem.put.waiters
      unfold Sem.put
      split <;> exact hw
    · cases hw
  | call op e | done e | checkCancelled e _ | checkPass e _ | enterTake e _ | enterCancelled e _ _
  | awake e | bareTake e _ | bareFail e _ | bareCancelled e _ | bareAgain e _ | tryTake e _
  | tryFail e _ | asyncTake e _ | asyncCancelled e _ _ | asyncWrite e =>
    rw [e] at hw
    refine .inl (.inl ?_)
    rcases hw with hw | hw
    · exact hw
    · cases hw

/-- Whoever is switched out is in the queue or in somebody's hands. -/
def Placed (s : St T) : Prop :=
  ∀ i b, (s.th i).pc = .parked b →
    ∃ w, w.party = i ∧ (w ∈ s.sem.waiters ∨ ∃ j, w ∈ (s.th j).pc.hand)

omit [DecidableEq T] in
/-- Between two victims a `CancelWaiters` runs. -/
lemma Pc.canNext_ne_parked (tok : CancelToken) (f : Bool) (ws : List (Waiter T)) (b : Bool) :
    Pc.canNext tok f ws ≠ .parked b := by
  cases ws with
  | nil => cases f <;> exact nofun
  | cons w ws => exact nofun

/-- Whoever switches out has queued itself. -/
lemma Step.parked_self (inv : Inv s) (st : Step c s t s') {b : Bool} (h : (s'.th t).pc = .parked b) :
    ∃ w, w.party = t ∧ w ∈ s'.sem.waiters := by
  cases st with
  | enterPush _ _ _ | asyncPush _ _ _ =>
    exact ⟨_, rfl, List.mem_append_right _ (List.mem_singleton_self _)⟩
  | @sigGrant v e he =>
    rw [St.grant_eq (inv.ne_of_hand he (List.mem_singleton_self v))] at h
    simp at h
  | call op _ =>
    rw [St.set_th, Function.update_self] at h
    cases op <;> cases h
  | @checkPass d _ _ =>
    rw [St.goto_th, Function.update_self] at h
    cases d <;> cases h
  | canPass _ | canResume _ =>
    rw [St.goto_th, Function.update_self] at h
    exact absurd h (Pc.canNext_ne_parked _ _ _ _)
  | sigPop _ _ | sigNext _ _ =>
    rw [St.goto_th, Function.update_self] at h
    cases h
  | _ => simp [St.putBack, St.takeFor] at h

omit [DecidableEq T] in
/-- Nobody is switched out. -/
lemma Placed.init {m : Sem T} : Placed (init m) := by
  intro i b h
  cases h

/-- A step keeps whoever is switched out in the queue or in somebody's hands. -/
lemma Placed.step (pl : Placed s) (inv : Inv s) (st : Step c s t s') : Placed s' := by
  intro i b h
  by_cases ei : i = t
  · subst ei
    obtain ⟨w, hp, hw⟩ := st.parked_self inv h
    exact ⟨w, hp, .inl hw⟩
  · rcases st.other inv ei with e | ⟨d, -, e⟩
    · rw [e] at h
      obtain ⟨w, rfl, hw⟩ := pl i b h
      refine ⟨w, rfl, ?_⟩
      have here : w ∈ s.sem.waiters ∨ w ∈ (s.th t).pc.hand →
          w ∈ s'.sem.waiters ∨ ∃ j, w ∈ (s'.th j).pc.hand := by
        intro hw
        rcases st.keeps inv hw with (hw | hw) | ⟨d, hw⟩
        · exact .inl hw
        · exact .inr ⟨t, hw⟩
        · rw [e, h] at hw
          cases hw
      rcases hw with hw | ⟨j, hw⟩
      · exact here (.inl hw)
      · by_cases ej : j = t
        · subst ej
          exact here (.inr hw)
        · refine .inr ⟨j, ?_⟩
          rcases st.other inv ej with e | ⟨d, e, -⟩
          · rwa [e]
          · rw [e] at hw
            cases hw
    · rw [e] at h
      cases h

end Placed

/-- How far a waiting call has come. -/
inductive Stage where
  | early
  | asleep
  | bound (r : WaitResult)
  deriving Repr, DecidableEq

/-- The stage of a party that waits or is about to, with this many permits on the counter. -/
def Thread.stage (h : Thread T) (permits : Int) : Stage :=
  match h.pc with
  | .parked _ => .asleep
  | .awake sl => .bound (if sl then h.slot else .ok)
  | .ret (.res r) => .bound r
  | _ => if permits > 0 then .bound .ok else .early

section Stage
variable {s s' : St T} {c : World T} {t i : T} {sl : Bool}

/-- The stage of `i`. -/
def St.stage (s : St T) (i : T) : Stage := (s.th i).stage s.sem.permits

/-- A waiting party stays at its stage, finds out that it is cancelled, or switches out. -/
lemma WaitStep.stage (st : WaitStep c s t sl s') :
    s'.stage t = s.stage t ∨
    (((s.th t).pc = .check false ∨ (s.th t).pc = .enter true ∧ ¬s.sem.permits > 0) ∧
      c.isTaskCancelled t ∧ s'.stage t = .bound .cancelled) ∨
    ((s.th t).pc = .enter sl ∧ ¬s.sem.permits > 0 ∧ (sl && c.isTaskCancelled t) = false ∧
      s.stage t = .early ∧ s'.stage t = .asleep) := by
  cases st with
  | pass e he _ => simp [he, St.stage, Thread.stage, e]
  | cancelled h hc he _ => exact .inr (.inl ⟨h, hc, by simp [he, St.stage, Thread.stage]⟩)
  | take e hp he => simp [he, St.stage, Thread.stage, e, St.takeFor, hp]
  | push tok e hp hc he =>
    refine .inr (.inr ⟨e, hp, hc, ?_, ?_⟩)
    · simp only [St.stage, Thread.stage, e, if_neg hp]
    · simp [he, St.stage, Thread.stage]
  | awake e he => simp [he, St.stage, Thread.stage, e]

omit [DecidableEq T] in
/-- Where the stage does not depend on the counter, or the counter stays where it is. -/
lemma St.stage_congr (hth : s'.th i = s.th i) (hp : s'.sem.permits = s.sem.permits) :
    s'.stage i = s.stage i := by
  rw [St.stage, St.stage, hth, hp]

/-- A result write to a party that is switched out. -/
lemma St.stage_writeSlot {w : Waiter T} {r : WaitResult} {p : Pc T} (ne : i ≠ t)
    (pk : (s.th w.party).pc = .parked w.slot) :
    ((s.writeSlot w r).goto t p).stage i = s.stage i := by
  by_cases e : i = w.party
  · subst e
    simp [St.stage, Thread.stage, St.writeSlot, ne, pk]
  · refine St.stage_congr ?_ rfl
    simp [St.writeSlot, ne, e]

/-- Letting a waiter run binds it to what its slot says. -/
lemma St.stage_resume {w : Waiter T} {p : Pc T} (ne : i ≠ t) (nw : w.party ≠ t) :
    ((s.resume w).goto t p).stage i =
      if i = w.party then .bound (if w.slot then (s.th i).slot else .ok) else s.stage i := by
  rw [St.resume_goto nw]
  split
  · next e =>
    subst e
    simp [St.stage, Thread.stage, ne]
  · next e =>
    refine St.stage_congr ?_ rfl
    simp [ne, e]

/-- A grant binds the waiter that it is for, and nobody else. -/
lemma St.stage_grant {w : Waiter T} (ne : i ≠ t) (nw : w.party ≠ t) :
    (s.grant t w).stage i =
      if i = w.party then .bound (if w.slot then (s.th i).slot else .ok) else s.stage i := by
  rw [St.grant_eq nw]
  split
  · next e =>
    subst e
    simp [St.stage, Thread.stage, ne]
  · next e =>
    refine St.stage_congr ?_ rfl
    simp [ne, e]

/-- A permit more binds a party that was still undecided. -/
lemma St.stage_putBack (ne : i ≠ t) (nn : 0 ≤ s.sem.permits) (mx : 0 < s.sem.maxPermits) :
    (s.putBack t).stage i = if s.stage i = .early then .bound .ok else s.stage i := by
  have hth : (s.putBack t).th i = s.th i := by simp [St.putBack, ne]
  have hp : (s.putBack t).sem.permits > 0 := by
    show s.sem.put.permits > 0
    unfold Sem.put
    split
    · show s.sem.permits + 1 > 0
      omega
    · omega
  rw [St.stage, St.stage, hth]
  unfold Thread.stage
  split
  · rfl
  · rfl
  · rfl
  · rw [if_pos hp]
    split <;> rfl

/-- A `Signal` leaves the stage of a waiting party, or binds it. -/
lemma SignalStep.stage (inv : Inv s) (st : SignalStep c s t s') (ne : i ≠ t)
    (nn : 0 ≤ s.sem.permits) (mx : 0 < s.sem.maxPermits) :
    s'.stage i = s.stage i ∨
    ((s.stage i = .early ∨ s.stage i = .asleep) ∧ s'.stage i = .bound .ok ∧ (s'.th t).pc.back) ∨
    (s.stage i = .asleep ∧ s'.stage i = .bound .cancelled ∧
      ∃ w e, (s.th t).pc = .sigResume w e true) := by
  have asleep : ∀ {w p}, (s.th t).pc = p → w ∈ p.hand → s.stage w.party = .asleep := by
    intro w p e hw
    simp only [St.stage, Thread.stage, inv.parked e hw]
  cases st with
  | put _ he =>
    rw [he, St.stage_putBack ne nn mx]
    split
    · next e => exact .inr (.inl ⟨.inl e, rfl, by simp [St.putBack, Pc.back]⟩)
    · exact .inl rfl
  | pop _ _ _ _ he | test _ _ _ he =>
    refine .inl (St.stage_congr ?_ ?_)
    · simp [he, ne]
    · rw [he]
      rfl
  | write w e k h he =>
    rw [he]
    exact .inl (St.stage_writeSlot ne (inv.parked h (List.mem_singleton_self w)))
  | grant w e h he =>
    have hw : w ∈ (Pc.sigResume w e false).hand := List.mem_singleton_self w
    have nw := inv.ne_of_hand h hw
    have kn := inv.knows h hw
    rw [he, St.stage_grant ne nw]
    split
    · next ei =>
      subst ei
      refine .inr (.inl ⟨.inr (asleep h hw), ?_, ?_⟩)
      · rw [show (s.th w.party).slot = .ok from kn.1.2.2]
        simp
      · simp [St.grant_eq nw, Pc.back]
    · exact .inl rfl
  | skip w e h he =>
    have hw : w ∈ (Pc.sigResume w e true).hand := List.mem_singleton_self w
    have nw := inv.ne_of_hand h hw
    have kn := inv.knows h hw
    rw [he, St.stage_resume ne nw]
    split
    · next ei =>
      subst ei
      refine .inr (.inr ⟨asleep h hw, ?_, w, e, h⟩)
      rw [show (s.th w.party).slot = .cancelled from kn.1.2.2, if_pos (kn.2 rfl)]
    · exact .inl rfl

/-- A `CancelWaiters` leaves the stage of a waiting party, or binds it. -/
lemma CancelStep.stage (inv : Inv s) (st : CancelStep c s t s') (ne : i ≠ t) :
    s'.stage i = s.stage i ∨ (s.stage i = .asleep ∧ s'.stage i = .bound .cancelled) := by
  cases st with
  | pass tok h he =>
    refine .inl (St.stage_congr ?_ ?_)
    · simp [he, ne]
    · rw [he]
      rfl
  | write tok w ws f h he =>
    rw [he]
    exact .inl (St.stage_writeSlot ne (inv.parked h List.mem_cons_self))
  | resume tok w ws f h he =>
    have hw : w ∈ (Pc.canResume tok w ws f).hand := List.mem_cons_self
    have nw := inv.ne_of_hand h hw
    have kn := inv.knows h hw
    rw [he, St.stage_resume ne nw]
    split
    · next ei =>
      subst ei
      refine .inr ⟨?_, ?_⟩
      · simp only [St.stage, Thread.stage, inv.parked h hw]
      · have hs : (s.th w.party).slot = .cancelled := by simpa using kn.1.2.2
        rw [hs, if_pos kn.2]
    · exact .inl rfl

omit [DecidableEq T] in
/-- A pass of `CancelWaiters` after which the call is over took nobody. -/
lemma Pc.victims_of_back {tok : CancelToken} {f : Bool} {ws : List (Waiter T)}
    (h : (Pc.canNext tok f ws).back) : ws = [] := by
  cases ws with
  | nil => rfl
  | cons w ws => cases h

omit [DecidableEq T] in
/-- Who is asleep is switched out. -/
lemma Thread.parked_of_asleep {h : Thread T} {n : Int}
    (e : h.stage n = .asleep) : ∃ b, h.pc = .parked b := by
  unfold Thread.stage at e
  split at e
  · exact ⟨_, ‹_›⟩
  · cases e
  · cases e
  · split at e <;> cases e

end Stage
end JLib.Semaphore
