import JLib.IoAcceptor.Sockets

/-!
# Waiters

A waiter is queued only while `ready` is empty, and who takes it out of the queue pushes its task.
`TakeOrQueue` checks the token before it takes the lock, and not again under it: a token that is cancelled in
between, together with a `CancelWaiters` that goes through the queue in between, leaves the waiter queued. If
no waiter is queued behind such a call, and no call returns while another thread is still to push a waiter
that it is about, every waiter that was cancelled and ejected is out of the queue and was resumed once.
-/

namespace JLib.IoAcceptor
open LTS Io

variable {θ ω κ : Type} {within : κ → κ → Bool} {s s' : State θ ω κ}
  {t : θ} {w : ω} {x : κ}

/-! ## Where a waiter is -/

inductive Spot (θ : Type) where
  | queue
  | handler
  | thread (t : θ)
  deriving DecidableEq

def Handler.waiters : Handler ω → List ω
  | .kept _ _ handTo skipped => handTo.toList ++ skipped
  | _ => []

/-- The waiters a call of `CancelWaiters` has still to resume. -/
def Pc.taken : Pc ω κ → List ω
  | .resume _ _ taken => taken
  | _ => []

def Pc.waiters : Pc ω κ → List ω
  | .checked w _ => [w]
  | .resume _ _ taken => taken
  | _ => []

namespace State

def waiters (s : State θ ω κ) : Spot θ → List ω
  | .queue => s.queue
  | .handler => s.handler.waiters
  | .thread t => (s.pc t).waiters

/-- The waiter was taken out of the queue and is still to be pushed. -/
def Dequeued (s : State θ ω κ) (w : ω) : Prop := w ∈ s.handler.waiters ∨ ∃ t, w ∈ (s.pc t).taken

end State

/-- What the loop of `OnComplete` takes out of the queue, and what it leaves. -/
lemma skipCancelled_perm (p : ω → Bool) (l skipped : List ω) :
    ((skipCancelled p l skipped).2.1 ++
      ((skipCancelled p l skipped).1.toList ++ (skipCancelled p l skipped).2.2)).Perm (l ++ skipped) := by
  induction l generalizing skipped with
  | nil => exact .refl _
  | cons w l ih =>
    unfold skipCancelled
    split
    · exact (ih (w :: skipped)).trans List.perm_middle
    · exact List.perm_middle

/-- Nobody is left if nobody is found. -/
lemma skipCancelled_none (p : ω → Bool) (l skipped : List ω) (h : (skipCancelled p l skipped).1 = none) :
    (skipCancelled p l skipped).2.1 = [] := by
  induction l generalizing skipped with
  | nil => rfl
  | cons w l ih =>
    unfold skipCancelled at h ⊢
    split at h
    · rename_i hp
      rw [if_pos hp]
      exact ih _ h
    · cases h

/-- What the critical section of `OnComplete` does to the waiters. -/
lemma hand_waiters (s : State θ ω κ) (i fd : Nat) :
    ((s.hand i fd).queue ++ (s.hand i fd).handler.waiters).Perm s.queue ∧
      ((s.hand i fd).ready ≠ s.ready → (s.hand i fd).queue = []) := by
  have perm := skipCancelled_perm (fun w => s.isCancelled (s.token w)) s.queue []
  have none := skipCancelled_none (fun w => s.isCancelled (s.token w)) s.queue []
  rw [List.append_nil] at perm
  unfold State.hand
  split
  · rename_i l skipped e
    rw [e] at perm none
    exact ⟨perm, fun _ => none rfl⟩
  · rename_i w' l skipped e
    rw [e] at perm
    exact ⟨perm, fun ne => absurd rfl ne⟩

/-- A waiter in use is at one place. One that was queued is there, or was pushed once. -/
structure Waiting (s : State θ ω κ) : Prop where
  custody : Custody s.waiters
  live : ∀ {q w}, w ∈ s.waiters q → s.live w = true
  checked : ∀ {t w k}, s.pc t = .checked w k → s.suspended w = false
  unpushed : ∀ {q w}, w ∈ s.waiters q → s.suspended w = true → s.pushes w = 0
  done : ∀ {w}, s.suspended w = true → (∃ q, w ∈ s.waiters q) ∨ s.pushes w = 1

/-- A thread's step changes what waiters it has. -/
lemma waiters_setPc [DecidableEq θ] (s : State θ ω κ) (t : θ) (c : Pc ω κ) :
    (s.setPc t c).waiters = Function.update s.waiters (.thread t) c.waiters := by
  funext q
  cases q with
  | thread t' =>
    change (Function.update s.pc t c t').waiters = _
    by_cases e : t' = t
    · rw [e, Function.update_self, Function.update_self]
    · rw [Function.update_of_ne e, Function.update_of_ne (by rintro ⟨⟩; exact e rfl)]
      rfl
  | queue | handler => rfl

/-- A thread that checks a waiter does so still, or has just begun. -/
lemma checked_setPc [DecidableEq θ] {t' : θ} {c : Pc ω κ} {k : Option κ} (h : (s.setPc t' c).pc t = .checked w k) :
    c = .checked w k ∨ s.pc t = .checked w k := by
  change Function.update s.pc t' c t = _ at h
  by_cases e : t = t'
  · rw [e, Function.update_self] at h
    exact .inl h
  · rw [Function.update_of_ne e] at h
    exact .inr h

namespace Waiting

/-- Waiters stay or change place. -/
lemma move (wt : Waiting s) (cus : Custody s'.waiters)
    (mem : ∀ w, (∃ q, w ∈ s'.waiters q) ↔ ∃ q, w ∈ s.waiters q)
    (hc : ∀ {t w k}, s'.pc t = .checked w k → s.pc t = .checked w k) (hl : s'.live = s.live)
    (hs : s'.suspended = s.suspended) (hu : s'.pushes = s.pushes) : Waiting s' := by
  refine ⟨cus, fun {q w} h => ?_, fun h => ?_, fun {q w} h => ?_, fun {w} h => ?_⟩
  · obtain ⟨q, h⟩ := (mem w).1 ⟨q, h⟩
    rw [hl]
    exact wt.live h
  · rw [hs]
    exact wt.checked (hc h)
  · obtain ⟨q, h⟩ := (mem w).1 ⟨q, h⟩
    rw [hs, hu]
    exact wt.unpushed h
  · rw [hs] at h
    rw [mem w, hu]
    exact wt.done h

/-- No waiter moves. -/
lemma keep (wt : Waiting s) (hw : ∀ q, s'.waiters q = s.waiters q)
    (hc : ∀ {t w k}, s'.pc t = .checked w k → s.pc t = .checked w k) (hl : s'.live = s.live)
    (hs : s'.suspended = s.suspended) (hu : s'.pushes = s.pushes) : Waiting s' := by
  refine wt.move (wt.custody.congr hw) (fun w => ?_) hc hl hs hu
  simp only [hw]

variable [DecidableEq θ]

/-- A thread goes on, and holds the same waiters. -/
lemma setPc {c : Pc ω κ} (wt : Waiting s) (hw : ∀ q, s'.waiters q = s.waiters q) (hp : s'.pc = s.pc)
    (hl : s'.live = s.live) (hs : s'.suspended = s.suspended) (hu : s'.pushes = s.pushes)
    (hc : c.waiters = (s.pc t).waiters) (ne : ∀ w k, c ≠ .checked w k) : Waiting (s'.setPc t c) := by
  refine wt.keep (fun q => ?_) (fun {t' w k} h => ?_) hl hs hu
  · rw [waiters_setPc, hc]
    by_cases e : q = .thread t
    · rw [e, Function.update_self]
      rfl
    · rw [Function.update_of_ne e, hw]
  · rcases checked_setPc h with h | h
    · exact absurd h (ne w k)
    · rw [hp] at h
      exact h

variable [DecidableEq ω]

/-- A waiter leaves its place, answered at once or pushed. -/
lemma leave {q : Spot θ} (wt : Waiting s) (mine : (s.waiters q).Perm (w :: s'.waiters q))
    (frame : ∀ q', q' ≠ q → s'.waiters q' = s.waiters q')
    (hc : ∀ {t w k}, s'.pc t = .checked w k → s.pc t = .checked w k)
    (hl : s'.live = Function.update s.live w false) (hs : s'.suspended = s.suspended)
    (hu : s'.pushes = Function.update s.pushes w (s.pushes w + 1) ∨
      (s'.pushes = s.pushes ∧ s.suspended w = false)) : Waiting s' := by
  have gone : ∀ q', w ∉ s'.waiters q' := by
    intro q' h
    by_cases e : q' = q
    · have nd := mine.nodup_iff.1 (wt.custody.nodup q)
      exact (List.nodup_cons.1 nd).1 (e ▸ h)
    · rw [frame q' e] at h
      exact e (wt.custody.unique h (mine.symm.subset List.mem_cons_self))
  have was : ∀ {q' w'}, w' ∈ s'.waiters q' → w' ∈ s.waiters q' := by
    intro q' w' h
    by_cases e : q' = q
    · rw [e] at h ⊢
      exact mine.symm.subset (List.mem_cons_of_mem _ h)
    · rw [frame q' e] at h
      exact h
  have other : ∀ {w'}, w' ≠ w → s'.pushes w' = s.pushes w' := by
    intro w' ne
    rcases hu with hu | ⟨hu, -⟩
    · rw [hu, Function.update_of_ne ne]
    · rw [hu]
  refine ⟨?_, fun {q' w'} h => ?_, fun h => ?_, fun {q' w'} h susp => ?_, fun {w'} susp => ?_⟩
  · refine wt.custody.shrink frame ?_
    exact (List.sublist_cons_self ..).subperm.trans mine.symm.subperm
  · rw [hl, Function.update_of_ne (by rintro rfl; exact gone _ h)]
    exact wt.live (was h)
  · rw [hs]
    exact wt.checked (hc h)
  · rw [other (by rintro rfl; exact gone _ h)]
    rw [hs] at susp
    exact wt.unpushed (was h) susp
  · rw [hs] at susp
    by_cases e : w' = w
    · subst e
      rcases hu with hu | ⟨-, free⟩
      · rw [hu, Function.update_self, wt.unpushed (mine.symm.subset List.mem_cons_self) susp]
        exact .inr rfl
      · rw [free] at susp
        cases susp
    · rw [other e]
      rcases wt.done susp with ⟨q', h⟩ | h
      · refine .inl ⟨q', ?_⟩
        by_cases e' : q' = q
        · rw [e'] at h ⊢
          exact (List.mem_cons.1 (mine.subset h)).resolve_left e
        · rw [frame q' e']
          exact h
      · exact .inr h

/-- A thread answers or pushes the first of its waiters. -/
lemma pop {c : Pc ω κ} (wt : Waiting s) (mine : (s.pc t).waiters = w :: c.waiters)
    (hw : ∀ q, s'.waiters q = s.waiters q) (hp : s'.pc = s.pc) (ne : ∀ w k, c ≠ .checked w k)
    (hl : s'.live = Function.update s.live w false) (hs : s'.suspended = s.suspended)
    (hu : s'.pushes = Function.update s.pushes w (s.pushes w + 1) ∨
      (s'.pushes = s.pushes ∧ s.suspended w = false)) : Waiting (s'.setPc t c) := by
  refine wt.leave (q := .thread t) ?_ (fun q hq => ?_) (fun {t' w' k} h => ?_) hl hs hu
  · rw [waiters_setPc, Function.update_self]
    change ((s.pc t).waiters).Perm _
    rw [mine]
  · rw [waiters_setPc, Function.update_of_ne hq, hw]
  · rcases checked_setPc h with h | h
    · exact absurd h (ne w' k)
    · rw [hp] at h
      exact h

omit [DecidableEq θ] [DecidableEq ω] in
/-- A waiter that is not in use is nowhere. -/
lemma nowhere (wt : Waiting s) (free : s.live w = false) (q : Spot θ) : w ∉ s.waiters q := by
  intro h
  rw [wt.live h] at free
  cases free

omit [DecidableEq θ] in
/-- `TakeOrQueue` begins, and is answered by the check of the token. -/
lemma refused (wt : Waiting s) (free : s.live w = false) :
    Waiting { s.answer w 0 with suspended := Function.update s.suspended w false } := by
  have ne : ∀ {q w'}, w' ∈ s.waiters q → w' ≠ w := by
    rintro q w' h rfl
    exact wt.nowhere free q h
  have hw : ∀ q, ({ s.answer w 0 with suspended := Function.update s.suspended w false } : State θ ω κ).waiters q =
      s.waiters q := by rintro (_ | _) <;> rfl
  refine ⟨wt.custody.congr hw, fun {q w'} h => ?_, fun {t w' k} h => ?_, fun {q w'} h susp => ?_,
    fun {w'} susp => ?_⟩
  · rw [hw] at h
    exact (Function.update_of_ne (ne h) ..).trans (wt.live h)
  · change Function.update s.suspended w false w' = false
    rw [Function.update_apply]
    split
    · rfl
    · exact wt.checked h
  · rw [hw] at h
    change Function.update s.suspended w false w' = true at susp
    rw [Function.update_of_ne (ne h)] at susp
    exact wt.unpushed h susp
  · change Function.update s.suspended w false w' = true at susp
    rw [Function.update_apply] at susp
    split at susp
    · cases susp
    · simp only [hw]
      exact wt.done susp

/-- `TakeOrQueue` begins, and the token is not cancelled. -/
lemma check {k : Option κ} (wt : Waiting s) (idle : s.pc t = .idle) (free : s.live w = false) :
    Waiting ({ s with
      live := Function.update s.live w true
      suspended := Function.update s.suspended w false }.setPc t (.checked w k)) := by
  have empty : s.waiters (.thread t) = [] := by
    change (s.pc t).waiters = []
    rw [idle]
    rfl
  have hw := waiters_setPc ({ s with
    live := Function.update s.live w true
    suspended := Function.update s.suspended w false }) t (.checked w k)
  have same : ({ s with
    live := Function.update s.live w true
    suspended := Function.update s.suspended w false } : State θ ω κ).waiters = s.waiters := by
    funext q
    cases q <;> rfl
  rw [same] at hw
  have mem : ∀ {q w'}, w' ∈ Function.update s.waiters (.thread t) [w] q → w' = w ∨ w' ∈ s.waiters q := by
    intro q w' h
    by_cases e : q = .thread t
    · rw [e, Function.update_self] at h
      exact .inl (List.mem_singleton.1 h)
    · rw [Function.update_of_ne e] at h
      exact .inr h
  refine ⟨?_, fun {q w'} h => ?_, fun {t' w' k'} h => ?_, fun {q w'} h susp => ?_, fun {w'} susp => ?_⟩
  · rw [hw]
    refine wt.custody.put (wt.nowhere free) (fun q hq => Function.update_of_ne hq ..) ?_
    rw [Function.update_self, empty]
    exact .refl _
  · rw [hw] at h
    change Function.update s.live w true w' = true
    rw [Function.update_apply]
    split
    · rfl
    · rename_i ne
      exact wt.live ((mem h).resolve_left ne)
  · change Function.update s.suspended w false w' = false
    rw [Function.update_apply]
    split
    · rfl
    · rename_i ne
      rcases checked_setPc h with h | h
      · cases h
        exact absurd rfl ne
      · exact wt.checked h
  · rw [hw] at h
    change Function.update s.suspended w false w' = true at susp
    rw [Function.update_apply] at susp
    split at susp
    · cases susp
    · rename_i ne
      exact wt.unpushed ((mem h).resolve_left ne) susp
  · change Function.update s.suspended w false w' = true at susp
    rw [Function.update_apply] at susp
    split at susp
    · cases susp
    · rw [hw]
      rcases wt.done susp with ⟨q, h⟩ | h
      · refine .inl ⟨q, ?_⟩
        by_cases e : q = .thread t
        · rw [e, empty] at h
          cases h
        · rw [Function.update_of_ne e]
          exact h
      · exact .inr h

/-- `TakeOrQueue` queues its waiter. -/
lemma enqueue {k : Option κ} (wt : Waiting s) (h : s.pc t = .checked w k) :
    Waiting ((s.enqueue w k).setPc t .idle) := by
  have mine : s.waiters (.thread t) = [w] := by
    change (s.pc t).waiters = [w]
    rw [h]
    rfl
  have mv : Custody.Moved s.waiters ((s.enqueue w k).setPc t .idle).waiters := by
    refine ⟨.thread t, .queue, by rintro ⟨⟩, fun q hq hq' => ?_, ?_⟩
    · rw [waiters_setPc, Function.update_of_ne hq]
      cases q with
      | queue => exact absurd rfl hq'
      | handler | thread => rfl
    · rw [waiters_setPc, Function.update_self, Function.update_of_ne (by rintro ⟨⟩), mine]
      exact List.perm_append_singleton ..
  obtain ⟨p, q, ne, frame, perm⟩ := id mv
  refine ⟨wt.custody.move ne frame perm.subperm, fun {q w'} h => ?_, fun {t' w' k'} h' => ?_,
    fun {q w'} h' susp => ?_, fun {w'} susp => ?_⟩
  · obtain ⟨q, h⟩ := mv.mem.1 ⟨q, h⟩
    exact wt.live h
  · rcases checked_setPc h' with e | e
    · cases e
    · have there : w' ∈ s.waiters (.thread t') := by
        change w' ∈ (s.pc t').waiters
        rw [show s.pc t' = _ from e]
        exact List.mem_cons_self
      have ne : w' ≠ w := by
        rintro rfl
        cases wt.custody.unique there (q := .thread t) (by rw [mine]; exact List.mem_cons_self)
        change Function.update s.pc t .idle t = _ at h'
        rw [Function.update_self] at h'
        cases h'
      exact (Function.update_of_ne ne ..).trans (wt.checked e)
  · change Function.update s.pushes w 0 w' = 0
    rw [Function.update_apply]
    split
    · rfl
    · rename_i ne
      change Function.update s.suspended w true w' = true at susp
      rw [Function.update_of_ne ne] at susp
      obtain ⟨q, h⟩ := mv.mem.1 ⟨q, h'⟩
      exact wt.unpushed h susp
  · rw [mv.mem]
    by_cases e : w' = w
    · subst e
      exact .inl ⟨.thread t, by rw [mine]; exact List.mem_cons_self⟩
    · change Function.update s.suspended w true w' = true at susp
      rw [Function.update_of_ne e] at susp
      change _ ∨ Function.update s.pushes w 0 w' = 1
      rw [Function.update_of_ne e]
      exact wt.done susp

end Waiting

/-- `SubmitAccept` leaves the waiters. -/
lemma dropMade_waiting (i : Nat) :
    (∀ q, (s.dropMade i).waiters q = s.waiters q) ∧ (s.dropMade i).pc = s.pc ∧ (s.dropMade i).live = s.live ∧
      (s.dropMade i).suspended = s.suspended ∧ (s.dropMade i).pushes = s.pushes := by
  unfold State.dropMade
  split
  · exact ⟨by rintro (_ | _) <;> rfl, rfl, rfl, rfl, rfl⟩
  · exact ⟨by rintro (_ | _) <;> rfl, rfl, rfl, rfl, rfl⟩

/-- The critical section of `OnComplete` leaves the threads and what was pushed. -/
lemma hand_waiting (s : State θ ω κ) (i fd : Nat) :
    (s.hand i fd).pc = s.pc ∧ (s.hand i fd).live = s.live ∧
      (s.hand i fd).suspended = s.suspended ∧ (s.hand i fd).pushes = s.pushes ∧ (s.hand i fd).token = s.token := by
  unfold State.hand
  split <;> exact ⟨rfl, rfl, rfl, rfl, rfl⟩

variable [DecidableEq θ] [DecidableEq ω]

/-- A step keeps every waiter in use at one place. -/
lemma Step.waiting {l : Label θ ω κ} (st : Step within s l s') (wt : Waiting s) : Waiting s' := by
  have same : ∀ q, s.waiters q = s.waiters q := fun _ => rfl
  cases st with
  | @submit p i | @submitAnswered p i =>
    obtain ⟨hw, hp, hl, hs, hu⟩ := dropMade_waiting (s := s) i
    exact wt.keep hw (fun h => hp ▸ h) hl hs hu
  | completeAccepted _ h | completeFailed _ h =>
    refine wt.keep (fun q => ?_) id rfl rfl rfl
    cases q with
    | handler =>
      change [] = s.handler.waiters
      rw [h]
      rfl
    | queue | thread => rfl
  | unkeep h | closeUnkept h | noneUnkept h | repost h =>
    refine wt.keep (fun q => ?_) id rfl rfl rfl
    cases q with
    | handler =>
      change [] = s.handler.waiters
      rw [h]
      rfl
    | queue | thread => rfl
  | @keep i fd h =>
    obtain ⟨hp, hl, hs, hu, -⟩ := hand_waiting s i fd
    have mv : Custody.Moved s.waiters (s.hand i fd).waiters := by
      refine ⟨.queue, .handler, by rintro ⟨⟩, fun q hq hq' => ?_, ?_⟩
      · cases q with
        | queue => exact absurd rfl hq
        | handler => exact absurd rfl hq'
        | thread t => exact congrArg (fun f => (f t).waiters) hp
      · refine (hand_waiters s i fd).1.trans ?_
        change s.queue.Perm (s.queue ++ s.handler.waiters)
        rw [h]
        exact (List.append_nil _).symm ▸ .refl _
    obtain ⟨p, q, ne, frame, perm⟩ := id mv
    exact wt.move (wt.custody.move ne frame perm.subperm) (fun w => mv.mem) (fun h => hp ▸ h) hl hs hu
  | @handTo i fd w skipped h | @wakeSkipped i fd w skipped h =>
    refine wt.leave (q := .handler) ?_ (fun q hq => ?_) id rfl rfl (.inl rfl)
    · change s.handler.waiters.Perm _
      rw [h]
      exact .refl _
    · cases q with
      | handler => exact absurd rfl hq
      | queue | thread => rfl
  | checkCancelled _ _ free => exact wt.refused free
  | check _ idle free => exact wt.check idle free
  | takeReady h | takeStopping h =>
    refine wt.pop (by rw [h]; rfl) (by rintro (_ | _) <;> rfl) rfl (by rintro w k ⟨⟩) rfl rfl ?_
    exact .inr ⟨rfl, wt.checked h⟩
  | takeQueue h => exact wt.enqueue h
  | @sweep t stop token h =>
    have mv : Custody.Moved s.waiters ((s.sweep within t token).setPc t
        (.resume stop token (s.queue.filter fun w => selects within token (s.token w)))).waiters := by
      refine ⟨.queue, .thread t, by rintro ⟨⟩, fun q hq hq' => ?_, ?_⟩
      · rw [waiters_setPc, Function.update_of_ne hq']
        cases q with
        | queue => exact absurd rfl hq
        | handler | thread => rfl
      · rw [waiters_setPc, Function.update_self, Function.update_of_ne (by rintro ⟨⟩)]
        change ((s.queue.filter fun w => !selects within token (s.token w)) ++
          s.queue.filter fun w => selects within token (s.token w)).Perm (s.queue ++ (s.pc t).waiters)
        rw [h]
        refine (List.perm_append_comm.trans (List.filter_append_perm ..)).trans ?_
        exact (List.append_nil _).symm ▸ .refl _
    obtain ⟨p, q, ne, frame, perm⟩ := id mv
    refine wt.move (wt.custody.move ne frame perm.subperm) (fun w => mv.mem) (fun {t' w' k} h' => ?_) rfl rfl rfl
    rcases checked_setPc h' with h' | h'
    · cases h'
    · exact h'
  | resume h =>
    exact wt.pop (by rw [h]; rfl) (by rintro (_ | _) <;> rfl) rfl (by rintro w k ⟨⟩) rfl rfl (.inl rfl)
  | cancelWaiters _ h | stop _ h =>
    exact wt.setPc (by rintro (_ | _) <;> rfl) rfl rfl rfl rfl (by rw [h]; rfl) (by rintro w k ⟨⟩)
  | finish h | stopReleased h | stopScope h | drained h | timeLimit h | leftovers h | stopReturns h =>
    exact wt.setPc (by rintro (_ | _) <;> rfl) rfl rfl rfl rfl (by rw [h]; rfl) (by rintro w k ⟨⟩)
  | _ => exact wt.keep (by rintro (_ | _) <;> rfl) id rfl rfl rfl

/-- In every state of a run a waiter in use is at one place. -/
lemma Waiting.of_runs {depth : Nat} {ok : State θ ω κ → Label θ ω κ → Prop}
    (rn : Runs (Step within) ok (.init depth) s) : Waiting s := by
  refine rn.invariant (I := Waiting) ⟨.empty ?_, ?_, ?_, ?_, ?_⟩ fun wt _ st => st.waiting wt
  · rintro (_ | _) <;> rfl
  · rintro (_ | _) w ⟨⟩
  · rintro t w k ⟨⟩
  · rintro (_ | _) w ⟨⟩
  · rintro w ⟨⟩

end JLib.IoAcceptor
