import JLib.IoAcceptor.Sockets

/-!
# Teardown

`Stop` waits until `outstanding` is zero, and then the acceptor may be deleted. `OnComplete` counts its accept
out before it is done, and counts the next one in when it has come to `Post`; so the count is zero while a
handler still has work to do. It is zero too while the ring holds an accept whose enter failed. If no handler
runs when `Stop` reads zero, and no enter of an accept has failed, none runs ever after.
-/

namespace JLib.IoAcceptor
open LTS Io

variable {θ ω κ : Type} {within : κ → κ → Bool} {s s' : State θ ω κ} {t : θ}

/-! ## What is counted -/

/-- The weights of what the two parties do in `Post`. -/
def State.posting (w : Option (Nat × Post) → Nat) (s : State θ ω κ) : Nat := w (s.post .starter) + w (s.post .loop)

/-- A party goes on, and its weight is exchanged. -/
lemma posting_setPost (w : Option (Nat × Post) → Nat) (s : State θ ω κ) (p : Party) (c : Option (Nat × Post)) :
    (s.setPost p c).posting w + w (s.post p) = s.posting w + w c := by
  change w (Function.update s.post p c .starter) + w (Function.update s.post p c .loop) + w (s.post p) = _
  unfold State.posting
  cases p with
  | starter =>
    rw [Function.update_self, Function.update_of_ne (by rintro ⟨⟩)]
    omega
  | loop =>
    rw [Function.update_self, Function.update_of_ne (by rintro ⟨⟩)]
    omega

/-- `OnComplete` has not counted its accept out yet. -/
def Handler.counted : Handler ω → Nat
  | .entered _ _ _ => 1
  | _ => 0

/-- `Post` has counted its accept in. -/
def postCounted : Option (Nat × Post) → Nat
  | some (_, .submit) => 1
  | some (_, .publish) => 1
  | some (_, .undo) => 1
  | _ => 0

/-- The accepts that were submitted or are about to be, with those that were left in the ring. -/
def State.begun (s : State θ ω κ) : Nat :=
  s.posted.length + s.stale.length + s.handler.counted + s.posting postCounted

/-- `outstanding` falls behind by one with each accept that was left in the ring. -/
def Counted (s : State θ ω κ) : Prop := s.outstanding + s.failed = s.begun

namespace Counted

/-- A party goes on in `Post`. -/
lemma setPost {p : Party} {c : Option (Nat × Post)} (ct : Counted s) (hp : s'.post = s.post)
    (hh : s'.handler = s.handler)
    (bal : s'.outstanding + s'.failed + s.posted.length + s.stale.length + postCounted (s.post p) =
      s.outstanding + s.failed + s'.posted.length + s'.stale.length + postCounted c) :
    Counted (s'.setPost p c) := by
  have sum := posting_setPost postCounted s' p c
  have same : s'.posting postCounted = s.posting postCounted := by
    unfold State.posting
    rw [hp]
  rw [hp, same] at sum
  unfold Counted State.begun at ct ⊢
  change s'.outstanding + s'.failed =
    (s'.posted.length + s'.stale.length + s'.handler.counted + (s'.setPost p c).posting postCounted : Nat)
  rw [hh]
  omega

/-- Nobody moves in `Post`. -/
lemma pass (ct : Counted s) (hp : s'.post = s.post)
    (bal : s'.outstanding + s'.failed + s.posted.length + s.stale.length + s.handler.counted =
      s.outstanding + s.failed + s'.posted.length + s'.stale.length + s'.handler.counted) :
    Counted s' := by
  unfold Counted State.begun State.posting at ct ⊢
  rw [hp]
  omega

end Counted

/-- The critical section of `OnComplete` counts the accept out. -/
lemma hand_counted (s : State θ ω κ) (i fd : Nat) :
    (s.hand i fd).outstanding = s.outstanding - 1 ∧ (s.hand i fd).handler.counted = 0 ∧
      (s.hand i fd).stale = s.stale ∧ (s.hand i fd).failed = s.failed := by
  unfold State.hand
  split <;> exact ⟨rfl, rfl, rfl, rfl⟩

/-- `SubmitAccept` counts nothing before it submits. -/
lemma dropMade_counted (s : State θ ω κ) (i : Nat) :
    (s.dropMade i).outstanding = s.outstanding ∧ (s.dropMade i).stale = s.stale ∧
      (s.dropMade i).failed = s.failed := by
  unfold State.dropMade
  split <;> exact ⟨rfl, rfl, rfl⟩

/-- `SubmitAccept` leaves the slots that are still to be posted. -/
lemma dropMade_todo (s : State θ ω κ) (i : Nat) : (s.dropMade i).todo = s.todo := by
  unfold State.dropMade
  split <;> rfl

/-- The critical section of `OnComplete` leaves the slots that are still to be posted. -/
lemma hand_todo (s : State θ ω κ) (i fd : Nat) : (s.hand i fd).todo = s.todo := by
  unfold State.hand
  split <;> rfl

/-- A step keeps the count. -/
lemma Step.counted [DecidableEq θ] [DecidableEq ω] {l : Label θ ω κ} (st : Step within s l s') (al : Alone s)
    (ct : Counted s) : Counted s' := by
  cases st with
  | startPost _ h => exact ct.setPost rfl rfl (by rw [h]; rfl)
  | make h | makeFails h | publishFull h | close h => exact ct.setPost rfl rfl (by rw [h]; rfl)
  | count h | undo h =>
    refine ct.setPost rfl rfl ?_
    simp only [h, postCounted]
    omega
  | submit h | submitAnswered h =>
    obtain ⟨-, hk, hp, -, -, -, hh, -⟩ := dropMade_frame s _
    obtain ⟨ho, hs, hf⟩ := dropMade_counted s _
    exact ct.setPost hp hh (by rw [h, hk, ho, hs, hf]; rfl)
  | publish h | publishFails h =>
    refine ct.setPost rfl rfl ?_
    simp only [h, postCounted, List.length_cons]
    omega
  | consume mem =>
    refine ct.pass rfl ?_
    have := List.length_erase_of_mem mem
    have := List.length_pos_of_mem mem
    simp only [List.length_cons]
    omega
  | completeAccepted mem idle | completeFailed mem idle =>
    refine ct.pass rfl ?_
    have := List.length_erase_of_mem mem
    have := List.length_pos_of_mem mem
    simp only [idle, Handler.counted]
    omega
  | @keep i fd h =>
    obtain ⟨-, hk, hp, -⟩ := hand_frame s i fd
    obtain ⟨ho, hc, hs, hf⟩ := hand_counted s i fd
    refine ct.pass hp ?_
    rw [hk, ho, hc, hs, hf, h]
    simp only [Handler.counted]
    omega
  | unkeep h =>
    refine ct.pass rfl ?_
    simp only [h, Handler.counted]
    omega
  | closeUnkept h | noneUnkept h | handTo h | wakeSkipped h => exact ct.pass rfl (by rw [h]; rfl)
  | repost h =>
    have mid : Counted { s with handler := .idle } := ct.pass rfl (by rw [h]; rfl)
    refine mid.setPost rfl rfl ?_
    change _ + _ + _ + _ + (postCounted (s.post .loop) : Int) = _
    rw [al (by rw [h]; rintro ⟨⟩)]
    rfl
  | _ => exact ct.pass rfl rfl

/-- The count is kept in every state of a run. -/
lemma Counted.of_runs [DecidableEq θ] [DecidableEq ω] {depth : Nat} {ok : State θ ω κ → Label θ ω κ → Prop}
    (rn : Runs (Step within) ok (.init depth) s) : Counted s := by
  induction rn with
  | refl => rfl
  | tail rn _ st ih => exact st.counted (alone_of_runs rn) ih

/-! ## How many accepts there are -/

/-- The slot of the handler is in use until it is posted again or given up. -/
def Handler.spent : Handler ω → Nat
  | .entered _ _ _ => 1
  | .kept _ _ _ _ => 1
  | _ => 0

/-- The slot of a party is in use until its accept is answered at once. -/
def postSpent : Option (Nat × Post) → Nat
  | none => 0
  | some (_, .undo) => 0
  | some (_, .close) => 0
  | _ => 1

/-- There are at most as many accepts as slots. -/
def Fits (depth : Nat) (s : State θ ω κ) : Prop :=
  s.todo.length + s.posted.length + s.stale.length + s.handler.spent + s.posting postSpent ≤ depth

namespace Fits

variable {depth : Nat}

/-- A party goes on in `Post`. -/
lemma setPost {p : Party} {c : Option (Nat × Post)} (ft : Fits depth s) (hp : s'.post = s.post)
    (hh : s'.handler = s.handler)
    (bal : s'.todo.length + s'.posted.length + s'.stale.length + postSpent c ≤
      s.todo.length + s.posted.length + s.stale.length + postSpent (s.post p)) : Fits depth (s'.setPost p c) := by
  have sum := posting_setPost postSpent s' p c
  have same : s'.posting postSpent = s.posting postSpent := by
    unfold State.posting
    rw [hp]
  rw [hp, same] at sum
  unfold Fits at ft ⊢
  change s'.todo.length + s'.posted.length + s'.stale.length + s'.handler.spent +
    (s'.setPost p c).posting postSpent ≤ _
  rw [hh]
  omega

/-- Nobody moves in `Post`. -/
lemma pass (ft : Fits depth s) (hp : s'.post = s.post) (ht : s'.todo = s.todo)
    (bal : s'.posted.length + s'.stale.length + s'.handler.spent ≤
      s.posted.length + s.stale.length + s.handler.spent) : Fits depth s' := by
  unfold Fits State.posting at ft ⊢
  rw [hp, ht]
  omega

end Fits

/-- The handler has its slot after the critical section. -/
lemma hand_spent (s : State θ ω κ) (i fd : Nat) : (s.hand i fd).handler.spent = 1 := by
  unfold State.hand
  split <;> rfl

variable [DecidableEq θ]

/-- A step makes no accept without a slot. -/
lemma Step.fits [DecidableEq ω] {depth : Nat} {l : Label θ ω κ} (st : Step within s l s') (al : Alone s)
    (ft : Fits depth s) : Fits depth s' := by
  cases st with
  | startPost ht h =>
    refine ft.setPost rfl rfl ?_
    simp only [h, ht, postSpent, List.length_cons]
    omega
  | make h | makeFails h | count h | publishFull h | undo h | close h =>
    refine ft.setPost rfl rfl ?_
    rw [h]
    exact Nat.add_le_add_left (Nat.le_of_ble_eq_true rfl) _
  | submit h | submitAnswered h =>
    obtain ⟨-, hk, hp, -, -, -, hh, -⟩ := dropMade_frame s _
    obtain ⟨-, hs, -⟩ := dropMade_counted s _
    refine ft.setPost hp hh ?_
    rw [h, hk, hs, dropMade_todo]
    exact Nat.add_le_add_left (Nat.le_of_ble_eq_true rfl) _
  | publish h | publishFails h =>
    refine ft.setPost rfl rfl ?_
    simp only [h, postSpent, List.length_cons]
    omega
  | consume mem =>
    refine ft.pass rfl rfl ?_
    have := List.length_erase_of_mem mem
    have := List.length_pos_of_mem mem
    simp only [List.length_cons]
    omega
  | completeAccepted mem idle | completeFailed mem idle =>
    refine ft.pass rfl rfl ?_
    have := List.length_erase_of_mem mem
    have := List.length_pos_of_mem mem
    simp only [idle, Handler.spent]
    omega
  | @keep i fd h =>
    obtain ⟨-, hk, hp, -⟩ := hand_frame s i fd
    obtain ⟨-, -, hs, -⟩ := hand_counted s i fd
    refine ft.pass hp (hand_todo s i fd) ?_
    rw [hk, hs, h]
    exact Nat.add_le_add_left (Nat.le_of_eq (hand_spent s i fd)) _
  | unkeep | closeUnkept | noneUnkept => exact ft.pass rfl rfl (Nat.add_le_add_left (Nat.zero_le _) _)
  | handTo h | wakeSkipped h => exact ft.pass rfl rfl (by rw [h]; exact Nat.le_refl _)
  | @repost i fd h =>
    have sum := posting_setPost postSpent { s with handler := .idle } .loop (some (i, .make))
    have none : s.post .loop = none := al (by rw [h]; rintro ⟨⟩)
    unfold Fits at ft ⊢
    simp only [none, h, Handler.spent, postSpent] at sum ft ⊢
    change _ = s.posting postSpent + 1 at sum
    change s.todo.length + s.posted.length + s.stale.length + 0 + _ ≤ _
    omega
  | _ => exact ft.pass rfl rfl (Nat.le_refl _)

/-- In every state of a run there are at most as many accepts as slots. -/
lemma Fits.of_runs [DecidableEq ω] {depth : Nat} {ok : State θ ω κ → Label θ ω κ → Prop}
    (rn : Runs (Step within) ok (.init depth) s) : Fits depth s := by
  induction rn with
  | refl => exact Nat.le_of_eq List.length_range
  | tail rn _ st ih => exact st.fits (alone_of_runs rn) ih

/-! ## Quiescence -/

/-- No accept is outstanding or may come to be, nobody runs `Post` and no handler runs. -/
structure Quiet (s : State θ ω κ) : Prop where
  todo : s.todo = []
  post : ∀ p, s.post p = none
  posted : s.posted = []
  stale : s.stale = []
  outstanding : s.outstanding = 0
  handler : s.handler = .idle

/-- From a quiet state there is no way back. -/
lemma Quiet.step [DecidableEq ω] {l : Label θ ω κ} (st : Step within s l s') (q : Quiet s) : Quiet s' := by
  have none : ∀ {p x}, s.post p ≠ some x := by
    intro p x h
    rw [q.post p] at h
    cases h
  have idle : ∀ {h}, s.handler = h → h = .idle := fun e => e.symm.trans q.handler
  cases st with
  | startPost h =>
    rw [q.todo] at h
    cases h
  | make h | makeFails h | count h | submit h | submitAnswered h | publish h | undo h | close h =>
    exact absurd h none
  | publishFull h | publishFails h => exact absurd h none
  | consume mem =>
    rw [q.stale] at mem
    cases mem
  | completeAccepted mem | completeFailed mem =>
    rw [q.posted] at mem
    cases mem
  | keep h | unkeep h | closeUnkept h | noneUnkept h | handTo h | wakeSkipped h | repost h => cases idle h
  | _ => exact ⟨q.todo, q.post, q.posted, q.stale, q.outstanding, q.handler⟩

/-- The threads that call the acceptor do so when `Start` has returned. -/
structure Begun (s : State θ ω κ) : Prop where
  calls : ∀ {t}, s.pc t ≠ .idle → s.started = true
  start : s.started = true → s.todo = [] ∧ s.post .starter = none

namespace Begun

omit [DecidableEq θ] in
/-- The start and the calls are as before. -/
lemma keep (bg : Begun s) (hc : s'.pc = s.pc) (hs : s'.started = s.started) (ht : s'.todo = s.todo)
    (hp : s'.post .starter = s.post .starter) : Begun s' := by
  refine ⟨fun {t} h => ?_, fun h => ?_⟩
  · rw [hc] at h
    rw [hs]
    exact bg.calls h
  · rw [hs] at h
    rw [ht, hp]
    exact bg.start h

/-- A thread goes on with its call. -/
lemma setPc {c : Pc ω κ} (bg : Begun s) (began : s.started = true) (hs : s'.started = s.started)
    (ht : s'.todo = s.todo) (hp : s'.post = s.post) : Begun (s'.setPc t c) := by
  refine ⟨fun _ => hs.trans began, fun _ => ?_⟩
  obtain ⟨todo, post⟩ := bg.start began
  exact ⟨ht.trans todo, (congrFun hp _).trans post⟩

omit [DecidableEq θ] in
/-- A party goes on in `Post`: it is the completion thread, or the acceptor is not started. -/
lemma setPost {p : Party} {x : Nat × Post} {c : Option (Nat × Post)} (bg : Begun s) (h : s.post p = some x)
    (hc : s'.pc = s.pc) (hs : s'.started = s.started) (ht : s'.todo = s.todo) (hp : s'.post = s.post) :
    Begun (s'.setPost p c) := by
  cases p with
  | loop =>
    refine bg.keep hc hs ht ?_
    change Function.update s'.post .loop c .starter = _
    rw [Function.update_of_ne (by rintro ⟨⟩), hp]
  | starter =>
    have early : s.started ≠ true := by
      intro began
      rw [(bg.start began).2] at h
      cases h
    refine ⟨fun {t} ht => ?_, fun began => absurd (hs ▸ began) early⟩
    change s'.pc t ≠ _ at ht
    rw [hc] at ht
    exact absurd (bg.calls ht) early

end Begun

variable [DecidableEq ω]

/-- A step before the end of `Start` is one of `Start` or of a completion. -/
lemma Step.begun {l : Label θ ω κ} (st : Step within s l s') (bg : Begun s) : Begun s' := by
  have calls : ∀ {t c}, s.pc t = c → c ≠ .idle → s.started = true := fun h ne => bg.calls (by rw [h]; exact ne)
  cases st with
  | startPost h =>
    have early : s.started ≠ true := by
      intro began
      rw [(bg.start began).1] at h
      cases h
    exact ⟨fun ht => absurd (bg.calls ht) early, fun began => absurd began early⟩
  | started todo post => exact ⟨fun _ => rfl, fun _ => ⟨todo, post⟩⟩
  | make h | makeFails h | count h | publish h | publishFull h | publishFails h | undo h | close h =>
    exact bg.setPost h rfl rfl rfl rfl
  | @submit p i h | @submitAnswered p i h =>
    refine bg.setPost h ?_ ?_ ?_ ?_ <;> (unfold State.dropMade; split <;> rfl)
  | @keep i fd => refine bg.keep ?_ ?_ ?_ ?_ <;> (unfold State.hand; split <;> rfl)
  | check began | cancelWaiters began | stop began => exact bg.setPc began rfl rfl rfl
  | takeReady h | takeStopping h | takeQueue h | sweep h | resume h | finish h | stopReleased h | stopScope h =>
    exact bg.setPc (calls h (by rintro ⟨⟩)) rfl rfl rfl
  | drained h | timeLimit h | leftovers h | stopReturns h =>
    exact bg.setPc (calls h (by rintro ⟨⟩)) rfl rfl rfl
  | _ => exact bg.keep rfl rfl rfl rfl

/-- In every state of a run the calls come after `Start`. -/
lemma Begun.of_runs {depth : Nat} {ok : State θ ω κ → Label θ ω κ → Prop}
    (rn : Runs (Step within) ok (.init depth) s) : Begun s := by
  refine rn.invariant (I := Begun) ⟨fun h => absurd rfl h, ?_⟩ fun bg _ st => st.begun bg
  rintro ⟨⟩

/-- When `Stop` reads that nothing is outstanding, no handler runs and no accept was left in the ring. -/
def HandlerDone (s : State θ ω κ) : Label θ ω κ → Prop
  | .drain _ => s.outstanding % 2 ^ 64 = 0 → s.handler = .idle ∧ s.post .loop = none ∧ s.failed = 0
  | _ => True

/-- The thread is in `Stop`, which has seen that nothing is outstanding. -/
def Pc.Drained : Pc ω κ → Prop
  | .leftovers drained => drained = true
  | .closing drained => drained = true
  | .returned drained => drained = true
  | _ => False

omit [DecidableEq ω] in
/-- Who has seen zero is the thread that steps, or had seen it before. -/
lemma drained_setPc {t' : θ} {c : Pc ω κ} (h : ((s.setPc t' c).pc t).Drained) :
    (t = t' ∧ c.Drained) ∨ (s.pc t).Drained := by
  change (Function.update s.pc t' c t).Drained at h
  by_cases e : t = t'
  · rw [e, Function.update_self] at h
    exact .inl ⟨e, h⟩
  · rw [Function.update_of_ne e] at h
    exact .inr h

/-- A thread gets there by reading that nothing is outstanding. -/
lemma Step.drains {l : Label θ ω κ} (st : Step within s l s') (h : (s'.pc t).Drained) :
    (s.pc t).Drained ∨ (s.outstanding % 2 ^ 64 = 0 ∧ s.pc t = .drain ∧ l = .drain t) := by
  cases st with
  | check | takeReady | takeStopping | takeQueue | cancelWaiters | sweep | resume | finish | stop | stopReleased =>
    rcases drained_setPc h with ⟨-, h⟩ | h
    · exact h.elim
    · exact .inl h
  | stopScope =>
    rcases drained_setPc h with ⟨-, h⟩ | h
    · exact h.elim
    · exact .inl h
  | drained ht zero =>
    rcases drained_setPc h with ⟨rfl, -⟩ | h
    · exact .inr ⟨zero, ht, rfl⟩
    · exact .inl h
  | timeLimit =>
    rcases drained_setPc h with ⟨-, h⟩ | h
    · cases h
    · exact .inl h
  | leftovers ht | stopReturns ht =>
    rcases drained_setPc h with ⟨rfl, h'⟩ | h'
    · rw [ht]
      exact .inl h'
    · exact .inl h'
  | @submit p i | @submitAnswered p i =>
    have same : (s.dropMade i).pc = s.pc := by
      unfold State.dropMade
      split <;> rfl
    change ((s.dropMade i).pc t).Drained at h
    rw [same] at h
    exact .inl h
  | @keep i fd =>
    have same : (s.hand i fd).pc = s.pc := by
      unfold State.hand
      split <;> rfl
    rw [same] at h
    exact .inl h
  | _ => exact .inl h

omit [DecidableEq θ] [DecidableEq ω] in
/-- When `Stop` reads zero, no handler runs and no accept was left in the ring, the acceptor is quiet. -/
lemma Counted.quiet {depth : Nat} (ct : Counted s) (ft : Fits depth s) (bound : depth < 2 ^ 32) (bg : Begun s)
    (began : s.started = true) (zero : s.outstanding % 2 ^ 64 = 0) (idle : s.handler = .idle)
    (none : s.post .loop = none) (ok : s.failed = 0) : Quiet s := by
  obtain ⟨todo, post⟩ := bg.start began
  unfold Counted State.begun State.posting at ct
  unfold Fits at ft
  rw [idle, none, post, ok] at ct
  change _ + 0 = ((_ + _ + 0 + (0 + 0) : Nat) : Int) at ct
  -- fewer accepts than 2 ^ 64, so the count has not wrapped
  have none' : s.posted.length + s.stale.length = 0 := by omega
  refine ⟨todo, fun p => ?_, List.length_eq_zero_iff.1 (by omega), List.length_eq_zero_iff.1 (by omega), by omega, idle⟩
  cases p with
  | starter => exact post
  | loop => exact none

/-- When `Stop` has returned after it saw that nothing is outstanding, no accept is outstanding, nobody runs
`Post` and no handler runs, now and in all that follows. -/
theorem teardown_quiet {depth : Nat} (bound : depth < 2 ^ 32) (rn : Runs (Step within) HandlerDone (.init depth) s)
    (ret : s.pc t = .returned true) (rn' : Reaches (Step within) s s') : Quiet s' := by
  have quiet : ∀ t, (s.pc t).Drained → Quiet s := by
    clear ret rn'
    induction rn with
    | refl => exact fun t h => h.elim
    | tail rn hok st ih =>
      intro t h
      rcases st.drains h with h | ⟨zero, ht, rfl⟩
      · exact (ih t h).step st
      · obtain ⟨idle, none, ok⟩ := hok zero
        have bg := Begun.of_runs rn
        have began := bg.calls (t := t) (by rw [ht]; rintro ⟨⟩)
        exact ((Counted.of_runs rn).quiet (Fits.of_runs rn) bound bg began zero idle none ok).step st
  refine rn'.invariant (quiet t ?_) fun q _ st => q.step st
  rw [ret]
  rfl

/-- No further step from where a run has come. -/
lemma stay_of_runs {s₀ : State θ ω κ} {ok : State θ ω κ → Label θ ω κ → Prop}
    (_ : Runs (Step within) ok s₀ s) : Runs (Step within) ok s s := .refl

/-- The acceptor stops when its only accept has failed and the handler has returned. -/
theorem teardown_quiet_one : ∃ s : State Unit Unit Unit,
    Runs (Step fun _ _ => true) HandlerDone (.init 1) s ∧ s.pc () = .returned true ∧ Quiet s := by
  have r : Runs (Step fun _ _ => true) HandlerDone (.init 1 : State Unit Unit Unit) (.init 1) := .refl
  have r := r.next .start trivial (.startPost rfl rfl)
  have r := r.next (.post .starter) trivial (.make rfl (show 5 ≠ 0 by decide) List.not_mem_nil)
  have r := r.next (.post .starter) trivial (.count rfl)
  have r := r.next (.post .starter) trivial (.submit rfl rfl)
  have r := r.next (.post .starter) trivial (.publish rfl)
  have r := r.next .start trivial (.started rfl rfl)
  have r := r.next (.stop ()) trivial (.stop rfl rfl rfl)
  have r := r.next (.go ()) trivial (.sweep rfl)
  have r := r.next (.go ()) trivial (.stopReleased rfl)
  have r := r.next (.go ()) trivial (.stopScope rfl)
  have r := r.next (.complete 0 (-125)) trivial (.completeFailed List.mem_cons_self rfl rfl (by decide))
  have r := r.next .handler trivial (.unkeep rfl (.inr rfl))
  have r := r.next .handler trivial (.closeUnkept rfl (by decide))
  have r := r.next (.drain ()) (fun _ => ⟨rfl, rfl, rfl⟩) (.drained rfl rfl)
  have r := r.next (.go ()) trivial (.leftovers rfl)
  have r := r.next (.finish ()) trivial (.stopReturns rfl rfl)
  exact ⟨_, r, rfl, teardown_quiet (t := ()) (by decide) r rfl .refl⟩

/-- The only accept completes and is counted out; `Stop` reads zero and returns, and then the handler posts
again. -/
theorem handler_outlives_stop : ∃ s s' : State Unit Unit Unit, Reaches (Step fun _ _ => true) (.init 1) s ∧
    s.pc () = .returned true ∧ s.handler ≠ .idle ∧ Reaches (Step fun _ _ => true) s s' ∧
      s'.post .loop = some (0, .submit) ∧ s'.outstanding = 1 := by
  have r : Reaches (Step fun _ _ => true) (.init 1 : State Unit Unit Unit) (.init 1) := .refl
  have r := r.next .start trivial (.startPost rfl rfl)
  have r := r.next (.post .starter) trivial (.make rfl (show 5 ≠ 0 by decide) List.not_mem_nil)
  have r := r.next (.post .starter) trivial (.count rfl)
  have r := r.next (.post .starter) trivial (.submit rfl rfl)
  have r := r.next (.post .starter) trivial (.publish rfl)
  have r := r.next .start trivial (.started rfl rfl)
  have r := r.next (.complete 0 5) trivial (.completeAccepted List.mem_cons_self rfl rfl (by decide) List.not_mem_nil)
  have r := r.next .handler trivial (.keep rfl rfl)
  have r := r.next (.stop ()) trivial (.stop rfl rfl rfl)
  have r := r.next (.go ()) trivial (.sweep rfl)
  have r := r.next (.go ()) trivial (.stopReleased rfl)
  have r := r.next (.go ()) trivial (.stopScope rfl)
  have r := r.next (.drain ()) trivial (.drained rfl rfl)
  have r := r.next (.go ()) trivial (.leftovers rfl)
  have r := r.next (.go ()) trivial (.closeLeftover rfl rfl)
  have r := r.next (.finish ()) trivial (.stopReturns rfl rfl)
  have q := stay_of_runs r
  have q := q.next .handler trivial (.repost rfl)
  have q := q.next (.post .loop) trivial (.make rfl (show 6 ≠ 0 by decide) List.not_mem_nil)
  have q := q.next (.post .loop) trivial (.count rfl)
  exact ⟨_, _, r, rfl, by rintro ⟨⟩, q, rfl, rfl⟩

/-- The enter of the only accept fails, so it is counted out; `Stop` reads zero while no handler runs, and then
the kernel gets the accept. -/
theorem left_accept_outlives_stop : ∃ s s' : State Unit Unit Unit, Reaches (Step fun _ _ => true) (.init 1) s ∧
    s.pc () = .returned true ∧ s.handler = .idle ∧ s.post .loop = none ∧
      Reaches (Step fun _ _ => true) s s' ∧ s'.posted = [0] := by
  have r : Reaches (Step fun _ _ => true) (.init 1 : State Unit Unit Unit) (.init 1) := .refl
  have r := r.next .start trivial (.startPost rfl rfl)
  have r := r.next (.post .starter) trivial (.make rfl (show 5 ≠ 0 by decide) List.not_mem_nil)
  have r := r.next (.post .starter) trivial (.count rfl)
  have r := r.next (.post .starter) trivial (.submit rfl rfl)
  have r := r.next (.answer .starter) trivial (.publishFails rfl)
  have r := r.next (.post .starter) trivial (.undo rfl)
  have r := r.next (.post .starter) trivial (.close rfl)
  have r := r.next .start trivial (.started rfl rfl)
  have r := r.next (.stop ()) trivial (.stop rfl rfl rfl)
  have r := r.next (.go ()) trivial (.sweep rfl)
  have r := r.next (.go ()) trivial (.stopReleased rfl)
  have r := r.next (.go ()) trivial (.stopScope rfl)
  have r := r.next (.drain ()) trivial (.drained rfl rfl)
  have r := r.next (.go ()) trivial (.leftovers rfl)
  have r := r.next (.finish ()) trivial (.stopReturns rfl rfl)
  have q := stay_of_runs r
  have q := q.next .consume trivial (.consume List.mem_cons_self)
  exact ⟨_, _, r, rfl, rfl, rfl, q, rfl⟩

end JLib.IoAcceptor
