import JLib.IoAcceptor.Waiters

/-!
# Ejected waiters

What `CancelWaiters` and `Stop` leave in the queue. A call is about the scopes that were cancelled when it
began and that its token selects. A waiter of such a scope that is in the queue when the call goes through
it is resumed before the call returns; one that joins the queue afterwards is resumed by nobody.
-/

namespace JLib.IoAcceptor
open LTS Io

variable {θ ω κ : Type} [DecidableEq θ] {within : κ → κ → Bool} {s s' : State θ ω κ}
  {t : θ} {w : ω} {x : κ}

/-- The token of a call of `CancelWaiters` or `Stop` that has gone through the queue. -/
def Pc.past : Pc ω κ → Option (Option κ)
  | .resume _ token _ => some token
  | .scope => some none
  | .drain => some none
  | .leftovers _ => some none
  | .closing _ => some none
  | _ => none

/-- No waiter joins the queue behind a call that was about its scope; no call returns while another thread
is still to push a waiter the call is about; and `Stop` is not called again before the first call has gone
through the queue. -/
def InTime (within : κ → κ → Bool) (s : State θ ω κ) : Label θ ω κ → Prop
  | .take t => ∀ w x, s.pc t = .checked w (some x) → s.ready = [] → s.stopping = false → s.swept x = false
  | .finish t => ∀ w x token, s.Dequeued w → s.token w = some x → (s.pc t).past = some token →
      s.seen t x = true → selects within token (some x) = false
  | .stop _ => s.stopping = true → (∀ t, s.pc t ≠ .cancel true none) ∧
      ∀ w x, s.Dequeued w → s.token w = some x → s.cancelled x = false
  | _ => True

/-- A waiter that is queued, or was taken out and is not pushed, has a scope that no call that has returned
was about. -/
structure Ejected (within : κ → κ → Bool) (s : State θ ω κ) : Prop where
  apart : s.ready ≠ [] → s.queue = []
  queued : ∀ {w x}, w ∈ s.queue → s.token w = some x → s.swept x = false ∧ s.finished x = false
  dequeued : ∀ {w x}, s.Dequeued w → s.token w = some x → s.finished x = false
  stops : s.stopping = true → (∃ t, s.pc t = .cancel true none) ∨ s.queue = []
  past : ∀ {t token x}, (s.pc t).past = some token → s.seen t x = true → selects within token (some x) = true →
    s.swept x = true
  finished : ∀ {x}, s.finished x = true → s.swept x = true ∨ s.stopping = true

/-- What is dequeued is so by the thread that steps, or was before. -/
lemma dequeued_setPc {c : Pc ω κ} (h : (s.setPc t c).Dequeued w) : w ∈ c.taken ∨ s.Dequeued w := by
  rcases h with h | ⟨t', h⟩
  · exact .inr (.inl h)
  · change w ∈ (Function.update s.pc t c t').taken at h
    by_cases e : t' = t
    · rw [e, Function.update_self] at h
      exact .inl h
    · rw [Function.update_of_ne e] at h
      exact .inr (.inr ⟨t', h⟩)

/-- A call that is past the queue is that of the thread that steps, or was before. -/
lemma past_setPc {t' : θ} {c : Pc ω κ} {token : Option κ} (h : ((s.setPc t' c).pc t).past = some token) :
    (t = t' ∧ c.past = some token) ∨ (t ≠ t' ∧ (s.pc t).past = some token) := by
  change (Function.update s.pc t' c t).past = _ at h
  by_cases e : t = t'
  · rw [e, Function.update_self] at h
    exact .inl ⟨e, h⟩
  · rw [Function.update_of_ne e] at h
    exact .inr ⟨e, h⟩

namespace Ejected

omit [DecidableEq θ] in
/-- Nothing joins the queue, and no call goes through it or returns. -/
lemma keep (ej : Ejected within s) (hq : s'.queue = s.queue)
    (hr : s'.ready ≠ [] → s.ready ≠ [])
    (ht : s'.token = s.token) (hw : s'.swept = s.swept) (hf : s'.finished = s.finished)
    (hs : s'.stopping = s.stopping) (hd : ∀ {w}, s'.Dequeued w → s.Dequeued w)
    (hc : ∀ {t}, s.pc t = .cancel true none → s'.pc t = .cancel true none)
    (hp : ∀ {t token x}, (s'.pc t).past = some token → s'.seen t x = true →
      (s.pc t).past = some token ∧ s.seen t x = true) : Ejected within s' := by
  refine ⟨fun h => ?_, fun h ht' => ?_, fun h ht' => ?_, fun h => ?_, fun h seen sel => ?_, fun h => ?_⟩
  · rw [hq]
    exact ej.apart (hr h)
  · rw [hq] at h
    rw [ht] at ht'
    rw [hw, hf]
    exact ej.queued h ht'
  · rw [ht] at ht'
    rw [hf]
    exact ej.dequeued (hd h) ht'
  · rw [hs] at h
    rw [hq]
    exact (ej.stops h).imp_left fun ⟨t, h⟩ => ⟨t, hc h⟩
  · obtain ⟨h, seen⟩ := hp h seen
    rw [hw]
    exact ej.past h seen sel
  · rw [hf] at h
    rw [hw, hs]
    exact ej.finished h

/-- A thread goes on with its call. -/
lemma setPc {c c₀ : Pc ω κ} (ej : Ejected within s) (h₀ : s.pc t = c₀) (hq : s'.queue = s.queue)
    (hr : s'.ready ≠ [] → s.ready ≠ [])
    (ht : s'.token = s.token) (hw : s'.swept = s.swept) (hf : s'.finished = s.finished)
    (hs : s'.stopping = s.stopping) (hh : s'.handler = s.handler) (hpc : s'.pc = s.pc) (hse : s'.seen = s.seen)
    (ne : c₀ ≠ .cancel true none) (sub : ∀ {w}, w ∈ c.taken → w ∈ c₀.taken)
    (hp : ∀ {token}, c.past = some token → c₀.past = some token) : Ejected within (s'.setPc t c) := by
  refine ej.keep hq hr ht hw hf hs (fun {w} h => ?_) (fun {t'} h => ?_) (fun {t' token x} h seen => ?_)
  · rcases dequeued_setPc h with h | h | ⟨t', h⟩
    · exact .inr ⟨t, h₀ ▸ sub h⟩
    · exact .inl (hh ▸ h)
    · exact .inr ⟨t', hpc ▸ h⟩
  · change Function.update s'.pc t c t' = _
    rw [Function.update_of_ne (by rintro rfl; exact ne (h₀ ▸ h)), hpc]
    exact h
  · change s'.seen t' x = true at seen
    rw [hse] at seen
    rcases past_setPc h with ⟨rfl, h'⟩ | ⟨-, h'⟩
    · exact ⟨h₀ ▸ hp h', seen⟩
    · rw [hpc] at h'
      exact ⟨h', seen⟩

/-- A call begins: what it sees is what is cancelled now. -/
lemma begin {c : Pc ω κ} (ej : Ejected within s) (idle : s.pc t = .idle) (taken : c.taken = []) (past : c.past = none) :
    Ejected within ({ s with seen := Function.update s.seen t s.cancelled }.setPc t c) := by
  refine ej.keep rfl id rfl rfl rfl rfl (fun {w} h => ?_) (fun {t'} h => ?_) (fun {t' token x} h seen => ?_)
  · rcases dequeued_setPc h with h | h
    · rw [taken] at h
      cases h
    · exact h
  · refine (Function.update_of_ne ?_ ..).trans h
    rintro rfl
    rw [idle] at h
    cases h
  · rcases past_setPc h with ⟨-, h'⟩ | ⟨ne, h'⟩
    · rw [past] at h'
      cases h'
    · change Function.update s.seen t s.cancelled t' x = true at seen
      rw [Function.update_of_ne ne] at seen
      exact ⟨h', seen⟩

omit [DecidableEq θ] in
/-- The critical section of `OnComplete`. -/
lemma hand {i fd : Nat} (ej : Ejected within s) : Ejected within (s.hand i fd) := by
  obtain ⟨perm, cleared⟩ := hand_waiters s i fd
  obtain ⟨hp, -, -, -, ht⟩ := hand_waiting s i fd
  obtain ⟨hw, hf, hs, hse⟩ : (s.hand i fd).swept = s.swept ∧ (s.hand i fd).finished = s.finished ∧
      (s.hand i fd).stopping = s.stopping ∧ (s.hand i fd).seen = s.seen := by
    unfold State.hand
    split <;> exact ⟨rfl, rfl, rfl, rfl⟩
  have left : s.queue = [] → (s.hand i fd).queue = [] := by
    intro e
    rw [e] at perm
    exact (List.append_eq_nil_iff.1 perm.eq_nil).1
  refine ⟨fun h => ?_, fun {w x} h hx => ?_, fun {w x} h hx => ?_, fun h => ?_, fun h seen sel => ?_, fun h => ?_⟩
  · by_cases e : (s.hand i fd).ready = s.ready
    · rw [e] at h
      exact left (ej.apart h)
    · exact cleared e
  · rw [ht] at hx
    rw [hw, hf]
    exact ej.queued (perm.subset (List.mem_append_left _ h)) hx
  · rw [ht] at hx
    rw [hf]
    rcases h with h | ⟨t, h⟩
    · exact (ej.queued (perm.subset (List.mem_append_right _ h)) hx).2
    · rw [hp] at h
      exact ej.dequeued (.inr ⟨t, h⟩) hx
  · rw [hs] at h
    rw [hp]
    exact (ej.stops h).imp_right left
  · rw [hp] at h
    rw [hse] at seen
    rw [hw]
    exact ej.past h seen sel
  · rw [hf] at h
    rw [hw, hs]
    exact ej.finished h

/-- A call goes through the queue. -/
lemma sweep {stop : Bool} {token : Option κ} (ej : Ejected within s) (h : s.pc t = .cancel stop token) :
    Ejected within ((s.sweep within t token).setPc t
      (.resume stop token (s.queue.filter fun w => selects within token (s.token w)))) := by
  refine ⟨fun h' => ?_, fun {w x} h' hx => ?_, fun {w x} h' hx => ?_, fun h' => ?_, fun {t' k x} h' seen sel => ?_,
    fun {x} h' => ?_⟩
  · change s.queue.filter _ = []
    rw [ej.apart h']
    rfl
  · obtain ⟨mem, out⟩ := List.mem_filter.1 h'
    obtain ⟨swept, finished⟩ := ej.queued mem hx
    refine ⟨?_, finished⟩
    change s.token w = some x at hx
    change (s.swept x || (s.seen t x && selects within token (some x))) = false
    rw [hx, Bool.not_eq_true'] at out
    rw [swept, out, Bool.and_false, Bool.false_or]
  · rcases dequeued_setPc h' with h' | h'
    · exact (ej.queued (List.mem_filter.1 h').1 hx).2
    · exact ej.dequeued h' hx
  · rcases ej.stops h' with ⟨t', ht'⟩ | empty
    · by_cases e : t' = t
      · subst e
        rw [h] at ht'
        cases ht'
        exact .inr (List.filter_eq_nil_iff.2 fun w _ => by rintro ⟨⟩)
      · exact .inl ⟨t', (Function.update_of_ne e ..).trans ht'⟩
    · refine .inr ?_
      change s.queue.filter _ = []
      rw [empty]
      rfl
  · change (s.swept x || (s.seen t x && selects within token (some x))) = true
    rcases past_setPc h' with ⟨rfl, e⟩ | ⟨-, h'⟩
    · cases e
      change s.seen t' x = true at seen
      rw [seen, sel, Bool.and_self, Bool.or_true]
    · rw [ej.past h' seen sel, Bool.true_or]
  · change (s.swept x || _) = true ∨ _
    rcases ej.finished h' with h' | h'
    · rw [h', Bool.true_or]
      exact .inl rfl
    · exact .inr h'

omit [DecidableEq θ] in
/-- A call returns. -/
lemma finish {token : Option κ} (ej : Ejected within s) (h : (s.pc t).past = some token)
    (hok : ∀ w x, s.Dequeued w → s.token w = some x → s.seen t x = true → selects within token (some x) = false) :
    Ejected within (s.finish within t token) := by
  refine ⟨ej.apart, fun {w x} h' hx => ?_, fun {w x} h' hx => ?_, ej.stops, ej.past, fun {x} h' => ?_⟩
  · obtain ⟨swept, finished⟩ := ej.queued h' hx
    refine ⟨swept, ?_⟩
    change (s.finished x || (s.seen t x && selects within token (some x))) = false
    rw [finished, Bool.false_or, Bool.and_eq_false_iff]
    by_contra both
    rw [not_or, Bool.not_eq_false, Bool.not_eq_false] at both
    rw [ej.past h both.1 both.2] at swept
    cases swept
  · change (s.finished x || (s.seen t x && selects within token (some x))) = false
    rw [ej.dequeued h' hx, Bool.false_or, Bool.and_eq_false_iff]
    by_cases seen : s.seen t x = true
    · exact .inr (hok w x h' hx seen)
    · exact .inl (Bool.eq_false_iff.2 seen)
  · change (s.finished x || (s.seen t x && selects within token (some x))) = true at h'
    rw [Bool.or_eq_true, Bool.and_eq_true] at h'
    rcases h' with h' | ⟨seen, sel⟩
    · exact ej.finished h'
    · exact .inl (ej.past h seen sel)

/-- A waiter joins the queue, and no call about its scope has gone through it. -/
lemma enqueue [DecidableEq ω] {k : Option κ} (ej : Ejected within s) (wt : Waiting s) (h : s.pc t = .checked w k)
    (empty : s.ready = []) (go : s.stopping = false) (hok : ∀ x, k = some x → s.swept x = false) :
    Ejected within ((s.enqueue w k).setPc t .idle) := by
  have mine : w ∈ s.waiters (.thread t) := by
    change w ∈ (s.pc t).waiters
    rw [h]
    exact List.mem_cons_self
  have old : ∀ {w' x}, w' ≠ w → Function.update s.token w k w' = some x → s.token w' = some x := by
    intro w' x ne hx
    rwa [Function.update_of_ne ne] at hx
  have out : ∀ {w'}, s.Dequeued w' → w' ≠ w := by
    rintro w' (h' | ⟨t', h'⟩) rfl
    · cases wt.custody.unique mine (q := .handler) h'
    · have there : w' ∈ s.waiters (.thread t') := by
        change w' ∈ (s.pc t').waiters
        cases e : s.pc t' <;> rw [e] at h' <;> first | exact h' | cases h'
      cases wt.custody.unique mine there
      rw [h] at h'
      cases h'
  refine ⟨fun h' => absurd empty h', fun {w' x} h' hx => ?_, fun {w' x} h' hx => ?_, fun h' => ?_,
    fun h' seen sel => ?_, ej.finished⟩
  · by_cases e : w' = w
    · subst e
      change Function.update s.token w' k w' = some x at hx
      rw [Function.update_self] at hx
      refine ⟨hok x hx, ?_⟩
      by_contra fin
      rcases ej.finished (Bool.not_eq_false _ ▸ fin) with h' | h'
      · rw [hok x hx] at h'
        cases h'
      · rw [go] at h'
        cases h'
    · exact ej.queued ((List.mem_append.1 h').resolve_right fun m => e (List.mem_singleton.1 m)) (old e hx)
  · rcases dequeued_setPc h' with h' | h'
    · cases h'
    · exact ej.dequeued h' (old (out h') hx)
  · change s.stopping = true at h'
    rw [go] at h'
    cases h'
  · rcases past_setPc h' with ⟨-, e⟩ | ⟨-, h'⟩
    · cases e
    · exact ej.past h' seen sel

end Ejected

omit [DecidableEq θ] in
/-- The completion thread goes on, and takes no further waiter. -/
lemma Ejected.handler (ej : Ejected within s) (hq : s'.queue = s.queue) (hr : s'.ready = s.ready)
    (ht : s'.token = s.token) (hw : s'.swept = s.swept) (hf : s'.finished = s.finished)
    (hs : s'.stopping = s.stopping) (hp : s'.pc = s.pc) (hse : s'.seen = s.seen)
    (sub : ∀ {w}, w ∈ s'.handler.waiters → w ∈ s.handler.waiters) : Ejected within s' := by
  refine ej.keep hq (fun h => hr ▸ h) ht hw hf hs (fun h => ?_) (fun h => hp ▸ h) fun h seen => ?_
  · rcases h with h | ⟨t, h⟩
    · exact .inl (sub h)
    · exact .inr ⟨t, hp ▸ h⟩
  · rw [hp] at h
    rw [hse] at seen
    exact ⟨h, seen⟩

variable [DecidableEq ω]

/-- A step under the condition strands no waiter. -/
lemma Step.ejected {l : Label θ ω κ} (st : Step within s l s') (wt : Waiting s) (hok : InTime within s l)
    (ej : Ejected within s) : Ejected within s' := by
  cases st with
  | @submit p i | @submitAnswered p i =>
    refine ej.handler ?_ ?_ ?_ ?_ ?_ ?_ ?_ ?_ fun {w} h => ?_
    case refine_9 =>
      change w ∈ (s.dropMade i).handler.waiters at h
      rwa [(dropMade_frame s i).2.2.2.2.2.2.1] at h
    all_goals
      unfold State.dropMade
      split <;> rfl
  | completeAccepted | completeFailed => exact ej.handler rfl rfl rfl rfl rfl rfl rfl rfl (by rintro w ⟨⟩)
  | keep => exact ej.hand
  | unkeep | closeUnkept | noneUnkept | repost => exact ej.handler rfl rfl rfl rfl rfl rfl rfl rfl (by rintro w ⟨⟩)
  | handTo h | wakeSkipped h =>
    refine ej.handler rfl rfl rfl rfl rfl rfl rfl rfl fun mem => ?_
    rw [h]
    exact List.mem_cons_of_mem _ mem
  | tryTake _ _ h =>
    refine ej.keep rfl (fun _ e => ?_) rfl rfl rfl rfl id id fun h seen => ⟨h, seen⟩
    rw [h] at e
    cases e
  | check _ h | takeStopping h =>
    exact ej.setPc h rfl id rfl rfl rfl rfl rfl rfl rfl (by rintro ⟨⟩) (by rintro w ⟨⟩) (by rintro k ⟨⟩)
  | stopScope h | drained h | timeLimit h | stopReleased h =>
    exact ej.setPc h rfl id rfl rfl rfl rfl rfl rfl rfl (by rintro ⟨⟩) (by rintro w ⟨⟩) id
  | takeReady h e =>
    refine ej.setPc h rfl (fun _ e' => ?_) rfl rfl rfl rfl rfl rfl rfl (by rintro ⟨⟩) (by rintro w ⟨⟩)
      (by rintro k ⟨⟩)
    rw [e] at e'
    cases e'
  | takeQueue h empty go =>
    refine ej.enqueue wt h empty go fun x e => ?_
    exact hok _ x (e ▸ h) empty go
  | cancelWaiters _ h => exact ej.begin h rfl rfl
  | sweep h => exact ej.sweep h
  | resume h =>
    exact ej.setPc h rfl id rfl rfl rfl rfl rfl rfl rfl (by rintro ⟨⟩) (List.mem_cons_of_mem _) id
  | @finish t token h =>
    have past : (s.pc t).past = some token := by
      rw [h]
      rfl
    have ej' := ej.finish past fun w x deq hx seen => hok w x _ deq hx past seen
    exact ej'.setPc h rfl id rfl rfl rfl rfl rfl rfl rfl (by rintro ⟨⟩) (by rintro w ⟨⟩) (by rintro k ⟨⟩)
  | stopAgain _ _ stop =>
    obtain ⟨swept, free⟩ := hok stop
    have empty : s.queue = [] := (ej.stops stop).resolve_left fun ⟨t, h⟩ => swept t h
    refine ⟨ej.apart, fun {w x} h hx => ?_, fun {w x} h hx => ?_, ej.stops, ej.past, fun _ => .inr stop⟩
    · change w ∈ s.queue at h
      rw [empty] at h
      cases h
    · change (s.finished x || s.cancelled x) = false
      rw [ej.dequeued h hx, free w x h hx, Bool.or_self]
  | stop _ h =>
    have ej' := ej.begin (c := .cancel true none) h rfl rfl
    exact ⟨ej'.apart, ej'.queued, ej'.dequeued, fun _ => .inl ⟨_, Function.update_self ..⟩, ej'.past,
      fun _ => .inr rfl⟩
  | leftovers h =>
    exact ej.setPc h rfl (fun e => absurd rfl e) rfl rfl rfl rfl rfl rfl rfl (by rintro ⟨⟩) (by rintro w ⟨⟩) id
  | @stopReturns t drained h =>
    have past : (s.pc t).past = some none := by
      rw [h]
      rfl
    have ej' := ej.finish past fun w x deq hx seen => hok w x _ deq hx past seen
    exact ej'.setPc h rfl id rfl rfl rfl rfl rfl rfl rfl (by rintro ⟨⟩) (by rintro w ⟨⟩) (by rintro k ⟨⟩)
  | _ => exact ej.keep rfl id rfl rfl rfl rfl id id fun h seen => ⟨h, seen⟩

/-- In a run under the condition no waiter is stranded. -/
lemma Ejected.of_runs {depth : Nat} (rn : Runs (Step within) (InTime within) (.init depth) s) :
    Ejected within s := by
  induction rn with
  | refl =>
    refine ⟨fun _ => rfl, ?_, ?_, ?_, ?_, ?_⟩
    · rintro w x ⟨⟩
    · rintro w x (⟨⟨⟩⟩ | ⟨t, ⟨⟩⟩)
    · rintro ⟨⟩
    · rintro t token x ⟨⟩
    · rintro x ⟨⟩
  | tail rn hok st ih => exact st.ejected (Waiting.of_runs rn) hok ih

/-- No waiter is queued while a connection is in `ready`, and a waiter that was queued, of a scope that a call
of `CancelWaiters` or `Stop` that has returned was about, is out of the queue and was resumed once. -/
theorem waiters_not_stranded {depth : Nat} (rn : Runs (Step within) (InTime within) (.init depth) s) :
    (s.ready ≠ [] → s.queue = []) ∧
      ∀ w x, s.suspended w = true → s.token w = some x → s.finished x = true → w ∉ s.queue ∧ s.pushes w = 1 := by
  have ej := Ejected.of_runs rn
  have wt := Waiting.of_runs rn
  refine ⟨ej.apart, fun w x susp hx fin => ?_⟩
  have out : w ∉ s.queue := by
    intro h
    rw [(ej.queued h hx).2] at fin
    cases fin
  have pushed : ¬s.Dequeued w := by
    intro h
    rw [ej.dequeued h hx] at fin
    cases fin
  refine ⟨out, (wt.done susp).resolve_left ?_⟩
  rintro ⟨q, h⟩
  cases q with
  | queue => exact out h
  | handler => exact pushed (.inl h)
  | thread t =>
    change w ∈ (s.pc t).waiters at h
    cases e : s.pc t with
    | checked w' k =>
      rw [e] at h
      rw [List.mem_singleton.1 h, wt.checked e] at susp
      cases susp
    | resume stop token taken =>
      refine pushed (.inr ⟨t, ?_⟩)
      rw [e] at h ⊢
      exact h
    | idle | cancel | scope | drain | leftovers | closing | returned =>
      rw [e] at h
      cases h

/-- A queued waiter is cancelled and ejected. -/
theorem waiters_not_stranded_one : ∃ s : State Unit Unit Unit,
    Runs (Step fun _ _ => true) (InTime fun _ _ => true) (.init 1) s ∧ s.suspended () = true ∧
      s.token () = some () ∧ s.finished () = true ∧ (s.ready ≠ [] → s.queue = []) ∧
      () ∉ s.queue ∧ s.pushes () = 1 := by
  have r : Runs (Step fun _ _ => true) (InTime fun _ _ => true) (.init 1 : State Unit Unit Unit) (.init 1) := .refl
  have r := r.next .start trivial (.startPost rfl rfl)
  have r := r.next (.post .starter) trivial (.make rfl (show 5 ≠ 0 by decide) List.not_mem_nil)
  have r := r.next (.post .starter) trivial (.count rfl)
  have r := r.next (.post .starter) trivial (.submit rfl rfl)
  have r := r.next (.post .starter) trivial (.publish rfl)
  have r := r.next .start trivial (.started rfl rfl)
  have r := r.next (.check () () (some ())) trivial (.check rfl rfl rfl rfl)
  have r := r.next (.take ()) (fun _ _ _ _ _ => rfl) (.takeQueue rfl rfl rfl)
  have r := r.next (.cancel ()) trivial .cancel
  have r := r.next (.cancelWaiters () (some ())) trivial (.cancelWaiters rfl rfl)
  have r := r.next (.go ()) trivial (.sweep rfl)
  have r := r.next (.go ()) trivial (.resume rfl)
  have r := r.next (.finish ()) (by rintro w x token (h | ⟨t, h⟩) <;> cases h) (.finish rfl)
  obtain ⟨apart, out⟩ := waiters_not_stranded r
  exact ⟨_, r, rfl, rfl, rfl, apart, out () () rfl rfl rfl⟩

/-- The token is cancelled, and `CancelWaiters` goes through the queue, between the check and the lock of
`TakeOrQueue`: the waiter is queued. -/
theorem cancelled_waiter_stranded : ∃ s : State Bool Unit Unit, Reaches (Step fun _ _ => true) (.init 1) s ∧
    s.suspended () = true ∧ s.token () = some () ∧ s.finished () = true ∧ () ∈ s.queue ∧ s.pushes () = 0 := by
  have r : Reaches (Step fun _ _ => true) (.init 1 : State Bool Unit Unit) (.init 1) := .refl
  have r := r.next .start trivial (.startPost rfl rfl)
  have r := r.next (.post .starter) trivial (.make rfl (show 5 ≠ 0 by decide) List.not_mem_nil)
  have r := r.next (.post .starter) trivial (.count rfl)
  have r := r.next (.post .starter) trivial (.submit rfl rfl)
  have r := r.next (.post .starter) trivial (.publish rfl)
  have r := r.next .start trivial (.started rfl rfl)
  have r := r.next (.check true () (some ())) trivial (.check rfl rfl rfl rfl)
  have r := r.next (.cancel ()) trivial .cancel
  have r := r.next (.cancelWaiters false (some ())) trivial (.cancelWaiters rfl rfl)
  have r := r.next (.go false) trivial (.sweep rfl)
  have r := r.next (.finish false) trivial (.finish rfl)
  have r := r.next (.take true) trivial (.takeQueue rfl rfl rfl)
  exact ⟨_, r, rfl, rfl, rfl, List.mem_cons_self, rfl⟩

end JLib.IoAcceptor
