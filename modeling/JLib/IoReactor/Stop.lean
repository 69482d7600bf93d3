import JLib.IoReactor.Places

/-!
# Stopping

`Stop` cancels what is in flight, wakes the completion thread and joins it. The thread leaves at the first
sentinel it meets while the reactor is stopping, and a cancel reports with the same sentinel as the wake. So
what was in flight when `Stop` was called is delivered if the kernel posts its completions before any
sentinel; a sentinel that is posted earlier ends the thread, and what comes after it is not delivered.
-/

namespace JLib.IoReactor
open LTS Io

variable {θ ρ : Type} {w : Setup ρ} {s s' : State θ ρ} {t : θ} {r : ρ}

/-- The completions the thread has reaped and not come to. -/
def Loop.todo : Loop ρ → List (Cqe ρ)
  | .handle todo => todo
  | .retry _ todo => todo
  | .relink _ todo => todo
  | _ => []

namespace State

/-- The completions that were posted and not dealt with, in order. -/
def queue (s : State θ ρ) : List (Cqe ρ) := s.loop.todo ++ s.cq

/-- The request was in flight when some thread called `Stop`. -/
def Due (s : State θ ρ) (r : ρ) : Prop := ∃ t, r ∈ s.called t

/-- The request is in flight, or its task is collected, or its task was pushed once. -/
def Fate (s : State θ ρ) (r : ρ) : Prop :=
  r ∈ s.inFlight ∨ (r ∈ s.batchHi ++ s.batchLo ∧ s.out r ≠ none) ∨
    (s.live r = false ∧ s.pushes r = 1 ∧ s.out r ≠ none)

/-- A request in flight is with the kernel, posted or reaped. -/
lemma mem_inFlight : r ∈ s.inFlight ↔ r ∈ Op.requests s.ops ∨ r ∈ Cqe.requests s.cq ∨ r ∈ s.loop.requests := by
  unfold inFlight
  rw [List.mem_append, List.mem_append, or_assoc]

end State

/-- The kernel posts a sentinel only after the completions of what was in flight when `Stop` was called; none
is unread when `Stop` is called with something in flight; the wait of the completion thread is not
interrupted before; and nobody calls `Stop` a second time with something in flight. -/
def InOrder (s : State θ ρ) : Label θ ρ → Prop
  | .post .sentinel => ∀ r, s.Due r → r ∉ Op.requests s.ops ∧ ∀ todo, s.loop ≠ .relink r todo
  | .stop _ => s.inFlight = [] ∨ (s.stopping = false ∧ ∀ a b, s.queue ≠ a ++ .sentinel :: b)
  | .interrupted => ∀ r, s.Due r → r ∉ s.inFlight
  | _ => True

/-- What was in flight when `Stop` was called comes before every sentinel, and is delivered before the
thread leaves. -/
structure Draining (s : State θ ρ) : Prop where
  begun : s.loop = .absent → s.stopping = true
  stops : ∀ {r}, s.Due r → s.stopping = true ∧ s.loop ≠ .absent
  fate : ∀ {r}, s.Due r → s.Fate r
  order : ∀ {a b r}, s.queue = a ++ .sentinel :: b → s.Due r →
    r ∉ Cqe.requests b ∧ r ∉ Op.requests s.ops ∧ ∀ todo, s.loop ≠ .relink r todo
  exited : s.loop = .exited → s.stopping = true ∧ s.batchHi ++ s.batchLo = [] ∧ ∀ {r}, s.Due r → r ∉ s.inFlight
  joined : ∀ {t r}, s.pc t = .returned → r ∈ s.called t → s.loop = .exited

variable [DecidableEq ρ]

namespace State.Fate

/-- A flush pushes the task or leaves the request. -/
lemma flush (pl : Placed s) (h : s.Fate r) : s.flush.Fate r := by
  rcases h with h | ⟨h, out⟩ | ⟨live, push, out⟩
  · exact .inl h
  · refine .inr (.inr ⟨?_, ?_, out⟩)
    · change (s.live r && !decide _) = false
      rw [decide_eq_true h, Bool.not_true, Bool.and_false]
    · have one : (s.batchHi ++ s.batchLo).count r = 1 :=
        List.count_eq_one_of_mem (pl.custody.nodup .batch) h
      change s.pushes r + _ = 1
      rw [(pl.live (p := .batch) h).2, one]
  · have gone : r ∉ s.batchHi ++ s.batchLo := by
      intro h
      rw [(pl.live (p := .batch) h).1] at live
      cases live
    refine .inr (.inr ⟨?_, ?_, out⟩)
    · change (s.live r && _) = false
      rw [live, Bool.false_and]
    · change s.pushes r + _ = 1
      rw [List.count_eq_zero.2 gone, push]

/-- A flush of a full batch pushes the task or leaves the request. -/
lemma flushFull (pl : Placed s) (h : s.Fate r) : s.flushFull.Fate r := by
  unfold State.flushFull
  split
  · exact h.flush pl
  · exact h

omit [DecidableEq ρ] in
/-- A step that delivers nothing. -/
lemma keep (h : s.Fate r) (hf : r ∈ s.inFlight → r ∈ s'.inFlight)
    (hb : s'.batchHi ++ s'.batchLo = s.batchHi ++ s.batchLo) (hl : s.live r = false → s'.live r = false)
    (hu : s.live r = false → s'.pushes r = s.pushes r) (ho : s.out r ≠ none → s'.out r ≠ none) : s'.Fate r := by
  rcases h with h | ⟨h, out⟩ | ⟨live, push, out⟩
  · exact .inl (hf h)
  · exact .inr (.inl ⟨hb ▸ h, ho out⟩)
  · exact .inr (.inr ⟨hl live, (hu live).trans push, ho out⟩)

end State.Fate

/-- An answer that was written stays or is written over. -/
lemma out_update {f : ρ → Option IoResult} {r' : ρ} {res : IoResult} (h : f r ≠ none) :
    Function.update f r' (some res) r ≠ none := by
  rw [Function.update_apply]
  split
  · rintro ⟨⟩
  · exact h

/-- Delivery of one request. -/
lemma State.Fate.deliver {l : Loop ρ} {res : IoResult} {r' : ρ} (pl : Placed s) (h : s.Fate r)
    (hl : s.loop.requests = r' :: l.requests) : ({ s.deliver w r' res with loop := l } : State θ ρ).Fate r := by
  obtain ⟨-, h2, h3, h4, h5, h6, -, -, -, h10⟩ := State.hold_frame (w := w) { s with loop := l } r' res
  have perm := State.hold_batch (w := w) { s with loop := l } r' res
  rw [State.deliver_loop]
  apply State.Fate.flushFull (pl.hold hl)
  rcases h with h | ⟨h, out⟩ | ⟨live, push, out⟩
  · by_cases e : r = r'
    · refine .inr (.inl ⟨perm.symm.subset (e ▸ List.mem_cons_self), ?_⟩)
      rw [h10, e, Function.update_self]
      rintro ⟨⟩
    · refine .inl (State.mem_inFlight.2 ?_)
      rw [h2, h3, h4]
      rcases State.mem_inFlight.1 h with h | h | h
      · exact .inl h
      · exact .inr (.inl h)
      · rw [hl] at h
        exact .inr (.inr ((List.mem_cons.1 h).resolve_left e))
  · refine .inr (.inl ⟨perm.symm.subset (List.mem_cons_of_mem _ h), ?_⟩)
    rw [h10]
    exact out_update out
  · refine .inr (.inr ⟨?_, ?_, ?_⟩)
    · rw [h5]
      exact live
    · rw [h6]
      exact push
    · rw [h10]
      exact out_update out

/-- While the reactor is stopping a request that was in flight stays in flight, is collected or is pushed,
unless the thread leaves. -/
lemma Step.fate [DecidableEq θ] {l : Label θ ρ} (st : Step w s l s') (pl : Placed s) (stop : s.stopping = true)
    (present : s.loop ≠ .absent) (h : s.Fate r)
    (lost : ∀ todo, s.loop = .handle (.sentinel :: todo) → r ∉ s.inFlight) : s'.Fate r := by
  cases st with
  | start e => exact absurd e present
  | submitCancelled | submitStopping => exact h.keep id rfl id (fun _ => rfl) out_update
  | submit _ _ go =>
    rw [stop] at go
    cases go
  | link => exact h.keep id rfl id (fun _ => rfl) id
  | publish =>
    refine h.keep (fun h => ?_) rfl id (fun _ => rfl) id
    rw [State.mem_inFlight] at h ⊢
    exact h.imp_left (List.mem_cons_of_mem _)
  | @publishFull t r' =>
    refine h.keep id rfl (fun h => ?_) (fun _ => rfl) out_update
    change Function.update s.live r' false r = false
    rw [Function.update_apply, h, ite_self]
  | cancel => exact h.keep id rfl id (fun _ => rfl) id
  | request | sweepShard | sweepBreak | sweepEnd | stopSwept | join => exact h.keep id rfl id (fun _ => rfl) id
  | sweepAsk | stopAgain | wake | wakeFull => exact h.keep id rfl id (fun _ => rfl) id
  | stop _ go =>
    rw [stop] at go
    cases go
  | @post r' res mem =>
    refine h.keep (fun h => ?_) rfl id (fun _ => rfl) id
    rw [State.mem_inFlight] at h ⊢
    change r ∈ Op.requests (s.ops.erase (Op.request r')) ∨ r ∈ Cqe.requests (s.cq ++ [Cqe.request r' res]) ∨ _
    rw [Op.requests_erase, Cqe.requests_append, List.mem_append]
    rcases h with h | h | h
    · by_cases e : r = r'
      · exact .inr (.inl (.inr (e ▸ List.mem_cons_self)))
      · exact .inl ((List.mem_erase_of_ne e).2 h)
    · exact .inr (.inl (.inl h))
    · exact .inr (.inr h)
  | postSentinel =>
    refine h.keep (fun h => ?_) rfl id (fun _ => rfl) id
    rw [State.mem_inFlight] at h ⊢
    change r ∈ Op.requests (s.ops.erase Op.sentinel) ∨ r ∈ Cqe.requests (s.cq ++ [Cqe.sentinel]) ∨ _
    rw [Op.requests_erase_sentinel, Cqe.requests_append, List.mem_append]
    exact h.imp_right (.imp_left .inl)
  | reap hl =>
    refine h.keep (fun h => ?_) rfl id (fun _ => rfl) id
    rw [State.mem_inFlight] at h ⊢
    change _ ∨ r ∈ Cqe.requests (s.cq.drop kBatch) ∨ r ∈ Cqe.requests (s.cq.take kBatch)
    rw [or_comm (a := r ∈ Cqe.requests (s.cq.drop kBatch)), ← List.mem_append, ← Cqe.requests_append,
      List.take_append_drop]
    rw [hl] at h
    exact h.imp_right (Or.resolve_right · List.not_mem_nil)
  | emptyFlush => exact h.flush pl
  | emptyExit hl =>
    refine h.keep (fun h => ?_) rfl id (fun _ => rfl) id
    rw [State.mem_inFlight] at h ⊢
    rw [hl] at h
    exact h
  | sentinel _ go =>
    rw [stop] at go
    cases go
  | sentinelStop hl =>
    refine State.Fate.keep (h.flush pl) (fun h => ?_) rfl id (fun _ => rfl) id
    exact absurd h (lost _ hl)
  | sentinelStopFull hl =>
    refine State.Fate.keep (h.flush pl) (fun h => ?_) rfl id (fun _ => rfl) id
    exact absurd h (lost _ hl)
  | @complete r' res todo hl =>
    have kept : (s.keepSocket w r' res).Fate r := by
      unfold State.keepSocket
      split <;> exact h
    have pl' : Placed (s.keepSocket w r' res) := by
      unfold State.keepSocket
      split
      · exact pl.congr (by rintro (_ | _) <;> rfl) rfl rfl
      · exact pl
    refine kept.deliver pl' ?_
    unfold State.keepSocket
    split <;> (rw [hl]; rfl)
  | short hl =>
    refine h.keep (fun h => ?_) rfl id (fun _ => rfl) id
    rw [State.mem_inFlight] at h ⊢
    rw [hl] at h
    exact h
  | retryCancelled hl => exact h.deliver pl (by rw [hl]; rfl)
  | retryStopping hl => exact h.deliver pl (by rw [hl]; rfl)
  | retry _ _ go =>
    rw [stop] at go
    cases go
  | @relink r' todo hl =>
    refine h.keep (fun h => ?_) rfl id (fun _ => rfl) id
    rw [State.mem_inFlight] at h ⊢
    change r ∈ r' :: Op.requests s.ops ∨ _ ∨ r ∈ Cqe.requests todo
    rw [hl] at h
    rcases h with h | h | h
    · exact .inl (List.mem_cons_of_mem _ h)
    · exact .inr (.inl h)
    · rcases List.mem_cons.1 h with h | h
      · exact .inl (h ▸ List.mem_cons_self)
      · exact .inr (.inr h)
  | relinkFull hl => exact h.deliver pl (by rw [hl]; rfl)
  | batchEnd hl =>
    rw [if_pos stop]
    refine State.Fate.keep (h.flush pl) (fun h => ?_) rfl id (fun _ => rfl) id
    rw [State.mem_inFlight] at h ⊢
    change _ ∨ _ ∨ r ∈ s.loop.requests at h
    rw [hl] at h
    exact h

/-! ## What a step does to the queue and to the thread -/

/-- Delivering leaves everything but the shards, the batches and what a flush pushes. -/
lemma State.deliver_frame (s : State θ ρ) (r : ρ) (res : IoResult) :
    (s.deliver w r res).pc = s.pc ∧ (s.deliver w r res).ops = s.ops ∧ (s.deliver w r res).cq = s.cq ∧
      (s.deliver w r res).stopping = s.stopping ∧ (s.deliver w r res).called = s.called := by
  unfold deliver flushFull collect
  split <;> split <;> exact ⟨rfl, rfl, rfl, rfl, rfl⟩

/-- Delivering a completion leaves everything but the shards, the batches and what a flush pushes. -/
lemma State.complete_frame (s : State θ ρ) (r : ρ) (n : Int) (res : IoResult) :
    ((s.keepSocket w r n).deliver w r res).pc = s.pc ∧ ((s.keepSocket w r n).deliver w r res).ops = s.ops ∧
      ((s.keepSocket w r n).deliver w r res).cq = s.cq ∧
      ((s.keepSocket w r n).deliver w r res).stopping = s.stopping ∧
      ((s.keepSocket w r n).deliver w r res).called = s.called := by
  unfold keepSocket
  split <;> exact deliver_frame ..

/-- `Stop` notes what is in flight; no other step does. -/
lemma Step.called [DecidableEq θ] {l : Label θ ρ} (st : Step w s l s') :
    (∃ t, l = .stop t ∧ s.pc t = .idle ∧ s'.called = Function.update s.called t s.inFlight ∧
      s'.stopping = true ∧ s'.loop = s.loop ∧ s'.ops = s.ops ∧ s'.cq = s.cq ∧
      s'.batchHi ++ s'.batchLo = s.batchHi ++ s.batchLo ∧
      (s'.pc t = .returned → s.stopping = true) ∧ ∀ t', t' ≠ t → s'.pc t' = s.pc t') ∨
    s'.called = s.called ∧ ∀ t, l ≠ .stop t := by
  cases st with
  | @stopAgain t h stop =>
    exact .inl ⟨t, rfl, h, rfl, stop, rfl, rfl, rfl, rfl, fun _ => stop, fun t' ne => Function.update_of_ne ne ..⟩
  | @stop t h =>
    refine .inl ⟨t, rfl, h, rfl, rfl, rfl, rfl, rfl, rfl, fun e => ?_, fun t' ne => Function.update_of_ne ne ..⟩
    change Function.update s.pc t _ t = _ at e
    rw [Function.update_self] at e
    cases e
  | complete => exact .inr ⟨(State.complete_frame ..).2.2.2.2, by rintro t ⟨⟩⟩
  | retryCancelled | retryStopping | relinkFull => exact .inr ⟨(State.deliver_frame ..).2.2.2.2, by rintro t ⟨⟩⟩
  | batchEnd =>
    refine .inr ⟨?_, by rintro t ⟨⟩⟩
    split <;> rfl
  | _ => exact .inr ⟨rfl, by rintro t ⟨⟩⟩

omit [DecidableEq ρ] in
/-- Completions are dealt with from the front. -/
lemma State.queue_suffix {p : List (Cqe ρ)} (hl : s.loop.todo = p ++ s'.loop.todo) (hc : s'.cq = s.cq) :
    s'.queue <:+ s.queue := by
  refine ⟨p, ?_⟩
  unfold queue
  rw [hl, hc, List.append_assoc]

variable [DecidableEq θ]

/-- The completion thread takes completions from the front of the queue. -/
lemma Step.queue {l : Label θ ρ} (st : Step w s l s') (hl : ∀ x, l ≠ .post x) : s'.queue <:+ s.queue := by
  cases st with
  | start h | emptyExit h => exact State.queue_suffix (p := []) (by rw [h]; rfl) rfl
  | reap h =>
    refine ⟨[], ?_⟩
    change s.cq.take kBatch ++ s.cq.drop kBatch = s.loop.todo ++ s.cq
    rw [h, List.take_append_drop]
    rfl
  | sentinel h => exact State.queue_suffix (p := [.sentinel]) (by rw [h]; rfl) rfl
  | @sentinelStop todo h | @sentinelStopFull todo h =>
    refine State.queue_suffix (p := .sentinel :: todo) ?_ rfl
    rw [h]
    exact (List.append_nil _).symm
  | @complete r res todo h =>
    exact State.queue_suffix (p := [.request r res]) (by rw [h]; rfl) (State.complete_frame ..).2.2.1
  | @short r res todo h => exact State.queue_suffix (p := [.request r res]) (by rw [h]; rfl) rfl
  | retryCancelled h | retryStopping h | relinkFull h =>
    exact State.queue_suffix (p := []) (by rw [h]; rfl) (State.deliver_frame ..).2.2.1
  | retry h | relink h => exact State.queue_suffix (p := []) (by rw [h]; rfl) rfl
  | batchEnd h =>
    refine State.queue_suffix (p := []) (by rw [h]; rfl) ?_
    split <;> rfl
  | post | postSentinel => exact absurd rfl (hl _)
  | _ => exact List.suffix_rfl

/-- A request gets to the kernel from its submitter or from a short send. -/
lemma Step.mem_ops {l : Label θ ρ} (st : Step w s l s') (h : r ∈ Op.requests s'.ops) :
    r ∈ Op.requests s.ops ∨ (∃ t, s.pc t = .linked r) ∨ ∃ todo, s.loop = .relink r todo := by
  cases st with
  | publish ht =>
    rcases List.mem_cons.1 h with rfl | h
    · exact .inr (.inl ⟨_, ht⟩)
    · exact .inl h
  | relink hl =>
    rcases List.mem_cons.1 h with rfl | h
    · exact .inr (.inr ⟨_, hl⟩)
    · exact .inl h
  | post =>
    change r ∈ Op.requests (s.ops.erase _) at h
    rw [Op.requests_erase] at h
    exact .inl (List.mem_of_mem_erase h)
  | postSentinel =>
    change r ∈ Op.requests (s.ops.erase _) at h
    rw [Op.requests_erase_sentinel] at h
    exact .inl h
  | complete =>
    change r ∈ Op.requests (State.deliver ..).ops at h
    rw [(State.complete_frame ..).2.1] at h
    exact .inl h
  | retryCancelled | retryStopping | relinkFull =>
    change r ∈ Op.requests (State.deliver ..).ops at h
    rw [(State.deliver_frame ..).2.1] at h
    exact .inl h
  | batchEnd =>
    refine .inl ?_
    split at h <;> exact h
  | _ => exact .inl h

/-- A short send is submitted again only if the reactor is not stopping. -/
lemma Step.relinks {l : Label θ ρ} {todo : List (Cqe ρ)} (st : Step w s l s') (h : s'.loop = .relink r todo) :
    s.loop = .relink r todo ∨ s.stopping = false := by
  cases st with
  | retry _ _ go => exact .inr go
  | start | reap | emptyExit | sentinel | sentinelStop | sentinelStopFull | complete | short => cases h
  | retryCancelled | retryStopping | relink | relinkFull | batchEnd => cases h
  | _ => exact .inl h

/-- A reactor that is stopping stays so. -/
lemma Step.stays {l : Label θ ρ} (st : Step w s l s') (stop : s.stopping = true) (present : s.loop ≠ .absent) :
    s'.stopping = true ∧ s'.loop ≠ .absent := by
  cases st with
  | start h => exact absurd h present
  | complete => exact ⟨(State.complete_frame ..).2.2.2.1.trans stop, by rintro ⟨⟩⟩
  | retryCancelled | retryStopping | relinkFull =>
    exact ⟨(State.deliver_frame ..).2.2.2.1.trans stop, by rintro ⟨⟩⟩
  | reap | sentinel | emptyExit | sentinelStop | sentinelStopFull | short | retry | relink => exact ⟨stop, by rintro ⟨⟩⟩
  | batchEnd =>
    refine ⟨?_, by rintro ⟨⟩⟩
    rw [if_pos stop]
    exact stop
  | stop => exact ⟨rfl, present⟩
  | _ => exact ⟨stop, present⟩

/-- Before the start the reactor counts as stopping. -/
lemma Step.begun {l : Label θ ρ} (st : Step w s l s') (h : s.loop = .absent → s.stopping = true)
    (absent : s'.loop = .absent) : s'.stopping = true := by
  cases st with
  | start | reap | emptyExit | sentinel | sentinelStop | sentinelStopFull | complete | short => cases absent
  | retryCancelled | retryStopping | retry | relink | relinkFull | batchEnd => cases absent
  | stop => rfl
  | _ => exact h absent

/-- The thread leaves on a sentinel or when nothing is posted, with nothing collected. -/
lemma Step.exits {l : Label θ ρ} (st : Step w s l s') (h : s'.loop = .exited) :
    (s.loop = .exited ∧ s'.batchHi ++ s'.batchLo = s.batchHi ++ s.batchLo) ∨
    (s.stopping = true ∧ s'.batchHi ++ s'.batchLo = [] ∧
      ((l = .interrupted ∧ s.loop = .poll) ∨ ∃ todo, s.loop = .handle (.sentinel :: todo))) := by
  cases st with
  | start | reap | sentinel | complete | short | retry | retryCancelled | retryStopping | relink | relinkFull =>
    cases h
  | batchEnd => cases h
  | emptyFlush hl =>
    rw [show s.flush.loop = s.loop from rfl, hl] at h
    cases h
  | emptyExit hl _ none stop => exact .inr ⟨stop, none, .inl ⟨rfl, hl⟩⟩
  | sentinelStop hl stop => exact .inr ⟨stop, rfl, .inr ⟨_, hl⟩⟩
  | sentinelStopFull hl stop => exact .inr ⟨stop, rfl, .inr ⟨_, hl⟩⟩
  | _ => exact .inl ⟨h, rfl⟩

/-- A request that is posted was with the kernel. -/
lemma Step.mem_cq {l : Label θ ρ} (st : Step w s l s') (h : r ∈ Cqe.requests s'.cq) :
    r ∈ Cqe.requests s.cq ∨ r ∈ Op.requests s.ops := by
  cases st with
  | post mem =>
    change r ∈ Cqe.requests (s.cq ++ _) at h
    rw [Cqe.requests_append, List.mem_append] at h
    rcases h with h | h
    · exact .inl h
    · rw [List.mem_singleton.1 h]
      exact .inr (Op.mem_requests.2 mem)
  | postSentinel =>
    change r ∈ Cqe.requests (s.cq ++ _) at h
    rw [Cqe.requests_append, List.mem_append] at h
    exact .inl (h.resolve_right List.not_mem_nil)
  | reap => exact .inl (((List.drop_sublist ..).filterMap _).subset h)
  | complete =>
    change r ∈ Cqe.requests (State.deliver ..).cq at h
    rw [(State.complete_frame ..).2.2.1] at h
    exact .inl h
  | retryCancelled | retryStopping | relinkFull =>
    change r ∈ Cqe.requests (State.deliver ..).cq at h
    rw [(State.deliver_frame ..).2.2.1] at h
    exact .inl h
  | batchEnd =>
    refine .inl ?_
    split at h <;> exact h
  | _ => exact .inl h

/-- What is in flight when the thread has left was so before, or was linked by a thread. -/
lemma Step.mem_inFlight {l : Label θ ρ} (st : Step w s l s') (exit : s'.loop = .exited) (h : r ∈ s'.inFlight) :
    r ∈ s.inFlight ∨ ∃ t, s.pc t = .linked r := by
  rw [State.mem_inFlight, exit] at h
  rw [State.mem_inFlight]
  rcases h with h | h | h
  · rcases st.mem_ops h with h | h | ⟨todo, h⟩
    · exact .inl (.inl h)
    · exact .inr h
    · rw [h]
      exact .inl (.inr (.inr List.mem_cons_self))
  · exact .inl ((st.mem_cq h).symm.imp_right .inl)
  · cases h

omit [DecidableEq ρ] in
/-- Who has returned has returned before, if this step is not the return. -/
lemma pc_returned {pc : θ → Pc ρ} {t t' : θ} {c : Pc ρ} (ne : c ≠ .returned)
    (h : Function.update pc t' c t = .returned) : pc t = .returned := by
  by_cases e : t = t'
  · rw [e, Function.update_self] at h
    exact absurd h ne
  · rwa [Function.update_of_ne e] at h

/-- `Stop` returns when the thread has left, or at once when it was called before. -/
lemma Step.returns {l : Label θ ρ} (st : Step w s l s') (h : s'.pc t = .returned) :
    s.pc t = .returned ∨ s'.loop = .exited ∨ ∃ t', l = .stop t' := by
  cases st with
  | join _ exit => exact .inr (.inl exit)
  | stopAgain | stop => exact .inr (.inr ⟨_, rfl⟩)
  | submit | link | publish | publishFull | request | sweepShard | sweepAsk | sweepBreak | sweepEnd | stopSwept =>
    exact .inl (pc_returned (by rintro ⟨⟩) h)
  | wake | wakeFull => exact .inl (pc_returned (by rintro ⟨⟩) h)
  | complete =>
    change (State.deliver ..).pc t = _ at h
    rw [(State.complete_frame ..).1] at h
    exact .inl h
  | retryCancelled | retryStopping | relinkFull =>
    change (State.deliver ..).pc t = _ at h
    rw [(State.deliver_frame ..).1] at h
    exact .inl h
  | batchEnd =>
    refine .inl ?_
    split at h <;> exact h
  | _ => exact .inl h

/-- The thread that has left has left. -/
lemma Step.left {l : Label θ ρ} (st : Step w s l s') (h : s.loop = .exited) : s'.loop = .exited := by
  cases st with
  | emptyExit | sentinelStop | sentinelStopFull => rfl
  | start hl | reap hl | sentinel hl | complete hl =>
    rw [h] at hl
    cases hl
  | short hl | retryCancelled hl | retryStopping hl | retry hl | relink hl | relinkFull hl | batchEnd hl =>
    rw [h] at hl
    cases hl
  | _ => exact h

/-! ## Draining -/

omit [DecidableEq θ] [DecidableEq ρ] in
/-- A request that a thread is about to publish was not in flight when `Stop` was called. -/
lemma Draining.not_due (d : Draining s) (pl : Placed s) (h : s.pc t = .linked r) : ¬s.Due r := by
  intro due
  have mine : r ∈ s.held (.thread t) := by
    change r ∈ (s.pc t).requests
    rw [h]
    exact List.mem_cons_self
  rcases d.fate due with h | ⟨h, -⟩ | ⟨h, -⟩
  · rcases State.mem_inFlight.1 h with h | h | h
    · cases pl.custody.unique mine (q := .ops) h
    · cases pl.custody.unique mine (q := .cq) h
    · cases pl.custody.unique mine (q := .loop) h
  · cases pl.custody.unique mine (q := .batch) h
  · rw [(pl.live mine).1] at h
    cases h

omit [DecidableEq θ] [DecidableEq ρ] in
/-- What is due is not behind a sentinel the thread has come to. -/
lemma Draining.ahead {todo : List (Cqe ρ)} (d : Draining s) (hl : s.loop = .handle (.sentinel :: todo))
    (due : s.Due r) : r ∉ s.inFlight := by
  have first : s.queue = [] ++ .sentinel :: (todo ++ s.cq) := by
    unfold State.queue
    rw [hl]
    rfl
  obtain ⟨behind, ops, -⟩ := d.order first due
  rw [Cqe.requests_append, List.mem_append] at behind
  rw [State.mem_inFlight, hl]
  rintro (h | h | h)
  · exact ops h
  · exact behind (.inr h)
  · exact behind (.inl h)

omit [DecidableEq ρ] in
/-- Where a list splits that has one element more. -/
lemma split_concat {q a b : List (Cqe ρ)} {x y : Cqe ρ} (h : q ++ [x] = a ++ y :: b) :
    b = [] ∨ ∃ b', q = a ++ y :: b' ∧ b = b' ++ [x] := by
  rcases List.eq_nil_or_concat b with rfl | ⟨b', z, rfl⟩
  · exact .inl rfl
  · rw [List.concat_eq_append, ← List.cons_append, ← List.append_assoc] at h
    obtain ⟨e, ⟨⟩⟩ := List.append_inj' h rfl
    exact .inr ⟨b', e, List.concat_eq_append⟩

/-- A completion is posted behind what is in the queue. -/
lemma Step.queue_post {x : Cqe ρ} (st : Step w s (.post x) s') : s'.queue = s.queue ++ [x] := by
  cases st <;> exact (List.append_assoc ..).symm

/-- A step under the condition puts no sentinel before what is due. -/
lemma Draining.order_step {l : Label θ ρ} {a b : List (Cqe ρ)} (d : Draining s) (pl : Placed s)
    (hok : InOrder s l) (st : Step w s l s') (due : s.Due r) (hq : s'.queue = a ++ .sentinel :: b) :
    r ∉ Cqe.requests b ∧ r ∉ Op.requests s'.ops ∧ ∀ todo, s'.loop ≠ .relink r todo := by
  -- a sentinel was in the queue, or this step posts the first
  have was : r ∉ Cqe.requests b ∧ r ∉ Op.requests s.ops ∧ ∀ todo, s.loop ≠ .relink r todo := by
    by_cases posts : ∃ x, l = .post x
    · obtain ⟨x, rfl⟩ := posts
      rw [st.queue_post] at hq
      rcases split_concat hq with rfl | ⟨b', e, rfl⟩
      · cases x with
        | sentinel => exact ⟨List.not_mem_nil, hok r due⟩
        | request r' res =>
          obtain ⟨-, ⟨⟩⟩ := List.append_inj' hq rfl
      · obtain ⟨behind, ops, relink⟩ := d.order e due
        refine ⟨?_, ops, relink⟩
        rw [Cqe.requests_append, List.mem_append]
        rintro (h | h)
        · exact behind h
        · cases st with
          | postSentinel => cases h
          | post mem =>
            rw [List.mem_singleton.1 h] at ops
            exact ops (Op.mem_requests.2 mem)
    · obtain ⟨pre, e⟩ := st.queue fun x e => posts ⟨x, e⟩
      rw [hq, ← List.append_assoc] at e
      exact d.order e.symm due
  refine ⟨was.1, fun h => ?_, fun todo h => ?_⟩
  · rcases st.mem_ops h with h | ⟨t, h⟩ | ⟨todo, h⟩
    · exact was.2.1 h
    · exact d.not_due pl h due
    · exact was.2.2 todo h
  · rcases st.relinks h with h | h
    · exact was.2.2 todo h
    · rw [(d.stops due).1] at h
      cases h

omit [DecidableEq θ] [DecidableEq ρ] in
/-- `Stop` was not called yet. -/
lemma Draining.init : Draining ({} : State θ ρ) where
  begun _ := rfl
  stops := by
    rintro r ⟨t, h⟩
    cases h
  fate := by
    rintro r ⟨t, h⟩
    cases h
  order := by
    rintro a b r - ⟨t, h⟩
    cases h
  exited := by rintro ⟨⟩
  joined := by rintro t r ⟨⟩

/-- A step that is not a call of `Stop`. -/
lemma Draining.step_of_called {l : Label θ ρ} (d : Draining s) (pl : Placed s) (hok : InOrder s l)
    (st : Step w s l s') (hc : s'.called = s.called) (hl : ∀ t, l ≠ .stop t) : Draining s' := by
  have due : ∀ {r}, s'.Due r → s.Due r := by
    rintro r ⟨t, h⟩
    rw [hc] at h
    exact ⟨t, h⟩
  refine ⟨fun h => ?_, fun h => ?_, fun h => ?_, fun hq h => ?_, fun h => ?_, fun {t r} ht hr => ?_⟩
  · exact st.begun d.begun h
  · exact st.stays (d.stops (due h)).1 (d.stops (due h)).2
  · exact st.fate pl (d.stops (due h)).1 (d.stops (due h)).2 (d.fate (due h))
      fun todo hl => d.ahead hl (due h)
  · exact d.order_step pl hok st (due h) hq
  · obtain ⟨⟨stop, present, batch⟩, out⟩ : (s.stopping = true ∧ s.loop ≠ .absent ∧ s'.batchHi ++ s'.batchLo = []) ∧
        ∀ {r}, s.Due r → r ∉ s.inFlight := by
      rcases st.exits h with ⟨e, batch⟩ | ⟨stop, batch, ⟨rfl, e⟩ | ⟨todo, e⟩⟩
      · obtain ⟨stop, none, out⟩ := d.exited e
        exact ⟨⟨stop, by rw [e]; rintro ⟨⟩, batch.trans none⟩, out⟩
      · exact ⟨⟨stop, by rw [e]; rintro ⟨⟩, batch⟩, fun due => hok _ due⟩
      · exact ⟨⟨stop, by rw [e]; rintro ⟨⟩, batch⟩, d.ahead e⟩
    refine ⟨(st.stays stop present).1, batch, fun {r} hr mem => ?_⟩
    rcases st.mem_inFlight h mem with mem | ⟨t, ht⟩
    · exact out (due hr) mem
    · exact d.not_due pl ht (due hr)
  · rw [hc] at hr
    rcases st.returns ht with ht | exit | ⟨t', e⟩
    · exact st.left (d.joined ht hr)
    · exact exit
    · exact absurd e (hl t')

/-- A step under the condition keeps what is due before the sentinels. -/
lemma Draining.step {l : Label θ ρ} (d : Draining s) (pl : Placed s) (hok : InOrder s l)
    (st : Step w s l s') : Draining s' := by
  rcases st.called with ⟨t, rfl, idle, hc, stop, loop, ops, cq, batch, again, frame⟩ | ⟨hc, hl⟩
  · have queue : s'.queue = s.queue := by
      unfold State.queue
      rw [loop, cq]
    have flight : s'.inFlight = s.inFlight := by
      unfold State.inFlight
      rw [loop, ops, cq]
    have due : ∀ {r}, s'.Due r → s.Due r ∨ r ∈ s.inFlight := by
      rintro r ⟨t', h⟩
      rw [hc, Function.update_apply] at h
      split at h
      · exact .inr h
      · exact .inl ⟨t', h⟩
    have first : ∀ {r}, r ∈ s.inFlight → s.stopping = false ∧ ∀ a b, s.queue ≠ a ++ .sentinel :: b := by
      intro r h
      refine hok.resolve_left fun e => ?_
      rw [e] at h
      cases h
    refine ⟨fun _ => stop, fun h => ⟨stop, ?_⟩, fun h => ?_, fun hq h => ?_, fun h => ?_, fun {t' r} ht hr => ?_⟩
    · rw [loop]
      rcases due h with h | h
      · exact (d.stops h).2
      · intro absent
        have stopped := d.begun absent
        rw [(first h).1] at stopped
        cases stopped
    · rcases due h with h | h
      · exact st.fate pl (d.stops h).1 (d.stops h).2 (d.fate h) fun todo hl => d.ahead hl h
      · exact .inl (flight ▸ h)
    · rcases due h with h | h
      · exact d.order_step pl hok st h hq
      · exact absurd (queue ▸ hq) ((first h).2 _ _)
    · rw [loop] at h
      obtain ⟨stopped, none, out⟩ := d.exited h
      refine ⟨stop, batch.trans none, fun {r} h => ?_⟩
      rw [flight]
      rcases due h with h | h
      · exact out h
      · rw [(first h).1] at stopped
        cases stopped
    · rw [loop]
      by_cases e : t' = t
      · subst e
        rw [hc, Function.update_self] at hr
        have stopped := again ht
        rw [(first hr).1] at stopped
        cases stopped
      · rw [hc, Function.update_of_ne e] at hr
        rw [frame t' e] at ht
        exact d.joined ht hr
  · exact d.step_of_called pl hok st hc hl

/-- In a run under the condition what is due comes before every sentinel. -/
lemma Draining.of_runs (rn : Runs (Step w) InOrder {} s) : Draining s := by
  induction rn with
  | refl => exact .init
  | tail rn hok st ih => exact ih.step (placed_of_runs rn) hok st

/-- When `Stop` returns, what was in flight when it was called is in no shard, its result is written and its
task was pushed once. -/
theorem stop_drains (rn : Runs (Step w) InOrder {} s) (ret : s.pc t = .returned) (called : r ∈ s.called t) :
    (∀ i, r ∉ s.shard i) ∧ s.out r ≠ none ∧ s.pushes r = 1 := by
  have d := Draining.of_runs rn
  obtain ⟨-, none, out⟩ := d.exited (d.joined ret called)
  rcases d.fate ⟨t, called⟩ with h | ⟨h, -⟩ | ⟨live, pushes, answered⟩
  · exact absurd h (out ⟨t, called⟩)
  · rw [none] at h
    cases h
  · exact ⟨(Shelved.of_runs rn).out (.inl live), answered, pushes⟩

/-- The sweep goes through shards in which it finds nothing. -/
lemma sweep_empty {ok : State θ ρ → Label θ ρ → Prop} {s₀ : State θ ρ} {b : Bool} {p : ρ → Bool} {i : Nat}
    (rn : Runs (Step w) ok s₀ s) (hok : ∀ s, ok s (.sweep t)) (ht : s.pc t = .sweep b p i [])
    (le : i ≤ kShards) (none : ∀ j, i ≤ j → (s.shard j).filter p = []) :
    Runs (Step w) ok s₀ (s.setPc t (.sweep b p kShards [])) := by
  obtain ⟨n, hn⟩ := Nat.exists_eq_add_of_le le
  induction n generalizing s i with
  | zero =>
    have same : s.setPc t (.sweep b p kShards []) = s := by
      unfold State.setPc
      rw [hn, Nat.add_zero, ← ht, Function.update_eq_self]
    rw [same]
    exact rn
  | succ n ih =>
    have st := Step.sweepShard (w := w) ht (by omega)
    rw [none i (Nat.le_refl i)] at st
    have last := ih (rn.next _ (hok _) st) (Function.update_self ..) (by omega)
      (fun j hj => none j (by omega)) (by omega)
    unfold State.setPc at last ⊢
    rwa [Function.update_idem] at last

/-- One request, in the first shard. -/
def oneRequest : Setup Unit where
  shardFor _ := 0
  kind _ := .recv
  lowLatency _ := false

/-- Its completion is posted before the cancel reports and before the wake. -/
theorem stop_drains_one : ∃ s : State Unit Unit, Runs (Step oneRequest) InOrder {} s ∧ s.pc () = .returned ∧
    () ∈ s.called () ∧ (∀ i, () ∉ s.shard i) ∧ s.out () ≠ none ∧ s.pushes () = 1 := by
  have r : Runs (Step oneRequest) InOrder ({} : State Unit Unit) {} := .refl
  have r := r.next .start trivial (.start rfl)
  have r := r.next (.submit () () 0) trivial (.submit rfl rfl rfl)
  have r := r.next (.link ()) trivial (.link rfl)
  have r := r.next (.publish ()) trivial (.publish rfl)
  have r := r.next (.stop ()) (.inr ⟨rfl, fun a b h => by cases a <;> cases h⟩) (.stop rfl rfl)
  have r := r.next (.sweep ()) trivial (.sweepShard rfl (by decide))
  have r := r.next (.sweep ()) trivial (.sweepAsk rfl)
  have r := sweep_empty (t := ()) (b := true) (p := fun _ => true) (i := 1) r (fun _ => trivial) rfl (by decide)
    (fun j hj => congrArg _ (Function.update_of_ne (Nat.ne_of_gt hj) ..))
  have r := r.next (.sweep ()) trivial (.stopSwept rfl)
  have r := r.next (.sweep ()) trivial (.wake rfl)
  have r := r.next (.post (.request () 5)) trivial (.post (.tail _ (.tail _ (.head _))))
  have r := r.next (.post .sentinel) (fun _ _ => ⟨List.not_mem_nil, by rintro todo ⟨⟩⟩) (.postSentinel (by decide))
  have r := r.next .loop trivial (.reap rfl (List.cons_ne_nil _ _))
  have r := r.next .loop trivial (.complete rfl (by decide))
  have r := r.next .loop trivial (.sentinelStop rfl rfl)
  have r := r.next (.sweep ()) trivial (.join rfl rfl)
  exact ⟨_, r, rfl, List.mem_cons_self, stop_drains (t := ()) (r := ()) r rfl List.mem_cons_self⟩

/-- The cancel reports before the request completes: the thread leaves, and `Stop` returns with the request
in its shard, without a result and not pushed. -/
theorem cancel_ack_not_drained : ∃ s : State Unit Unit, Reaches (Step oneRequest) {} s ∧ s.pc () = .returned ∧
    () ∈ s.called () ∧ () ∈ s.shard 0 ∧ s.out () = none ∧ s.pushes () = 0 := by
  have r : Reaches (Step oneRequest) ({} : State Unit Unit) {} := .refl
  have r := r.next .start trivial (.start rfl)
  have r := r.next (.submit () () 0) trivial (.submit rfl rfl rfl)
  have r := r.next (.link ()) trivial (.link rfl)
  have r := r.next (.publish ()) trivial (.publish rfl)
  have r := r.next (.stop ()) trivial (.stop rfl rfl)
  have r := r.next (.sweep ()) trivial (.sweepShard rfl (by decide))
  have r := r.next (.sweep ()) trivial (.sweepAsk rfl)
  have r := r.next (.post .sentinel) trivial (.postSentinel List.mem_cons_self)
  have r := r.next .loop trivial (.reap rfl (List.cons_ne_nil _ _))
  have r := r.next .loop trivial (.sentinelStop rfl rfl)
  have r := sweep_empty (t := ()) (b := true) (p := fun _ => true) (i := 1) r (fun _ => trivial) rfl (by decide)
    (fun j hj => congrArg _ (Function.update_of_ne (Nat.ne_of_gt hj) ..))
  have r := r.next (.sweep ()) trivial (.stopSwept rfl)
  have r := r.next (.sweep ()) trivial (.wake rfl)
  have r := r.next (.sweep ()) trivial (.join rfl rfl)
  exact ⟨_, r, rfl, List.mem_cons_self, List.mem_cons_self, rfl, rfl⟩

end JLib.IoReactor
