import JLib.MPSCQueue.Fifo

/-!
# The emptiness a park decision may trust

`quiescent` of `include/TaskMPSCQueue.h`: the consumer looks at its own `tail_` and `stub_`, loads the link
of the stub and then `head_`. The producers go on between the two loads. `empty` is the same without the
last load, and has no part in what is said here.
-/

namespace JLib.MPSCQueue
open LTS Links Queue

variable {α ι : Type} [DecidableEq α] [DecidableEq ι]

/-- Where the consumer is in `quiescent`: past the load of a null link, with its local `tail`. -/
inductive Ask (α : Type) where
  | idle
  | unlinked (tail : α)
  deriving DecidableEq

/-- A queue whose consumer also calls `quiescent`, with what the last call returned. -/
structure Asked (α ι : Type) where
  queue : Queue α ι
  ask : Ask α := .idle
  answer : Option Bool := none

namespace Asked

def reply (s : Asked α ι) (b : Bool) : Asked α ι := { s with ask := .idle, answer := some b }

/-- One atomic action of `quiescent`, with the local ones up to the next. -/
def quiescent (s : Asked α ι) : Asked α ι :=
  match s.ask with
  | .idle =>
    if s.queue.tail ≠ s.queue.stub then s.reply false
    else
      match s.queue.next s.queue.tail with
      | some _ => s.reply false
      | none => { s with ask := .unlinked s.queue.tail, answer := none }
  | .unlinked tail => s.reply (s.queue.head = tail)

end Asked

/-- The consumer is in one call at a time. -/
inductive Asks : Asked α ι → Option (Label α ι) → Asked α ι → Prop where
  | queue {s : Asked α ι} {l q} :
    (l = .pop → s.ask = .idle) →
    Step s.queue l q →
    Asks s (some l) { s with queue := q }
  | quiescent {s : Asked α ι} :
    s.queue.pc = .idle →
    Asks s none s.quiescent

variable {s : Asked α ι} {q q' : Queue α ι} {l : Label α ι}

omit [DecidableEq ι] in
/-- `quiescent` only reads the queue. -/
lemma Asked.quiescent_queue (s : Asked α ι) : s.quiescent.queue = s.queue := by
  unfold Asked.quiescent Asked.reply
  split
  · split
    · rfl
    · split
      · rfl
      · rfl
  · rfl

/-- A run with calls of `quiescent` is a run of the queue. -/
lemma Asks.queue_runs {next : α → Option α} {stub : α}
    (rn : Reaches Asks { queue := Queue.init next stub } s) :
    Reaches Step (Queue.init next stub) s.queue := by
  induction rn with
  | refl => exact .refl
  | tail _ _ st ih =>
    cases st with
    | queue _ st => exact ih.tail trivial st
    | quiescent _ =>
      rw [Asked.quiescent_queue]
      exact ih

/-- A producer does not move the consumer. -/
lemma Step.consumer (st : Step q l q') (ne : l ≠ .pop) : q'.tail = q.tail ∧ q'.stub = q.stub := by
  cases st with
  | push _ _ _ _ => exact ⟨rfl, rfl⟩
  | exchange _ =>
    unfold Queue.exchange
    split
    · exact ⟨rfl, rfl⟩
    · exact ⟨rfl, rfl⟩
  | link _ =>
    unfold Queue.link
    split
    · exact ⟨rfl, rfl⟩
    · exact ⟨rfl, rfl⟩
  | foreign _ => exact ⟨rfl, rfl⟩
  | pop => exact absurd rfl ne

omit [DecidableEq ι] in
/-- Only a null link of the stub leads to the second load. -/
lemma Asked.quiescent_unlinked {tail : α} (idle : s.ask = .idle) (h : s.quiescent.ask = .unlinked tail) :
    s.queue.tail = tail ∧ tail = s.queue.stub := by
  unfold Asked.quiescent Asked.reply at h
  simp only [idle] at h
  split at h
  · cases h
  next on =>
    have on : s.queue.tail = s.queue.stub := not_not.mp on
    split at h
    · cases h
    · cases h
      exact ⟨rfl, on⟩

omit [DecidableEq ι] in
/-- The second load ends the call. -/
lemma Asked.quiescent_idle {tail : α} (h : s.ask = .unlinked tail) : s.quiescent.ask = .idle := by
  unfold Asked.quiescent Asked.reply
  rw [h]

omit [DecidableEq ι] in
/-- The answer true comes from the second load. -/
lemma Asked.quiescent_true (yes : s.quiescent.answer = some true) :
    ∃ tail, s.ask = .unlinked tail ∧ s.queue.head = tail := by
  unfold Asked.quiescent Asked.reply at yes
  split at yes
  · split at yes
    · cases yes
    · split at yes
      · cases yes
      · cases yes
  next tail ask => exact ⟨tail, ask, by simpa using yes⟩

/-- Between its two loads the consumer stands on the stub. -/
lemma Asks.on_stub {next : α → Option α} {stub : α} {tail : α}
    (rn : Reaches Asks { queue := Queue.init next stub } s) (h : s.ask = .unlinked tail) :
    s.queue.tail = tail ∧ tail = s.queue.stub := by
  induction rn generalizing tail with
  | refl => cases h
  | @tail s _ _ _ _ st ih =>
    cases st with
    | queue one st =>
      obtain ⟨et, es⟩ := Step.consumer st (fun pop => by rw [one pop] at h; cases h)
      obtain ⟨e, on⟩ := ih h
      exact ⟨et.trans e, on.trans es.symm⟩
    | quiescent _ =>
      rw [Asked.quiescent_queue]
      cases ask : s.ask with
      | idle => exact Asked.quiescent_unlinked ask h
      | unlinked t =>
        rw [Asked.quiescent_idle ask] at h
        cases h

/-- When `quiescent` loads `head_` and returns true, every task whose exchange has happened was popped,
whether or not its link is stored. -/
theorem quiescent_sound {next : α → Option α} {stub : α}
    (rn : Reaches Asks { queue := Queue.init next stub } s) (yes : s.quiescent.answer = some true) :
    s.queue.popped = s.queue.order := by
  obtain ⟨tail, ask, head⟩ := Asked.quiescent_true yes
  obtain ⟨e, on⟩ := Asks.on_stub rn ask
  obtain ⟨⟨Q, ch, -⟩, -, -⟩ := chained_reached (Asks.queue_runs rn)
  have alone : Q = [s.queue.tail] := ch.single (e.trans head.symm)
  rw [ch.order, alone, e, on]
  simp

/-- The consumer loads the link of the stub while a push has not exchanged yet; true afterwards would be
wrong, and the answer is false. After the pop the answer is true. -/
theorem quiescent_sound_emptied :
    ∃ s : Asked Nat Unit, Reaches Asks { queue := Queue.init (fun _ => none) 0 } s ∧
      s.queue.popped = [1] ∧ s.quiescent.answer = some true ∧ s.queue.popped = s.queue.order := by
  have r1 := (Runs.refl : Reaches Asks ({ queue := Queue.init (fun _ => none) 0 } : Asked Nat Unit) _).next
    (some (.push () [1])) trivial (.queue (by rintro ⟨⟩) (.push rfl (by decide) (by decide) fun x hx => ⟨by
      rintro rfl
      simp [Queue.init] at hx, by simp [Queue.rest, Queue.init], nofun⟩))
  have r2 := r1.next none trivial (.quiescent rfl)
  have r3 := r2.next (some (.exchange ())) trivial (.queue (by rintro ⟨⟩) (.exchange rfl))
  have r4 := r3.next none trivial (.quiescent rfl)
  have r5 := r4.next (some (.link ())) trivial (.queue (by rintro ⟨⟩) (.link rfl))
  have r6 := r5.next (some .pop) trivial (.queue (fun _ => rfl) .pop)
  have r7 := r6.next (some .pop) trivial (.queue (fun _ => rfl) .pop)
  have r8 := r7.next (some .pop) trivial (.queue (fun _ => rfl) .pop)
  have r9 := r8.next (some .pop) trivial (.queue (fun _ => rfl) .pop)
  have r10 := r9.next (some .pop) trivial (.queue (fun _ => rfl) .pop)
  have r11 := r10.next (some .pop) trivial (.queue (fun _ => rfl) .pop)
  have r12 := r11.next (some .pop) trivial (.queue (fun _ => rfl) .pop)
  have r13 := r12.next none trivial (.quiescent rfl)
  exact ⟨_, r13, rfl, rfl, quiescent_sound r13 rfl⟩

end JLib.MPSCQueue
