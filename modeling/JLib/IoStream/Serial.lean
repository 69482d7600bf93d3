import JLib.IoStream.Model
import JLib.LTS.Custody

/-!
# One transfer at a time

A request is at one place from the time its caller enters `SubmitChained` until it is answered: with the
thread that works on it, in the line of its direction, or with the reactor. The right to hand in a request
of a direction is at one place too: with a thread between the lock and its next call, or with the request
that is with the reactor. `busy` says that somebody has it.
-/

namespace JLib.IoStream
open LTS Links

variable {θ ρ : Type}

/-- Where a request can be. -/
inductive Place (θ : Type) where
  | thread (t : θ)
  | line (k : Kind)
  | kernel (k : Kind)
  deriving DecidableEq

def Unwind.request : Unwind ρ → ρ
  | caller r => r
  | completion r => r

namespace Pc

/-- The requests a thread works on. -/
def requests : Pc ρ → List ρ
  | idle => []
  | enter _ r => [r]
  | first _ r => [r]
  | later _ r u => [r, u.request]
  | advance _ u => [u.request]
  | unwind u => [u.request]

/-- The thread has the right to hand in the next request of the direction. -/
def token (k : Kind) : Pc ρ → Bool
  | first k' _ => k = k'
  | later k' _ _ => k = k'
  | advance k' _ => k = k'
  | _ => false

/-- The request the thread is about to hand in. -/
def submitting : Pc ρ → List ρ
  | first _ r => [r]
  | later _ r _ => [r]
  | _ => []

end Pc

def State.held (s : State θ ρ) : Place θ → List ρ
  | .thread t => (s.pc t).requests
  | .line k => s.line k
  | .kernel k => s.kernel k

/-- Every request in use is at one place at most, and nothing else is anywhere. -/
structure Placed (s : State θ ρ) : Prop where
  custody : Custody s.held
  live : ∀ {p r}, r ∈ s.held p → s.live r = true

variable {s s' : State θ ρ} {t : θ} {k : Kind} {r : ρ} {c : Pc ρ}

/-- A thread's step changes what the thread has. -/
lemma held_setPc [DecidableEq θ] (s : State θ ρ) (t : θ) (c : Pc ρ) :
    (s.setPc t c).held = Function.update s.held (.thread t) c.requests := by
  funext p
  cases p with
  | thread t' =>
    change (Function.update s.pc t c t').requests = _
    by_cases e : t' = t
    · rw [e, Function.update_self, Function.update_self]
    · rw [Function.update_of_ne e, Function.update_of_ne (by rintro ⟨⟩; exact e rfl)]
      rfl
  | line k => rfl
  | kernel k => rfl

namespace Placed

/-- Only where requests are and which are in use matters. -/
lemma congr (pl : Placed s) (hh : s'.held = s.held) (hl : s'.live = s.live) : Placed s' := by
  refine ⟨?_, fun {p r} h => ?_⟩
  · rw [hh]
    exact pl.custody
  · rw [hh] at h
    rw [hl]
    exact pl.live h

/-- A request goes from one place to another. -/
lemma move (pl : Placed s) (mv : Custody.Moved s.held s'.held) (hl : s'.live = s.live) : Placed s' := by
  obtain ⟨p, q, ne, frame, perm⟩ := id mv
  refine ⟨pl.custody.move ne frame perm.subperm, fun {p r} h => ?_⟩
  obtain ⟨p, h⟩ := mv.mem.1 ⟨p, h⟩
  rw [hl]
  exact pl.live h

/-- A thread has done with some of its requests. -/
lemma shrink [DecidableEq θ] (pl : Placed s) (hh : s'.held = Function.update s.held (.thread t) c.requests)
    (sub : c.requests.Sublist (s.pc t).requests)
    (hl : ∀ r, (∃ p, r ∈ s'.held p) → s'.live r = s.live r) : Placed s' := by
  have back : ∀ {p r}, r ∈ s'.held p → ∃ p, r ∈ s.held p := by
    intro p r h
    rw [hh] at h
    by_cases e : p = .thread t
    · rw [e, Function.update_self] at h
      exact ⟨.thread t, sub.subset h⟩
    · rw [Function.update_of_ne e] at h
      exact ⟨p, h⟩
  refine ⟨?_, fun {p r} h => ?_⟩
  · rw [hh]
    refine pl.custody.shrink (fun q hq => Function.update_of_ne hq ..) ?_
    rw [Function.update_self]
    exact sub.subperm
  · rw [hl r ⟨p, h⟩]
    obtain ⟨q, h⟩ := back h
    exact pl.live h

/-- A thread takes up a request that is not in use. -/
lemma put [DecidableEq θ] [DecidableEq ρ] (pl : Placed s) (hh : s'.held = Function.update s.held (.thread t) [r])
    (idle : s.pc t = .idle) (free : s.live r = false)
    (hl : s'.live = Function.update s.live r true) : Placed s' := by
  have nowhere : ∀ p, r ∉ s.held p := by
    intro p h
    rw [pl.live h] at free
    cases free
  have empty : s.held (.thread t) = [] := by
    change (s.pc t).requests = []
    rw [idle]
    rfl
  refine ⟨?_, fun {p r'} h => ?_⟩
  · rw [hh]
    refine pl.custody.put nowhere (fun q hq => Function.update_of_ne hq ..) ?_
    rw [Function.update_self, empty]
  · rw [hl, Function.update_apply]
    rw [hh] at h
    split
    · rfl
    · rename_i ne
      by_cases e : p = .thread t
      · rw [e, Function.update_self] at h
        exact absurd (List.mem_singleton.1 h) ne
      · rw [Function.update_of_ne e] at h
        exact pl.live h

/-- A request a thread works on is nowhere else. -/
lemma not_line (pl : Placed s) (h : r ∈ (s.pc t).requests) : r ∉ s.line k := by
  intro h'
  have := pl.custody.unique (p := .thread t) (q := .line k) h h'
  cases this

/-- What a thread works on is not with the reactor. -/
lemma not_kernel (pl : Placed s) (h : r ∈ (s.pc t).requests) : r ∉ s.kernel k := by
  intro h'
  have := pl.custody.unique (p := .thread t) (q := .kernel k) h h'
  cases this

/-- What is with the reactor is in no line. -/
lemma kernel_not_line {k' : Kind} (pl : Placed s) (h : r ∈ s.kernel k) : r ∉ s.line k' := by
  intro h'
  have := pl.custody.unique (p := .kernel k) (q := .line k') h h'
  cases this

/-- A request is in one line at most. -/
lemma line_unique {k' : Kind} (pl : Placed s) (h : r ∈ s.line k) (h' : r ∈ s.line k') : k = k' := by
  have := pl.custody.unique (p := .line k) (q := .line k') h h'
  cases this
  rfl

/-- A request is worked on by one thread at most. -/
lemma thread_unique {t' : θ} (pl : Placed s) (h : r ∈ (s.pc t).requests) (h' : r ∈ (s.pc t').requests) :
    t = t' := by
  have := pl.custody.unique (p := .thread t) (q := .thread t') h h'
  cases this
  rfl

end Placed

variable [DecidableEq θ]

/-- A request goes between a thread and a line or the reactor. -/
lemma moved_of {q : Place θ} {l : List ρ} (ne : q ≠ .thread t)
    (hh : s'.held = Function.update (Function.update s.held q l) (.thread t) c.requests)
    (perm : (l ++ c.requests).Perm (s.held q ++ (s.pc t).requests)) : Custody.Moved s.held s'.held := by
  refine ⟨q, .thread t, ne, fun p h1 h2 => ?_, ?_⟩
  · rw [hh, Function.update_of_ne h2, Function.update_of_ne h1]
  · rw [hh, Function.update_of_ne ne, Function.update_self, Function.update_self]
    exact perm

/-- The line of a direction is exchanged. -/
lemma held_line (s : State θ ρ) (k : Kind) (l : List ρ) :
    { s with line := Function.update s.line k l }.held = Function.update s.held (.line k) l := by
  funext p
  cases p with
  | thread t => rfl
  | line k' =>
    change Function.update s.line k l k' = _
    by_cases e : k' = k
    · rw [e, Function.update_self, Function.update_self]
    · have ne : Place.line (θ := θ) k' ≠ .line k := by
        rintro ⟨⟩
        exact e rfl
      rw [Function.update_of_ne e, Function.update_of_ne ne]
      rfl
  | kernel k => rfl

/-- What is with the reactor is exchanged. -/
lemma held_kernel (s : State θ ρ) (k : Kind) (l : List ρ) :
    { s with kernel := Function.update s.kernel k l }.held = Function.update s.held (.kernel k) l := by
  funext p
  cases p with
  | thread t => rfl
  | line k => rfl
  | kernel k' =>
    change Function.update s.kernel k l k' = _
    by_cases e : k' = k
    · rw [e, Function.update_self, Function.update_self]
    · have ne : Place.kernel (θ := θ) k' ≠ .kernel k := by
        rintro ⟨⟩
        exact e rfl
      rw [Function.update_of_ne e, Function.update_of_ne ne]
      rfl

/-- A thread goes on with the same requests. -/
lemma Placed.stay (pl : Placed s) (hh : s'.held = s.held) (hl : s'.live = s.live)
    (hr : c.requests = (s.pc t).requests) : Placed (s'.setPc t c) := by
  refine pl.congr ?_ hl
  rw [held_setPc, hh, hr]
  exact Function.update_eq_self ..

/-- A thread has done with its last request, which can be used again. -/
lemma Placed.done [DecidableEq ρ] {u : Unwind ρ} (pl : Placed s) (h : s.pc t = .unwind u)
    (hh : s'.held = Function.update s.held (.thread t) [])
    (hl : s'.live = Function.update s.live u.request false) : Placed s' := by
  refine pl.shrink (c := .idle) hh (List.nil_sublist _) fun r' ⟨p, hr⟩ => ?_
  rw [hl, Function.update_of_ne]
  rintro rfl
  rw [hh] at hr
  have mine : u.request ∈ s.held (.thread t) := by
    change _ ∈ (s.pc t).requests
    rw [h]
    exact List.mem_cons_self
  by_cases e : p = .thread t
  · rw [e, Function.update_self] at hr
    cases hr
  · rw [Function.update_of_ne e] at hr
    exact e (pl.custody.unique hr mine)

/-- The links of a direction spell its line. -/
def State.Linked (s : State θ ρ) (k : Kind) : Prop :=
  Fifo s.next (s.chain k).head (s.chain k).tail (s.line k)

omit [DecidableEq θ] in
/-- The head of the queue is the first of the line. -/
lemma State.Linked.pop (lk : s.Linked k) (head : (s.chain k).head = some r) :
    ∃ l, s.line k = r :: l ∧ Fifo s.next (s.next r) (if s.next r = none then none else (s.chain k).tail) l := by
  unfold State.Linked at lk
  rw [head] at lk
  exact Fifo.pop lk

/-- No completion comes of an entry that a failed enter left. -/
def Sole (_ : State θ ρ) : Label θ ρ → Prop
  | .stray _ _ _ => False
  | _ => True

/-- A step under the condition keeps every request in use at one place. -/
lemma Step.placed [DecidableEq ρ] {l : Label θ ρ} (st : Step s l s') (sole : Sole s l) (pl : Placed s)
    (lk : ∀ k, s.Linked k) : Placed s' := by
  cases st with
  | stray => exact sole.elim
  | refuse | tooLate | cancel | relink | strand => exact pl.congr rfl rfl
  | enter h free => exact pl.put (held_setPc ..) h free rfl
  | @queue t k r h =>
    refine pl.move (moved_of (t := t) (c := .idle) (q := .line k) (l := s.line k ++ [r]) ?_ ?_ ?_) rfl
    · rintro ⟨⟩
    · rw [← held_line]
      exact held_setPc ..
    · rw [h]
      simp [Pc.requests, State.held]
  | start h => exact pl.stay rfl rfl (by rw [h]; rfl)
  | @acceptFirst t k r x h =>
    refine pl.move (moved_of (t := t) (c := .idle) (q := .kernel k) (l := r :: s.kernel k) ?_ ?_ ?_) rfl
    · rintro ⟨⟩
    · rw [← held_kernel]
      exact held_setPc ..
    · rw [h]
      have swap : ([r] ++ s.kernel k).Perm (s.kernel k ++ [r]) := List.perm_append_comm
      simpa [Pc.requests, State.held] using swap
  | answerFirst h | failFirst h => exact pl.stay rfl rfl (by rw [h]; rfl)
  | @acceptLater t k r u x h =>
    refine pl.move
      (moved_of (t := t) (c := .unwind u) (q := .kernel k) (l := r :: s.kernel k) ?_ ?_ ?_) rfl
    · rintro ⟨⟩
    · rw [← held_kernel]
      exact held_setPc ..
    · rw [h]
      exact List.perm_middle.symm
  | answerLater h | failLater h =>
    refine pl.shrink (held_setPc ..) ?_ fun _ _ => rfl
    rw [h]
    exact List.sublist_cons_self ..
  | @pop t k u r h head =>
    refine pl.move (moved_of (t := t) (c := .later k r u) (q := .line k) (l := (s.line k).tail) ?_ ?_ ?_) rfl
    · rintro ⟨⟩
    · rw [← held_line]
      exact held_setPc ..
    · obtain ⟨l, e, -⟩ := (lk k).pop head
      change ((s.line k).tail ++ _).Perm (s.line k ++ _)
      rw [h, e]
      exact List.perm_middle
  | release h => exact pl.stay rfl rfl (by rw [h]; rfl)
  | @complete t k r res h mem =>
    refine pl.move (moved_of (t := t) (c := .advance k (.completion r)) (q := .kernel k)
      (l := (s.kernel k).erase r) ?_ ?_ ?_) rfl
    · rintro ⟨⟩
    · rw [← held_kernel]
      exact held_setPc ..
    · rw [h]
      simpa [Pc.requests, State.held, Unwind.request] using
        (List.perm_append_comm.trans (List.perm_cons_erase mem).symm)
  | @resubmitFails t r e h mem =>
    refine pl.move (moved_of (t := t) (c := .advance .send (.completion r)) (q := .kernel .send)
      (l := (s.kernel .send).erase r) ?_ ?_ ?_) rfl
    · rintro ⟨⟩
    · rw [← held_kernel]
      exact held_setPc ..
    · rw [h]
      simpa [Pc.requests, State.held, Unwind.request] using
        (List.perm_append_comm.trans (List.perm_cons_erase mem).symm)
  | push h => exact pl.done h (held_setPc ..) rfl
  | returns h => exact pl.done h (held_setPc ..) rfl

/-! ## The right to hand in a request -/

/-- Who has the right to hand in the next request of a direction. -/
inductive Holder (θ ρ : Type) where
  | thread (t : θ)
  | request (r : ρ)

/-- What is with the reactor, by who has the right. -/
def Holder.inFlight : Option (Holder θ ρ) → List ρ
  | some (.request r) => [r]
  | _ => []

/-- The request that is about to be handed in, by who has the right. -/
def Holder.pending (s : State θ ρ) : Option (Holder θ ρ) → List ρ
  | some (.thread t) => (s.pc t).submitting
  | _ => []

/-- A direction and who has the right to hand in its next request. -/
structure Serial (s : State θ ρ) (k : Kind) (h : Option (Holder θ ρ)) : Prop where
  linked : s.Linked k
  queued : (s.chain k).queued = (s.line k).length
  busy : (s.chain k).busy = h.isSome
  threads : ∀ t, (s.pc t).token k = true ↔ h = some (.thread t)
  kernel : s.kernel k = Holder.inFlight h
  idle : h = none → s.line k = []
  order : s.locked k = s.handed k ++ Holder.pending s h ++ s.line k

/-- A request that has entered has its link cleared. -/
def State.Entered (s : State θ ρ) : Prop := ∀ t k r, s.pc t = .enter k r → s.next r = none

variable {h h' : Option (Holder θ ρ)}

namespace Serial

omit [DecidableEq θ] in
/-- A step that has nothing to do with the direction. -/
lemma frame (sr : Serial s k h) (hc : s'.chain k = s.chain k) (hl : s'.line k = s.line k)
    (hk : s'.kernel k = s.kernel k) (ho : s'.locked k = s.locked k) (hd : s'.handed k = s.handed k)
    (hn : ∀ r ∈ s.line k, s'.next r = s.next r)
    (hp : ∀ t, s'.pc t = s.pc t ∨ (s.pc t).token k = false ∧ (s'.pc t).token k = false) :
    Serial s' k h := by
  have tok : ∀ t, (s'.pc t).token k = (s.pc t).token k := by
    intro t
    rcases hp t with e | ⟨h1, h2⟩
    · rw [e]
    · rw [h1, h2]
  refine ⟨?_, ?_, ?_, fun t => ?_, ?_, fun e => ?_, ?_⟩
  · unfold State.Linked
    rw [hc, hl]
    exact sr.linked.frame hn
  · rw [hc, hl, sr.queued]
  · rw [hc, sr.busy]
  · rw [tok t, sr.threads t]
  · rw [hk, sr.kernel]
  · rw [hl, sr.idle e]
  · have pend : Holder.pending s' h = Holder.pending s h := by
      cases h with
      | none => rfl
      | some x =>
        cases x with
        | request r => rfl
        | thread t =>
          rcases hp t with e | ⟨h1, -⟩
          · exact congrArg Pc.submitting e
          · rw [(sr.threads t).2 rfl] at h1
            cases h1
    rw [ho, hd, hl, pend, sr.order]

/-- A thread without the right to the direction goes on without it. -/
lemma other (sr : Serial s k h) (hp : s'.pc = Function.update s.pc t c) (h0 : (s.pc t).token k = false)
    (h1 : c.token k = false) (hc : s'.chain k = s.chain k) (hl : s'.line k = s.line k)
    (hk : s'.kernel k = s.kernel k) (ho : s'.locked k = s.locked k) (hd : s'.handed k = s.handed k)
    (hn : ∀ r ∈ s.line k, s'.next r = s.next r) : Serial s' k h := by
  refine sr.frame hc hl hk ho hd hn fun t' => ?_
  rw [hp]
  by_cases e : t' = t
  · rw [e, Function.update_self]
    exact .inr ⟨h0, h1⟩
  · exact .inl (Function.update_of_ne e ..)

/-- Nobody but the holder has the right. -/
lemma gains (sr : Serial s k h) (one : ∀ t', h = some (.thread t') → t' = t) (hc : c.token k = true) (t' : θ) :
    (Function.update s.pc t c t').token k = true ↔ some (Holder.thread t) = some (Holder.thread (ρ := ρ) t') := by
  by_cases e : t' = t
  · rw [e, Function.update_self]
    exact ⟨fun _ => rfl, fun _ => hc⟩
  · rw [Function.update_of_ne e, sr.threads]
    constructor
    · intro h
      exact absurd (one t' h) e
    · rintro ⟨⟩
      exact absurd rfl e

/-- A thread gives its right away. -/
lemma loses (sr : Serial s k h) (one : ∀ t', h = some (.thread t') → t' = t) (hc : c.token k = false)
    (none : ∀ t', h' ≠ some (.thread t')) (t' : θ) :
    (Function.update s.pc t c t').token k = true ↔ h' = some (.thread t') := by
  by_cases e : t' = t
  · rw [e, Function.update_self, hc]
    exact ⟨fun h => absurd h Bool.false_ne_true, fun h => absurd h (none t)⟩
  · rw [Function.update_of_ne e, sr.threads]
    exact ⟨fun h => absurd (one t' h) e, fun h => absurd h (none t')⟩

omit [DecidableEq θ] in
/-- The thread that has the right. -/
lemma holder (sr : Serial s k h) (tok : (s.pc t).token k = true) : h = some (.thread t) :=
  (sr.threads t).1 tok

omit [DecidableEq θ] in
/-- A request is put behind the others. -/
lemma enqueue [DecidableEq ρ] (sr : Serial s k h) (busy : (s.chain k).busy = true) (new : r ∉ s.line k)
    (hn : s.next r = none) : Serial (s.enqueue k r) k h := by
  have hc : (s.enqueue k r).chain k =
      { s.chain k with
        head := if (s.chain k).tail.isSome then (s.chain k).head else some r
        tail := some r
        queued := (s.chain k).queued + 1 } := Function.update_self ..
  have hl : (s.enqueue k r).line k = s.line k ++ [r] := Function.update_self ..
  have ho : (s.enqueue k r).locked k = s.locked k ++ [r] := Function.update_self ..
  refine ⟨?_, ?_, ?_, sr.threads, sr.kernel, fun e => ?_, ?_⟩
  · unfold State.Linked
    rw [hc, hl]
    exact sr.linked.push new hn
  · rw [hc, hl, List.length_append, List.length_singleton]
    exact congrArg (· + 1) sr.queued
  · rw [hc]
    exact sr.busy
  · rw [sr.busy, e] at busy
    cases busy
  · rw [ho, hl, sr.order, List.append_assoc _ (s.line k)]
    rfl

/-- A thread finds the direction idle. -/
lemma start (sr : Serial s k none) : Serial ((s.occupy k r).setPc t (.first k r)) k (some (.thread t)) := by
  have hc : ((s.occupy k r).setPc t (.first k r)).chain k = { s.chain k with busy := true } :=
    Function.update_self ..
  refine ⟨?_, ?_, ?_, ?_, sr.kernel, ?_, ?_⟩
  · unfold State.Linked
    rw [hc]
    exact sr.linked
  · rw [hc]
    exact sr.queued
  · rw [hc]
    rfl
  · exact sr.gains (by rintro t' ⟨⟩) (by simp [Pc.token])
  · rintro ⟨⟩
  · have pend : Holder.pending ((s.occupy k r).setPc t (.first k r)) (some (.thread t)) = [r] := by
      change (Function.update s.pc t _ t).submitting = [r]
      rw [Function.update_self]
      rfl
    have ho : ((s.occupy k r).setPc t (.first k r)).locked k = s.locked k ++ [r] := Function.update_self ..
    have empty := sr.idle rfl
    have order := sr.order
    rw [empty] at order
    rw [pend, ho, order]
    change _ = s.handed k ++ [r] ++ s.line k
    rw [empty]
    simp [Holder.pending]

/-- The reactor takes the request. -/
lemma accepted (sr : Serial s k (some (.thread t))) (sub : (s.pc t).submitting = [r])
    (hp : s'.pc = Function.update s.pc t c) (tok : c.token k = false) (hc : s'.chain k = s.chain k)
    (hl : s'.line k = s.line k) (hk : s'.kernel k = r :: s.kernel k) (ho : s'.locked k = s.locked k)
    (hd : s'.handed k = s.handed k ++ [r]) (hn : ∀ r ∈ s.line k, s'.next r = s.next r) :
    Serial s' k (some (.request r)) := by
  refine ⟨?_, ?_, ?_, ?_, ?_, ?_, ?_⟩
  · unfold State.Linked
    rw [hc, hl]
    exact sr.linked.frame hn
  · rw [hc, hl, sr.queued]
  · rw [hc, sr.busy]
    rfl
  · rw [hp]
    exact sr.loses (by rintro t' ⟨⟩; rfl) tok (by rintro t' ⟨⟩)
  · rw [hk, sr.kernel]
    rfl
  · rintro ⟨⟩
  · have pend : Holder.pending s (some (.thread t)) = [r] := sub
    rw [ho, hd, hl, sr.order, pend]
    simp [Holder.pending]

/-- The reactor answers at once. -/
lemma answered (sr : Serial s k (some (.thread t))) (sub : (s.pc t).submitting = [r])
    (hp : s'.pc = Function.update s.pc t c) (tok : c.token k = true) (hs : c.submitting = [])
    (hc : s'.chain k = s.chain k) (hl : s'.line k = s.line k) (hk : s'.kernel k = s.kernel k)
    (ho : s'.locked k = s.locked k) (hd : s'.handed k = s.handed k ++ [r])
    (hn : ∀ r ∈ s.line k, s'.next r = s.next r) : Serial s' k (some (.thread t)) := by
  refine ⟨?_, ?_, ?_, ?_, ?_, ?_, ?_⟩
  · unfold State.Linked
    rw [hc, hl]
    exact sr.linked.frame hn
  · rw [hc, hl, sr.queued]
  · rw [hc, sr.busy]
  · rw [hp]
    exact sr.gains (by rintro t' ⟨⟩; rfl) tok
  · rw [hk, sr.kernel]
  · rintro ⟨⟩
  · have pend : Holder.pending s (some (.thread t)) = [r] := sub
    have pend' : Holder.pending s' (some (.thread t)) = [] := by
      change (s'.pc t).submitting = []
      rw [hp, Function.update_self, hs]
    rw [ho, hd, hl, sr.order, pend, pend']
    simp

/-- The first of the line is handed in next. -/
lemma pop [DecidableEq ρ] {u : Unwind ρ} (sr : Serial s k (some (.thread t))) (hs : (s.pc t).submitting = [])
    (head : (s.chain k).head = some r) :
    Serial ((s.dequeue k r).setPc t (.later k r u)) k (some (.thread t)) := by
  obtain ⟨l, e, q⟩ := sr.linked.pop head
  have hc : ((s.dequeue k r).setPc t (.later k r u)).chain k =
      { s.chain k with
        head := s.next r
        tail := if s.next r = none then none else (s.chain k).tail
        queued := (s.chain k).queued - 1 } := Function.update_self ..
  have hl : ((s.dequeue k r).setPc t (.later k r u)).line k = l := by
    refine (Function.update_self ..).trans ?_
    rw [e]
    rfl
  have out : r ∉ l := (List.nodup_cons.1 (e ▸ sr.linked.nodup)).1
  refine ⟨?_, ?_, ?_, ?_, sr.kernel, ?_, ?_⟩
  · unfold State.Linked
    rw [hc, hl]
    refine q.frame fun j hj => Function.update_of_ne ?_ ..
    rintro rfl
    exact out hj
  · rw [hc, hl]
    change (s.chain k).queued - 1 = _
    rw [sr.queued, e]
    rfl
  · rw [hc]
    exact sr.busy
  · exact sr.gains (by rintro t' ⟨⟩; rfl) (by simp [Pc.token])
  · rintro ⟨⟩
  · have pend : Holder.pending s (some (.thread t)) = [] := hs
    have pend' : Holder.pending ((s.dequeue k r).setPc t (.later k r u)) (some (.thread t)) = [r] := by
      change (Function.update s.pc t _ t).submitting = [r]
      rw [Function.update_self]
      rfl
    change s.locked k = s.handed k ++ _ ++ _
    rw [sr.order, pend, pend', hl, e]
    simp

/-- Nobody waits: the direction is idle again. -/
lemma release {u : Unwind ρ} (sr : Serial s k (some (.thread t))) (hs : (s.pc t).submitting = [])
    (head : (s.chain k).head = none) : Serial ((s.release k).setPc t (.unwind u)) k none := by
  have hc : ((s.release k).setPc t (.unwind u)).chain k = { s.chain k with busy := false } :=
    Function.update_self ..
  have empty : s.line k = [] := by
    have := sr.linked.head_eq
    rw [head] at this
    exact List.head?_eq_none_iff.1 this.symm
  refine ⟨?_, ?_, ?_, ?_, sr.kernel, fun _ => empty, ?_⟩
  · unfold State.Linked
    rw [hc]
    exact sr.linked
  · rw [hc]
    exact sr.queued
  · rw [hc]
    rfl
  · exact sr.loses (by rintro t' ⟨⟩; rfl) rfl (by rintro t' ⟨⟩)
  · have pend : Holder.pending s (some (.thread t)) = [] := hs
    have order := sr.order
    rw [pend] at order
    exact order

/-- The completion of the request that is with the reactor. -/
lemma complete [DecidableEq ρ] (sr : Serial s k h) (hp : s'.pc = Function.update s.pc t c) (tok : c.token k = true)
    (hs : c.submitting = []) (mem : r ∈ s.kernel k) (hk : s'.kernel k = (s.kernel k).erase r)
    (hc : s'.chain k = s.chain k) (hl : s'.line k = s.line k) (ho : s'.locked k = s.locked k)
    (hd : s'.handed k = s.handed k) (hn : ∀ r ∈ s.line k, s'.next r = s.next r) :
    Serial s' k (some (.thread t)) := by
  rw [sr.kernel] at mem
  obtain rfl : h = some (.request r) := by
    match h, mem with
    | some (.request r'), mem => rw [List.mem_singleton.1 mem]
  refine ⟨?_, ?_, ?_, ?_, ?_, ?_, ?_⟩
  · unfold State.Linked
    rw [hc, hl]
    exact sr.linked.frame hn
  · rw [hc, hl, sr.queued]
  · rw [hc, sr.busy]
    rfl
  · rw [hp]
    exact sr.gains (by rintro t' ⟨⟩) tok
  · rw [hk, sr.kernel]
    simp [Holder.inFlight]
  · rintro ⟨⟩
  · have pend : Holder.pending s' (some (.thread t)) = [] := by
      change (s'.pc t).submitting = []
      rw [hp, Function.update_self, hs]
    rw [ho, hd, hl, pend, sr.order]
    rfl

end Serial

variable [DecidableEq ρ]

/-- Whose link a step may write: of a request that is not in use, in a line, with the reactor, or about to
be handed in. -/
def State.Writable (s : State θ ρ) (j : ρ) : Prop :=
  s.live j = false ∨ (∃ k, j ∈ s.line k) ∨ (∃ k, j ∈ s.kernel k) ∨ ∃ t, j ∈ (s.pc t).submitting

omit [DecidableEq θ] in
/-- A link behind the tail is one of the line. -/
lemma linkLast_eq (lk : s.Linked k) :
    linkLast s.next (s.chain k).tail r = s.next ∨
      ∃ j ∈ s.line k, linkLast s.next (s.chain k).tail r = Function.update s.next j (some r) := by
  cases e : (s.chain k).tail with
  | none => exact .inl rfl
  | some j =>
    rw [lk.last] at e
    exact .inr ⟨j, List.mem_of_getLast? e, rfl⟩

/-- Which link a step writes. -/
lemma Step.link {l : Label θ ρ} (st : Step s l s') (sole : Sole s l) (lk : ∀ k, s.Linked k) :
    s'.next = s.next ∨ ∃ j x, s'.next = Function.update s.next j x ∧ s.Writable j := by
  cases st with
  | stray => exact sole.elim
  | refuse | tooLate | start | answerFirst | failFirst | answerLater | failLater | release | push | returns
  | strand | cancel =>
    exact .inl rfl
  | enter _ free => exact .inr ⟨_, _, rfl, .inl free⟩
  | @queue t k r =>
    rcases linkLast_eq (r := r) (lk k) with e | ⟨j, hj, e⟩
    · exact .inl e
    · exact .inr ⟨j, _, e, .inr (.inl ⟨k, hj⟩)⟩
  | @acceptFirst t k r x ht =>
    exact .inr ⟨r, x, rfl, .inr (.inr (.inr ⟨t, by rw [ht]; exact List.mem_cons_self⟩))⟩
  | @acceptLater t k r u x ht =>
    exact .inr ⟨r, x, rfl, .inr (.inr (.inr ⟨t, by rw [ht]; exact List.mem_cons_self⟩))⟩
  | @pop t k u r ht head =>
    obtain ⟨l, e, -⟩ := (lk k).pop head
    exact .inr ⟨r, none, rfl, .inr (.inl ⟨k, by rw [e]; exact List.mem_cons_self⟩)⟩
  | complete _ mem | resubmitFails _ mem => exact .inr ⟨_, none, rfl, .inr (.inr (.inl ⟨_, mem⟩))⟩
  | relink mem => exact .inr ⟨_, _, rfl, .inr (.inr (.inl ⟨_, mem⟩))⟩

/-- A thread that enters was there before, or has just cleared the link. -/
lemma Step.enters {l : Label θ ρ} {t' : θ} (st : Step s l s') (h : s'.pc t' = .enter k r) :
    s.pc t' = .enter k r ∨ s'.next r = none := by
  have back : ∀ {t c}, Function.update s.pc t c t' = .enter k r → (∀ k r, c ≠ .enter k r) →
      s.pc t' = .enter k r := by
    intro t c h hc
    by_cases e : t' = t
    · rw [e, Function.update_self] at h
      exact absurd h (hc k r)
    · rwa [Function.update_of_ne e] at h
  cases st with
  | refuse | tooLate | cancel | relink | strand => exact .inl h
  | @enter t k' r' =>
    change Function.update s.pc t _ t' = _ at h
    by_cases e : t' = t
    · rw [e, Function.update_self] at h
      cases h
      exact .inr (Function.update_self ..)
    · exact .inl (by rwa [Function.update_of_ne e] at h)
  | queue | start | acceptFirst | answerFirst | failFirst | acceptLater | answerLater | failLater | pop | release
  | complete | resubmitFails | stray | push | returns =>
    exact .inl (back h (by rintro k r ⟨⟩))

/-- A request that has entered keeps its link cleared until it is handed in or queued. -/
lemma State.Entered.step {l : Label θ ρ} (en : s.Entered) (st : Step s l s') (sole : Sole s l) (pl : Placed s)
    (lk : ∀ k, s.Linked k) : s'.Entered := by
  intro t k r h
  rcases st.enters h with was | h
  · have mine : r ∈ (s.pc t).requests := by
      rw [was]
      exact List.mem_cons_self
    rcases st.link sole lk with e | ⟨j, x, e, w⟩
    · rw [e]
      exact en t k r was
    · rw [e, Function.update_of_ne]
      · exact en t k r was
      · rintro rfl
        rcases w with w | ⟨k, w⟩ | ⟨k, w⟩ | ⟨t', w⟩
        · rw [pl.live (p := .thread t) mine] at w
          cases w
        · exact pl.not_line mine w
        · exact pl.not_kernel mine w
        · -- nobody hands in a request that has only entered
          have sub : (s.pc t').submitting ⊆ (s.pc t').requests := by
            cases s.pc t' <;> simp [Pc.submitting, Pc.requests]
          obtain rfl := pl.thread_unique mine (sub w)
          rw [was] at w
          cases w
  · exact h

omit [DecidableEq θ] in
/-- The requests of a line are not those that are handed in. -/
lemma Placed.off_line {x : Option ρ} (pl : Placed s) (h : r ∈ (s.pc t).requests) :
    ∀ j ∈ s.line k, Function.update s.next r x j = s.next j := by
  intro j hj
  refine Function.update_of_ne ?_ ..
  rintro rfl
  exact pl.not_line h hj

omit [DecidableEq θ] in
/-- The reactor's own links are in no line. -/
lemma Placed.off_kernel {k' : Kind} {x : Option ρ} (pl : Placed s) (h : r ∈ s.kernel k) :
    ∀ j ∈ s.line k', Function.update s.next r x j = s.next j := by
  intro j hj
  refine Function.update_of_ne ?_ ..
  rintro rfl
  exact pl.kernel_not_line h hj

/-- In each direction somebody or nobody has the right, before and after every step. -/
lemma Step.serial {l : Label θ ρ} (st : Step s l s') (sole : Sole s l) (pl : Placed s) (en : s.Entered)
    (all : ∀ k, ∃ h, Serial s k h) (k' : Kind) : ∃ h, Serial s' k' h := by
  obtain ⟨h, sr⟩ := all k'
  have lk : ∀ k, s.Linked k := fun k => (all k).elim fun _ sr => sr.linked
  cases st with
  | stray => exact sole.elim
  | refuse | tooLate | cancel | strand =>
    exact ⟨h, sr.frame rfl rfl rfl rfl rfl (fun _ _ => rfl) fun _ => .inl rfl⟩
  | relink mem => exact ⟨h, sr.frame rfl rfl rfl rfl rfl (pl.off_kernel mem) fun _ => .inl rfl⟩
  | @enter t k r count ht free =>
    refine ⟨h, sr.other rfl (by rw [ht]; rfl) rfl rfl rfl rfl rfl rfl fun j hj => ?_⟩
    refine Function.update_of_ne ?_ ..
    rintro rfl
    rw [pl.live (p := .line k') hj] at free
    cases free
  | @queue t k r ht busy =>
    have off : (s.pc t).token k' = false := by
      rw [ht]
      rfl
    have mine : r ∈ (s.pc t).requests := by
      rw [ht]
      exact List.mem_cons_self
    by_cases e : k' = k
    · subst e
      have sr' : Serial (s.setPc t .idle) k' h :=
        sr.other rfl off rfl rfl rfl rfl rfl rfl fun _ _ => rfl
      exact ⟨h, sr'.enqueue busy (pl.not_line mine) (en t k' r ht)⟩
    · refine ⟨h, sr.other rfl off rfl (Function.update_of_ne e ..) (Function.update_of_ne e ..) rfl
        (Function.update_of_ne e ..) rfl fun j hj => ?_⟩
      rcases linkLast_eq (r := r) (lk k) with eq | ⟨i, hi, eq⟩
      · exact congrFun eq j
      · refine (congrFun eq j).trans (Function.update_of_ne ?_ ..)
        rintro rfl
        exact e (pl.line_unique hj hi)
  | @start t k r ht idle =>
    by_cases e : k' = k
    · subst e
      have none : h = none := by
        rw [sr.busy] at idle
        exact Option.isNone_iff_eq_none.1 (by rw [← Option.not_isSome, idle]; rfl)
      subst none
      exact ⟨_, sr.start⟩
    · exact ⟨h, sr.other rfl (by rw [ht]; rfl) (by simp [Pc.token, e]) (Function.update_of_ne e ..) rfl rfl
        (Function.update_of_ne e ..) rfl fun _ _ => rfl⟩
  | @acceptFirst t k r x ht =>
    have mine : r ∈ (s.pc t).requests := by
      rw [ht]
      exact List.mem_cons_self
    by_cases e : k' = k
    · subst e
      obtain rfl := sr.holder (t := t) (by rw [ht]; simp [Pc.token])
      exact ⟨_, sr.accepted (by rw [ht]; rfl) rfl rfl rfl rfl (Function.update_self ..) rfl
        (Function.update_self ..) (pl.off_line mine)⟩
    · exact ⟨h, sr.other rfl (by rw [ht]; simp [Pc.token, e]) rfl rfl rfl (Function.update_of_ne e ..) rfl
        (Function.update_of_ne e ..) (pl.off_line mine)⟩
  | @acceptLater t k r u x ht =>
    have mine : r ∈ (s.pc t).requests := by
      rw [ht]
      exact List.mem_cons_self
    by_cases e : k' = k
    · subst e
      obtain rfl := sr.holder (t := t) (by rw [ht]; simp [Pc.token])
      exact ⟨_, sr.accepted (by rw [ht]; rfl) rfl rfl rfl rfl (Function.update_self ..) rfl
        (Function.update_self ..) (pl.off_line mine)⟩
    · exact ⟨h, sr.other rfl (by rw [ht]; simp [Pc.token, e]) rfl rfl rfl (Function.update_of_ne e ..) rfl
        (Function.update_of_ne e ..) (pl.off_line mine)⟩
  | @answerFirst t k r res ht | @failFirst t k r res ht =>
    by_cases e : k' = k
    · subst e
      obtain rfl := sr.holder (t := t) (by rw [ht]; simp [Pc.token])
      exact ⟨_, sr.answered (by rw [ht]; rfl) rfl (by simp [Pc.token]) rfl rfl rfl rfl rfl
        (Function.update_self ..) fun _ _ => rfl⟩
    · exact ⟨h, sr.other rfl (by rw [ht]; simp [Pc.token, e]) (by simp [Pc.token, e]) rfl rfl rfl rfl
        (Function.update_of_ne e ..) fun _ _ => rfl⟩
  | @answerLater t k r u res ht | @failLater t k r u res ht =>
    by_cases e : k' = k
    · subst e
      obtain rfl := sr.holder (t := t) (by rw [ht]; simp [Pc.token])
      exact ⟨_, sr.answered (by rw [ht]; rfl) rfl (by simp [Pc.token]) rfl rfl rfl rfl rfl
        (Function.update_self ..) fun _ _ => rfl⟩
    · exact ⟨h, sr.other rfl (by rw [ht]; simp [Pc.token, e]) (by simp [Pc.token, e]) rfl rfl rfl rfl
        (Function.update_of_ne e ..) fun _ _ => rfl⟩
  | @pop t k u r ht head =>
    by_cases e : k' = k
    · subst e
      obtain rfl := sr.holder (t := t) (by rw [ht]; simp [Pc.token])
      exact ⟨_, sr.pop (by rw [ht]; rfl) head⟩
    · refine ⟨h, sr.other rfl (by rw [ht]; simp [Pc.token, e]) (by simp [Pc.token, e])
        (Function.update_of_ne e ..) (Function.update_of_ne e ..) rfl rfl rfl fun j hj => ?_⟩
      refine Function.update_of_ne ?_ ..
      rintro rfl
      obtain ⟨l, eq, -⟩ := (lk k).pop head
      exact e (pl.line_unique hj (by rw [eq]; exact List.mem_cons_self))
  | @release t k u ht head =>
    by_cases e : k' = k
    · subst e
      obtain rfl := sr.holder (t := t) (by rw [ht]; simp [Pc.token])
      exact ⟨_, sr.release (by rw [ht]; rfl) head⟩
    · exact ⟨h, sr.other rfl (by rw [ht]; simp [Pc.token, e]) rfl (Function.update_of_ne e ..) rfl rfl rfl rfl
        fun _ _ => rfl⟩
  | @complete t k r res ht mem =>
    by_cases e : k' = k
    · subst e
      exact ⟨_, sr.complete rfl (by simp [Pc.token]) rfl mem (Function.update_self ..) rfl rfl rfl rfl
        (pl.off_kernel mem)⟩
    · exact ⟨h, sr.other rfl (by rw [ht]; rfl) (by simp [Pc.token, e]) rfl rfl (Function.update_of_ne e ..) rfl
        rfl (pl.off_kernel mem)⟩
  | @resubmitFails t r err ht mem =>
    by_cases e : k' = .send
    · subst e
      refine ⟨_, sr.complete rfl (by simp [Pc.token]) rfl mem ?_ rfl rfl rfl rfl (pl.off_kernel mem)⟩
      exact Function.update_self Kind.send _ s.kernel
    · refine ⟨h, sr.other rfl (by rw [ht]; rfl) (by simp [Pc.token, e]) rfl rfl ?_ rfl rfl (pl.off_kernel mem)⟩
      exact Function.update_of_ne e _ s.kernel
  | push ht => exact ⟨h, sr.other rfl (by rw [ht]; rfl) rfl rfl rfl rfl rfl rfl fun _ _ => rfl⟩
  | returns ht => exact ⟨h, sr.other rfl (by rw [ht]; rfl) rfl rfl rfl rfl rfl rfl fun _ _ => rfl⟩

/-- What holds of a stream in every state. -/
structure Ordered (s : State θ ρ) : Prop where
  placed : Placed s
  entered : s.Entered
  serial : ∀ k, ∃ h, Serial s k h

omit [DecidableEq θ] [DecidableEq ρ] in
/-- Nothing was submitted yet. -/
lemma Ordered.init : Ordered ({} : State θ ρ) := by
  refine ⟨⟨.empty fun p => ?_, fun {p r} h => ?_⟩, fun t k r h => ?_, fun k => ⟨none, ?_⟩⟩
  · cases p <;> rfl
  · cases p <;> cases h
  · cases h
  · refine ⟨.empty, rfl, rfl, fun t => ?_, rfl, fun _ => rfl, rfl⟩
    exact ⟨fun h => absurd h Bool.false_ne_true, by rintro ⟨⟩⟩

/-- A step under the condition keeps both directions in order. -/
lemma Ordered.step {l : Label θ ρ} (od : Ordered s) (sole : Sole s l) (st : Step s l s') : Ordered s' := by
  have lk : ∀ k, s.Linked k := fun k => (od.serial k).elim fun _ sr => sr.linked
  exact ⟨st.placed sole od.placed lk, od.entered.step st sole od.placed lk,
    st.serial sole od.placed od.entered od.serial⟩

/-- In a run under the condition both directions are in order. -/
lemma Ordered.of_runs (rn : Runs Step Sole {} s) : Ordered s :=
  rn.invariant (I := Ordered) .init fun od sole st => od.step sole st

/-- A request is between its call of `SubmitPrepared` and its completion: a thread is at the call, or the
reactor has it. -/
def State.InFlight (s : State θ ρ) (k : Kind) (r : ρ) : Prop :=
  (∃ t, (s.pc t).token k = true ∧ r ∈ (s.pc t).submitting) ∨ r ∈ s.kernel k

omit [DecidableEq θ] [DecidableEq ρ] in
/-- The request in flight is the one the holder of the right has. -/
lemma Serial.inFlight (sr : Serial s k h) (fl : s.InFlight k r) :
    Holder.pending s h ++ Holder.inFlight h = [r] := by
  rcases fl with ⟨t, tok, mem⟩ | mem
  · obtain rfl := sr.holder tok
    change (s.pc t).submitting ++ [] = [r]
    cases e : s.pc t <;> rw [e] at mem <;> simp_all [Pc.submitting]
  · rw [sr.kernel] at mem
    match h, mem with
    | some (.request r'), mem =>
      rw [List.mem_singleton.1 mem]
      rfl

/-- As long as no completion comes of an entry that a failed enter left in the ring, the transfers of a
direction are one at a time: at most one request is in flight; requests are handed to the
reactor in the order in which they took the lock, each once, and what has taken the lock and was not handed
in is about to be or stands in line; `queued` is the length of the linked list; and a direction that is not
busy has nobody in line and nothing in flight. -/
theorem stream_serialised (rn : Runs Step Sole {} s) (k : Kind) :
    (∀ r r', s.InFlight k r → s.InFlight k r' → r = r') ∧
    (∃ todo, s.locked k = s.handed k ++ todo ++ s.line k ∧ todo.length ≤ 1 ∧
      ∀ r ∈ todo, ∃ t, (s.pc t).token k = true ∧ r ∈ (s.pc t).submitting) ∧
    Fifo s.next (s.chain k).head (s.chain k).tail (s.line k) ∧
    (s.chain k).queued = (s.line k).length ∧
    ((s.chain k).busy = false → s.line k = [] ∧ (∀ r, ¬s.InFlight k r) ∧ ∀ t, (s.pc t).token k = false) := by
  obtain ⟨h, sr⟩ := (Ordered.of_runs rn).serial k
  refine ⟨fun r r' hr hr' => ?_, ⟨Holder.pending s h, sr.order, ?_, fun r hr => ?_⟩, sr.linked, sr.queued,
    fun idle => ?_⟩
  · have e := (sr.inFlight hr).symm.trans (sr.inFlight hr')
    exact (List.cons.inj e).1
  · unfold Holder.pending
    split
    · rename_i t
      cases s.pc t <;> simp [Pc.submitting]
    · exact Nat.zero_le 1
  · unfold Holder.pending at hr
    split at hr
    · rename_i t
      exact ⟨t, (sr.threads t).2 rfl, hr⟩
    · cases hr
  · have none : h = none := by
      rw [sr.busy] at idle
      exact Option.not_isSome_iff_eq_none.1 (by rw [idle]; exact Bool.false_ne_true)
    subst none
    refine ⟨sr.idle rfl, fun r hr => ?_, fun t => ?_⟩
    · cases sr.inFlight hr
    · apply Bool.eq_false_iff.2
      intro tok
      cases sr.holder tok

/-- One send is with the reactor and a second stands in line. -/
theorem stream_serialised_two :
    ∃ s : State Unit Bool, Runs Step Sole {} s ∧ s.InFlight .send false ∧ s.line .send = [true] ∧
      (∃ todo, s.locked .send = s.handed .send ++ todo ++ s.line .send ∧ todo.length ≤ 1 ∧
        ∀ r ∈ todo, ∃ t, (s.pc t).token .send = true ∧ r ∈ (s.pc t).submitting) ∧
      (s.chain .send).queued = (s.line .send).length := by
  have r1 : Runs (Step (θ := Unit) (ρ := Bool)) Sole {} _ :=
    Runs.refl.next (.submit () .send false 1) trivial (.enter rfl rfl (by decide))
  have r2 := r1.next (.lock ()) trivial (.start rfl rfl)
  have r3 := r2.next (.accepted ()) trivial (.acceptFirst (x := none) rfl rfl)
  have r4 := r3.next (.submit () .send true 1) trivial (.enter rfl rfl (by decide))
  have r5 := r4.next (.lock ()) trivial (.queue rfl rfl)
  obtain ⟨-, order, -, queued, -⟩ := stream_serialised r5 .send
  exact ⟨_, r5, .inr List.mem_cons_self, rfl, order, queued⟩

/-- The enter of send 0 fails and leaves its entry. Send 1 is with the reactor and send 2 stands in line when
the kernel consumes the entry: its completion hands in send 2. -/
theorem two_sends_in_flight :
    ∃ s : State Unit Nat, Reaches Step {} s ∧ s.InFlight .send 1 ∧ s.InFlight .send 2 := by
  have r1 : Reaches (Step (θ := Unit) (ρ := Nat)) {} _ :=
    Runs.refl.next (.submit () .send 0 1) trivial (.enter rfl rfl (by decide))
  have r2 := r1.next (.lock ()) trivial (.start rfl rfl)
  have r3 := r2.next (.answered ()) trivial (.failFirst (e := 4) rfl rfl)
  have r4 := r3.next (.advance ()) trivial (.release rfl rfl)
  have r5 := r4.next (.unwind ()) trivial (.returns rfl)
  have r6 := r5.next (.submit () .send 1 1) trivial (.enter rfl rfl (by decide))
  have r7 := r6.next (.lock ()) trivial (.start rfl rfl)
  have r8 := r7.next (.accepted ()) trivial (.acceptFirst (x := none) rfl rfl)
  have r9 := r8.next (.submit () .send 2 1) trivial (.enter rfl rfl (by decide))
  have r10 := r9.next (.lock ()) trivial (.queue rfl rfl)
  -- the completion of send 0
  have r11 := r10.next (.stray () 0 ⟨.completed, 8, 0⟩) trivial (.stray rfl (by decide))
  have r12 := r11.next (.advance ()) trivial (.pop (r := 2) rfl rfl)
  have r13 := r12.next (.accepted ()) trivial (.acceptLater (x := none) rfl rfl)
  exact ⟨_, r13, .inr (List.mem_cons_of_mem _ List.mem_cons_self), .inr List.mem_cons_self⟩

end JLib.IoStream
