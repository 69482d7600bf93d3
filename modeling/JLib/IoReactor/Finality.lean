import JLib.IoReactor.Submission

/-!
# Final answers

When `SubmitOp` returns true its answer is in `*out` and the request is the caller's again; when it returns
false the request is the kernel's. An enter that fails leaves the entry published, so a request whose answer
was final is still in the ring, and the next enter that succeeds takes it in place of its own.
-/

namespace JLib.IoReactor.Submission
open LTS Rings

/-- The kernel has consumed no entry of a call whose answer was final, and the enter of a call that left its
request in flight consumed the entry of that call. -/
structure Final (s : State) : Prop where
  spared : ∀ c k x, s.answer c = some true → (k, x) ∈ s.taken → x.call ≠ c
  entered : ∀ c, s.answer c = some false → ∃ x, (c, x) ∈ s.taken ∧ x.call = c

/-- The call gets to `io_uring_enter`. -/
def State.Enters (s : State) (tok : CancelToken) (e : Env) : Prop :=
  tok.cancelled e.slots = false ∧ s.ringUp = true ∧ e.stopping = false ∧ s.ring.full = false

/-- Calls of `SubmitOp`, and completions. -/
def Submits (_ : State) : Label → Prop
  | .cancel _ _ _ => False
  | _ => True

/-- Where the enter of a call succeeds no entry is left of an enter that failed. -/
def Entered (s : State) : Label → Prop
  | .submit _ tok e => s.Enters tok e → e.errno = none → s.ring.head = s.ring.tail
  | .complete _ => True
  | .cancel _ _ _ => False

/-- The condition on the enters is one on the calls. -/
lemma Entered.submits {s : State} {a : Label} (h : Entered s a) : Submits s a := by
  cases a with
  | submit _ _ _ => trivial
  | complete _ => trivial
  | cancel _ _ _ => exact h

/-- What a call of `SubmitOp` does to the ring. -/
inductive Submitted (s : State) (req : Addr) (tok : CancelToken) (e : Env) (u : State) : Prop where
  | refused :
    ¬s.Enters tok e →
    u.ring = s.ring →
    u.taken = s.taken →
    u.answer = Function.update s.answer s.calls (some true) →
    u.calls = s.calls + 1 →
    Submitted s req tok e u
  | failed {n} :
    s.Enters tok e →
    e.errno = some n →
    u.ring = s.ring.push ⟨.op req, s.calls⟩ →
    u.taken = s.taken →
    u.answer = Function.update s.answer s.calls (some true) →
    u.calls = s.calls + 1 →
    Submitted s req tok e u
  | entered :
    s.Enters tok e →
    e.errno = none →
    u.ring = (s.ring.push ⟨.op req, s.calls⟩).pop →
    u.taken = s.taken ++ [(s.calls, (s.ring.push ⟨.op req, s.calls⟩).front)] →
    u.answer = Function.update s.answer s.calls (some false) →
    u.calls = s.calls + 1 →
    Submitted s req tok e u

variable {s u : State} {a : Label} {req : Addr} {tok : CancelToken} {e : Env} {bits c : Nat} {b : Bool}

/-- The three ways of a call. -/
lemma SubmitOp_submitted (s : State) (req : Addr) (tok : CancelToken) (e : Env) :
    Submitted s req tok e (s.SubmitOp req tok e) := by
  unfold State.SubmitOp
  split
  next h => exact .refused (fun en => by rw [en.1] at h; cases h) rfl rfl rfl rfl
  next live =>
    have live := eq_false_of_ne_true live
    split
    next h => exact .refused (fun en => by rw [en.2.1] at h; cases h) rfl rfl rfl rfl
    next up =>
      have up := eq_true_of_ne_false up
      split
      next h => exact .refused (fun en => by rw [en.2.2.1] at h; cases h) rfl rfl rfl rfl
      next running =>
        have running := eq_false_of_ne_true running
        dsimp only
        split
        next h =>
          refine .refused (fun en => ?_) rfl rfl rfl rfl
          have room := en.2.2.2
          change s.ring.full = true at h
          rw [h] at room
          cases room
        next room =>
          have enters : s.Enters tok e := ⟨live, up, running, eq_false_of_ne_true room⟩
          split
          next n errno =>
            refine .failed enters errno ?_ ?_ ?_ ?_
            all_goals
              rw [errno]
              rfl
          next errno =>
            refine .entered enters errno ?_ ?_ ?_ ?_
            all_goals
              rw [errno]
              rfl

/-- An answer is that of an earlier call. -/
def Recent (s : State) : Prop := ∀ c b, s.answer c = some b → c < s.calls

/-- The call that returns adds its own answer. -/
lemma Recent.answered (rc : Recent s) (answer : u.answer = Function.update s.answer s.calls (some b))
    (calls : u.calls = s.calls + 1) : Recent u := by
  intro c b' h
  rw [answer, Function.update_apply] at h
  rw [calls]
  split at h
  next same => exact Nat.lt_succ_of_le (Nat.le_of_eq same)
  next => exact Nat.lt_succ_of_lt (rc c b' h)

/-- The answers that were there are kept. -/
lemma Recent.kept {b' : Bool} (rc : Recent s) (answer : u.answer = Function.update s.answer s.calls (some b'))
    (h : s.answer c = some b) : u.answer c = some b := by
  rw [answer, Function.update_of_ne (rc c b h).ne]
  exact h

/-- A call adds answers of its own. -/
lemma Submitted.recent (rc : Recent s) (sub : Submitted s req tok e u) : Recent u := by
  cases sub with
  | refused _ _ _ answer calls => exact rc.answered answer calls
  | failed _ _ _ _ answer calls => exact rc.answered answer calls
  | entered _ _ _ _ answer calls => exact rc.answered answer calls

/-- What was final before a call is what is final after it. -/
lemma Final.before (rc : Recent s) (sub : Submitted s req tok e u) (fin : Final u) : Final s := by
  have answer : ∃ b', u.answer = Function.update s.answer s.calls (some b') := by
    cases sub with
    | refused _ _ _ answer _ => exact ⟨_, answer⟩
    | failed _ _ _ _ answer _ => exact ⟨_, answer⟩
    | entered _ _ _ _ answer _ => exact ⟨_, answer⟩
  have taken : u.taken = s.taken ∨ ∃ x, u.taken = s.taken ++ [(s.calls, x)] := by
    cases sub with
    | refused _ _ taken _ _ => exact .inl taken
    | failed _ _ _ taken _ _ => exact .inl taken
    | entered _ _ _ taken _ _ => exact .inr ⟨_, taken⟩
  obtain ⟨b', answer⟩ := answer
  refine ⟨fun c k x final mem => fin.spared c k x (rc.kept answer final) ?_, fun c left => ?_⟩
  · rcases taken with taken | ⟨y, taken⟩
    · rw [taken]
      exact mem
    · rw [taken]
      exact List.mem_append_left _ mem
  · obtain ⟨x, mem, own⟩ := fin.entered c (rc.kept answer left)
    refine ⟨x, ?_, own⟩
    rcases taken with taken | ⟨y, taken⟩
    · rwa [taken] at mem
    · rw [taken] at mem
      rcases List.mem_append.1 mem with old | new
      · exact old
      · -- the enter that is new is of the call that was not answered before
        have same : c = s.calls := congrArg Prod.fst (List.mem_singleton.1 new)
        exact absurd same (rc c false left).ne

/-- While every enter that succeeds finds the ring empty: the entries that are left in the ring are of calls
whose answer was final, and each entry that was consumed was consumed by its own call. -/
structure Own (bits : Nat) (s : State) (l : List Entry) : Prop where
  holds : Holds bits s.ring l
  stale : ∀ x ∈ l, s.answer x.call = some true
  taken : ∀ {k x}, (k, x) ∈ s.taken → x.call = k ∧ s.answer k = some false
  entered : ∀ {c}, s.answer c = some false → ∃ x, (c, x) ∈ s.taken ∧ x.call = c

/-- Nothing is submitted yet. -/
lemma Own.init {ringUp : Bool} (fits : bits < 32) : Own bits (State.init ringUp bits) [] :=
  ⟨.ofBits fits _, nofun, nofun, nofun⟩

/-- If every entry is of its own call, the answers are final. -/
lemma Own.final {l : List Entry} (own : Own bits s l) : Final s := by
  refine ⟨fun c k x final mem e => ?_, fun c left => own.entered left⟩
  obtain ⟨same, left⟩ := own.taken mem
  rw [← same, e, final] at left
  cases left

/-- A call with a final answer. -/
lemma Own.answered {l m : List Entry} (own : Own bits s l) (rc : Recent s) (holds : Holds bits u.ring m)
    (left : ∀ x ∈ m, x ∈ l ∨ x.call = s.calls) (taken : u.taken = s.taken)
    (answer : u.answer = Function.update s.answer s.calls (some true)) : Own bits u m := by
  refine ⟨holds, fun x mem => ?_, fun mem => ?_, fun {c} h => ?_⟩
  · rcases left x mem with old | new
    · exact rc.kept answer (own.stale x old)
    · rw [answer, new, Function.update_self]
  · rw [taken] at mem
    obtain ⟨same, h⟩ := own.taken mem
    exact ⟨same, rc.kept answer h⟩
  · rw [answer, Function.update_apply] at h
    rw [taken]
    split at h
    · cases h
    · exact own.entered h

/-- The enter of a call succeeds, and the ring was empty. -/
lemma Own.enter (own : Own bits s []) (rc : Recent s) (room : s.ring.full = false) (new : Entry)
    (call : new.call = s.calls) (ring : u.ring = (s.ring.push new).pop)
    (taken : u.taken = s.taken ++ [(s.calls, (s.ring.push new).front)])
    (answer : u.answer = Function.update s.answer s.calls (some false)) : Own bits u [] := by
  have pushed : Holds bits (s.ring.push new) [new] := own.holds.push (own.holds.room room)
  rw [pushed.front] at taken
  refine ⟨ring ▸ pushed.pop, nofun, fun {k x} mem => ?_, fun {c} h => ?_⟩
  · rw [taken] at mem
    rcases List.mem_append.1 mem with old | last
    · obtain ⟨same, h⟩ := own.taken old
      exact ⟨same, rc.kept answer h⟩
    · cases List.mem_singleton.1 last
      exact ⟨call, by rw [answer, Function.update_self]⟩
  · rw [answer, Function.update_apply] at h
    rw [taken]
    split at h
    next same => exact ⟨new, List.mem_append_right _ (same ▸ List.mem_singleton_self _), call.trans same.symm⟩
    next =>
      obtain ⟨x, mem, e⟩ := own.entered h
      exact ⟨x, List.mem_append_left _ mem, e⟩

/-- One call whose enter, if it succeeds, finds the ring empty. -/
lemma Own.submit {l : List Entry} (own : Own bits s l) (rc : Recent s) (ok : Entered s (.submit req tok e))
    (sub : Submitted s req tok e u) : ∃ m, Own bits u m := by
  cases sub with
  | refused _ ring taken answer _ =>
    exact ⟨l, own.answered rc (ring ▸ own.holds) (fun x mem => .inl mem) taken answer⟩
  | failed enters _ ring taken answer _ =>
    have pushed := own.holds.push (x := ⟨.op req, s.calls⟩) (own.holds.room enters.2.2.2)
    refine ⟨_, own.answered rc (ring ▸ pushed) (fun x mem => ?_) taken answer⟩
    rcases List.mem_append.1 mem with old | new
    · exact .inl old
    · rw [List.mem_singleton.1 new]
      exact .inr rfl
  | entered enters errno ring taken answer _ =>
    obtain rfl := own.holds.empty_iff.1 (ok enters errno)
    exact ⟨[], own.enter rc enters.2.2.2 _ rfl ring taken answer⟩

/-- An enter that succeeds over an entry that was left consumes the entry of a call whose answer was final. -/
lemma Own.not_final {l : List Entry} (own : Own bits s l) (rc : Recent s) (bad : ¬Entered s (.submit req tok e))
    (sub : Submitted s req tok e u) : ¬Final u := by
  have bad : s.Enters tok e ∧ e.errno = none ∧ s.ring.head ≠ s.ring.tail := by
    simpa only [Entered, Classical.not_imp] using bad
  obtain ⟨enters, errno, ne⟩ := bad
  cases sub with
  | refused out => exact absurd enters out
  | failed _ failed =>
    rw [errno] at failed
    cases failed
  | entered _ _ ring taken answer _ =>
    cases l with
    | nil => exact absurd (own.holds.empty_iff.2 rfl) ne
    | cons x l =>
      have pushed : Holds bits (s.ring.push ⟨.op req, s.calls⟩) (x :: (l ++ [⟨.op req, s.calls⟩])) :=
        own.holds.push (own.holds.room enters.2.2.2)
      rw [pushed.front] at taken
      intro fin
      refine fin.spared x.call s.calls x (rc.kept answer (own.stale x List.mem_cons_self)) ?_ rfl
      rw [taken]
      exact List.mem_append_right _ (List.mem_singleton_self _)

/-- The answers are of earlier calls in every state. -/
lemma Recent.reached {ringUp : Bool} (rn : Runs Step Submits (State.init ringUp bits) s) : Recent s := by
  induction rn with
  | refl => exact nofun
  | tail _ ok st rc =>
    cases st with
    | submit _ => exact (SubmitOp_submitted ..).recent rc
    | complete _ => exact rc
    | cancel => exact ok.elim

/-- In a run under the condition every entry that was consumed is of its own call. -/
lemma Own.reached {ringUp : Bool} (fits : bits < 32) (rn : Runs Step Entered (State.init ringUp bits) s) :
    ∃ l, Own bits s l := by
  induction rn with
  | refl => exact ⟨[], .init fits⟩
  | tail rn ok st ih =>
    obtain ⟨l, own⟩ := ih
    have rc := Recent.reached (rn.mono fun _ _ => Entered.submits)
    cases st with
    | submit _ => exact own.submit rc ok (SubmitOp_submitted ..)
    | complete _ => exact ⟨l, own.holds, own.stale, own.taken, own.entered⟩
    | cancel => exact ok.elim

/-- In every sequence of calls and outcomes, final answers are final and the others are entered by their own
calls if and only if every enter that succeeds finds no entry left of an enter that failed. -/
theorem answers_final {ringUp : Bool} (fits : bits < 32) (rn : Runs Step Submits (State.init ringUp bits) s) :
    Final s ↔ Runs Step Entered (State.init ringUp bits) s := by
  constructor
  · intro fin
    induction rn with
    | refl => exact .refl
    | @tail s a u rn ok st ih =>
      have rc := Recent.reached rn
      cases st with
      | @submit req tok e new =>
        have sub := SubmitOp_submitted s req tok e
        have run := ih (fin.before rc sub)
        obtain ⟨l, own⟩ := Own.reached fits run
        by_contra out
        exact own.not_final rc (fun ok => out (run.tail ok (.submit new))) sub fin
      | @complete r mem => exact (ih ⟨fin.spared, fin.entered⟩).next (.complete r) trivial (.complete mem)
      | cancel => exact ok.elim
  · intro run
    obtain ⟨l, own⟩ := Own.reached fits run
    exact own.final

/-- A request is entered and completes, and the enter of a second one fails. -/
theorem answers_final_failed :
    ∃ s, Runs Step Submits (State.init true 8) s ∧ s.answer 0 = some false ∧ s.answer 1 = some true ∧
      s.taken = [(0, ⟨.op 64, 0⟩)] ∧ Final s := by
  have start : Runs Step Entered (State.init true 8) _ := .refl
  have r1 := start.next (.submit 64 .kNone ⟨fun _ => {}, false, none⟩) (fun _ _ => rfl) (.submit List.not_mem_nil)
  have r2 := r1.next (.complete 64) trivial (.complete (List.mem_singleton_self _))
  have r3 := r2.next (.submit 128 .kNone ⟨fun _ => {}, false, some 4⟩) nofun (.submit List.not_mem_nil)
  have rn := r3.mono fun _ _ => Entered.submits
  exact ⟨_, rn, rfl, rfl, rfl, (answers_final (by decide) rn).2 r3⟩

/-- The enter of a request fails and its caller has it back; the enter of the next request consumes the entry
of the first, and its own stays in the ring. -/
theorem answer_not_final :
    ∃ s, Runs Step Submits (State.init true 8) s ∧ s.answer 0 = some true ∧ s.answer 1 = some false ∧
      s.taken = [(1, ⟨.op 64, 0⟩)] ∧ ¬Final s := by
  have start : Runs Step Submits (State.init true 8) _ := .refl
  have r1 := start.next (.submit 64 .kNone ⟨fun _ => {}, false, some 4⟩) trivial (.submit List.not_mem_nil)
  have r2 := r1.next (.submit 128 .kNone ⟨fun _ => {}, false, none⟩) trivial (.submit List.not_mem_nil)
  refine ⟨_, r2, rfl, rfl, rfl, fun fin => ?_⟩
  exact fin.spared 0 1 ⟨.op 64, 0⟩ rfl (List.mem_singleton_self _) rfl

end JLib.IoReactor.Submission
