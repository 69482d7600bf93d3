import JLib.IoStream.Serial

/-!
# Who suspends is resumed

A caller to whom `SubmitChained` returned false suspends until the completion loop pushes its task. The
loop pushes the task of a request that completed, and only a request that the reactor took completes. A
request that waited in line and is answered at once when its turn comes is neither: `SubmitOne` goes on to
the next one, and the answer of `SubmitPrepared` is lost.
-/

namespace JLib.IoStream
open LTS Links

variable {θ ρ : Type} [DecidableEq θ] {s s' : State θ ρ} {t : θ} {k : Kind} {r : ρ} {c : Pc ρ}

namespace Pc

/-- The thread is to hand in the request or to push its task. -/
def Carries (k : Kind) (r : ρ) : Pc ρ → Prop
  | later k' r' u => k = k' ∧ (r = r' ∨ u = .completion r)
  | advance k' u => k = k' ∧ u = .completion r
  | unwind u => u = .completion r
  | _ => False

/-- The request whose caller the thread is. -/
def caller : Pc ρ → Option ρ
  | enter _ r => some r
  | first _ r => some r
  | later _ _ (.caller r) => some r
  | advance _ (.caller r) => some r
  | unwind (.caller r) => some r
  | _ => none

/-- A caller works on its own request. -/
lemma mem_of_caller (h : c.caller = some r) : r ∈ c.requests := by
  cases c with
  | later k' r' u =>
    cases u with
    | caller r'' =>
      cases h
      exact List.mem_cons_of_mem _ List.mem_cons_self
    | completion r'' => cases h
  | advance k' u =>
    cases u with
    | caller r'' =>
      cases h
      exact List.mem_cons_self
    | completion r'' => cases h
  | unwind u =>
    cases u with
    | caller r'' =>
      cases h
      exact List.mem_cons_self
    | completion r'' => cases h
  | enter k' r' =>
    cases h
    exact List.mem_cons_self
  | first k' r' =>
    cases h
    exact List.mem_cons_self
  | idle => cases h

end Pc

/-- Somebody will hand in the request or push its task. -/
def State.Carried (s : State θ ρ) (k : Kind) (r : ρ) : Prop :=
  r ∈ s.line k ∨ r ∈ s.kernel k ∨ ∃ t, (s.pc t).Carries k r

/-- A request whose caller has suspended was resumed once, or is carried. -/
structure Resumed (s : State θ ρ) : Prop where
  waits : ∀ {k r}, s.suspended r = some k →
    (s.live r = false ∧ s.pushes r = 1) ∨ (s.live r = true ∧ s.pushes r = 0 ∧ s.Carried k r)
  calls : ∀ {t r}, (s.pc t).caller = some r → s.suspended r = none
  fresh : ∀ {r}, s.live r = true → s.pushes r = 0

/-- No request that has waited in line is answered at once, and no completion comes of an entry that a failed
enter left. -/
def Taken (s : State θ ρ) : Label θ ρ → Prop
  | .answered t => ∀ k r u, s.pc t ≠ .later k r u
  | .stray _ _ _ => False
  | _ => True

omit [DecidableEq θ] in
/-- The condition contains that of the serialisation. -/
lemma Taken.sole {l : Label θ ρ} (h : Taken s l) : Sole s l := by
  cases l with
  | stray => exact h
  | _ => trivial

/-- A request stays carried when a thread goes on with it. -/
lemma State.Carried.setPc (ca : s.Carried k r) (hl : r ∈ s.line k → s'.Carried k r)
    (hk : r ∈ s.kernel k → s'.Carried k r) (hp : s'.pc = Function.update s.pc t c)
    (ht : (s.pc t).Carries k r → s'.Carried k r) : s'.Carried k r := by
  rcases ca with h | h | ⟨t', h⟩
  · exact hl h
  · exact hk h
  · by_cases e : t' = t
    · subst e
      exact ht h
    · refine .inr (.inr ⟨t', ?_⟩)
      rw [hp, Function.update_of_ne e]
      exact h

/-- A caller stays the caller when a thread goes on. -/
lemma caller_setPc {t' : θ} (hp : s'.pc = Function.update s.pc t c)
    (hc : ∀ r, c.caller = some r → (s.pc t).caller = some r)
    (h : (s'.pc t').caller = some r) : (s.pc t').caller = some r := by
  rw [hp] at h
  by_cases e : t' = t
  · subst e
    rw [Function.update_self] at h
    exact hc r h
  · rwa [Function.update_of_ne e] at h

/-- A list that gains elements keeps its own. -/
lemma mem_update {f : Kind → List ρ} {l : List ρ} {k' : Kind} (sub : f k ⊆ l) (h : r ∈ f k') :
    r ∈ Function.update f k l k' := by
  rw [Function.update_apply]
  split
  · rename_i e
    exact sub (e ▸ h)
  · exact h

variable [DecidableEq ρ]

namespace Resumed

omit [DecidableEq θ] [DecidableEq ρ] in
/-- A step that neither suspends, resumes nor ends a request. -/
lemma quiet (rs : Resumed s) (hs : s'.suspended = s.suspended) (hl : s'.live = s.live)
    (hu : s'.pushes = s.pushes) (ca : ∀ {k r}, s.Carried k r → s'.Carried k r)
    (cl : ∀ {t r}, (s'.pc t).caller = some r → (s.pc t).caller = some r) : Resumed s' := by
  refine ⟨fun {k r} h => ?_, fun {t r} h => ?_, fun {r} h => ?_⟩
  · rw [hs] at h
    rw [hl, hu]
    exact (rs.waits h).imp_right fun ⟨h1, h2, h3⟩ => ⟨h1, h2, ca h3⟩
  · rw [hs]
    exact rs.calls (cl h)
  · rw [hl] at h
    rw [hu]
    exact rs.fresh h

omit [DecidableEq θ] in
/-- A request is used anew. -/
lemma renewed (rs : Resumed s) (hp : s'.pc = s.pc) (hl : s'.live = s.live)
    (hs : s'.suspended = Function.update s.suspended r none) (hu : s'.pushes = Function.update s.pushes r 0)
    (ca : ∀ {k r}, s.Carried k r → s'.Carried k r) : Resumed s' := by
  refine ⟨fun {k r'} h => ?_, fun {t r'} h => ?_, fun {r'} h => ?_⟩
  · rw [hs, Function.update_apply] at h
    split at h
    · cases h
    · rename_i ne
      rw [hl, hu, Function.update_of_ne ne]
      exact (rs.waits h).imp_right fun ⟨h1, h2, h3⟩ => ⟨h1, h2, ca h3⟩
  · rw [hs, Function.update_apply]
    rw [hp] at h
    rw [rs.calls h, ite_self]
  · rw [hu, Function.update_apply]
    rw [hl] at h
    rw [rs.fresh h, ite_self]

/-- A caller suspends. -/
lemma suspend (rs : Resumed s) (pl : Placed s) (call : (s.pc t).caller = some r)
    (hp : s'.pc = Function.update s.pc t .idle) (hl : s'.live = s.live)
    (hs : s'.suspended = Function.update s.suspended r (some k)) (hu : s'.pushes = s.pushes)
    (ca : ∀ {k r}, s.Carried k r → s'.Carried k r) (new : s'.Carried k r) : Resumed s' := by
  have mine := Pc.mem_of_caller call
  have live : s.live r = true := pl.live (p := .thread t) mine
  refine ⟨fun {k' r'} h => ?_, fun {t' r'} h => ?_, fun {r'} h => ?_⟩
  · rw [hs, Function.update_apply] at h
    rw [hl, hu]
    split at h
    · rename_i e
      cases h
      subst e
      exact .inr ⟨live, rs.fresh live, new⟩
    · exact (rs.waits h).imp_right fun ⟨h1, h2, h3⟩ => ⟨h1, h2, ca h3⟩
  · have h : (s.pc t').caller = some r' ∧ t' ≠ t := by
      rw [hp] at h
      by_cases e : t' = t
      · subst e
        rw [Function.update_self] at h
        cases h
      · rw [Function.update_of_ne e] at h
        exact ⟨h, e⟩
    have ne : r' ≠ r := by
      rintro rfl
      exact h.2 (pl.thread_unique (Pc.mem_of_caller h.1) mine)
    rw [hs, Function.update_of_ne ne]
    exact rs.calls h.1
  · rw [hl] at h
    rw [hu]
    exact rs.fresh h

/-- The task of a request is pushed, or its caller returns. -/
lemma ends {u : Unwind ρ} (rs : Resumed s) (ht : s.pc t = .unwind u)
    (hp : s'.pc = Function.update s.pc t .idle) (hl : s'.live = Function.update s.live u.request false)
    (hs : s'.suspended = s.suspended) (hlin : s'.line = s.line) (hk : s'.kernel = s.kernel)
    (other : ∀ r, r ≠ u.request → s'.pushes r = s.pushes r)
    (own : ∀ k, s.suspended u.request = some k → s'.pushes u.request = 1) : Resumed s' := by
  refine ⟨fun {k r} h => ?_, fun {t' r} h => ?_, fun {r} h => ?_⟩
  · rw [hs] at h
    by_cases e : r = u.request
    · refine .inl ⟨?_, e ▸ own k (e ▸ h)⟩
      rw [hl, e, Function.update_self]
    · rw [hl, Function.update_of_ne e, other r e]
      refine (rs.waits h).imp_right fun ⟨h1, h2, h3⟩ => ⟨h1, h2, h3.setPc ?_ ?_ hp ?_⟩
      · exact fun h => .inl (hlin ▸ h)
      · exact fun h => .inr (.inl (hk ▸ h))
      · intro ca
        rw [ht] at ca
        have eq : u = .completion r := ca
        exact absurd (by rw [eq]; rfl) e
  · rw [hs]
    refine rs.calls (caller_setPc hp (fun r h => ?_) h)
    cases h
  · rw [hl, Function.update_apply] at h
    split at h
    · cases h
    · rename_i ne
      rw [other r ne]
      exact rs.fresh h

end Resumed

omit [DecidableEq ρ] in
/-- Nothing changes for a request that is in line or with the reactor, and the thread carries what it did. -/
lemma State.Carried.thread (ca : s.Carried k r) (hl : s'.line = s.line) (hk : s'.kernel = s.kernel)
    (hp : s'.pc = Function.update s.pc t c) (ht : (s.pc t).Carries k r → c.Carries k r) : s'.Carried k r := by
  refine ca.setPc (fun h => .inl (hl ▸ h)) (fun h => .inr (.inl (hk ▸ h))) hp fun h => .inr (.inr ⟨t, ?_⟩)
  rw [hp, Function.update_self]
  exact ht h

/-- A caller enters. -/
lemma Resumed.enters {k' : Kind} (rs : Resumed s) (idle : s.pc t = .idle)
    (hp : s'.pc = Function.update s.pc t (.enter k' r)) (hl : s'.live = Function.update s.live r true)
    (hs : s'.suspended = Function.update s.suspended r none) (hu : s'.pushes = Function.update s.pushes r 0)
    (hlin : s'.line = s.line) (hk : s'.kernel = s.kernel) : Resumed s' := by
  refine ⟨fun {k r'} h => ?_, fun {t' r'} h => ?_, fun {r'} h => ?_⟩
  · rw [hs, Function.update_apply] at h
    split at h
    · cases h
    · rename_i ne
      rw [hl, hu, Function.update_of_ne ne, Function.update_of_ne ne]
      refine (rs.waits h).imp_right fun ⟨h1, h2, h3⟩ => ⟨h1, h2, h3.thread hlin hk hp ?_⟩
      rw [idle]
      exact False.elim
  · rw [hs, Function.update_apply]
    split
    · rfl
    · rename_i ne
      rw [hp] at h
      by_cases e : t' = t
      · rw [e, Function.update_self] at h
        cases h
        exact absurd rfl ne
      · rw [Function.update_of_ne e] at h
        exact rs.calls h
  · rw [hu, Function.update_apply]
    split
    · rfl
    · rename_i ne
      rw [hl, Function.update_of_ne ne] at h
      exact rs.fresh h

/-- A request comes back from the reactor, to the thread that goes on with it. -/
lemma Resumed.completes (rs : Resumed s) (ht : s.pc t = .idle)
    (hp : s'.pc = Function.update s.pc t (.advance k (.completion r)))
    (hk : s'.kernel = Function.update s.kernel k ((s.kernel k).erase r)) (hlin : s'.line = s.line)
    (hs : s'.suspended = s.suspended) (hl : s'.live = s.live) (hu : s'.pushes = s.pushes) : Resumed s' := by
  refine rs.quiet hs hl hu (fun {k' r'} ca => ?_) (caller_setPc hp nofun)
  refine ca.setPc (fun h => .inl (hlin ▸ h)) (fun h => ?_) hp fun h => ?_
  · by_cases e : k' = k
    · subst e
      by_cases e' : r' = r
      · refine .inr (.inr ⟨t, ?_⟩)
        rw [hp, Function.update_self, e']
        exact ⟨rfl, rfl⟩
      · refine .inr (.inl ?_)
        rw [hk, Function.update_self]
        exact (List.mem_erase_of_ne e').2 h
    · refine .inr (.inl ?_)
      rwa [hk, Function.update_of_ne e]
  · rw [ht] at h
    exact h.elim

/-- A step under the condition leaves no suspended caller behind. -/
lemma Resumed.step {l : Label θ ρ} (rs : Resumed s) (od : Ordered s) (hok : Taken s l) (st : Step s l s') :
    Resumed s' := by
  have pl := od.placed
  cases st with
  | refuse _ _ => exact rs.renewed rfl rfl rfl rfl id
  | tooLate _ _ => exact rs.renewed rfl rfl rfl rfl id
  | enter ht _ => exact rs.enters ht rfl rfl rfl rfl rfl rfl
  | @queue t k r ht =>
    refine rs.suspend pl (t := t) (by rw [ht]; rfl) rfl rfl rfl rfl (fun ca => ?_) (.inl ?_)
    · refine ca.setPc (fun h => .inl (mem_update (List.subset_append_left ..) h)) (fun h => .inr (.inl h)) rfl
        fun h => ?_
      rw [ht] at h
      exact h.elim
    · change r ∈ Function.update s.line k _ k
      rw [Function.update_self]
      exact List.mem_append_right _ List.mem_cons_self
  | @start t k r ht =>
    refine rs.quiet rfl rfl rfl (fun ca => ca.thread rfl rfl rfl ?_) (caller_setPc rfl fun r h => ?_)
    · rw [ht]
      exact False.elim
    · rw [ht]
      exact h
  | @acceptFirst t k r x ht =>
    refine rs.suspend pl (t := t) (by rw [ht]; rfl) rfl rfl rfl rfl (fun ca => ?_) (.inr (.inl ?_))
    · refine ca.setPc (fun h => .inl h) (fun h => .inr (.inl (mem_update (List.subset_cons_self ..) h))) rfl
        fun h => ?_
      rw [ht] at h
      exact h.elim
    · change r ∈ Function.update s.kernel k _ k
      rw [Function.update_self]
      exact List.mem_cons_self
  | @answerFirst t k r res ht | @failFirst t k r res ht =>
    refine rs.quiet rfl rfl rfl (fun ca => ca.thread rfl rfl rfl ?_) (caller_setPc rfl fun r h => ?_)
    · rw [ht]
      exact False.elim
    · rw [ht]
      exact h
  | @acceptLater t k r u x ht =>
    refine rs.quiet rfl rfl rfl (fun {k' r'} ca => ?_) (caller_setPc rfl fun r h => ?_)
    · refine ca.setPc (fun h => .inl h) (fun h => .inr (.inl (mem_update (List.subset_cons_self ..) h))) rfl
        fun h => ?_
      rw [ht] at h
      obtain ⟨rfl, rfl | rfl⟩ := h
      · refine .inr (.inl ?_)
        change r' ∈ Function.update s.kernel k' _ k'
        rw [Function.update_self]
        exact List.mem_cons_self
      · refine .inr (.inr ⟨t, ?_⟩)
        change (Function.update s.pc t _ t).Carries k' r'
        rw [Function.update_self]
        rfl
    · rw [ht]
      cases u <;> exact h
  | answerLater ht | failLater ht => exact absurd ht (hok _ _ _)
  | stray => exact hok.elim
  | strand => exact rs.quiet rfl rfl rfl id id
  | @pop t k u r ht head =>
    obtain ⟨h, sr⟩ := od.serial k
    obtain ⟨l, eq, -⟩ := sr.linked.pop head
    have now : ∀ {k' r'}, (Pc.later k r u).Carries k' r' →
        ((s.dequeue k r).setPc t (.later k r u)).Carried k' r' := by
      intro k' r' h
      refine .inr (.inr ⟨t, ?_⟩)
      change (Function.update s.pc t _ t).Carries k' r'
      rw [Function.update_self]
      exact h
    refine rs.quiet rfl rfl rfl (fun {k' r'} ca => ?_) (caller_setPc rfl fun r h => ?_)
    · refine ca.setPc (fun h => ?_) (fun h => .inr (.inl h)) rfl fun h => ?_
      · -- the first of the line is with the thread now
        by_cases e : k' = k
        · subst e
          rw [eq] at h
          rcases List.mem_cons.1 h with rfl | h
          · exact now ⟨rfl, .inl rfl⟩
          · refine .inl ?_
            change r' ∈ Function.update s.line k' _ k'
            rw [Function.update_self, eq]
            exact h
        · refine .inl ?_
          change r' ∈ Function.update s.line k _ k'
          rwa [Function.update_of_ne e]
      · rw [ht] at h
        exact now ⟨h.1, .inr h.2⟩
    · rw [ht]
      cases u <;> exact h
  | @release t k u ht =>
    refine rs.quiet rfl rfl rfl (fun ca => ca.thread rfl rfl rfl ?_) (caller_setPc rfl fun r h => ?_)
    · rw [ht]
      exact And.right
    · rw [ht]
      cases u <;> exact h
  | complete ht _ | resubmitFails ht _ => exact rs.completes ht rfl rfl rfl rfl rfl rfl
  | @push t r ht =>
    have live : s.live r = true := pl.live (p := .thread t) (by
      change r ∈ (s.pc t).requests
      rw [ht]
      exact List.mem_cons_self)
    refine rs.ends ht rfl rfl rfl rfl rfl (fun r' ne => Function.update_of_ne ne ..) fun k _ => ?_
    refine (Function.update_self ..).trans ?_
    rw [rs.fresh live]
  | @returns t r ht =>
    refine rs.ends ht rfl rfl rfl rfl rfl (fun _ _ => rfl) fun k h => ?_
    have none : s.suspended r = none := rs.calls (t := t) (by rw [ht]; rfl)
    exact absurd (none.symm.trans h) (by rintro ⟨⟩)
  | relink => exact rs.quiet rfl rfl rfl id id
  | cancel => exact rs.quiet rfl rfl rfl id id

omit [DecidableEq θ] [DecidableEq ρ] in
/-- Nobody has suspended yet. -/
lemma Resumed.init : Resumed ({} : State θ ρ) := by
  refine ⟨fun h => ?_, fun h => ?_, fun h => ?_⟩ <;> cases h

/-- A direction with nothing in the kernel and an idle chain. -/
def State.Quiet (s : State θ ρ) (k : Kind) : Prop := s.kernel k = [] ∧ (s.chain k).busy = false

/-- In every run in which no request that has waited in line is answered at once, and no completion comes of an
entry that a failed enter left: a caller that suspended is
resumed at most once, and when nothing of the direction is in the kernel and the chain is idle it was
resumed, or the completion loop is at the push. -/
theorem suspended_resumed (rn : Runs Step Taken {} s) (hs : s.suspended r = some k) :
    s.pushes r ≤ 1 ∧ (s.Quiet k → s.pushes r = 1 ∨ ∃ t, s.pc t = .unwind (.completion r)) := by
  have both : Ordered s ∧ Resumed s := by
    refine rn.invariant (I := fun s => Ordered s ∧ Resumed s) ⟨.init, .init⟩ ?_
    rintro s l s' ⟨od, rs⟩ hok st
    exact ⟨od.step hok.sole st, rs.step od hok st⟩
  obtain ⟨od, rs⟩ := both
  obtain ⟨h, sr⟩ := od.serial k
  refine ⟨?_, fun ⟨empty, idle⟩ => ?_⟩
  · rcases rs.waits hs with ⟨-, e⟩ | ⟨-, e, -⟩
    · exact Nat.le_of_eq e
    · rw [e]
      exact Nat.zero_le 1
  · rcases rs.waits hs with ⟨-, e⟩ | ⟨-, -, ca⟩
    · exact .inl e
    · have none : h = none := by
        rw [sr.busy] at idle
        exact Option.not_isSome_iff_eq_none.1 (by rw [idle]; exact Bool.false_ne_true)
      subst none
      rcases ca with ca | ca | ⟨t, ca⟩
      · rw [sr.idle rfl] at ca
        cases ca
      · rw [empty] at ca
        cases ca
      · have off : (s.pc t).token k = false := by
          apply Bool.eq_false_iff.2
          intro tok
          cases sr.holder tok
        refine .inr ⟨t, ?_⟩
        cases e : s.pc t with
        | later k' r' u =>
          rw [e] at ca off
          simp [Pc.token, ca.1] at off
        | advance k' u =>
          rw [e] at ca off
          simp [Pc.token, ca.1] at off
        | unwind u =>
          rw [e] at ca
          exact congrArg Pc.unwind ca
        | idle | enter | first =>
          rw [e] at ca
          exact ca.elim

/-- Two sends: the second waits in line, is handed in when the first completes, and completes. -/
theorem suspended_resumed_second :
    ∃ s : State Unit Bool, Runs Step Taken {} s ∧ s.suspended true = some .send ∧ s.Quiet .send ∧
      (s.pushes true = 1 ∨ ∃ t, s.pc t = .unwind (.completion true)) := by
  have r1 : Runs (Step (θ := Unit) (ρ := Bool)) Taken {} _ :=
    Runs.refl.next (.submit () .send false 1) trivial (.enter rfl rfl (by decide))
  have r2 := r1.next (.lock ()) trivial (.start rfl rfl)
  have r3 := r2.next (.accepted ()) trivial (.acceptFirst (x := none) rfl rfl)
  have r4 := r3.next (.submit () .send true 1) trivial (.enter rfl rfl (by decide))
  have r5 := r4.next (.lock ()) trivial (.queue rfl rfl)
  have r6 := r5.next (.complete () false ⟨.completed, 0, 0⟩) trivial (.complete (k := .send) rfl (by decide))
  have r7 := r6.next (.advance ()) trivial (.pop (r := true) rfl rfl)
  have r8 := r7.next (.accepted ()) trivial (.acceptLater (x := none) rfl rfl)
  have r9 := r8.next (.unwind ()) trivial (.push rfl)
  have r10 := r9.next (.complete () true ⟨.completed, 0, 0⟩) trivial (.complete (k := .send) rfl (by decide))
  have r11 := r10.next (.advance ()) trivial (.release rfl rfl)
  exact ⟨_, r11, rfl, ⟨rfl, rfl⟩, (suspended_resumed r11 rfl).2 ⟨rfl, rfl⟩⟩

/-- The second send is cancelled while it waits in line: its turn comes, `SubmitPrepared` answers at once,
and nothing is left that would resume its caller. -/
theorem cancelled_in_line_not_resumed :
    ∃ s : State Unit Bool, Reaches Step {} s ∧ s.suspended true = some .send ∧ s.Quiet .send ∧
      s.pushes true = 0 ∧ ∀ t, s.pc t = .idle := by
  have r1 : Reaches (Step (θ := Unit) (ρ := Bool)) {} _ :=
    Runs.refl.next (.submit () .send false 1) trivial (.enter rfl rfl (by decide))
  have r2 := r1.next (.lock ()) trivial (.start rfl rfl)
  have r3 := r2.next (.accepted ()) trivial (.acceptFirst (x := none) rfl rfl)
  have r4 := r3.next (.submit () .send true 1) trivial (.enter rfl rfl (by decide))
  have r5 := r4.next (.lock ()) trivial (.queue rfl rfl)
  have r6 := r5.next .cancel trivial (.cancel (p := id))
  have r7 := r6.next (.complete () false ⟨.completed, 0, 0⟩) trivial (.complete (k := .send) rfl (by decide))
  have r8 := r7.next (.advance ()) trivial (.pop (r := true) rfl rfl)
  have r9 := r8.next (.answered ()) trivial (.answerLater rfl (.inl ⟨rfl, rfl⟩))
  have r10 := r9.next (.advance ()) trivial (.release rfl rfl)
  have r11 := r10.next (.unwind ()) trivial (.push rfl)
  exact ⟨_, r11, rfl, ⟨rfl, rfl⟩, rfl, fun _ => rfl⟩

end JLib.IoStream
