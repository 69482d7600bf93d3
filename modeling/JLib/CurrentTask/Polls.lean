import JLib.CurrentTask.Model

/-!
# Which task a poll answers for

On a worker it is the task at the bottom of the stack, which the worker loop runs; on any other thread none. A task
that is run inside a body that waits, or on a thread without a worker, is therefore not seen by its own polls.
-/

namespace JLib.CurrentTask
open LTS

variable {θ τ : Type} {worker : θ → Bool} {s u : State θ τ} {a : Label θ} {h : θ}
  {t t' : τ} {x : Site} {fs : List (Frame τ)}

/-- A stack that stands on a body run by the worker loop, with other tasks above it. -/
inductive Based (t : τ) (x : Site) : List (Frame τ) → Prop where
  | base :
    x.direct = true →
    Based t x [⟨t, x⟩]
  | nest {t₁ y gs} :
    t₁ ≠ t →
    y.direct = false →
    Based t x gs →
    Based t x (⟨t₁, y⟩ :: gs)

/-- The stack stands on its task. -/
lemma Based.last (b : Based t x fs) : fs.getLast? = some ⟨t, x⟩ := by
  induction b with
  | base _ => rfl
  | nest _ _ _ ih =>
    rw [List.getLast?_cons, ih]
    rfl

/-- What a worker has on its stack and in `currentRunningTask`. -/
inductive Fits : List (Frame τ) → Option τ → Prop where
  | idle : Fits [] none
  | busy {t x gs} : Based t x gs → Fits gs (some t)

structure Sound (worker : θ → Bool) (s : State θ τ) : Prop where
  fits : ∀ h, worker h = true → Fits (s.stack h) (s.currentRunningTask h)
  nested : ∀ h, worker h = false → ∀ f ∈ s.stack h, f.site.direct = false
  saved : ∀ t, s.saved t ≠ [] → Based t .fiber (s.saved t)
  -- the task of a worker is nowhere else
  busy : ∀ h t, worker h = true → s.currentRunningTask h = some t → s.queued t = false ∧ s.saved t = []
  apart : ∀ h h' t, worker h = true → worker h' = true → s.currentRunningTask h = some t →
    s.currentRunningTask h' = some t → h = h'

/-- Nobody has a task. -/
lemma Sound.start (c : World τ) : Sound worker ({ world := c } : State θ τ) :=
  ⟨fun _ _ => .idle, nofun, fun _ no => absurd rfl no, nofun, nofun⟩

/-- A thread of the worker loop goes on with another stack and another task; the others see none of it. -/
lemma Sound.enter [DecidableEq θ] {c : Option τ} (so : Sound worker s) (hw : worker h = true) (fits : Fits fs c)
    (saved : ∀ t, u.saved t ≠ [] → Based t .fiber (u.saved t))
    (mine : ∀ t, c = some t → u.queued t = false ∧ u.saved t = [])
    (others : ∀ h' t, h' ≠ h → worker h' = true → s.currentRunningTask h' = some t →
      u.queued t = false ∧ u.saved t = [] ∧ c ≠ some t)
    (stack : u.stack = s.stack) (current : u.currentRunningTask = s.currentRunningTask) :
    Sound worker (u.enter h fs c) := by
  have self : (u.enter h fs c).currentRunningTask h = c := Function.update_self ..
  have other : ∀ h' ≠ h, (u.enter h fs c).currentRunningTask h' = s.currentRunningTask h' := by
    intro h' ne
    rw [← current]
    exact Function.update_of_ne ne ..
  have otherStack : ∀ h' ≠ h, (u.enter h fs c).stack h' = s.stack h' := by
    intro h' ne
    rw [← stack]
    exact Function.update_of_ne ne ..
  refine ⟨fun h' hw' => ?_, fun h' hw' => ?_, saved, fun h' t hw' e => ?_, fun h₁ h₂ t hw₁ hw₂ e₁ e₂ => ?_⟩
  · by_cases e : h' = h
    · subst e
      rw [self]
      show Fits (Function.update u.stack h' fs h') c
      rw [Function.update_self]
      exact fits
    · rw [other h' e, otherStack h' e]
      exact so.fits h' hw'
  · have ne : h' ≠ h := by
      rintro rfl
      rw [hw] at hw'
      cases hw'
    rw [otherStack h' ne]
    exact so.nested h' hw'
  · by_cases eh : h' = h
    · subst eh
      exact mine t (self.symm.trans e)
    · obtain ⟨h1, h2, -⟩ := others h' t eh hw' (other h' eh ▸ e)
      exact ⟨h1, h2⟩
  · by_cases eh : h₁ = h
    · by_cases eh' : h₂ = h
      · rw [eh, eh']
      · rw [eh, self] at e₁
        exact absurd e₁ (others h₂ t eh' hw₂ (other h₂ eh' ▸ e₂)).2.2
    · by_cases eh' : h₂ = h
      · rw [eh', self] at e₂
        exact absurd e₂ (others h₁ t eh hw₁ (other h₁ eh ▸ e₁)).2.2
      · exact so.apart h₁ h₂ t hw₁ hw₂ (other h₁ eh ▸ e₁) (other h₂ eh' ▸ e₂)

/-- A body of the worker loop is on a worker. -/
lemma Sound.worker_of_direct (so : Sound worker s) (mem : (⟨t, x⟩ : Frame τ) ∈ s.stack h) (hx : x.direct = true) :
    worker h = true := by
  by_contra no
  have nested := so.nested h (Bool.eq_false_iff.2 no) _ mem
  rw [hx] at nested
  cases nested

/-- A task that is taken from a queue is no worker's. -/
lemma Sound.fresh (so : Sound worker s) (hq : s.queued t = true) {h' : θ} (hw : worker h' = true)
    (e : s.currentRunningTask h' = some t') : t' ≠ t := by
  rintro rfl
  rw [(so.busy h' t' hw e).1] at hq
  cases hq

variable [DecidableEq τ]

/-- A task that was popped is not queued and has no stack. -/
lemma pop_self : (s.pop t).queued t = false ∧ (s.pop t).saved t = [] :=
  ⟨Function.update_self .., Function.update_self ..⟩

/-- The others keep what they had. -/
lemma pop_other (ne : t' ≠ t) : (s.pop t).queued t' = s.queued t' ∧ (s.pop t).saved t' = s.saved t' :=
  ⟨Function.update_of_ne ne .., Function.update_of_ne ne ..⟩

/-- A saved stack stands on its task. -/
lemma Sound.pop_saved (so : Sound worker s) (t₁ : τ) (no : (s.pop t).saved t₁ ≠ []) :
    Based t₁ .fiber ((s.pop t).saved t₁) := by
  by_cases e : t₁ = t
  · subst e
    exact absurd pop_self.2 no
  · rw [(pop_other e).2] at no ⊢
    exact so.saved t₁ no

variable [DecidableEq θ]

/-- A worker takes a task from a queue and goes on with it. -/
lemma Sound.take (so : Sound worker s) (hw : worker h = true) (hq : s.queued t = true) (b : Based t x fs) :
    Sound worker ((s.pop t).enter h fs (some t)) := by
  refine so.enter hw (.busy b) so.pop_saved (fun t' e => ?_) (fun h' t' ne hw' e => ?_) rfl rfl
  · cases e
    exact pop_self
  · have differ := so.fresh hq hw' e
    rw [(pop_other differ).1, (pop_other differ).2]
    obtain ⟨h1, h2⟩ := so.busy h' t' hw' e
    exact ⟨h1, h2, fun same => differ (Option.some.inj same).symm⟩

omit [DecidableEq τ] in
/-- A thread of the worker loop leaves its body. -/
lemma Sound.leave (so : Sound worker s) (mem : (⟨t, x⟩ : Frame τ) ∈ s.stack h) (hx : x.direct = true) :
    Sound worker (s.enter h [] none) := by
  have hw := so.worker_of_direct mem hx
  refine so.enter hw .idle so.saved nofun (fun h' t ne hw' e => ?_) rfl rfl
  exact ⟨(so.busy h' t hw' e).1, (so.busy h' t hw' e).2, nofun⟩

omit [DecidableEq θ] [DecidableEq τ] in
/-- What the worker switches to. -/
lemma Sound.context (so : Sound worker s) (t : τ) : Based t .fiber (s.context t) := by
  unfold State.context
  split
  · exact .base rfl
  next some => exact so.saved t fun no => some (List.isEmpty_iff.2 no)

/-- A step keeps the stacks and what the workers have for current. -/
lemma Sound.step (so : Sound worker s) (st : Step worker s a u) : Sound worker u := by
  cases st with
  | native hw _ hq => exact so.take hw hq (.base rfl)
  | nativeReturns hs => exact so.leave (hs ▸ List.mem_singleton_self _) rfl
  | switchIn hw _ hq => exact so.take hw hq (so.context _)
  | @switchOut h t last =>
    have mem := List.mem_of_getLast? last
    have hw := so.worker_of_direct mem rfl
    -- the bottom of the stack is the task that the thread takes for its own
    obtain ⟨current, based⟩ : s.currentRunningTask h = some t ∧ Based t .fiber (s.stack h) := by
      have ft := so.fits h hw
      generalize s.stack h = fs at *
      generalize s.currentRunningTask h = c at *
      cases ft with
      | idle => cases last
      | busy b =>
        have same := b.last.symm.trans last
        cases same
        exact ⟨rfl, b⟩
    refine so.enter hw .idle (fun t' no => ?_) nofun (fun h' t' ne hw' e => ?_) rfl rfl
    · by_cases e : t' = t
      · subst e
        show Based t' .fiber (Function.update s.saved t' (s.stack h) t')
        rw [Function.update_self]
        exact based
      · replace no : Function.update s.saved t (s.stack h) t' ≠ [] := no
        show Based t' .fiber (Function.update s.saved t (s.stack h) t')
        rw [Function.update_of_ne e] at no ⊢
        exact so.saved t' no
    · have differ : t' ≠ t := by
        rintro rfl
        exact ne (so.apart h' h t' hw' hw e current)
      obtain ⟨h1, h2⟩ := so.busy h' t' hw' e
      exact ⟨h1, (Function.update_of_ne differ ..).trans h2, nofun⟩
  | @ready t no =>
    refine ⟨so.fits, so.nested, so.saved, fun h t' hw e => ?_, so.apart⟩
    obtain ⟨h1, h2⟩ := so.busy h t' hw e
    have differ : t' ≠ t := by
      rintro rfl
      exact no h2
    exact ⟨(Function.update_of_ne differ ..).trans h1, h2⟩
  | fiberReturns hs => exact so.leave (hs ▸ List.mem_singleton_self _) rfl
  | @nest h t x hx some hq =>
    have busy : ∀ h' t', worker h' = true → s.currentRunningTask h' = Option.some t' →
        (s.pop t).queued t' = false ∧ (s.pop t).saved t' = [] := by
      intro h' t' hw' e
      have differ := so.fresh hq hw' e
      rw [(pop_other differ).1, (pop_other differ).2]
      exact so.busy h' t' hw' e
    refine ⟨fun h' hw' => ?_, fun h' hw' f mem => ?_, so.pop_saved, busy, so.apart⟩
    · show Fits (Function.update s.stack h _ h') (s.currentRunningTask h')
      by_cases e : h' = h
      · subst e
        rw [Function.update_self]
        have ft := so.fits h' hw'
        have fresh := fun {t'} (e : s.currentRunningTask h' = Option.some t') => so.fresh hq hw' e
        have some := some hw'
        generalize s.stack h' = fs at *
        generalize s.currentRunningTask h' = c at *
        cases ft with
        | idle => exact absurd rfl some
        | busy b => exact .busy (.nest (fresh rfl).symm hx b)
      · rw [Function.update_of_ne e]
        exact so.fits h' hw'
    · replace mem : f ∈ Function.update s.stack h _ h' := mem
      by_cases e : h' = h
      · subst e
        rw [Function.update_self] at mem
        rcases List.mem_cons.1 mem with rfl | mem
        · exact hx
        · exact so.nested h' hw' f mem
      · rw [Function.update_of_ne e] at mem
        exact so.nested h' hw' f mem
  | @nestedReturns h t x fs hx hs =>
    refine ⟨fun h' hw' => ?_, fun h' hw' f mem => ?_, so.saved, so.busy, so.apart⟩
    · show Fits (Function.update s.stack h _ h') (s.currentRunningTask h')
      by_cases e : h' = h
      · subst e
        rw [Function.update_self]
        have ft := so.fits h' hw'
        rw [hs] at ft
        generalize s.currentRunningTask h' = c at *
        cases ft with
        | busy b =>
          cases b with
          | base direct =>
            rw [direct] at hx
            cases hx
          | nest _ _ b => exact .busy b
      · rw [Function.update_of_ne e]
        exact so.fits h' hw'
    · replace mem : f ∈ Function.update s.stack h _ h' := mem
      by_cases e : h' = h
      · subst e
        rw [Function.update_self] at mem
        exact so.nested h' hw' f (hs ▸ List.mem_cons_of_mem _ mem)
      · rw [Function.update_of_ne e] at mem
        exact so.nested h' hw' f mem
  | world c => exact ⟨so.fits, so.nested, so.saved, so.busy, so.apart⟩

/-- The account holds in every state of a run. -/
lemma Sound.reached {c : World τ} (rn : Reaches (Step worker) ({ world := c } : State θ τ) s) : Sound worker s :=
  rn.invariant (.start c) fun so _ st => so.step st

/-- In every reachable state and for every body that is innermost on its thread, `GetCurrentTask` and
`CurrentTaskCancelled` answer for its task exactly if the worker loop runs it, directly or on a fiber. -/
theorem poll_answers_for {c : World τ} (rn : Reaches (Step worker) ({ world := c } : State θ τ) s)
    (top : s.stack h = ⟨t, x⟩ :: fs) :
    (s.GetCurrentTask worker h = some t ∧
      (s.CurrentTaskCancelled worker h = true ↔ s.world.isTaskCancelled t = true)) ↔
    x = .native ∨ x = .fiber := by
  have so := Sound.reached rn
  have direct : x = .native ∨ x = .fiber ↔ x.direct = true := by
    cases x <;> simp [Site.direct]
  rw [direct]
  by_cases hw : worker h = true
  · have ft := so.fits h hw
    rw [top] at ft
    have get : s.GetCurrentTask worker h = s.currentRunningTask h := if_pos hw
    unfold State.CurrentTaskCancelled
    rw [get]
    generalize s.currentRunningTask h = current at ft ⊢
    cases ft with
    | busy b =>
      cases b with
      | base direct => exact ⟨fun _ => direct, fun _ => ⟨rfl, .rfl⟩⟩
      | nest ne nested _ =>
        constructor
        · rintro ⟨same, -⟩
          exact absurd (Option.some.inj same).symm ne
        · intro direct
          rw [direct] at nested
          cases nested
  · have none : s.GetCurrentTask worker h = Option.none := if_neg hw
    have nested := so.nested h (Bool.eq_false_iff.2 hw) _ (top ▸ List.mem_cons_self)
    rw [none]
    constructor
    · rintro ⟨no, -⟩
      cases no
    · intro direct
      rw [direct] at nested
      cases nested

/-- The tasks of which it is so are cancelled, each by itself. -/
def scopes (cancelled : Nat → Bool) : World Nat := ⟨fun _ => {}, fun t => some { cancelledDirect := cancelled t }⟩

/-- A direct run helps with another task, which returns; then its own task is cancelled. -/
theorem poll_answers_for_again :
    ∃ s : State Unit Nat, Reaches (Step fun _ => true) { world := scopes fun _ => false } s ∧
    s.stack () = [⟨0, .native⟩] ∧ s.GetCurrentTask (fun _ => true) () = some 0 ∧
    s.CurrentTaskCancelled (fun _ => true) () = true := by
  have r : Reaches (Step fun _ => true) ({ world := scopes fun _ => false } : State Unit Nat) _ := .refl
  have r := r.next (.thread ()) trivial (.native (h := ()) (t := 0) rfl rfl rfl)
  have r := r.next (.thread ()) trivial (.nest (h := ()) (t := 1) (x := .help) rfl nofun rfl)
  have r := r.next (.thread ()) trivial (.nestedReturns (h := ()) (t := 1) (x := .help) rfl rfl)
  have r := r.next .world trivial (.world (scopes fun t => t = 0))
  have answers := (poll_answers_for (h := ()) (t := 0) (x := .native) r rfl).2 (.inl rfl)
  exact ⟨_, r, rfl, answers.1, answers.2.2 rfl⟩

/-- A task is cancelled while a waiting body on a worker helps with it: its polls say that it is not. -/
theorem poll_answers_for_helper :
    ∃ s : State Unit Nat, Reaches (Step fun _ => true) { world := scopes fun _ => false } s ∧
    s.stack () = [⟨1, .help⟩, ⟨0, .native⟩] ∧ s.world.isTaskCancelled 1 = true ∧
    s.GetCurrentTask (fun _ => true) () = some 0 ∧ s.CurrentTaskCancelled (fun _ => true) () = false := by
  have r : Reaches (Step fun _ => true) ({ world := scopes fun _ => false } : State Unit Nat) _ := .refl
  have r := r.next (.thread ()) trivial (.native (h := ()) (t := 0) rfl rfl rfl)
  have r := r.next (.thread ()) trivial (.nest (h := ()) (t := 1) (x := .help) rfl nofun rfl)
  have r := r.next .world trivial (.world (scopes fun t => t = 1))
  exact ⟨_, r, rfl, rfl, rfl, rfl⟩

end JLib.CurrentTask
