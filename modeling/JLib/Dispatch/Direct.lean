import JLib.Dispatch.Model

/-!
# Direct execution

A task is to be executed directly only if it is not a Fiber task and has no fiber. The fast path and the
two ways to help look at the type, the drain of `ParallelFor` does not. The type is not the whole of it
either: in a reserved pass a Native task runs on a fiber too, and if it is then queued again as a Native
task with a live stack, it must not come to a place that trusts the type.
-/

namespace JLib.Dispatch
open LTS Pool

variable {ω : Type} {s u : Pool ω} {a : Label ω} {t : Task} {q : Queue ω} {w : ω}

/-- A Native task with a stack of its own. -/
def Stacked (t : Task) : Prop := t.type = .Native ∧ t.assignedFiber = true

/-- Only reserved passes look at the queue. -/
def Guarded (s : Pool ω) (q : Queue ω) : Prop :=
  q = .intake ∨ ∃ w, s.isReservedWorker w = true ∧ (q = .lane w ∨ q = .resumed w)

/-- The condition on the steps. `ParallelFor` does not find a Fiber task at the bottom of its lane. A
Native task that was on a fiber is queued again only where reserved passes alone look, and while it is
there, or has been found there, neither do passes of that worker cease to be reserved nor is the intake
emptied into an inbox. -/
def Contained (s : Pool ω) : Label ω → Prop
  | .drain w => ∀ t ts, s.queue (.deque w) = t :: ts → t.type ≠ .Fiber
  | .requeue t q => Stacked t → Guarded s q
  | .latch w b => b = false → ∀ t, Stacked t →
      t ∉ s.queue (.lane w) ∧ t ∉ s.queue (.resumed w) ∧ s.task_to_run w ≠ some t
  | .move .intake _ => ∀ t ∈ s.queue .intake, ¬Stacked t
  | _ => True

/-- Where the Native tasks with a stack are, and what was executed. -/
structure Clean (s : Pool ω) : Prop where
  queue : ∀ {q t}, t ∈ s.queue q → Stacked t → Guarded s q
  hand : ∀ {w t}, s.task_to_run w = some t → Stacked t → s.isReservedWorker w = true
  executed : ∀ t ∈ s.executed, t.type ≠ .Fiber ∧ t.assignedFiber = false

/-- A task without a fiber has no stack. -/
lemma not_stacked (h : t.assignedFiber = false) : ¬Stacked t := by
  intro st
  cases h.symm.trans st.2

/-- A task that is no Fiber task and has no stack may be executed. -/
lemma plain (type : t.type ≠ .Fiber) (h : ¬Stacked t) : t.type ≠ .Fiber ∧ t.assignedFiber = false := by
  refine ⟨type, ?_⟩
  cases ht : t.type with
  | Native => exact Bool.eq_false_iff.2 fun hf => h ⟨ht, hf⟩
  | Fiber => exact absurd ht type

/-- Everybody looks at an inbox. -/
lemma Guarded.not_inbox : ¬Guarded s (.inbox w) := by
  rintro (h | ⟨_, _, h | h⟩) <;> cases h

/-- Everybody looks at a deque. -/
lemma Guarded.not_deque : ¬Guarded s (.deque w) := by
  rintro (h | ⟨_, _, h | h⟩) <;> cases h

/-- A pass that looks at a guarded queue is a reserved one. -/
lemma Guarded.reserved (g : Guarded s q) (h : Searches s w q) : s.isReservedWorker w = true := by
  cases h with
  | intake r => exact r
  | lane =>
    obtain h | ⟨_, r, h | h⟩ := g <;> cases h
    exact r
  | inbox _ => exact absurd g Guarded.not_inbox
  | resumed =>
    obtain h | ⟨_, r, h | h⟩ := g <;> cases h
    exact r
  | deque => exact absurd g Guarded.not_deque

/-- There is no task. -/
lemma Clean.init : Clean ({} : Pool ω) := ⟨nofun, nofun, nofun⟩

variable [DecidableEq ω]

/-- Tasks leave a queue. -/
lemma Clean.set {ts : List Task} (c : Clean s) (sub : ts ⊆ s.queue q) : Clean (s.set q ts) := by
  refine ⟨fun {q' t} h st => ?_, c.hand, c.executed⟩
  have h : t ∈ Function.update s.queue q ts q' := h
  rw [Function.update_apply] at h
  split at h
  · rename_i e
    rw [e]
    exact c.queue (sub h) st
  · exact c.queue h st

/-- The queue is popped, or its far end is stolen from. -/
lemma Clean.pop {ts : List Task} (c : Clean s) (h : s.queue q = t :: ts) :
    t ∈ s.queue q ∧ Clean (s.set q ts) := by
  rw [h]
  refine ⟨List.mem_cons_self, c.set ?_⟩
  rw [h]
  exact List.subset_cons_self _ _

/-- Taking a task leaves the others where they were. -/
lemma Clean.steal {ts : List Task} (c : Clean s) (h : s.queue q = ts ++ [t]) :
    t ∈ s.queue q ∧ Clean (s.set q ts) := by
  rw [h]
  refine ⟨List.mem_append_right _ (List.mem_singleton_self _), c.set ?_⟩
  rw [h]
  exact List.subset_append_left _ _

/-- A task is added to a queue. -/
lemma Clean.add {ts : List Task} (c : Clean s) (here : ∀ t' ∈ ts, t' ∈ s.queue q ∨ t' = t)
    (g : Stacked t → Guarded s q) : Clean (s.set q ts) := by
  refine ⟨fun {q' t'} h st => ?_, c.hand, c.executed⟩
  have h : t' ∈ Function.update s.queue q ts q' := h
  rw [Function.update_apply] at h
  split at h
  · rename_i e
    rw [e]
    rcases here t' h with h | rfl
    · exact c.queue h st
    · exact g st
  · exact c.queue h st

/-- A task with a stack may go where only reserved passes look. -/
lemma Clean.push (c : Clean s) (g : Stacked t → Guarded s q) : Clean (s.push q t) := by
  refine c.add (t := t) (fun t' h => ?_) g
  rcases List.mem_append.1 h with h | h
  · exact .inl h
  · exact .inr (List.mem_singleton.1 h)

/-- A task with a stack may be found by a reserved worker. -/
lemma Clean.find (c : Clean s) (h : Stacked t → s.isReservedWorker w = true) :
    Clean (s.find w t) := by
  refine ⟨c.queue, fun {w' t'} h' st => ?_, c.executed⟩
  have h' : Function.update s.task_to_run w (some t) w' = some t' := h'
  rw [Function.update_apply] at h'
  split at h'
  · rename_i e
    cases h'
    rw [e]
    exact h st
  · exact c.hand h' st

/-- A worker may drop its task. -/
lemma Clean.clear (c : Clean s) (w : ω) : Clean (s.clear w) := by
  refine ⟨c.queue, fun {w' t'} h' st => ?_, c.executed⟩
  have h' : Function.update s.task_to_run w none w' = some t' := h'
  rw [Function.update_apply] at h'
  split at h'
  · cases h'
  · exact c.hand h' st

omit [DecidableEq ω] in
/-- A task without a fiber may be executed. -/
lemma Clean.execute (c : Clean s) (h : t.type ≠ .Fiber ∧ t.assignedFiber = false) :
    Clean (s.execute t) := by
  refine ⟨c.queue, c.hand, fun t' h' => ?_⟩
  rcases List.mem_cons.1 h' with rfl | h'
  · exact h
  · exact c.executed t' h'

/-- What a pass reads at its top. -/
lemma Clean.latch {b : Bool} (c : Clean s) (ok : Contained s (.latch w b)) :
    Clean { s with isReservedWorker := Function.update s.isReservedWorker w b } := by
  have stays : ∀ {v}, s.isReservedWorker v = true → (v = w → b = true) →
      Function.update s.isReservedWorker w b v = true := by
    intro v r h
    rw [Function.update_apply]
    split
    · exact h ‹_›
    · exact r
  have top : ∀ {t}, Stacked t →
      t ∈ s.queue (.lane w) ∨ t ∈ s.queue (.resumed w) ∨ s.task_to_run w = some t → b = true := by
    intro t st h
    apply Bool.of_not_eq_false
    intro e
    obtain ⟨h1, h2, h3⟩ := ok e t st
    rcases h with h | h | h
    · exact h1 h
    · exact h2 h
    · exact h3 h
  refine ⟨fun {q t} h st => ?_, fun {v t} h st => ?_, c.executed⟩
  · obtain hq | ⟨v, r, hq⟩ := c.queue h st
    · exact .inl hq
    · refine .inr ⟨v, stays r fun e => top st ?_, hq⟩
      obtain hq | hq := hq
      · exact .inl (by rw [← e, ← hq]; exact h)
      · exact .inr (.inl (by rw [← e, ← hq]; exact h))
  · exact stays (c.hand h st) fun e => top st (.inr (.inr (e ▸ h)))

omit [DecidableEq ω] in
/-- Moved tasks have no stack of their own. -/
lemma Clean.moved {p : Queue ω} (c : Clean s) (ok : Contained s (.move p q)) (mem : t ∈ s.queue p)
    (mv : Moves t p q) : ¬Stacked t := by
  cases mv with
  | stage => exact fun st => Guarded.not_inbox (c.queue mem st)
  | relocate type => exact fun st => TaskType.noConfusion (type.symm.trans st.1)
  | spread => exact fun st => Guarded.not_deque (c.queue mem st)
  | shed => exact fun st => Guarded.not_inbox (c.queue mem st)
  | rescue => exact ok t mem

/-- A step under the condition keeps the tasks with a stack out of reach. -/
lemma Clean.step (c : Clean s) (ok : Contained s a) (st : Step s a u) : Clean u := by
  cases st with
  | create fresh => exact c.push fun st => absurd st (not_stacked fresh)
  | split fresh =>
    refine c.add (fun t' h => ?_) fun st => absurd st (not_stacked fresh)
    exact (List.mem_cons.1 h).symm
  | latch => exact c.latch ok
  | search looks h =>
    obtain ⟨mem, c'⟩ := c.pop h
    exact c'.find fun st => (c.queue mem st).reserved looks
  | steal h =>
    obtain ⟨mem, c'⟩ := c.steal h
    exact c'.find fun st => absurd (c.queue mem st) Guarded.not_deque
  | move h mv =>
    obtain ⟨mem, c'⟩ := c.pop h
    exact c'.push fun st => absurd st (c.moved ok mem mv)
  | direct h type ordinary =>
    refine (c.clear _).execute (plain (by simp [type]) fun st => ?_)
    cases ordinary.symm.trans (c.hand h st)
  | @switch w t _ _ =>
    have c' := c.clear w
    exact ⟨c'.queue, c'.hand, c'.executed⟩
  | noFiber h fresh => exact (c.clear _).push fun st => absurd st (not_stacked fresh)
  | discard => exact c.clear _
  | finish => exact ⟨c.queue, c.hand, c.executed⟩
  | @yield w t q h =>
    have c' : Clean (s.run w none) := ⟨c.queue, c.hand, c.executed⟩
    exact c'.push ok
  | suspend _ => exact ⟨c.queue, c.hand, c.executed⟩
  | @resume t q l r h =>
    have c' : Clean { s with suspended := l ++ r } := ⟨c.queue, c.hand, c.executed⟩
    exact c'.push ok
  | helpSteal h type =>
    obtain ⟨mem, c'⟩ := c.steal h
    exact c'.execute (plain type fun st => Guarded.not_deque (c.queue mem st))
  | helpLane ordinary h type =>
    obtain ⟨mem, c'⟩ := c.pop h
    refine c'.execute (plain type fun st => ?_)
    cases ordinary.symm.trans ((c.queue mem st).reserved .lane)
  | drain h =>
    obtain ⟨mem, c'⟩ := c.pop h
    exact c'.execute (plain (ok _ _ h) fun st => Guarded.not_deque (c.queue mem st))

/-- Where Fiber tasks and Native tasks with a stack are kept from the places that would restart them, a
task is executed directly only if it is no Fiber task and has no fiber. -/
theorem direct_only_without_fiber (rn : Runs Step Contained ({} : Pool ω) s) :
    ∀ t ∈ s.executed, t.type ≠ .Fiber ∧ t.assignedFiber = false := by
  have c : Clean s := rn.invariant .init fun c ok st => c.step ok st
  exact c.executed

/-- One Native task, which is executed. -/
theorem direct_only_without_fiber_native :
    ∃ s : Pool Bool, Runs Step Contained {} s ∧ s.executed = [⟨0, .Native, false⟩] ∧
      ∀ t ∈ s.executed, t.type ≠ .Fiber ∧ t.assignedFiber = false := by
  have r : Runs Step Contained ({} : Pool Bool) _ := .refl
  have r1 := r.next (.create (.inbox true) ⟨0, .Native, false⟩) trivial (.create rfl)
  have r2 := r1.next (.search true) trivial (.search (.inbox rfl) rfl)
  have r3 := r2.next (.dispatch true) trivial (.direct rfl rfl rfl)
  exact ⟨_, r3, rfl, direct_only_without_fiber r3⟩

/-- Task 0 runs directly on worker `true` and calls `ParallelFor`. Its split, task 1, is stolen. Worker
`true` helps, which brings the Fiber task 2 from its inbox to its deque, and then drains its lane. And a
Native task that a reserved pass runs on a fiber yields, and is restarted by the fast path of a pass that
is not reserved. -/
theorem fiber_task_executed_directly :
    (∃ s : Pool Bool, Reaches Step {} s ∧ ⟨2, .Fiber, false⟩ ∈ s.executed) ∧
      ∃ s : Pool Bool, Reaches Step {} s ∧ ⟨0, .Native, true⟩ ∈ s.executed := by
  have r : Reaches Step ({} : Pool Bool) _ := .refl
  constructor
  · have r1 := r.next (.create (.inbox true) ⟨0, .Native, false⟩) trivial (.create rfl)
    have r2 := r1.next (.search true) trivial (.search (.inbox rfl) rfl)
    have r3 := r2.next (.dispatch true) trivial (.direct rfl rfl rfl)
    have r4 := r3.next (.create (.deque true) ⟨1, .Native, false⟩) trivial (.split rfl)
    have r5 := r4.next (.create (.inbox true) ⟨2, .Fiber, false⟩) trivial (.create rfl)
    have r6 := r5.next (.search false) trivial (.steal (v := true) (l := []) rfl)
    have r7 := r6.next (.move (.inbox true) (.deque true)) trivial (.move rfl .stage)
    have r8 := r7.next (.drain true) trivial (.drain rfl)
    exact ⟨_, r8, List.mem_cons_self⟩
  · have r1 := r.next (.latch true true) trivial .latch
    have r2 := r1.next (.create (.lane true) ⟨0, .Native, false⟩) trivial (.create rfl)
    have r3 := r2.next (.search true) trivial (.search .lane rfl)
    have r4 := r3.next (.dispatch true) trivial (.switch rfl nofun)
    have r5 := r4.next (.requeue ⟨0, .Native, true⟩ (.inbox false)) trivial (.yield (w := true) rfl)
    have r6 := r5.next (.search false) trivial (.search (.inbox rfl) rfl)
    have r7 := r6.next (.dispatch false) trivial (.direct rfl rfl rfl)
    exact ⟨_, r7, List.mem_cons_self⟩

end JLib.Dispatch
