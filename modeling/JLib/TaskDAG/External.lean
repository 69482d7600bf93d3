import JLib.TaskDAG.Reclaim

/-!
# The signal of an external node

The outside party owes an external node one `SignalExternal`, and it holds no guard when it reads the node.
The node is safe as long as it is not finished before its signal: then it is neither retired nor freed.
`Fire` finishes an external node without its signal in one branch only, that of a cancelled node. Such a
node is retired like any other, a tick frees it, and the signal that is still to come reads freed memory.
-/

namespace JLib.TaskDAG
open LTS State

variable {ν θ κ : Type} {w : Setup ν θ κ}
  {s u : State ν θ κ} {a : Label ν θ} {t : θ} {n : ν} {fs l : List (Frame ν)}

/-- The condition on the steps: `Fire` does not treat an external node as cancelled while its signal is
still to come. -/
def Attended (w : Setup ν θ κ) (s : State ν θ κ) : Label ν θ → Prop
  | .exec t => ∀ n outcome fs, s.stack t = .decide n outcome :: fs → w.graph.kind n = .external →
      s.cancelled = true ∨ outcome = .Cancelled → s.signalled n = true
  | _ => True

/-- An external node that is finished, retired or freed has had its signal. -/
structure Owed (w : Setup ν θ κ) (s : State ν θ κ) : Prop where
  task : ∀ {n}, s.dispatched n = true → w.graph.kind n = .task
  stack : ∀ {t f n}, f ∈ s.stack t → f.finishing = some n → w.graph.kind n = .external →
    s.signalled n = true
  bag : ∀ {b n e}, (n, e) ∈ s.bag b → w.graph.kind n = .external → s.signalled n = true
  freed : ∀ {n}, s.freed n = true → w.graph.kind n = .external → s.signalled n = true

/-- Nothing is finished yet. -/
lemma Owed.init [DecidableEq ν] (w : Setup ν θ κ) : Owed w (init w) := ⟨nofun, nofun, nofun, nofun⟩

variable [DecidableEq θ]

/-- A thread's stack gets new activations; those below were there. -/
lemma Owed.replace (ow : Owed w s) (stack : u.stack = Function.update s.stack t (l ++ fs))
    (below : ∀ f ∈ fs, f ∈ s.stack t)
    (frames : ∀ f ∈ l, ∀ n, f.finishing = some n → w.graph.kind n = .external → u.signalled n = true)
    (signalled : ∀ n, s.signalled n = true → u.signalled n = true)
    (task : ∀ n, u.dispatched n = true → s.dispatched n = true ∨ w.graph.kind n = .task)
    (same : SameBags s u) : Owed w u := by
  refine ⟨fun {n} h => ?_, fun {t' f n} hf hn ext => ?_, fun {b n e} h ext => ?_, fun {n} h ext => ?_⟩
  · exact (task n h).elim ow.task id
  · rw [stack, Function.update_apply] at hf
    split at hf
    · rcases List.mem_append.1 hf with hf | hf
      · exact frames f hf n hn ext
      · exact signalled n (ow.stack (below f hf) hn ext)
    · exact signalled n (ow.stack hf hn ext)
  · rw [same.bag] at h
    exact signalled n (ow.bag h ext)
  · rw [same.freed] at h
    exact signalled n (ow.freed h ext)

/-- The activation on top is replaced by another of the same `OnTaskFinished`, or by none. -/
lemma Owed.goes {f : Frame ν} (ow : Owed w s) (hs : s.stack t = f :: fs)
    (stack : u.stack = Function.update s.stack t (l ++ fs))
    (frames : ∀ g ∈ l, g.finishing = none ∨ g.finishing = f.finishing)
    (signalled : u.signalled = s.signalled) (task : u.dispatched = s.dispatched) (same : SameBags s u) :
    Owed w u := by
  have below : ∀ g ∈ fs, g ∈ s.stack t := by
    intro g hg
    rw [hs]
    exact List.mem_cons_of_mem f hg
  refine ow.replace stack below (fun g hg n hn ext => ?_) (fun n h => ?_) (fun n h => ?_) same
  · rw [signalled]
    rcases frames g hg with none | eq
    · rw [none] at hn
      cases hn
    · refine ow.stack (t := t) (f := f) ?_ (eq ▸ hn) ext
      rw [hs]
      exact List.mem_cons_self
  · rw [signalled]
    exact h
  · rw [task] at h
    exact .inl h

/-- `OnTaskFinished` is called for a node that is not external, or has its signal. -/
lemma Owed.finish {outcome : Outcome} (ow : Owed w s)
    (stack : u.stack = Function.update s.stack t (.enter n outcome :: fs))
    (below : ∀ f ∈ fs, f ∈ s.stack t)
    (told : w.graph.kind n = .external → u.signalled n = true)
    (signalled : ∀ n, s.signalled n = true → u.signalled n = true)
    (task : ∀ n, u.dispatched n = true → s.dispatched n = true) (same : SameBags s u) : Owed w u := by
  refine ow.replace (l := [.enter n outcome]) stack below (fun f hf m hm ext => ?_) signalled
    (fun m h => .inl (task m h)) same
  rw [List.mem_singleton.1 hf] at hm
  cases hm
  exact told ext

variable [DecidableEq ν]

/-- A node that is dispatched under the condition is not one that waits for its signal. -/
lemma Owed.dispatch {outcome : Outcome} (ow : Owed w s) (hs : s.stack t = .decide n outcome :: fs)
    (ok : w.graph.kind n = .external → s.cancelled = true ∨ outcome = .Cancelled → s.signalled n = true) :
    Owed w (s.dispatch w t n outcome fs) := by
  have below : ∀ f ∈ fs, f ∈ s.stack t := by
    intro f hf
    rw [hs]
    exact List.mem_cons_of_mem _ hf
  unfold State.dispatch
  split
  · rename_i c
    exact ow.finish rfl below (fun ext => ok ext c) (fun _ h => h) (fun _ h => h) ⟨rfl, rfl, rfl, rfl⟩
  · cases kind : w.graph.kind n with
    | gate =>
      refine ow.finish rfl below (fun ext => ?_) (fun _ h => h) (fun _ h => h) ⟨rfl, rfl, rfl, rfl⟩
      rw [kind] at ext
      cases ext
    | external =>
      refine ow.goes (l := [.arm n]) hs rfl (fun g hg => ?_) rfl rfl ⟨rfl, rfl, rfl, rfl⟩
      rw [List.mem_singleton.1 hg]
      exact .inl rfl
    | task =>
      refine ow.replace (l := []) rfl below (fun f hf => absurd hf List.not_mem_nil) (fun _ h => h)
        (fun m h => ?_) ⟨rfl, rfl, rfl, rfl⟩
      simp only [Function.update_apply] at h
      split at h
      · rename_i e
        exact .inr (e ▸ kind)
      · exact .inl h

/-- Reading an edge finishes nothing. -/
lemma Owed.visit {m d : ν} {outcome : Outcome} {rest : List ν} {began : Nat} (ow : Owed w s)
    (hs : s.stack t = .walk m outcome (d :: rest) began :: fs) :
    Owed w (s.visit w t outcome d (.walk m outcome rest began :: fs)) := by
  have fires : ∀ o, ∀ g ∈ [Frame.fire d o, .walk m outcome rest began],
      g.finishing = none ∨ g.finishing = some m := by
    intro o g hg
    rcases List.mem_cons.1 hg with rfl | hg
    · exact .inl rfl
    · rw [List.mem_singleton.1 hg]
      exact .inr rfl
  have stays : ∀ g ∈ [Frame.walk m outcome rest began], g.finishing = none ∨ g.finishing = some m := by
    intro g hg
    exact fires .Completed g (List.mem_cons_of_mem _ hg)
  unfold State.visit
  cases outcome with
  | Cancelled => exact ow.goes hs rfl (fires .Cancelled) rfl rfl ⟨rfl, rfl, rfl, rfl⟩
  | Completed =>
    simp only
    split
    · exact ow.goes hs rfl (fires .Completed) rfl rfl ⟨rfl, rfl, rfl, rfl⟩
    · split
      · exact ow.goes hs rfl (fires .Completed) rfl rfl ⟨rfl, rfl, rfl, rfl⟩
      · exact ow.goes hs rfl stays rfl rfl ⟨rfl, rfl, rfl, rfl⟩

omit [DecidableEq ν] in
/-- A node is retired after its walk. -/
lemma Owed.retire (ow : Owed w s) (hs : s.stack t = .retire n :: fs) :
    Owed w { s.setStack t fs with
      bag := Function.update s.bag (some t) ((n, s.globalEpoch) :: s.bag (some t)) } := by
  have popped : Owed w (s.setStack t fs) := by
    refine ow.goes (l := []) hs rfl (fun g hg => ?_) rfl rfl ⟨rfl, rfl, rfl, rfl⟩
    cases hg
  refine ⟨popped.task, popped.stack, fun {b m e} h ext => ?_, popped.freed⟩
  simp only [Function.update_apply] at h
  split at h
  · rcases List.mem_cons.1 h with h | h
    · cases h
      refine ow.stack (t := t) (f := .retire n) ?_ rfl ext
      rw [hs]
      exact List.mem_cons_self
    · exact ow.bag h ext
  · exact ow.bag h ext

variable [DecidableEq κ]

/-- One step of a thread under the condition. -/
lemma Owed.exec (ow : Owed w s) (ok : Attended w s (.exec t)) : Owed w (s.exec w t) := by
  unfold State.exec
  cases hs : s.stack t with
  | nil => exact ow
  | cons f fs =>
    have below : ∀ g ∈ fs, g ∈ s.stack t := by
      intro g hg
      rw [hs]
      exact List.mem_cons_of_mem f hg
    -- one activation gives way to another of the same `OnTaskFinished`
    have one : ∀ {g g' : Frame ν}, g.finishing = f.finishing → g' ∈ [g] →
        g'.finishing = none ∨ g'.finishing = f.finishing := by
      intro g g' h hg
      rw [List.mem_singleton.1 hg]
      exact .inr h
    have none : ∀ g ∈ ([] : List (Frame ν)), g.finishing = none ∨ g.finishing = f.finishing := by
      intro g hg
      cases hg
    cases f with
    | fire n outcome =>
      simp only
      split
      · exact ow.goes hs rfl none rfl rfl ⟨rfl, rfl, rfl, rfl⟩
      · exact ow.goes (l := [.decide n outcome]) hs rfl (fun _ => one rfl) rfl rfl
          ⟨rfl, rfl, rfl, rfl⟩
    | decide n outcome => exact ow.dispatch hs (ok n outcome fs hs)
    | arm n =>
      simp only
      split
      · exact ow.finish rfl below (fun _ => ‹_›) (fun _ h => h) (fun _ h => h) ⟨rfl, rfl, rfl, rfl⟩
      · exact ow.goes hs rfl none rfl rfl ⟨rfl, rfl, rfl, rfl⟩
    | enter n outcome =>
      exact ow.goes (l := [.announce n outcome s.globalEpoch]) hs rfl (fun _ => one rfl) rfl rfl
        ⟨rfl, rfl, rfl, rfl⟩
    | announce n outcome e =>
      exact ow.goes (l := [.walk n outcome (w.graph.dependents n) s.globalEpoch]) hs rfl
        (fun _ => one rfl) rfl rfl ⟨rfl, rfl, rfl, rfl⟩
    | walk n outcome rest began =>
      cases rest with
      | nil =>
        exact ow.goes (l := [.retire n]) hs rfl (fun _ => one rfl) rfl rfl ⟨rfl, rfl, rfl, rfl⟩
      | cons d rest => exact ow.visit hs
    | retire n => exact ow.retire hs

omit [DecidableEq κ] in
/-- A signal pays what its node is owed. -/
lemma Owed.signal (ow : Owed w s) : Owed w (s.signal t n) := by
  have mono : ∀ m, s.signalled m = true → Function.update s.signalled n true m = true := by
    intro m h
    rw [Function.update_apply]
    split
    · rfl
    · exact h
  unfold State.signal
  split
  · exact ow
  · simp only
    split
    · exact ow.finish rfl (fun _ hf => hf) (fun _ => Function.update_self ..) mono (fun _ h => h)
        ⟨rfl, rfl, rfl, rfl⟩
    · exact ⟨ow.task, fun hf hn ext => mono _ (ow.stack hf hn ext), fun h ext => mono _ (ow.bag h ext),
        fun h ext => mono _ (ow.freed h ext)⟩

omit [DecidableEq κ] in
/-- The scheduler runs or discards a task. -/
lemma Owed.taken {outcome : Outcome} (ow : Owed w s) (task : s.dispatched n = true) :
    Owed w { s.call t (.enter n outcome) with
      dispatched := Function.update s.dispatched n false } := by
  refine ow.finish rfl (fun _ hf => hf) (fun ext => ?_) (fun _ h => h) (fun m h => ?_)
    ⟨rfl, rfl, rfl, rfl⟩
  · rw [ow.task task] at ext
    cases ext
  · simp only [Function.update_apply] at h
    split at h
    · cases h
    · exact h

/-- A step under the condition finishes no external node before its signal. -/
lemma Owed.step (ow : Owed w s) (ok : Attended w s a) (st : Step w s a u) : Owed w u := by
  cases st with
  | @submit t r rs _ =>
    refine ow.replace (l := [.fire r .Completed]) rfl (fun _ hf => hf) (fun f hf m hm => ?_)
      (fun _ h => h) (fun _ h => .inl h) ⟨rfl, rfl, rfl, rfl⟩
    rw [List.mem_singleton.1 hf] at hm
    cases hm
  | run task => exact ow.taken task
  | discard task => exact ow.taken task
  | @workerDiscard n task =>
    refine ⟨fun {m} h => ?_, ow.stack, ow.bag, ow.freed⟩
    simp only [Function.update_apply] at h
    split at h
    · cases h
    · exact ow.task h
  | signal _ => exact ow.signal
  | cancel => exact ⟨ow.task, ow.stack, ow.bag, ow.freed⟩
  | exec => exact ow.exec ok
  | advance => exact ⟨ow.task, ow.stack, ow.bag, ow.freed⟩
  | scan _ => exact ⟨ow.task, ow.stack, ow.bag, ow.freed⟩
  | look =>
    unfold State.look
    split
    · exact ⟨ow.task, ow.stack, ow.bag, ow.freed⟩
    · exact ow
  | sweep _ =>
    refine ⟨ow.task, ow.stack, fun h => ow.bag (bag_of_sweep h), fun {n} h ext => ?_⟩
    rcases freed_of_sweep h with h | ⟨b, e, h, _⟩
    · exact ow.freed h ext
    · exact ow.bag h ext
  | leave _ =>
    refine ⟨ow.task, ow.stack, fun h ext => ?_, ow.freed⟩
    obtain ⟨b, h⟩ := bag_of_leave h
    exact ow.bag h ext

/-- In a run under the condition no external node ends before its signal. -/
lemma Owed.of_runs (rn : Runs (Step w) (Attended w) (TaskDAG.init w) s) : Owed w s :=
  rn.invariant (Owed.init w) fun ow ok st => ow.step ok st

/-- Where no external node is cancelled before its signal, the first `SignalExternal` of a node finds it
not freed. -/
theorem signal_finds_node (rn : Runs (Step w) (Attended w) (init w) s) (st : Step w s (.signal t n) u)
    (first : s.signalled n = false) : s.freed n = false := by
  cases st with
  | signal ext =>
    apply Bool.eq_false_iff.2
    intro h
    rw [(Owed.of_runs rn).freed h ext] at first
    cases first

/-- An external node after a task. -/
def awaited : Setup Nat Unit Unit where
  graph :=
    { nodes := [0, 1]
      dependents := fun n => if n = 0 then [1] else []
      kind := fun n => if n = 1 then .external else .task
      gateType := fun _ => .AND
      acyclic := chain_acyclic }
  slotOf := fun _ => ()
  participants := [()]
  registered := unit_registered

/-- The external node is armed, and its signal comes. -/
theorem signal_finds_node_awaited :
    ∃ s u, Runs (Step awaited) (Attended awaited) (init awaited) s ∧
      Step awaited s (.signal () 1) u ∧ s.signalled 1 = false ∧ s.armed 1 = true ∧ s.freed 1 = false := by
  have calm : ∀ {s : State Nat Unit Unit}, s.cancelled = false →
      (∀ n fs, s.stack () ≠ .decide n .Cancelled :: fs) → Attended awaited s (.exec ()) := by
    intro s off clean n outcome fs hs _ c
    rcases c with c | rfl
    · rw [off] at c
      cases c
    · exact absurd hs (clean n fs)
  have r : Runs (Step awaited) (Attended awaited) (init awaited) _ := .refl
  have r1 := r.next (.submit ()) trivial (.submit rfl)
  have r2 := r1.next (.exec ()) (calm rfl nofun) .exec
  have r3 := r2.next (.exec ()) (calm rfl nofun) .exec
  have r4 := r3.next (.run () 0) trivial (.run rfl)
  have r5 := r4.next (.exec ()) (calm rfl nofun) .exec
  have r6 := r5.next (.exec ()) (calm rfl nofun) .exec
  have r7 := r6.next (.exec ()) (calm rfl nofun) .exec
  have r8 := r7.next (.exec ()) (calm rfl nofun) .exec
  have r9 := r8.next (.exec ()) (calm rfl nofun) .exec
  have r10 := r9.next (.exec ()) (calm rfl nofun) .exec
  refine ⟨_, _, r10, .signal rfl, rfl, rfl, ?_⟩
  exact signal_finds_node (t := ()) (n := 1) r10 (.signal rfl) rfl

/-- The graph is cancelled while the task runs. The task's walk fires the external node, which is finished
as cancelled and retired; a tick frees it, and its signal is still to come. -/
theorem signal_reads_freed_node :
    ∃ s u, Reaches (Step awaited) (init awaited) s ∧ s.roots = [] ∧
      Step awaited s (.signal () 1) u ∧ s.signalled 1 = false ∧ s.freed 1 = true := by
  have r : Reaches (Step awaited) (init awaited) _ := .refl
  have r1 := r.next (.submit ()) trivial (.submit rfl)
  have r2 := r1.next (.exec ()) trivial .exec
  have r3 := r2.next (.exec ()) trivial .exec
  have r4 := r3.next (.run () 0) trivial (.run rfl)
  have r5 := r4.next .cancel trivial .cancel
  have r6 := r5.next (.exec ()) trivial .exec
  have r7 := r6.next (.exec ()) trivial .exec
  -- the walk fires the external node
  have r8 := r7.next (.exec ()) trivial .exec
  have r9 := r8.next (.exec ()) trivial .exec
  have r10 := r9.next (.exec ()) trivial .exec
  -- the node's own walk, and its retirement
  have r11 := r10.next (.exec ()) trivial .exec
  have r12 := r11.next (.exec ()) trivial .exec
  have r13 := r12.next (.exec ()) trivial .exec
  have r14 := r13.next (.exec ()) trivial .exec
  -- a tick
  have r15 := r14.next .advance trivial .advance
  have r16 := r15.next (.scan ()) trivial (.scan rfl)
  have r17 := r16.next (.look ()) trivial .look
  have r18 := r17.next (.sweep ()) trivial (.sweep rfl)
  exact ⟨_, _, r18, rfl, .signal rfl, rfl, rfl⟩

end JLib.TaskDAG
