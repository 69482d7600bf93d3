import JLib.TaskDAG.Held

/-!
# The book of a graph

What has been done for each node is counted beside the state: its arrivals at `OnTaskFinished`, the pushes,
disposals and runs of its task, the decrements of the task's `WaitGroup`, and the edges that its walk has
read. The `WaitGroup` of a task that was run or discarded is decremented by the caller of `OnTaskFinished`,
after that has returned; a worker of the pool that discards a task decrements it with the discard. No step
reads the book.

Where a node is says what its entry is: `Right` gives the entry for every location, and `Shift` what one
step does to locations and entries together.
-/

namespace JLib.TaskDAG
open LTS State

variable {ν θ κ : Type} {w : Setup ν θ κ} {g : Graph ν}
  {s u : State ν θ κ} {a : Label ν θ} {t : θ} {n m : ν} {f : Frame ν} {fs l : List (Frame ν)}

structure Entry (ν : Type) where
  -- arrivals at `OnTaskFinished`, and the outcome of the last
  finished : Nat := 0
  outcome : Option Outcome := none
  -- the node's task
  pushed : Nat := 0
  disposed : Nat := 0
  ran : Nat := 0
  -- its `WaitGroup`: still to be decremented by the caller of `OnTaskFinished`, and decrements made
  owing : Bool := false
  released : Nat := 0
  -- edges that the walk has read
  seen : List ν := []

abbrev Book (ν : Type) := ν → Entry ν

/-- `OnTaskFinished` is reached. -/
def Entry.finish (e : Entry ν) (outcome : Outcome) : Entry ν :=
  { e with finished := e.finished + 1, outcome := some outcome }

/-- `DisposeUnexecutedTask`. -/
def Entry.dispose (e : Entry ν) : Entry ν :=
  { e with disposed := e.disposed + 1, released := e.released + 1 }

/-- What is noted of a step. -/
def note [DecidableEq ν] (w : Setup ν θ κ) (s : State ν θ κ) (b : Book ν) : Label ν θ → Book ν
  -- `OnTaskFinishedWrapper`
  | .run _ n =>
    Function.update b n ({ b n with ran := (b n).ran + 1, owing := true }.finish .Completed)
  -- `OnTaskDiscarded`
  | .discard _ n => Function.update b n ({ b n with owing := true }.finish .Cancelled)
  -- the worker decrements the `WaitGroup` of the task it discards
  | .workerDiscard n => Function.update b n { b n with released := (b n).released + 1 }
  | .signal _ n =>
    if s.signalled n = false ∧ s.armed n = true then Function.update b n ((b n).finish .Completed) else b
  | .exec t =>
    match s.stack t with
    | .decide n outcome :: _ =>
      if s.cancelled ∨ outcome = .Cancelled then
        Function.update b n
          ((if w.graph.kind n = .task then (b n).dispose else b n).finish .Cancelled)
      else
        match w.graph.kind n with
        | .gate => Function.update b n ((b n).finish .Completed)
        | .external => b
        | .task => Function.update b n { b n with pushed := (b n).pushed + 1 }
    | .arm n :: _ => if s.signalled n then Function.update b n ((b n).finish .Completed) else b
    | .walk n _ (d :: _) _ :: _ => Function.update b n { b n with seen := (b n).seen ++ [d] }
    | _ => b
  | _ => b

/-- A graph and its book. -/
structure Tracked (ν θ κ : Type) where
  dag : State ν θ κ
  book : Book ν := fun _ => {}

inductive Act (ν θ : Type) where
  | step (a : Label ν θ)
  | release (n : ν)

inductive Turn [DecidableEq ν] [DecidableEq θ] [DecidableEq κ] (w : Setup ν θ κ) :
    Tracked ν θ κ → Act ν θ → Tracked ν θ κ → Prop where
  | step {x : Tracked ν θ κ} {a u} :
    Step w x.dag a u →
    Turn w x (.step a) { dag := u, book := note w x.dag x.book a }
  | release {x : Tracked ν θ κ} {n} :
    (x.book n).owing = true →
    (∀ t, ∀ f ∈ x.dag.stack t, f.finishing ≠ some n) →
    Turn w x (.release n)
      { x with
        book := Function.update x.book n
          { x.book n with owing := false, released := (x.book n).released + 1 } }

/-! ## Locations -/

/-- How far a node has come. -/
inductive Loc (ν : Type) where
  | idle
  -- `Fire` after the exchange, and when it arms the node
  | firing
  | arming
  | waiting
  | task
  -- its task was discarded by a worker
  | lost
  -- `OnTaskFinished`, and the edges that are still to be read
  | ending (outcome : Outcome) (rest : List ν)
  | ended

def Frame.loc (g : Graph ν) : Frame ν → Option (ν × Loc ν)
  | .fire _ _ => none
  | .decide n _ => some (n, .firing)
  | .arm n => some (n, .arming)
  | .enter n outcome => some (n, .ending outcome (g.dependents n))
  | .announce n outcome _ => some (n, .ending outcome (g.dependents n))
  | .walk n outcome rest _ => some (n, .ending outcome rest)
  | .retire _ => none

inductive At (g : Graph ν) (s : State ν θ κ) (n : ν) : Loc ν → Prop where
  | idle :
    s.submitted n = false →
    At g s n .idle
  | frame {t : θ} {f : Frame ν} {l : Loc ν} :
    f ∈ s.stack t →
    f.loc g = some (n, l) →
    At g s n l
  | waiting :
    s.armed n = true →
    s.signalled n = false →
    At g s n .waiting
  | task :
    s.dispatched n = true →
    At g s n .task
  | lost :
    s.discarded n = true →
    At g s n .lost
  | ended :
    s.walked n = true →
    At g s n .ended

/-- An activation that places a node is to bring it to its end. -/
lemma Frame.owns_of_loc {l : Loc ν} (h : f.loc g = some (n, l)) : f.owns = some n := by
  cases f <;> cases h <;> rfl

/-- An activation that is to bring a node to its end places it. -/
lemma Frame.loc_of_owns (g : Graph ν) (h : f.owns = some n) : ∃ l, f.loc g = some (n, l) := by
  cases f <;> cases h <;> exact ⟨_, rfl⟩

/-- The activation of a stack that owns a node. -/
lemma owner_unique {f' : Frame ν} (nd : (fs.filterMap Frame.owns).Nodup) (hf : f ∈ fs)
    (hf' : f' ∈ fs) (h : f.owns = some n) (h' : f'.owns = some n) : f = f' := by
  induction fs with
  | nil => cases hf
  | cons f0 fs ih =>
    have mem : ∀ {f}, f ∈ fs → f.owns = some n → n ∈ fs.filterMap Frame.owns := by
      intro f hf h
      exact List.mem_filterMap.2 ⟨f, hf, h⟩
    have tail : (fs.filterMap Frame.owns).Nodup := by
      cases h0 : f0.owns with
      | none => rwa [List.filterMap_cons_none h0] at nd
      | some k =>
        rw [List.filterMap_cons_some h0] at nd
        exact (List.nodup_cons.1 nd).2
    have out : f0.owns = some n → n ∉ fs.filterMap Frame.owns := by
      intro h0
      rw [List.filterMap_cons_some h0] at nd
      exact (List.nodup_cons.1 nd).1
    rcases List.mem_cons.1 hf with rfl | below
    · rcases List.mem_cons.1 hf' with rfl | below'
      · rfl
      · exact absurd (mem below' h') (out h)
    · rcases List.mem_cons.1 hf' with rfl | below'
      · exact absurd (mem below h) (out h')
      · exact ih tail below below'

/-- A place that holds a node, and the location that this is. -/
def Spot (g : Graph ν) (s : State ν θ κ) (n : ν) (k : Loc ν) : Place ν θ → Prop
  | .stack t => ∃ f ∈ s.stack t, f.loc g = some (n, k)
  | .task m => m = n ∧ s.dispatched n = true ∧ k = .task
  | .discarded m => m = n ∧ s.discarded n = true ∧ k = .lost
  | .external m => m = n ∧ (s.armed n = true ∧ s.signalled n = false) ∧ k = .waiting

/-- What is on a spot is held there. -/
lemma Spot.held {k : Loc ν} {p : Place ν θ} (sp : Spot g s n k p) : n ∈ held s p := by
  cases p with
  | stack t =>
    obtain ⟨f, hf, h⟩ := sp
    exact List.mem_filterMap.2 ⟨f, hf, Frame.owns_of_loc h⟩
  | task m | discarded m =>
    obtain ⟨rfl, h, _⟩ := sp
    simp [TaskDAG.held, h]
  | external m =>
    obtain ⟨rfl, h, _⟩ := sp
    simp [TaskDAG.held, h]

/-- What is held is on a spot. -/
lemma spot_of_held {p : Place ν θ} (g : Graph ν) (h : n ∈ held s p) : ∃ k, Spot g s n k p := by
  cases p with
  | stack t =>
    obtain ⟨f, hf, h⟩ := List.mem_filterMap.1 h
    obtain ⟨k, hk⟩ := f.loc_of_owns g h
    exact ⟨k, f, hf, hk⟩
  | task m =>
    simp only [held] at h
    split at h
    · cases List.mem_singleton.1 h
      exact ⟨.task, rfl, ‹_›, rfl⟩
    · cases h
  | discarded m =>
    simp only [held] at h
    split at h
    · cases List.mem_singleton.1 h
      exact ⟨.lost, rfl, ‹_›, rfl⟩
    · cases h
  | external m =>
    simp only [held] at h
    split at h
    · rename_i c
      cases List.mem_singleton.1 h
      rw [Bool.and_eq_true, Bool.not_eq_true'] at c
      exact ⟨.waiting, rfl, c, rfl⟩
    · cases h

/-- A spot gives the location. -/
lemma Spot.at {k : Loc ν} {p : Place ν θ} (sp : Spot g s n k p) : At g s n k := by
  cases p with
  | stack t =>
    obtain ⟨f, hf, h⟩ := sp
    exact .frame hf h
  | task m =>
    obtain ⟨_, h, rfl⟩ := sp
    exact .task h
  | discarded m =>
    obtain ⟨_, h, rfl⟩ := sp
    exact .lost h
  | external m =>
    obtain ⟨_, h, rfl⟩ := sp
    exact .waiting h.1 h.2

/-- A location is before the submission, after the end, or a spot. -/
lemma At.spot {k : Loc ν} (h : At g s n k) :
    (k = .idle ∧ s.submitted n = false) ∨ (k = .ended ∧ s.walked n = true) ∨ ∃ p, Spot g s n k p := by
  cases h with
  | idle h => exact .inl ⟨rfl, h⟩
  | frame hf h => exact .inr (.inr ⟨.stack _, _, hf, h⟩)
  | waiting h h' => exact .inr (.inr ⟨.external n, rfl, ⟨h, h'⟩, rfl⟩)
  | task h => exact .inr (.inr ⟨.task n, rfl, h, rfl⟩)
  | lost h => exact .inr (.inr ⟨.discarded n, rfl, h, rfl⟩)
  | ended h => exact .inr (.inl ⟨rfl, h⟩)

section
variable (stk : Stock (held s) s.submitted s.walked)
include stk

/-- A node has one location. -/
lemma At.unique {k k' : Loc ν} (h : At g s n k) (h' : At g s n k') : k = k' := by
  have busy : ∀ {k p}, Spot g s n k p → s.submitted n = true ∧ s.walked n = false :=
    fun sp => stk.live sp.held
  have fired : s.walked n = true → s.submitted n = true := stk.gone
  rcases h.spot with ⟨rfl, hk⟩ | ⟨rfl, hk⟩ | ⟨p, sp⟩
  · rcases h'.spot with ⟨rfl, _⟩ | ⟨_, hk'⟩ | ⟨p', sp'⟩
    · rfl
    · rw [fired hk'] at hk
      cases hk
    · rw [(busy sp').1] at hk
      cases hk
  · rcases h'.spot with ⟨_, hk'⟩ | ⟨rfl, _⟩ | ⟨p', sp'⟩
    · rw [fired hk] at hk'
      cases hk'
    · rfl
    · rw [(busy sp').2] at hk
      cases hk
  · rcases h'.spot with ⟨_, hk'⟩ | ⟨_, hk'⟩ | ⟨p', sp'⟩
    · rw [(busy sp).1] at hk'
      cases hk'
    · rw [(busy sp).2] at hk'
      cases hk'
    · cases stk.custody.unique sp.held sp'.held
      cases p with
      | stack t =>
        obtain ⟨f, hf, e⟩ := sp
        obtain ⟨f', hf', e'⟩ := sp'
        cases owner_unique (stk.custody.nodup (.stack t)) hf hf' (Frame.owns_of_loc e)
          (Frame.owns_of_loc e')
        rw [e] at e'
        exact (Prod.mk.inj (Option.some.inj e')).2
      | task m => rw [sp.2.2, sp'.2.2]
      | discarded m => rw [sp.2.2, sp'.2.2]
      | external m => rw [sp.2.2, sp'.2.2]

/-- Every node has a location. -/
lemma At.total (g : Graph ν) (n : ν) : ∃ k, At g s n k := by
  cases h : s.submitted n with
  | false => exact ⟨_, .idle h⟩
  | true =>
    rcases stk.all h with h | ⟨p, h⟩
    · exact ⟨_, .ended h⟩
    · obtain ⟨k, sp⟩ := spot_of_held g h
      exact ⟨k, sp.at⟩

end

end JLib.TaskDAG
