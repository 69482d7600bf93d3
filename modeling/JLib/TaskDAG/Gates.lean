import JLib.TaskDAG.Complete
import Mathlib.Algebra.Order.Group.Nat

/-!
# Gates compute their expression

In a run without cancellation, and whenever no walk of dependents is in progress, a node with predecessors has
been fired if and only if its formula holds: all predecessors of an AND node have completed, one of those of an
OR node has. A root is fired when the loop of `Submit` comes to it. With cancellation an AND node still runs its
task only after all predecessors have completed, and a node that ends as cancelled has not run.
-/

namespace JLib.TaskDAG
open LTS State

variable {ν θ κ : Type} [DecidableEq ν] {w : Setup ν θ κ} {g : Graph ν}
  {s u : State ν θ κ} {a : Label ν θ} {t : θ} {n m d : ν} {b c : Book ν} {o : Outcome}
  {f : Frame ν} {fs l : List (Frame ν)} {p : Option (ν × Outcome)}

/-! ## Why a node was fired -/

/-- What a call of `Fire` with an outcome rests on. -/
structure Due (g : Graph ν) (s : State ν θ κ) (b : Book ν) (n : ν) (o : Outcome) : Prop where
  all : g.gateType n = .AND → o = .Completed → s.dependenciesLeft n ≤ 0
  off : o = .Cancelled → ∃ m, (b m).outcome = some .Cancelled
  one : g.gateType n = .OR → g.inDegree n = 0 ∨ ∃ m, n ∈ (b m).seen

structure Sound (g : Graph ν) (s : State ν θ κ) (b : Book ν) : Prop where
  clean : ∀ {n}, g.gateType n = .AND → Aimed s n .Completed ∨ Sent s b n → s.dependenciesLeft n ≤ 0
  off : ∀ {n}, Aimed s n .Cancelled → ∃ m, (b m).outcome = some .Cancelled
  all : ∀ {n}, g.gateType n = .AND → Fired s n →
    s.dependenciesLeft n ≤ 0 ∨ ∃ m, (b m).outcome = some .Cancelled
  one : ∀ {n}, g.gateType n = .OR → Fired s n → g.inDegree n = 0 ∨ ∃ m, n ∈ (b m).seen

/-- Nothing was fired yet. -/
lemma Sound.init (w : Setup ν θ κ) : Sound w.graph (init w) fun _ => {} := by
  have none : ∀ {n o}, ¬Aimed (TaskDAG.init w) n o := by
    rintro n o ⟨t, f, ⟨⟩, _⟩
  have idle : ∀ {n}, ¬Fired (TaskDAG.init w) n := by
    rintro n (h | ⟨t, o, h⟩) <;> cases h
  refine ⟨fun _ h => ?_, fun h => absurd h none, fun _ h => absurd h idle, fun _ h => absurd h idle⟩
  rcases h with h | h | h
  · exact absurd h none
  · cases h
  · exact absurd rfl h

/-- Counters do not rise, outcomes and edges read stay, and a new call of `Fire` is due. -/
lemma Sound.fires (sd : Sound g s b) (fr : Fires s u b c p)
    (left : ∀ n, u.dependenciesLeft n ≤ s.dependenciesLeft n)
    (outcome : ∀ m, (b m).outcome = some .Cancelled → (c m).outcome = some .Cancelled)
    (seen : ∀ m n, n ∈ (b m).seen → n ∈ (c m).seen) (due : ∀ n o, p = some (n, o) → Due g u c n o) :
    Sound g u c := by
  have off : (∃ m, (b m).outcome = some .Cancelled) → ∃ m, (c m).outcome = some .Cancelled := by
    rintro ⟨m, h⟩
    exact ⟨m, outcome m h⟩
  have clean : ∀ {n}, g.gateType n = .AND → Aimed s n .Completed ∨ Sent s b n →
      u.dependenciesLeft n ≤ 0 := by
    intro n and h
    exact (left n).trans (sd.clean and h)
  refine ⟨fun {n} and h => ?_, fun {n} h => ?_, fun {n} and h => ?_, fun {n} or h => ?_⟩
  · rcases h with h | h
    · rcases fr.aimed n _ h with h | h
      · exact (due n _ h).all and rfl
      · exact clean and (.inl h)
    · rcases fr.sent n h with h | h
      · exact clean and (.inr h)
      · exact clean and (.inl h)
  · rcases fr.aimed n _ h with h | h
    · exact (due n _ h).off rfl
    · exact off (sd.off h)
  · rcases (fr.fired n).1 h with ⟨o, h⟩ | h
    · cases o with
      | Completed => exact .inl ((due n _ h).all and rfl)
      | Cancelled => exact .inr ((due n _ h).off rfl)
    · exact (sd.all and h).imp (left n).trans off
  · rcases (fr.fired n).1 h with ⟨o, h⟩ | h
    · exact (due n o h).one or
    · refine (sd.one or h).imp id ?_
      rintro ⟨m, h⟩
      exact ⟨m, seen m n h⟩

/-- Whatever a step does to the counters, what fires rests on its predecessors. -/
lemma Sound.wave (sd : Sound w.graph s b) (wd : Wired w.graph s b) (wv : Wave w s u b c) :
    Sound w.graph u c := by
  cases wv with
  | quiet fr left roots kp =>
    refine sd.fires fr (fun n => by rw [left]) (fun m h => ?_) (fun m n h => ?_) fun n o => by rintro ⟨⟩
    · rcases (kp m).2 with same | ⟨none, _⟩
      · rwa [same]
      · rw [none] at h
        cases h
    · rwa [(kp m).1]
  | submit r fr left roots book =>
    have root : w.graph.inDegree r = 0 := by
      apply (wd.roots _).2
      rw [roots]
      exact List.mem_cons_self
    subst book
    refine sd.fires fr (fun n => by rw [left]) (fun _ h => h) (fun _ _ h => h) ?_
    rintro n o ⟨⟩
    refine ⟨fun and _ => ?_, fun h => ?_, fun _ => .inl root⟩
    · rw [left, wd.count and, root]
      omega
    · cases h
  | visit m d o submitted outcome edge now fr left roots book =>
    subst book
    refine sd.fires fr (fun n => by rw [left]) (fun k h => ?_) (fun k n h => ?_) ?_
    · rwa [outcome_visit]
    · exact mem_seen_visit h
    · rintro n o' ⟨⟩
      refine ⟨fun and done => ?_, fun off => ⟨m, ?_⟩, fun _ => .inr ⟨m, ?_⟩⟩
      · rcases now with off | or
        · rw [done] at off
          cases off
        · rw [and] at or
          cases or
      · rw [outcome_visit, outcome, off]
      · rw [Function.update_self]
        exact List.mem_append_right _ (List.mem_singleton.2 rfl)
  | count m d submitted outcome edge gate fr left roots book =>
    subst book
    refine sd.fires fr (fun n => ?_) (fun k h => ?_) (fun k n h => ?_) fun n o h => ?_
    · rw [left, Function.update_apply]
      split
      · rename_i eq
        rw [eq]
        omega
      · exact le_rfl
    · rwa [outcome_visit]
    · exact mem_seen_visit h
    · split at h
      · rename_i zero
        cases h
        refine ⟨fun _ _ => ?_, fun h => ?_, fun or => ?_⟩
        · rw [left, Function.update_self, zero]
        · cases h
        · rw [gate] at or
          cases or
      · cases h

variable [DecidableEq θ]

section
variable [DecidableEq κ]

variable {x : Tracked ν θ κ} {ok : Tracked ν θ κ → Act ν θ → Prop}

/-- In every state what was fired rests on its predecessors. -/
lemma Sound.of_runs (bt : w.graph.Built) (rn : Runs (Turn w) ok (start w) x) :
    Sound w.graph x.dag x.book := by
  induction rn with
  | refl => exact .init w
  | @tail y _ _ rn hok tn ih =>
    cases tn with
    | step st => exact ih.wave (.of_runs bt rn) (st.wave (stock_of_turns rn) (.of_runs rn))
    | @release n _ _ =>
      have same : ∀ m, (Function.update y.book n
          { y.book n with owing := false, released := (y.book n).released + 1 } m).outcome =
            (y.book m).outcome ∧ (Function.update y.book n
          { y.book n with owing := false, released := (y.book n).released + 1 } m).seen =
            (y.book m).seen := by
        intro m
        rw [Function.update_apply]
        split
        · rename_i eq
          rw [eq]
          exact ⟨rfl, rfl⟩
        · exact ⟨rfl, rfl⟩
      refine ih.fires (.same rfl rfl fun _ h => sent_of_update h rfl rfl) (fun _ => le_rfl) (fun m h => ?_)
        (fun m k h => ?_) fun n o => by rintro ⟨⟩
      · rwa [(same m).1]
      · rwa [(same m).2]

/-- An AND node whose counter has come down to zero has all its predecessors completed. -/
lemma Wired.completed (wd : Wired w.graph x.dag x.book) (rn : Runs (Turn w) ok (start w) x)
    (and : w.graph.gateType n = .AND) (zero : x.dag.dependenciesLeft n ≤ 0) (mem : m ∈ w.graph.nodes)
    (edge : n ∈ w.graph.dependents m) : (x.book m).outcome = some .Completed := by
  by_contra off
  -- the edges from `m` are missing from what has arrived
  have lt : arrived w.graph x.book n < w.graph.inDegree n := by
    refine List.sum_lt_sum _ _ (fun k _ => given_le rn k n) ⟨m, mem, ?_⟩
    rw [Entry.given, if_neg off]
    exact List.count_pos_iff.2 edge
  have eq := wd.count and
  omega

end

/-! ## Runs without cancellation -/

/-- The condition on the steps: neither `Cancel` nor `OnTaskDiscarded`. -/
def Plain (_ : Tracked ν θ κ) : Act ν θ → Prop
  | .step .cancel => False
  | .step (.discard _ _) => False
  | _ => True

/-- Reading an edge cancels nothing. -/
lemma visit_cancelled {below : List (Frame ν)} : (s.visit w t o d below).cancelled = s.cancelled := by
  unfold State.visit
  cases o with
  | Cancelled => rfl
  | Completed =>
    simp only
    split <;> rfl

/-- Dispatching a node cancels nothing. -/
lemma dispatch_cancelled : (s.dispatch w t n o fs).cancelled = s.cancelled := by
  unfold State.dispatch
  split
  · rfl
  · split <;> rfl

/-- A step of a thread cancels nothing. -/
lemma exec_cancelled [DecidableEq κ] (w : Setup ν θ κ) (s : State ν θ κ) (t : θ) :
    (s.exec w t).cancelled = s.cancelled := by
  unfold State.exec
  split
  · rfl
  · split <;> rfl
  · exact dispatch_cancelled
  · rfl
  · rfl
  · rfl
  · exact visit_cancelled
  · rfl
  · rfl

/-- Only `Cancel` cancels. -/
lemma Step.cancelled [DecidableEq κ] (st : Step w s a u) (not : a ≠ .cancel) : u.cancelled = s.cancelled := by
  cases st with
  | cancel => exact absurd rfl not
  | exec => exact exec_cancelled w s _
  | signal _ =>
    unfold State.signal
    split
    · rfl
    · simp only
      split <;> rfl
  | look =>
    unfold State.look
    split <;> rfl
  | _ => rfl

omit [DecidableEq θ] in
/-- An outcome that is noted as cancelled was so before, or the step discards the task, or `Fire` finds the
graph or the node cancelled. -/
lemma note_cancelled (h : (note w s b a m).outcome = some .Cancelled) :
    (b m).outcome = some .Cancelled ∨ (∃ t n, a = .discard t n) ∨ s.cancelled = true ∨
      Aimed s m .Cancelled := by
  have other : ∀ {n : ν} {e : Entry ν}, (Function.update b n e m).outcome = some .Cancelled →
      e.outcome ≠ some .Cancelled → (b m).outcome = some .Cancelled := by
    intro n e h ne
    rw [Function.update_apply] at h
    split at h
    · exact absurd h ne
    · exact h
  have done : ∀ {n : ν} {e : Entry ν},
      (Function.update b n (e.finish .Completed) m).outcome = some .Cancelled →
      (b m).outcome = some .Cancelled := fun h => other h (by rintro ⟨⟩)
  cases a with
  | run t n => exact .inl (done h)
  | discard t n => exact .inr (.inl ⟨t, n, rfl⟩)
  | signal t n =>
    simp only [note] at h
    split at h
    · exact .inl (done h)
    · exact .inl h
  | exec t =>
    cases hs : s.stack t with
    | nil =>
      simp only [note, hs] at h
      exact .inl h
    | cons f fs =>
      cases f with
      | decide n o =>
        simp only [note, hs] at h
        split at h
        · rename_i off
          rcases off with off | rfl
          · exact .inr (.inr (.inl off))
          · rw [Function.update_apply] at h
            split at h
            · rename_i eq
              refine .inr (.inr (.inr ⟨t, .decide n .Cancelled, ?_, by rw [eq]; rfl⟩))
              rw [hs]
              exact List.mem_cons_self
            · exact .inl h
        · cases kind : w.graph.kind n with
          | gate =>
            simp only [kind] at h
            exact .inl (done h)
          | external =>
            simp only [kind] at h
            exact .inl h
          | task =>
            simp only [kind, Function.update_apply] at h
            split at h
            · rename_i eq
              rw [eq]
              exact .inl h
            · exact .inl h
      | arm n =>
        simp only [note, hs] at h
        split at h
        · exact .inl (done h)
        · exact .inl h
      | walk n o rest began =>
        cases rest with
        | nil =>
          simp only [note, hs] at h
          exact .inl h
        | cons d rest =>
          simp only [note, hs] at h
          rw [outcome_visit] at h
          exact .inl h
      | _ =>
        simp only [note, hs] at h
        exact .inl h
  | workerDiscard n =>
    simp only [note, Function.update_apply] at h
    split at h
    · rename_i eq
      rw [eq]
      exact .inl h
    · exact .inl h
  | _ => exact .inl h

section
variable {x : Tracked ν θ κ}

/-- Nothing is cancelled. -/
lemma Plain.of_runs [DecidableEq κ] (bt : w.graph.Built) (rn : Runs (Turn w) Plain (start w) x) :
    x.dag.cancelled = false ∧ ∀ m, (x.book m).outcome ≠ some .Cancelled := by
  induction rn with
  | refl => exact ⟨rfl, fun m => by rintro ⟨⟩⟩
  | @tail y c z rn hok tn ih =>
    cases tn with
    | @step a u st =>
      refine ⟨?_, fun m h => ?_⟩
      · rw [st.cancelled, ih.1]
        rintro rfl
        exact hok
      · rcases note_cancelled h with h | ⟨t, n, rfl⟩ | h | h
        · exact ih.2 m h
        · exact hok
        · rw [ih.1] at h
          cases h
        · obtain ⟨k, h⟩ := (Sound.of_runs bt rn).off h
          exact ih.2 k h
    | release _ _ =>
      refine ⟨ih.1, fun m h => ?_⟩
      simp only [Function.update_apply] at h
      split at h
      · exact ih.2 _ h
      · exact ih.2 m h

end

/-! ## Calls of `Fire` -/

/-- The activation is `OnTaskFinished` before the end of its walk. -/
def Frame.walking : Frame ν → Bool
  | .enter _ _ => true
  | .announce _ _ _ => true
  | .walk _ _ _ _ => true
  | _ => false

/-- `Fire` is called by `Submit` for a root, or by the walk right below on the stack. -/
def Nested (g : Graph ν) : List (Frame ν) → Prop
  | [] => True
  | f :: fs => (∀ n o, f.aims = some (n, o) →
      g.inDegree n = 0 ∨ ∃ h, fs.head? = some h ∧ h.walking = true) ∧ Nested g fs

/-- Under a call of `Fire` is a walk, unless the node is a root. -/
lemma Nested.of_mem (nd : Nested g fs) (hf : f ∈ fs) (aim : f.aims = some (n, o)) :
    g.inDegree n = 0 ∨ ∃ h ∈ fs, h.walking = true := by
  induction fs with
  | nil => cases hf
  | cons f' fs ih =>
    rcases List.mem_cons.1 hf with rfl | hf
    · refine (nd.1 n o aim).imp id ?_
      rintro ⟨h, head, walking⟩
      exact ⟨h, List.mem_cons_of_mem _ (List.mem_of_mem_head? head), walking⟩
    · refine (ih nd.2 hf).imp id ?_
      rintro ⟨h, hh, walking⟩
      exact ⟨h, List.mem_cons_of_mem _ hh, walking⟩

/-- An activation that is no call of `Fire`. -/
lemma Nested.push (nd : Nested g fs) (none : f.aims = none) : Nested g (f :: fs) := by
  refine ⟨fun n o aim => ?_, nd⟩
  rw [none] at aim
  cases aim

/-- The stack of one thread is exchanged. -/
lemma Nested.set (nd : ∀ t, Nested g (s.stack t)) (stack : u.stack = Function.update s.stack t fs)
    (new : Nested g fs) : ∀ t, Nested g (u.stack t) := by
  intro t'
  rw [stack, Function.update_apply]
  split
  · exact new
  · exact nd t'

/-- A walk that reads an edge may call `Fire`. -/
lemma Nested.visit {rest : List ν} {began : Nat} (nd : ∀ t, Nested g (s.stack t))
    (hs : s.stack t = .walk m o (d :: rest) began :: fs) :
    ∀ t', Nested g ((s.visit w t o d (.walk m o rest began :: fs)).stack t') := by
  have below : Nested g fs := by
    have := nd t
    rw [hs] at this
    exact this.2
  have stays : Nested g (.walk m o rest began :: fs) := below.push rfl
  have fires : ∀ o', Nested g (.fire d o' :: .walk m o rest began :: fs) :=
    fun o' => ⟨fun _ _ _ => .inr ⟨_, rfl, rfl⟩, stays⟩
  unfold State.visit
  cases o with
  | Cancelled => exact Nested.set nd rfl (fires .Cancelled)
  | Completed =>
    simp only
    split
    · exact Nested.set nd rfl (fires .Completed)
    · split
      · exact Nested.set nd rfl (fires .Completed)
      · exact Nested.set nd rfl stays

/-- What is below a dispatched node stays nested. -/
lemma Nested.dispatch (nd : ∀ t, Nested g (s.stack t)) (below : Nested g fs) :
    ∀ t', Nested g ((s.dispatch w t n o fs).stack t') := by
  unfold State.dispatch
  split
  · exact Nested.set nd rfl (below.push rfl)
  · split
    · exact Nested.set nd rfl (below.push rfl)
    · exact Nested.set nd rfl (below.push rfl)
    · exact Nested.set nd rfl below

variable [DecidableEq κ]

/-- One step of a thread keeps its stack nested. -/
lemma Nested.exec (nd : ∀ t, Nested g (s.stack t)) (t : θ) :
    ∀ t', Nested g ((s.exec w t).stack t') := by
  unfold State.exec
  cases hs : s.stack t with
  | nil => exact nd
  | cons f fs =>
    have here := nd t
    rw [hs] at here
    obtain ⟨top, below⟩ := here
    cases f with
    | fire n o =>
      simp only
      split
      · exact Nested.set nd rfl below
      · exact Nested.set nd rfl ⟨top, below⟩
    | decide n o => exact Nested.dispatch nd below
    | arm n =>
      simp only
      split
      · exact Nested.set nd rfl (below.push rfl)
      · exact Nested.set nd rfl below
    | enter n o => exact Nested.set nd rfl (below.push rfl)
    | announce n o e => exact Nested.set nd rfl (below.push rfl)
    | walk n o rest began =>
      cases rest with
      | nil => exact Nested.set nd rfl (below.push rfl)
      | cons d rest => exact Nested.visit nd hs
    | retire n => exact Nested.set nd rfl below

/-- Any step keeps the stacks nested. -/
lemma Nested.step (nd : ∀ t, Nested w.graph (s.stack t))
    (roots : ∀ {r}, r ∈ s.roots → w.graph.inDegree r = 0) (st : Step w s a u) :
    ∀ t, Nested w.graph (u.stack t) := by
  cases st with
  | @submit t r rs hr =>
    have root : w.graph.inDegree r = 0 := by
      apply roots
      rw [hr]
      exact List.mem_cons_self
    refine Nested.set (t := t) nd rfl ⟨?_, nd t⟩
    rintro n o ⟨⟩
    exact .inl root
  | @run t n _ => exact Nested.set (t := t) nd rfl ((nd t).push rfl)
  | @discard t n _ => exact Nested.set (t := t) nd rfl ((nd t).push rfl)
  | @signal t n _ =>
    unfold State.signal
    split
    · exact nd
    · simp only
      split
      · exact Nested.set (t := t) nd rfl ((nd t).push rfl)
      · exact nd
  | exec => exact Nested.exec nd _
  | look =>
    unfold State.look
    split <;> exact nd
  | _ => exact nd

section
variable {x : Tracked ν θ κ} {ok : Tracked ν θ κ → Act ν θ → Prop}

/-- The stacks are nested in every state of a run. -/
lemma Nested.of_runs (bt : w.graph.Built) (rn : Runs (Turn w) ok (start w) x) :
    ∀ t, Nested w.graph (x.dag.stack t) := by
  induction rn with
  | refl => exact fun _ => trivial
  | tail rn _ tn ih =>
    cases tn with
    | step st => exact Nested.step ih (fun h => ((Wired.of_runs bt rn).roots h).2) st
    | release _ _ => exact ih

/-- No walk of dependents is in progress. -/
def Calm (s : State ν θ κ) : Prop := ∀ t, ∀ f ∈ s.stack t, f.walking = false

/-- `Submit` has still to fire the node. -/
def Queued (s : State ν θ κ) (n : ν) : Prop := n ∈ s.roots ∨ ∃ t o, .fire n o ∈ s.stack t

/-- The formula of a node. -/
def Ready (g : Graph ν) (b : Book ν) (n : ν) : Prop :=
  g.inDegree n = 0 ∨
    match g.gateType n with
    | .AND => ∀ m ∈ g.nodes, n ∈ g.dependents m → (b m).outcome = some .Completed
    | .OR => ∃ m ∈ g.nodes, n ∈ g.dependents m ∧ (b m).outcome = some .Completed

omit [DecidableEq θ] [DecidableEq κ] in
/-- A node that was fired and has predecessors is on no stack as a call of `Fire`. -/
lemma Calm.submitted (cm : Calm x.dag) (nd : ∀ t, Nested w.graph (x.dag.stack t))
    (inner : w.graph.inDegree n ≠ 0) (fired : Fired x.dag n) : x.dag.submitted n = true := by
  rcases fired with h | ⟨t, o, h⟩
  · exact h
  · rcases (nd t).of_mem h rfl with root | ⟨f, hf, walking⟩
    · exact absurd root inner
    · rw [cm t f hf] at walking
      cases walking

/-- A node with an outcome has ended its walk when none is in progress. -/
lemma Calm.ended (cm : Calm x.dag) (rn : Runs (Turn w) ok (start w) x)
    (done : (x.book m).outcome ≠ none) : (x.book m).seen = w.graph.dependents m := by
  obtain ⟨k, h⟩ := At.total (stock_of_turns rn) w.graph m
  have right := Books.of_runs rn m k h
  cases h with
  | idle _ => exact absurd (by rw [show x.book m = {} from right]) done
  | @frame t f k hf loc =>
    have quiet := cm t f hf
    cases f with
    | decide n o =>
      cases loc
      exact absurd (by rw [show x.book m = {} from right]) done
    | arm n =>
      cases loc
      exact absurd (by rw [right.1]) done
    | fire n o => cases loc
    | retire n => cases loc
    | enter n o => cases quiet
    | announce n o e => cases quiet
    | walk n o rest began => cases quiet
  | waiting _ _ => exact absurd (by rw [right.1]) done
  | task _ => exact absurd (by rw [right.1]) done
  | lost _ => exact absurd (by rw [right.1]) done
  | ended _ => exact right.2

/-- A node that has read an edge has an outcome. -/
lemma outcome_of_seen (rn : Runs (Turn w) ok (start w) x) (h : n ∈ (x.book m).seen) :
    ∃ o, (x.book m).outcome = some o := by
  have none : ∀ {e : Entry ν}, x.book m = e → e.seen = [] → False := by
    intro e eq blank
    rw [eq, blank] at h
    cases h
  obtain ⟨k, at'⟩ := At.total (stock_of_turns rn) w.graph m
  have right := Books.of_runs rn m k at'
  cases k with
  | idle => exact (none right rfl).elim
  | firing => exact (none right rfl).elim
  | arming => exact (none right.1 rfl).elim
  | waiting => exact (none right.1 rfl).elim
  | task => exact (none right.1 rfl).elim
  | lost => exact (none right.1 rfl).elim
  | ending o rest => exact ⟨o, right.1.result⟩
  | ended =>
    obtain ⟨⟨o, fin⟩, _⟩ := right
    exact ⟨o, fin.result⟩

/-- A node with an outcome was fired. -/
lemma submitted_of_outcome (rn : Runs (Turn w) ok (start w) x) (done : (x.book m).outcome ≠ none) :
    x.dag.submitted m = true := by
  cases h : x.dag.submitted m with
  | true => rfl
  | false =>
    have fresh : x.book m = {} := Books.of_runs rn m .idle (.idle h)
    rw [fresh] at done
    exact absurd rfl done

/-- A node that was fired is ready. -/
lemma ready_of_submitted (bt : w.graph.Built) (rn : Runs (Turn w) Plain (start w) x)
    (fired : x.dag.submitted n = true) : Ready w.graph x.book n := by
  have wd := Wired.of_runs bt rn
  have off := (Plain.of_runs bt rn).2
  unfold Ready
  cases gate : w.graph.gateType n with
  | AND =>
    right
    intro m mem edge
    rcases (Sound.of_runs bt rn).all gate (.inl fired) with zero | ⟨k, h⟩
    · exact wd.completed rn gate zero mem edge
    · exact absurd h (off k)
  | OR =>
    refine ((Sound.of_runs bt rn).one gate (.inl fired)).imp id ?_
    rintro ⟨m, h⟩
    obtain ⟨o, done⟩ := outcome_of_seen rn h
    have mem : m ∈ w.graph.nodes := by
      apply wd.inside
      exact .inl (submitted_of_outcome rn (by rw [done]; rintro ⟨⟩))
    refine ⟨m, mem, (Books.seen rn m).subset h, ?_⟩
    cases o with
    | Completed => exact done
    | Cancelled => exact absurd done (off m)

/-- When no walk is in progress, a node whose formula holds was fired, or is a root still to be fired. -/
lemma Calm.fired (cm : Calm x.dag) (bt : w.graph.Built) (rn : Runs (Turn w) ok (start w) x)
    (mem : n ∈ w.graph.nodes) (ready : Ready w.graph x.book n) :
    x.dag.submitted n = true ∨ w.graph.inDegree n = 0 ∧ Queued x.dag n := by
  have wd := Wired.of_runs bt rn
  by_cases root : w.graph.inDegree n = 0
  · rcases wd.root mem root with h | h | h
    · exact .inr ⟨root, .inl h⟩
    · exact .inl h
    · exact .inr ⟨root, .inr h⟩
  · left
    apply cm.submitted (Nested.of_runs bt rn) root
    have ended : ∀ {m}, (x.book m).outcome = some .Completed →
        (x.book m).seen = w.graph.dependents m := by
      intro m done
      exact cm.ended rn (by rw [done]; rintro ⟨⟩)
    have formula := ready.resolve_left root
    cases gate : w.graph.gateType n with
    | AND =>
      simp only [gate] at formula
      have eq := wd.count gate
      have all := arrived_all rn fun m hm edge => ⟨formula m hm edge, ended (formula m hm edge)⟩
      rw [all, sub_self] at eq
      exact (wd.zero gate eq).resolve_left root
    | OR =>
      simp only [gate] at formula
      obtain ⟨m, hm, edge, done⟩ := formula
      exact wd.either gate (ended done ▸ edge)

/-- A gate finishes in the step in which `Fire` dispatches it, and in no other. -/
lemma gate_finished (rn : Runs (Turn w) ok (start w) x) (gate : w.graph.kind n = .gate) :
    (x.book n).finished = 1 ↔
      x.dag.submitted n = true ∧ ∀ t o, .decide n o ∉ x.dag.stack t := by
  have bk := Books.of_runs rn
  have not : ∀ {k : Kind}, w.graph.kind n = k → k ≠ .gate → False := by
    intro k eq ne
    exact ne (eq.symm.trans gate)
  obtain ⟨k, h⟩ := At.total (stock_of_turns rn) w.graph n
  have right := bk n k h
  constructor
  · intro done
    refine ⟨?_, fun t o hf => ?_⟩
    · cases fired : x.dag.submitted n with
      | true => rfl
      | false =>
        have fresh : x.book n = {} := bk n .idle (.idle fired)
        rw [fresh] at done
        cases done
    · have fresh : x.book n = {} := bk n .firing (.frame hf rfl)
      rw [fresh] at done
      cases done
  · rintro ⟨fired, none⟩
    cases h with
    | idle h =>
      rw [fired] at h
      cases h
    | @frame t f k hf loc =>
      cases f with
      | decide m o =>
        cases loc
        exact absurd hf (none t o)
      | arm m =>
        cases loc
        exact (not right.2 (by rintro ⟨⟩)).elim
      | fire m o => cases loc
      | retire m => cases loc
      | enter m o =>
        cases loc
        exact right.1.once
      | announce m o e =>
        cases loc
        exact right.1.once
      | walk m o rest began =>
        cases loc
        exact right.1.once
    | waiting _ _ => exact (not right.2 (by rintro ⟨⟩)).elim
    | task _ => exact (not right.2 (by rintro ⟨⟩)).elim
    | lost _ => exact (not right.2 (by rintro ⟨⟩)).elim
    | ended _ =>
      obtain ⟨⟨o, fin⟩, _⟩ := right
      exact fin.once

/-- A node that ends as cancelled has not run. -/
lemma not_ran_of_cancelled (rn : Runs (Turn w) ok (start w) x)
    (off : (x.book n).outcome = some .Cancelled) : (x.book n).ran = 0 := by
  have late : ∀ {o}, Finished w.graph n o (x.book n) → (x.book n).ran = 0 := by
    intro o fin
    apply fin.ran
    rw [fin.result] at off
    exact Option.some.inj off
  have early : ∀ {e : Entry ν}, x.book n = e → e.outcome = none → (x.book n).ran = 0 := by
    intro e eq none
    rw [eq, none] at off
    cases off
  obtain ⟨k, h⟩ := At.total (stock_of_turns rn) w.graph n
  have right := Books.of_runs rn n k h
  cases k with
  | idle => exact early right rfl
  | firing => exact early right rfl
  | arming => exact early right.1 rfl
  | waiting => exact early right.1 rfl
  | task => exact early right.1 rfl
  | lost => exact early right.1 rfl
  | ending o rest => exact late right.1
  | ended =>
    obtain ⟨⟨o, fin⟩, _⟩ := right
    exact late fin

end

/-- Without cancellation and with no walk in progress, a node that was fired is ready, and one that is ready
was fired, unless it is a root that `Submit` has still to fire. In every run a gate finishes when `Fire`
dispatches it, an AND node runs its task only if all predecessors have completed, and a node that ends as
cancelled does not run. -/
theorem gates_compute_formula (bt : w.graph.Built) :
    (∀ x, Runs (Turn w) Plain (start w) x → Calm x.dag → ∀ n ∈ w.graph.nodes,
      (x.dag.submitted n = true → Ready w.graph x.book n) ∧
        (Ready w.graph x.book n →
          x.dag.submitted n = true ∨ w.graph.inDegree n = 0 ∧ Queued x.dag n)) ∧
    ∀ x, Reaches (Turn w) (start w) x →
      (∀ n, w.graph.kind n = .gate → ((x.book n).finished = 1 ↔
        x.dag.submitted n = true ∧ ∀ t o, .decide n o ∉ x.dag.stack t)) ∧
      (∀ n, w.graph.gateType n = .AND → (x.book n).ran ≠ 0 → ∀ m ∈ w.graph.nodes,
        n ∈ w.graph.dependents m → (x.book m).outcome = some .Completed) ∧
      ∀ n, (x.book n).outcome = some .Cancelled → (x.book n).ran = 0 := by
  refine ⟨fun x rn cm n mem => ⟨ready_of_submitted bt rn, cm.fired bt rn mem⟩, fun x rn => ⟨?_, ?_, ?_⟩⟩
  · exact fun n gate => gate_finished rn gate
  · intro n and ran m mem edge
    have zero := (Sound.of_runs bt rn).clean and (.inr (.inr ran))
    exact (Wired.of_runs bt rn).completed rn and zero mem edge
  · exact fun n off => not_ran_of_cancelled rn off

/-- The example is a graph as the builder leaves it. -/
lemma either_built : either.graph.Built := by
  refine ⟨by decide, fun m _ n edge => ?_⟩
  change n ∈ if m < 2 then [2] else [] at edge
  split at edge
  · rw [List.mem_singleton.1 edge]
    decide
  · cases edge

/-- The first of two tasks completes, and the OR node on both has been fired. -/
theorem gates_compute_formula_either :
    ∃ x, Runs (Turn either) Plain (start either) x ∧ Calm x.dag ∧ x.dag.submitted 2 = true ∧
      Ready either.graph x.book 2 := by
  have r : Runs (Turn either) Plain (start either) _ := .refl
  have r1 := r.next (.step (.submit ())) trivial (.step (.submit rfl))
  have r2 := r1.next (.step (.exec ())) trivial (.step .exec)
  have r3 := r2.next (.step (.exec ())) trivial (.step .exec)
  have r4 := r3.next (.step (.run () 0)) trivial (.step (.run rfl))
  have r5 := r4.next (.step (.exec ())) trivial (.step .exec)
  have r6 := r5.next (.step (.exec ())) trivial (.step .exec)
  -- the edge to the OR node, and its task
  have r7 := r6.next (.step (.exec ())) trivial (.step .exec)
  have r8 := r7.next (.step (.exec ())) trivial (.step .exec)
  have r9 := r8.next (.step (.exec ())) trivial (.step .exec)
  have r10 := r9.next (.step (.exec ())) trivial (.step .exec)
  have r11 := r10.next (.step (.exec ())) trivial (.step .exec)
  obtain ⟨x, rx, calm, fired⟩ : ∃ x, Runs (Turn either) Plain (start either) x ∧ Calm x.dag ∧
      x.dag.submitted 2 = true :=
    ⟨_, r11, fun _ _ h => absurd h List.not_mem_nil, rfl⟩
  exact ⟨x, rx, calm, fired, ((gates_compute_formula either_built).1 x rx calm 2 (by decide)).1 fired⟩

/-- `Submit` has fired the first root and not the second, and nothing else is in progress. -/
theorem root_still_to_be_fired :
    ¬∀ x, Runs (Turn either) Plain (start either) x → Calm x.dag → ∀ n ∈ either.graph.nodes,
      (x.dag.submitted n = true ↔ Ready either.graph x.book n) := by
  intro claim
  have r : Runs (Turn either) Plain (start either) _ := .refl
  have r1 := r.next (.step (.submit ())) trivial (.step (.submit rfl))
  have r2 := r1.next (.step (.exec ())) trivial (.step .exec)
  have r3 := r2.next (.step (.exec ())) trivial (.step .exec)
  have fired := (claim _ r3 (fun _ _ h => absurd h List.not_mem_nil) 1 (by decide)).2 (.inl rfl)
  cases fired

end JLib.TaskDAG
