import JLib.TaskDAG.Once

/-!
# The countdown and the firing of nodes

`Fire` is called for a root by `Submit`, for a dependent of a cancelled node, for an OR node by every
predecessor and for an AND node by the one that brings its counter to zero. `Wave` says for each step which
edge it reads and on which node it calls `Fire`. The counter of an AND node is then its in-degree less the
edges that completed predecessors have read, and a node whose turn has come has been fired.
-/

namespace JLib.TaskDAG
open LTS State

variable {ν θ κ : Type} {w : Setup ν θ κ} {g : Graph ν}
  {s u : State ν θ κ} {a : Label ν θ} {t : θ} {n m : ν} {f : Frame ν} {fs l : List (Frame ν)}
  {b c : Book ν} {e : Entry ν} {o : Outcome} {p : Option (ν × Outcome)}

/-- The nodes are those that the graph created, once each, and its edges run between them. -/
structure Graph.Built (g : Graph ν) : Prop where
  nodup : g.nodes.Nodup
  edges : ∀ m ∈ g.nodes, ∀ n ∈ g.dependents m, n ∈ g.nodes

/-- `Fire` was called for the node. -/
def Fired (s : State ν θ κ) (n : ν) : Prop :=
  s.submitted n = true ∨ ∃ t o, .fire n o ∈ s.stack t

/-- What `Fire` was called with, until it has dispatched the node. -/
def Frame.aims : Frame ν → Option (ν × Outcome)
  | .fire n outcome => some (n, outcome)
  | .decide n outcome => some (n, outcome)
  | _ => none

def Aimed (s : State ν θ κ) (n : ν) (outcome : Outcome) : Prop :=
  ∃ t, ∃ f ∈ s.stack t, f.aims = some (n, outcome)

/-- The node's task was pushed, and waits or has run. -/
def Sent (s : State ν θ κ) (b : Book ν) (n : ν) : Prop := s.dispatched n = true ∨ (b n).ran ≠ 0

/-- On which node `Fire` is called in a step, and with what. -/
structure Fires (s u : State ν θ κ) (b c : Book ν) (p : Option (ν × Outcome)) : Prop where
  fired : ∀ n, Fired u n ↔ (∃ o, p = some (n, o)) ∨ Fired s n
  aimed : ∀ n o, Aimed u n o → p = some (n, o) ∨ Aimed s n o
  sent : ∀ n, Sent u c n → Sent s b n ∨ Aimed s n .Completed

/-- No outcome, and no edge read. -/
def Entry.Blank (e : Entry ν) : Prop := e.outcome = none ∧ e.seen = []

/-- The book gets no new edge, and an outcome only where nothing was written before. -/
def Keeps (b c : Book ν) : Prop :=
  ∀ m, (c m).seen = (b m).seen ∧ ((c m).outcome = (b m).outcome ∨ (b m).Blank)

/-- What a step does to the counters and the edges read. -/
inductive Wave [DecidableEq ν] (w : Setup ν θ κ) (s u : State ν θ κ) (b c : Book ν) : Prop where
  | quiet :
    Fires s u b c none →
    u.dependenciesLeft = s.dependenciesLeft →
    u.roots = s.roots →
    Keeps b c →
    Wave w s u b c
  | submit (r : ν) :
    Fires s u b c (some (r, .Completed)) →
    u.dependenciesLeft = s.dependenciesLeft →
    s.roots = r :: u.roots →
    c = b →
    Wave w s u b c
  | visit (m d : ν) (outcome : Outcome) :
    s.submitted m = true →
    (b m).outcome = some outcome →
    d ∈ w.graph.dependents m →
    outcome = .Cancelled ∨ w.graph.gateType d = .OR →
    Fires s u b c (some (d, outcome)) →
    u.dependenciesLeft = s.dependenciesLeft →
    u.roots = s.roots →
    c = Function.update b m { b m with seen := (b m).seen ++ [d] } →
    Wave w s u b c
  | count (m d : ν) :
    s.submitted m = true →
    (b m).outcome = some .Completed →
    d ∈ w.graph.dependents m →
    w.graph.gateType d = .AND →
    Fires s u b c (if s.dependenciesLeft d - 1 = 0 then some (d, .Completed) else none) →
    u.dependenciesLeft = Function.update s.dependenciesLeft d (s.dependenciesLeft d - 1) →
    u.roots = s.roots →
    c = Function.update b m { b m with seen := (b m).seen ++ [d] } →
    Wave w s u b c

/-! ## The steps -/

/-- A step that leaves the stacks, the submitted and the sent fires nothing. -/
lemma Fires.same (stack : u.stack = s.stack) (submitted : u.submitted = s.submitted)
    (sent : ∀ n, Sent u c n → Sent s b n) : Fires s u b c none := by
  refine ⟨fun n => ?_, fun n o h => ?_, fun n h => .inl (sent n h)⟩
  · rw [Fired, Fired, stack, submitted]
    constructor
    · exact .inr
    · rintro (⟨o, ⟨⟩⟩ | h)
      exact h
  · rw [Aimed, stack] at h
    exact .inr h

variable [DecidableEq θ]

/-- A thread's stack gets activations on top; those below were there, and a call of `Fire` that is gone has
set the flag. -/
lemma Fires.replace (stack : u.stack = Function.update s.stack t (l ++ fs))
    (below : ∀ f ∈ fs, f ∈ s.stack t)
    (gone : ∀ n o, .fire n o ∈ s.stack t → .fire n o ∈ fs ∨ u.submitted n = true)
    (top : ∀ f ∈ l, ∀ n o, f.aims = some (n, o) → p = some (n, o) ∨ Aimed s n o)
    (calls : ∀ n o, .fire n o ∈ l → p = some (n, o)) (here : ∀ n o, p = some (n, o) → .fire n o ∈ l)
    (mono : ∀ n, s.submitted n = true → u.submitted n = true)
    (fired : ∀ n, u.submitted n = true → Fired s n)
    (sent : ∀ n, Sent u c n → Sent s b n ∨ Aimed s n .Completed) : Fires s u b c p := by
  have stack_t : u.stack t = l ++ fs := by rw [stack, Function.update_self]
  have stack_ne : ∀ {t'}, t' ≠ t → u.stack t' = s.stack t' := by
    intro t' ne
    rw [stack, Function.update_of_ne ne]
  refine ⟨fun n => ⟨?_, ?_⟩, fun n o => ?_, sent⟩
  · rintro (h | ⟨t', o, h⟩)
    · exact .inr (fired n h)
    · by_cases e : t' = t
      · rw [e, stack_t] at h
        rcases List.mem_append.1 h with h | h
        · exact .inl ⟨o, calls n o h⟩
        · exact .inr (.inr ⟨t, o, below _ h⟩)
      · rw [stack_ne e] at h
        exact .inr (.inr ⟨t', o, h⟩)
  · rintro (⟨o, h⟩ | h | ⟨t', o, h⟩)
    · refine .inr ⟨t, o, ?_⟩
      rw [stack_t]
      exact List.mem_append_left fs (here n o h)
    · exact .inl (mono n h)
    · by_cases e : t' = t
      · rw [e] at h
        rcases gone n o h with h | h
        · refine .inr ⟨t, o, ?_⟩
          rw [stack_t]
          exact List.mem_append_right l h
        · exact .inl h
      · refine .inr ⟨t', o, ?_⟩
        rw [stack_ne e]
        exact h
  · rintro ⟨t', f, hf, h⟩
    by_cases e : t' = t
    · rw [e, stack_t] at hf
      rcases List.mem_append.1 hf with hf | hf
      · exact top f hf n o h
      · exact .inr ⟨t, f, below f hf, h⟩
    · rw [stack_ne e] at hf
      exact .inr ⟨t', f, hf, h⟩

/-- The activation on top is not a call of `Fire`, and neither are those that replace it. -/
lemma Fires.goes (hs : s.stack t = f :: fs) (stack : u.stack = Function.update s.stack t (l ++ fs))
    (old : ∀ n o, f ≠ .fire n o) (top : ∀ h ∈ l, h.aims = none) (submitted : u.submitted = s.submitted)
    (sent : ∀ n, Sent u c n → Sent s b n ∨ Aimed s n .Completed) : Fires s u b c none := by
  refine .replace stack (below_of_top hs) (fun n o h => ?_) (fun h hh n o e => ?_) (fun n o h => ?_)
    (fun n o => by rintro ⟨⟩) (fun n h => by rwa [submitted]) (fun n h => ?_) sent
  · rw [hs] at h
    rcases List.mem_cons.1 h with h | h
    · exact absurd h.symm (old n o)
    · exact .inl h
  · rw [top h hh] at e
    cases e
  · have := top _ h
    cases this
  · rw [submitted] at h
    exact .inl h

/-- `Fire` is called. -/
lemma Fires.calls {d : ν} (stack : u.stack = Function.update s.stack t (.fire d o :: l ++ fs))
    (below : ∀ f ∈ fs, f ∈ s.stack t) (old : ∀ n o, .fire n o ∈ s.stack t → .fire n o ∈ fs)
    (top : ∀ h ∈ l, h.aims = none) (submitted : u.submitted = s.submitted)
    (sent : ∀ n, Sent u c n → Sent s b n) : Fires s u b c (some (d, o)) := by
  have plain : ∀ {n o'}, .fire n o' ∉ l := by
    intro n o' h
    have := top _ h
    cases this
  refine .replace (l := .fire d o :: l) stack below (fun n o' h => .inl (old n o' h))
    (fun h hh n o' e => ?_) (fun n o' h => ?_) (fun n o' h => ?_) (fun n h => by rwa [submitted])
    (fun n h => ?_) fun n h => .inl (sent n h)
  · rcases List.mem_cons.1 hh with rfl | hh
    · exact .inl e
    · rw [top h hh] at e
      cases e
  · rcases List.mem_cons.1 h with h | h
    · cases h
      rfl
    · exact absurd h plain
  · cases h
    exact List.mem_cons_self
  · rw [submitted] at h
    exact .inl h

/-- The book is left. -/
lemma Keeps.refl (b : Book ν) : Keeps b b := fun _ => ⟨rfl, .inl rfl⟩

variable [DecidableEq ν]

/-- An entry may get an outcome. -/
lemma Keeps.update (seen : e.seen = (b n).seen) (outcome : e.outcome = (b n).outcome ∨ (b n).Blank) :
    Keeps b (Function.update b n e) := by
  intro m
  rw [Function.update_apply]
  split
  · rename_i eq
    rw [eq]
    exact ⟨seen, outcome⟩
  · exact ⟨rfl, .inl rfl⟩

omit [DecidableEq θ] in
/-- An entry is replaced by one with as many runs. -/
lemma sent_of_update (h : Sent u (Function.update b n e) m) (ran : e.ran = (b n).ran)
    (task : u.dispatched = s.dispatched) : Sent s b m := by
  rw [Sent, task, Function.update_apply] at h
  split at h
  · rename_i eq
    rw [ran, ← eq] at h
    exact h
  · exact h

/-- Reading an edge counts one predecessor down, and may fire. -/
lemma visit_wave {d : ν} {rest : List ν} {began : Nat} (stk : Stock (held s) s.submitted s.walked)
    (bk : Books w.graph s b) (hs : s.stack t = .walk m o (d :: rest) began :: fs) :
    Wave w s (s.visit w t o d (.walk m o rest began :: fs)) b (note w s b (.exec t)) := by
  have here : At w.graph s m (.ending o (d :: rest)) := .top hs rfl
  obtain ⟨fin, edges⟩ := bk m _ here
  have submitted : s.submitted m = true := by
    refine (stk.live (p := .stack t) ?_).1
    simp only [held, hs]
    exact List.mem_cons_self
  have edge : d ∈ w.graph.dependents m := by
    rw [← edges]
    exact List.mem_append_right _ List.mem_cons_self
  have book : note w s b (.exec t) =
      Function.update b m { b m with seen := (b m).seen ++ [d] } := by simp only [note, hs]
  have old : ∀ n o', .fire n o' ∈ s.stack t → .fire n o' ∈ fs := by
    intro n o' h
    rw [hs] at h
    exact (List.mem_cons.1 h).resolve_left (by rintro ⟨⟩)
  have top : ∀ h ∈ [Frame.walk m o rest began], h.aims = none := by
    intro h hh
    rw [List.mem_singleton.1 hh]
    rfl
  have calls : ∀ {v : State ν θ κ} {o' : Outcome},
      v.stack = Function.update s.stack t (.fire d o' :: [.walk m o rest began] ++ fs) →
      v.submitted = s.submitted → v.dispatched = s.dispatched →
      Fires s v b (note w s b (.exec t)) (some (d, o')) := by
    intro v o' stack same task
    rw [book]
    exact .calls stack (below_of_top hs) old top same fun n h => sent_of_update h rfl task
  unfold State.visit
  cases o with
  | Cancelled => exact .visit m d .Cancelled submitted fin.result edge (.inl rfl) (calls rfl rfl rfl) rfl rfl book
  | Completed =>
    simp only
    cases gate : w.graph.gateType d with
    | OR => exact .visit m d .Completed submitted fin.result edge (.inr gate) (calls rfl rfl rfl) rfl rfl book
    | AND =>
      simp only [reduceCtorEq, if_false]
      refine .count m d submitted fin.result edge gate ?_ rfl rfl book
      by_cases zero : s.dependenciesLeft d - 1 = 0
      · simp only [if_pos zero]
        exact calls rfl rfl rfl
      · simp only [if_neg zero]
        rw [book]
        exact .goes hs (l := [.walk m .Completed rest began]) rfl (fun _ _ => by rintro ⟨⟩) top rfl
          fun n h => .inl (sent_of_update h rfl rfl)

/-- The entry of a node that had no outcome is finished. -/
lemma Keeps.finish (blank : (b n).Blank) (seen : e.seen = []) : Keeps b (Function.update b n e) :=
  .update (seen.trans blank.2.symm) (.inr blank)

/-- A node that is dispatched is sent, finished or left to its signal. -/
lemma dispatch_wave (bk : Books w.graph s b) (hs : s.stack t = .decide n o :: fs) :
    Wave w s (s.dispatch w t n o fs) b (note w s b (.exec t)) := by
  have here : At w.graph s n .firing := .top hs rfl
  have fresh : b n = {} := bk n _ here
  have blank : (b n).Blank := by
    rw [fresh]
    exact ⟨rfl, rfl⟩
  have old : ∀ n' o', Frame.decide n o ≠ .fire n' o' := fun _ _ => by rintro ⟨⟩
  have one : ∀ {f : Frame ν}, f.aims = none → ∀ h ∈ [f], h.aims = none := by
    intro f none h hh
    rw [List.mem_singleton.1 hh]
    exact none
  unfold State.dispatch
  by_cases off : s.cancelled = true ∨ o = .Cancelled
  · rw [if_pos off]
    have book : note w s b (.exec t) = Function.update b n
        ((if w.graph.kind n = .task then (b n).dispose else b n).finish .Cancelled) := by
      simp only [note, hs, if_pos off]
    have new : ∀ e : Entry ν, e = (if w.graph.kind n = .task then (b n).dispose else b n).finish .Cancelled →
        e.seen = [] ∧ e.ran = (b n).ran := by
      rintro e rfl
      rw [fresh]
      split <;> exact ⟨rfl, rfl⟩
    rw [book]
    refine .quiet (.goes hs (l := [.enter n .Cancelled]) rfl old (one rfl) rfl fun m h => ?_) rfl rfl ?_
    · exact .inl (sent_of_update h (new _ rfl).2 rfl)
    · exact .finish blank (new _ rfl).1
  · rw [if_neg off]
    cases kind : w.graph.kind n with
    | gate =>
      have book : note w s b (.exec t) = Function.update b n ((b n).finish .Completed) := by
        simp only [note, hs, if_neg off, kind]
      rw [book]
      refine .quiet (.goes hs (l := [.enter n .Completed]) rfl old (one rfl) rfl fun m h => ?_) rfl rfl ?_
      · exact .inl (sent_of_update h rfl rfl)
      · exact .finish blank (by rw [fresh]; rfl)
    | external =>
      have book : note w s b (.exec t) = b := by simp only [note, hs, if_neg off, kind]
      rw [book]
      exact .quiet (.goes hs (l := [.arm n]) rfl old (one rfl) rfl fun m h => .inl h) rfl rfl (.refl b)
    | task =>
      have book : note w s b (.exec t) =
          Function.update b n { b n with pushed := (b n).pushed + 1 } := by
        simp only [note, hs, if_neg off, kind]
      rw [book]
      refine .quiet (.goes hs (l := []) rfl old (fun h hh => absurd hh List.not_mem_nil) rfl
        fun m h => ?_) rfl rfl (.update rfl (.inl rfl))
      have aim : Aimed s n .Completed := by
        cases o with
        | Cancelled => exact absurd (.inr rfl) off
        | Completed =>
          refine ⟨t, .decide n .Completed, ?_, rfl⟩
          rw [hs]
          exact List.mem_cons_self
      by_cases eq : m = n
      · exact .inr (eq ▸ aim)
      · left
        simp only [Sent, Function.update_of_ne eq] at h
        exact h

omit [DecidableEq ν] in
/-- A call of `Fire` is over, or has set the flag. -/
lemma fire_fires (hs : s.stack t = .fire n o :: fs)
    (stack : u.stack = Function.update s.stack t (l ++ fs))
    (submitted : ∀ m, u.submitted m = true ↔ s.submitted m = true ∨ m = n)
    (top : ∀ f ∈ l, f = .decide n o) (task : u.dispatched = s.dispatched) : Fires s u b b none := by
  have mine : .fire n o ∈ s.stack t := by
    rw [hs]
    exact List.mem_cons_self
  refine .replace stack (below_of_top hs) (fun m o' h => ?_) (fun f hf m o' e => ?_) (fun m o' h => ?_)
    (fun m o' => by rintro ⟨⟩) (fun m h => (submitted m).2 (.inl h)) (fun m h => ?_) fun m h => .inl ?_
  · rw [hs] at h
    rcases List.mem_cons.1 h with h | h
    · cases h
      exact .inr ((submitted n).2 (.inr rfl))
    · exact .inl h
  · rw [top f hf] at e
    exact .inr ⟨t, _, mine, e⟩
  · cases top _ h
  · rcases (submitted m).1 h with h | rfl
    · exact .inl h
    · exact .inr ⟨t, o, mine⟩
  · rw [Sent, task] at h
    exact h

/-- What one step of a thread does to the counters. -/
lemma exec_wave [DecidableEq κ] (stk : Stock (held s) s.submitted s.walked) (bk : Books w.graph s b) (t : θ) :
    Wave w s (s.exec w t) b (note w s b (.exec t)) := by
  cases hs : s.stack t with
  | nil =>
    have idle : s.exec w t = s := by simp only [State.exec, hs]
    have book : note w s b (.exec t) = b := by simp only [note, hs]
    rw [idle, book]
    exact .quiet (.same rfl rfl fun _ h => h) rfl rfl (.refl b)
  | cons f fs =>
    have none : ∀ h ∈ ([] : List (Frame ν)), h.aims = none := fun _ hh => absurd hh List.not_mem_nil
    have one : ∀ {f : Frame ν}, f.aims = Option.none → ∀ h ∈ [f], h.aims = Option.none := by
      intro f none h hh
      rw [List.mem_singleton.1 hh]
      exact none
    cases f with
    | fire n o =>
      have book : note w s b (.exec t) = b := by simp only [note, hs]
      rw [book]
      cases first : s.submitted n with
      | true =>
        simp only [State.exec, hs, first, if_true]
        refine .quiet (fire_fires hs (l := []) rfl (fun m => ⟨.inl, ?_⟩)
          (fun h hh => absurd hh List.not_mem_nil) rfl) rfl rfl (.refl b)
        rintro (h | rfl)
        · exact h
        · exact first
      | false =>
        simp only [State.exec, hs, first]
        refine .quiet (fire_fires hs (l := [.decide n o]) rfl (fun m => ?_)
          (fun h hh => List.mem_singleton.1 hh) rfl) rfl rfl (.refl b)
        show Function.update s.submitted n true m = true ↔ s.submitted m = true ∨ m = n
        rw [Function.update_apply]
        split
        · simp [‹m = n›]
        · simp [‹¬m = n›]
    | decide n o =>
      simp only [State.exec, hs]
      exact dispatch_wave bk hs
    | arm n =>
      have fresh : b n = {} := (bk n .arming (.top hs rfl)).1
      simp only [State.exec, hs]
      cases told : s.signalled n with
      | true =>
        have book : note w s b (.exec t) = Function.update b n ((b n).finish .Completed) := by
          simp only [note, hs, told, if_true]
        rw [book]
        refine .quiet (.goes hs (l := [.enter n .Completed]) rfl (fun _ _ => by rintro ⟨⟩) (one rfl) rfl
          fun m h => .inl (sent_of_update h rfl rfl)) rfl rfl ?_
        exact .finish (by rw [fresh]; exact ⟨rfl, rfl⟩) (by rw [fresh]; rfl)
      | false =>
        have book : note w s b (.exec t) = b := by
          simp only [note, hs, told]
          rfl
        rw [book]
        exact .quiet (.goes hs (l := []) rfl (fun _ _ => by rintro ⟨⟩) none rfl fun m h => .inl h) rfl rfl
          (.refl b)
    | enter n o =>
      have book : note w s b (.exec t) = b := by simp only [note, hs]
      rw [book]
      simp only [State.exec, hs]
      exact .quiet (.goes hs (l := [.announce n o s.globalEpoch]) rfl (fun _ _ => by rintro ⟨⟩) (one rfl)
        rfl fun m h => .inl h) rfl rfl (.refl b)
    | announce n o e =>
      have book : note w s b (.exec t) = b := by simp only [note, hs]
      rw [book]
      simp only [State.exec, hs]
      exact .quiet (.goes hs (l := [.walk n o (w.graph.dependents n) s.globalEpoch]) rfl
        (fun _ _ => by rintro ⟨⟩) (one rfl) rfl fun m h => .inl h) rfl rfl (.refl b)
    | walk n o rest began =>
      cases rest with
      | nil =>
        have book : note w s b (.exec t) = b := by simp only [note, hs]
        rw [book]
        simp only [State.exec, hs]
        exact .quiet (.goes hs (l := [.retire n]) rfl (fun _ _ => by rintro ⟨⟩) (one rfl) rfl
          fun m h => .inl h) rfl rfl (.refl b)
      | cons d rest =>
        have exec : s.exec w t = s.visit w t o d (.walk n o rest began :: fs) := by
          simp only [State.exec, hs]
        rw [exec]
        exact visit_wave stk bk hs
    | retire n =>
      have book : note w s b (.exec t) = b := by simp only [note, hs]
      rw [book]
      simp only [State.exec, hs]
      exact .quiet (.goes hs (l := []) rfl (fun _ _ => by rintro ⟨⟩) none rfl fun m h => .inl h) rfl rfl
        (.refl b)

/-- A function that ends in `OnTaskFinished` is called. -/
lemma call_wave {j : Loc ν} (bk : Books w.graph s b) (here : At w.graph s n j)
    (fresh : Right w.graph n j (b n) → (b n).Blank)
    (stack : u.stack = (s.call t (.enter n o)).stack) (submitted : u.submitted = s.submitted)
    (left : u.dependenciesLeft = s.dependenciesLeft) (roots : u.roots = s.roots)
    (seen : e.seen = (b n).seen)
    (sent : ∀ m, Sent u (Function.update b n e) m → Sent s b m ∨ Aimed s m .Completed) :
    Wave w s u b (Function.update b n e) := by
  have blank := fresh (bk n j here)
  refine .quiet (.replace (l := [.enter n o]) stack (fun _ hf => hf) (fun _ _ h => .inl h)
    (fun f hf m o' e => ?_) (fun m o' h => ?_) (fun m o' => by rintro ⟨⟩) (fun m h => ?_) (fun m h => ?_)
    sent) left roots (.finish blank (seen.trans blank.2))
  · rw [List.mem_singleton.1 hf] at e
    cases e
  · cases List.mem_singleton.1 h
  · rwa [submitted]
  · rw [submitted] at h
    exact .inl h

/-- The scheduler runs or discards a task. -/
lemma taken_wave (bk : Books w.graph s b) (task : s.dispatched n = true) (seen : e.seen = (b n).seen) :
    Wave w s { s.call t (.enter n o) with dispatched := Function.update s.dispatched n false } b
      (Function.update b n e) := by
  refine call_wave (t := t) (o := o) bk (.task task) (fun h => by rw [h.1]; exact ⟨rfl, rfl⟩) rfl rfl rfl rfl seen
    fun m h => .inl ?_
  by_cases eq : m = n
  · rw [eq]
    exact .inl task
  · simp only [Sent, Function.update_of_ne eq] at h
    exact h

/-- A signal finishes its node, or comes too late. -/
lemma signal_wave (bk : Books w.graph s b) :
    Wave w s (s.signal t n) b (note w s b (.signal t n)) := by
  unfold State.signal
  cases told : s.signalled n with
  | true =>
    have book : note w s b (.signal t n) = b := by
      simp only [note, told]
      rfl
    rw [book]
    exact .quiet (.same rfl rfl fun _ h => h) rfl rfl (.refl b)
  | false =>
    cases armed : s.armed n with
    | true =>
      have book : note w s b (.signal t n) = Function.update b n ((b n).finish .Completed) := by
        simp only [note, told, armed, and_self, if_true]
      rw [book]
      exact call_wave (t := t) (o := .Completed) bk (.waiting armed told) (fun h => by rw [h.1]; exact ⟨rfl, rfl⟩) rfl
        rfl
        rfl rfl rfl fun m h => .inl (sent_of_update h rfl rfl)
    | false =>
      have book : note w s b (.signal t n) = b := by
        simp only [note, told, armed]
        rfl
      rw [book]
      exact .quiet (.same rfl rfl fun _ h => h) rfl rfl (.refl b)

/-- What any step does to the counters. -/
lemma Step.wave [DecidableEq κ] (st : Step w s a u) (stk : Stock (held s) s.submitted s.walked)
    (bk : Books w.graph s b) : Wave w s u b (note w s b a) := by
  cases st with
  | @submit t r rs hr =>
    refine .submit r (.calls (l := []) (t := t) rfl (fun _ hf => hf) (fun _ _ h => h)
      (fun h hh => absurd hh List.not_mem_nil) rfl fun _ h => h) rfl hr rfl
  | run task => exact taken_wave bk task rfl
  | discard task => exact taken_wave bk task rfl
  | @workerDiscard n task =>
    refine .quiet (.same rfl rfl fun m h => ?_) rfl rfl (.update rfl (.inl rfl))
    by_cases eq : m = n
    · rw [eq]
      exact .inl task
    · simp only [Sent, note, Function.update_of_ne eq] at h
      exact h
  | signal _ => exact signal_wave bk
  | exec => exact exec_wave stk bk _
  | look =>
    unfold State.look
    split
    · exact .quiet (.same rfl rfl fun _ h => h) rfl rfl (.refl b)
    · exact .quiet (.same rfl rfl fun _ h => h) rfl rfl (.refl b)
  | _ => exact .quiet (.same rfl rfl fun _ h => h) rfl rfl (.refl b)

end JLib.TaskDAG
