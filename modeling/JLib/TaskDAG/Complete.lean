import JLib.TaskDAG.Countdown
import JLib.TaskDAG.Reclaim
import Mathlib.Algebra.BigOperators.Group.List.Basic
import Mathlib.Algebra.Order.BigOperators.Group.List

/-!
# Every node finishes exactly once

A worker of the pool that discards a node's task does not tell the graph; as long as none does, every node
finishes, and exactly once.

`Wired` is what the counters, the edges read and the calls of `Fire` have to do with each other. When nothing
is left to run, every walk has come to its end, so along the edges of an acyclic graph every node has been
fired: by `Submit`, by a cancelled predecessor, by the first one of an OR node, or when the last predecessor of
an AND node brought its counter to zero. A node that was fired and is nowhere under way has finished, and its
entry says what was done for it.
-/

namespace JLib.TaskDAG
open LTS State

variable {ν θ κ : Type} [DecidableEq ν] {w : Setup ν θ κ} {g : Graph ν}
  {s u : State ν θ κ} {a : Label ν θ} {t : θ} {n m d : ν} {b c : Book ν} {o : Outcome}

/-- The edges from `m` to `n` that count for an AND node. -/
def Entry.given (e : Entry ν) (n : ν) : Nat := if e.outcome = some .Completed then e.seen.count n else 0

/-- The edges to `n` that completed predecessors have read. -/
def arrived (g : Graph ν) (b : Book ν) (n : ν) : Nat := (g.nodes.map fun m => (b m).given n).sum

/-- What arrived at a node is read off the edges and the outcomes. -/
lemma arrived_keeps (kp : Keeps b c) (n : ν) : arrived g c n = arrived g b n := by
  have same : ∀ m, (c m).given n = (b m).given n := by
    intro m
    obtain ⟨seen, outcome | ⟨outcome, none⟩⟩ := kp m
    · rw [Entry.given, Entry.given, seen, outcome]
    · rw [Entry.given, Entry.given, seen, none, List.count_nil, ite_self, ite_self]
  rw [arrived, arrived, funext same]

/-- One more edge that was read counts if it is to the node and its predecessor completed. -/
lemma given_append (e : Entry ν) (d n : ν) :
    { e with seen := e.seen ++ [d] }.given n =
      e.given n + if e.outcome = some .Completed ∧ d = n then 1 else 0 := by
  simp only [Entry.given, List.count_append, List.count_singleton]
  by_cases done : e.outcome = some .Completed
  · simp [done]
  · simp [done]

/-- What arrives at a node when an edge is read. -/
lemma arrived_visit (bt : g.Built) (mem : m ∈ g.nodes) (d n : ν) :
    arrived g (Function.update b m { b m with seen := (b m).seen ++ [d] }) n =
      arrived g b n + if (b m).outcome = some .Completed ∧ d = n then 1 else 0 := by
  have rest : (g.nodes.erase m).map (fun k =>
      (Function.update b m { b m with seen := (b m).seen ++ [d] } k).given n) =
      (g.nodes.erase m).map fun k => (b k).given n := by
    refine List.map_congr_left fun k hk => ?_
    rw [Function.update_of_ne (bt.nodup.mem_erase_iff.1 hk).1]
  rw [arrived, arrived, ← List.sum_map_erase _ mem, rest, Function.update_self, given_append,
    ← List.sum_map_erase (fun k => (b k).given n) mem]
  omega

/-- What was read of the edges and what was fired. -/
structure Wired (g : Graph ν) (s : State ν θ κ) (b : Book ν) : Prop where
  inside : ∀ {n}, Fired s n → n ∈ g.nodes
  roots : ∀ {n}, n ∈ s.roots → n ∈ g.nodes ∧ g.inDegree n = 0
  root : ∀ {n}, n ∈ g.nodes → g.inDegree n = 0 → n ∈ s.roots ∨ Fired s n
  cancelled : ∀ {m n}, (b m).outcome = some .Cancelled → n ∈ (b m).seen → Fired s n
  either : ∀ {m n}, g.gateType n = .OR → n ∈ (b m).seen → Fired s n
  count : ∀ {n}, g.gateType n = .AND → s.dependenciesLeft n = g.inDegree n - arrived g b n
  zero : ∀ {n}, g.gateType n = .AND → s.dependenciesLeft n = 0 → g.inDegree n = 0 ∨ Fired s n

/-- No edge was read and nothing was fired. -/
lemma Wired.init (w : Setup ν θ κ) : Wired w.graph (init w) fun _ => {} := by
  have none : arrived w.graph (fun _ => {}) = fun _ => 0 := by
    funext n
    simp [arrived, Entry.given]
  refine ⟨?_, fun h => ?_, fun mem zero => ?_, nofun, nofun, fun _ => ?_, fun _ h => ?_⟩
  · rintro n (h | ⟨t, o, h⟩) <;> cases h
  · obtain ⟨mem, zero⟩ := List.mem_filter.1 h
    exact ⟨mem, of_decide_eq_true zero⟩
  · exact .inl (List.mem_filter.2 ⟨mem, decide_eq_true zero⟩)
  · rw [none]
    simp [TaskDAG.init]
  · exact .inl (Int.natCast_eq_zero.1 h)

omit [DecidableEq ν] in
/-- What was fired stays fired. -/
lemma Fires.mono {p : Option (ν × Outcome)} (fr : Fires s u b c p) (h : Fired s n) : Fired u n :=
  (fr.fired n).2 (.inr h)

omit [DecidableEq ν] in
/-- The node that `Fire` is called for was fired. -/
lemma Fires.hit (fr : Fires s u b c (some (d, o))) : Fired u d := (fr.fired d).2 (.inl ⟨o, rfl⟩)

/-- A step that neither reads an edge nor fires leaves the account. -/
lemma Wired.quiet (wd : Wired g s b) (fr : Fires s u b c none)
    (left : u.dependenciesLeft = s.dependenciesLeft) (roots : u.roots = s.roots) (kp : Keeps b c) :
    Wired g u c := by
  have seen : ∀ m, (c m).seen = (b m).seen := fun m => (kp m).1
  refine ⟨fun {n} h => ?_, ?_, fun mem zero => ?_, fun {m n} done h => ?_, fun or h => ?_, fun {n} and => ?_,
    fun and h => ?_⟩
  · rcases (fr.fired n).1 h with ⟨o, ⟨⟩⟩ | h
    exact wd.inside h
  · rw [roots]
    exact wd.roots
  · rw [roots]
    exact (wd.root mem zero).imp id fr.mono
  · rw [seen] at h
    rcases (kp m).2 with outcome | ⟨_, none⟩
    · rw [outcome] at done
      exact fr.mono (wd.cancelled done h)
    · rw [none] at h
      cases h
  · rw [seen] at h
    exact fr.mono (wd.either or h)
  · rw [left, arrived_keeps kp]
    exact wd.count and
  · rw [left] at h
    exact (wd.zero and h).imp id fr.mono

/-- `Submit` fires a root. -/
lemma Wired.submit {r : ν} (wd : Wired g s b) (fr : Fires s u b c (some (r, .Completed)))
    (left : u.dependenciesLeft = s.dependenciesLeft) (roots : s.roots = r :: u.roots) (book : c = b) :
    Wired g u c := by
  have inRoots : ∀ {n}, n ∈ u.roots → n ∈ s.roots := by
    intro n h
    rw [roots]
    exact List.mem_cons_of_mem r h
  rw [book]
  refine ⟨fun {n} h => ?_, fun h => wd.roots (inRoots h), fun {n} mem zero => ?_,
    fun done h => fr.mono (wd.cancelled done h), fun or h => fr.mono (wd.either or h), fun {n} and => ?_,
    fun and h => ?_⟩
  · rcases (fr.fired n).1 h with ⟨o, ⟨⟩⟩ | h
    · apply (wd.roots _).1
      rw [roots]
      exact List.mem_cons_self
    · exact wd.inside h
  · rcases wd.root mem zero with h | h
    · rw [roots] at h
      rcases List.mem_cons.1 h with rfl | h
      · exact .inr fr.hit
      · exact .inl h
    · exact .inr (fr.mono h)
  · rw [left]
    exact wd.count and
  · rw [left] at h
    exact (wd.zero and h).imp id fr.mono

/-- The edges read before an edge, and the edge. -/
lemma seen_visit {k : ν} (h : n ∈ (Function.update b m { b m with seen := (b m).seen ++ [d] } k).seen) :
    n ∈ (b k).seen ∨ (k = m ∧ n = d) := by
  rw [Function.update_apply] at h
  split at h
  · rename_i eq
    rcases List.mem_append.1 h with h | h
    · exact .inl (eq ▸ h)
    · exact .inr ⟨eq, List.mem_singleton.1 h⟩
  · exact .inl h

/-- The edges that were read stay read. -/
lemma mem_seen_visit {k : ν} (h : n ∈ (b k).seen) :
    n ∈ (Function.update b m { b m with seen := (b m).seen ++ [d] } k).seen := by
  rw [Function.update_apply]
  split
  · rename_i eq
    exact List.mem_append_left _ (eq ▸ h)
  · exact h

/-- Reading an edge leaves the outcomes. -/
lemma outcome_visit (k : ν) :
    (Function.update b m { b m with seen := (b m).seen ++ [d] } k).outcome = (b k).outcome := by
  rw [Function.update_apply]
  split
  · rename_i eq
    rw [eq]
  · rfl

/-- An edge is read that fires its node at once. -/
lemma Wired.visit (wd : Wired g s b) (bt : g.Built) (submitted : s.submitted m = true)
    (outcome : (b m).outcome = some o) (edge : d ∈ g.dependents m)
    (now : o = .Cancelled ∨ g.gateType d = .OR) (fr : Fires s u b c (some (d, o)))
    (left : u.dependenciesLeft = s.dependenciesLeft) (roots : u.roots = s.roots)
    (book : c = Function.update b m { b m with seen := (b m).seen ++ [d] }) : Wired g u c := by
  have mem : m ∈ g.nodes := wd.inside (.inl submitted)
  rw [book]
  refine ⟨fun {n} h => ?_, ?_, fun mem zero => ?_, fun {k n} done h => ?_, fun {k n} or h => ?_,
    fun {n} and => ?_, fun and h => ?_⟩
  · rcases (fr.fired n).1 h with ⟨o, ⟨⟩⟩ | h
    · exact bt.edges m mem d edge
    · exact wd.inside h
  · rw [roots]
    exact wd.roots
  · rw [roots]
    exact (wd.root mem zero).imp id fr.mono
  · rw [outcome_visit] at done
    rcases seen_visit h with h | ⟨rfl, rfl⟩
    · exact fr.mono (wd.cancelled done h)
    · exact fr.hit
  · rcases seen_visit h with h | ⟨rfl, rfl⟩
    · exact fr.mono (wd.either or h)
    · exact fr.hit
  · have other : ¬((b m).outcome = some .Completed ∧ d = n) := by
      rintro ⟨done, rfl⟩
      rw [outcome] at done
      cases done
      rw [now.resolve_left (by rintro ⟨⟩)] at and
      cases and
    rw [left, arrived_visit bt mem, if_neg other]
    exact wd.count and
  · rw [left] at h
    exact (wd.zero and h).imp id fr.mono

/-- An edge to an AND node is read. -/
lemma Wired.countdown (wd : Wired g s b) (bt : g.Built) (submitted : s.submitted m = true)
    (outcome : (b m).outcome = some .Completed) (edge : d ∈ g.dependents m) (gate : g.gateType d = .AND)
    (fr : Fires s u b c (if s.dependenciesLeft d - 1 = 0 then some (d, .Completed) else none))
    (left : u.dependenciesLeft = Function.update s.dependenciesLeft d (s.dependenciesLeft d - 1))
    (roots : u.roots = s.roots)
    (book : c = Function.update b m { b m with seen := (b m).seen ++ [d] }) : Wired g u c := by
  have mem : m ∈ g.nodes := wd.inside (.inl submitted)
  rw [book]
  refine ⟨fun {n} h => ?_, ?_, fun mem zero => ?_, fun {k n} done h => ?_, fun {k n} or h => ?_,
    fun {n} and => ?_, fun {n} and h => ?_⟩
  · rcases (fr.fired n).1 h with ⟨o, h⟩ | h
    · split at h
      · cases h
        exact bt.edges m mem d edge
      · cases h
    · exact wd.inside h
  · rw [roots]
    exact wd.roots
  · rw [roots]
    exact (wd.root mem zero).imp id fr.mono
  · rw [outcome_visit] at done
    rcases seen_visit h with h | ⟨rfl, rfl⟩
    · exact fr.mono (wd.cancelled done h)
    · rw [outcome] at done
      cases done
  · rcases seen_visit h with h | ⟨rfl, rfl⟩
    · exact fr.mono (wd.either or h)
    · rw [gate] at or
      cases or
  · have eq := wd.count and
    rw [left, arrived_visit bt mem, Function.update_apply]
    by_cases here : n = d
    · subst here
      rw [if_pos rfl, if_pos ⟨outcome, rfl⟩]
      omega
    · rw [if_neg here, if_neg fun h => here h.2.symm]
      exact eq
  · rw [left, Function.update_apply] at h
    split at h
    · rename_i here
      subst here
      rw [if_pos h] at fr
      exact .inr fr.hit
    · exact (wd.zero and h).imp id fr.mono

/-- Whatever a step does to the counters keeps the account. -/
lemma Wired.wave (wd : Wired w.graph s b) (bt : w.graph.Built) (wv : Wave w s u b c) :
    Wired w.graph u c := by
  cases wv with
  | quiet fr left roots kp => exact wd.quiet fr left roots kp
  | submit r fr left roots book => exact wd.submit fr left roots book
  | visit m d o submitted outcome edge now fr left roots book =>
    exact wd.visit bt submitted outcome edge now fr left roots book
  | count m d submitted outcome edge gate fr left roots book =>
    exact wd.countdown bt submitted outcome edge gate fr left roots book

variable [DecidableEq θ] [DecidableEq κ]

section
variable {x : Tracked ν θ κ} {ok : Tracked ν θ κ → Act ν θ → Prop}

/-- The account holds in every state of a run. -/
lemma Wired.of_runs (bt : w.graph.Built) (rn : Runs (Turn w) ok (start w) x) :
    Wired w.graph x.dag x.book := by
  induction rn with
  | refl => exact .init w
  | tail rn hok tn ih =>
    cases tn with
    | step st => exact ih.wave bt (st.wave (stock_of_turns rn) (.of_runs rn))
    | release _ _ =>
      exact ih.quiet (.same rfl rfl fun _ h => sent_of_update h rfl rfl) rfl rfl (.update rfl (.inl rfl))

omit [DecidableEq ν] in
/-- What a node has read of its edges. -/
lemma Right.seen {k : Loc ν} {e : Entry ν} (h : Right g m k e) : e.seen <+: g.dependents m := by
  have fresh : ∀ {e : Entry ν}, e.seen = [] → e.seen <+: g.dependents m := by
    intro e none
    rw [none]
    exact List.nil_prefix
  cases k with
  | idle => exact fresh (by rw [show e = {} from h])
  | firing => exact fresh (by rw [show e = {} from h])
  | arming => exact fresh (by rw [h.1])
  | waiting => exact fresh (by rw [h.1])
  | task => exact fresh (by rw [h.1])
  | lost => exact fresh (by rw [h.1])
  | ending o rest => exact ⟨rest, h.2⟩
  | ended => exact h.2 ▸ List.prefix_rfl

/-- The edges of a node that were read are the first of its list. -/
lemma Books.seen (rn : Runs (Turn w) ok (start w) x) (m : ν) :
    (x.book m).seen <+: w.graph.dependents m := by
  obtain ⟨k, h⟩ := At.total (stock_of_turns rn) w.graph m
  exact (Books.of_runs rn m k h).seen

/-- No more edges were read than there are. -/
lemma given_le (rn : Runs (Turn w) ok (start w) x) (m n : ν) :
    (x.book m).given n ≤ (w.graph.dependents m).count n := by
  unfold Entry.given
  split
  · exact (Books.seen rn m).sublist.count_le n
  · exact Nat.zero_le _

/-- Nothing is left to run, no external node waits for its signal, and no `WaitGroup` is still to be
decremented. -/
structure Over (w : Setup ν θ κ) (x : Tracked ν θ κ) : Prop where
  roots : x.dag.roots = []
  stack : ∀ t, x.dag.stack t = []
  task : ∀ n, x.dag.dispatched n = false
  signalled : ∀ n ∈ w.graph.nodes, w.graph.kind n = .external → x.dag.signalled n = true
  owing : ∀ n, (x.book n).owing = false

/-- A node that was fired has come to the end of its walk, if its task was not lost. -/
lemma Over.ended (ov : Over w x) (bt : w.graph.Built) (rn : Runs (Turn w) ok (start w) x)
    (fired : Fired x.dag n) (kept : x.dag.discarded n = false) : x.dag.walked n = true := by
  have empty : ∀ {t f}, f ∉ x.dag.stack t := by
    intro t f h
    rw [ov.stack t] at h
    cases h
  have submitted : x.dag.submitted n = true := by
    rcases fired with h | ⟨t, o, h⟩
    · exact h
    · exact absurd h empty
  obtain ⟨k, h⟩ := At.total (stock_of_turns rn) w.graph n
  have right := Books.of_runs rn n k h
  cases h with
  | idle h =>
    rw [submitted] at h
    cases h
  | frame hf _ => exact absurd hf empty
  | waiting _ late =>
    have mem := (Wired.of_runs bt rn).inside (.inl submitted)
    rw [ov.signalled n mem right.2] at late
    cases late
  | task h =>
    rw [ov.task n] at h
    cases h
  | lost h =>
    rw [kept] at h
    cases h
  | ended h => exact h

/-- The entry of a node at the end of its walk. -/
lemma entry_of_walked (rn : Runs (Turn w) ok (start w) x) (h : x.dag.walked n = true) :
    (∃ o, Finished w.graph n o (x.book n)) ∧ (x.book n).seen = w.graph.dependents n :=
  Books.of_runs rn n .ended (.ended h)

/-- A node that all predecessors have reached as completed has its counter at zero. -/
lemma arrived_all (rn : Runs (Turn w) ok (start w) x)
    (all : ∀ m ∈ w.graph.nodes, n ∈ w.graph.dependents m →
      (x.book m).outcome = some .Completed ∧ (x.book m).seen = w.graph.dependents m) :
    arrived w.graph x.book n = w.graph.inDegree n := by
  rw [arrived, Graph.inDegree]
  congr 1
  refine List.map_congr_left fun m hm => ?_
  by_cases edge : n ∈ w.graph.dependents m
  · obtain ⟨done, seen⟩ := all m hm edge
    rw [Entry.given, if_pos done, seen]
  · have le := given_le rn m n
    rw [List.count_eq_zero_of_not_mem edge] at le ⊢
    omega

/-- A node with a degree has a predecessor. -/
lemma exists_pred (h : g.inDegree n ≠ 0) : ∃ m ∈ g.nodes, n ∈ g.dependents m := by
  by_contra none
  apply h
  refine List.sum_eq_zero fun k hk => ?_
  obtain ⟨m, hm, rfl⟩ := List.mem_map.1 hk
  exact List.count_eq_zero_of_not_mem fun edge => none ⟨m, hm, edge⟩

/-- By the time nothing is left to run, every node has been fired, if no task was lost. -/
lemma Over.fired (ov : Over w x) (bt : w.graph.Built) (rn : Runs (Turn w) ok (start w) x)
    (kept : ∀ n ∈ w.graph.nodes, x.dag.discarded n = false) (mem : n ∈ w.graph.nodes) : Fired x.dag n := by
  have wd := Wired.of_runs bt rn
  obtain ⟨rank, lt⟩ := w.graph.acyclic
  -- along the edges, from the roots on
  induction h : rank n using Nat.strong_induction_on generalizing n with
  | _ r ih =>
    by_cases root : w.graph.inDegree n = 0
    · refine (wd.root mem root).resolve_left ?_
      rw [ov.roots]
      exact List.not_mem_nil
    · have done : ∀ m ∈ w.graph.nodes, n ∈ w.graph.dependents m →
          (∃ o, Finished w.graph m o (x.book m)) ∧ (x.book m).seen = w.graph.dependents m := by
        intro m hm edge
        have fired := ih (rank m) (h ▸ lt m n edge) hm rfl
        exact entry_of_walked rn (ov.ended bt rn fired (kept m hm))
      cases gate : w.graph.gateType n with
      | OR =>
        obtain ⟨m, hm, edge⟩ := exists_pred root
        exact wd.either gate ((done m hm edge).2 ▸ edge)
      | AND =>
        by_cases off : ∃ m ∈ w.graph.nodes, n ∈ w.graph.dependents m ∧
            (x.book m).outcome = some .Cancelled
        · obtain ⟨m, hm, edge, off⟩ := off
          exact wd.cancelled off ((done m hm edge).2 ▸ edge)
        · have eq := wd.count gate
          rw [arrived_all rn fun m hm edge => ?_, sub_self] at eq
          · exact (wd.zero gate eq).resolve_left root
          · obtain ⟨⟨o, fin⟩, seen⟩ := done m hm edge
            refine ⟨?_, seen⟩
            cases o with
            | Completed => exact fin.result
            | Cancelled => exact absurd ⟨m, hm, edge, fin.result⟩ off

/-- No worker of the pool discards the task of a node. -/
def Told (_ : Tracked ν θ κ) : Act ν θ → Prop
  | .step (.workerDiscard _) => False
  | _ => True

/-- Only such a step loses a task. -/
lemma Step.discarded (st : Step w s a u) (told : ∀ n, a ≠ .workerDiscard n) : u.discarded = s.discarded := by
  cases st with
  | @workerDiscard n _ => exact absurd rfl (told n)
  | signal _ =>
    unfold State.signal
    split
    · rfl
    · dsimp only
      split <;> rfl
  | exec =>
    unfold State.exec
    split
    · rfl
    · split <;> rfl
    · unfold State.dispatch
      split
      · rfl
      · split <;> rfl
    · rfl
    · rfl
    · rfl
    · unfold State.visit
      split
      · rfl
      · split <;> rfl
    · rfl
    · rfl
  | look =>
    unfold State.look
    split <;> rfl
  | _ => rfl

/-- In a run without a worker's discard no node is discarded. -/
lemma kept_of_runs (rn : Runs (Turn w) Told (start w) x) (n : ν) : x.dag.discarded n = false := by
  induction rn with
  | refl => rfl
  | tail _ told tn ih =>
    cases tn with
    | step st =>
      rw [st.discarded]
      · exact ih
      · rintro m rfl
        exact told
    | release _ _ => exact ih

/-- When nothing is left to run and no worker of the pool has discarded the task of a node, every node has
reached `OnTaskFinished` exactly once; its task was pushed once or disposed once, and the task's `WaitGroup`
was decremented once. A node whose task a worker has discarded has not reached `OnTaskFinished`. -/
theorem every_node_finishes_once (bt : w.graph.Built) (rn : Reaches (Turn w) (start w) x)
    (ov : Over w x) :
    ((∀ n ∈ w.graph.nodes, (x.book n).finished = 1 ∧
      (w.graph.kind n = .task →
        ((x.book n).pushed = 1 ∧ (x.book n).disposed = 0 ∨
          (x.book n).pushed = 0 ∧ (x.book n).disposed = 1) ∧
        (x.book n).released = 1)) ↔ ∀ n ∈ w.graph.nodes, x.dag.discarded n = false) ∧
      (Runs (Turn w) Told (start w) x → ∀ n ∈ w.graph.nodes, x.dag.discarded n = false) := by
  refine ⟨⟨fun all n mem => ?_, fun kept n mem => ?_⟩, fun rn n _ => kept_of_runs rn n⟩
  · by_contra lost
    have entry := (Books.of_runs rn n .lost (.lost (Bool.eq_true_of_not_eq_false lost))).1
    have once := (all n mem).1
    rw [entry] at once
    cases once
  · have walked := ov.ended bt rn (ov.fired bt rn kept mem) (kept n mem)
    obtain ⟨⟨o, fin⟩, _⟩ := entry_of_walked rn walked
    refine ⟨fin.once, fun kind => ?_⟩
    obtain ⟨task, group⟩ := fin.task kind
    rw [ov.owing n] at group
    refine ⟨?_, group⟩
    omega

end

/-- The chain is a graph as the builder leaves it. -/
lemma chain_built : chain.graph.Built := by
  refine ⟨by decide, fun m _ n edge => ?_⟩
  rw [(chain_pred edge).1]
  decide

/-- The graph is cancelled before its second task is dispatched: one task is pushed and runs, the other is
disposed. -/
theorem every_node_finishes_once_chain :
    ∃ x, Runs (Turn chain) Told (start chain) x ∧ Over chain x ∧ (x.book 0).pushed = 1 ∧
      (x.book 1).disposed = 1 ∧ (x.book 1).finished = 1 ∧ (x.book 1).released = 1 := by
  have r : Runs (Turn chain) Told (start chain) _ := .refl
  have r1 := r.next (.step (.submit ())) trivial (.step (.submit rfl))
  have r2 := r1.next (.step (.exec ())) trivial (.step .exec)
  have r3 := r2.next (.step (.exec ())) trivial (.step .exec)
  have r4 := r3.next (.step .cancel) trivial (.step .cancel)
  have r5 := r4.next (.step (.run () 0)) trivial (.step (.run rfl))
  have r6 := r5.next (.step (.exec ())) trivial (.step .exec)
  have r7 := r6.next (.step (.exec ())) trivial (.step .exec)
  -- the edge to node 1, which is finished as cancelled
  have r8 := r7.next (.step (.exec ())) trivial (.step .exec)
  have r9 := r8.next (.step (.exec ())) trivial (.step .exec)
  have r10 := r9.next (.step (.exec ())) trivial (.step .exec)
  have r11 := r10.next (.step (.exec ())) trivial (.step .exec)
  have r12 := r11.next (.step (.exec ())) trivial (.step .exec)
  have r13 := r12.next (.step (.exec ())) trivial (.step .exec)
  have r14 := r13.next (.step (.exec ())) trivial (.step .exec)
  -- the end of the walk of node 0, and the `WaitGroup` of its task
  have r15 := r14.next (.step (.exec ())) trivial (.step .exec)
  have r16 := r15.next (.step (.exec ())) trivial (.step .exec)
  have r17 := r16.next (.release 0) trivial (.release rfl fun _ _ h => absurd h List.not_mem_nil)
  obtain ⟨x, rx, ov, pushed, disposed⟩ : ∃ x, Runs (Turn chain) Told (start chain) x ∧ Over chain x ∧
      (x.book 0).pushed = 1 ∧ (x.book 1).disposed = 1 := by
    refine ⟨_, r17, ⟨rfl, fun _ => rfl, fun n => ?_, fun n _ kind => ?_, fun n => ?_⟩, rfl, rfl⟩
    · rcases n with _ | n <;> rfl
    · cases kind
    · rcases n with _ | _ | n <;> rfl
  obtain ⟨exactly, kept⟩ := every_node_finishes_once chain_built rx.reaches ov
  obtain ⟨once, task⟩ := exactly.2 (kept rx) 1 (by decide)
  exact ⟨x, rx, ov, pushed, disposed, once, (task rfl).2⟩

/-- The graph is cancelled while its first task waits in a queue, and a worker of the pool discards that.
Nothing is left to run; no node has reached `OnTaskFinished`, and the task of node 1 was neither pushed nor
disposed. -/
theorem discarded_node_never_finishes :
    ∃ x, Reaches (Turn chain) (start chain) x ∧ Over chain x ∧ (x.book 0).finished = 0 ∧
      (x.book 0).released = 1 ∧ (x.book 1).finished = 0 ∧ (x.book 1).pushed = 0 ∧ (x.book 1).disposed = 0 := by
  have r : Reaches (Turn chain) (start chain) _ := .refl
  have r1 := r.next (.step (.submit ())) trivial (.step (.submit rfl))
  have r2 := r1.next (.step (.exec ())) trivial (.step .exec)
  have r3 := r2.next (.step (.exec ())) trivial (.step .exec)
  have r4 := r3.next (.step .cancel) trivial (.step .cancel)
  have r5 := r4.next (.step (.workerDiscard 0)) trivial (.step (.workerDiscard rfl))
  refine ⟨_, r5, ⟨rfl, fun _ => rfl, fun n => ?_, fun n _ kind => ?_, fun n => ?_⟩, rfl, rfl, rfl, rfl, rfl⟩
  · rcases n with _ | n <;> rfl
  · cases kind
  · rcases n with _ | _ | n <;> rfl

end JLib.TaskDAG
