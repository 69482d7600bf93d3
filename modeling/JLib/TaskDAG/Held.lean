import JLib.LTS.Stock
import JLib.TaskDAG.Model

/-!
# Every node is finished once

Between the exchange that fires a node and the end of its walk, the node is at one place: in an activation of some
thread, with the scheduler as a task, lost with its task, or armed and waiting for its signal. `Handover` lists what
a step can do to the places; that no node is at two of them, and that none comes back after its walk, follows for
every run.
-/

namespace JLib.TaskDAG
open LTS State

variable {ν θ κ : Type} [DecidableEq ν] [DecidableEq θ] {w : Setup ν θ κ}
  {s u : State ν θ κ} {a : Label ν θ} {t : θ} {n : ν} {fs : List (Frame ν)}

/-- The node that an activation is to bring to its end. -/
def Frame.owns : Frame ν → Option ν
  | .fire _ _ => none
  | .decide n _ => some n
  | .arm n => some n
  | .enter n _ => some n
  | .announce n _ _ => some n
  | .walk n _ _ _ => some n
  | .retire _ => none

/-- The node whose `OnTaskFinished` an activation is. -/
def Frame.finishing : Frame ν → Option ν
  | .fire _ _ => none
  | .decide _ _ => none
  | .arm _ => none
  | .enter n _ => some n
  | .announce n _ _ => some n
  | .walk n _ _ _ => some n
  | .retire n => some n

/-- Where a node can be that was fired and is not finished. -/
inductive Place (ν θ : Type) where
  | stack (t : θ)
  | task (n : ν)
  | discarded (n : ν)
  | external (n : ν)

/-- The nodes at a place. -/
def held (s : State ν θ κ) : Place ν θ → List ν
  | .stack t => (s.stack t).filterMap Frame.owns
  | .task n => if s.dispatched n then [n] else []
  | .discarded n => if s.discarded n then [n] else []
  | .external n => if s.armed n && !s.signalled n then [n] else []

/-- What a step does to the places. -/
inductive Handover (s u : State ν θ κ) : Prop where
  | none :
    (∀ p, held u p = held s p) →
    u.submitted = s.submitted →
    u.walked = s.walked →
    Handover s u
  | fired (n : ν) (p : Place ν θ) :
    s.submitted n = false →
    held u p = n :: held s p →
    (∀ q, q ≠ p → held u q = held s q) →
    u.submitted = Function.update s.submitted n true →
    u.walked = s.walked →
    Handover s u
  | moved (p q : Place ν θ) :
    p ≠ q →
    (held u p ++ held u q).Perm (held s p ++ held s q) →
    (∀ r, r ≠ p → r ≠ q → held u r = held s r) →
    u.submitted = s.submitted →
    u.walked = s.walked →
    Handover s u
  | walked (n : ν) (p : Place ν θ) :
    held s p = n :: held u p →
    (∀ q, q ≠ p → held u q = held s q) →
    u.submitted = s.submitted →
    u.walked = Function.update s.walked n true →
    Handover s u

/-! ## The steps -/

omit [DecidableEq ν] in
/-- Only the stack of one thread changes. -/
lemma held_of_ne {q : Place ν θ} (ne : q ≠ .stack t)
    (stack : u.stack = Function.update s.stack t fs) (task : u.dispatched = s.dispatched)
    (lost : u.discarded = s.discarded) (armed : u.armed = s.armed) (signalled : u.signalled = s.signalled) :
    held u q = held s q := by
  cases q with
  | stack t' =>
    have : t' ≠ t := fun h => ne (h ▸ rfl)
    simp only [held, stack, Function.update_of_ne this]
  | task n => simp only [held, task]
  | discarded n => simp only [held, lost]
  | external n => simp only [held, armed, signalled]

omit [DecidableEq ν] in
/-- What a stack holds. -/
lemma held_stack (stack : u.stack = Function.update s.stack t fs) :
    held u (.stack t) = fs.filterMap Frame.owns := by
  simp only [held, stack, Function.update_self]

/-- The activation on top is replaced by others that own what it did. -/
lemma Handover.replace {f : Frame ν} {g : List (Frame ν)} (hs : s.stack t = f :: fs)
    (stack : u.stack = Function.update s.stack t (g ++ fs))
    (task : u.dispatched = s.dispatched) (lost : u.discarded = s.discarded) (armed : u.armed = s.armed)
    (signalled : u.signalled = s.signalled) (submitted : u.submitted = s.submitted)
    (walked : u.walked = s.walked) (owns : g.filterMap Frame.owns = [f].filterMap Frame.owns) :
    Handover s u := by
  refine .none (fun p => ?_) submitted walked
  by_cases h : p = .stack t
  · rw [h, held_stack stack, List.filterMap_append, owns, ← List.filterMap_append]
    simp only [held, hs]
    rfl
  · exact held_of_ne h stack task lost armed signalled

omit [DecidableEq θ] in
/-- None of what the places are made of changes. -/
lemma Handover.same (stack : u.stack = s.stack) (task : u.dispatched = s.dispatched)
    (lost : u.discarded = s.discarded) (armed : u.armed = s.armed) (signalled : u.signalled = s.signalled)
    (submitted : u.submitted = s.submitted) (walked : u.walked = s.walked) : Handover s u := by
  refine .none (fun p => ?_) submitted walked
  cases p with
  | stack t => simp only [held, stack]
  | task n => simp only [held, task]
  | discarded n => simp only [held, lost]
  | external n => simp only [held, armed, signalled]

/-- Reading an edge hands over no node, or takes one in. -/
lemma visit_handover {m d : ν} {outcome : Outcome} {rest : List ν} {began : Nat}
    (hs : s.stack t = .walk m outcome (d :: rest) began :: fs) :
    Handover s (s.visit w t outcome d (.walk m outcome rest began :: fs)) := by
  unfold State.visit
  cases outcome with
  | Cancelled =>
    exact .replace (g := [.fire d .Cancelled, .walk m .Cancelled rest began]) hs rfl rfl rfl rfl rfl
      rfl rfl rfl
  | Completed =>
    simp only
    split
    · exact .replace (g := [.fire d .Completed, .walk m .Completed rest began]) hs rfl rfl rfl rfl
        rfl rfl rfl rfl
    · split
      · exact .replace (g := [.fire d .Completed, .walk m .Completed rest began]) hs rfl rfl rfl rfl
          rfl rfl rfl rfl
      · exact .replace (g := [.walk m .Completed rest began]) hs rfl rfl rfl rfl rfl rfl rfl rfl

/-- A node leaves an activation for the scheduler. -/
lemma Handover.toTask {outcome : Outcome} (hs : s.stack t = .decide n outcome :: fs)
    (cus : Custody (held s)) :
    Handover s { s.setStack t fs with dispatched := Function.update s.dispatched n true } := by
  have mine : held s (.stack t) = n :: fs.filterMap Frame.owns := by
    simp only [held, hs]
    rfl
  have out : held s (.task n) = [] := by
    simp only [held]
    split
    · have : (Place.stack t : Place ν θ) = .task n := by
        apply cus.unique (k := n)
        · rw [mine]
          exact List.mem_cons_self
        · simp only [held, if_pos ‹_›, List.mem_singleton]
      cases this
    · rfl
  refine .moved (.stack t) (.task n) nofun ?_ (fun r h1 h2 => ?_) rfl rfl
  · rw [mine, out, held_stack rfl, List.append_nil]
    simp only [held, Function.update_self, if_true]
    exact List.perm_append_singleton n _
  · cases r with
    | stack t' =>
      have : t' ≠ t := fun h => h1 (h ▸ rfl)
      simp only [held, setStack, Function.update_of_ne this]
    | task m =>
      have : m ≠ n := fun h => h2 (h ▸ rfl)
      simp only [held, Function.update_of_ne this]
    | discarded m => rfl
    | external m => rfl

/-- A node that is dispatched leaves the stack, or stays on it to be finished. -/
lemma dispatch_handover {outcome : Outcome} (hs : s.stack t = .decide n outcome :: fs)
    (cus : Custody (held s)) : Handover s (s.dispatch w t n outcome fs) := by
  unfold State.dispatch
  split
  · exact .replace (g := [.enter n .Cancelled]) hs rfl rfl rfl rfl rfl rfl rfl rfl
  · split
    · exact .replace (g := [.enter n .Completed]) hs rfl rfl rfl rfl rfl rfl rfl rfl
    · exact .replace (g := [.arm n]) hs rfl rfl rfl rfl rfl rfl rfl rfl
    · exact .toTask hs cus

/-- A node leaves an activation to wait for its signal. -/
lemma Handover.toExternal (hs : s.stack t = .arm n :: fs) (cus : Custody (held s))
    (early : s.signalled n = false) :
    Handover s { s.setStack t fs with armed := Function.update s.armed n true } := by
  have mine : held s (.stack t) = n :: fs.filterMap Frame.owns := by
    simp only [held, hs]
    rfl
  have out : held s (.external n) = [] := by
    simp only [held]
    split
    · have : (Place.stack t : Place ν θ) = .external n := by
        apply cus.unique (k := n)
        · rw [mine]
          exact List.mem_cons_self
        · simp only [held, if_pos ‹_›, List.mem_singleton]
      cases this
    · rfl
  refine .moved (.stack t) (.external n) nofun ?_ (fun r h1 h2 => ?_) rfl rfl
  · rw [mine, out, held_stack rfl, List.append_nil]
    simp only [held, Function.update_self, setStack, early]
    exact List.perm_append_singleton n _
  · cases r with
    | stack t' =>
      have : t' ≠ t := fun h => h1 (h ▸ rfl)
      simp only [held, setStack, Function.update_of_ne this]
    | task m => rfl
    | discarded m => rfl
    | external m =>
      have : m ≠ n := fun h => h2 (h ▸ rfl)
      simp only [held, setStack, Function.update_of_ne this]

/-- An external node is armed after its signal came and is completed on the spot. -/
lemma Handover.armed (hs : s.stack t = .arm n :: fs) (early : s.signalled n = true) :
    Handover s
      { s.setStack t (.enter n .Completed :: fs) with armed := Function.update s.armed n true } := by
  refine .none (fun p => ?_) rfl rfl
  cases p with
  | stack t' =>
    by_cases h : t' = t
    · rw [h, held_stack rfl]
      simp only [held, hs]
      rfl
    · simp only [held, setStack, Function.update_of_ne h]
  | task m => rfl
  | discarded m => rfl
  | external m =>
    by_cases h : m = n
    · simp [held, setStack, h, early]
    · simp only [held, setStack, Function.update_of_ne h]

/-- What one step of a thread does to the places. -/
lemma exec_handover [DecidableEq κ] (w : Setup ν θ κ) (cus : Custody (held s)) (t : θ) :
    Handover s (s.exec w t) := by
  unfold State.exec
  cases hs : s.stack t with
  | nil => exact .same rfl rfl rfl rfl rfl rfl rfl
  | cons f fs =>
    cases f with
    | fire n outcome =>
      simp only
      split
      · exact .replace (g := []) hs rfl rfl rfl rfl rfl rfl rfl rfl
      · refine .fired n (.stack t) (Bool.eq_false_iff.2 ‹_›) ?_ (fun q h => ?_) rfl rfl
        · rw [held_stack rfl]
          simp only [held, hs]
          rfl
        · exact held_of_ne h rfl rfl rfl rfl rfl
    | decide n outcome => exact dispatch_handover hs cus
    | arm n =>
      simp only
      split
      · exact .armed hs ‹_›
      · exact .toExternal hs cus (Bool.eq_false_iff.2 ‹_›)
    | enter n outcome =>
      exact .replace (g := [.announce n outcome s.globalEpoch]) hs rfl rfl rfl rfl rfl rfl rfl rfl
    | announce n outcome e =>
      exact .replace (g := [.walk n outcome (w.graph.dependents n) s.globalEpoch]) hs rfl rfl rfl rfl
        rfl rfl rfl rfl
    | walk n outcome rest began =>
      cases rest with
      | nil =>
        refine .walked n (.stack t) ?_ (fun q h => ?_) rfl rfl
        · simp only [held, setStack, hs, Function.update_self]
          rfl
        · exact held_of_ne h rfl rfl rfl rfl rfl
      | cons d rest => exact visit_handover hs
    | retire n => exact .replace (g := []) hs rfl rfl rfl rfl rfl rfl rfl rfl

/-- The scheduler runs or discards a node's task. -/
lemma Handover.fromTask {outcome : Outcome} (task : s.dispatched n = true) :
    Handover s { s.call t (.enter n outcome) with
      dispatched := Function.update s.dispatched n false } := by
  refine .moved (.task n) (.stack t) nofun ?_ (fun r h1 h2 => ?_) rfl rfl
  · simp only [held, call, setStack, Function.update_self, task]
    exact .refl _
  · cases r with
    | stack t' =>
      have : t' ≠ t := fun h => h2 (h ▸ rfl)
      simp only [held, call, setStack, Function.update_of_ne this]
    | task m =>
      have : m ≠ n := fun h => h1 (h ▸ rfl)
      simp only [held, Function.update_of_ne this]
    | discarded m => rfl
    | external m => rfl

omit [DecidableEq θ] in
/-- A worker of the pool discards a node's task. -/
lemma Handover.lost (cus : Custody (held s)) (task : s.dispatched n = true) :
    Handover s { s with
      dispatched := Function.update s.dispatched n false
      discarded := Function.update s.discarded n true } := by
  have out : held s (.discarded n) = [] := by
    simp only [held]
    split
    · have : (Place.task n : Place ν θ) = .discarded n := by
        apply cus.unique (k := n)
        · simp only [held, if_pos task, List.mem_singleton]
        · simp only [held, if_pos ‹_›, List.mem_singleton]
      cases this
    · rfl
  refine .moved (.task n) (.discarded n) nofun ?_ (fun r h1 h2 => ?_) rfl rfl
  · rw [out]
    simp only [held, Function.update_self, task]
    exact .refl _
  · cases r with
    | stack t => rfl
    | task m =>
      have : m ≠ n := fun h => h1 (h ▸ rfl)
      simp only [held, Function.update_of_ne this]
    | discarded m =>
      have : m ≠ n := fun h => h2 (h ▸ rfl)
      simp only [held, Function.update_of_ne this]
    | external m => rfl

/-- A signal takes its node on the stack of the thread. -/
lemma signal_handover (s : State ν θ κ) (t : θ) (n : ν) : Handover s (s.signal t n) := by
  have other : ∀ {m}, m ≠ n → Function.update s.signalled n true m = s.signalled m :=
    fun h => Function.update_of_ne h ..
  unfold State.signal
  split
  · exact .same rfl rfl rfl rfl rfl rfl rfl
  · have first : s.signalled n = false := Bool.eq_false_iff.2 ‹_›
    simp only
    split
    · have armed : s.armed n = true := ‹_›
      refine .moved (.external n) (.stack t) nofun ?_ (fun r h1 h2 => ?_) rfl rfl
      · simp only [held, call, setStack, Function.update_self, armed, first]
        exact .refl _
      · cases r with
        | stack t' =>
          have : t' ≠ t := fun h => h2 (h ▸ rfl)
          simp only [held, call, setStack, Function.update_of_ne this]
        | task m => rfl
        | discarded m => rfl
        | external m =>
          have : m ≠ n := fun h => h1 (h ▸ rfl)
          simp only [held, call, setStack, other this]
    · have armed : s.armed n = false := Bool.eq_false_iff.2 ‹_›
      refine .none (fun p => ?_) rfl rfl
      cases p with
      | stack t' => rfl
      | task m => rfl
      | discarded m => rfl
      | external m =>
        by_cases h : m = n
        · simp [held, h, armed]
        · simp only [held, other h]

variable [DecidableEq κ]

/-- What any step does to the places. -/
lemma Step.handover (st : Step w s a u) (cus : Custody (held s)) : Handover s u := by
  cases st with
  | @submit t r rs _ =>
    refine .none (fun p => ?_) rfl rfl
    by_cases h : p = .stack t
    · rw [h, held_stack rfl]
      rfl
    · exact held_of_ne h rfl rfl rfl rfl rfl
  | run task => exact .fromTask task
  | discard task => exact .fromTask task
  | workerDiscard task => exact .lost cus task
  | signal _ => exact signal_handover s _ _
  | cancel => exact .same rfl rfl rfl rfl rfl rfl rfl
  | exec => exact exec_handover w cus _
  | advance => exact .same rfl rfl rfl rfl rfl rfl rfl
  | scan _ => exact .same rfl rfl rfl rfl rfl rfl rfl
  | look =>
    unfold State.look
    split
    · exact .same rfl rfl rfl rfl rfl rfl rfl
    · exact .same rfl rfl rfl rfl rfl rfl rfl
  | sweep _ => exact .same rfl rfl rfl rfl rfl rfl rfl
  | leave _ => exact .same rfl rfl rfl rfl rfl rfl rfl

/-! ## The runs -/

/-- Every node that was fired is at one place until its walk ends. -/
structure Held (s : State ν θ κ) : Prop where
  custody : Custody (held s)
  fired : ∀ {p n}, n ∈ held s p → s.submitted n = true
  pending : ∀ {p n}, n ∈ held s p → s.walked n = false
  walked : ∀ {n}, s.walked n = true → s.submitted n = true

/-- A node is taken in when it is fired and given out when its walk ends. -/
lemma Step.stock (stk : Stock (held s) s.submitted s.walked) (st : Step w s a u) :
    Stock (held u) u.submitted u.walked := by
  cases st.handover stk.custody with
  | none same submitted walked =>
    rw [submitted, walked, funext same]
    exact stk
  | fired n p first here frame submitted walked =>
    rw [submitted, walked]
    exact stk.put first frame (here ▸ .refl _)
  | moved p q ne perm frame submitted walked =>
    rw [submitted, walked]
    exact stk.move ⟨p, q, ne, frame, perm⟩
  | walked n p here frame submitted walked =>
    rw [submitted, walked]
    exact stk.spend frame (here ▸ .refl _)

/-- In every state the nodes that were fired and not walked are at one place each. -/
lemma stock_of_runs {ok : State ν θ κ → Label ν θ → Prop} (rn : Runs (Step w) ok (init w) s) :
    Stock (held s) s.submitted s.walked := by
  refine rn.invariant (I := fun s => Stock (held s) s.submitted s.walked) ?_ fun stk _ st => st.stock stk
  refine .empty (fun p => ?_) (fun _ => rfl) fun _ => rfl
  cases p <;> rfl

omit [DecidableEq ν] [DecidableEq θ] [DecidableEq κ] in
/-- The same, said of each node. -/
lemma Held.of_stock (stk : Stock (held s) s.submitted s.walked) : Held s :=
  ⟨stk.custody, fun h => (stk.live h).1, fun h => (stk.live h).2, stk.gone⟩

/-- In every state of a run each node that was fired is at one place until its walk ends. -/
lemma Held.of_runs {ok : State ν θ κ → Label ν θ → Prop} (rn : Runs (Step w) ok (init w) s) : Held s :=
  .of_stock (stock_of_runs rn)

end JLib.TaskDAG
