import JLib.TaskDAG.Model
import Mathlib.Order.Nat

/-!
# Announced walks

While a walk is in progress its slot is to hold an epoch no later than the one in which the walk began.
A guard stores the present epoch when it is constructed and `SIZE_MAX` when it is destroyed, whatever was
there: a second walk on the slot of an unfinished one makes it unannounced. This is the only thing that
does.
-/

namespace JLib.TaskDAG
open LTS State

variable {ν θ κ : Type} [DecidableEq ν] [DecidableEq θ] [DecidableEq κ] {w : Setup ν θ κ}
  {s u : State ν θ κ} {a : Label ν θ} {t : θ} {fs : List (Frame ν)}

/-- The walks of a stack: of which node, and the epoch in which it began. -/
def walks (fs : List (Frame ν)) : List (ν × Nat) :=
  fs.filterMap fun
    | .walk n _ _ began => some (n, began)
    | _ => none

/-- The epochs that guards of a stack have loaded and not yet stored. -/
def loads (fs : List (Frame ν)) : List Nat :=
  fs.filterMap fun
    | .announce _ _ e => some e
    | _ => none

/-- What a step does to the walks and the slots. -/
inductive Effect (w : Setup ν θ κ) (s : State ν θ κ) (a : Label ν θ) (u : State ν θ κ) : Prop where
  | quiet :
    u.slot = s.slot →
    s.globalEpoch ≤ u.globalEpoch →
    (∀ t, walks (u.stack t) = walks (s.stack t)) →
    (∀ t, ∀ e ∈ loads (u.stack t), e ∈ loads (s.stack t) ∨ e = s.globalEpoch) →
    u.walked = s.walked →
    Effect w s a u
  | begins (t : θ) (n : ν) (outcome : Outcome) (e : Nat) (fs : List (Frame ν)) :
    a = .exec t →
    s.stack t = .announce n outcome e :: fs →
    u.slot = Function.update s.slot (w.slotOf t) (some e) →
    u.stack = Function.update s.stack t
      (.walk n outcome (w.graph.dependents n) s.globalEpoch :: fs) →
    u.globalEpoch = s.globalEpoch →
    u.walked = s.walked →
    Effect w s a u
  | ends (t : θ) (n : ν) (outcome : Outcome) (began : Nat) (fs : List (Frame ν)) :
    s.stack t = .walk n outcome [] began :: fs →
    u.slot = Function.update s.slot (w.slotOf t) none →
    u.stack = Function.update s.stack t (.retire n :: fs) →
    u.globalEpoch = s.globalEpoch →
    u.walked = Function.update s.walked n true →
    Effect w s a u

/-- The stack of one thread is replaced by one with the same walks. -/
lemma Effect.setStack (slot : u.slot = s.slot) (epoch : u.globalEpoch = s.globalEpoch)
    (stack : u.stack = Function.update s.stack t fs) (hw : walks fs = walks (s.stack t))
    (hl : ∀ e ∈ loads fs, e ∈ loads (s.stack t) ∨ e = s.globalEpoch)
    (walked : u.walked = s.walked) : Effect w s a u := by
  refine .quiet slot epoch.ge (fun t' => ?_) (fun t' e he => ?_) walked
  · rw [stack]
    by_cases h : t' = t
    · rw [h, Function.update_self, hw]
    · rw [Function.update_of_ne h]
  · rw [stack] at he
    by_cases h : t' = t
    · rw [h, Function.update_self] at he
      rw [h]
      exact hl e he
    · rw [Function.update_of_ne h] at he
      exact .inl he

/-- Nothing but other fields changes. -/
lemma Effect.same (slot : u.slot = s.slot) (epoch : s.globalEpoch ≤ u.globalEpoch)
    (stack : u.stack = s.stack) (walked : u.walked = s.walked) : Effect w s a u := by
  refine .quiet slot epoch (fun t => ?_) (fun t e he => ?_) walked
  · rw [stack]
  · rw [stack] at he
    exact .inl he

/-- The activation on top is replaced by others that neither walk nor have loaded an epoch. -/
lemma Effect.replace {f : Frame ν} {g : List (Frame ν)} (hs : s.stack t = f :: fs)
    (slot : u.slot = s.slot) (epoch : u.globalEpoch = s.globalEpoch)
    (stack : u.stack = Function.update s.stack t (g ++ fs)) (hw : walks g = walks [f])
    (hl : loads g = []) (walked : u.walked = s.walked) : Effect w s a u := by
  have split : ∀ as : List (Frame ν), walks (as ++ fs) = walks as ++ walks fs ∧
      loads (as ++ fs) = loads as ++ loads fs := by
    intro as
    exact ⟨List.filterMap_append, List.filterMap_append⟩
  refine .setStack slot epoch stack ?_ ?_ walked
  · rw [hs, (split g).1, hw, ← (split [f]).1]
    rfl
  · intro e he
    rw [(split g).2, hl, List.nil_append] at he
    left
    rw [hs]
    show e ∈ loads ([f] ++ fs)
    rw [(split [f]).2]
    exact List.mem_append_right _ he

/-- Reading an edge leaves the walks and the slots. -/
lemma visit_effect {n d : ν} {outcome : Outcome} {rest : List ν} {began : Nat}
    (hs : s.stack t = .walk n outcome (d :: rest) began :: fs) :
    Effect w s a (s.visit w t outcome d (.walk n outcome rest began :: fs)) := by
  unfold State.visit
  cases outcome with
  | Cancelled =>
    exact .replace (g := [.fire d .Cancelled, .walk n .Cancelled rest began]) hs rfl rfl rfl rfl rfl
      rfl
  | Completed =>
    simp only
    split
    · exact .replace (g := [.fire d .Completed, .walk n .Completed rest began]) hs rfl rfl rfl rfl
        rfl rfl
    · split
      · exact .replace (g := [.fire d .Completed, .walk n .Completed rest began]) hs rfl rfl rfl rfl
          rfl rfl
      · exact .replace (g := [.walk n .Completed rest began]) hs rfl rfl rfl rfl rfl rfl

/-- Deciding what becomes of a node begins no walk. -/
lemma dispatch_effect {n : ν} {outcome : Outcome} (hs : s.stack t = .decide n outcome :: fs) :
    Effect w s a (s.dispatch w t n outcome fs) := by
  unfold State.dispatch
  split
  · exact .replace (g := [.enter n .Cancelled]) hs rfl rfl rfl rfl rfl rfl
  · split
    · exact .replace (g := [.enter n .Completed]) hs rfl rfl rfl rfl rfl rfl
    · exact .replace (g := [.arm n]) hs rfl rfl rfl rfl rfl rfl
    · exact .replace (g := []) hs rfl rfl rfl rfl rfl rfl

/-- What one step of a thread does to the walks and the slots. -/
lemma exec_effect (w : Setup ν θ κ) (s : State ν θ κ) (t : θ) : Effect w s (.exec t) (s.exec w t) := by
  unfold State.exec
  cases hs : s.stack t with
  | nil => exact .same rfl le_rfl rfl rfl
  | cons f fs =>
    cases f with
    | fire n outcome =>
      simp only
      split
      · exact .replace (g := []) hs rfl rfl rfl rfl rfl rfl
      · exact .replace (g := [.decide n outcome]) hs rfl rfl rfl rfl rfl rfl
    | decide n outcome => exact dispatch_effect hs
    | arm n =>
      simp only
      split
      · exact .replace (g := [.enter n .Completed]) hs rfl rfl rfl rfl rfl rfl
      · exact .replace (g := []) hs rfl rfl rfl rfl rfl rfl
    | enter n outcome =>
      refine .setStack (t := t) rfl rfl rfl ?_ (fun e he => ?_) rfl
      · rw [hs]
        rfl
      · rcases List.mem_cons.1 he with rfl | he
        · exact .inr rfl
        · rw [hs]
          exact .inl he
    | announce n outcome e => exact .begins t n outcome e fs rfl hs rfl rfl rfl rfl
    | walk n outcome rest began =>
      cases rest with
      | nil => exact .ends t n outcome began fs hs rfl rfl rfl rfl
      | cons d rest => exact visit_effect hs
    | retire n => exact .replace (g := []) hs rfl rfl rfl rfl rfl rfl

/-- A call of a function of the graph is not a walk yet. -/
lemma call_effect {f : Frame ν} (hw : walks [f] = []) (hl : loads [f] = [])
    (slot : u.slot = s.slot) (epoch : u.globalEpoch = s.globalEpoch)
    (stack : u.stack = (s.call t f).stack) (walked : u.walked = s.walked) : Effect w s a u := by
  have split : walks (f :: s.stack t) = walks [f] ++ walks (s.stack t) ∧
      loads (f :: s.stack t) = loads [f] ++ loads (s.stack t) :=
    ⟨List.filterMap_append (l := [f]), List.filterMap_append (l := [f])⟩
  refine .setStack slot epoch stack ?_ ?_ walked
  · rw [split.1, hw]
    rfl
  · intro e he
    rw [split.2, hl] at he
    exact .inl he

/-- What any step does to the walks and the slots. -/
lemma Step.effect (st : Step w s a u) : Effect w s a u := by
  cases st with
  | submit _ => exact call_effect rfl rfl rfl rfl rfl rfl
  | run _ => exact call_effect rfl rfl rfl rfl rfl rfl
  | discard _ => exact call_effect rfl rfl rfl rfl rfl rfl
  | workerDiscard _ => exact .same rfl le_rfl rfl rfl
  | @signal t n _ =>
    unfold State.signal
    split
    · exact .same rfl le_rfl rfl rfl
    · simp only
      split
      · exact call_effect (t := t) (f := .enter n .Completed) rfl rfl rfl rfl rfl rfl
      · exact .same rfl le_rfl rfl rfl
  | cancel => exact .same rfl le_rfl rfl rfl
  | exec => exact exec_effect w s _
  | advance => exact .same rfl (Nat.le_succ _) rfl rfl
  | scan _ => exact .same rfl le_rfl rfl rfl
  | look =>
    unfold State.look
    split
    · exact .same rfl le_rfl rfl rfl
    · exact .same rfl le_rfl rfl rfl
  | sweep _ => exact .same rfl le_rfl rfl rfl
  | leave _ => exact .same rfl le_rfl rfl rfl

/-! ## The invariant -/

/-- No slot and no guard has an epoch that is still to come. -/
structure Bounded (s : State ν θ κ) : Prop where
  slot : ∀ c e, s.slot c = some e → e ≤ s.globalEpoch
  loads : ∀ t, ∀ e ∈ loads (s.stack t), e ≤ s.globalEpoch

omit [DecidableEq θ] [DecidableEq κ] in
/-- No epoch has been seen yet. -/
lemma Bounded.init (w : Setup ν θ κ) : Bounded (init w) := ⟨nofun, nofun⟩

/-- The epochs that are seen are past or present. -/
lemma Bounded.step (bd : Bounded s) (ef : Effect w s a u) : Bounded u := by
  rcases ef with ⟨slot, epoch, _, lds, _⟩ | ⟨t, n, outcome, e, fs, _, hs, slot, stack, epoch, _⟩ |
    ⟨t, n, outcome, began, fs, hs, slot, stack, epoch, _⟩
  · refine ⟨fun c e h => ?_, fun t e h => ?_⟩
    · rw [slot] at h
      exact (bd.slot c e h).trans epoch
    · rcases lds t e h with h | rfl
      · exact (bd.loads t e h).trans epoch
      · exact epoch
  · have mine : e ∈ TaskDAG.loads (s.stack t) := by
      rw [hs]
      exact List.mem_cons_self
    refine ⟨fun c e' h => ?_, fun t' e' h => ?_⟩
    · rw [epoch]
      rw [slot, Function.update_apply] at h
      split at h
      · cases h
        exact bd.loads t e mine
      · exact bd.slot c e' h
    · rw [epoch]
      rw [stack, Function.update_apply] at h
      split at h
      · apply bd.loads t
        rw [hs]
        exact List.mem_cons_of_mem _ h
      · exact bd.loads t' e' h
  · refine ⟨fun c e' h => ?_, fun t' e' h => ?_⟩
    · rw [epoch]
      rw [slot, Function.update_apply] at h
      split at h
      · cases h
      · exact bd.slot c e' h
    · rw [epoch]
      rw [stack, Function.update_apply] at h
      split at h
      · apply bd.loads t
        rw [hs]
        exact h
      · exact bd.loads t' e' h

/-- In every state the epochs that are seen are past or present. -/
lemma Bounded.of_runs {ok : State ν θ κ → Label ν θ → Prop}
    (rn : Runs (Step w) ok (TaskDAG.init w) s) : Bounded s :=
  rn.invariant (Bounded.init w) fun bd _ st => bd.step st.effect

/-- Every walk is announced, and no two are on one slot. -/
structure Announced (w : Setup ν θ κ) (s : State ν θ κ) : Prop where
  slot : ∀ t n began, (n, began) ∈ walks (s.stack t) →
    began ≤ s.globalEpoch ∧ ∃ e ≤ began, s.slot (w.slotOf t) = some e
  one : ∀ t, (walks (s.stack t)).length ≤ 1
  apart : ∀ t t', w.slotOf t = w.slotOf t' → walks (s.stack t) ≠ [] → walks (s.stack t') ≠ [] → t = t'

/-- The condition on the steps: no guard is constructed on the slot of an unfinished walk. -/
def Alone (w : Setup ν θ κ) (s : State ν θ κ) : Label ν θ → Prop
  | .exec t => ∀ n outcome e fs, s.stack t = .announce n outcome e :: fs →
      ∀ t', w.slotOf t' = w.slotOf t → walks (s.stack t') = []
  | _ => True

omit [DecidableEq θ] [DecidableEq κ] in
/-- There is no walk yet. -/
lemma Announced.init (w : Setup ν θ κ) : Announced w (init w) :=
  ⟨nofun, fun _ => Nat.zero_le _, fun _ _ _ h => absurd rfl h⟩

omit [DecidableEq ν] [DecidableEq θ] [DecidableEq κ] in
/-- A step that begins and ends no walk. -/
lemma Announced.quiet (an : Announced w s) (slot : u.slot = s.slot)
    (epoch : s.globalEpoch ≤ u.globalEpoch) (same : ∀ t, walks (u.stack t) = walks (s.stack t)) :
    Announced w u := by
  refine ⟨fun t n began h => ?_, fun t => ?_, fun t t' => ?_⟩
  · rw [same] at h
    obtain ⟨le, e, he, hslot⟩ := an.slot t n began h
    exact ⟨le.trans epoch, e, he, slot ▸ hslot⟩
  · rw [same]
    exact an.one t
  · rw [same, same]
    exact an.apart t t'

omit [DecidableEq ν] in
/-- A walk begins on a slot that no walk is on. -/
lemma Announced.begins {n : ν} {outcome : Outcome} {e : Nat} (an : Announced w s) (bd : Bounded s)
    (free : ∀ t', w.slotOf t' = w.slotOf t → walks (s.stack t') = [])
    (hs : s.stack t = .announce n outcome e :: fs)
    (slot : u.slot = Function.update s.slot (w.slotOf t) (some e))
    (stack : u.stack = Function.update s.stack t
      (.walk n outcome (w.graph.dependents n) s.globalEpoch :: fs))
    (epoch : u.globalEpoch = s.globalEpoch) : Announced w u := by
  have stack_t : u.stack t = .walk n outcome (w.graph.dependents n) s.globalEpoch :: fs := by
    rw [stack, Function.update_self]
  have stack_ne : ∀ {t'}, t' ≠ t → u.stack t' = s.stack t' := by
    intro t' h
    rw [stack, Function.update_of_ne h]
  have hfs : walks fs = [] := by
    have := free t rfl
    rw [hs] at this
    exact this
  have walks_t : walks (u.stack t) = [(n, s.globalEpoch)] := by
    rw [stack_t]
    show (n, s.globalEpoch) :: walks fs = _
    rw [hfs]
  refine ⟨fun t' m b h => ?_, fun t' => ?_, fun t1 t2 hc h1 h2 => ?_⟩
  · by_cases ht : t' = t
    · rw [ht, walks_t, List.mem_singleton] at h
      cases h
      refine ⟨epoch.ge, e, ?_, ?_⟩
      · apply bd.loads t
        rw [hs]
        exact List.mem_cons_self
      · rw [ht, slot, Function.update_self]
    · rw [stack_ne ht] at h
      obtain ⟨le, e', he', hslot⟩ := an.slot t' m b h
      refine ⟨epoch ▸ le, e', he', ?_⟩
      rw [slot, Function.update_of_ne, hslot]
      intro hc
      rw [free t' hc] at h
      cases h
  · by_cases ht : t' = t
    · rw [ht, walks_t]
      exact le_rfl
    · rw [stack_ne ht]
      exact an.one t'
  · by_cases ht1 : t1 = t
    · by_cases ht2 : t2 = t
      · rw [ht1, ht2]
      · rw [stack_ne ht2] at h2
        exact absurd (free t2 (hc.symm.trans (ht1 ▸ rfl))) h2
    · rw [stack_ne ht1] at h1
      by_cases ht2 : t2 = t
      · exact absurd (free t1 (hc.trans (ht2 ▸ rfl))) h1
      · rw [stack_ne ht2] at h2
        exact an.apart t1 t2 hc h1 h2

omit [DecidableEq ν] in
/-- A walk ends. It was the only one on its slot, so no other loses its announcement. -/
lemma Announced.ends {n : ν} {outcome : Outcome} {began : Nat} (an : Announced w s)
    (hs : s.stack t = .walk n outcome [] began :: fs)
    (slot : u.slot = Function.update s.slot (w.slotOf t) none)
    (stack : u.stack = Function.update s.stack t (.retire n :: fs))
    (epoch : u.globalEpoch = s.globalEpoch) : Announced w u := by
  have stack_t : u.stack t = .retire n :: fs := by rw [stack, Function.update_self]
  have stack_ne : ∀ {t'}, t' ≠ t → u.stack t' = s.stack t' := by
    intro t' h
    rw [stack, Function.update_of_ne h]
  have walks_s : walks (s.stack t) = (n, began) :: walks fs := by
    rw [hs]
    rfl
  have hfs : walks fs = [] := by
    have := an.one t
    rw [walks_s, List.length_cons] at this
    exact List.length_eq_zero_iff.1 (by omega)
  have walks_t : walks (u.stack t) = [] := by
    rw [stack_t]
    exact hfs
  have ne : ∀ {t'}, walks (u.stack t') ≠ [] → t' ≠ t := by
    intro t' h ht
    rw [ht] at h
    exact h walks_t
  refine ⟨fun t' m b h => ?_, fun t' => ?_, fun t1 t2 hc h1 h2 => ?_⟩
  · have ht := ne (List.ne_nil_of_mem h)
    rw [stack_ne ht] at h
    obtain ⟨le, e', he', hslot⟩ := an.slot t' m b h
    refine ⟨epoch ▸ le, e', he', ?_⟩
    rw [slot, Function.update_of_ne, hslot]
    intro hc
    apply ht
    apply an.apart t' t hc (List.ne_nil_of_mem h)
    rw [walks_s]
    nofun
  · by_cases ht : t' = t
    · rw [ht, walks_t]
      exact Nat.zero_le _
    · rw [stack_ne ht]
      exact an.one t'
  · have ht1 := ne h1
    have ht2 := ne h2
    rw [stack_ne ht1] at h1
    rw [stack_ne ht2] at h2
    exact an.apart t1 t2 hc h1 h2

/-- A step under the condition leaves every walk announced. -/
lemma Announced.step (an : Announced w s) (bd : Bounded s) (ok : Alone w s a) (st : Step w s a u) :
    Announced w u := by
  rcases st.effect with ⟨slot, epoch, same, _, _⟩ |
    ⟨t, n, outcome, e, fs, rfl, hs, slot, stack, epoch, _⟩ |
    ⟨t, n, outcome, began, fs, hs, slot, stack, epoch, _⟩
  · exact an.quiet slot epoch same
  · exact an.begins bd (ok n outcome e fs hs) hs slot stack epoch
  · exact an.ends hs slot stack epoch

/-- Every walk of a run under the condition is announced. -/
lemma Announced.of_runs (rn : Runs (Step w) (Alone w) (TaskDAG.init w) s) : Announced w s := by
  induction rn with
  | refl => exact .init w
  | tail rn ok st ih => exact ih.step (.of_runs rn) ok st

/-- Where no guard is constructed on the slot of an unfinished walk, every walk in progress is announced
with an epoch no later than the one in which it began. -/
theorem walks_stay_announced (rn : Runs (Step w) (Alone w) (init w) s) (t : θ) {n : ν} {began : Nat}
    (walking : (n, began) ∈ walks (s.stack t)) :
    ∃ e ≤ began, s.slot (w.slotOf t) = some e :=
  ((Announced.of_runs rn).slot t n began walking).2

/-- The edges of the example go up. -/
lemma gated_acyclic :
    ∃ rank : Nat → Nat, ∀ m, ∀ n ∈ if m = 0 then [1, 2] else [], rank m < rank n := by
  refine ⟨id, fun m n h => ?_⟩
  split at h
  · subst m
    rcases List.mem_cons.1 h with rfl | h
    · decide
    · rw [List.mem_singleton.1 h]
      decide
  · cases h

/-- The only slot is registered. -/
lemma unit_registered (c : Unit) : c ∈ [()] := List.mem_singleton.2 rfl

/-- A task with a gate and a task that depend on it. -/
def gated : Setup Nat Unit Unit where
  graph :=
    { nodes := [0, 1, 2]
      dependents := fun n => if n = 0 then [1, 2] else []
      kind := fun n => if n = 1 then .gate else .task
      gateType := fun _ => .AND
      acyclic := gated_acyclic }
  slotOf := fun _ => ()
  participants := [()]
  registered := unit_registered

/-- The task of the example walks its dependents, and its slot holds an epoch. -/
theorem walks_stay_announced_gated :
    ∃ s, Runs (Step gated) (Alone gated) (init gated) s ∧ (0, 0) ∈ walks (s.stack ()) ∧
      ∃ e ≤ 0, s.slot () = some e := by
  have r : Runs (Step gated) (Alone gated) (init gated) _ := .refl
  have r1 := r.next (.submit ()) trivial (.submit rfl)
  have r2 := r1.next (.exec ()) nofun .exec
  have r3 := r2.next (.exec ()) nofun .exec
  have r4 := r3.next (.run () 0) trivial (.run rfl)
  have r5 := r4.next (.exec ()) nofun .exec
  have r6 := r5.next (.exec ()) (fun _ _ _ _ _ _ _ => rfl) .exec
  refine ⟨_, r6, List.mem_singleton.2 rfl, ?_⟩
  exact walks_stay_announced r6 () (List.mem_singleton.2 rfl)

/-- The walk of node 0 completes the gate on the spot. The gate's own walk clears the slot, and the walk
of node 0 has the edge to node 2 still to read, with nothing announced. -/
theorem gate_clears_the_slot :
    ∃ s, Reaches (Step gated) (init gated) s ∧ .walk 0 .Completed [2] 0 ∈ s.stack () ∧
      (0, 0) ∈ walks (s.stack ()) ∧ s.slot () = none := by
  have r : Reaches (Step gated) (init gated) _ := .refl
  have r1 := r.next (.submit ()) trivial (.submit rfl)
  have r2 := r1.next (.exec ()) trivial .exec
  have r3 := r2.next (.exec ()) trivial .exec
  have r4 := r3.next (.run () 0) trivial (.run rfl)
  have r5 := r4.next (.exec ()) trivial .exec
  have r6 := r5.next (.exec ()) trivial .exec
  -- the edge to the gate, and the gate's own completion
  have r7 := r6.next (.exec ()) trivial .exec
  have r8 := r7.next (.exec ()) trivial .exec
  have r9 := r8.next (.exec ()) trivial .exec
  have r10 := r9.next (.exec ()) trivial .exec
  have r11 := r10.next (.exec ()) trivial .exec
  have r12 := r11.next (.exec ()) trivial .exec
  exact ⟨_, r12, List.mem_cons_of_mem _ (List.mem_singleton.2 rfl), List.mem_singleton.2 rfl, rfl⟩

end JLib.TaskDAG
