import JLib.TaskDAG.Book

/-!
# The entry of every node

`Right` is the entry that goes with a location. A step moves at most one node, and what it notes of that
node is what the new location asks for; that a node is not at two locations keeps the other entries right.
-/

namespace JLib.TaskDAG
open LTS State

variable {ν θ κ : Type} [DecidableEq ν] {w : Setup ν θ κ} {g : Graph ν}
  {s u : State ν θ κ} {a : Label ν θ} {t : θ} {n m : ν} {f : Frame ν} {fs l : List (Frame ν)}
  {b c : Book ν} {e : Entry ν} {j k : Loc ν}

/-- The entry of a node that has reached `OnTaskFinished`. -/
structure Finished (g : Graph ν) (n : ν) (outcome : Outcome) (e : Entry ν) : Prop where
  once : e.finished = 1
  result : e.outcome = some outcome
  task : g.kind n = .task → e.pushed + e.disposed = 1 ∧ e.released + e.owing.toNat = 1
  ran : outcome = .Cancelled → e.ran = 0

def Right (g : Graph ν) (n : ν) : Loc ν → Entry ν → Prop
  | .idle, e => e = {}
  | .firing, e => e = {}
  | .arming, e => e = {} ∧ g.kind n = .external
  | .waiting, e => e = {} ∧ g.kind n = .external
  | .task, e => e = { pushed := 1 } ∧ g.kind n = .task
  | .lost, e => e = { pushed := 1, released := 1 } ∧ g.kind n = .task
  | .ending outcome rest, e => Finished g n outcome e ∧ e.seen ++ rest = g.dependents n
  | .ended, e => (∃ outcome, Finished g n outcome e) ∧ e.seen = g.dependents n

def Books (g : Graph ν) (s : State ν θ κ) (b : Book ν) : Prop :=
  ∀ n k, At g s n k → Right g n k (b n)

/-- What a step does to the locations and the entries. -/
inductive Shift (g : Graph ν) (s u : State ν θ κ) (b c : Book ν) : Prop where
  | stays :
    (∀ m k, At g u m k → At g s m k) →
    c = b →
    Shift g s u b c
  | moves (n : ν) (j k : Loc ν) (e : Entry ν) :
    At g s n j →
    At g u n k →
    (∀ m, m ≠ n → ∀ k, At g u m k → At g s m k) →
    c = Function.update b n e →
    (Right g n j (b n) → Right g n k e) →
    Shift g s u b c

/-- Whatever a step does to the locations, the entries are right for them. -/
lemma Books.shift (bk : Books g s b) (stk : Stock (held u) u.submitted u.walked)
    (sh : Shift g s u b c) : Books g u c := by
  intro m k' h
  cases sh with
  | stays back book =>
    rw [book]
    exact bk m k' (back m k' h)
  | moves n j k e here there back book right =>
    rw [book, Function.update_apply]
    split
    · rename_i eq
      subst eq
      cases h.unique stk there
      exact right (bk m j here)
    · exact bk m k' (back m ‹_› k' h)

/-! ## The steps -/

/-- The flags of a node that say where it is. -/
structure SameFlags (s u : State ν θ κ) (m : ν) : Prop where
  submitted : u.submitted m = s.submitted m
  dispatched : u.dispatched m = s.dispatched m
  armed : u.armed m = s.armed m
  signalled : u.signalled m = s.signalled m
  walked : u.walked m = s.walked m
  discarded : u.discarded m = s.discarded m

variable [DecidableEq θ]

omit [DecidableEq ν] [DecidableEq θ] in
/-- The activation on top of a stack owns the node. -/
lemma At.top (hs : s.stack t = f :: fs) (h : f.loc g = some (n, k)) : At g s n k := by
  refine .frame (t := t) ?_ h
  rw [hs]
  exact List.mem_cons_self

omit [DecidableEq ν] in
/-- A node is where the new top of the stack places it. -/
lemma At.pushed (stack : u.stack = Function.update s.stack t (f :: fs)) (h : f.loc g = some (n, k)) :
    At g u n k := by
  have here : u.stack t = f :: fs := by rw [stack, Function.update_self]
  exact .top here h

omit [DecidableEq ν] [DecidableEq θ] in
/-- What is below the top is on the stack. -/
lemma below_of_top (hs : s.stack t = f :: fs) : ∀ h ∈ fs, h ∈ s.stack t := by
  intro h hh
  rw [hs]
  exact List.mem_cons_of_mem f hh

omit [DecidableEq ν] in
/-- A node's location is not new where its flags are the same and no new activation owns it. -/
lemma At.back (h : At g u m k) (stack : u.stack = Function.update s.stack t (l ++ fs))
    (below : ∀ f ∈ fs, f ∈ s.stack t)
    (top : ∀ f ∈ l, ∀ k, f.loc g = some (m, k) → At g s m k) (same : SameFlags s u m) : At g s m k := by
  cases h with
  | idle h => exact .idle (same.submitted ▸ h)
  | @frame t' f k hf h =>
    rw [stack, Function.update_apply] at hf
    split at hf
    · rcases List.mem_append.1 hf with hf | hf
      · exact top f hf k h
      · exact .frame (below f hf) h
    · exact .frame hf h
  | waiting h h' => exact .waiting (same.armed ▸ h) (same.signalled ▸ h')
  | task h => exact .task (same.dispatched ▸ h)
  | lost h => exact .lost (same.discarded ▸ h)
  | ended h => exact .ended (same.walked ▸ h)

/-- One node moves. -/
lemma Shift.goes (here : At g s n j) (there : At g u n k)
    (stack : u.stack = Function.update s.stack t (l ++ fs)) (below : ∀ f ∈ fs, f ∈ s.stack t)
    (top : ∀ f ∈ l, f.loc g = none ∨ ∃ k, f.loc g = some (n, k))
    (same : ∀ m, m ≠ n → SameFlags s u m) (book : c = Function.update b n e)
    (right : Right g n j (b n) → Right g n k e) : Shift g s u b c := by
  refine .moves n j k e here there (fun m ne k' h => ?_) book right
  refine h.back stack below (fun f hf k' hk => ?_) (same m ne)
  rcases top f hf with none | ⟨i, own⟩
  · rw [none] at hk
    cases hk
  · rw [own] at hk
    cases hk
    exact absurd rfl ne

/-- The activation on top is replaced by others, at most one of them at its own location. -/
lemma Shift.keeps (hs : s.stack t = f :: fs) (stack : u.stack = Function.update s.stack t (l ++ fs))
    (top : ∀ h ∈ l, h.loc g = none ∨ h.loc g = f.loc g) (same : ∀ m, SameFlags s u m) (book : c = b) :
    Shift g s u b c := by
  refine .stays (fun m k h => ?_) book
  refine h.back stack (below_of_top hs) (fun h hh k' hk => ?_) (same m)
  rcases top h hh with none | eq
  · rw [none] at hk
    cases hk
  · exact .top hs (eq ▸ hk)

omit [DecidableEq θ] in
/-- Nothing that a location depends on changes. -/
lemma Shift.same (stack : u.stack = s.stack) (flags : ∀ m, SameFlags s u m) (book : c = b) :
    Shift g s u b c := by
  refine .stays (fun m k h => ?_) book
  cases h with
  | idle h => exact .idle ((flags m).submitted ▸ h)
  | frame hf h => exact .frame (stack ▸ hf) h
  | waiting h h' => exact .waiting ((flags m).armed ▸ h) ((flags m).signalled ▸ h')
  | task h => exact .task ((flags m).dispatched ▸ h)
  | lost h => exact .lost ((flags m).discarded ▸ h)
  | ended h => exact .ended ((flags m).walked ▸ h)

omit [DecidableEq ν] in
/-- A taskless node that was not finished before. -/
lemma Finished.of_fresh {outcome : Outcome} (kind : g.kind n ≠ .task) :
    Finished g n outcome (({} : Entry ν).finish outcome) :=
  ⟨rfl, rfl, fun h => absurd h kind, fun _ => rfl⟩

/-- Reading an edge adds it to the entry. -/
lemma visit_shift {d : ν} {outcome : Outcome} {rest : List ν} {began : Nat}
    (hs : s.stack t = .walk n outcome (d :: rest) began :: fs)
    (book : c = Function.update b n { b n with seen := (b n).seen ++ [d] }) :
    Shift w.graph s (s.visit w t outcome d (.walk n outcome rest began :: fs)) b c := by
  have here : At w.graph s n (.ending outcome (d :: rest)) := .top hs rfl
  have below := below_of_top hs
  have right : Right w.graph n (.ending outcome (d :: rest)) (b n) →
      Right w.graph n (.ending outcome rest) { b n with seen := (b n).seen ++ [d] } := by
    rintro ⟨fin, eq⟩
    refine ⟨⟨fin.once, fin.result, fin.task, fin.ran⟩, ?_⟩
    rw [List.append_assoc]
    exact eq
  have own : ∀ f ∈ [Frame.walk n outcome rest began],
      f.loc w.graph = none ∨ ∃ k, f.loc w.graph = some (n, k) := by
    intro f hf
    rw [List.mem_singleton.1 hf]
    exact .inr ⟨_, rfl⟩
  have fires : ∀ o, ∀ f ∈ [Frame.fire d o, .walk n outcome rest began],
      f.loc w.graph = none ∨ ∃ k, f.loc w.graph = some (n, k) := by
    intro o f hf
    rcases List.mem_cons.1 hf with rfl | hf
    · exact .inl rfl
    · exact own f hf
  -- the walk is on top of the stack, or right below the activation that it pushes
  have there : ∀ {v : State ν θ κ} {l : List (Frame ν)},
      v.stack = Function.update s.stack t (l ++ .walk n outcome rest began :: fs) →
      At w.graph v n (.ending outcome rest) := by
    intro v l stack
    refine .frame (t := t) (f := .walk n outcome rest began) ?_ rfl
    rw [stack, Function.update_self]
    exact List.mem_append_right l List.mem_cons_self
  unfold State.visit
  cases outcome with
  | Cancelled =>
    exact .goes here (there (l := [.fire d .Cancelled]) rfl) rfl below (fires .Cancelled)
      (fun _ _ => ⟨rfl, rfl, rfl, rfl, rfl, rfl⟩) book right
  | Completed =>
    simp only
    split
    · exact .goes here (there (l := [.fire d .Completed]) rfl) rfl below (fires .Completed)
        (fun _ _ => ⟨rfl, rfl, rfl, rfl, rfl, rfl⟩) book right
    · split
      · exact .goes here (there (l := [.fire d .Completed]) rfl) rfl below (fires .Completed)
          (fun _ _ => ⟨rfl, rfl, rfl, rfl, rfl, rfl⟩) book right
      · exact .goes here (there (l := []) rfl) rfl below own
          (fun _ _ => ⟨rfl, rfl, rfl, rfl, rfl, rfl⟩) book right

/-- A node that is dispatched comes on, and its entry with it. -/
lemma dispatch_shift {outcome : Outcome} (hs : s.stack t = .decide n outcome :: fs) :
    Shift w.graph s (s.dispatch w t n outcome fs) b (note w s b (.exec t)) := by
  have here : At w.graph s n .firing := .top hs rfl
  have below := below_of_top hs
  have one : ∀ {f : Frame ν} {k : Loc ν}, f.loc w.graph = some (n, k) →
      ∀ h ∈ [f], h.loc w.graph = none ∨ ∃ k, h.loc w.graph = some (n, k) := by
    intro f k hk h hh
    rw [List.mem_singleton.1 hh]
    exact .inr ⟨k, hk⟩
  unfold State.dispatch
  by_cases off : s.cancelled = true ∨ outcome = .Cancelled
  · rw [if_pos off]
    have book : note w s b (.exec t) = Function.update b n
        ((if w.graph.kind n = .task then (b n).dispose else b n).finish .Cancelled) := by
      simp only [note, hs, if_pos off]
    refine .goes (l := [.enter n .Cancelled]) here (.pushed rfl rfl) rfl below (one rfl)
      (fun _ _ => ⟨rfl, rfl, rfl, rfl, rfl, rfl⟩) book fun fresh => ?_
    rw [show b n = {} from fresh]
    split
    · exact ⟨⟨rfl, rfl, fun _ => ⟨rfl, rfl⟩, fun _ => rfl⟩, rfl⟩
    · exact ⟨.of_fresh ‹_›, rfl⟩
  · rw [if_neg off]
    cases kind : w.graph.kind n with
    | gate =>
      have book : note w s b (.exec t) = Function.update b n ((b n).finish .Completed) := by
        simp only [note, hs, if_neg off, kind]
      refine .goes (l := [.enter n .Completed]) here (.pushed rfl rfl) rfl below (one rfl)
        (fun _ _ => ⟨rfl, rfl, rfl, rfl, rfl, rfl⟩) book fun fresh => ?_
      rw [show b n = {} from fresh]
      refine ⟨.of_fresh ?_, rfl⟩
      rw [kind]
      rintro ⟨⟩
    | external =>
      have book : note w s b (.exec t) = Function.update b n (b n) := by
        simp only [note, hs, if_neg off, kind, Function.update_eq_self]
      exact .goes (l := [.arm n]) here (.pushed rfl rfl) rfl below (one rfl)
        (fun _ _ => ⟨rfl, rfl, rfl, rfl, rfl, rfl⟩) book fun fresh => ⟨fresh, kind⟩
    | task =>
      have book : note w s b (.exec t) =
          Function.update b n { b n with pushed := (b n).pushed + 1 } := by
        simp only [note, hs, if_neg off, kind]
      refine .goes (l := []) (k := .task) here (.task (Function.update_self ..)) rfl below
        (fun h hh => absurd hh List.not_mem_nil)
        (fun m ne => ⟨rfl, Function.update_of_ne ne .., rfl, rfl, rfl, rfl⟩) book fun fresh => ?_
      rw [show b n = {} from fresh]
      exact ⟨rfl, kind⟩

/-- An external node is armed, and finished if its signal has come. -/
lemma arm_shift (hs : s.stack t = .arm n :: fs) :
    Shift w.graph s
      { s.setStack t (if s.signalled n then .enter n .Completed :: fs else fs) with
        armed := Function.update s.armed n true } b (note w s b (.exec t)) := by
  have here : At w.graph s n .arming := .top hs rfl
  have same : ∀ m, m ≠ n → Function.update s.armed n true m = s.armed m :=
    fun m ne => Function.update_of_ne ne ..
  cases told : s.signalled n with
  | true =>
    have book : note w s b (.exec t) = Function.update b n ((b n).finish .Completed) := by
      simp only [note, hs, told, if_true]
    refine .goes (l := [.enter n .Completed]) here (.pushed rfl rfl) rfl (below_of_top hs)
      (fun h hh => ?_) (fun m ne => ⟨rfl, rfl, same m ne, rfl, rfl, rfl⟩) book ?_
    · rw [List.mem_singleton.1 hh]
      exact .inr ⟨_, rfl⟩
    · rintro ⟨fresh, kind⟩
      rw [fresh]
      refine ⟨.of_fresh ?_, rfl⟩
      rw [kind]
      rintro ⟨⟩
  | false =>
    have book : note w s b (.exec t) = Function.update b n (b n) := by
      simp only [note, hs, told, Function.update_eq_self]
      rfl
    exact .goes (l := []) here (.waiting (Function.update_self ..) told) rfl (below_of_top hs)
      (fun h hh => absurd hh List.not_mem_nil) (fun m ne => ⟨rfl, rfl, same m ne, rfl, rfl, rfl⟩) book id

/-- What one step of a thread does to the locations and the entries. -/
lemma exec_shift [DecidableEq κ] (w : Setup ν θ κ) (s : State ν θ κ) (t : θ) (b : Book ν) :
    Shift w.graph s (s.exec w t) b (note w s b (.exec t)) := by
  cases hs : s.stack t with
  | nil =>
    have idle : s.exec w t = s := by simp only [State.exec, hs]
    rw [idle]
    exact .same rfl (fun _ => ⟨rfl, rfl, rfl, rfl, rfl, rfl⟩) (by simp only [note, hs])
  | cons f fs =>
    have none : ∀ h ∈ ([] : List (Frame ν)), h.loc w.graph = none ∨ h.loc w.graph = f.loc w.graph :=
      fun _ hh => absurd hh List.not_mem_nil
    have one : ∀ {h : Frame ν}, h.loc w.graph = f.loc w.graph →
        ∀ h' ∈ [h], h'.loc w.graph = Option.none ∨ h'.loc w.graph = f.loc w.graph := by
      intro h eq h' hh
      rw [List.mem_singleton.1 hh]
      exact .inr eq
    cases f with
    | fire n outcome =>
      have book : note w s b (.exec t) = b := by simp only [note, hs]
      cases first : s.submitted n with
      | true =>
        simp only [State.exec, hs, first, if_true]
        exact .keeps hs (l := []) rfl none (fun _ => ⟨rfl, rfl, rfl, rfl, rfl, rfl⟩) book
      | false =>
        simp only [State.exec, hs, first]
        refine .goes (l := [.decide n outcome]) (n := n) (e := b n) (.idle first) (.pushed rfl rfl) rfl
          (below_of_top hs) (fun h hh => ?_)
          (fun m ne => ⟨Function.update_of_ne ne .., rfl, rfl, rfl, rfl, rfl⟩) ?_ id
        · rw [List.mem_singleton.1 hh]
          exact .inr ⟨_, rfl⟩
        · rw [book, Function.update_eq_self]
    | decide n outcome =>
      simp only [State.exec, hs]
      exact dispatch_shift hs
    | arm n =>
      simp only [State.exec, hs]
      exact arm_shift hs
    | enter n outcome =>
      simp only [State.exec, hs]
      exact .keeps hs (l := [.announce n outcome s.globalEpoch]) rfl (one rfl)
        (fun _ => ⟨rfl, rfl, rfl, rfl, rfl, rfl⟩) (by simp only [note, hs])
    | announce n outcome e =>
      simp only [State.exec, hs]
      exact .keeps hs (l := [.walk n outcome (w.graph.dependents n) s.globalEpoch]) rfl (one rfl)
        (fun _ => ⟨rfl, rfl, rfl, rfl, rfl, rfl⟩) (by simp only [note, hs])
    | walk n outcome rest began =>
      cases rest with
      | nil =>
        simp only [State.exec, hs]
        refine .goes (l := [.retire n]) (n := n) (e := b n) (.top hs rfl)
          (.ended (Function.update_self ..)) rfl (below_of_top hs) (fun h hh => ?_)
          (fun m ne => ⟨rfl, rfl, rfl, rfl, Function.update_of_ne ne .., rfl⟩) ?_ ?_
        · rw [List.mem_singleton.1 hh]
          exact .inl rfl
        · simp only [note, hs, Function.update_eq_self]
        · rintro ⟨fin, eq⟩
          exact ⟨⟨outcome, fin⟩, by rwa [List.append_nil] at eq⟩
      | cons d rest =>
        simp only [State.exec, hs]
        exact visit_shift hs (by simp only [note, hs])
    | retire n =>
      simp only [State.exec, hs]
      exact .keeps hs (l := []) rfl none (fun _ => ⟨rfl, rfl, rfl, rfl, rfl, rfl⟩) (by simp only [note, hs])

/-- A function that ends in `OnTaskFinished` is called. -/
lemma call_shift {outcome : Outcome} (here : At g s n j)
    (stack : u.stack = (s.call t (.enter n outcome)).stack) (same : ∀ m, m ≠ n → SameFlags s u m)
    (book : c = Function.update b n e)
    (right : Right g n j (b n) → Finished g n outcome e ∧ e.seen = []) : Shift g s u b c := by
  refine .goes (l := [.enter n outcome]) here (.pushed stack rfl) stack (fun _ hf => hf)
    (fun f hf => ?_) same book fun h => ?_
  · rw [List.mem_singleton.1 hf]
    exact .inr ⟨_, rfl⟩
  · obtain ⟨fin, none⟩ := right h
    refine ⟨fin, ?_⟩
    rw [none]
    rfl

/-- A signal ends the wait of its node, if it waited. -/
lemma signal_shift (w : Setup ν θ κ) (s : State ν θ κ) (t : θ) (n : ν) (b : Book ν) :
    Shift w.graph s (s.signal t n) b (note w s b (.signal t n)) := by
  unfold State.signal
  cases told : s.signalled n with
  | true =>
    refine .same rfl (fun _ => ⟨rfl, rfl, rfl, rfl, rfl, rfl⟩) ?_
    simp only [note, told]
    rfl
  | false =>
    have other : ∀ m, m ≠ n → Function.update s.signalled n true m = s.signalled m :=
      fun m ne => Function.update_of_ne ne ..
    cases armed : s.armed n with
    | true =>
      refine call_shift (.waiting armed told) rfl (fun m ne => ⟨rfl, rfl, rfl, other m ne, rfl, rfl⟩)
        (e := (b n).finish .Completed) ?_ ?_
      · simp only [note, told, armed, and_self, if_true]
      · rintro ⟨fresh, kind⟩
        rw [fresh]
        refine ⟨.of_fresh ?_, rfl⟩
        rw [kind]
        rintro ⟨⟩
    | false =>
      refine .stays (fun m k h => ?_) ?_
      · cases h with
        | idle h => exact .idle h
        | frame hf h => exact .frame hf h
        | @waiting armed' late =>
          have ne : m ≠ n := by
            rintro rfl
            exact absurd (armed.symm.trans armed') (by decide)
          exact .waiting armed' (other m ne ▸ late)
        | task h => exact .task h
        | lost h => exact .lost h
        | ended h => exact .ended h
      · simp only [note, told, armed]
        rfl

variable [DecidableEq κ]

/-- What any step does to the locations and the entries. -/
lemma Step.shift (st : Step w s a u) (b : Book ν) : Shift w.graph s u b (note w s b a) := by
  have off : ∀ {n m : ν}, m ≠ n → Function.update s.dispatched n false m = s.dispatched m :=
    fun ne => Function.update_of_ne ne ..
  cases st with
  | @submit t r rs _ =>
    refine .stays (fun m k h => ?_) rfl
    refine h.back (t := t) (l := [.fire r .Completed]) rfl (fun _ hf => hf) (fun f hf k hk => ?_)
      ⟨rfl, rfl, rfl, rfl, rfl, rfl⟩
    rw [List.mem_singleton.1 hf] at hk
    cases hk
  | @run t n task =>
    refine call_shift (.task task) rfl (fun m ne => ⟨rfl, off ne, rfl, rfl, rfl, rfl⟩) rfl ?_
    rintro ⟨sent, _⟩
    rw [sent]
    exact ⟨⟨rfl, rfl, fun _ => ⟨rfl, rfl⟩, nofun⟩, rfl⟩
  | @discard t n task =>
    refine call_shift (.task task) rfl (fun m ne => ⟨rfl, off ne, rfl, rfl, rfl, rfl⟩) rfl ?_
    rintro ⟨sent, _⟩
    rw [sent]
    exact ⟨⟨rfl, rfl, fun _ => ⟨rfl, rfl⟩, fun _ => rfl⟩, rfl⟩
  | @workerDiscard n task =>
    refine .moves n .task .lost { b n with released := (b n).released + 1 } (.task task)
      (.lost (Function.update_self ..)) (fun m ne k h => ?_) rfl ?_
    · cases h with
      | idle h => exact .idle h
      | frame hf h => exact .frame hf h
      | waiting h h' => exact .waiting h h'
      | task h => exact .task ((off ne).symm.trans h)
      | lost h => exact .lost ((Function.update_of_ne ne ..).symm.trans h)
      | ended h => exact .ended h
    · rintro ⟨sent, kind⟩
      rw [sent]
      exact ⟨rfl, kind⟩
  | signal _ => exact signal_shift w s _ _ b
  | exec => exact exec_shift w s _ b
  | look =>
    unfold State.look
    split
    · exact .same rfl (fun _ => ⟨rfl, rfl, rfl, rfl, rfl, rfl⟩) rfl
    · exact .same rfl (fun _ => ⟨rfl, rfl, rfl, rfl, rfl, rfl⟩) rfl
  | _ => exact .same rfl (fun _ => ⟨rfl, rfl, rfl, rfl, rfl, rfl⟩) rfl

/-! ## The runs -/

variable {x y : Tracked ν θ κ} {ok : Tracked ν θ κ → Act ν θ → Prop}

/-- Where a graph with a book starts. -/
def start (w : Setup ν θ κ) : Tracked ν θ κ := { dag := init w }

/-- A run with a book is a run of the graph. -/
lemma dag_reaches (rn : Runs (Turn w) ok (start w) x) : Reaches (Step w) (init w) x.dag := by
  induction rn with
  | refl => exact .refl
  | tail _ _ tn ih =>
    cases tn with
    | step st => exact ih.tail trivial st
    | release _ _ => exact ih

/-- The nodes that were fired and not walked are at one place each. -/
lemma stock_of_turns (rn : Runs (Turn w) ok (start w) x) :
    Stock (held x.dag) x.dag.submitted x.dag.walked :=
  stock_of_runs (dag_reaches rn)

omit [DecidableEq θ] [DecidableEq κ] in
/-- The caller of `OnTaskFinished` decrements the `WaitGroup` that it owes. -/
lemma Books.release (bk : Books g s b) (owing : (b n).owing = true) :
    Books g s (Function.update b n
      { b n with owing := false, released := (b n).released + 1 }) := by
  intro m k h
  have right := bk m k h
  rw [Function.update_apply]
  split
  · rename_i eq
    subst eq
    have fin : ∀ {outcome}, Finished g m outcome (b m) →
        Finished g m outcome { b m with owing := false, released := (b m).released + 1 } := by
      intro outcome fin
      refine ⟨fin.once, fin.result, fun kind => ?_, fin.ran⟩
      obtain ⟨task, group⟩ := fin.task kind
      rw [owing] at group
      exact ⟨task, group⟩
    have stale : ∀ {e}, b m = e → e.owing = false → False := by
      intro e eq off
      rw [eq, off] at owing
      cases owing
    cases k with
    | idle => exact (stale right rfl).elim
    | firing => exact (stale right rfl).elim
    | arming => exact (stale right.1 rfl).elim
    | waiting => exact (stale right.1 rfl).elim
    | task => exact (stale right.1 rfl).elim
    | lost => exact (stale right.1 rfl).elim
    | ending outcome rest => exact ⟨fin right.1, right.2⟩
    | ended =>
      obtain ⟨⟨outcome, h⟩, seen⟩ := right
      exact ⟨⟨outcome, fin h⟩, seen⟩
  · exact right

/-- In every state the entries are right for the locations. -/
lemma Books.of_runs (rn : Runs (Turn w) ok (start w) x) : Books w.graph x.dag x.book := by
  induction rn with
  | refl =>
    intro n k h
    rcases h.spot with ⟨rfl, _⟩ | ⟨_, h⟩ | ⟨p, sp⟩
    · rfl
    · cases h
    · have h := sp.held
      cases p <;> cases h
  | tail rn hok tn ih =>
    cases tn with
    | step st => exact ih.shift (stock_of_turns (rn.tail hok (.step st))) (st.shift _)
    | release owing _ => exact ih.release owing

end JLib.TaskDAG
