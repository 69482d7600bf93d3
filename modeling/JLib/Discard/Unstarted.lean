import JLib.Discard.Model

/-!
# A task cancelled before it runs

A dispatch discards a cancelled task iff `started` is not set, and `started` stands for "the body has begun".
It is set before the fiber is acquired, so a task that got no fiber counts as started although nothing of it
has run. The copy of the discard in `Thread::Worker` compares `fn` with a function that nothing installs, so it
leaves the node of a graph alone.
-/

namespace JLib.Discard
open LTS Dispatch TaskDAG

/-- The wrapper a discard at the site compares `fn` with. -/
def Site.wrapper : Site → Fn
  | .worker _ => .threadWrapper
  | _ => .dagWrapper

variable {ν : Type} {k : Task ν} {s s' : State ν} {e : Env} {site : Site} {wrapper : Fn} {l : Label}

/-- The task is thrown away: its node, if it has one, is told so once, its `WaitGroup` is decremented once, its
slot is freed once, nothing of its body has run, and nothing happens to it any more. -/
structure Discarded [DecidableEq ν] (k : Task ν) (s : State ν) : Prop where
  gone : s.place = .gone
  body : .body ∉ s.log
  node : ∀ n o, s.log.count (.finished n o) = if k.node = some n ∧ o = .Cancelled then 1 else 0
  waitGroup : s.log.count .decrement = if k.waitGroup then 1 else 0
  free : s.log.count .free = 1
  last : ∀ {s'}, Reaches (Step k) s s' → s' = s

/-- What a task that is not gone has behind it. -/
structure Tracked (s : State ν) : Prop where
  begun : s.place ≠ .gone → .body ∈ s.log → s.started = true
  fiber : s.place ≠ .gone → s.assignedFiber = true → .body ∈ s.log
  fresh : s.place ≠ .gone → .body ∉ s.log → s.log = []
  refused : s.place ≠ .gone → .body ∉ s.log → (s.started = true ↔ 0 < s.refused)

namespace Tracked

/-- Nothing is asked of a task that is gone. -/
lemma of_gone (gone : s.place = .gone) : Tracked s :=
  ⟨fun h => absurd gone h, fun h => absurd gone h, fun h => absurd gone h, fun h => absurd gone h⟩

/-- The body has begun. -/
lemma of_body (started : s.started = true) (body : .body ∈ s.log) : Tracked s :=
  ⟨fun _ _ => started, fun _ _ => body, fun _ no => absurd body no, fun _ no => absurd body no⟩

end Tracked

/-- What is not discarded had started or is not cancelled. -/
lemma discardIfCancelled_none (h : s.discardIfCancelled k wrapper e = none) :
    s.started = true ∨ e.world.isTaskCancelled () = false := by
  unfold State.discardIfCancelled at h
  split at h
  · cases h
  · rename_i c
    cases started : s.started with
    | true => exact .inl rfl
    | false => exact .inr (Bool.eq_false_iff.2 fun can => c ⟨started, can⟩)

/-- What is discarded had not started and is cancelled. -/
lemma discardIfCancelled_some (h : s.discardIfCancelled k wrapper e = some s') :
    s.started = false ∧ e.world.isTaskCancelled () = true ∧
      s' = { s with
        place := .gone
        log := s.log ++ (k.discarded wrapper ++ k.release e.n ++ k.dispose) } := by
  unfold State.discardIfCancelled at h
  split at h
  · rename_i c
    cases h
    exact ⟨c.1, c.2, rfl⟩
  · cases h

/-- A task that is executed is gone and has its body behind it. -/
lemma executed_body (k : Task ν) (e : Env) (s : State ν) :
    (s.executed k e).place = .gone ∧ .body ∈ (s.executed k e).log :=
  ⟨rfl, List.mem_append_right _ (List.mem_append_left _ (List.mem_append_left _ List.mem_cons_self))⟩

/-- The ends of a dispatch: the task is discarded, its body is run on the spot, it is switched to, or it goes
back to a queue for want of a fiber. -/
inductive Ends (k : Task ν) (e : Env) (s : State ν) (site : Site) : State ν → Prop where
  | discards :
    s.started = false →
    e.world.isTaskCancelled () = true →
    Ends k e s site
      { s with
        place := .gone
        log := s.log ++ (k.discarded site.wrapper ++ k.release e.n ++ k.dispose) }
  | executes {s' : State ν} :
    s.started = true ∨ e.world.isTaskCancelled () = false →
    s'.place = .gone →
    .body ∈ s'.log →
    Ends k e s site s'
  | switches :
    s.started = true ∨ e.world.isTaskCancelled () = false →
    Ends k e s site ({ s with started := true }.switched k e)
  | refuses :
    s.started = true ∨ e.world.isTaskCancelled () = false →
    s.assignedFiber = false →
    Ends k e s site { s with started := true, refused := s.refused + 1 }

/-- The sites that run the task on the spot. -/
lemma ends_here {k' : Task ν} (h : site.wrapper = .dagWrapper) :
    Ends k e s site
      (match s.discardIfCancelled k .dagWrapper e with
        | some s' => s'
        | none => s.executed k' e) := by
  split
  · rename_i s' some
    obtain ⟨started, can, rfl⟩ := discardIfCancelled_some some
    rw [← h]
    exact .discards started can
  · rename_i none
    obtain ⟨gone, body⟩ := executed_body k' e s
    exact .executes (discardIfCancelled_none none) gone body

/-- A dispatch has one of these ends. -/
lemma ends_dispatch (k : Task ν) (e : Env) (s : State ν) (site : Site) : Ends k e s site (s.dispatch k e site) := by
  cases site with
  | main | drain | help => exact ends_here rfl
  | worker isReservedWorker =>
    change Ends k e s _ (s.worker k isReservedWorker e)
    unfold State.worker
    split
    · rename_i s' some
      obtain ⟨started, can, rfl⟩ := discardIfCancelled_some some
      exact .discards started can
    · rename_i none
      have not := discardIfCancelled_none none
      change Ends k e s _ (if k.type = .Native ∧ isReservedWorker = false then _ else _)
      split
      · obtain ⟨gone, body⟩ := executed_body k e { s with started := true }
        exact .executes not gone body
      · split
        · exact .switches not
        · rename_i no
          exact .refuses not (Bool.eq_false_iff.2 fun fiber => no (.inl fiber))

/-- After a switch the body has begun. -/
lemma switched_body (h : s.assignedFiber = true → .body ∈ s.log) :
    .body ∈ (s.switched k e).log ∧ (s.switched k e).started = s.started := by
  have body : .body ∈ if s.assignedFiber then s.log else s.log ++ [.body] := by
    split
    · rename_i fiber
      exact h fiber
    · exact List.mem_append_right _ List.mem_cons_self
  unfold State.switched
  cases e.status with
  | DEAD => exact ⟨List.mem_append_left _ body, rfl⟩
  | WANTS_YIELD | WANTS_SUSPEND | SUSPEND_SIGNALED => exact ⟨body, rfl⟩

/-- A step keeps what a task has behind it. -/
lemma Step.tracked (st : Step k s l s') (tr : Tracked s) : Tracked s' := by
  cases st with
  | @dispatch site e queued =>
    have here : s.place ≠ .gone := by
      rw [queued]
      rintro ⟨⟩
    generalize d : s.dispatch k e site = s'
    cases d ▸ ends_dispatch k e s site with
    | discards => exact .of_gone rfl
    | executes _ gone => exact .of_gone gone
    | switches =>
      obtain ⟨body, started⟩ := switched_body (k := k) (e := e) (s := { s with started := true }) (tr.fiber here)
      exact .of_body started body
    | refuses _ none =>
      refine ⟨fun _ _ => rfl, fun _ fiber => tr.fiber here fiber, fun _ no => tr.fresh here no, fun _ _ => ?_⟩
      exact ⟨fun _ => Nat.succ_pos _, fun _ => rfl⟩
  | resume susp =>
    have here : s.place ≠ .gone := by
      rw [susp]
      rintro ⟨⟩
    exact ⟨fun _ => tr.begun here, fun _ => tr.fiber here, fun _ => tr.fresh here, fun _ => tr.refused here⟩

/-- In every state of a run it is known what a task has behind it. -/
lemma Tracked.of_runs (rn : Reaches (Step k) {} s) : Tracked s := by
  have init : Tracked ({} : State ν) := by
    refine ⟨fun _ h => ?_, fun _ h => ?_, fun _ _ => rfl, fun _ _ => ⟨fun h => ?_, fun h => ?_⟩⟩
    · cases h
    · cases h
    · cases h
    · cases h
  refine rn.invariant init ?_
  intro s l s' tr _ st
  exact st.tracked tr

/-- Nothing happens to a task that is gone. -/
lemma gone_last (gone : s.place = .gone) (rn : Reaches (Step k) s s') : s' = s := by
  induction rn with
  | refl => rfl
  | tail _ _ st ih =>
    subst ih
    cases st with
    | dispatch queued =>
      rw [gone] at queued
      cases queued
    | resume susp =>
      rw [gone] at susp
      cases susp

/-! ## What a discard leaves in the log -/

/-- A discard tells a node that it is cancelled. -/
lemma mem_discarded {x : Effect ν} (h : x ∈ k.discarded wrapper) : ∃ n, x = .finished n .Cancelled := by
  unfold Task.discarded at h
  split at h
  · rw [Option.mem_toList, Option.map_eq_some_iff] at h
    obtain ⟨n, -, e⟩ := h
    exact ⟨n, e.symm⟩
  · cases h

/-- A release decrements and wakes. -/
lemma mem_release {x : Effect ν} {n : BitVec 32} (h : x ∈ k.release n) : x = .decrement ∨ x = .wakeAll := by
  unfold Task.release at h
  split at h
  · split at h
    · rw [List.mem_cons, List.mem_singleton] at h
      exact h
    · exact .inl (List.mem_singleton.1 h)
  · cases h

/-- Disposing destroys and frees. -/
lemma mem_dispose {x : Effect ν} (h : x ∈ k.dispose) : x = .destroy ∨ x = .free := by
  unfold Task.dispose at h
  split at h
  · exact .inr (List.mem_singleton.1 h)
  · rw [List.mem_cons, List.mem_singleton] at h
    exact h

section
variable [DecidableEq ν]

/-- The node is told if the wrapper is the one the task has. -/
lemma count_discarded (named : wrapper ≠ .user) (n : ν) (o : Outcome) :
    (k.discarded wrapper).count (.finished n o) =
      if (k.node = some n ∧ o = .Cancelled) ∧ k.fn = wrapper then 1 else 0 := by
  unfold Task.discarded Task.node
  by_cases fn : k.fn = wrapper
  · have not : k.fn ≠ .user := by
      rw [fn]
      exact named
    rw [if_pos fn, if_neg not]
    cases k.data with
    | none => simp
    | some m => cases o <;> simp [List.count_singleton, fn]
  · rw [if_neg fn, if_neg fun h => fn h.2]
    exact List.count_nil

/-- A release decrements once if there is a group. -/
lemma count_release (k : Task ν) (n : BitVec 32) : (k.release n).count .decrement = if k.waitGroup then 1 else 0 := by
  unfold Task.release
  split
  · split <;> rfl
  · rfl

/-- Disposing frees once. -/
lemma count_dispose (k : Task ν) : k.dispose.count .free = 1 := by
  unfold Task.dispose
  split <;> rfl

/-- A fresh task after a discard: all is as it should be if its node was told. -/
lemma discarded_iff (named : wrapper ≠ .user) (gone : s.place = .gone)
    (log : s.log = k.discarded wrapper ++ k.release e.n ++ k.dispose) :
    Discarded k s ↔ k.node = none ∨ k.fn = wrapper := by
  have count : ∀ n o, s.log.count (.finished n o) =
      if (k.node = some n ∧ o = .Cancelled) ∧ k.fn = wrapper then 1 else 0 := by
    intro n o
    have r : (k.release e.n).count (.finished n o) = 0 :=
      List.count_eq_zero.2 fun h => by rcases mem_release h with e | e <;> cases e
    have d : k.dispose.count (.finished n o) = 0 :=
      List.count_eq_zero.2 fun h => by rcases mem_dispose h with e | e <;> cases e
    rw [log, List.count_append, List.count_append, count_discarded named, r, d]
    rfl
  constructor
  · intro disc
    cases node : k.node with
    | none => exact .inl rfl
    | some n =>
      by_contra no
      have once := disc.node n .Cancelled
      rw [count, if_neg fun h => no (.inr h.2), if_pos ⟨node, rfl⟩] at once
      cases once
  · intro told
    refine ⟨gone, ?_, fun n o => ?_, ?_, ?_, gone_last gone⟩
    · rw [log]
      intro h
      rcases List.mem_append.1 h with h | h
      · rcases List.mem_append.1 h with h | h
        · obtain ⟨n, e⟩ := mem_discarded h
          cases e
        · rcases mem_release h with e | e <;> cases e
      · rcases mem_dispose h with e | e <;> cases e
    · rw [count]
      by_cases h : k.node = some n ∧ o = .Cancelled
      · rw [if_pos h, if_pos ⟨h, told.resolve_left fun none => by rw [h.1] at none; cases none⟩]
      · rw [if_neg h, if_neg fun h' => h h'.1]
    · have d : (k.discarded wrapper).count .decrement = 0 :=
        List.count_eq_zero.2 fun h => by obtain ⟨n, e⟩ := mem_discarded h; cases e
      have d' : k.dispose.count .decrement = 0 :=
        List.count_eq_zero.2 fun h => by rcases mem_dispose h with e | e <;> cases e
      rw [log, List.count_append, List.count_append, count_release, d, d', Nat.zero_add, Nat.add_zero]
    · have d : (k.discarded wrapper).count .free = 0 :=
        List.count_eq_zero.2 fun h => by obtain ⟨n, e⟩ := mem_discarded h; cases e
      have r : (k.release e.n).count .free = 0 :=
        List.count_eq_zero.2 fun h => by rcases mem_release h with e | e <;> cases e
      rw [log, List.count_append, List.count_append, count_dispose, d, r]

/-- No site discards by the function of the user. -/
lemma wrapper_named (site : Site) : site.wrapper ≠ .user := by
  cases site <;> rintro ⟨⟩

/-- A dispatch finds a cancelled task of which nothing has run. It discards it, and all is done that a discard
owes, iff no earlier dispatch of the task failed for want of a fiber, and the task has no node of a graph or the
site compares with the wrapper the task has. And no site discards a task whose body has begun. -/
theorem cancelled_before_run (rn : Reaches (Step k) {} s) :
    (∀ {site e s'}, Step k s (.dispatch site e) s' → e.world.isTaskCancelled () = true → .body ∉ s.log →
      (Discarded k s' ↔ s.refused = 0 ∧ (k.node = none ∨ k.fn = site.wrapper))) ∧
    (s.place ≠ .gone → .body ∈ s.log → ∀ wrapper e, s.discardIfCancelled k wrapper e = none) := by
  have tr := Tracked.of_runs rn
  refine ⟨fun {site e s'} st can fresh => ?_, fun here body wrapper e => ?_⟩
  · cases st with
    | dispatch queued =>
      have here : s.place ≠ .gone := by
        rw [queued]
        rintro ⟨⟩
      -- in the other branches `started` was set by a dispatch that got no fiber
      have late : s.started = true ∨ e.world.isTaskCancelled () = false → s.refused ≠ 0 := by
        intro h
        rcases h with started | no
        · exact Nat.pos_iff_ne_zero.1 ((tr.refused here fresh).1 started)
        · rw [can] at no
          cases no
      generalize d : s.dispatch k e site = s'
      cases d ▸ ends_dispatch k e s site with
      | discards started =>
        have zero : s.refused = 0 := by
          by_contra ne
          rw [(tr.refused here fresh).2 (Nat.pos_iff_ne_zero.2 ne)] at started
          cases started
        rw [discarded_iff (wrapper_named site) rfl (by rw [tr.fresh here fresh]; rfl)]
        exact ⟨fun told => ⟨zero, told⟩, fun h => h.2⟩
      | executes not _ body => exact ⟨fun disc => absurd body disc.body, fun h => absurd h.1 (late not)⟩
      | switches not =>
        obtain ⟨body, -⟩ := switched_body (k := k) (e := e) (s := { s with started := true }) (tr.fiber here)
        exact ⟨fun disc => absurd body disc.body, fun h => absurd h.1 (late not)⟩
      | refuses not => exact ⟨fun disc => absurd disc.gone here, fun h => absurd h.1 (late not)⟩
  · unfold State.discardIfCancelled
    rw [if_neg fun h => by rw [tr.begun here body] at h; cases h.1]

end

/-- What a dispatch finds when nobody waits in the `WaitGroup` and the fiber, if there is one, runs to its end. -/
def Env.plain (cancelled fiber : Bool) : Env where
  world := .direct (if cancelled then [()] else [])
  fiber := fiber
  status := .DEAD
  n := 1

/-- A plain dispatch finds its task cancelled when it is told so. -/
lemma plain_cancelled (fiber : Bool) : (Env.plain true fiber).world.isTaskCancelled () = true := by
  change (World.direct [()]).isTaskCancelled () = true
  rw [World.isTaskCancelled_direct]
  rfl

/-- A worker discards a cancelled task without a node; `ProcessMainThread` also one with a node. -/
theorem cancelled_before_run_first :
    (∃ s, Step ⟨.user, none, .Fiber, true, false⟩ ({} : State Nat) (.dispatch (.worker false) (.plain true true)) s ∧
      Discarded ⟨.user, none, .Fiber, true, false⟩ s) ∧
    ∃ s, Step ⟨.dagWrapper, some 0, .Native, true, false⟩ ({} : State Nat) (.dispatch .main (.plain true true)) s ∧
      Discarded ⟨.dagWrapper, some 0, .Native, true, false⟩ s := by
  refine ⟨⟨_, .dispatch rfl (by rintro ⟨⟩), ?_⟩, _, .dispatch rfl (by rintro ⟨⟩), ?_⟩
  · exact ((cancelled_before_run .refl).1 (.dispatch rfl (by rintro ⟨⟩)) (plain_cancelled true) List.not_mem_nil).2
      ⟨rfl, .inl rfl⟩
  · exact ((cancelled_before_run .refl).1 (.dispatch rfl (by rintro ⟨⟩)) (plain_cancelled true) List.not_mem_nil).2
      ⟨rfl, .inr rfl⟩

/-- A task gets no fiber, is cancelled in the queue, and is run by the next dispatch. A cancelled task of a graph
is thrown away by a worker and its node is not told. -/
theorem cancelled_task_runs :
    (∃ s s' : State Nat, Reaches (Step ⟨.user, none, .Fiber, true, false⟩) {} s ∧ .body ∉ s.log ∧
      Step ⟨.user, none, .Fiber, true, false⟩ s (.dispatch (.worker false) (.plain true true)) s' ∧ .body ∈ s'.log) ∧
    ∃ s : State Nat,
      Step ⟨.dagWrapper, some 0, .Native, true, false⟩ {} (.dispatch (.worker false) (.plain true true)) s ∧
      s.place = .gone ∧ .body ∉ s.log ∧ .finished 0 .Cancelled ∉ s.log := by
  have r : Reaches (Step ⟨.user, none, .Fiber, true, false⟩) ({} : State Nat) {} := .refl
  have r := r.next (.dispatch (.worker false) (.plain false false)) trivial (.dispatch rfl (by rintro ⟨⟩))
  refine ⟨⟨_, _, r, ?_, .dispatch rfl (by rintro ⟨⟩), ?_⟩, _, .dispatch rfl (by rintro ⟨⟩), ?_, ?_, ?_⟩
  all_goals decide

end JLib.Discard
