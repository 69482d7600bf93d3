import JLib.Worker.Model
import Mathlib.Algebra.Order.Group.Multiset
import Mathlib.Tactic.Abel

/-!
# The search loses no task

What was on the worker's deque and what the pass removed from other queues is at the end of the pass on
the deque, stolen from it, or in `task_to_run`. There is one place where this fails: after a yield the
worker's own deque is popped whether or not `task_to_run` is set, and for a reserved worker it can have
been set by the shared intake.
-/

namespace JLib.Worker
open LTS Pass

variable {τ ι : Type} {s u : Pass τ ι} {a : Label} {d : List τ}

/-- The task the search has found. Before the search `task_to_run` is the task that runs. -/
def search (s : Pass τ ι) : List τ :=
  match s.phase with
  | .dispatch | .publish | .run => []
  | _ => s.task_to_run.toList

/-- What came to the worker during the pass. -/
def into (s : Pass τ ι) : Multiset τ := s.taken + s.spawned

/-- Where it is. -/
def holds (s : Pass τ ι) : Multiset τ := s.myDeque + s.stolen + s.handed + s.batch + search s

/-- Nothing was lost since the deque was `d`. -/
structure Kept (d : List τ) (s : Pass τ ι) : Prop where
  balance : (d : Multiset τ) + into s = holds s
  -- the batch is in use in the two loops over the inbox only
  batch : s.phase ≠ .publish → (∀ again, s.phase ≠ .drain again) → s.batch = []
  fresh : s.phase = .intake → s.task_to_run = none
  -- the intake is for reserved workers
  ordinary : s.isReservedWorker = false → s.phase = .lane ∨ s.phase = .yielded → s.task_to_run = none
  draining : s.phase ≠ .publish → s.batch ≠ [] → s.task_to_run = none

/-- The start of a pass. -/
structure Start (s : Pass τ ι) : Prop where
  phase : s.phase = .dispatch
  batch : s.batch = []
  taken : s.taken = 0
  stolen : s.stolen = 0
  spawned : s.spawned = 0
  handed : s.handed = 0

/-- The condition on the steps: after a yield the own deque is popped only while no task was found. -/
def Unclaimed (s : Pass τ ι) : Label → Prop
  | .worker => s.phase = .yieldedDeque → s.task_to_run = none ∨ s.myDeque = []
  | _ => True

/-- Nothing is lost at the start. -/
lemma Start.kept (st : Start s) : Kept s.myDeque s := by
  refine ⟨?_, fun _ _ => st.batch, fun h => ?_, fun _ h => ?_, fun _ h => absurd st.batch h⟩
  · simp [into, holds, search, st.phase, st.batch, st.taken, st.stolen, st.spawned, st.handed]
  · cases st.phase.symm.trans h
  · rcases h with h | h <;> cases st.phase.symm.trans h

/-- The balance is kept by a step that puts down all it picks up. -/
lemma balance_step (balance : (d : Multiset τ) + into s = holds s)
    (moves : into u + holds s = into s + holds u) : (d : Multiset τ) + into u = holds u := by
  apply add_right_cancel (b := holds s)
  calc (d : Multiset τ) + into u + holds s
    _ = d + into s + holds u := by rw [add_assoc, moves, add_assoc]
    _ = holds u + holds s := by rw [balance, add_comm]

/-- Nothing moves, and the pass is in neither loop. -/
lemma Kept.goto (k : Kept d s) (same_into : into u = into s) (same_holds : holds u = holds s)
    (batch : u.batch = []) (fresh : u.phase = .intake → u.task_to_run = none)
    (ordinary : u.isReservedWorker = false → u.phase = .lane ∨ u.phase = .yielded →
      u.task_to_run = none) : Kept d u := by
  refine ⟨?_, fun _ _ => batch, fresh, ordinary, fun _ h => absurd batch h⟩
  rw [same_into, same_holds]
  exact k.balance

/-- A task of another queue is found when none was. -/
lemma Kept.foundOther {t : τ} (k : Kept d s) (none : s.task_to_run = none) (batch : s.batch = [])
    (phase : u.phase = .done) (task : u.task_to_run = some t) (taken : u.taken = t ::ₘ s.taken)
    (same : u.myDeque = s.myDeque ∧ u.stolen = s.stolen ∧ u.spawned = s.spawned ∧
      u.handed = s.handed ∧ u.batch = s.batch) : Kept d u := by
  obtain ⟨deque, stolen, spawned, handed, batch'⟩ := same
  have empty : u.batch = [] := batch'.trans batch
  have idle : search s = [] := by
    unfold search
    rw [none]
    split <;> rfl
  have now : search u = [t] := by
    unfold search
    rw [phase, task]
    rfl
  refine ⟨balance_step k.balance ?_, fun _ _ => empty, fun h => ?_, fun _ h => ?_,
    fun _ h => absurd empty h⟩
  · unfold into holds
    rw [idle, now, taken, deque, stolen, spawned, handed, batch', ← Multiset.singleton_add,
      Multiset.coe_nil, Multiset.coe_singleton]
    abel
  · cases phase.symm.trans h
  · rcases h with h | h <;> cases phase.symm.trans h

/-- A task of the own deque is found when none was. -/
lemma Kept.foundOwn {t : τ} {rest : List τ} (k : Kept d s) (none : s.task_to_run = none)
    (deque : s.myDeque = t :: rest) (batch : s.batch = []) :
    Kept d ({ s with myDeque := rest }.found t) := by
  refine ⟨balance_step k.balance ?_, fun _ _ => batch, nofun, nofun, fun _ h => absurd batch h⟩
  have idle : search s = [] := by
    unfold search
    rw [none]
    split <;> rfl
  have now : search ({ s with myDeque := rest }.found t) = [t] := rfl
  unfold into holds
  rw [idle, now, deque]
  simp only [found, ← Multiset.cons_coe, ← Multiset.singleton_add, Multiset.coe_nil]
  abel

/-- A drain that got nothing is over. -/
lemma Kept.leaveDrain {again : Bool} (k : Kept d s) (h : s.phase = .drain again) (batch : s.batch = [])
    (phase : u.phase = if again then .done else .steal) (task : u.task_to_run = s.task_to_run)
    (same : u.myDeque = s.myDeque ∧ u.stolen = s.stolen ∧ u.spawned = s.spawned ∧
      u.handed = s.handed ∧ u.batch = s.batch ∧ u.taken = s.taken) : Kept d u := by
  obtain ⟨deque, stolen, spawned, handed, batch', taken⟩ := same
  have now : search u = search s := by
    unfold search
    rw [phase, h, task]
    cases again <;> rfl
  refine k.goto ?_ ?_ (batch'.trans batch) ?_ ?_
  · unfold into
    rw [taken, spawned]
  · unfold holds
    rw [deque, stolen, handed, batch', now]
  · rw [phase]
    cases again <;> nofun
  · rw [phase]
    cases again <;> nofun

/-- A drain puts all but the last of its batch on the deque. -/
lemma Kept.staged {again : Bool} {keep : List τ} {t : τ} (k : Kept d s) (h : s.phase = .drain again)
    (none : s.task_to_run = none) (batch : s.batch = keep ++ [t])
    (phase : u.phase = if again then .done else .steal) (task : u.task_to_run = some t)
    (same : u.myDeque = keep.reverse ++ s.myDeque ∧ u.stolen = s.stolen ∧ u.spawned = s.spawned ∧
      u.handed = s.handed ∧ u.batch = [] ∧ u.taken = s.taken) : Kept d u := by
  obtain ⟨deque, stolen, spawned, handed, batch', taken⟩ := same
  have idle : search s = [] := by
    unfold search
    rw [h, none]
    rfl
  have now : search u = [t] := by
    unfold search
    rw [phase, task]
    cases again <;> rfl
  refine ⟨balance_step k.balance ?_, fun _ _ => batch', ?_, ?_, fun _ h => absurd batch' h⟩
  · unfold into holds
    rw [idle, now, batch, deque, stolen, spawned, handed, batch', taken]
    simp only [← Multiset.coe_add, Multiset.coe_reverse, Multiset.coe_nil]
    abel
  · rw [phase]
    cases again <;> nofun
  · rw [phase]
    cases again <;> nofun

variable [DecidableEq ι]

/-- A step under the condition loses nothing. -/
lemma Kept.step (k : Kept d s) (ok : Unclaimed s a) (st : Step s a u) : Kept d u := by
  -- outside the two loops the batch is empty
  have idle : s.phase ≠ .publish ∧ (∀ again, s.phase ≠ .drain again) → s.batch = [] :=
    fun h => k.batch h.1 h.2
  cases st with
  | idle h none =>
    have batch := idle (by simp [h])
    exact k.goto rfl (by simp [holds, search, h, none]) batch (fun _ => none) nofun
  | dispatch h some =>
    have batch := idle (by simp [h])
    refine k.goto rfl ?_ batch ?_ ?_
    · unfold holds search
      rw [h]
      split <;> rfl
    · split <;> nofun
    · split <;> nofun
  | publishPop h lt inbox =>
    refine ⟨balance_step k.balance ?_, fun h' => absurd h h', fun h' => ?_, fun _ h' => ?_,
      fun h' => absurd h h'⟩
    · simp only [into, holds, search, h, take, ← Multiset.coe_add, ← Multiset.singleton_add,
        Multiset.coe_singleton]
      abel
    · cases h.symm.trans h'
    · rcases h' with h' | h' <;> cases h.symm.trans h'
  | publishPush h =>
    refine ⟨balance_step k.balance ?_, fun _ _ => rfl, nofun, nofun, fun _ h => absurd rfl h⟩
    simp only [into, holds, search, h, push_bottom_batch, ← Multiset.coe_add, Multiset.coe_reverse,
      Multiset.coe_nil]
    abel
  | discard h =>
    have batch := idle (by simp [h])
    exact k.goto rfl (by simp [holds, search, h]) batch nofun nofun
  | spawn h =>
    have batch := idle (by simp [h])
    refine ⟨balance_step k.balance ?_, k.batch, k.fresh, k.ordinary, k.draining⟩
    simp only [into, holds, search, h, ← Multiset.cons_coe, ← Multiset.singleton_add]
    abel
  | hand h deque =>
    have batch := idle (by simp [h])
    refine ⟨balance_step k.balance ?_, k.batch, k.fresh, k.ordinary, k.draining⟩
    simp only [into, holds, search, h, deque, ← Multiset.cons_coe, ← Multiset.singleton_add]
    abel
  | ran h =>
    have batch := idle (by simp [h])
    exact k.goto rfl (by simp [holds, search, h]) batch (fun _ => rfl) nofun
  | intake h reserved _ =>
    have batch := idle (by simp [h])
    refine ⟨balance_step k.balance ?_, fun _ _ => batch, nofun, fun h' => ?_,
      fun _ h' => absurd batch h'⟩
    · simp only [into, holds, search, h, k.fresh h, take, ← Multiset.singleton_add, Option.toList,
        Multiset.coe_nil, Multiset.coe_singleton]
      abel
    · cases reserved.symm.trans h'
  | noIntake h =>
    exact k.goto rfl (by simp [holds, search, h]) (idle (by simp [h])) nofun fun _ _ => k.fresh h
  | lane h none _ =>
    exact k.foundOther none (idle (by simp [h])) rfl rfl rfl ⟨rfl, rfl, rfl, rfl, rfl⟩
  | noLane h =>
    refine k.goto rfl (by simp [holds, search, h]) (idle (by simp [h])) nofun fun r _ => ?_
    exact k.ordinary r (.inl h)
  | notYielded h _ =>
    exact k.goto rfl (by simp [holds, search, h]) (idle (by simp [h])) nofun nofun
  | yieldedInbox h _ reserved _ =>
    have none := k.ordinary reserved (.inr h)
    exact k.foundOther none (idle (by simp [h])) rfl rfl rfl ⟨rfl, rfl, rfl, rfl, rfl⟩
  | yieldedNoInbox h _ =>
    exact k.goto rfl (by simp [holds, search, h]) (idle (by simp [h])) nofun nofun
  | yieldedDeque h deque =>
    have none : s.task_to_run = none := by
      rcases ok h with none | empty
      · exact none
      · cases empty.symm.trans deque
    exact k.foundOwn none deque (idle (by simp [h]))
  | yieldedNoDeque h _ =>
    exact k.goto rfl (by simp [holds, search, h]) (idle (by simp [h])) nofun nofun
  | resumed h none _ _ =>
    exact k.foundOther none (idle (by simp [h])) rfl rfl rfl ⟨rfl, rfl, rfl, rfl, rfl⟩
  | noResumed h =>
    exact k.goto rfl (by simp [holds, search, h]) (idle (by simp [h])) nofun nofun
  | bottom h none _ deque => exact k.foundOwn none deque (idle (by simp [h]))
  | noBottom h _ =>
    exact k.goto rfl (by simp [holds, search, h]) (idle (by simp [h])) nofun nofun
  | drainPop h none _ _ _ =>
    refine ⟨balance_step k.balance ?_, fun _ h' => absurd h (h' _), fun h' => ?_, fun _ h' => ?_,
      fun _ _ => none⟩
    · simp only [into, holds, search, h, none, take, ← Multiset.coe_add, ← Multiset.singleton_add,
        Multiset.coe_singleton]
      abel
    · cases h.symm.trans h'
    · rcases h' with h' | h' <;> cases h.symm.trans h'
  | noDrain h batch _ => exact k.leaveDrain h batch rfl rfl ⟨rfl, rfl, rfl, rfl, rfl, rfl⟩
  | drainNone h batch => exact k.leaveDrain h batch rfl rfl ⟨rfl, rfl, rfl, rfl, rfl, rfl⟩
  | drainPush h batch =>
    have none : s.task_to_run = none := by
      apply k.draining
      · simp [h]
      · simp [batch]
    exact k.staged h none batch rfl rfl ⟨rfl, rfl, rfl, rfl, rfl, rfl⟩
  | steal h none _ =>
    exact k.foundOther none (idle (by simp [h])) rfl rfl rfl ⟨rfl, rfl, rfl, rfl, rfl⟩
  | noSteal h =>
    exact k.goto rfl (by simp [holds, search, h]) (idle (by simp [h])) nofun nofun
  | outside => exact ⟨k.balance, k.batch, k.fresh, k.ordinary, k.draining⟩
  | thief deque =>
    refine ⟨balance_step k.balance ?_, k.batch, k.fresh, k.ordinary, k.draining⟩
    simp only [into, holds, search, deque, ← Multiset.coe_add, ← Multiset.singleton_add,
      Multiset.coe_singleton]
    abel

/-- Where the own deque is popped after a yield only while no task was found, all that was on the deque
or came to the worker during the pass is at its end in `task_to_run`, on the deque, or was taken from the
deque by a thief or by the task that ran. -/
theorem search_keeps_every_task {s₀ : Pass τ ι} (start : Start s₀) (rn : Runs Step Unclaimed s₀ s)
    (ended : s.phase = .done) :
    (s₀.myDeque : Multiset τ) + s.taken + s.spawned =
      s.task_to_run.toList + s.myDeque + s.stolen + s.handed := by
  have k : Kept s₀.myDeque s := rn.invariant start.kept fun k ok st => k.step ok st
  have batch : s.batch = [] := k.batch (by simp [ended]) (by simp [ended])
  have balance := k.balance
  unfold into holds search at balance
  rw [ended, batch, ← add_assoc] at balance
  rw [balance, Multiset.coe_nil]
  abel

/-- A reserved worker that runs task 0 while the intake holds task 1. -/
def reserved : Pass Nat Unit where
  laneIntake := [1]
  myLane := []
  myInbox := []
  myResumed := []
  myDeque := []
  deques := fun _ => []
  inboxDepth := 0
  isReservedWorker := true
  yieldedLastPass := false
  fibersMigrate := false
  task_to_run := some 0

/-- The pass of the reserved worker is at its start. -/
lemma reserved_start : Start reserved := ⟨rfl, rfl, rfl, rfl, rfl, rfl⟩

/-- A reserved worker, which keeps its task. -/
theorem search_keeps_every_task_reserved :
    ∃ s, Runs Step Unclaimed reserved s ∧ s.phase = .done ∧ s.task_to_run = some 1 ∧
      ((reserved.myDeque : Multiset Nat) + s.taken + s.spawned =
        s.task_to_run.toList + s.myDeque + s.stolen + s.handed) := by
  have r : Runs Step Unclaimed reserved _ := .refl
  have r1 := r.next .worker nofun (.dispatch rfl nofun)
  have r2 := r1.next .body trivial (.spawn (t := 2) rfl)
  have r3 := r2.next .worker nofun (.ran (y := true) rfl)
  have r4 := r3.next .worker nofun (.intake rfl rfl (l := []) (r := []) rfl)
  have r5 := r4.next .worker nofun (.noLane rfl)
  have r6 := r5.next .worker nofun (.yieldedNoInbox rfl rfl)
  have r7 := r6.next .outside trivial (.thief (l := []) rfl)
  have r8 := r7.next .worker (fun _ => .inr rfl) (.yieldedNoDeque rfl rfl)
  have r9 := r8.next .worker nofun (.noResumed rfl)
  have r10 := r9.next .worker nofun (.noBottom rfl (.inl nofun))
  have r11 := r10.next .worker nofun (.noDrain rfl rfl (.inl nofun))
  have r12 := r11.next .worker nofun (.noSteal rfl)
  have r13 := r12.next .worker nofun (.noDrain rfl rfl (.inl nofun))
  exact ⟨_, r13, rfl, rfl, search_keeps_every_task reserved_start r13 rfl⟩

/-- Task 0 puts task 2 on the worker's deque and yields. The intake gives task 1, and the pop of the deque
overwrites it. -/
theorem intake_task_overwritten :
    ∃ s, Reaches Step reserved s ∧ s.phase = .done ∧ 1 ∈ s.taken ∧ s.task_to_run = some 2 ∧
      1 ∉ s.myDeque ∧ 1 ∉ s.stolen ∧ 1 ∉ s.handed := by
  have r : Reaches Step reserved _ := .refl
  have r1 := r.next .worker trivial (.dispatch rfl nofun)
  have r2 := r1.next .body trivial (.spawn (t := 2) rfl)
  have r3 := r2.next .worker trivial (.ran (y := true) rfl)
  have r4 := r3.next .worker trivial (.intake rfl rfl (l := []) (r := []) rfl)
  have r5 := r4.next .worker trivial (.noLane rfl)
  have r6 := r5.next .worker trivial (.yieldedNoInbox rfl rfl)
  have r7 := r6.next .worker trivial (.yieldedDeque rfl rfl)
  exact ⟨_, r7, rfl, Multiset.mem_cons_self 1 0, rfl, List.not_mem_nil, Multiset.notMem_zero 1,
    Multiset.notMem_zero 1⟩

end JLib.Worker
