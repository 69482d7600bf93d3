import JLib.Event.Signal

/-!
# An event and the pools of its fibers

`EnsureTable`, `Reserve` and `AddWaiter` of an event that outlives pools. The table is made for the pool there is
when it is first asked for and stays as it is; `Init` builds a pool of some number of fibers and `Join` ends its
workers. A fiber is known by its index in its pool, and a fiber that still waits when its pool is gone keeps its
slot. Everything else about the table is as in the model of an event.
-/

namespace JLib.Event

variable {θ τ : Type} [DecidableEq θ] [DecidableEq τ] {n i k : Nat}

/-! ## A whole `CancelWaiters` -/

/-- The thread is in a `CancelWaiters` and has not come to the slot. -/
def Pc.Cancels (i : Nat) : Pc τ → Prop
  | scan false w => w ≤ i / 64
  | pick false w bits | take false w bits _ | wake false w bits _ =>
    w < i / 64 ∨ w = i / 64 ∧ bits.getLsbD (i % 64) = true
  | _ => False

/-- The bit of the slot is not the lowest of those to come. -/
lemma cancels_rest {w : Nat} {bits : BitVec 64} (h : w < i / 64 ∨ w = i / 64 ∧ bits.getLsbD (i % 64) = true)
    (ne : w = i / 64 → i % 64 ≠ bits.ctz.toNat) :
    w < i / 64 ∨ w = i / 64 ∧ (rest false bits).getLsbD (i % 64) = true := by
  refine h.imp_right fun ⟨here, bit⟩ => ⟨here, ?_⟩
  show (Bits.clearLowest bits).getLsbD (i % 64) = true
  rw [Bits.getLsbD_clearLowest, bit, Bool.true_and, decide_eq_true_eq]
  exact ne here

open State

/-- A thread in a `CancelWaiters` passes a slot only after it has won its bit. -/
lemma Step.cancels {s s' : State θ τ} {l : Label θ} {t : θ} (st : Step n s l s') (hi : i < n)
    (h : s.marked i = true) (h' : s'.marked i = true) (can : (s.thread t).Cancels i) :
    (s'.thread t).Cancels i := by
  have frame : ∀ {t' c c'}, s.thread t' = c → (c.Cancels i → c'.Cancels i) →
      (Function.update s.thread t' c' t).Cancels i := by
    intro t' c c' ht hc
    by_cases e : t = t'
    · subst e
      rw [Function.update_self]
      exact hc (ht ▸ can)
    · rwa [Function.update_of_ne e]
  cases st with
  | reserve | store | publish | withdraw | leave | park | unpark | beginEmpty => exact can
  | selfTake =>
    change ((s.takeSlot _ _).thread t).Cancels i
    rwa [takeSlot_thread]
  | beginAll ht | loadEmpty ht | load ht | swap ht | drainMiss ht | drainWake ht | drainEnd ht | endAll ht
  | beginCancel ht | beginOne ht => exact frame ht False.elim
  | drainTake ht =>
    change (Function.update (s.takeSlot _ _).thread _ _ t).Cancels i
    rw [takeSlot_thread]
    exact frame ht False.elim
  | @scan t' one w ht =>
    refine frame ht fun can => ?_
    cases one with
    | true => exact can
    | false =>
      rcases Nat.lt_or_eq_of_le (can : w ≤ i / 64) with lt | e
      · exact .inl lt
      · exact .inr ⟨e, e ▸ h⟩
  | @pickLost t' one w bits ht nz lost =>
    refine frame ht fun can => ?_
    cases one with
    | true => exact can
    | false =>
      refine cancels_rest can fun here low => ?_
      rw [State.marked, ← here, low, lost] at h
      cases h
  | @pick t' one w bits ht nz =>
    refine frame ht fun can => ?_
    cases one with
    | true => exact can
    | false =>
      refine cancels_rest can fun here low => ?_
      have hb := BitVec.lt_of_getLsbD (BitVec.getLsbD_true_ctz_of_ne_zero nz)
      change (s.fetchAnd w bits.ctz.toNat).marked i = true at h'
      rw [marked_fetchAnd s hb, Bool.and_eq_true, decide_eq_true_eq] at h'
      exact h'.2 ((slot_of_word hb).2 ⟨here.symm, low⟩)
  | @takeMiss t' one w bits b ht =>
    refine frame ht fun can => ?_
    cases one <;> exact can
  | @take t' one w bits b r ht =>
    change (Function.update (State.markCancelled _ one r.task).thread _ _ t).Cancels i
    rw [(markCancelled_eq ..).2.2.1, takeSlot_thread]
    refine frame ht fun can => ?_
    cases one <;> exact can
  | wakeCancelled ht => exact frame ht id
  | wakeOne ht => exact frame ht id
  | @pickEnd t' one w ht =>
    refine frame ht fun can => ?_
    cases one with
    | true => exact can
    | false =>
      rcases can with lt | ⟨_, no⟩
      · exact lt
      · simp at no
  | @endCancel t' w ht out =>
    refine frame ht fun (le : w ≤ i / 64) => out ?_
    unfold words
    omega
  | endOne ht => exact frame ht id

/-- The registration is claimed, or a `SignalAll` or a `CancelWaiters` is still to come to it. -/
def State.Owed (s : State θ τ) (t : θ) (i k : Nat) : Prop :=
  s.Claimed i k ∨
    (s.Pending i k ∧ s.marked i = true ∧ ((s.thread t).Before (i / 64) ∨ (s.thread t).Cancels i))

/-- What is owed stays owed until it is claimed. -/
lemma Step.owed {s s' : State θ τ} {l : Label θ} {t : θ} (st : Step n s l s') (once : s.book.Once)
    (hi : i < n) (owed : s.Owed t i k) : s'.Owed t i k := by
  rcases owed with h | ⟨pend, mark, bef⟩
  · exact .inl (st.claimed once h)
  · rcases st.pending once pend with pend | h
    · rcases st.marked mark with mark' | won
      · exact .inr ⟨pend, mark', bef.imp (st.before hi mark mark') (st.cancels hi mark mark')⟩
      · exact .inl (.inr ⟨pend, won⟩)
    · exact .inl (.inl h)

/-- When a `CancelWaiters` begins, what is registered is claimed already or is still before it. -/
lemma owed_of_begin {s s1 : State θ τ} {t : θ} {c : Call} (once : s.book.Once) (sh : s.Shown) (tab : s.Tabled n)
    (pos : 0 < k) (le : k ≤ s.serial i) (done : k = s.serial i → s.fiber i ≠ .stored) (all : c ≠ .signalOne)
    (st : Step n s (.begin t c) s1) : s1.Owed t i k := by
  cases c with
  | signalOne => exact absurd rfl all
  | signalAll =>
    exact (due_of_begin once sh tab pos le done st).imp_right fun ⟨pend, mark, bef⟩ => ⟨pend, mark, .inl bef⟩
  | cancelWaiters =>
    rcases once.taken_or_pending pos le with ⟨pend, -⟩ | ⟨-, p, h⟩
    · obtain ⟨r, h, rfl⟩ := id pend
      have last : r.serial = s.serial i := (Prod.mk.inj (once.of_slot h).1).2
      have full : s1.slots i = some r := by
        cases st <;> exact h
      rcases sh i r h with mark | h' | won
      · refine .inr ?_
        cases st with
        | beginEmpty _ empty =>
          rw [(tab i (last ▸ pos)).2] at empty
          cases empty
        | beginCancel =>
          refine ⟨pend, mark, .inr ?_⟩
          change (Function.update s.thread t _ t).Cancels i
          rw [Function.update_self]
          exact Nat.zero_le _
      · exact absurd h' (done last)
      · exact .inl (.inr ⟨⟨r, full, rfl⟩, st.won won (by rw [full]; rintro ⟨⟩)⟩)
    · refine .inl (.inl (st.book.takers ?_))
      rw [show s.book.takers (i, k) = _ from h]
      exact List.cons_ne_nil _ _

/-- The table is never taken down. -/
lemma Step.table {s s' : State θ τ} {l : Label θ} (st : Step n s l s') (h : s.table = true) : s'.table = true := by
  cases st with
  | reserve => rfl
  | selfTake =>
    unfold takeSlot
    split <;> exact h
  | drainTake =>
    unfold takeSlot
    split <;> exact h
  | @take t one =>
    cases one <;>
    · unfold takeSlot
      split <;> exact h
  | _ => exact h

namespace Pools
open LTS

structure State (θ τ : Type) where
  -- the fibers of the current pool; there is none before `Init` and after `Join`
  pool : Option Nat := none
  -- the slots of the table
  fiberCount : Nat := 0
  event : Event.State θ τ := {}
  -- who waits at this index is a fiber of an earlier pool
  elder : Nat → Bool := fun _ => false
  -- the fibers that were passed to `AddWaiter` and whose task is in no slot, without anybody having taken it
  lost : List Nat := []

inductive Label (θ : Type) where
  | init (n : Nat)
  | join
  | reserve
  | addWaiter (i : Nat)
  | event (l : Event.Label θ)

inductive Step : State θ τ → Label θ → State θ τ → Prop where
  | init {s : State θ τ} {n} :
    s.pool = none →
    Step s (.init n) { s with pool := some n, elder := fun i => decide (s.event.fiber i ≠ .running) }
  -- the workers are gone, so that no fiber runs
  | join {s : State θ τ} {n} :
    s.pool = some n →
    (∀ i, s.event.fiber i = .running ∨ s.event.fiber i = .parked) →
    Step s .join { s with pool := none }
  -- `Reserve`, where it returns true
  | reserve {s : State θ τ} {n} :
    s.pool = some n →
    s.event.table = true →
    Step s .reserve s
  | build {s : State θ τ} {n} :
    s.pool = some n →
    0 < n →
    s.event.table = false →
    Step s .reserve { s with fiberCount := n, event := { s.event with table := true } }
  | addWaiter {s : State θ τ} {n i x} :
    s.pool = some n →
    i < n →
    s.event.table = true →
    i < s.fiberCount →
    s.event.fiber i = .running →
    Step s (.addWaiter i)
      { s with event := (s.event.store i x).setFiber i .stored, elder := Function.update s.elder i false }
  -- over the task of a fiber of an earlier pool
  | overwrite {s : State θ τ} {n i x} :
    s.pool = some n →
    i < n →
    s.event.table = true →
    i < s.fiberCount →
    s.event.fiber i ≠ .running →
    s.elder i = true →
    Step s (.addWaiter i)
      { s with
        event := (s.event.store i x).setFiber i .stored
        elder := Function.update s.elder i false
        lost := i :: s.lost }
  -- `if (i >= tb->fiberCount) return`
  | silent {s : State θ τ} {n i} :
    s.pool = some n →
    i < n →
    s.event.table = true →
    s.fiberCount ≤ i →
    s.event.fiber i = .running →
    Step s (.addWaiter i) { s with lost := i :: s.lost }
  -- everything but `Reserve` and the store of `AddWaiter`
  | event {s : State θ τ} {l e} :
    l ≠ .reserve →
    (∀ i, l = .fiber i → s.event.fiber i ≠ .running ∧ s.pool ≠ none) →
    Event.Step s.fiberCount s.event l e →
    Step s (.event l) { s with event := e }

/-- No pool is larger than the one the table was made for, and no fiber of an earlier pool waits at the index of
a fiber that registers. -/
def Kept (s : State θ τ) : Label θ → Prop
  | .init n => s.event.table = true → n ≤ s.fiberCount
  | .addWaiter i => s.event.fiber i = .running
  | _ => True

structure Inv (s : State θ τ) : Prop where
  bare : s.event.table = false → s.event = {}
  runs : s.event.table = true → Reaches (Event.Step s.fiberCount) {} s.event
  fits : ∀ n, s.pool = some n → s.event.table = true → n ≤ s.fiberCount
  lost : s.lost = []

variable {s u : State θ τ} {l : Label θ}

/-- Without a table there is nobody to do anything. -/
lemma bare_step {l : Event.Label θ} {e : Event.State θ τ} (st : Event.Step n {} l e) (res : l ≠ .reserve)
    (out : ∀ i, l = .fiber i → ({} : Event.State θ τ).fiber i ≠ .running) : e = {} := by
  cases st with
  | reserve => exact absurd rfl res
  | beginEmpty => rfl
  | store | publish | withdraw | selfTake | leave | park | unpark => exact absurd rfl (out _ rfl)
  | beginAll _ no | beginCancel _ no | beginOne _ no => cases no
  | loadEmpty no | load no | swap no | drainMiss no | drainTake no | drainWake no | drainEnd no | endAll no
  | scan no | pickLost no | pick no | takeMiss no | take no | wakeCancelled no | wakeOne no | pickEnd no
  | endCancel no | endOne no => cases no

/-- A table that is there takes steps of the event. -/
lemma Step.refines (st : Step s l u) (ok : Kept s l) (table : s.event.table = true) :
    u.fiberCount = s.fiberCount ∧
      (u.event = s.event ∨ ∃ l', Event.Step s.fiberCount s.event l' u.event) := by
  cases st with
  | init | join | reserve | silent => exact ⟨rfl, .inl rfl⟩
  | build _ _ no =>
    rw [no] at table
    cases table
  | addWaiter _ _ _ lt running => exact ⟨rfl, .inr ⟨_, .store running table lt⟩⟩
  | overwrite _ _ _ _ busy => exact absurd ok busy
  | event _ _ st => exact ⟨rfl, .inr ⟨_, st⟩⟩

/-- A step under the condition keeps the invariant. -/
lemma Inv.step (inv : Inv s) (ok : Kept s l) (st : Step s l u) : Inv u := by
  by_cases table : s.event.table = true
  · obtain ⟨same, went⟩ := st.refines ok table
    have table' : u.event.table = true := by
      rcases went with e | ⟨l', st'⟩
      · rw [e]
        exact table
      · exact st'.table table
    refine ⟨fun no => ?_, fun _ => ?_, fun n hn _ => ?_, ?_⟩
    · rw [table'] at no
      cases no
    · rw [same]
      rcases went with e | ⟨l', st'⟩
      · rw [e]
        exact inv.runs table
      · exact (inv.runs table).next l' trivial st'
    · cases st with
      | init =>
        cases hn
        exact ok table
      | join => cases hn
      | reserve | addWaiter | overwrite | silent | event => exact inv.fits n hn table
      | build _ _ no =>
        rw [no] at table
        cases table
    · cases st with
      | overwrite _ _ _ _ busy => exact absurd ok busy
      | silent pool lt _ le => exact absurd (inv.fits _ pool table) (by omega)
      | _ => exact inv.lost
  · have bare := inv.bare (eq_false_of_ne_true table)
    cases st with
    | init | join => exact ⟨inv.bare, inv.runs, fun _ _ yes => absurd yes table, inv.lost⟩
    | reserve _ yes => exact absurd yes table
    | build pool some _ =>
      refine ⟨by rintro ⟨⟩, fun _ => ?_, fun n hn _ => ?_, inv.lost⟩
      · rw [bare]
        exact Runs.refl.next .reserve trivial (.reserve some)
      · change s.pool = Option.some n at hn
        rw [pool] at hn
        cases hn
        exact Nat.le_refl _
    | addWaiter _ _ yes | overwrite _ _ yes | silent _ _ yes => exact absurd yes table
    | @event l e res out st =>
      have same : e = s.event := by
        rw [bare] at st out ⊢
        exact bare_step st res fun i h => (out i h).1
      subst same
      exact inv

/-- The invariant holds in every state of a run. -/
lemma Inv.of_runs (rn : Runs Step Kept ({} : State θ τ) s) : Inv s := by
  refine rn.invariant (I := Inv) ⟨fun _ => rfl, ?_, ?_, rfl⟩ fun inv ok st => inv.step ok st
  · rintro ⟨⟩
  · rintro _ ⟨⟩

/-- What a call is owed it gets, whatever pools come and go. -/
lemma Step.owed {t : θ} {k : Nat} (st : Step s l u) (ok : Kept s l) (inv : Inv s) (table : s.event.table = true)
    (hi : i < s.fiberCount) (owed : s.event.Owed t i k) :
    u.event.table = true ∧ i < u.fiberCount ∧ u.event.Owed t i k := by
  obtain ⟨same, e | ⟨l', st'⟩⟩ := st.refines ok table
  · rw [same, e]
    exact ⟨table, hi, owed⟩
  · rw [same]
    exact ⟨st'.table table, hi, st'.owed (once_of_runs (inv.runs table)) hi owed⟩

/-- As long as no pool outgrows the table and no fiber registers over one of an earlier pool, `AddWaiter` puts
every task in a slot; the index of every fiber of the pool is one of the table; a registration is in its slot or
was taken by one party; a task in a slot has its bit set, or its fiber is about to set it, or who won the bit is
about to exchange the slot; and what was registered when a `SignalAll` or a `CancelWaiters` began is claimed when
that call has ended. -/
theorem add_waiter_registers (rn : Runs Step Kept ({} : State θ τ) s) :
    s.lost = [] ∧
    (∀ n, s.pool = some n → s.event.table = true → ∀ i, i < n → i < s.fiberCount) ∧
    (∀ i k, 0 < k → k ≤ s.event.serial i →
      (s.event.Pending i k ∧ s.event.takers (i, k) = []) ∨
        (¬s.event.Pending i k ∧ ∃ p, s.event.takers (i, k) = [p])) ∧
    (∀ i r, s.event.slots i = some r → s.event.marked i = true ∨ s.event.fiber i = .stored ∨ s.event.Won i) ∧
    ∀ t c i k s1 s2, c ≠ .signalOne → 0 < k → k ≤ s.event.serial i →
      (k = s.event.serial i → s.event.fiber i ≠ .stored) → Step s (.event (.begin t c)) s1 →
      Runs Step Kept s1 s2 → s2.event.thread t = .idle → s2.event.Claimed i k := by
  have inv := Inv.of_runs rn
  by_cases table : s.event.table = true
  · have runs := inv.runs table
    have once := once_of_runs runs
    refine ⟨inv.lost, fun n hn yes i lt => Nat.lt_of_lt_of_le lt (inv.fits n hn yes), fun i k => once.taken_or_pending,
      shown_of_runs runs, fun t c i k s1 s2 all pos le done st rn' idle => ?_⟩
    have tab := tabled_of_runs runs
    have hi : i < s.fiberCount := (tab i (by omega)).1
    have begun : Inv s1 ∧ s1.event.table = true ∧ i < s1.fiberCount ∧ s1.event.Owed t i k := by
      have inv' := inv.step (l := .event (.begin t c)) trivial st
      cases st with
      | event _ _ st =>
        exact ⟨inv', st.table table, hi, owed_of_begin once (shown_of_runs runs) tab pos le done all st⟩
    have ended : Inv s2 ∧ s2.event.table = true ∧ i < s2.fiberCount ∧ s2.event.Owed t i k := by
      refine rn'.invariant (I := fun s => Inv s ∧ s.event.table = true ∧ i < s.fiberCount ∧ s.event.Owed t i k) begun ?_
      rintro s l u ⟨inv, table, hi, owed⟩ ok st
      exact ⟨inv.step ok st, st.owed ok inv table hi owed⟩
    rcases ended.2.2.2 with h | ⟨-, -, bef⟩
    · exact h
    · rw [idle] at bef
      exact (bef.elim id id).elim
  · have bare := inv.bare (eq_false_of_ne_true table)
    have fresh : s.event.serial = fun _ => 0 := by rw [bare]
    have empty : s.event.slots = fun _ => none := by rw [bare]
    refine ⟨inv.lost, fun _ _ yes => absurd yes table, fun i k pos le => ?_, fun i r full => ?_,
      fun t c i k s1 s2 _ pos le => ?_⟩
    · rw [fresh] at le
      exact absurd le (Nat.not_le_of_lt pos)
    · rw [empty] at full
      cases full
    · rw [fresh] at le
      exact absurd le (Nat.not_le_of_lt pos)

/-- A pool of two fibers and, after a `Join`, one of one. -/
theorem add_waiter_registers_smaller : ∃ s : State Unit Unit, Runs Step Kept {} s ∧ s.pool = some 1 ∧
    s.event.fiber 0 = .stored ∧ s.lost = [] := by
  have r : Runs Step Kept ({} : State Unit Unit) _ := Runs.refl.next (.init 2) (by rintro ⟨⟩) (.init rfl)
  have r := r.next .reserve trivial (.build rfl (by decide) rfl)
  have r := r.next .join trivial (.join rfl fun _ => .inl rfl)
  have r := r.next (.init 1) (fun _ => by decide) (.init rfl)
  have r := r.next (.addWaiter 0) rfl (.addWaiter (x := ()) rfl (by decide) rfl (by decide) rfl)
  exact ⟨_, r, rfl, rfl, (add_waiter_registers r).1⟩

/-- A pool of one fiber, for which the table is made, and, after a `Join`, one of two: its second fiber reserves,
passes its task to `AddWaiter`, and is in no slot. -/
theorem larger_pool_lost : ∃ s : State Unit Unit, Reaches Step {} s ∧ s.pool = some 2 ∧ s.fiberCount = 1 ∧
    s.event.table = true ∧ s.lost = [1] ∧ s.event.slots 1 = none ∧ s.event.marked 1 = false := by
  have r : Reaches Step ({} : State Unit Unit) _ := Runs.refl.next (.init 1) trivial (.init rfl)
  have r := r.next .reserve trivial (.build rfl (by decide) rfl)
  have r := r.next .join trivial (.join rfl fun _ => .inl rfl)
  have r := r.next (.init 2) trivial (.init rfl)
  have r := r.next .reserve trivial (.reserve rfl rfl)
  have r := r.next (.addWaiter 1) trivial (.silent rfl (by decide) rfl (by decide) rfl)
  exact ⟨_, r, rfl, rfl, rfl, rfl, rfl, by decide⟩

end Pools

end JLib.Event
