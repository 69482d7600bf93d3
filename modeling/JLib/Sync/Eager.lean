import JLib.CondVar.Eager
import JLib.Mutex.Eager

/-!
# Eager cancellation of the three primitives

A scope is cancelled, then `CancelWaiters` is called. The semaphore asks once more under its spin lock whether the
task is cancelled, the condition variable under its queue lock, and with both of them nobody is left behind. The
mutex does not: a wait that passed its check before can be queued after the last pass.
-/

namespace JLib.Sync
open LTS

variable {T : Type} [DecidableEq T]

/-- When a `CancelWaiters` is over nobody of the scope is left behind, of the mutex as long as no wait of the task was
queued behind the last pass; and whom it does not select it leaves alone. -/
theorem eager_complete (t u : T) (tok scope : CancelToken) (encloses : CancelToken → Bool) :
    (∀ s, Semaphore.SweepOver t u tok scope encloses s → Semaphore.Swept s t) ∧
    (∀ s, Mutex.SweepOver t u tok scope encloses s → Mutex.Swept s t) ∧
    (∀ s, CondVar.SweepOver t u tok scope encloses s → CondVar.Swept encloses s t) ∧
    (∀ i max s c s', i ≤ max → Reaches Semaphore.Next (Semaphore.init (.new i max)) s → (s.th u).pc.sweeps tok →
      Semaphore.Step c s u s' → Semaphore.Spared c tok s s') ∧
    (∀ s c s', Reaches Mutex.Next (Mutex.init T) s → (s.th u).pc.sweeps tok →
      Mutex.Step c s u s' → Mutex.Spared c tok s s') ∧
    (∀ s c s', Reaches CondVar.Next (CondVar.init T) s → (s.th u).pc.sweeps tok →
      CondVar.Step c s u s' → CondVar.Spared c tok s s') := by
  refine ⟨fun s so => so.swept, fun s so => so.swept, fun s so => so.swept, ?_, ?_, ?_⟩
  · intro i max s c s' h rn sweeps st
    exact Semaphore.spares (Semaphore.inv_of_runs h rn).1 sweeps st
  · intro s c s' rn sweeps st
    exact Mutex.spares (Mutex.Sound.of_runs rn).inv sweeps st
  · intro s c s' rn sweeps st
    exact CondVar.spares (CondVar.Delivery.Basic.init.of_runs rn).names sweeps st

section Schedules

/-- The scope of party 1 in the schedules below. -/
abbrev scope1 : CancelToken := ⟨0⟩

/-- Party 1 runs a task in its scope, party 0 one without. -/
def oneScope (cancelled : Bool) : World Nat where
  slots _ := { cancelled := cancelled }
  task t := some { cancelToken := if t = 1 then scope1 else .kNone }

/-- The tokens that select party 1: that of its scope, which has no parent, and the absent one. -/
def selectsScope1 (tok : CancelToken) : Bool := tok = .kNone ∨ tok = scope1

/-- In the example, party 1 is in the scope, and two tokens select it. -/
lemma oneScope_inScope (b : Bool) : (oneScope b).InScope 1 scope1 selectsScope1 where
  token := rfl
  selects tok := by
    by_cases none : tok = .kNone
    · subst none
      rfl
    · by_cases self : tok = scope1
      · subst self
        rfl
      · have apart : ¬0 = tok.raw := fun h => self (congrArg CancelToken.mk h.symm)
        simp [World.selects, CancelToken.isWithin, CancelToken.withinFrom, CancelToken.slotOf, CancelToken.valid,
          CancelToken.kMaxScopeDepth, CancelToken.kNone, CancelToken.kCancelSlots, CancelSlot.genOf, oneScope, scope1,
          selectsScope1, apart] at none self ⊢
        simp [none, self]

/-- In the example the scope is cancelled. -/
lemma oneScope_cancelled : (oneScope true).Cancelled 1 scope1 selectsScope1 where
  toInScope := oneScope_inScope true
  cancelled := by decide

/-- Party 1 is switched out in `WaitCancellable` of a semaphore, in `LockCancellable` of a mutex that party 0 has,
and in `WaitCancellable` of a condition variable. Its scope is cancelled, and party 0 calls `CancelWaiters`. -/
theorem eager_complete_swept :
    (∃ s : Semaphore.St Nat, Semaphore.SweepOver 1 0 scope1 scope1 selectsScope1 s ∧ Semaphore.Swept s 1) ∧
    (∃ s : Mutex.St Nat, Mutex.SweepOver 1 0 scope1 scope1 selectsScope1 s ∧ Mutex.Swept s 1) ∧
    ∃ s : CondVar.St Nat, CondVar.SweepOver 1 0 scope1 scope1 selectsScope1 s ∧
      CondVar.Swept selectsScope1 s 1 := by
  have sh := oneScope_inScope false
  have cn := oneScope_cancelled
  have eager := eager_complete (1 : Nat) 0 scope1 scope1 selectsScope1
  refine ⟨?_, ?_, ?_⟩
  · have r1 := (Runs.refl : Runs Semaphore.Next (Semaphore.Shown 1 scope1 selectsScope1)
      (Semaphore.init (.new 0 1)) _).next (oneScope false, 1) sh (.call .waitCancellable rfl)
    have r2 := r1.next (oneScope false, 1) sh (.checkPass rfl (by decide))
    have r3 := r2.next (oneScope false, 1) sh (.enterPush rfl (by decide) (by decide))
    have r4 := r3.next (oneScope true, 0) cn.toInScope (.call (.cancelWaiters scope1) rfl)
    have q0 : Runs Semaphore.Next (Semaphore.Gone 1 scope1 selectsScope1) _ _ := r4.again
    have q1 := q0.next (oneScope true, 0) cn (.canPass rfl)
    have q2 := q1.next (oneScope true, 0) cn (.canWrite (w := ⟨1, .fiber, true, scope1, 0⟩) rfl)
    have q3 := q2.next (oneScope true, 0) cn (.canResume (w := ⟨1, .fiber, true, scope1, 0⟩) rfl)
    have so : Semaphore.SweepOver 1 0 scope1 scope1 selectsScope1 _ := .intro (by decide) r4 rfl rfl q3 rfl
    exact ⟨_, so, eager.1 _ so⟩
  · have r1 := (Runs.refl : Runs Mutex.Next (Mutex.Shown 1 scope1 selectsScope1) (Mutex.init Nat) _).next
      (oneScope false, 0) sh (.here (.call .lock rfl))
    have r2 := r1.next (oneScope false, 0) sh (.here (.enterTake rfl rfl))
    have r3 := r2.next (oneScope false, 0) sh (.here (.record rfl))
    have r4 := r3.next (oneScope false, 0) sh (.here (.done rfl))
    have r5 := r4.next (oneScope false, 1) sh (.here (.call .lockCancellable rfl))
    have r6 := r5.next (oneScope false, 1) sh (.here (.checkPass rfl (by decide)))
    have r7 := r6.next (oneScope false, 1) sh (.here (.enterPush rfl rfl))
    have r8 := r7.next (oneScope true, 0) cn.toInScope (.here (.call (.cancelWaiters scope1) rfl))
    have q0 : Runs Mutex.Next (Mutex.Ahead 1 0 scope1 scope1 selectsScope1) _ _ := r8.again
    have q1 := q0.next (oneScope true, 0) ⟨cn, nofun⟩ (.here (.canPass rfl))
    have q2 := q1.next (oneScope true, 0) ⟨cn, nofun⟩ (.canWrite (w := ⟨1, .fiber, true, scope1, 0⟩) rfl)
    have q3 := q2.next (oneScope true, 0) ⟨cn, nofun⟩ (.canResume (w := ⟨1, .fiber, true, scope1, 0⟩) rfl)
    have so : Mutex.SweepOver 1 0 scope1 scope1 selectsScope1 _ := .intro r8 rfl rfl q3 rfl
    exact ⟨_, so, eager.2.1 _ so⟩
  · have r1 := (Runs.refl : Runs CondVar.Next (CondVar.Before 1 scope1 selectsScope1) (CondVar.init Nat) _).next
      (oneScope false, 1) ⟨sh, nofun⟩ (.user rfl (.here (.call .lock rfl)))
    have r2 := r1.next (oneScope false, 1) ⟨sh, nofun⟩ (.user rfl (.here (.enterTake rfl rfl)))
    have r3 := r2.next (oneScope false, 1) ⟨sh, nofun⟩ (.user rfl (.here (.record rfl)))
    have r4 := r3.next (oneScope false, 1) ⟨sh, nofun⟩ (.user rfl (.here (.done rfl)))
    have r5 := r4.next (oneScope false, 1) ⟨sh, nofun⟩ (.callWait true rfl rfl rfl)
    have r6 := r5.next (oneScope false, 1) ⟨sh, nofun⟩ (.checkPass rfl (by decide))
    have r7 := r6.next (oneScope false, 1) ⟨sh, nofun⟩ (.push rfl (by decide))
    have r8 := r7.next (oneScope false, 1) ⟨sh, nofun⟩ (.unlock rfl rfl rfl)
    have r9 := r8.next (oneScope false, 1) ⟨sh, nofun⟩ (.mutex rfl nofun nofun (.here (.unlHolder rfl)))
    have r10 := r9.next (oneScope false, 1) ⟨sh, nofun⟩ (.mutex rfl nofun nofun (.here (.unlFree rfl rfl)))
    have r11 := r10.next (oneScope false, 1) ⟨sh, nofun⟩ (.mutex rfl nofun nofun (.here (.unlLoadZero rfl rfl)))
    have r12 := r11.next (oneScope false, 1) ⟨sh, nofun⟩ (.unlocked rfl rfl)
    have r13 := r12.next (oneScope false, 1) ⟨sh, nofun⟩ (.semWait rfl rfl)
    have r14 := r13.next (oneScope false, 1) ⟨sh, nofun⟩ (.inside rfl nofun nofun (.checkPass rfl (by decide)))
    have r15 := r14.next (oneScope false, 1) ⟨sh, nofun⟩
      (.inside rfl nofun nofun (.enterPush rfl (by decide) (by decide)))
    have p0 : Runs CondVar.Next (CondVar.Gone 1 scope1 selectsScope1) _ _ := r15.again
    have p1 := p0.next (oneScope true, 0) cn (.callCancel scope1 rfl rfl)
    have q0 : Runs CondVar.Next (CondVar.Gone 1 scope1 selectsScope1) _ _ := p1.again
    have q1 := q0.next (oneScope true, 0) cn (.canPass rfl)
    have q2 := q1.next (oneScope true, 0) cn (.cancel (k := 0) rfl rfl)
    have q3 := q2.next (oneScope true, 0) cn (.inside rfl nofun nofun (.canPass rfl))
    have q4 := q3.next (oneScope true, 0) cn
      (.inside rfl nofun nofun (.canWrite (w := ⟨1, .fiber, true, scope1, 0⟩) rfl))
    have q5 := q4.next (oneScope true, 0) cn
      (.inside rfl nofun nofun (.canResume (w := ⟨1, .fiber, true, scope1, 0⟩) rfl))
    have q6 := q5.next (oneScope true, 0) cn (.cancelled rfl rfl)
    have so : CondVar.SweepOver 1 0 scope1 scope1 selectsScope1 _ := .intro r15 p1 rfl rfl q6 rfl
    exact ⟨_, so, eager.2.2.1 _ so⟩

/-- Party 1 finds the mutex locked, is cancelled and swept, and queues itself: there it stays, and nobody has it in
hand. -/
theorem queued_behind_last_pass : ∃ s₁ s : Mutex.St Nat,
    Runs Mutex.Next (Mutex.Shown 1 scope1 selectsScope1) (Mutex.init Nat) s₁ ∧ (s₁.th 0).pc = .canEnter scope1 ∧
    Runs Mutex.Next (Mutex.Gone 1 scope1 selectsScope1) s₁ s ∧ (s.th 0).pc = .ret .ejected ∧
    (s.th 1).pc = .parked true ∧ (∃ w ∈ s.mx.waiters, w.party = 1) ∧ ¬Mutex.Swept s 1 := by
  have sh := oneScope_inScope false
  have cn := oneScope_cancelled
  have r1 := (Runs.refl : Runs Mutex.Next (Mutex.Shown 1 scope1 selectsScope1) (Mutex.init Nat) _).next
    (oneScope false, 0) sh
    (.here (.call .lock rfl))
  have r2 := r1.next (oneScope false, 0) sh (.here (.enterTake rfl rfl))
  have r3 := r2.next (oneScope false, 0) sh (.here (.record rfl))
  have r4 := r3.next (oneScope false, 0) sh (.here (.done rfl))
  have r5 := r4.next (oneScope false, 1) sh (.here (.call .lockCancellable rfl))
  have r6 := r5.next (oneScope false, 1) sh (.here (.checkPass rfl (by decide)))
  have r7 := r6.next (oneScope true, 0) cn.toInScope (.here (.call (.cancelWaiters scope1) rfl))
  have q0 : Runs Mutex.Next (Mutex.Gone 1 scope1 selectsScope1) _ _ := r7.again
  have q1 := q0.next (oneScope true, 0) cn (.here (.canPass rfl))
  have q2 := q1.next (oneScope true, 1) cn (.here (.enterPush rfl rfl))
  refine ⟨_, _, r7, rfl, q2, rfl, rfl, ⟨_, List.mem_singleton_self _, rfl⟩, fun sw => ?_⟩
  have plain := sw.unqueued _ (List.mem_singleton_self _) rfl
  cases plain

end Schedules
end JLib.Sync
