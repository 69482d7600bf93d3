import JLib.Timer.Queue

/-!
# Stop and Start

`Stop` ends the worker thread and `Start` only clears the latch: the next `Arm` is to spawn the thread
again. It does so if `running` is not set, and nothing ever clears `running`, so the timers of a queue
that was stopped once are accepted and there is no thread to fire them.
-/

namespace JLib.Timer
open LTS Impl

variable {s u : Queue} {a : Label}

/-- A timer that was accepted since the last `Start` and neither fired nor was disarmed. -/
def Queue.pending (s : Queue) (h : TimerHandle) : Prop :=
  h ∈ s.fresh ∧ (s.impl.entries h.idx).generation = h.generation ∧ h.generation % 2 = 1

/-- The condition on an accepted `Arm`: the flag does not stand for a thread that has ended. -/
def FlagTrue (s : Queue) : Label → Prop
  | .arm call => s.accepts call = true → s.running = true → s.worker ≠ .absent
  | _ => True

/-- There is a thread, or the queue is stopping, or nothing was accepted since it was started. -/
def Alive (s : Queue) : Prop := s.worker = .absent → s.stopping = true ∨ s.fresh = []

/-- `Arm` starts a thread, or the one it trusts in is there. -/
lemma Alive.arm {call : Call} (al : Alive s) (ok : FlagTrue s (.arm call)) : Alive (s.Arm call) := by
  by_cases acc : s.accepts call = true
  · rw [Queue.Arm_eq acc]
    intro gone
    change (if s.running then s.worker else .awake) = .absent at gone
    split at gone
    next run => exact absurd gone (ok acc run)
    next => cases gone
  · have e : s.Arm call = s := by
      unfold Queue.Arm
      rw [if_neg acc]
    rw [e]
    exact al

/-- A step under the condition leaves a thread for what is pending. -/
lemma Alive.step (al : Alive s) (ok : FlagTrue s a) (st : Step s a u) : Alive u := by
  cases st with
  | tick _ => exact al
  | arm => exact al.arm ok
  | disarm => exact al
  | run awake _ =>
    -- a pass leaves the thread awake or blocked
    intro gone
    exfalso
    unfold Queue.Run at gone
    simp only at gone
    split at gone
    · cases gone
    · cases gone
    · rw [awake] at gone
      cases gone
    · rw [awake] at gone
      cases gone
  | wake _ =>
    intro gone
    cases gone
  | exit _ stopping => exact fun _ => .inl stopping
  | stop =>
    unfold Queue.Stop
    split
    · exact al
    · exact fun _ => .inl rfl
  | start => exact fun _ => .inr rfl

/-- In every run in which no accepted `Arm` finds the flag of a thread that has ended, a queue that is
not stopping and has a timer pending that was accepted since the last `Start` has a worker thread. -/
theorem stop_start_keeps_worker (rn : Runs Step FlagTrue {} s) (up : s.stopping = false)
    {h : TimerHandle} (pend : s.pending h) : s.worker ≠ .absent := by
  have al : Alive s := rn.invariant (I := Alive) (fun _ => .inr rfl) fun al ok st => al.step ok st
  intro gone
  rcases al gone with e | e
  · rw [up] at e
    cases e
  · have := pend.1
    rw [e] at this
    cases this

/-- A queue that was stopped and started before its first timer. -/
theorem stop_start_keeps_worker_fresh :
    ∃ s, Runs Step FlagTrue {} s ∧ s.stopping = false ∧ s.pending ⟨0, 1⟩ ∧ s.worker ≠ .absent := by
  have r1 := (Runs.refl : Runs Step FlagTrue {} {}).next .stop trivial .stop
  have r2 := r1.next .start trivial .start
  have r3 := r2.next (.arm ⟨5000000, ⟨1, none, none⟩, true, false⟩)
    (fun _ run => by cases run) .arm
  have pend : ((({} : Queue).Stop.Start).Arm ⟨5000000, ⟨1, none, none⟩, true, false⟩).pending
      ⟨0, 1⟩ := ⟨by decide +kernel, by decide +kernel, by decide +kernel⟩
  exact ⟨_, r3, by decide +kernel, pend, stop_start_keeps_worker r3 (by decide +kernel) pend⟩

/-- A timer is armed, the queue is stopped and the thread ends. After `Start` another timer is accepted,
and there is no thread. -/
theorem no_worker_after_restart :
    ∃ s, Reaches Step {} s ∧ s.stopping = false ∧ s.pending ⟨1, 1⟩ ∧ s.worker = .absent := by
  have r1 := (Runs.refl : Reaches Step {} {}).next (.arm ⟨5000000, ⟨1, none, none⟩, true, false⟩)
    trivial .arm
  have r2 := r1.next .stop trivial .stop
  have r3 := r2.next .exit trivial (.exit (by decide +kernel) (by decide +kernel))
  have r4 := r3.next .start trivial .start
  have r5 := r4.next (.arm ⟨5000000, ⟨2, none, none⟩, true, false⟩) trivial .arm
  exact ⟨_, r5, by decide +kernel, ⟨by decide +kernel, by decide +kernel, by decide +kernel⟩,
    by decide +kernel⟩

end JLib.Timer
