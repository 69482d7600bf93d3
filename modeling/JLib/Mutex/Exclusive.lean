import JLib.Mutex.Fifo
import JLib.Mutex.Bare

/-!
# Mutex: exclusive and never orphaned

What callers of `SchedulerMutex` rely on, in every state of every run: at most one owner, `locked`
tells whether there is one, a cancelled call has nothing, waiters are served in order and none is left
out unless a step of the run found it cancelled, a free lock has no queue, and no bare thread sleeps
beside a free lock with nobody about to wake one.
-/

namespace JLib.Mutex
open LTS

variable {T : Type} [DecidableEq T]

/-- Inside `Unlock`. -/
def Pc.inUnlock : Pc T → Bool
  | .unlHolder | .unlLoop | .unlTest _ | .unlSkip _ | .unlSkipResume _ | .unlWrite _ | .unlRecord _
  | .unlResume _ | .unlLoad | .unlBareLock | .unlBareUnlock | .unlNotify => true
  | _ => false

/-- Inside the part of `Lock` for parties without a fiber. -/
def Pc.inBareLock : Pc T → Bool
  | .lockTry _ | .bareRegister | .bareAcquire | .barePred | .bareFailed | .asleep | .notified
  | .bareRecord | .bareRelease | .bareDeregister => true
  | _ => false

/-- The owner: a call of it has the lock, on the way out or returned, and it has not called `Unlock`
since; or an `Unlock` popped it as the waiter to hand the lock to. -/
def St.Owner (s : St T) (t : T) : Prop :=
  (s.th t).holds ∨ ((s.th t).carries ∧ ¬(s.th t).pc.inUnlock) ∨
    ∃ i w, (s.th i).pc.chosen = some w ∧ w.party = t

/-- What the mutex promises. A sleeper that was notified has left `asleep` for `notified`, so with
nobody notified `wake` says that nobody is asleep. -/
structure Exclusive (s : St T) : Prop where
  unique : ∀ t u, s.Owner t → s.Owner u → t = u
  locked : ∀ t, s.Owner t → s.mx.locked = true
  owned : (∀ t, ¬(s.th t).pc.inUnlock) → s.mx.locked = true → ∃ t, s.Owner t
  cancelled : ∀ t, (s.th t).pc = .ret (.res .cancelled) →
    (s.th t).got = false ∧ (s.Owner t → (s.th t).holds)
  order : s.mx.grants.Pairwise (· < ·)
  served : ∀ g ∈ s.mx.grants, ∀ k < g, k ∈ s.mx.grants ∨ k ∈ s.mx.gone
  quiet : s.mx.locked = false → s.mx.waiters = []
  wake : s.mx.locked = false → (∀ t, ¬(s.th t).pc.inUnlock) →
    (∀ t, (s.th t).pc.inBareLock → (s.th t).pc = .asleep ∨ (s.th t).pc = .notified) →
    (∃ t, (s.th t).pc = .asleep) → ∃ u, (s.th u).pc = .notified

/-- A step finds the waiter with this ticket cancelled: `Unlock` popped it and its task is, or
`CancelWaiters` selects the token it queued with. A waiter without a result slot is never found so. -/
def St.Strikes (s : St T) (a : World T × T) (k : Nat) : Prop :=
  ∃ w, w.ticket = k ∧ w.slot = true ∧
    (((s.th a.2).pc = .unlTest w ∧ a.1.isTaskCancelled w.party = true) ∨
      ∃ tok, (s.th a.2).pc = .canEnter tok ∧ w ∈ s.mx.waiters ∧ a.1.selects tok w.token = true)

section Gone
variable {s s' : St T} {c : World T} {t : T} {m : Mtx T} {h : Thread T} {k : Nat}

omit [DecidableEq T] in
/-- A step of `Local` puts a ticket among the gone only by finding its waiter cancelled. -/
lemma Local.gone (lo : Local c t s.mx (s.th t) m h) (hk : k ∈ m.gone) :
    k ∈ s.mx.gone ∨ s.Strikes (c, t) k := by
  cases lo with
  | @unlTestSkip w e hc =>
    rcases List.mem_append.1 hk with hk | hk
    · exact .inl hk
    · obtain ⟨sl, tc⟩ := Bool.and_eq_true_iff.1 hc
      exact .inr ⟨w, (List.mem_singleton.1 hk).symm, sl, .inl ⟨e, tc⟩⟩
  | @canPass tok e =>
    rcases List.mem_append.1 hk with hk | hk
    · exact .inl hk
    · obtain ⟨w, hw, rfl⟩ := List.mem_map.1 hk
      obtain ⟨sl, se⟩ := Bool.and_eq_true_iff.1 (eject_victims_match
        (fun w : Waiter T => w.slot && c.selects tok w.token) hw)
      exact .inr ⟨w, rfl, sl, .inr ⟨tok, e, (eject_victims_sublist _ _ _).subset hw, se⟩⟩
  | _ => exact .inl hk

/-- So does every step: those that reach into another party's frame leave the mutex alone. -/
lemma Step.gone (st : Step c s t s') (hk : k ∈ s'.mx.gone) :
    k ∈ s.mx.gone ∨ s.Strikes (c, t) k := by
  cases st with
  | here lo => exact lo.gone hk
  | _ => exact .inl hk

/-- Along a run: whoever is gone was found cancelled by a step of it. -/
lemma struck_of_gone {ok : St T → World T × T → Prop} (rn : Runs Next ok (init T) s)
    (hk : k ∈ s.mx.gone) :
    ∃ u a v, Runs Next ok (init T) u ∧ ok u a ∧ Next u a v ∧ Runs Next ok v s ∧ u.Strikes a k := by
  induction rn with
  | refl => cases hk
  | @tail u a v rn hok st ih =>
    rcases Step.gone st hk with hk | hk
    · obtain ⟨x, b, y, r1, okb, sb, r2, str⟩ := ih hk
      exact ⟨x, b, y, r1, okb, sb, r2.tail hok st, str⟩
    · exact ⟨u, a, v, rn, hok, st, .refl, hk⟩

end Gone

/-- All the invariants together. -/
structure Sound (s : St T) : Prop where
  inv : Inv s
  owned : Owned s
  fifo : Fifo s.mx s.th
  bare : Bare s.mx s.th

namespace Sound
variable {s s' : St T} {c : World T} {t : T}

/-- All the invariants hold at first. -/
lemma init : Sound (Mutex.init T) := ⟨Inv.init, Owned.init, Fifo.init, Bare.init⟩

/-- Every step keeps all the invariants. -/
lemma step (sd : Sound s) (st : Step c s t s') : Sound s' :=
  ⟨sd.inv.step st, sd.owned.step sd.inv st, sd.fifo.step sd.inv sd.owned st, sd.bare.step sd.inv st⟩

/-- The invariants hold along every run, whatever the world does. -/
lemma of_runs {ok : St T → World T × T → Prop} (rn : Runs Next ok (Mutex.init T) s) : Sound s :=
  rn.invariant init fun sd _ st => sd.step st

/-- The owner is the one in the records. -/
lemma owner_eq (sd : Sound s) (ht : s.Owner t) : s.mx.owner = some t := by
  rcases ht with ht | ⟨ht, -⟩ | ⟨i, w, hw, rfl⟩
  · exact (sd.owned.own.holds t ht).1
  · exact sd.owned.own.carries t ht
  · exact (sd.owned.own.chosen i w hw).1

/-- Outside `Unlock` a locked mutex has an owner. -/
lemma exists_owner (sd : Sound s) (nu : ∀ t, ¬(s.th t).pc.inUnlock) (hl : s.mx.locked = true) :
    ∃ t, s.Owner t := by
  have hs := sd.owned.flag
  rw [hl] at hs
  obtain ⟨t, ht⟩ := Option.isSome_iff_exists.1 hs.symm
  refine ⟨t, ?_⟩
  rcases sd.owned.own.found t ht with hf | hf | hf
  · exact .inl hf
  · exact .inr (.inl ⟨hf, nu t⟩)
  · exact .inr (.inr hf)

/-- A call that returns `Cancelled` was not given the lock. -/
lemma cancelled (sd : Sound s) (ht : (s.th t).pc = .ret (.res .cancelled)) :
    (s.th t).got = false ∧ (s.Owner t → (s.th t).holds) := by
  have ok := sd.inv.ok t
  simp only [Thread.Ok, ht] at ok
  refine ⟨ok, fun ho => ?_⟩
  rcases ho with ho | ⟨ho, -⟩ | ⟨i, w, hw, rfl⟩
  · exact ho
  · simp [Thread.carries, ht] at ho
  · -- a chosen waiter is still parked
    obtain ⟨b, pk⟩ := sd.inv.cus.parked_of_held (i := i) (Pc.mem_hand_of_chosen hw)
    rw [show (s.th w.party).pc = .parked b from pk] at ht
    cases ht

/-- Outside `Unlock`, a free lock with sleepers has somebody on the way who was notified. -/
lemma wake (sd : Sound s) (hl : s.mx.locked = false) (nu : ∀ t, ¬(s.th t).pc.inUnlock)
    (hb : ∀ t, (s.th t).pc.inBareLock → (s.th t).pc = .asleep ∨ (s.th t).pc = .notified)
    (ha : ∃ t, (s.th t).pc = .asleep) : ∃ u, (s.th u).pc = .notified := by
  obtain ⟨t, ht⟩ := ha
  obtain ⟨u, hu⟩ := sd.bare.asleep hl t (by rw [ht]; rfl)
  refine ⟨u, ?_⟩
  have nu := nu u
  have hb := hb u
  -- whoever is on the way to a wake is inside `Unlock`, or inside `Lock` and notified
  cases e : (s.th u).pc with
  | notified => rfl
  | bareAcquire | barePred =>
    rw [e] at hb
    rcases hb rfl with hb | hb <;> cases hb
  | unlLoad | unlBareLock | unlBareUnlock | unlNotify =>
    rw [e] at nu
    exact absurd rfl nu
  | _ =>
    rw [e] at hu
    cases hu

end Sound

/-- The mutex keeps its promises in every state of every run, and whoever the grants left out was found
cancelled by a step of that run. `ok` is any condition that the steps of the run meet: under one that no
step of `CancelWaiters` or `Unlock` finds ticket `k` cancelled, `k` is served before all that follow. -/
theorem mutex_exclusive {ok : St T → World T × T → Prop} {s : St T}
    (rn : Runs Next ok (init T) s) :
    Exclusive s ∧ ∀ k ∈ s.mx.gone, ∃ u a v, Runs Next ok (init T) u ∧ ok u a ∧ Next u a v ∧
      Runs Next ok v s ∧ u.Strikes a k := by
  have sd := Sound.of_runs rn
  refine ⟨?_, fun k hk => struck_of_gone rn hk⟩
  constructor
  · intro t u ht hu
    exact Option.some.inj ((sd.owner_eq ht).symm.trans (sd.owner_eq hu))
  · intro t ht
    rw [sd.owned.flag, sd.owner_eq ht]
    rfl
  · exact fun nu hl => sd.exists_owner nu hl
  · exact fun t ht => sd.cancelled ht
  · exact sd.fifo.order
  · exact fun g hg k hk => sd.fifo.settled hg hk
  · exact sd.owned.quiet
  · exact fun hl nu hb ha => sd.wake hl nu hb ha

/-- Fiber 0 takes the lock, fibers 1 and 2 queue, the task of fiber 1 is cancelled: the `Unlock` passes it
over and hands the lock to fiber 2. -/
theorem mutex_exclusive_handover : ∃ s : St Nat, Reaches Next (init Nat) s ∧
    s.mx.grants = [1] ∧ s.mx.gone = [0] ∧ s.Owner 2 ∧ Exclusive s ∧
    ∃ u a, Reaches Next (init Nat) u ∧ u.Strikes a 0 := by
  have r1 := (Runs.refl : Reaches Next (init Nat) _).next (.direct [], 0) trivial
    (.here (.call .lock rfl))
  have r2 := r1.next (.direct [], 0) trivial (.here (.enterTake rfl rfl))
  have r3 := r2.next (.direct [], 0) trivial (.here (.record rfl))
  have r4 := r3.next (.direct [], 0) trivial (.here (.done rfl))
  have r5 := r4.next (.direct [], 1) trivial (.here (.call .lockCancellable rfl))
  have r6 := r5.next (.direct [], 1) trivial (.here (.checkPass rfl (by simp)))
  have r7 := r6.next (.direct [], 1) trivial (.here (.enterPush rfl rfl))
  have r8 := r7.next (.direct [], 2) trivial (.here (.call .lockCancellable rfl))
  have r9 := r8.next (.direct [], 2) trivial (.here (.checkPass rfl (by simp)))
  have r10 := r9.next (.direct [], 2) trivial (.here (.enterPush rfl rfl))
  have r11 := r10.next (.direct [1], 0) trivial (.here (.callUnlock rfl rfl))
  have r12 := r11.next (.direct [1], 0) trivial (.here (.unlHolder rfl))
  have r13 := r12.next (.direct [1], 0) trivial (.here (.unlPop rfl rfl))
  have r14 := r13.next (.direct [1], 0) trivial (.here (.unlTestSkip rfl (by simp)))
  have r15 := r14.next (.direct [1], 0) trivial (.unlSkip rfl)
  have r16 := r15.next (.direct [1], 0) trivial (.unlSkipResume rfl)
  have r17 := r16.next (.direct [1], 0) trivial (.here (.unlPop rfl rfl))
  have r18 := r17.next (.direct [1], 0) trivial (.here (.unlTestChoose rfl (by simp)))
  have r19 := r18.next (.direct [1], 0) trivial (.unlWrite rfl)
  have r20 := r19.next (.direct [1], 0) trivial (.unlResume rfl)
  obtain ⟨ex, struck⟩ := mutex_exclusive r20
  obtain ⟨u, a, v, r, -, -, -, hu⟩ := struck 0 (List.mem_singleton_self 0)
  exact ⟨_, r20, rfl, rfl, .inr (.inl ⟨rfl, by decide⟩), ex, u, a, r, hu⟩

end JLib.Mutex
