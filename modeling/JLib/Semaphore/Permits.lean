import JLib.Semaphore.Custody

/-!
# Semaphore: what happens to a permit

A permit is either in the counter or with the one party whose call consumed it, and a `Signal` gives
it to a waiter before it thinks of the counter. `Conserved` is that promise. `Signal` decides to put
the permit back partly from `empty`, which it read before it dropped the lock around a skipped waiter:
a party that queued itself in the gap is then passed over and the permit sits beside it. `Guard` is the
condition under which this does not happen.
-/

namespace JLib.Semaphore
open LTS

variable {T : Type}

/-- One step of the system: the world it sees and the party that moves. -/
abbrev Next [DecidableEq T] (s : St T) (a : World T × T) (s' : St T) : Prop := Step a.1 s a.2 s'

/-- Inside `Signal`. -/
def Pc.inSignal : Pc T → Bool
  | .sigEnter | .sigTest .. | .sigWrite .. | .sigResume .. | .sigRetake _ => true
  | _ => false

/-- Permits are never lost nor parked beside a waiter. -/
structure Conserved (max : Int) (s : St T) : Prop where
  parked : (∀ t, ¬(s.th t).pc.inSignal) → s.sem.permits > 0 → s.sem.waiters = []
  bound : s.sem.permits ≤ max
  signalled : ∀ t, (s.th t).pc = .ret .signalled → ∃ o, (s.th t).log = [o] ∧ o.Ok max
  cancelled : ∀ t, (s.th t).pc = .ret (.res .cancelled) → (s.th t).got = 0

/-- A `Signal` that skipped what was the last waiter finds, when it has the lock again, that nobody
came in the meantime, or that the permit will not make the counter positive. -/
def Guard (s : St T) (a : World T × T) : Prop :=
  (s.th a.2).pc = .sigRetake true →
    s.sem.waiters = [] ∨ s.sem.permits < 0 ∨ s.sem.permits = s.sem.maxPermits

/-- No permit is in the counter while somebody is queued. -/
def Unparked (m : Sem T) : Prop := m.permits > 0 → m.waiters = []

namespace Unparked
variable {m : Sem T}

/-- Taking a permit leaves the queue alone. -/
lemma take (h : Unparked m) : Unparked m.take := by
  intro hp
  simp only [Sem.take] at hp
  exact h (by omega)

/-- A party queues itself only when it finds no permit. -/
lemma push (h : ¬m.permits > 0) {t : T} {kind : WaiterKind} {sl : Bool} {tok : CancelToken} :
    Unparked (m.push t kind sl tok) :=
  fun hp => absurd hp h

/-- A waiter is popped only when there is no permit. -/
lemma pop (h : Unparked m) {w : Waiter T} {ws : List (Waiter T)} (hq : m.waiters = w :: ws) :
    Unparked { m with waiters := ws } := by
  intro hp
  have := h hp
  rw [hq] at this
  cases this

/-- A permit goes to the counter when nobody is queued, or when that does not make it positive. -/
lemma put (h : Unparked m) (hq : m.waiters = [] ∨ m.permits < 0 ∨ m.permits = m.maxPermits) :
    Unparked m.put := by
  unfold Sem.put
  split
  · intro hp
    rcases hq with hq | hq | hq
    · exact hq
    · simp only at hp; omega
    · omega
  · exact h

/-- Ejecting waiters puts nobody into the queue. -/
lemma cancelPass (h : Unparked m) {c : World T} {tok : CancelToken} :
    Unparked (m.cancelPass c tok).2 := by
  intro hp
  have sub : (m.cancelPass c tok).2.waiters.Sublist m.waiters := eject_keep_sublist _ _ _
  rw [h hp] at sub
  exact List.sublist_nil.1 sub

end Unparked

variable [DecidableEq T]

/-- A permit is taken off the counter. -/
@[simp] lemma St.takeFor_sem (s : St T) (t : T) (p : Pc T) : (s.takeFor t p).sem = s.sem.take := rfl
/-- A permit is put on the counter. -/
@[simp] lemma St.putBack_sem (s : St T) (t : T) : (s.putBack t).sem = s.sem.put := rfl
/-- Resuming a waiter leaves the semaphore. -/
@[simp] lemma St.resume_sem (s : St T) (w : Waiter T) : (s.resume w).sem = s.sem := rfl
/-- A grant leaves the semaphore. -/
@[simp] lemma St.grant_sem (s : St T) (t : T) (w : Waiter T) : (s.grant t w).sem = s.sem := rfl

/-- A slot is not the semaphore. -/
@[simp] lemma St.writeSlot_sem (s : St T) (w : Waiter T) (r : WaitResult) :
    (s.writeSlot w r).sem = s.sem := by
  unfold St.writeSlot
  split <;> rfl

/-- A step that meets the guard keeps the counter empty while somebody is queued. -/
lemma Unparked.step {s s' : St T} {a : World T × T} (up : Unparked s.sem) (hg : Guard s a)
    (st : Next s a s') : Unparked s'.sem := by
  cases st with
  | enterTake _ _ | bareTake _ _ | tryTake _ _ | asyncTake _ _ => exact up.take
  | enterPush _ hp _ | asyncPush _ hp _ => exact Unparked.push hp
  | sigEmpty _ hq => exact up.put (.inl hq)
  | @sigBack e h hq =>
    refine up.put ?_
    rcases hq with rfl | hq
    · exact hg h
    · exact .inl hq
  | sigPop _ hq | sigNext _ hq => exact up.pop hq
  | canPass _ => exact up.cancelPass
  | sigWrite _ | canWrite _ => simpa using up
  | _ => exact up

/-- The semaphore keeps its maximum. -/
lemma Step.maxPermits {c : World T} {s s' : St T} {t : T} (st : Step c s t s') :
    s'.sem.maxPermits = s.sem.maxPermits := by
  cases st with
  | sigEmpty _ _ | sigBack _ _ => simp only [St.putBack_sem, Sem.put]; split <;> rfl
  | sigWrite _ | canWrite _ => simp
  | _ => rfl

/-- What holds in every state of every run, guarded or not. -/
lemma inv_of_runs {ok : St T → World T × T → Prop} {i max : Int} (h : i ≤ max) {s : St T}
    (rn : Runs Next ok (init (Sem.new i max)) s) : Inv s ∧ s.sem.maxPermits = max := by
  refine rn.invariant (I := fun s => Inv s ∧ s.sem.maxPermits = max) ⟨Inv.init rfl h, rfl⟩ ?_
  rintro s a s' ⟨inv, hm⟩ - st
  exact ⟨inv.step st, st.maxPermits.trans hm⟩

/-- Permits are conserved in every run whose steps meet the guard. -/
theorem permits_conserved {i max : Int} (h : i ≤ max) {s : St T}
    (rn : Runs Next Guard (init (Sem.new i max)) s) : Conserved max s := by
  obtain ⟨inv, hm⟩ := inv_of_runs h rn
  have up : Unparked s.sem :=
    rn.invariant (I := fun s => Unparked s.sem) (fun _ => rfl) fun up hg st => up.step hg st
  refine ⟨fun _ => up, hm ▸ inv.bound, fun t ht => ?_, fun t ht => ?_⟩
  · have ok := inv.ok t
    simp only [Thread.Ok, ht] at ok
    exact hm ▸ ok
  · have ok := inv.ok t
    simp only [Thread.Ok, ht] at ok
    exact ok

section Gap

/-- The fiber 1, cancellable. -/
def w1 : Waiter Nat := ⟨1, .fiber, true, .kNone, 0⟩

/-- A run to the point where the `Signal` of 0 has popped 1, found it cancelled and is about to say so.
The guard is not at stake on the way. -/
lemma gap_reached : ∃ s : St Nat, Runs Next Guard (init (Sem.new 0 1)) s ∧
    s.sem = ⟨0, 1, [], 1⟩ ∧ s.th 0 = { pc := .sigWrite w1 true true } ∧
    s.th 1 = { pc := .parked true } ∧ ∀ t, t ≠ 0 → t ≠ 1 → s.th t = {} := by
  have r1 := (Runs.refl : Runs Next Guard (init (Sem.new 0 1)) _).next (.direct [], 1)
    (fun h => by cases h) (.call .waitCancellable rfl)
  have r2 := r1.next (.direct [], 1) (fun h => by cases h) (.checkPass (b := false) rfl (by simp))
  have r3 := r2.next (.direct [], 1) (fun h => by cases h)
    (.enterPush rfl (by decide) (by simp))
  have r4 := r3.next (.direct [], 0) (fun h => by cases h) (.call .signal rfl)
  have r5 := r4.next (.direct [], 0) (fun h => by cases h) (.sigPop (w := w1) rfl rfl)
  have r6 := r5.next (.direct [1], 0) (fun h => by cases h) (.sigTest (w := w1) rfl)
  refine ⟨_, r6, rfl, ?_, rfl, fun t h0 h1 => ?_⟩
  · simp [w1]
  · simp [h0, h1, init]

/-- A party that queues itself in the gap is left in the queue beside the permit. -/
theorem permit_parked_beside_waiter :
    ∃ s : St Nat, Reaches Next (init (Sem.new 0 1)) s ∧ ¬Conserved 1 s := by
  obtain ⟨s, rn, hs, h0, h1, ho⟩ := gap_reached
  have r1 := rn.reaches.next (.direct [1], 2) trivial (.call .wait (by simp [ho 2]))
  have r2 := r1.next (.direct [1], 2) trivial
    (.enterPush rfl (by simp [hs]) (by simp))
  have r3 := r2.next (.direct [1], 0) trivial
    (.sigWrite (congrArg Thread.pc h0))
  have r4 := r3.next (.direct [1], 0) trivial (.sigSkip rfl)
  have r5 := r4.next (.direct [1], 0) trivial (.sigBack rfl (.inl rfl))
  have r6 := r5.next (.direct [1], 0) trivial (.done (r := .signalled) (by simp [St.putBack]))
  refine ⟨_, r6, fun con => ?_⟩
  have := con.parked (fun t => ?_) (by simp [hs, Sem.put, Sem.push])
  · simp [hs, Sem.put, Sem.push] at this
  · by_cases e0 : t = 0
    · subst e0
      simp [Pc.inSignal]
    · by_cases e1 : t = 1
      · subst e1
        simp [St.putBack, St.resume, St.writeSlot, w1, Pc.inSignal]
      · by_cases e2 : t = 2
        · subst e2
          simp [St.putBack, St.resume, St.writeSlot, w1, Pc.inSignal]
        · simp [St.putBack, St.resume, St.writeSlot, w1, e0, e1, e2, ho t e0 e1, Pc.inSignal]

/-- Nobody comes in the gap: the permit of the skipped waiter goes to the counter. -/
theorem permits_conserved_skip : ∃ s : St Nat, Runs Next Guard (init (Sem.new 0 1)) s ∧
    s.sem.permits = 1 ∧ Conserved 1 s := by
  obtain ⟨s, rn, hs, h0, h1, ho⟩ := gap_reached
  have r3 := rn.next (.direct [1], 0) (fun h => by simp [h0] at h)
    (.sigWrite (congrArg Thread.pc h0))
  have r4 := r3.next (.direct [1], 0) (fun h => by simp at h)
    (.sigSkip rfl)
  have r5 := r4.next (.direct [1], 0) (fun _ => .inl (by simp [hs]))
    (.sigBack rfl (.inl rfl))
  exact ⟨_, r5, by simp [hs, Sem.put], permits_conserved (by decide) r5⟩

end Gap
end JLib.Semaphore
