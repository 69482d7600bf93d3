import JLib.CompletionPort.Answers
import JLib.LTS.Balance
import Mathlib.Data.List.Perm.Lattice

/-!
# The tasks of the completions

The thread that answers an operation takes its task along: into a batch, and with that to the scheduler. A `Flush` of
a pool that is not up drops the batch; and a thread that takes its last wake-up between its look at `stopping` and its
poll leaves with its batch.
-/

namespace JLib.CompletionPort
open LTS Io

variable {θ ρ τ : Type} [DecidableEq τ] {w : Setup τ} {s s' : State θ ρ τ}
  {l : Label θ ρ τ} {u : Nat} {x : τ}

/-- The next step of the thread is a `Flush`. -/
def State.flushes (w : Setup τ) (s : State θ ρ τ) (u : Nat) : Bool :=
  match (s.thread u).loop with
  | .wait => true
  | .hook resume => resume.isSome && ((s.thread u).collect w.isLowLatency resume).full
  | .check => s.stopping
  | _ => false

/-- The pool is up when a thread flushes, and no thread leaves with a batch. -/
def Delivers (w : Setup τ) (s : State θ ρ τ) : Label θ ρ τ → Prop
  | .thread u => s.flushes w u = true → s.initialized = true
  | .exit u => (s.thread u).hand = []
  | _ => True

/-- How often a thread has the task. -/
def Thread.holds (x : τ) (h : Thread ρ τ) : Int := h.hand.count x

/-- The threads have what was completed and neither handed on nor dropped. -/
def Owed (s : State θ ρ τ) : Prop :=
  ∀ x, Balance (fun u => (s.thread u).holds x) (s.completed.count x - s.pushed.count x - s.dropped.count x)

/-- A thread's step that changes what it has by what was completed and handed on. -/
lemma Owed.set {h : Thread ρ τ} (ow : Owed s) (ht : s'.thread = Function.update s.thread u h)
    (diff : ∀ x, (s'.completed.count x : Int) - s'.pushed.count x - s'.dropped.count x =
      s.completed.count x - s.pushed.count x - s.dropped.count x + (h.holds x - (s.thread u).holds x)) : Owed s' := by
  intro x
  rw [diff x, ht]
  exact (ow x).step u h

/-- A thread goes on with what it holds. -/
lemma Owed.same {h : Thread ρ τ} (ow : Owed s) (ht : s'.thread = Function.update s.thread u h)
    (hand : h.hand = (s.thread u).hand) (hc : s'.completed = s.completed) (hp : s'.pushed = s.pushed)
    (hd : s'.dropped = s.dropped) : Owed s' := by
  refine ow.set ht fun x => ?_
  unfold Thread.holds
  rw [hc, hp, hd, hand, Int.sub_self, Int.add_zero]

variable [DecidableEq θ]

omit [DecidableEq τ] in
/-- What a thread has that is not at a task. -/
lemma hand_of_ne {h : Thread ρ τ} (ne : ∀ resume, h.loop ≠ .hook resume) : h.hand = h.batchHi ++ h.batchLo := by
  unfold Thread.hand
  split
  · rename_i resume e
    exact absurd e (ne resume)
  · rfl

omit [DecidableEq θ] in
/-- `Flush` hands on what is in the batches, or drops it. -/
lemma Owed.flush {h : Thread ρ τ} (ow : Owed s) (ne : ∀ resume, h.loop ≠ .hook resume)
    (hand : ∀ x, h.hand.count x = (s.thread u).hand.count x) : Owed (s.Flush u h) := by
  refine ow.set rfl fun x => ?_
  have none : Thread.hand { h with batchHi := [], batchLo := [] } = [] := hand_of_ne ne
  have all : h.hand.count x = (h.batchHi ++ h.batchLo).count x := congrArg (List.count x) (hand_of_ne ne)
  unfold Thread.holds
  rw [none, List.count_nil, ← hand x, all]
  show (s.completed.count x : Int) - (List.count x (if s.initialized then _ else _) : Nat) -
    (List.count x (if s.initialized then _ else _) : Nat) = _ + (_ - _)
  split <;> rw [List.count_append] <;> omega

/-- What is collected the thread has had before. -/
lemma hand_collect {h : Thread ρ τ} {isLowLatency : τ → Bool} {resume : Option τ} (e : h.loop = .hook resume) (x : τ) :
    (Thread.hand { h.collect isLowLatency resume with loop := (.check : Loop ρ τ) }).count x = h.hand.count x := by
  have before : h.hand = h.batchHi ++ h.batchLo ++ resume.toList := by
    unfold Thread.hand
    rw [e]
  have after : Thread.hand { h.collect isLowLatency resume with loop := (.check : Loop ρ τ) } =
      (h.collect isLowLatency resume).batchHi ++ (h.collect isLowLatency resume).batchLo := hand_of_ne nofun
  rw [before, after]
  cases resume with
  | none =>
    rw [Option.toList_none, List.append_nil]
    rfl
  | some y =>
    unfold Thread.collect
    dsimp only
    split
    · simp only [List.count_append, Option.toList_some]
      omega
    · rw [List.append_assoc]
      rfl

variable [DecidableEq ρ]

/-- A step keeps the account of the tasks. -/
lemma Step.owed (st : Step w s l s') (ow : Owed s) : Owed s' := by
  have loop : ∀ {u} {c : Loop ρ τ}, (∀ resume, (s.thread u).loop ≠ .hook resume) → (∀ resume, c ≠ .hook resume) →
      Thread.hand { s.thread u with loop := c } = (s.thread u).hand := by
    intro u c ne ne'
    rw [hand_of_ne ne, hand_of_ne ne']
  cases st with
  | packet _ e | null _ e | stays e | exit e =>
    exact ow.same rfl (loop (by rw [e]; exact nofun) nofun) rfl rfl rfl
  | wakes e =>
    refine ow.same rfl (loop (by rw [e]; exact nofun) fun resume => ?_) rfl rfl rfl
    split <;> exact nofun
  | timeout _ e => exact ow.flush (by rw [e]; exact nofun) fun _ => rfl
  | @unlink u r res e =>
    refine ow.set rfl fun x => ?_
    have before : (s.thread u).hand = (s.thread u).batchHi ++ (s.thread u).batchLo :=
      hand_of_ne (by rw [e]; exact nofun)
    unfold Thread.holds
    rw [before]
    show (((s.completed ++ (s.resume r).toList).count x : Nat) : Int) - (s.pushed.count x : Nat) -
      (s.dropped.count x : Nat) =
        _ + ((((s.thread u).batchHi ++ (s.thread u).batchLo ++ (s.resume r).toList).count x : Nat) - _)
    simp only [List.count_append]
    omega
  | @collect u resume h e hh =>
    subst hh
    split
    · exact ow.flush nofun (hand_collect e)
    · refine ow.set rfl fun x => ?_
      unfold Thread.holds
      rw [hand_collect e]
      show (s.completed.count x : Int) - s.pushed.count x - s.dropped.count x = _
      omega
  | @check u h e hh =>
    subst hh
    have same := loop (u := u) (c := .wait) (by rw [e]; exact nofun) nofun
    split
    · exact ow.flush nofun fun x => by rw [same]
    · exact ow.same rfl same rfl rfl rfl
  | ensure | ensureOnly =>
    unfold State.EnsureThreads
    split <;> exact ow
  | _ => exact ow

/-- The account of the tasks holds in every state of a run. -/
lemma Owed.of_runs {ok : State θ ρ τ → Label θ ρ τ → Prop} (rn : Runs (Step w) ok {} s) : Owed s := by
  have init : Owed ({} : State θ ρ τ) := fun _ => .rest
  refine rn.invariant init ?_
  intro s l s' ow _ st
  exact st.owed ow

omit [DecidableEq θ] [DecidableEq ρ] in
/-- What a thread has was completed, and so was what was handed on. -/
lemma Owed.le (ow : Owed s) (u : Nat) (x : τ) :
    (s.thread u).hand.count x + s.pushed.count x + s.dropped.count x ≤ s.completed.count x := by
  have le : (s.thread u).holds x ≤ s.completed.count x - s.pushed.count x - s.dropped.count x :=
    (ow x).le_of_nonneg (fun u => Int.natCast_nonneg _) u
  unfold Thread.holds at le
  omega

/-- Nothing is dropped, and who has left holds nothing. -/
structure Left (s : State θ ρ τ) : Prop where
  dropped : s.dropped = []
  exited : ∀ u, (s.thread u).loop = .exited → (s.thread u).hand = []

omit [DecidableEq τ] in
/-- A step under the condition drops nothing. -/
lemma Step.left (st : Step w s l s') (ok : Delivers w s l) (lf : Left s) : Left s' := by
  have set : ∀ {r : State θ ρ τ} {u h}, r.thread = s.thread → r.dropped = s.dropped →
      (h.loop = .exited → h.hand = []) → Left (r.setThread u h) := by
    intro r u h same none own
    refine ⟨none.trans lf.dropped, fun v e => ?_⟩
    by_cases ev : v = u
    · subst ev
      rw [State.setThread_self] at e ⊢
      exact own e
    · rw [State.setThread_other _ _ ev, same] at e ⊢
      exact lf.exited v e
  have on : ∀ {c : Loop ρ τ} {u}, c ≠ .exited → Thread.loop { s.thread u with loop := c } = .exited →
      Thread.hand { s.thread u with loop := c } = [] := fun ne e => absurd e ne
  cases st with
  | packet | null | stays | unlink => exact set rfl rfl (on nofun)
  | wakes =>
    refine set rfl rfl (on ?_)
    split <;> exact nofun
  | @timeout u _ e =>
    have flushes : s.flushes w u = true := by
      unfold State.flushes
      rw [e]
    exact set rfl (if_pos (ok flushes)) fun e => hand_of_ne (by rw [e]; exact nofun)
  | @exit u e =>
    refine set rfl rfl fun _ => ?_
    have none : (s.thread u).hand = [] := ok
    rw [hand_of_ne (by rw [e]; exact nofun)] at none
    exact none
  | @collect u resume h e hh =>
    subst hh
    split
    next full =>
      have flushes : s.flushes w u = true := by
        unfold State.flushes
        rw [e]
        exact full
      exact set rfl (if_pos (ok flushes)) fun e => nomatch e
    · exact set rfl rfl fun e => nomatch e
  | @check u h e hh =>
    subst hh
    split
    next stop =>
      have flushes : s.flushes w u = true := by
        unfold State.flushes
        rw [e]
        exact stop
      exact set rfl (if_pos (ok flushes)) fun e => nomatch e
    · exact set rfl rfl fun e => nomatch e
  | ensure | ensureOnly =>
    unfold State.EnsureThreads
    split <;> exact ⟨lf.dropped, lf.exited⟩
  | _ => exact ⟨lf.dropped, lf.exited⟩

omit [DecidableEq τ] in
/-- In a run under the condition nothing is dropped. -/
lemma Left.of_runs (rn : Runs (Step w) (Delivers w) {} s) : Left s := by
  refine rn.invariant (I := Left) ⟨rfl, fun _ _ => rfl⟩ ?_
  intro s l s' lf ok st
  exact st.left ok lf

/-- No task of a completion is handed on twice, and none is lost: when the threads that run hold nothing, the tasks that
were handed to the scheduler are those of the operations that have been answered by a completion. -/
theorem completions_delivered (rn : Runs (Step w) (Delivers w) {} s) :
    (∀ x, s.pushed.count x ≤ s.completed.count x) ∧
      ((∀ u, (s.thread u).loop ≠ .exited → (s.thread u).hand = []) → s.pushed.Perm s.completed) := by
  have ow := Owed.of_runs rn
  have lf := Left.of_runs rn
  constructor
  · intro x
    have le := ow.le 0 x
    omega
  · intro rest
    refine List.perm_iff_count.2 fun x => ?_
    have none : ∀ u, (s.thread u).holds x = 0 := by
      intro u
      unfold Thread.holds
      by_cases e : (s.thread u).loop = .exited
      · rw [lf.exited u e]
        rfl
      · rw [rest u e]
        rfl
    have zero := (ow x).eq_zero none
    rw [lf.dropped, List.count_nil] at zero
    omega

namespace Step

omit [DecidableEq τ] in
/-- A thread takes a task into a batch that has room. -/
lemma collects {resume : Option τ} (e : (s.thread u).loop = .hook resume)
    (room : Thread.full { (s.thread u).collect w.isLowLatency resume with loop := (.check : Loop ρ τ) } = false) :
    Step w s (.thread u) (s.setThread u { (s.thread u).collect w.isLowLatency resume with loop := .check }) := by
  have st := Step.collect (w := w) e rfl
  rwa [room, Bool.and_false] at st

omit [DecidableEq τ] in
/-- A thread that does not stop keeps its batch. -/
lemma checks (e : (s.thread u).loop = .check) (going : s.stopping = false) :
    Step w s (.thread u) (s.setThread u { s.thread u with loop := .wait }) := by
  have st := Step.check (w := w) e rfl
  rwa [going] at st

omit [DecidableEq τ] in
/-- A thread takes a wake-up while stopping. -/
lemma wakes_stopping (e : (s.thread u).loop = .null) (stop : s.stopping = true) :
    Step w s (.thread u) (s.setThread u { s.thread u with loop := .draining }) := by
  have st := Step.wakes (w := w) e
  rwa [if_pos stop] at st

omit [DecidableEq τ] in
/-- `Stop` of a running reactor. -/
lemma stop_running {t : θ} (e : s.caller t = .idle) (going : s.stopping = false) (run : s.running = true) :
    Step w s (.stop t) ({ s with stopping := true }.goto t .swap) := by
  have st := Step.stop (w := w) e going
  rwa [if_pos run] at st

end Step

/-- The thread has answered the first operation and polls. -/
def firstCollected : State Unit Unit Unit :=
  { firstPacket with
    linked := []
    total := 0
    thread := Function.update (fun _ => {}) 0 ⟨.wait, [()], []⟩
    out := fun _ => some ⟨.completed, 5, 0⟩
    port := []
    lent := fun _ => false
    answers := fun _ => 1
    completed := [()] }

/-- How the first operation is answered, under any condition that allows it. -/
lemma firstCollected_runs {ok : State Unit Unit Unit → Label Unit Unit Unit → Prop}
    (submit : ∀ s, ok s (.submit () () .kNone (some ()))) (caller : ∀ s, ok s (.caller ()))
    (kernel : ∀ s p, ok s (.kernel p)) (dequeue : ∀ s, ok s (.dequeue 0))
    (thread : ∀ s, s.initialized = true → ok s (.thread 0)) :
    Runs (Step ⟨1, fun _ => true⟩) ok {} firstCollected := by
  have r : Runs (Step ⟨1, fun _ => true⟩) ok {} firstPacket := firstPacket_runs submit caller kernel
  have r := r.next (.dequeue 0) (dequeue _) (.packet Nat.one_pos rfl (List.mem_singleton_self _))
  have r := r.next (.thread 0) (thread _ rfl) (.unlink rfl)
  have r := r.next (.thread 0) (thread _ rfl) (.collects rfl rfl)
  have r := r.next (.thread 0) (thread _ rfl) (.checks rfl rfl)
  convert r using 1
  simp only [firstCollected, firstPacket, State.setThread, State.answer, State.Unlink, Function.update_idem,
    Function.update_eq_const_of_subsingleton]
  rfl

/-- Its next poll finds nothing. -/
theorem completions_delivered_first :
    ∃ s : State Unit Unit Unit, Runs (Step ⟨1, fun _ => true⟩) (Delivers ⟨1, fun _ => true⟩) {} s ∧
    s.completed = [()] ∧ s.pushed.Perm s.completed := by
  have r : Runs _ (Delivers ⟨1, fun _ => true⟩) _ _ := firstCollected_runs (fun _ => trivial) (fun _ => trivial)
    (fun _ _ => trivial) (fun _ => trivial) fun _ up _ => up
  have r := r.next (.thread 0) (fun _ => rfl) (.timeout Nat.one_pos rfl nofun)
  refine ⟨_, r, rfl, (completions_delivered r).2 fun u _ => ?_⟩
  by_cases e : u = 0
  · subst e
    rfl
  · show Thread.hand (Function.update firstCollected.thread 0 _ u) = []
    rw [Function.update_of_ne e]
    have old : firstCollected.thread u = {} := dif_neg e
    rw [old]
    rfl

/-- `Stop` comes first: the thread takes its wake-up, finds nothing in flight, and leaves with the task. -/
theorem batch_left : ∃ s : State Unit Unit Unit, Reaches (Step ⟨1, fun _ => true⟩) {} s ∧ s.total = 0 ∧
    s.completed = [()] ∧ s.pushed = [] ∧ ∀ u, u < s.started → (s.thread u).loop = .exited := by
  have r : Reaches _ _ _ := firstCollected_runs (fun _ => trivial) (fun _ => trivial) (fun _ _ => trivial)
    (fun _ => trivial) fun _ _ => trivial
  have r := r.next (.stop ()) trivial (.stop_running rfl rfl rfl)
  have r := r.next (.caller ()) trivial (.swap rfl)
  have r := r.next (.caller ()) trivial (.wakeup rfl)
  have r := r.next (.dequeue 0) trivial (.null Nat.one_pos rfl (List.mem_singleton_self _))
  have r := r.next (.thread 0) trivial (.wakes_stopping rfl rfl)
  have r := r.next (.exit 0) trivial (.exit rfl rfl)
  have left : ∀ u, u < 1 → u = 0 := fun u => Nat.lt_one_iff.1
  refine ⟨_, r, rfl, rfl, rfl, fun u lt => ?_⟩
  rw [left u lt]
  rfl

end JLib.CompletionPort
