import JLib.Park.Pass

/-!
# Parked means asleep

`PARKED` is to be read as "the worker waits". The wait ends on the word, on the stop of the pool and on any
input of the predicate, and what follows it takes back `NOTIFIED` only: a worker whose wait was ended by an
input before somebody exchanged the word goes on with `PARKED`, and then cannot commit. What ended the wait
and whether a producer has exchanged the word since the commit decide it.
-/

namespace JLib.Park
open LTS Bands

variable {θ τ : Type} {w : Setup} {s s' : State θ τ} {l : Label θ τ}

/-- Between the commit and the end of the park block. -/
def Pc.InPark : Pc → Prop
  | committed => True
  | retract => True
  | lock => True
  | checkWord => True
  | checkRunning => True
  | checkInput _ => True
  | block => True
  | blocked => True
  | cleanup => True
  | _ => False

/-- The word says what the worker does. -/
structure Honest (s : State θ τ) : Prop where
  parked : s.workerState = .parked → s.pc.InPark
  yield : s.workerState = .yield → s.pc = .yielded

/-- What has become of the word since the commit: it is as the worker left it until a producer exchanges it. -/
structure Heard (s : State θ τ) : Prop where
  parked : s.pc.InPark → (s.workerState = .parked ↔ ∀ t, s.exchanged t = false)
  word : s.pc = .cleanup → s.ended = .word → s.workerState ≠ .parked

/-- The worker comes to the end of a wait: the word ended it, or what did is an input or the stop and a
producer has exchanged the word since the commit. -/
def Woken (s : State θ τ) : Label θ τ → Prop
  | .cleanup =>
    match s.ended with
    | .word => True
    | .stop | .input _ => ∃ t, s.exchanged t = true
  | _ => True

namespace Heard

/-- At the end of a wait the condition tells whether the word is still `PARKED`. -/
lemma woken_iff (hd : Heard s) (h : s.pc = .cleanup) : Woken s .cleanup ↔ s.workerState ≠ .parked := by
  have into : s.pc.InPark := by
    rw [h]
    trivial
  have exchanged : (∃ t, s.exchanged t = true) ↔ s.workerState ≠ .parked := by
    rw [Ne, hd.parked into, not_forall]
    exact exists_congr fun t => (Bool.not_eq_false _).symm.to_iff
  unfold Woken
  cases e : s.ended with
  | word => exact iff_of_true trivial (hd.word h e)
  | stop | input => exact exchanged

/-- The worker is outside the block. -/
lemma out (out : ¬s'.pc.InPark) : Heard s' := by
  refine ⟨fun into => absurd into out, fun h => ?_⟩
  rw [h] at out
  exact absurd trivial out

/-- It stays in the wait. -/
lemma inside (hd : Heard s) (into : s.pc.InPark) (nc : s'.pc ≠ .cleanup) (hw : s'.workerState = s.workerState)
    (hx : s'.exchanged = s.exchanged) : Heard s' := by
  refine ⟨fun _ => ?_, fun h => absurd h nc⟩
  rw [hw, hx]
  exact hd.parked into

/-- It leaves the wait. -/
lemma leave {e : Ending} (hd : Heard s) (into : s.pc.InPark) (hw : e = .word → s.workerState ≠ .parked) :
    Heard (s.leave w e) := by
  unfold State.leave
  split <;> exact ⟨fun _ => hd.parked into, fun _ => hw⟩

/-- The worker is woken. -/
lemma wake (hd : Heard s) : Heard (s.wake w) := by
  unfold State.wake
  split
  · rename_i blocked
    have into : s.pc.InPark := by
      rw [blocked]
      trivial
    refine hd.inside into ?_ rfl rfl
    change (if _ then Pc.lock else .checkWord) ≠ _
    split <;> rintro ⟨⟩
  · exact ⟨hd.parked, hd.word⟩

end Heard

/-- A step keeps the word with what has become of it. -/
lemma Step.heard [DecidableEq θ] (st : Step w s l s') (hd : Heard s) : Heard s' := by
  cases st with
  | top | topStops | clearQueued | clearLane | body | found | nothing | gateLoud | bandsStops | bandsParks
  | bandsStays | commitPermit | retract | retractFails | retractPermit | cleanup | yield | yieldPermit | yielded
  | yieldedFails | yieldedPermit =>
    exact .out id
  | popInbox h | popLane h | popResumed h | takeElsewhere h =>
    refine .out ?_
    change ¬s.pc.InPark
    rw [h]
    exact id
  | gate | gatePaused | recheck | permit | commitFails | left | yieldFails => exact .out (by split <;> exact id)
  | @gateQuiet i => exact .out (by cases i <;> exact id)
  | spin _ hc => exact .out (by rcases hc with rfl | rfl <;> exact id)
  | commit => exact ⟨fun _ => iff_of_true rfl fun _ => rfl, by rintro ⟨⟩⟩
  | committed h =>
    refine hd.inside (by rw [h]; trivial) ?_ rfl rfl
    change (if _ then Pc.retract else if _ then .lock else .checkWord) ≠ _
    split
    · rintro ⟨⟩
    · split <;> rintro ⟨⟩
  | lock h | checkWord h | checkRunning h | blockCondVar h =>
    exact hd.inside (by rw [h]; trivial) (by rintro ⟨⟩) rfl rfl
  | @checkInput i h => exact hd.inside (by rw [h]; trivial) (by cases i <;> rintro ⟨⟩) rfl rfl
  | block h => exact hd.inside (by rw [h]; trivial) (by split <;> rintro ⟨⟩) rfl rfl
  | checkWordLeaves h np => exact hd.leave (by rw [h]; trivial) fun _ => np
  | checkRunningLeaves h | checkInputLeaves h => exact hd.leave (by rw [h]; trivial) (by rintro ⟨⟩)
  | spurious => exact hd.wake
  | push | markQueuedWork | markLaneWake | notifyOnly | lockMx | unlockMx | shed | outside =>
    exact ⟨hd.parked, hd.word⟩
  | @exchange t =>
    refine ⟨fun _ => iff_of_false (by rintro ⟨⟩) fun none => ?_, fun _ _ => by rintro ⟨⟩⟩
    have own := none t
    change Function.update s.exchanged t true t = false at own
    rw [Function.update_self] at own
    cases own
  | wakeByAddress | notifyOne => exact ⟨hd.wake.parked, hd.wake.word⟩

/-- Taking the permit parks nobody. -/
lemma consume_parked (h : s.consume.workerState = .parked) : s.workerState = .parked := by
  unfold State.consume at h
  split at h
  · cases h
  · exact h

/-- Taking the permit makes nobody yield. -/
lemma consume_yield (h : s.consume.workerState = .yield) : s.workerState = .yield := by
  unfold State.consume at h
  split at h
  · cases h
  · exact h

namespace Honest

/-- The worker is outside the block and does not write the word. -/
lemma away (hn : Honest s) (out : ¬s.pc.InPark) (ny : s.pc ≠ .yielded) (hw : s'.workerState = s.workerState) :
    Honest s' := by
  refine ⟨fun h => ?_, fun h => ?_⟩
  · rw [hw] at h
    exact absurd (hn.parked h) out
  · rw [hw] at h
    exact absurd (hn.yield h) ny

/-- It takes back a permit, and the word is not `PARKED`. -/
lemma consume {c : Pc} (hn : Honest s) (np : s.workerState ≠ .parked) (ny : s.pc ≠ .yielded) :
    Honest { s.consume with pc := c } :=
  ⟨fun h => absurd (consume_parked h) np, fun h => absurd (hn.yield (consume_yield h)) ny⟩

/-- It stays in the block. -/
lemma inside (hn : Honest s) (into : s'.pc.InPark) (ny : s.pc ≠ .yielded) (hw : s'.workerState = s.workerState) :
    Honest s' := by
  refine ⟨fun _ => into, fun h => ?_⟩
  rw [hw] at h
  exact absurd (hn.yield h) ny

/-- A worker that leaves the block and is not about to yield. -/
lemma leave {e : Ending} (hn : Honest s) (ny : s.pc ≠ .yielded) : Honest (s.leave w e) := by
  unfold State.leave
  split <;> exact hn.inside trivial ny rfl

/-- A producer wakes the worker. -/
lemma wake [DecidableEq θ] {c : Producer} {t : θ} (hn : Honest s) : Honest ((s.wake w).setProducer t c) := by
  unfold State.wake
  split
  · rename_i blocked
    have ny : s.pc ≠ .yielded := by
      rw [blocked]
      rintro ⟨⟩
    split <;> exact hn.inside trivial ny rfl
  · exact ⟨hn.parked, hn.yield⟩

end Honest

variable [DecidableEq θ]

/-- A step under the condition leaves a word that says what the worker does. -/
lemma Step.honest (st : Step w s l s') (ok : Woken s l) (hd : Heard s) (hn : Honest s) : Honest s' := by
  cases st with
  | top h | topStops h | clearQueued h | clearLane h | body h | popInbox h | popLane h | popResumed h =>
    exact hn.away (by rw [h]; exact id) (by rw [h]; rintro ⟨⟩) rfl
  | takeElsewhere h | found h | nothing h | gate h | gatePaused h | gateLoud h | gateQuiet h | bandsStops h =>
    exact hn.away (by rw [h]; exact id) (by rw [h]; rintro ⟨⟩) rfl
  | bandsParks h | bandsStays h | recheck h | commitFails h | left h | spin h | yieldFails h =>
    exact hn.away (by rw [h]; exact id) (by rw [h]; rintro ⟨⟩) rfl
  | permit h | commitPermit h | retractPermit h | yieldPermit h | yieldedPermit h =>
    refine hn.consume (fun parked => ?_) (by rw [h]; rintro ⟨⟩)
    have into := hn.parked parked
    rw [h] at into
    exact into
  | commit => exact ⟨fun _ => trivial, by rintro ⟨⟩⟩
  | committed h =>
    refine hn.inside ?_ (by rw [h]; rintro ⟨⟩) rfl
    change Pc.InPark (if _ then _ else if _ then _ else _)
    split
    · trivial
    · split <;> trivial
  | retract => exact ⟨by rintro ⟨⟩, by rintro ⟨⟩⟩
  | retractFails h np => exact ⟨fun h => absurd h np, fun y => by rw [hn.yield y] at h; cases h⟩
  | lock h | checkWord h | checkRunning h | blockCondVar h => exact hn.inside trivial (by rw [h]; rintro ⟨⟩) rfl
  | checkWordLeaves h | checkRunningLeaves h | checkInputLeaves h => exact hn.leave (by rw [h]; rintro ⟨⟩)
  | @checkInput i h => cases i <;> exact hn.inside trivial (by rw [h]; rintro ⟨⟩) rfl
  | block h => split <;> exact hn.inside trivial (by rw [h]; rintro ⟨⟩) rfl
  | spurious h =>
    unfold State.wake
    rw [if_pos h]
    split <;> exact hn.inside trivial (by rw [h]; rintro ⟨⟩) rfl
  | cleanup h => exact hn.consume ((hd.woken_iff h).1 ok) (by rw [h]; rintro ⟨⟩)
  | yield => exact ⟨by rintro ⟨⟩, fun _ => rfl⟩
  | yielded => exact ⟨by rintro ⟨⟩, by rintro ⟨⟩⟩
  | yieldedFails h ny =>
    refine ⟨fun p => ?_, fun y => absurd y ny⟩
    have into := hn.parked p
    rw [h] at into
    exact into.elim
  | push | markQueuedWork | markLaneWake | notifyOnly | lockMx | unlockMx | shed | outside =>
    exact ⟨hn.parked, hn.yield⟩
  | exchange => exact ⟨by rintro ⟨⟩, by rintro ⟨⟩⟩
  | wakeByAddress | notifyOne => exact hn.wake

/-- In a run under the condition the word says what the worker does. -/
lemma Honest.of_runs (rn : Runs (Step w) Woken {} s) : Heard s ∧ Honest s := by
  have init : Heard ({} : State θ τ) ∧ Honest ({} : State θ τ) := ⟨.out id, by rintro ⟨⟩, by rintro ⟨⟩⟩
  refine rn.invariant (I := fun s => Heard s ∧ Honest s) init ?_
  rintro s l s' ⟨hd, hn⟩ ok st
  exact ⟨st.heard hd, st.honest ok hd hn⟩

/-- As long as whatever ends a wait comes with an exchange of the word: the word is `PARKED` only in the park
block, and an idle worker without a permit commits in the pass it is at the top of, with no step of anybody
else. The end of a wait that does not leaves the block with the word at `PARKED`. -/
theorem parked_is_asleep (rn : Runs (Step w) Woken {} s) :
    (s.workerState = .parked → s.pc.InPark) ∧
      (Idle w s → s.pc = .top → s.workerState ≠ .notified →
        Runs (Step w) (fun _ l => l = .worker) s (s.committed w)) ∧
      ∀ s', Step w s .cleanup s' → ¬Woken s .cleanup → s'.workerState = .parked ∧ ¬s'.pc.InPark := by
  obtain ⟨hd, hn⟩ := Honest.of_runs rn
  refine ⟨hn.parked, fun idle top none => ?_, fun s' st not => ?_⟩
  · have empty : s.workerState = .empty := by
      cases e : s.workerState with
      | empty => rfl
      | notified => exact absurd e none
      | parked =>
        have into := hn.parked e
        rw [top] at into
        exact into.elim
      | yield =>
        have at_yield := hn.yield e
        rw [top] at at_yield
        cases at_yield
    exact idle.commit_runs (fun _ _ => rfl) top empty
  · cases st with
    | cleanup h =>
      rw [hd.woken_iff h, not_not] at not
      refine ⟨?_, id⟩
      rw [State.consume, if_neg (by rw [not]; rintro ⟨⟩)]
      exact not

/-- The worker commits, a flag that a producer sets ends its wait, the producer exchanges the word, and the
worker is at the top again. -/
theorem parked_is_asleep_again : ∃ s : State Unit Unit, Runs (Step ⟨1, 2, false⟩) Woken {} s ∧ s.pc = .top ∧
    s.ended = .input .laneWake ∧ Runs (Step ⟨1, 2, false⟩) (fun _ l => l = .worker) s (s.committed ⟨1, 2, false⟩) := by
  have r : Runs (Step ⟨1, 2, false⟩) Woken ({} : State Unit Unit) {} := .refl
  have r := r.trans (Idle.commit_runs (.unbanded rfl rfl (fun _ => rfl) rfl rfl) (fun _ _ => trivial) rfl rfl)
  have r := r.next .worker trivial (.committed_waits rfl (Idle.unbanded rfl rfl (fun _ => rfl) rfl rfl).bands)
  have r := r.next .worker trivial (.checkWord rfl rfl)
  have r := r.next .worker trivial (.checkRunning rfl rfl)
  have r := r.next .worker trivial (.checkInput rfl rfl)
  have r := r.next (.producer ()) trivial (.markLaneWake rfl)
  have r := r.next .worker trivial (.checkInputLeaves rfl rfl)
  have r := r.next (.producer ()) trivial (.exchange rfl)
  have r := r.next .cleanup ⟨(), rfl⟩ (.cleanup rfl)
  have r := r.next .worker trivial (.left rfl)
  have r := r.next (.producer ()) trivial (.wakeByAddress rfl rfl)
  exact ⟨_, r, rfl, rfl, (parked_is_asleep r).2.1 (.unbanded rfl rfl (fun _ => rfl) rfl rfl) rfl (by rintro ⟨⟩)⟩

/-- Outside the block with the word at `PARKED`, the worker cannot change that. -/
lemma Step.stuck (st : Step w s .worker s') (parked : s.workerState = .parked) (out : ¬s.pc.InPark) :
    s'.workerState = .parked ∧ ¬s'.pc.InPark := by
  have taken : s.consume.workerState = .parked := by
    unfold State.consume
    rw [parked, if_neg (by rintro ⟨⟩)]
    exact parked
  cases st with
  | top | topStops | clearQueued | clearLane | body | found | nothing | gateLoud | bandsStops | bandsParks =>
    exact ⟨parked, id⟩
  | popInbox | popLane | popResumed | takeElsewhere => exact ⟨parked, out⟩
  | gate | gatePaused | recheck | commitFails | left | yieldFails =>
    split <;> exact ⟨parked, id⟩
  | @gateQuiet i => cases i <;> exact ⟨parked, id⟩
  | permit => split <;> exact ⟨taken, id⟩
  | commitPermit | retractPermit | yieldPermit | yieldedPermit => exact ⟨taken, id⟩
  | spin _ hc => rcases hc with rfl | rfl <;> exact ⟨parked, id⟩
  | bandsStays | yieldedFails => exact ⟨parked, id⟩
  | commit _ e | yield _ e | yielded _ e =>
    rw [parked] at e
    cases e
  | committed h | retract h | retractFails h | lock h | checkWord h | checkWordLeaves h | checkRunning h
  | checkRunningLeaves h | checkInput h | checkInputLeaves h | block h | blockCondVar h | spurious h =>
    rw [h] at out
    exact absurd trivial out

/-- Worker 0 is reserved and parks; when it reads the last input of the predicate the intake has work, which
another worker then takes. Worker 0 is at the top of its loop with `PARKED`, there is nothing to do and nobody
is about to wake it, and on its own it does not commit again. -/
theorem parked_while_awake : ∃ s : State Unit Unit, Reaches (Step ⟨0, 2, false⟩) {} s ∧ s.workerState = .parked ∧
    s.pc = .top ∧ Idle ⟨0, 2, false⟩ s ∧ (∀ t, s.producer t = .idle) ∧
      ∀ s', Runs (Step ⟨0, 2, false⟩) (fun _ l => l = .worker) s s' → s'.pc ≠ .committed := by
  have r : Reaches (Step ⟨0, 2, false⟩) ({} : State Unit Unit) {} := .refl
  have r := r.next .outside trivial
    (show Step _ _ .outside { ({} : State Unit Unit) with bands := 0x0101010000#64 } from .outside)
  have r := r.trans (Idle.commit_runs (.reserved rfl rfl rfl rfl rfl rfl rfl) (fun _ _ => trivial) rfl rfl)
  have r := r.next .worker trivial (.committed_waits rfl (Idle.reserved rfl rfl rfl rfl rfl rfl rfl).bands)
  have r := r.next .worker trivial (.checkWord rfl rfl)
  have r := r.next .worker trivial (.checkRunning rfl rfl)
  have r := r.next .outside trivial
    (show Step _ _ .outside
      { ({} : State Unit Unit) with
        bands := 0x0101010000#64
        isReservedWorker := true
        workerState := .parked
        intakeIdle := false
        pc := .checkInput .hasQueuedWork } from .outside)
  have r := r.next .worker trivial (.checkInput rfl rfl)
  have r := r.next .worker trivial (.checkInput rfl rfl)
  have r := r.next .worker trivial (.checkInput rfl rfl)
  have r := r.next .worker trivial (.checkInput rfl rfl)
  have r := r.next .worker trivial (.checkInput rfl rfl)
  have r := r.next .worker trivial (.checkInput rfl rfl)
  have r := r.next .worker trivial (.checkInputLeaves rfl rfl)
  have r := r.next .cleanup trivial (.cleanup rfl)
  have r := r.next .worker trivial (.left rfl)
  have r := r.next .outside trivial
    (show Step _ _ .outside
      { ({} : State Unit Unit) with
        bands := 0x0101010000#64
        isReservedWorker := true
        workerState := .parked
        ended := .input .intake } from .outside)
  refine ⟨_, r, rfl, rfl, .reserved rfl rfl rfl rfl rfl rfl rfl, fun _ => rfl, ?_⟩
  intro s' rn committed
  have stuck : s'.workerState = .parked ∧ ¬s'.pc.InPark := by
    refine rn.invariant (I := fun s => s.workerState = .parked ∧ ¬s.pc.InPark) ⟨rfl, id⟩ ?_
    intro s l s' stuck only st
    cases only
    exact st.stuck stuck.1 stuck.2
  rw [committed] at stuck
  exact stuck.2 trivial

end JLib.Park
