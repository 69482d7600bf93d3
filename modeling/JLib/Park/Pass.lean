import JLib.Park.Model

/-!
# A pass of an idle worker

What the worker does on its own when there is nothing to do: it reads every input of the gate and comes to
its permit; with the word at `EMPTY` it commits, reads every input again and blocks.
-/

namespace JLib.Park
open LTS Bands

variable {θ τ : Type} {w : Setup} {s s' : State θ τ} {ok : State θ τ → Label θ τ → Prop}

/-- There is nothing for the worker to do and it is not kept awake. A reserved worker has nothing to do with
its inbox. -/
structure Idle (w : Setup) (s : State θ τ) : Prop where
  running : s.running = true
  empty : ∀ q, s.queue q = [] ∨ q = .inbox ∧ w.qIndex < BandField s.bands kBandK
  holder : s.holder = false
  intake : s.intakeIdle = true
  floor : s.onAwakeFloor w = false
  bands : s.inFloor w = false

namespace Idle

/-- There is nothing in its lane. -/
lemma lane (idle : Idle w s) : s.queue .lane = [] :=
  (idle.empty .lane).resolve_right fun h => by cases h.1

/-- There is nothing that was resumed. -/
lemma resumed (idle : Idle w s) : s.queue .resumed = [] :=
  (idle.empty .resumed).resolve_right fun h => by cases h.1

/-- None of the inputs of the wait is loud. -/
lemma quiet (idle : Idle w s) (hr : s.isReservedWorker = decide (w.qIndex < BandField s.bands kBandK))
    (hq : s.hasQueuedWork = false) (hl : s.laneWake = false) (i : Input) : s.loud i = false := by
  cases i with
  | hasQueuedWork => exact hq
  | laneWake => exact hl
  | holder => exact idle.holder
  | intake =>
    change (_ && !s.intakeIdle) = _
    rw [idle.intake, Bool.not_true, Bool.and_false]
  | lane =>
    change (!(s.queue .lane).isEmpty) = _
    rw [idle.lane]
    rfl
  | resumed =>
    change (!(s.queue .resumed).isEmpty) = _
    rw [idle.resumed]
    rfl
  | inbox =>
    change (!s.isReservedWorker && !(s.queue .inbox).isEmpty) = _
    rcases idle.empty .inbox with e | ⟨-, lt⟩
    · rw [e]
      exact Bool.and_false _
    · rw [hr, decide_eq_true lt, Bool.not_true, Bool.false_and]

end Idle

/-- Worker 1 of two, with no bands. -/
lemma Idle.unbanded {condVar : Bool} (hb : s.bands = 0) (running : s.running = true) (empty : ∀ q, s.queue q = [])
    (holder : s.holder = false) (intake : s.intakeIdle = true) : Idle ⟨1, 2, condVar⟩ s := by
  refine ⟨running, fun q => .inl (empty q), holder, intake, ?_, ?_⟩
  · unfold State.onAwakeFloor
    rw [hb]
    rfl
  · unfold State.inFloor
    rw [hb]
    rfl

/-- Worker 0 of two, with `K`, `Kmin` and `Kmax` at 1. -/
lemma Idle.reserved (hb : s.bands = 0x0101010000#64) (never : s.reservedNeverParks = false) (running : s.running = true)
    (lane : s.queue .lane = []) (resumed : s.queue .resumed = []) (holder : s.holder = false)
    (intake : s.intakeIdle = true) : Idle ⟨0, 2, false⟩ s := by
  refine ⟨running, fun q => ?_, holder, intake, ?_, ?_⟩
  · cases q with
    | inbox =>
      rw [hb]
      exact .inr ⟨rfl, by decide⟩
    | lane => exact .inl lane
    | resumed => exact .inl resumed
  · unfold State.onAwakeFloor
    rw [hb, never]
    rfl
  · unfold State.inFloor
    rw [hb]
    rfl

/-- The pass up to the permit. -/
def State.passed (w : Setup) (s : State θ τ) : State θ τ :=
  { s with
    isReservedWorker := decide (w.qIndex < BandField s.bands kBandK)
    hasQueuedWork := false
    laneWake := false
    task_to_run := none }

/-- The pass up to the commit. -/
def State.committed (w : Setup) (s : State θ τ) : State θ τ :=
  { s.passed w with
    workerState := .parked
    exchanged := fun _ => false
    pc := .committed }

/-- A pass leaves what makes the worker idle. -/
lemma Idle.passed (idle : Idle w s) : Idle w (s.passed w) := by
  obtain ⟨running, empty, holder, intake, floor, bands⟩ := idle
  exact ⟨running, empty, holder, intake, floor, bands⟩

variable [DecidableEq θ]

/-- The gate reads every input to be quiet. -/
lemma gate_runs (hok : ∀ u : State θ τ, u.queue = s.queue → ok u .worker) (quiet : ∀ i, s.loud i = false) :
    Runs (Step w) ok { s with pc := .gateInput .hasQueuedWork } { s with pc := .bands } := by
  have r : Runs (Step w) ok { s with pc := .gateInput .hasQueuedWork } _ := .refl
  have r := r.next .worker (hok _ rfl) (.gateQuiet rfl (quiet .hasQueuedWork))
  have r := r.next .worker (hok _ rfl) (.gateQuiet rfl (quiet .laneWake))
  have r := r.next .worker (hok _ rfl) (.gateQuiet rfl (quiet .lane))
  have r := r.next .worker (hok _ rfl) (.gateQuiet rfl (quiet .inbox))
  have r := r.next .worker (hok _ rfl) (.gateQuiet rfl (quiet .resumed))
  have r := r.next .worker (hok _ rfl) (.gateQuiet rfl (quiet .holder))
  have r := r.next .worker (hok _ rfl) (.gateQuiet rfl (quiet .intake))
  exact r

/-- The predicate of the wait reads every input to be quiet. -/
lemma wait_runs (hok : ∀ u : State θ τ, u.queue = s.queue → ok u .worker) (quiet : ∀ i, s.loud i = false) :
    Runs (Step w) ok { s with pc := .checkInput .hasQueuedWork } { s with pc := .block } := by
  have r : Runs (Step w) ok { s with pc := .checkInput .hasQueuedWork } _ := .refl
  have r := r.next .worker (hok _ rfl) (.checkInput rfl (quiet .hasQueuedWork))
  have r := r.next .worker (hok _ rfl) (.checkInput rfl (quiet .laneWake))
  have r := r.next .worker (hok _ rfl) (.checkInput rfl (quiet .lane))
  have r := r.next .worker (hok _ rfl) (.checkInput rfl (quiet .inbox))
  have r := r.next .worker (hok _ rfl) (.checkInput rfl (quiet .resumed))
  have r := r.next .worker (hok _ rfl) (.checkInput rfl (quiet .holder))
  have r := r.next .worker (hok _ rfl) (.checkInput rfl (quiet .intake))
  exact r

namespace Step

/-- The gate lets a worker through that is to go on. -/
lemma gate_running (h : s.pc = .gate) (run : s.running = true) : Step w s .worker { s with pc := .gatePaused } := by
  have st := Step.gate (w := w) h
  rwa [if_pos run] at st

/-- Outside the floor the second look parks. -/
lemma recheck_parks (h : s.pc = .recheck) (out : s.inFloor w = false) : Step w s .worker { s with pc := .permit } := by
  have st := Step.recheck (w := w) h
  rwa [out] at st

/-- A permit is taken at the door. -/
lemma permit_taken (h : s.pc = .permit) (word : s.workerState = .notified) :
    Step w s .worker { s with workerState := .empty, pc := .top } := by
  have st := Step.permit (w := w) h
  unfold State.consume at st
  rwa [if_pos word, if_pos word] at st

/-- Without a permit the worker goes on to the commit. -/
lemma permit_none (h : s.pc = .permit) (word : s.workerState ≠ .notified) :
    Step w s .worker { s with pc := .commit } := by
  have st := Step.permit (w := w) h
  unfold State.consume at st
  rwa [if_neg word, if_neg word] at st

/-- Outside the floor the worker waits. -/
lemma committed_waits (h : s.pc = .committed) (out : s.inFloor w = false) :
    Step w s .worker { s with pc := if w.condVar then .lock else .checkWord } := by
  have st := Step.committed (w := w) h
  rwa [out] at st

/-- The address wait blocks while the word says `PARKED`. -/
lemma block_parked (h : s.pc = .block) (addr : w.condVar = false) (word : s.workerState = .parked) :
    Step w s .worker { s with pc := .blocked } := by
  have st := Step.block h addr
  rwa [if_pos word] at st

end Step

/-- An idle worker comes from the top of its loop to the permit. -/
lemma Idle.permit_runs (idle : Idle w s) (hok : ∀ u : State θ τ, u.queue = s.queue → ok u .worker) (top : s.pc = .top) :
    Runs (Step w) ok s { s.passed w with pc := .permit } := by
  have r : Runs (Step w) ok s s := .refl
  have r := r.next .worker (hok _ rfl) (.top top idle.running)
  have r := r.next .worker (hok _ rfl) (.clearQueued rfl)
  have r := r.next .worker (hok _ rfl) (.clearLane rfl)
  have r := r.next .worker (hok _ rfl) (.body rfl)
  have r := r.next .worker (hok _ rfl) (.nothing rfl rfl)
  have r := r.next .worker (hok _ rfl) (.gate_running rfl idle.running)
  -- a paused scheduler does not read the inputs
  have r : Runs (Step w) ok s { s.passed w with pc := .bands } := by
    have st := r.next .worker (hok _ rfl) (.gatePaused rfl)
    split at st
    · exact st
    · exact st.trans (gate_runs hok (idle.passed.quiet rfl rfl rfl))
  have r := r.next .worker (hok _ rfl) (.bandsParks rfl idle.running idle.floor)
  exact r.next .worker (hok _ rfl) (.recheck_parks rfl idle.bands)

/-- With no permit it commits. -/
lemma Idle.commit_runs (idle : Idle w s) (hok : ∀ u : State θ τ, u.queue = s.queue → ok u .worker) (top : s.pc = .top)
    (word : s.workerState = .empty) :
    Runs (Step w) ok s (s.committed w) := by
  have r := idle.permit_runs hok top
  have none : s.workerState ≠ .notified := by
    rw [word]
    rintro ⟨⟩
  have r := r.next .worker (hok _ rfl) (.permit_none rfl none)
  exact r.next .worker (hok _ rfl) (.commit rfl word)

/-- With a permit it takes it and makes another pass. -/
lemma Idle.consume_runs (idle : Idle w s) (hok : ∀ u : State θ τ, u.queue = s.queue → ok u .worker) (top : s.pc = .top)
    (word : s.workerState = .notified) :
    Runs (Step w) ok s { s.passed w with workerState := .empty, pc := .top } :=
  (idle.permit_runs hok top).next .worker (hok _ rfl) (.permit_taken rfl word)

/-- Having committed, it blocks. -/
lemma Idle.block_runs (idle : Idle w s) (hok : ∀ u : State θ τ, u.queue = s.queue → ok u .worker)
    (committed : s.pc = .committed)
    (word : s.workerState = .parked) (hr : s.isReservedWorker = decide (w.qIndex < BandField s.bands kBandK))
    (hq : s.hasQueuedWork = false) (hl : s.laneWake = false) (free : s.parkMx = none) :
    Runs (Step w) ok s { s with pc := .blocked } := by
  have r : Runs (Step w) ok s s := .refl
  have r := r.next .worker (hok _ rfl) (.committed_waits committed idle.bands)
  have quiet := idle.quiet hr hq hl
  cases cv : w.condVar with
  | true =>
    rw [if_pos cv] at r
    have r := r.next .worker (hok _ rfl) (.lock rfl free)
    have r := r.next .worker (hok _ rfl) (.checkWord rfl word)
    have r := r.next .worker (hok _ rfl) (.checkRunning rfl idle.running)
    have r := r.trans (wait_runs (s := { s with parkMx := some .worker }) hok quiet)
    have r := r.next .worker (hok _ rfl) (.blockCondVar rfl cv)
    change Runs (Step w) ok s { s with parkMx := none, pc := .blocked } at r
    rwa [← free] at r
  | false =>
    rw [if_neg (by rw [cv]; rintro ⟨⟩)] at r
    have r := r.next .worker (hok _ rfl) (.checkWord rfl word)
    have r := r.next .worker (hok _ rfl) (.checkRunning rfl idle.running)
    have r := r.trans (wait_runs (s := s) hok quiet)
    exact r.next .worker (hok _ rfl) (.block_parked rfl cv word)

end JLib.Park
