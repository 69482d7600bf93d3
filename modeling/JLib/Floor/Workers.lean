import JLib.Floor.Model
import JLib.Park.Lost

/-!
# The workers of the pool

What the calls do to one worker of the pool is a run of `Park`, whatever they do to the others. A thread is a producer
to at most one worker at a time, the one that it is waking.
-/

namespace JLib.Park
open LTS Bands

variable {θ τ : Type} {p p' : State θ τ} {w : Setup} {m : Label θ τ} {t u : θ}

/-- The worker is past its last look at the floor and has not left the wait. -/
def Pc.Past : Pc → Prop
  | lock => True
  | checkWord => True
  | checkRunning => True
  | checkInput _ => True
  | block => True
  | blocked => True
  | _ => False

/-- The worker has published `PARKED` and goes to sleep on it. -/
def State.Asleep (p : State θ τ) : Prop := p.workerState = .parked ∧ p.pc.Past

namespace State

/-- A wake-up puts nobody to sleep. -/
lemma Asleep.wake (h : (p.wake w).Asleep) : p.Asleep := by
  unfold State.wake at h
  split at h
  · rename_i e
    refine ⟨h.1, ?_⟩
    rw [e]
    trivial
  · exact h

/-- Who leaves its wait is not asleep. -/
lemma not_asleep_leave {e : Ending} : ¬(p.leave w e).Asleep := by
  rintro ⟨-, past⟩
  unfold State.leave at past
  split at past <;> exact past

end State

variable [DecidableEq θ]

/-- No step brings a worker of the floor to sleep. -/
lemma Step.asleep (st : Step w p m p') (h : p'.Asleep) : p.Asleep ∨ p.inFloor w = false := by
  obtain ⟨parked, past⟩ := h
  cases st with
  | top | topStops | clearQueued | clearLane | body | found | nothing | gateLoud | bandsStops | bandsParks
  | bandsStays | commit | commitPermit | retract | retractFails | retractPermit | cleanup | yield | yieldPermit
  | yielded | yieldedFails | yieldedPermit => exact past.elim
  | popInbox e | popLane e | popResumed e | takeElsewhere e =>
    have past : p.pc.Past := past
    rw [e] at past
    exact past.elim
  | gate | gatePaused | recheck | permit | commitFails | left | yieldFails =>
    dsimp only at past
    split at past <;> exact past.elim
  | @gateQuiet i =>
    cases i <;> exact past.elim
  | committed =>
    right
    dsimp only at past
    split at past
    · exact past.elim
    · exact Bool.eq_false_iff.2 ‹_›
  | lock e | checkWord e | checkRunning e | checkInput e | block e | blockCondVar e =>
    refine .inl ⟨parked, ?_⟩
    rw [e]
    trivial
  | checkWordLeaves | checkRunningLeaves | checkInputLeaves =>
    exact (State.not_asleep_leave ⟨parked, past⟩).elim
  | spurious | wakeByAddress | notifyOne => exact .inl (State.Asleep.wake ⟨parked, past⟩)
  | spin _ or =>
    obtain rfl | rfl := or <;> exact past.elim
  | push | markQueuedWork | markLaneWake | notifyOnly | lockMx | unlockMx | shed | outside =>
    exact .inl ⟨parked, past⟩
  | exchange => cases parked

/-- A producer moves by its own steps only. -/
lemma Step.producer_other (st : Step w p m p') (hp : ∀ q x, m ≠ .push u q x) (hu : m ≠ .producer u) :
    p'.producer u = p.producer u := by
  have other : ∀ {t c} {r : State θ τ}, u ≠ t → (r.setProducer t c).producer u = r.producer u :=
    fun ne => (producer_setProducer ..).trans (if_neg ne)
  cases st with
  | permit | commitPermit | retractPermit | cleanup | yieldPermit | yieldedPermit =>
    exact congrFun (consume_frame p).1 u
  | checkWordLeaves | checkRunningLeaves | checkInputLeaves => exact congrFun (leave_frame p).2.2.2 u
  | spurious => exact congrFun (wake_frame p).2.2.2 u
  | push =>
    refine other ?_
    rintro rfl
    exact hp _ _ rfl
  | markQueuedWork | markLaneWake | notifyOnly | exchange | lockMx | unlockMx =>
    refine other ?_
    rintro rfl
    exact hu rfl
  | wakeByAddress | notifyOne =>
    rw [other, (wake_frame p).2.2.2]
    rintro rfl
    exact hu rfl
  | _ => rfl

/-- A producer that has still to exchange the word has pushed no further, or the word is not `PARKED` any more. -/
lemma Step.pushing (st : Step w p (.producer t) p') (pushing : (p.producer t).Pushing) :
    (p'.producer t).Pushing ∨ p'.workerState = .notified := by
  have self : ∀ {c} {r : State θ τ}, (r.setProducer t c).producer t = c := fun {c r} =>
    (producer_setProducer r t t).trans (if_pos rfl)
  cases st with
  | markQueuedWork | markLaneWake | notifyOnly =>
    left
    rw [self]
    trivial
  | exchange => exact .inr rfl
  | wakeByAddress e | lockMx e | unlockMx e | notifyOne e =>
    rw [e] at pushing
    exact pushing.elim

/-- A worker writes neither the bands nor what it reads of the intake. -/
lemma Step.inputs_kept (st : Step w p .worker p') : p'.bands = p.bands ∧ p'.intakeIdle = p.intakeIdle := by
  cases st with
  | permit | commitPermit | retractPermit | yieldPermit | yieldedPermit =>
    unfold State.consume
    split <;> exact ⟨rfl, rfl⟩
  | checkWordLeaves | checkRunningLeaves | checkInputLeaves =>
    unfold State.leave
    split <;> exact ⟨rfl, rfl⟩
  | spurious =>
    unfold State.wake
    split <;> exact ⟨rfl, rfl⟩
  | _ => exact ⟨rfl, rfl⟩

/-- An idle worker parks and blocks. -/
lemma Idle.asleep_runs {ok : State θ τ → Label θ τ → Prop} (idle : Idle w p) (hok : ∀ s, ok s .worker)
    (top : p.pc = .top) (word : p.workerState = .empty) (free : p.parkMx = none) :
    Runs (Step w) ok p { p.committed w with pc := .blocked } := by
  have idle' : Idle w (p.committed w) := by
    obtain ⟨running, empty, holder, intake, floor, bands⟩ := idle.passed
    exact ⟨running, empty, holder, intake, floor, bands⟩
  exact (idle.commit_runs (fun u _ => hok u) top word).trans
    (idle'.block_runs (fun u _ => hok u) rfl rfl rfl rfl rfl free)

end JLib.Park

namespace JLib.Floor
open LTS Bands

variable {θ τ : Type} [DecidableEq θ] {w : Pool} {s s' : State θ τ} {l : Label θ τ} {t u : θ} {i j : Nat}
  {b : BitVec 64}

namespace State

/-- Only the thread that goes on is at another place. -/
lemma goto_thread (s : State θ τ) (t u : θ) (pc : Pc) : (s.goto t pc).thread u = if u = t then pc else s.thread u :=
  Function.update_apply ..

/-- The thread is where it went. -/
lemma goto_self (s : State θ τ) (t : θ) (pc : Pc) : (s.goto t pc).thread t = pc :=
  Function.update_self ..

/-- The others stay. -/
lemma goto_other (s : State θ τ) {t u : θ} (pc : Pc) (ne : u ≠ t) : (s.goto t pc).thread u = s.thread u :=
  Function.update_of_ne ne ..

omit [DecidableEq θ] in
/-- The worker is as it was set. -/
lemma setWorker_self (s : State θ τ) (i : Nat) (p : Park.State θ τ) : (s.setWorker i p).worker i = p :=
  Function.update_self ..

omit [DecidableEq θ] in
/-- The others stay. -/
lemma setWorker_other (s : State θ τ) {i j : Nat} (p : Park.State θ τ) (ne : j ≠ i) :
    (s.setWorker i p).worker j = s.worker j :=
  Function.update_of_ne ne ..

end State

/-- Who is a producer to a worker is waking it. -/
def Alone (s : State θ τ) : Prop :=
  ∀ i t, (s.worker i).producer t ≠ .idle → ∃ next, s.thread t = .ringing i next

namespace Alone

omit [DecidableEq θ] in
/-- A thread that wakes nobody is a producer to nobody. -/
lemma idle (al : Alone s) (nr : ∀ i next, s.thread t ≠ .ringing i next) (i : Nat) :
    (s.worker i).producer t = .idle := by
  by_contra ne
  obtain ⟨next, e⟩ := al i t ne
  exact nr i next e

/-- Such a thread goes on. -/
lemma goto {pc : Pc} (al : Alone s) (nr : ∀ i next, s.thread t ≠ .ringing i next) (hw : s'.worker = s.worker)
    (ht : s'.thread = (s.goto t pc).thread) : Alone s' := by
  intro i u ne
  rw [hw] at ne
  obtain ⟨next, e⟩ := al i u ne
  refine ⟨next, ?_⟩
  rw [ht, State.goto_other]
  · exact e
  · rintro rfl
    exact nr i next e

/-- One worker changes, and with it the thread that is a producer to it. -/
lemma setWorker {p : Park.State θ τ} {pc : Pc} (al : Alone s) (own : ∀ j next, s.thread t = .ringing j next → j = i)
    (others : ∀ u, u ≠ t → p.producer u = (s.worker i).producer u)
    (ht : p.producer t ≠ .idle → ∃ next, pc = .ringing i next) : Alone ((s.setWorker i p).goto t pc) := by
  intro j u ne
  by_cases eu : u = t
  · subst eu
    rw [State.goto_self]
    by_cases ej : j = i
    · subst ej
      refine ht ?_
      rwa [show ((s.setWorker j p).goto u pc).worker j = p from State.setWorker_self ..] at ne
    · rw [show ((s.setWorker i p).goto u pc).worker j = s.worker j from State.setWorker_other _ _ ej] at ne
      obtain ⟨next, e⟩ := al j u ne
      exact absurd (own j next e) ej
  · rw [State.goto_other _ _ eu]
    refine al j u ?_
    by_cases ej : j = i
    · subst ej
      rw [show ((s.setWorker j p).goto t pc).worker j = p from State.setWorker_self .., others u eu] at ne
      exact ne
    · rwa [show ((s.setWorker i p).goto t pc).worker j = s.worker j from State.setWorker_other _ _ ej] at ne

end Alone

/-- A thread that goes where it is changes nothing. -/
lemma goto_same (s : State θ τ) (t : θ) : s.goto t (s.thread t) = s := by
  unfold State.goto
  rw [Function.update_eq_self]

/-- A step keeps every producer of a worker to its wake-up. -/
lemma Step.alone (st : Step w s l s') (al : Alone s) : Alone s' := by
  cases st with
  | @worker i m p _ own st =>
    intro j u ne
    refine al j u ?_
    by_cases ej : j = i
    · subst ej
      rw [State.setWorker_self, st.producer_other] at ne
      · exact ne
      · rintro q x rfl
        simp only [reduceCtorEq, or_self] at own
      · rintro rfl
        simp only [reduceCtorEq, or_self] at own
    · rwa [State.setWorker_other _ _ ej] at ne
  | push e _ st =>
    refine al.setWorker (by rw [e]; exact nofun) (fun u ne => ?_) fun _ => ⟨_, rfl⟩
    refine st.producer_other (fun q x eq => ?_) nofun
    cases eq
    exact ne rfl
  | @ring t i hi next p lane e _ _ hp =>
    refine al.setWorker (by rw [e]; exact nofun) (fun u ne => ?_) fun _ => ⟨_, rfl⟩
    subst hp
    rw [Park.producer_setProducer, if_neg ne]
    split <;> rfl
  | notify e _ st =>
    rename_i t i next p _
    rw [← goto_same (s.setWorker i p) t]
    refine al.setWorker ?_ (fun u ne => ?_) fun _ => ⟨next, e⟩
    · intro j next' e'
      rw [e] at e'
      cases e'
      rfl
    · refine st.producer_other nofun fun eq => ?_
      cases eq
      exact ne rfl
  | @notified t i next e idle =>
    intro j u ne
    obtain ⟨next', e'⟩ := al j u ne
    refine ⟨next', ?_⟩
    rw [State.goto_other]
    · exact e'
    · rintro rfl
      rw [e] at e'
      cases e'
      exact ne idle
  | outside => exact al
  | crowding e | snapshot e | crowded e | collapsing e | collapse e | clock e | age e | held e | forcing e | force e
  | setFloor e | setHot e | setHotEffective e | resetting e | reset e | resetStore e | load e | exchange e | retry e
  | refuse e | stamp e | stamped e | peak e | peakExchange e | peakRetry e | peakDone e | resv e | floored e | keyed e
  | slide e | woken e =>
    refine al.goto ?_ rfl rfl
    rw [e]
    exact nofun

/-- In every state of a run the producers of a worker are waking it. -/
lemma Alone.of_runs {ok : State θ τ → Label θ τ → Prop} (rn : Runs (Step w) ok { word := b } s) : Alone s := by
  refine rn.invariant (I := Alone) (fun i t ne => (ne rfl).elim) ?_
  intro s l s' al _ st
  exact st.alone al

/-- What a step does to a worker. -/
lemma Step.worker_step (st : Step w s l s') (al : Alone s) (j : Nat) :
    s'.worker j = s.worker j ∨ ∃ m, Park.Step (w.setup j) (s.look j) m (s'.worker j) := by
  have touched : ∀ {i p m}, Park.Step (w.setup i) (s.look i) m p →
      (s.setWorker i p).worker j = s.worker j ∨
        ∃ m, Park.Step (w.setup j) (s.look j) m ((s.setWorker i p).worker j) := by
    intro i p m st
    by_cases ej : j = i
    · subst ej
      refine .inr ⟨m, ?_⟩
      rw [State.setWorker_self]
      exact st
    · exact .inl (State.setWorker_other _ _ ej)
  cases st with
  | worker _ _ st | push _ _ st | notify _ _ st => exact touched st
  | @ring t i hi next p lane e _ _ hp =>
    have idle : (s.look i).producer t = .idle := al.idle (by rw [e]; exact nofun) i
    refine touched (m := .producer t) ?_
    subst hp
    cases lane with
    | true => exact .markLaneWake idle
    | false => exact .notifyOnly idle
  | _ => exact .inl rfl

/-- Each worker of the pool is a worker of `Park`. -/
lemma park_runs {ok : State θ τ → Label θ τ → Prop} (rn : Runs (Step w) ok { word := b } s) (i : Nat) :
    Reaches (Park.Step (w.setup i)) {} (s.look i) := by
  have heard : ∀ {p q : Park.State θ τ} b, Reaches (Park.Step (w.setup i)) q p →
      Reaches (Park.Step (w.setup i)) q { p with bands := b } := fun _ rn => rn.next .outside trivial .outside
  induction rn with
  | refl => exact heard b .refl
  | @tail s l s' rn _ st ih =>
    obtain same | ⟨m, moved⟩ := st.worker_step (.of_runs rn) i
    · have ih := heard s'.word ih
      unfold State.look
      rw [same]
      exact ih
    · exact heard s'.word (ih.next m trivial moved)

/-- What a worker does on its own it does in the pool. -/
lemma worker_runs {ok : State θ τ → Label θ τ → Prop} {p p' : Park.State θ τ} (lt : i < w.n)
    (hok : ∀ s, ok s (.worker i))
    (bands : p.bands = s.word) (rn : Runs (Park.Step (w.setup i)) (fun _ m => m = .worker) p p') :
    Runs (Step w) ok (s.setWorker i p) (s.setWorker i p') ∧ p'.bands = s.word := by
  induction rn with
  | refl => exact ⟨.refl, bands⟩
  | @tail p m q _ own st ih =>
    subst own
    obtain ⟨rn, bands⟩ := ih
    refine ⟨?_, st.inputs_kept.1.trans bands⟩
    have look : (s.setWorker i p).look i = p := by
      unfold State.look
      rw [State.setWorker_self, show (s.setWorker i p).word = p.bands from bands.symm]
    have again : (s.setWorker i p).setWorker i q = s.setWorker i q := by
      unfold State.setWorker
      rw [Function.update_idem]
    rw [← again]
    refine rn.next (.worker i) (hok _) (.worker lt (.inl rfl) ?_)
    rw [look]
    exact st

end JLib.Floor
