import JLib.Park.Pass

/-!
# No work is lost

A worker that is blocked has read every input of the predicate after it published `PARKED`. Who pushes
behind its back finds `PARKED` when it exchanges the word, and then wakes it: on the address because the wait
compares the word, on the condition variable because the exchange is followed by the lock that the worker
holds until it blocks. The predicate of a reserved worker leaves its inbox out; what is pushed there in a
pass of such a worker brings it to another pass, and is stranded if it is still there at the top of that and
the worker is reserved again.
-/

namespace JLib.Park
open LTS Bands

variable {θ τ : Type} {w : Setup} {s s' : State θ τ} {t : θ} {q : Queue}

def Input.rank : Input → Nat
  | .hasQueuedWork => 0
  | .laneWake => 1
  | .lane => 2
  | .inbox => 3
  | .resumed => 4
  | .holder => 5
  | .intake => 6

def Queue.input : Queue → Input
  | .inbox => .inbox
  | .lane => .lane
  | .resumed => .resumed

namespace Pc

/-- The worker evaluates the predicate of the wait; on the condition variable it holds the mutex. -/
def Checks : Pc → Prop
  | checkWord => True
  | checkRunning => True
  | checkInput _ => True
  | block => True
  | _ => False

/-- It has read `PARKED`. -/
def ReadParked : Pc → Prop
  | checkRunning => True
  | checkInput _ => True
  | block => True
  | _ => False

/-- It has found the queue quiescent. -/
def Looked (q : Queue) : Pc → Prop
  | checkInput i => q.input.rank < i.rank
  | block => True
  | blocked => True
  | _ => False

/-- Who has read `PARKED` evaluates the predicate. -/
lemma ReadParked.checks {c : Pc} (h : c.ReadParked) : c.Checks := by
  cases c <;> first | exact h | trivial

/-- Who has found the queue quiescent evaluates the predicate or is blocked. -/
lemma Looked.checks {c : Pc} (h : c.Looked q) : c.Checks ∨ c = .blocked := by
  cases c with
  | checkInput | block => exact .inl trivial
  | blocked => exact .inr rfl
  | _ => exact h.elim

end Pc

/-- The wait of the worker is about the queue. -/
def State.Watches (s : State θ τ) (q : Queue) : Prop := q = .inbox → s.isReservedWorker = false

/-- The producer has found the worker parked and is to wake it. -/
def Producer.Owes : Producer → Prop
  | .owed => True
  | .locked => True
  | .notify => True
  | _ => False

/-- The producer has pushed and is to exchange the word. -/
def Producer.Pushing : Producer → Prop
  | .mark => True
  | .exchange => True
  | _ => False

/-- A worker that waits is about to see what was pushed, or somebody is about to wake it. -/
structure Watched (w : Setup) (s : State θ τ) : Prop where
  mutex : w.condVar = true → s.pc.Checks → s.parkMx = some .worker
  locked : ∀ {t}, s.producer t = .locked → s.parkMx = some (.producer t)
  past : w.condVar = true → s.pc.ReadParked → s.workerState ≠ .parked → ∃ t, s.producer t = .owed
  blocked : s.pc = .blocked → s.workerState ≠ .parked → ∃ t, (s.producer t).Owes
  looked : ∀ {q}, s.pc.Looked q → s.Watches q → s.queue q ≠ [] →
    (∃ t, (s.producer t).Pushing) ∨ s.workerState ≠ .parked

/-- One producer goes on. -/
lemma producer_setProducer [DecidableEq θ] {c : Producer} (s : State θ τ) (t t' : θ) :
    (s.setProducer t c).producer t' = if t' = t then c else s.producer t' :=
  Function.update_apply ..

/-- A producer that is as it was before is another. -/
lemma exists_setProducer [DecidableEq θ] {P : Producer → Prop} {c : Producer} (not : ¬P (s.producer t) ∨ P c)
    (h : ∃ t', P (s.producer t')) : ∃ t', P ((s.setProducer t c).producer t') := by
  obtain ⟨t', h⟩ := h
  by_cases e : t' = t
  · subst e
    refine ⟨t', ?_⟩
    rw [producer_setProducer, if_pos rfl]
    exact not.resolve_left fun no => no h
  · refine ⟨t', ?_⟩
    rw [producer_setProducer, if_neg e]
    exact h

namespace Watched

/-- The worker does not wait. -/
lemma away (wd : Watched w s) (ho : ¬s'.pc.Checks) (hb : s'.pc ≠ .blocked) (hp : s'.producer = s.producer)
    (hm : s'.parkMx = s.parkMx) : Watched w s' := by
  refine ⟨fun _ h => absurd h ho, fun h => ?_, fun _ h => absurd h.checks ho, fun h => absurd h hb, fun h => ?_⟩
  · rw [hp] at h
    rw [hm]
    exact wd.locked h
  · exact (h.checks.elim ho hb).elim

/-- The worker leaves the wait. -/
lemma leave {e : Ending} (wd : Watched w s) (checks : s.pc.Checks) : Watched w (s.leave w e) := by
  unfold State.leave
  split
  · rename_i cv
    refine ⟨fun _ h => h.elim, fun h => ?_, fun _ h => h.elim, by rintro ⟨⟩, fun h => h.elim⟩
    have held := wd.mutex cv checks
    rw [wd.locked h] at held
    cases held
  · exact wd.away id (by rintro ⟨⟩) rfl rfl

/-- A producer goes on; the worker, the word and the mutex are as before. -/
lemma setProducer [DecidableEq θ] {c : Producer} (wd : Watched w s) (hc : s'.pc = s.pc)
    (hr : s'.isReservedWorker = s.isReservedWorker)
    (hw : s'.workerState = s.workerState) (hm : s'.parkMx = s.parkMx) (hp : s'.producer = s.producer)
    (nl : c ≠ .locked) (owed : s.producer t ≠ .owed ∨ w.condVar = false)
    (owes : ¬(s.producer t).Owes ∨ c.Owes ∨ s.pc ≠ .blocked)
    (hq : ∀ q, s'.queue q = s.queue q ∧ (¬(s.producer t).Pushing ∨ c.Pushing) ∨ c.Pushing) :
    Watched w (s'.setProducer t c) := by
  refine ⟨fun cv h => ?_, fun {t'} h => ?_, fun cv h ne => ?_, fun h ne => ?_, fun {q} h watch ne => ?_⟩
  · change s'.pc.Checks at h
    rw [hc] at h
    exact hm.trans (wd.mutex cv h)
  · rw [producer_setProducer] at h
    split at h
    · exact absurd h nl
    · rw [hp] at h
      exact hm.trans (wd.locked h)
  · change s'.pc.ReadParked at h
    change s'.workerState ≠ _ at ne
    rw [hc] at h
    rw [hw] at ne
    refine exists_setProducer (P := (· = .owed)) (.inl ?_) (hp ▸ wd.past cv h ne)
    rw [hp]
    exact owed.resolve_right fun no => by rw [no] at cv; cases cv
  · change s'.pc = _ at h
    change s'.workerState ≠ _ at ne
    rw [hc] at h
    rw [hw] at ne
    refine exists_setProducer (P := Producer.Owes) ?_ (hp ▸ wd.blocked h ne)
    rw [hp]
    exact owes.imp_right fun o => o.resolve_right fun nb => nb h
  · change s'.pc.Looked q at h
    change (_ = _ → s'.isReservedWorker = _) at watch
    change s'.queue q ≠ [] at ne
    change _ ∨ s'.workerState ≠ _
    rw [hc] at h
    rw [hr] at watch
    rw [hw]
    rcases hq q with ⟨e, not⟩ | pushing
    · rw [e] at ne
      refine (wd.looked h watch ne).imp_left fun ex => ?_
      exact exists_setProducer (P := Producer.Pushing) (hp ▸ not) (hp ▸ ex)
    · refine .inl ⟨t, ?_⟩
      rw [producer_setProducer, if_pos rfl]
      exact pushing

/-- The exchange of the word. -/
lemma exchange [DecidableEq θ] (wd : Watched w s) (h : s.producer t = .exchange) :
    Watched w ({ s with
      workerState := .notified
      exchanged := Function.update s.exchanged t true }.setProducer t (.after s.workerState)) := by
  -- who exchanges `PARKED` owes a wake; otherwise who did so before owes it still
  have owed : (s.workerState ≠ .parked → ∃ t, s.producer t = .owed) →
      ∃ t', (s.setProducer t (.after s.workerState)).producer t' = .owed := by
    intro was
    by_cases e : s.workerState = .parked
    · refine ⟨t, ?_⟩
      rw [producer_setProducer, if_pos rfl, e]
      rfl
    · exact exists_setProducer (P := (· = .owed)) (.inl (by rw [h]; rintro ⟨⟩)) (was e)
  have owes : (s.workerState ≠ .parked → ∃ t, (s.producer t).Owes) →
      ∃ t', ((s.setProducer t (.after s.workerState)).producer t').Owes := by
    intro was
    by_cases e : s.workerState = .parked
    · refine ⟨t, ?_⟩
      rw [producer_setProducer, if_pos rfl, e]
      trivial
    · exact exists_setProducer (P := Producer.Owes) (.inl (by rw [h]; exact id)) (was e)
  refine ⟨wd.mutex, fun {t'} h' => ?_, fun cv h' _ => owed (wd.past cv h'), fun h' _ => owes (wd.blocked h'),
    fun _ _ _ => .inr (by rintro ⟨⟩)⟩
  rw [producer_setProducer] at h'
  split at h'
  · cases e : s.workerState <;> rw [e] at h' <;> cases h'
  · exact wd.locked h'

/-- The worker that runs again starts over with the predicate. -/
lemma woken (wd : Watched w s) (hc : s'.pc = if w.condVar then .lock else .checkWord) (hm : s'.parkMx = s.parkMx)
    (hl : ∀ {t}, s'.producer t = .locked → s.producer t = .locked) : Watched w s' := by
  refine ⟨fun cv h => ?_, fun h => hm.trans (wd.locked (hl h)), fun cv h => ?_, fun h => ?_, fun h => ?_⟩
  · rw [hc, cv] at h
    exact h.elim
  · rw [hc, cv] at h
    exact h.elim
  · rw [hc] at h
    split at h <;> cases h
  · rw [hc] at h
    split at h <;> exact h.elim

/-- The producer that owes a wake gives it. -/
lemma wake [DecidableEq θ] (wd : Watched w s) (owes : (s.producer t).Owes)
    (owed : s.producer t ≠ .owed ∨ w.condVar = false) : Watched w ((s.wake w).setProducer t .idle) := by
  unfold State.wake
  split
  · refine wd.woken rfl rfl fun {t'} h => ?_
    rw [producer_setProducer] at h
    split at h
    · cases h
    · exact h
  · rename_i nb
    refine wd.setProducer rfl rfl rfl rfl rfl (by rintro ⟨⟩) owed (.inr (.inr nb)) fun q => .inl ⟨rfl, .inl ?_⟩
    cases e : s.producer t <;> rw [e] at owes <;> first | exact id | exact owes.elim

end Watched

/-- Taking the permit leaves the producers and the mutex. -/
lemma consume_frame (s : State θ τ) : s.consume.producer = s.producer ∧ s.consume.parkMx = s.parkMx := by
  unfold State.consume
  split <;> exact ⟨rfl, rfl⟩

/-- What the predicate has just read to be quiet, and what it had read before. -/
lemma looked_next {i : Input} (h : ((i.next.map Pc.checkInput).getD .block).Looked q) :
    q.input.rank < i.rank ∨ q.input = i := by
  cases i <;> cases q <;> simp [Pc.Looked, Input.next, Queue.input, Input.rank] at h ⊢

/-- A queue that the wait is about is empty when it is quiescent. -/
lemma quiet_queue (watch : s.Watches q) (h : s.loud q.input = false) : s.queue q = [] := by
  cases q with
  | inbox =>
    change (!s.isReservedWorker && !(s.queue .inbox).isEmpty) = false at h
    rw [watch rfl, Bool.not_false, Bool.true_and, Bool.not_eq_false'] at h
    exact List.isEmpty_iff.1 h
  | lane =>
    change (!(s.queue .lane).isEmpty) = false at h
    rw [Bool.not_eq_false'] at h
    exact List.isEmpty_iff.1 h
  | resumed =>
    change (!(s.queue .resumed).isEmpty) = false at h
    rw [Bool.not_eq_false'] at h
    exact List.isEmpty_iff.1 h

/-- The permit is taken outside the wait. -/
lemma Watched.consume {c : Pc} (wd : Watched w s) (ho : ¬c.Checks) (hb : c ≠ .blocked) :
    Watched w { s.consume with pc := c } := by
  obtain ⟨hp, hm⟩ := consume_frame s
  exact wd.away ho hb hp hm

/-- The worker goes on in the evaluation of the predicate. -/
lemma Watched.checks {c : Pc} (wd : Watched w s) (was : s.pc.Checks) (hb : c ≠ .blocked)
    (past : c.ReadParked → s.pc.ReadParked ∨ s.workerState = .parked)
    (looked : ∀ {q}, c.Looked q → s.Watches q → s.pc.Looked q ∨ s.queue q = []) :
    Watched w { s with pc := c } := by
  refine ⟨fun cv _ => wd.mutex cv was, wd.locked, fun cv h ne => ?_, fun h => absurd h hb, fun h watch ne => ?_⟩
  · exact wd.past cv ((past h).resolve_right ne) ne
  · exact wd.looked ((looked h watch).resolve_right ne) watch ne

/-- A step leaves somebody to see or to wake. -/
lemma Step.watched [DecidableEq θ] {l : Label θ τ} (st : Step w s l s') (wd : Watched w s) : Watched w s' := by
  cases st with
  | top | topStops | clearQueued | clearLane | body | found | nothing | gateLoud | bandsStops | bandsParks =>
    exact wd.away id (by rintro ⟨⟩) rfl rfl
  | bandsStays | commit | retract | retractFails | yield | yielded | yieldedFails =>
    exact wd.away id (by rintro ⟨⟩) rfl rfl
  | popInbox h | popLane h | popResumed h | takeElsewhere h =>
    refine wd.away ?_ ?_ rfl rfl
    · change ¬s.pc.Checks
      rw [h]
      exact id
    · change s.pc ≠ _
      rw [h]
      rintro ⟨⟩
  | gate | gatePaused | recheck | commitFails | left | yieldFails =>
    split <;> exact wd.away id (by rintro ⟨⟩) rfl rfl
  | @gateQuiet i => cases i <;> exact wd.away id (by rintro ⟨⟩) rfl rfl
  | permit => split <;> exact wd.consume id (by rintro ⟨⟩)
  | commitPermit | retractPermit | cleanup | yieldPermit | yieldedPermit => exact wd.consume id (by rintro ⟨⟩)
  | spin _ hc => rcases hc with rfl | rfl <;> exact wd.away id (by rintro ⟨⟩) rfl rfl
  | committed =>
    split
    · exact wd.away id (by rintro ⟨⟩) rfl rfl
    · split
      · exact wd.away id (by rintro ⟨⟩) rfl rfl
      · rename_i cv
        exact ⟨fun cv' => absurd cv' cv, wd.locked, fun cv' => absurd cv' cv, by rintro ⟨⟩, fun h => h.elim⟩
  | lock h free =>
    refine ⟨fun _ _ => rfl, fun h => ?_, fun _ h => h.elim, by rintro ⟨⟩, fun h => h.elim⟩
    have held := wd.locked h
    rw [free] at held
    cases held
  | checkWord h parked =>
    exact wd.checks (by rw [h]; trivial) (by rintro ⟨⟩) (fun _ => .inr parked) fun h => h.elim
  | checkWordLeaves h => exact wd.leave (by rw [h]; trivial)
  | checkRunning h =>
    refine wd.checks (by rw [h]; trivial) (by rintro ⟨⟩) (fun _ => .inl (by rw [h]; trivial)) fun h _ => ?_
    exact absurd h (Nat.not_lt_zero _)
  | checkRunningLeaves h => exact wd.leave (by rw [h]; trivial)
  | @checkInput i h quiet =>
    refine wd.checks (by rw [h]; trivial) ?_ (fun _ => .inl (by rw [h]; trivial)) fun looked watch => ?_
    · cases i <;> rintro ⟨⟩
    · rcases looked_next looked with lt | rfl
      · rw [h]
        exact .inl lt
      · exact .inr (quiet_queue watch quiet)
  | checkInputLeaves h => exact wd.leave (by rw [h]; trivial)
  | block h addr =>
    split
    · rename_i parked
      refine ⟨fun _ h => h.elim, wd.locked, fun _ h => h.elim, fun _ ne => absurd parked ne, fun _ watch ne => ?_⟩
      exact wd.looked (by rw [h]; trivial) watch ne
    · exact wd.checks (by rw [h]; trivial) (by rintro ⟨⟩) (fun h => h.elim) fun h => h.elim
  | blockCondVar h cv =>
    refine ⟨fun _ h => h.elim, fun h' => ?_, fun _ h => h.elim, fun _ ne => ?_, fun _ watch ne => ?_⟩
    · have held := wd.mutex cv (by rw [h]; trivial)
      rw [wd.locked h'] at held
      cases held
    · obtain ⟨t, ht⟩ := wd.past cv (by rw [h]; trivial) ne
      exact ⟨t, by rw [show s.producer t = _ from ht]; trivial⟩
    · exact wd.looked (by rw [h]; trivial) watch ne
  | spurious h =>
    unfold State.wake
    rw [if_pos h]
    exact wd.woken rfl rfl id
  | push h =>
    exact wd.setProducer rfl rfl rfl rfl rfl (by rintro ⟨⟩) (.inl (by rw [h]; rintro ⟨⟩)) (.inl (by rw [h]; exact id))
      fun _ => .inr trivial
  | markQueuedWork h | markLaneWake h | notifyOnly h =>
    exact wd.setProducer rfl rfl rfl rfl rfl (by rintro ⟨⟩) (.inl (by rw [h]; rintro ⟨⟩)) (.inl (by rw [h]; exact id))
      fun _ => .inr trivial
  | exchange h => exact wd.exchange h
  | wakeByAddress h addr => exact wd.wake (by rw [h]; trivial) (.inr addr)
  | @lockMx t h cv free =>
    have ho : ¬s.pc.Checks := by
      intro checks
      rw [wd.mutex cv checks] at free
      cases free
    refine ⟨fun _ h => absurd h ho, fun {t'} h' => ?_, fun _ h => absurd h.checks ho, fun h' ne => ?_,
      fun h' watch ne => ?_⟩
    · rw [producer_setProducer] at h'
      split at h'
      · rename_i e
        rw [e]
        rfl
      · have held := wd.locked h'
        rw [free] at held
        cases held
    · exact exists_setProducer (P := Producer.Owes) (.inr trivial) (wd.blocked h' ne)
    · refine (wd.looked h' watch ne).imp_left fun ex => ?_
      exact exists_setProducer (P := Producer.Pushing) (.inl (by rw [h]; exact id)) ex
  | @unlockMx t h =>
    have held := wd.locked h
    have ho : w.condVar = true → ¬s.pc.Checks := by
      intro cv checks
      rw [wd.mutex cv checks] at held
      cases held
    refine ⟨fun cv h => absurd h (ho cv), fun {t'} h' => ?_, fun cv h => absurd h.checks (ho cv), fun h' ne => ?_,
      fun h' watch ne => ?_⟩
    · rw [producer_setProducer] at h'
      split at h'
      · cases h'
      · rename_i ne
        have held' := wd.locked h'
        rw [held] at held'
        cases held'
        exact absurd rfl ne
    · exact exists_setProducer (P := Producer.Owes) (.inr trivial) (wd.blocked h' ne)
    · refine (wd.looked h' watch ne).imp_left fun ex => ?_
      exact exists_setProducer (P := Producer.Pushing) (.inl (by rw [h]; exact id)) ex
  | notifyOne h => exact wd.wake (by rw [h]; trivial) (.inl (by rw [h]; rintro ⟨⟩))
  | @shed x l h =>
    refine ⟨wd.mutex, wd.locked, wd.past, wd.blocked, fun {q} looked watch ne => wd.looked looked watch fun e => ?_⟩
    by_cases eq : q = .inbox
    · subst eq
      rw [h] at e
      cases e
    · refine ne ?_
      change Function.update s.queue .inbox l q = []
      rw [Function.update_of_ne eq, e]
  | outside => exact ⟨wd.mutex, wd.locked, wd.past, wd.blocked, wd.looked⟩

/-- In every state of a run a worker that waits is about to see or to be woken. -/
lemma Watched.of_runs [DecidableEq θ] (rn : Reaches (Step w) {} s) : Watched w s := by
  have init : Watched w ({} : State θ τ) :=
    ⟨fun _ h => False.elim h, by rintro _ ⟨⟩, fun _ h => False.elim h, by rintro ⟨⟩, fun h => False.elim h⟩
  refine rn.invariant init ?_
  intro s l s' wd _ st
  exact st.watched wd

/-- A worker is blocked and no producer is between its push and the end of its `Wake`. Then the lane and the
resumed queue of the worker are empty, and so is its inbox if the pass in which it parked is not that of a
reserved worker. -/
lemma Watched.asleep (wd : Watched w s) (blocked : s.pc = .blocked) (idle : ∀ t, s.producer t = .idle) :
    s.workerState = .parked ∧ ∀ q, s.Watches q → s.queue q = [] := by
  have parked : s.workerState = .parked := by
    by_contra ne
    obtain ⟨t, owes⟩ := wd.blocked blocked ne
    rw [idle t] at owes
    exact owes
  refine ⟨parked, fun q watch => ?_⟩
  by_contra ne
  rcases wd.looked (by rw [blocked]; trivial) watch ne with ⟨t, pushing⟩ | not
  · rw [idle t] at pushing
    exact pushing
  · exact not parked

/-- The worker is in a pass: it has read `K`, and may come to the wait with what it read. -/
def Pc.InPass : Pc → Prop
  | top => False
  | left => False
  | exited => False
  | _ => True

/-- A pass that the worker begins as reserved begins with an empty inbox. -/
def Shed (w : Setup) (s : State θ τ) : Label θ τ → Prop
  | .worker => s.pc = .top → w.qIndex < BandField s.bands kBandK → s.queue .inbox = []
  | _ => True

/-- What is in the inbox in the pass of a reserved worker came in this pass: the push has not come to the
exchange of the word, or the worker has a permit and will not block before the next pass. -/
def Announced (s : State θ τ) : Prop :=
  s.pc.InPass → s.isReservedWorker = true → s.queue .inbox ≠ [] →
    (∃ t, (s.producer t).Pushing) ∨ s.workerState = .notified

namespace Announced

/-- The pass is over. -/
lemma outside (out : ¬s'.pc.InPass) : Announced s' :=
  fun into => absurd into out

/-- The pass goes on, and a permit stays. -/
lemma same (an : Announced s) (into : s.pc.InPass) (hr : s'.isReservedWorker = s.isReservedWorker)
    (hq : s'.queue .inbox = s.queue .inbox) (hw : s.workerState = .notified → s'.workerState = .notified)
    (hp : s'.producer = s.producer) : Announced s' := by
  intro _ res ne
  rw [hr] at res
  rw [hq] at ne
  rw [hp]
  exact (an into res ne).imp_right hw

variable [DecidableEq θ]

/-- A producer that was not pushing goes on. -/
lemma wakes {c : Producer} (an : Announced s) (not : ¬(s.producer t).Pushing)
    (into : s'.pc.InPass → s.pc.InPass) (hr : s'.isReservedWorker = s.isReservedWorker)
    (hq : s'.queue = s.queue) (hw : s'.workerState = s.workerState) (hp : s'.producer = s.producer) :
    Announced (s'.setProducer t c) := by
  intro pass res ne
  change s'.isReservedWorker = true at res
  change s'.queue .inbox ≠ [] at ne
  change _ ∨ s'.workerState = _
  rw [hr] at res
  rw [hq] at ne
  rw [hw]
  rw [← hp] at not
  exact (an (into pass) res ne).imp_left fun ex => exists_setProducer (.inl not) (by rwa [hp])

/-- A producer that is to exchange the word. -/
lemma pushes {c : Producer} (pushing : c.Pushing) : Announced (s'.setProducer t c) := by
  intro _ _ _
  refine .inl ⟨t, ?_⟩
  rw [producer_setProducer, if_pos rfl]
  exact pushing

end Announced

/-- A wake does not begin a pass. -/
lemma inPass_wake (h : (s.wake w).pc.InPass) : s.pc.InPass := by
  by_cases e : s.pc = .blocked
  · rw [e]
    trivial
  · unfold State.wake at h
    rwa [if_neg e] at h

/-- A wake leaves the queues, the word and the producers. -/
lemma wake_frame (s : State θ τ) : (s.wake w).isReservedWorker = s.isReservedWorker ∧ (s.wake w).queue = s.queue ∧
    (s.wake w).workerState = s.workerState ∧ (s.wake w).producer = s.producer := by
  unfold State.wake
  split <;> exact ⟨rfl, rfl, rfl, rfl⟩

/-- Leaving the block leaves the queues, the word and the producers. -/
lemma leave_frame {e : Ending} (s : State θ τ) : (s.leave w e).isReservedWorker = s.isReservedWorker ∧
    (s.leave w e).queue = s.queue ∧ (s.leave w e).workerState = s.workerState ∧
      (s.leave w e).producer = s.producer := by
  unfold State.leave
  split <;> exact ⟨rfl, rfl, rfl, rfl⟩

variable [DecidableEq θ]

/-- A step under the condition keeps the inbox of a reserved worker announced. -/
lemma Step.announced {l : Label θ τ} (st : Step w s l s') (ok : Shed w s l) (an : Announced s) : Announced s' := by
  cases st with
  | top h _ =>
    intro _ res ne
    exact absurd (ok h (of_decide_eq_true res)) ne
  | topStops | found | gateLoud | bandsStops | commitPermit | retract | retractPermit | cleanup | yieldPermit
  | yielded | yieldedPermit =>
    exact .outside id
  | left => exact .outside (by split <;> exact id)
  | clearQueued h | clearLane h | body h | takeElsewhere h | nothing h | bandsParks h | bandsStays h
  | retractFails h | lock h | checkWord h | checkRunning h | blockCondVar h | yieldedFails h =>
    exact an.same (by rw [h]; trivial) rfl rfl id rfl
  | gate h | gatePaused h | recheck h | commitFails h | committed h | block h | yieldFails h =>
    exact an.same (by rw [h]; trivial) rfl rfl id rfl
  | gateQuiet h | checkInput h => exact an.same (by rw [h]; trivial) rfl rfl id rfl
  | spin h _ => exact an.same (by rw [h]; trivial) rfl rfl id rfl
  | popInbox h _ res => exact fun _ res' => absurd res' (by rw [res]; exact Bool.false_ne_true)
  | @popLane x l h =>
    have ne : Queue.inbox ≠ .lane := by rintro ⟨⟩
    exact an.same (by rw [h]; trivial) rfl (Function.update_of_ne ne l s.queue) id rfl
  | @popResumed x l h =>
    have ne : Queue.inbox ≠ .resumed := by rintro ⟨⟩
    exact an.same (by rw [h]; trivial) rfl (Function.update_of_ne ne l s.queue) id rfl
  | permit h =>
    split
    · exact .outside id
    · rename_i none
      exact an.same (by rw [h]; trivial) (by rw [State.consume, if_neg none]) (by rw [State.consume, if_neg none])
        (fun n => absurd n none) (consume_frame s).1
  | commit h e | yield h e =>
    exact an.same (by rw [h]; trivial) rfl rfl (fun n => by rw [e] at n; cases n) rfl
  | checkWordLeaves h | checkRunningLeaves h | checkInputLeaves h =>
    obtain ⟨hr, hq, hw, hp⟩ := leave_frame s
    exact an.same (by rw [h]; trivial) hr (congrFun hq _) (fun n => hw.trans n) hp
  | spurious h =>
    obtain ⟨hr, hq, hw, hp⟩ := wake_frame s
    exact an.same (by rw [h]; trivial) hr (congrFun hq _) (fun n => hw.trans n) hp
  | push | markQueuedWork | markLaneWake | notifyOnly => exact .pushes trivial
  | exchange => exact fun _ _ _ => .inr rfl
  | wakeByAddress h | notifyOne h =>
    obtain ⟨hr, hq, hw, hp⟩ := wake_frame s
    exact an.wakes (by rw [h]; exact id) inPass_wake hr hq hw hp
  | lockMx h | unlockMx h => exact an.wakes (by rw [h]; exact id) id rfl rfl rfl rfl
  | @shed x l h =>
    intro pass res _
    refine an pass res ?_
    rw [h]
    exact List.cons_ne_nil x l
  | outside => exact an

/-- In a run under the condition the inbox of a reserved worker is announced. -/
lemma Announced.of_runs (rn : Runs (Step w) (Shed w) {} s) : Announced s := by
  have init : Announced ({} : State θ τ) := fun into => into.elim
  refine rn.invariant init ?_
  intro s l s' an ok st
  exact st.announced ok an

/-- A worker is blocked and no producer is between its push and the end of its `Wake`. Then its lane and its
resumed queue are empty. So is its inbox, if the pass in which it parked is not that of a reserved worker,
and in any case if every pass that it began as reserved began with an empty inbox. -/
theorem park_keeps_work (rn : Reaches (Step w) {} s) (blocked : s.pc = .blocked)
    (idle : ∀ t, s.producer t = .idle) :
    s.queue .lane = [] ∧ s.queue .resumed = [] ∧ (s.isReservedWorker = false → s.queue .inbox = []) ∧
      (Runs (Step w) (Shed w) {} s → s.queue .inbox = []) := by
  obtain ⟨parked, seen⟩ := (Watched.of_runs rn).asleep blocked idle
  refine ⟨seen .lane (by rintro ⟨⟩), seen .resumed (by rintro ⟨⟩), fun res => seen .inbox fun _ => res, ?_⟩
  intro rn
  by_contra ne
  have res : s.isReservedWorker = true := by
    by_contra no
    exact ne (seen .inbox fun _ => Bool.eq_false_iff.2 no)
  rcases Announced.of_runs rn (by rw [blocked]; trivial) res ne with ⟨t, pushing⟩ | permit
  · rw [idle t] at pushing
    exact pushing
  · rw [parked] at permit
    cases permit

/-- A task is pushed into the lane, the worker takes it, takes the permit, and blocks. -/
lemma lane_blocks (condVar : Bool) : ∃ s : State Unit Unit, Runs (Step ⟨1, 2, condVar⟩) (Shed ⟨1, 2, condVar⟩) {} s ∧
    s.pc = .blocked ∧ ∀ t, s.producer t = .idle := by
  have r : Runs (Step ⟨1, 2, condVar⟩) (Shed ⟨1, 2, condVar⟩) ({} : State Unit Unit) {} := .refl
  have r := r.next (.push () .lane ()) trivial (.push rfl)
  have r := r.next (.producer ()) trivial (.markQueuedWork rfl)
  have r := r.next (.producer ()) trivial (.exchange rfl)
  have r := r.next .worker (fun _ _ => rfl) (.top rfl rfl)
  have r := r.next .worker nofun (.clearQueued rfl)
  have r := r.next .worker nofun (.clearLane rfl)
  have r := r.next .worker nofun (.body rfl)
  have r := r.next .worker nofun (.popLane rfl rfl)
  have r := r.next .worker nofun (.found rfl rfl)
  have hok : ∀ u : State Unit Unit, u.queue = Function.update (Function.update (fun _ => []) .lane [()]) .lane [] →
      Shed ⟨1, 2, condVar⟩ u .worker := fun u e _ _ => congrFun e .inbox
  have r := r.trans (Idle.consume_runs (.unbanded rfl rfl (by rintro ⟨⟩ <;> rfl) rfl rfl)
    hok rfl rfl)
  have r := r.trans (Idle.commit_runs (.unbanded rfl rfl (by rintro ⟨⟩ <;> rfl) rfl rfl)
    hok rfl rfl)
  have r := r.trans (Idle.block_runs (.unbanded rfl rfl (by rintro ⟨⟩ <;> rfl) rfl rfl)
    hok rfl rfl rfl rfl rfl rfl)
  exact ⟨_, r, rfl, fun _ => rfl⟩

/-- A producer pushes into the inbox of worker 0, `K` grows over it, and its inbox is shed. The worker takes
the permit and blocks as a reserved worker. -/
lemma shed_blocks : ∃ s : State Unit Unit, Runs (Step ⟨0, 2, false⟩) (Shed ⟨0, 2, false⟩) {} s ∧
    s.pc = .blocked ∧ s.isReservedWorker = true ∧ ∀ t, s.producer t = .idle := by
  have r : Runs (Step ⟨0, 2, false⟩) (Shed ⟨0, 2, false⟩) ({} : State Unit Unit) {} := .refl
  have r := r.next (.push () .inbox ()) trivial (.push rfl)
  have r := r.next (.producer ()) trivial (.markQueuedWork rfl)
  have r := r.next (.producer ()) trivial (.exchange rfl)
  have r := r.next .outside trivial
    (show Step _ _ .outside
      { ({} : State Unit Unit) with
        bands := 0x0101010000#64
        hasQueuedWork := true
        workerState := .notified
        exchanged := Function.update (fun _ => false) () true
        queue := Function.update (fun _ => []) .inbox [()] } from .outside)
  have r := r.next .outside trivial (.shed rfl)
  have hok : ∀ u : State Unit Unit, u.queue = Function.update (Function.update (fun _ => []) .inbox [()]) .inbox [] →
      Shed ⟨0, 2, false⟩ u .worker := fun u e _ _ => congrFun e .inbox
  have r := r.trans (Idle.consume_runs (.reserved rfl rfl rfl rfl rfl rfl rfl) hok rfl rfl)
  have r := r.trans (Idle.commit_runs (.reserved rfl rfl rfl rfl rfl rfl rfl) hok rfl rfl)
  have r := r.trans (Idle.block_runs (.reserved rfl rfl rfl rfl rfl rfl rfl) hok rfl rfl rfl rfl rfl rfl)
  exact ⟨_, r, rfl, rfl, fun _ => rfl⟩

/-- On both waits, and of a worker that came to be reserved. -/
theorem park_keeps_work_lane :
    (∃ s : State Unit Unit, Reaches (Step ⟨1, 2, false⟩) {} s ∧ s.pc = .blocked ∧ s.queue .lane = []) ∧
      (∃ s : State Unit Unit, Reaches (Step ⟨1, 2, true⟩) {} s ∧ s.pc = .blocked ∧ s.queue .lane = []) ∧
      ∃ s : State Unit Unit, Reaches (Step ⟨0, 2, false⟩) {} s ∧ s.pc = .blocked ∧ s.isReservedWorker = true ∧
        s.queue .inbox = [] := by
  obtain ⟨s, r, blocked, idle⟩ := lane_blocks false
  obtain ⟨s', r', blocked', idle'⟩ := lane_blocks true
  obtain ⟨s'', r'', blocked'', res, idle''⟩ := shed_blocks
  refine ⟨⟨s, r.reaches, blocked, ?_⟩, ⟨s', r'.reaches, blocked', ?_⟩, s'', r''.reaches, blocked'', res, ?_⟩
  · exact (park_keeps_work r.reaches blocked idle).1
  · exact (park_keeps_work r'.reaches blocked' idle').1
  · exact (park_keeps_work r''.reaches blocked'' idle'').2.2.2 r''

/-- Worker 0 is reserved from now on, and a producer that had chosen it before pushes into its inbox, marks and
wakes. The worker takes the permit and blocks; its inbox is not empty. -/
theorem reserved_inbox_stranded : ∃ s : State Unit Unit, Reaches (Step ⟨0, 2, false⟩) {} s ∧ s.pc = .blocked ∧
    (∀ t, s.producer t = .idle) ∧ s.queue .inbox = [()] := by
  have r : Reaches (Step ⟨0, 2, false⟩) ({} : State Unit Unit) {} := .refl
  have r := r.next .outside trivial
    (show Step _ _ .outside { ({} : State Unit Unit) with bands := 0x0101010000#64 } from .outside)
  have r := r.next (.push () .inbox ()) trivial (.push rfl)
  have r := r.next (.producer ()) trivial (.markQueuedWork rfl)
  have r := r.next (.producer ()) trivial (.exchange rfl)
  have r := r.trans (Idle.consume_runs (.reserved rfl rfl rfl rfl rfl rfl rfl) (fun _ _ => trivial) rfl rfl)
  have r := r.trans (Idle.commit_runs (.reserved rfl rfl rfl rfl rfl rfl rfl) (fun _ _ => trivial) rfl rfl)
  have r := r.trans (Idle.block_runs (.reserved rfl rfl rfl rfl rfl rfl rfl)
    (fun _ _ => trivial) rfl rfl rfl rfl rfl rfl)
  exact ⟨_, r, rfl, fun _ => rfl, rfl⟩

end JLib.Park
