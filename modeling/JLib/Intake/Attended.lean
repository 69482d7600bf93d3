import JLib.Floor.Workers
import JLib.Intake.Model
import Mathlib.Algebra.Order.Ring.Nat

/-!
# The intake is attended

A reserved worker reads the intake after it has published `PARKED`, so it blocks over a task only if the queue read
as idle: it was empty, or the enqueue was to return, and then the call that made it is still to tell somebody. Who is
told finds `NOTIFIED` in its word and reads the queue again before it blocks.
-/

namespace JLib.Park
open LTS Bands

variable {θ τ : Type} {p p' : State θ τ} {w : Setup} {m : Label θ τ}

/-- The worker is past its last look at the intake and nobody has exchanged its word since. -/
def State.Deaf (p : State θ τ) : Prop := p.workerState = .parked ∧ (p.pc = .block ∨ p.pc = .blocked)

/-- The pass of the worker is that of a reserved one. -/
def State.Serves (p : State θ τ) : Prop := p.isReservedWorker = true ∨ p.pc = .top ∨ p.pc = .exited

/-- A wake-up makes nobody deaf. -/
lemma State.Deaf.wake (h : (p.wake w).Deaf) : p.Deaf := by
  unfold State.wake at h
  split at h
  · rename_i e
    exact ⟨h.1, .inr e⟩
  · exact h

/-- Who leaves its wait is not deaf. -/
lemma State.not_deaf_leave {e : Ending} : ¬(p.leave w e).Deaf := by
  rintro ⟨-, at'⟩
  unfold State.leave at at'
  split at at' <;> obtain e | e := at' <;> cases e

variable [DecidableEq θ]

/-- Only a look at the intake that finds nothing makes a worker deaf. -/
lemma Step.deaf (st : Step w p m p') (h : p'.Deaf) :
    p.Deaf ∨ m = .worker ∧ p.pc = .checkInput .intake ∧ p.loud .intake = false := by
  obtain ⟨parked, at'⟩ := h
  cases st with
  | top | topStops | clearQueued | clearLane | body | found | nothing | gateLoud | bandsStops | bandsParks
  | bandsStays | commit | commitPermit | retract | retractFails | retractPermit | cleanup | yield | yieldPermit
  | yielded | yieldedFails | yieldedPermit | lock | checkWord | checkRunning =>
    obtain e | e := at' <;> cases e
  | popInbox e | popLane e | popResumed e | takeElsewhere e =>
    have at' : p.pc = .block ∨ p.pc = .blocked := at'
    rw [e] at at'
    obtain e | e := at' <;> cases e
  | gate | gatePaused | recheck | permit | commitFails | left | yieldFails =>
    dsimp only at at'
    split at at' <;> obtain e | e := at' <;> cases e
  | committed =>
    dsimp only at at'
    split at at'
    · obtain e | e := at' <;> cases e
    · split at at' <;> obtain e | e := at' <;> cases e
  | @gateQuiet i =>
    cases i <;> obtain e | e := at' <;> cases e
  | @checkInput i e quiet =>
    cases i with
    | intake => exact .inr ⟨rfl, e, quiet⟩
    | hasQueuedWork | laneWake | lane | inbox | resumed | holder =>
      obtain e | e := at' <;> cases e
  | block e | blockCondVar e => exact .inl ⟨parked, .inl e⟩
  | checkWordLeaves | checkRunningLeaves | checkInputLeaves =>
    exact (State.not_deaf_leave ⟨parked, at'⟩).elim
  | spurious | wakeByAddress | notifyOne => exact .inl (State.Deaf.wake ⟨parked, at'⟩)
  | spin _ or =>
    obtain rfl | rfl := or <;> obtain e | e := at' <;> cases e
  | push | markQueuedWork | markLaneWake | notifyOnly | lockMx | unlockMx | shed | outside =>
    exact .inl ⟨parked, at'⟩
  | exchange => cases parked

/-- A worker below `K` is a reserved one from the top of its next pass on. -/
lemma Step.serves (st : Step w p m p') (lt : w.qIndex < BandField p.bands kBandK) (sv : p.Serves) : p'.Serves := by
  have stays : ∀ {q : State θ τ}, q.isReservedWorker = p.isReservedWorker → p.pc ≠ .top → p.pc ≠ .exited →
      q.Serves := by
    intro q same nt ne
    refine .inl (same.trans ?_)
    obtain on | at' | at' := sv
    · exact on
    · exact absurd at' nt
    · exact absurd at' ne
  cases st with
  | top => exact .inl (decide_eq_true lt)
  | topStops => exact .inr (.inr rfl)
  | permit e | commitPermit e | retractPermit e | cleanup e | yieldPermit e | yieldedPermit e =>
    refine stays ?_ (by rw [e]; nofun) (by rw [e]; nofun)
    unfold State.consume
    split <;> rfl
  | checkWordLeaves e | checkRunningLeaves e | checkInputLeaves e =>
    refine stays ?_ (by rw [e]; nofun) (by rw [e]; nofun)
    unfold State.leave
    split <;> rfl
  | spurious e =>
    unfold State.wake
    rw [if_pos e]
    exact stays rfl (by rw [e]; nofun) (by rw [e]; nofun)
  | wakeByAddress | notifyOne =>
    unfold State.wake
    split
    · rename_i e
      exact stays rfl (by rw [e]; nofun) (by rw [e]; nofun)
    · exact sv
  | push | markQueuedWork | markLaneWake | notifyOnly | exchange | lockMx | unlockMx | shed | outside => exact sv
  | clearQueued e | clearLane e | body e | popInbox e | popLane e | popResumed e | takeElsewhere e | found e | nothing e
  | gate e | gatePaused e | gateLoud e | gateQuiet e | bandsStops e | bandsParks e | bandsStays e | recheck e | commit e
  | commitFails e | committed e | retract e | retractFails e | lock e | checkWord e | checkRunning e | checkInput e
  | block e | blockCondVar e | left e | spin e | yield e | yieldFails e | yielded e | yieldedFails e =>
    exact stays rfl (by rw [e]; nofun) (by rw [e]; nofun)

end JLib.Park

namespace JLib.Intake
open LTS Bands

variable {θ τ : Type} [DecidableEq θ] {w : Pool} {s s' : State θ τ} {l : Label θ τ} {t u : θ} {i j : Nat}
  {b : BitVec 64}

/-- Nobody moves `K`. -/
def Standing (s : State θ τ) : Label θ τ → Prop
  | .bands bw => BandField bw kBandK = s.K
  | _ => True

/-- The call is still to tell a reserved worker what it has enqueued; `pushing` are the workers whose word it is about
to exchange. -/
def Owes (K : Nat) (pushing : Nat → Prop) : Pc τ → Prop
  | .enqueued _ => 0 < K
  | .stamp _ _ => 0 < K
  | .limit _ => 0 < K
  | .scan _ woke lim _ => woke = 0 ∧ 0 < lim ∧ lim ≤ K
  | .mark i _ => i < K
  | .ringing i _ => i < K ∧ pushing i
  | _ => False

namespace State

def Owes (s : State θ τ) (t : θ) : Prop :=
  Intake.Owes s.K (fun i => ((s.worker i).producer t).Pushing) (s.thread t)

/-- The thread is where it went. -/
lemma goto_self (s : State θ τ) (t : θ) (pc : Pc τ) : (s.goto t pc).thread t = pc :=
  Function.update_self ..

/-- The others stay. -/
lemma goto_other (s : State θ τ) {t u : θ} (pc : Pc τ) (ne : u ≠ t) : (s.goto t pc).thread u = s.thread u :=
  Function.update_of_ne ne ..

omit [DecidableEq θ] in
/-- The worker is as it was set. -/
lemma setWorker_self (s : State θ τ) (i : Nat) (p : Park.State θ τ) : (s.setWorker i p).worker i = p :=
  Function.update_self ..

omit [DecidableEq θ] in
/-- The others stay. -/
lemma setWorker_other (s : State θ τ) {i j : Nat} (p : Park.State θ τ) (ne : j ≠ i) :
    (s.setWorker i p).worker j = s.worker j :=
  Function.update_of_ne ne ..

end State

/-! ## The workers -/

/-- What a step does to a worker. -/
lemma Step.worker_cases (st : Step w s l s') (j : Nat) :
    s'.worker j = s.worker j ∨
      (∃ idle m, (s.LaneIntakeIdle idle ∨ m ≠ .worker) ∧ Park.Step (w.setup j) (s.look j idle) m (s'.worker j)) ∨
        ∃ t, (s.worker j).producer t = .idle ∧
          s'.worker j = { s.worker j with hasQueuedWork := true }.setProducer t .exchange := by
  have touched : ∀ {r : State θ τ} {i c m p}, r.worker = s.worker → (s.LaneIntakeIdle c ∨ m ≠ .worker) →
      Park.Step (w.setup i) (s.look i c) m p →
      (r.setWorker i p).worker j = s.worker j ∨
        ∃ idle m, (s.LaneIntakeIdle idle ∨ m ≠ .worker) ∧
          Park.Step (w.setup j) (s.look j idle) m ((r.setWorker i p).worker j) := by
    intro r i c m p same reads st
    by_cases ej : j = i
    · subst ej
      refine .inr ⟨c, m, reads, ?_⟩
      rw [State.setWorker_self]
      exact st
    · left
      rw [State.setWorker_other _ _ ej, same]
  cases st with
  | worker _ reads _ st => exact or_assoc.1 (.inl (touched rfl (.inl reads) st))
  | take _ at' => exact or_assoc.1 (.inl (touched (c := false) rfl (.inl (by nofun)) (.takeElsewhere at')))
  | producer _ _ own st =>
    refine or_assoc.1 (.inl (touched rfl (.inr ?_) st))
    obtain rfl | ⟨q, x, rfl⟩ := own <;> exact nofun
  | notify _ _ st => exact or_assoc.1 (.inl (touched rfl (.inr (by nofun)) st))
  | @mark t i next p _ idle hp =>
    by_cases ej : j = i
    · subst ej
      refine .inr (.inr ⟨t, idle, ?_⟩)
      exact (State.setWorker_self ..).trans hp
    · exact .inl (State.setWorker_other _ _ ej)
  | _ => exact .inl rfl

omit [DecidableEq θ] in
/-- A look at the intake keeps a worker watched. -/
lemma watched_look {idle : Bool} (wd : Park.Watched (w.setup j) (s.worker j)) :
    Park.Watched (w.setup j) (s.look j idle) :=
  ⟨wd.mutex, wd.locked, wd.past, wd.blocked, wd.looked⟩

/-- No wake of a worker is lost. -/
lemma Step.watched (st : Step w s l s') (wd : Park.Watched (w.setup j) (s.worker j)) :
    Park.Watched (w.setup j) (s'.worker j) := by
  obtain same | ⟨idle, m, -, st⟩ | ⟨t, free, marked⟩ := st.worker_cases j
  · rw [same]
    exact wd
  · exact st.watched (watched_look wd)
  · rw [marked]
    exact wd.setProducer rfl rfl rfl rfl rfl nofun (.inl (by rw [free]; exact nofun)) (.inl (by rw [free]; exact id))
      fun _ => .inr trivial

/-- In every state of a run the workers are watched. -/
lemma watched_of_runs {ok : State θ τ → Label θ τ → Prop} (rn : Runs (Step w) ok { word := b } s) (j : Nat) :
    Park.Watched (w.setup j) (s.worker j) := by
  have init : Park.Watched (w.setup j) (({ word := b } : State θ τ).worker j) := .of_runs .refl
  refine rn.invariant (I := fun s => Park.Watched (w.setup j) (s.worker j)) init ?_
  intro s l s' wd _ st
  exact st.watched wd

/-- Who is about to enqueue has found `K` positive. -/
def Pc.Hot (k : Nat) : Pc τ → Prop
  | .enqueue _ => 0 < k
  | .mark _ next => next.Hot k
  | .ringing _ next => next.Hot k
  | _ => True

/-- `K` stands, and the workers below it are reserved ones. -/
structure Serving (k : Nat) (s : State θ τ) : Prop where
  K : s.K = k
  serves : ∀ i, i < k → (s.worker i).Serves
  hot : ∀ t, (s.thread t).Hot k

/-- A step under the condition leaves `K`. -/
lemma Step.standing (st : Step w s l s') (ok : Standing s l) : s'.K = s.K := by
  cases st with
  | bands => exact ok
  | _ => rfl

/-- Who is about to enqueue has found `K` positive, also after a step. -/
lemma Step.enqueues (st : Step w s l s') (hot : ∀ t, (s.thread t).Hot s.K) (t : θ) : (s'.thread t).Hot s.K := by
  have goto : ∀ {r : State θ τ} {u pc}, r.thread = s.thread → pc.Hot s.K → ((r.goto u pc).thread t).Hot s.K := by
    intro r u pc same h
    by_cases eu : t = u
    · subst eu
      rw [State.goto_self]
      exact h
    · rw [State.goto_other _ _ eu, same]
      exact hot t
  have here : ∀ {u pc}, s.thread u = pc → pc.Hot s.K := by
    rintro u _ rfl
    exact hot u
  cases st with
  | worker | take | body | producer | notify | bands | outside => exact hot t
  | hot =>
    refine goto rfl ?_
    split
    · trivial
    · rename_i ne
      exact Nat.pos_of_ne_zero ne
  | scan | scanned =>
    refine goto rfl ?_
    split <;> trivial
  | mark e | notified e =>
    have h := here e
    exact goto rfl h
  | _ => exact goto rfl trivial

/-- A step under the condition keeps the reserved workers serving. -/
lemma Step.serving {k : Nat} (st : Step w s l s') (ok : Standing s l) (sv : Serving k s) : Serving k s' := by
  obtain ⟨rfl, serves, hot⟩ := sv
  refine ⟨st.standing ok, fun i lt => ?_, st.enqueues hot⟩
  obtain same | ⟨idle, m, -, st⟩ | ⟨t, free, marked⟩ := st.worker_cases i
  · rw [same]
    exact serves i lt
  · exact st.serves lt (serves i lt)
  · rw [marked]
    exact serves i lt

/-- A reserved worker goes deaf over an empty intake, or while an enqueue is to return. -/
lemma Step.deaf (st : Step w s l s') (sv : (s.worker j).Serves) (h : (s'.worker j).Deaf) :
    (s.worker j).Deaf ∨ s.intake = [] ∨ ∃ t n, s.thread t = .enqueued n := by
  obtain same | ⟨idle, m, reads, st⟩ | ⟨t, free, marked⟩ := st.worker_cases j
  · rw [same] at h
    exact .inl h
  · obtain deaf | ⟨own, at', quiet⟩ := st.deaf h
    · exact .inl deaf
    · have res : (s.worker j).isReservedWorker = true := by
        have at' : (s.worker j).pc = .checkInput .intake := at'
        obtain res | e | e := sv
        · exact res
        · rw [e] at at'
          cases at'
        · rw [e] at at'
          cases at'
      have said : idle = true := by
        change ((s.worker j).isReservedWorker && !idle) = false at quiet
        rw [res, Bool.true_and, Bool.not_eq_false'] at quiet
        exact quiet
      exact .inr (reads.resolve_right (absurd own) said)
  · rw [marked] at h
    exact .inl h

/-! ## The calls -/

/-- A task in the intake is still to be told about, or some reserved worker is going to look. -/
structure Attended (w : Pool) (k : Nat) (s : State θ τ) : Prop extends Serving k s where
  attended : s.intake ≠ [] → (∃ t, s.Owes t) ∨ ∃ i, i < s.K ∧ ¬(s.worker i).Deaf

omit [DecidableEq θ] in
/-- Another thread or a worker has moved. -/
lemma State.Owes.same (K : s'.K = s.K) (ht : s'.thread t = s.thread t)
    (hp : ∀ i, (s'.worker i).producer t = (s.worker i).producer t) (owes : s.Owes t) : s'.Owes t := by
  unfold State.Owes
  rw [K, ht]
  simp only [hp]
  exact owes

omit [DecidableEq θ] in
/-- Who is in no call owes nothing. -/
lemma State.Owes.ne (owes : s.Owes t) (none : ∀ K P, ¬Intake.Owes K P (s.thread u)) : t ≠ u := by
  rintro rfl
  exact none _ _ owes

/-- A call that owes goes on owing until it has exchanged the word of a reserved worker. -/
lemma Step.owes (st : Step w s l s') (ok : Standing s l) (fits : s.K ≤ w.n) (owes : s.Owes t) :
    s'.Owes t ∨ ∃ i, i < s'.K ∧ ¬(s'.worker i).Deaf := by
  have K := st.standing ok
  have producers : ∀ {r : State θ τ} {i p}, r.worker = s.worker → p.producer t = (s.worker i).producer t →
      ∀ j, ((r.setWorker i p).worker j).producer t = (s.worker j).producer t := by
    intro r i p same hp j
    by_cases ej : j = i
    · subst ej
      rw [State.setWorker_self, hp]
    · rw [State.setWorker_other _ _ ej, same]
  have same : ∀ {r : State θ τ}, r.K = s.K → r.thread t = s.thread t →
      (∀ i, (r.worker i).producer t = (s.worker i).producer t) → r.Owes t :=
    fun hK ht hp => owes.same hK ht hp
  -- the thread that has moved, and the others
  have goto : ∀ {r : State θ τ} {u pc}, r.thread = s.thread → r.worker = s.worker → r.K = s.K →
      (t = u → Intake.Owes s.K (fun i => ((s.worker i).producer t).Pushing) pc) → (r.goto u pc).Owes t := by
    intro r u pc ht hw hK own
    by_cases eu : t = u
    · subst eu
      unfold State.Owes
      rw [State.goto_self, show (r.goto t pc).K = s.K from hK, show (r.goto t pc).worker = s.worker from hw]
      exact own rfl
    · refine same hK ?_ ?_
      · rw [State.goto_other _ _ eu, ht]
      · intro i
        exact congrArg (fun f => (f i).producer t) hw
  have own : ∀ {u pc}, s.thread u = pc → t = u → Intake.Owes s.K (fun i => ((s.worker i).producer t).Pushing) pc := by
    rintro u _ rfl rfl
    exact owes
  cases st with
  | worker _ _ own st =>
    refine .inl (same rfl rfl (producers rfl (st.producer_other ?_ ?_)))
    · rintro q x rfl
      simp only [reduceCtorEq, or_self] at own
    · rintro rfl
      simp only [reduceCtorEq, or_self] at own
  | take => exact .inl (same rfl rfl (producers rfl rfl))
  | @producer u i idle m p e _ own st =>
    have ne := owes.ne (u := u) (by rw [e]; exact fun _ _ => id)
    refine .inl (same rfl rfl (producers rfl (st.producer_other ?_ ?_)))
    · rintro q x rfl
      obtain own | ⟨q, x, own⟩ := own
      · cases own
      · cases own
        exact ne rfl
    · rintro rfl
      obtain own | ⟨q, x, own⟩ := own
      · cases own
        exact ne rfl
      · cases own
  | body | bands | outside => exact .inl (same K rfl fun _ => rfl)
  | call e | hot e | enqueueFails e | enqueue e => exact .inl (goto rfl rfl rfl fun eu => (own e eu).elim)
  | clock e | stamp e =>
    refine .inl (goto rfl rfl rfl fun eu => ?_)
    have pos := own e eu
    exact pos
  | limit e =>
    refine .inl (goto rfl rfl rfl fun eu => ⟨rfl, ?_, Nat.min_le_left _ _⟩)
    have pos : 0 < s.K := own e eu
    omega
  | scan e lt =>
    refine .inl (goto rfl rfl rfl fun eu => ?_)
    obtain ⟨none, pos, le⟩ := own e eu
    split
    · exact ⟨none, pos, le⟩
    · exact Nat.lt_of_lt_of_le lt le
  | scanned e =>
    refine .inl (goto rfl rfl rfl fun eu => ?_)
    obtain ⟨none, pos, le⟩ := own e eu
    rw [if_pos ⟨none, pos⟩]
    exact Nat.lt_of_lt_of_le pos le
  | @mark u i next p e idle hp =>
    left
    by_cases eu : t = u
    · subst eu
      unfold State.Owes
      rw [State.goto_self]
      refine ⟨own e rfl, ?_⟩
      show (((s.setWorker i p).worker i).producer t).Pushing
      rw [State.setWorker_self, hp, Park.producer_setProducer, if_pos rfl]
      trivial
    · refine same rfl (State.goto_other _ _ eu) (producers (r := s) rfl ?_)
      rw [hp, Park.producer_setProducer, if_neg eu]
  | @notify u i idle next p e _ st =>
    by_cases eu : t = u
    · subst eu
      obtain ⟨lt, pushing⟩ := own e rfl
      obtain on | told := st.pushing pushing
      · left
        unfold State.Owes
        rw [show (s.setWorker i p).thread t = .ringing i next from e]
        refine ⟨lt, ?_⟩
        show (((s.setWorker i p).worker i).producer t).Pushing
        rw [State.setWorker_self]
        exact on
      · refine .inr ⟨i, lt, ?_⟩
        rintro ⟨parked, -⟩
        rw [State.setWorker_self, told] at parked
        cases parked
    · refine .inl (same rfl rfl (producers rfl (st.producer_other nofun ?_)))
      rintro ⟨⟩
      exact eu rfl
  | @notified u i next e idle =>
    refine .inl (goto rfl rfl rfl fun eu => ?_)
    obtain ⟨-, pushing⟩ := own e eu
    subst eu
    rw [idle] at pushing
    exact pushing.elim

/-- A step under the condition keeps the tasks of the intake attended. -/
lemma Step.attended {k : Nat} (st : Step w s l s') (ok : Standing s l) (fits : k ≤ w.n) (at' : Attended w k s) :
    Attended w k s' := by
  obtain ⟨sv, attended⟩ := at'
  have K := st.standing ok
  refine ⟨st.serving ok sv, fun ne => ?_⟩
  have fits : s.K ≤ w.n := by
    rw [sv.K]
    exact fits
  have called : ∀ {t}, s.Owes t → (∃ t, s'.Owes t) ∨ ∃ i, i < s'.K ∧ ¬(s'.worker i).Deaf := fun {t} owes =>
    (st.owes ok fits owes).imp_left fun owes => ⟨t, owes⟩
  by_cases empty : s.intake = []
  · -- the tasks come with a call that has found `K` positive
    cases st with
    | @enqueue t tasks e =>
      refine .inl ⟨t, ?_⟩
      unfold State.Owes
      rw [State.goto_self]
      have hot := sv.hot t
      rw [e] at hot
      show 0 < s.K
      rw [sv.K]
      exact hot
    | take _ _ _ _ e =>
      rw [empty] at e
      cases List.append_ne_nil_of_right_ne_nil _ (List.cons_ne_nil _ _) e.symm
    | _ => exact absurd empty ne
  · obtain ⟨t, owes⟩ | ⟨i, lt, hears⟩ := attended empty
    · exact called owes
    · by_cases deaf : (s'.worker i).Deaf
      · obtain deaf | e | ⟨t, n, e⟩ := st.deaf (sv.serves i (by rw [← sv.K]; exact lt)) deaf
        · exact absurd deaf hears
        · exact absurd e empty
        · refine called (t := t) ?_
          unfold State.Owes
          rw [e]
          show 0 < s.K
          omega
      · exact .inr ⟨i, by rw [K]; exact lt, deaf⟩

/-- In every state of a run the tasks of the intake are attended. -/
lemma Attended.of_runs (fits : BandField b kBandK ≤ w.n) (rn : Runs (Step w) Standing { word := b } s) :
    Attended w (BandField b kBandK) s := by
  have init : Attended w (BandField b kBandK) ({ word := b } : State θ τ) :=
    { K := rfl
      serves := fun _ _ => .inr (.inl rfl)
      hot := fun _ => trivial
      attended := fun ne => absurd rfl ne }
  refine rn.invariant (I := Attended w (BandField b kBandK)) init ?_
  intro s l s' at' ok st
  exact st.attended ok fits at'

/-- As long as nobody moves `K`: over a task in the intake some call is still to tell a reserved worker, or a reserved
worker is not blocked or being woken. When no call and no wake is under way and the reserved workers are all blocked,
the intake is empty. -/
theorem intake_attended (fits : BandField b kBandK ≤ w.n) (rn : Runs (Step w) Standing { word := b } s) :
    (s.intake ≠ [] → (∃ t, s.Owes t) ∨
      ∃ i, i < s.K ∧ ((s.worker i).pc = .blocked → ∃ t, ((s.worker i).producer t).Owes)) ∧
      ((∀ t, s.thread t = .idle ∧ ∀ i, (s.worker i).producer t = .idle) →
        (∀ i, i < s.K → (s.worker i).pc = .blocked) → s.intake = []) := by
  have at' := Attended.of_runs fits rn
  have woken : s.intake ≠ [] → (∃ t, s.Owes t) ∨
      ∃ i, i < s.K ∧ ((s.worker i).pc = .blocked → ∃ t, ((s.worker i).producer t).Owes) := by
    intro ne
    refine (at'.attended ne).imp_right ?_
    rintro ⟨i, lt, hears⟩
    exact ⟨i, lt, fun blocked => (watched_of_runs rn i).blocked blocked fun parked => hears ⟨parked, .inr blocked⟩⟩
  refine ⟨woken, fun quiet blocked => ?_⟩
  by_contra ne
  obtain ⟨t, owes⟩ | ⟨i, lt, wakes⟩ := woken ne
  · unfold State.Owes at owes
    rw [(quiet t).1] at owes
    exact owes
  · obtain ⟨t, owes⟩ := wakes (blocked i lt)
    rw [(quiet t).2 i] at owes
    exact owes

/-- What a worker does on its own over an empty intake it does in the pool. -/
lemma worker_runs {p p' : Park.State θ τ} (lt : i < w.n) (empty : s.intake = [])
    (inputs : p.bands = s.word ∧ p.intakeIdle = true)
    (rn : Runs (Park.Step (w.setup i)) (fun _ m => m = .worker) p p') :
    Runs (Step w) Standing (s.setWorker i p) (s.setWorker i p') ∧ p'.bands = s.word ∧ p'.intakeIdle = true := by
  induction rn with
  | refl => exact ⟨.refl, inputs⟩
  | @tail p m q _ own st ih =>
    subst own
    obtain ⟨rn, bands, idle⟩ := ih
    refine ⟨?_, st.inputs_kept.1.trans bands, st.inputs_kept.2.trans idle⟩
    have look : (s.setWorker i p).look i true = p := by
      unfold State.look
      rw [State.setWorker_self, ← idle, show (s.setWorker i p).word = p.bands from bands.symm]
    have again : (s.setWorker i p).setWorker i q = s.setWorker i q := by
      unfold State.setWorker
      rw [Function.update_idem]
    rw [← again]
    have reads : (s.setWorker i p).LaneIntakeIdle true := fun _ => .inl empty
    refine rn.next (.worker i) trivial (.worker lt reads (.inl rfl) ?_)
    rw [look]
    exact st

/-- A call that found `K` positive goes on to enqueue. -/
lemma Step.hot_enqueues {tasks : List τ} (e : s.thread t = .hot tasks) (pos : 0 < s.K) :
    Step w s (.thread t) (s.goto t (.enqueue tasks)) := by
  have st := Step.hot (w := w) e
  rwa [if_neg (Nat.pos_iff_ne_zero.1 pos)] at st

/-- The one reserved worker of two is blocked, and a task has just come into the intake. -/
theorem intake_attended_two : ∃ s : State Unit Unit, Runs (Step ⟨2, false⟩) Standing { word := 0x0101010000#64 } s ∧
    s.intake = [()] ∧ (s.worker 0).pc = .blocked ∧ ∃ t, s.Owes t := by
  let w : Pool := ⟨2, false⟩
  let p : Park.State Unit Unit := { bands := 0x0101010000#64 }
  have idle : Park.Idle (w.setup 0) p := .reserved rfl rfl rfl rfl rfl rfl rfl
  have r : Runs (Step w) Standing ({ word := 0x0101010000#64 } : State Unit Unit) _ := .refl
  have reads : ({ word := 0x0101010000#64 } : State Unit Unit).LaneIntakeIdle true := fun _ => .inl rfl
  have r := r.next (.worker 0) trivial (.worker (i := 0) (Nat.le_of_ble_eq_true rfl) reads (.inr (.inr rfl))
    (show Park.Step _ _ .outside p from .outside))
  have r := r.trans (worker_runs (Nat.le_of_ble_eq_true rfl) rfl ⟨rfl, rfl⟩
    (idle.asleep_runs (fun _ => rfl) rfl rfl rfl)).1
  have r := r.next (.pushLaneIntake () [()]) trivial (.call rfl (by nofun))
  have r := r.next (.thread ()) trivial (.hot_enqueues rfl (by decide))
  have r := r.next (.thread ()) trivial (.enqueue rfl)
  refine ⟨_, r, rfl, rfl, ?_⟩
  obtain owes | ⟨i, lt, wakes⟩ := (intake_attended (by decide) r).1 (by nofun)
  · exact owes
  · have lt : i < BandField 0x0101010000#64 kBandK := lt
    obtain rfl : i = 0 := Nat.lt_one_iff.1 lt
    obtain ⟨t, owes⟩ := wakes rfl
    exact owes.elim

end JLib.Intake
