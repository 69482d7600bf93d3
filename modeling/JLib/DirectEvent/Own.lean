import JLib.DirectEvent.Sound

/-!
# A signal wakes the wait it was armed for

`waiter` has no generation: an event is released as soon as its fiber runs again, and a call of `Signal` that is still
to come for the old wait exchanges whatever the next one has put there. As long as that does not happen, every wait
is resumed by one call, on the pointer its own arm callback received and made before the wait ended.
-/

namespace JLib.DirectEvent
open LTS JLib.Fiber

variable {φ θ : Type} [DecidableEq φ] {s u : State φ θ} {a : Label θ} {f : φ} {t : θ} {k : Wait φ}

/-- The arm callback has received the pointer. -/
def Phase.Armed : Phase → Prop
  | acquired | cleared | wants | published => False
  | _ => True

/-- What a step can do to the place of a fiber and the number of its waits. -/
inductive Moves : Pc → Nat → Pc → Nat → Prop where
  | same {c n} : Moves c n c n
  | acquire {n e} : Moves .running n (.wait .acquired e) (n + 1)
  | on {p p' e n} : (p.Armed → p'.Armed) → Moves (.wait p e) n (.wait p' e) n
  | release {e n} : Moves (.wait .woken e) n .running n

/-- What moves a fiber is where it goes. -/
lemma Moves.goto {c : Pc} (mv : Moves (s.fiber f) (s.serial f) c (s.serial f)) (f' : φ) :
    Moves (s.fiber f') (s.serial f') ((s.goto f c).fiber f') (s.serial f') := by
  show Moves _ _ (Function.update s.fiber f c f') _
  by_cases e : f' = f
  · subst e
    rwa [Function.update_self]
  · rw [Function.update_of_ne e]
    exact .same

variable [DecidableEq θ]

/-- A fiber that is unparked moves to where it runs. -/
lemma Pc.unpark_moves (c : Pc) (n : Nat) : Moves c n c.unpark n := by
  cases c with
  | running => exact .same
  | wait p e =>
    cases p with
    | parked => exact .on fun _ => trivial
    | _ => exact .same

/-- A fiber that is queued moves into the queue. -/
lemma Pc.requeue_moves (c : Pc) (n : Nat) : Moves c n c.requeue n := by
  cases c with
  | running => exact .same
  | wait p e =>
    cases p with
    | handed => exact .on fun _ => trivial
    | _ => exact .same

/-- A step moves a fiber by one of these, or not at all. -/
lemma Step.moves (st : Step s a u) (f : φ) : Moves (s.fiber f) (s.serial f) (u.fiber f) (u.serial f) := by
  cases st with
  | @acquire f' e h mem =>
    show Moves _ _ (Function.update s.fiber f' _ f) (Function.update s.serial f' _ f)
    by_cases e : f = f'
    · subst e
      rw [Function.update_self, Function.update_self, h]
      exact .acquire
    · rw [Function.update_of_ne e, Function.update_of_ne e]
      exact .same
  | @clear f' e h | @want f' e h | @publish f' e h =>
    refine Moves.goto (s := s) (f := f') ?_ f
    rw [h]
    exact .on nofun
  | @arm f' e h | @switchOut f' e h | @back f' e h | @commit f' e h | @signaled f' e h | @push f' e h | @take f' e h =>
    refine Moves.goto (s := s) (f := f') ?_ f
    rw [h]
    exact .on fun _ => trivial
  | @commitFails f' e h _ =>
    refine Moves.goto (s := s) (f := f') ?_ f
    rw [h]
    refine .on fun _ => ?_
    split
    · trivial
    · trivial
  | @release f' e h =>
    refine Moves.goto (s := s) (f := f') ?_ f
    rw [h]
    exact .release
  | call | miss | hit | load | loadOther | casSuspendedFails | casWants | casWantsFails => exact .same
  | @casSuspended t f' => exact Moves.goto (s := s) (f := f') (Pc.unpark_moves _ _) f
  | @requeue t f' => exact Moves.goto (s := s) (f := f') (Pc.requeue_moves _ _) f

omit [DecidableEq φ] [DecidableEq θ] in
/-- A wait has ended if the fiber has gone on from it. -/
lemma State.ended_iff : s.ended k = true ↔ k.2 < s.serial k.1 ∨ k.2 = s.serial k.1 ∧ s.fiber k.1 = .running := by
  simp only [State.ended, Bool.or_eq_true, Bool.and_eq_true, decide_eq_true_eq]

/-- A wait that has ended has ended for good. -/
lemma Step.ended (st : Step s a u) (h : s.ended k = true) : u.ended k = true := by
  rw [State.ended_iff] at h ⊢
  have mv := st.moves k.1
  generalize s.fiber k.1 = c at *
  generalize s.serial k.1 = n at *
  generalize u.fiber k.1 = c' at *
  generalize u.serial k.1 = n' at *
  cases mv with
  | same => exact h
  | acquire => exact .inl (by omega)
  | on _ =>
    refine h.imp id ?_
    rintro ⟨-, no⟩
    cases no
  | release => exact h.imp id fun h => ⟨h.1, rfl⟩

/-- The pointer of a wait is that of its event, which it has as long as it lasts. -/
def State.Points (s : State φ θ) (k : Wait φ) (e : Nat) : Prop :=
  0 < k.2 ∧ (s.ended k = true ∨ k.2 = s.serial k.1 ∧ ∃ p, s.fiber k.1 = .wait p e ∧ p.Armed)

/-- The pointer of a wait stays that of its event. -/
lemma State.Points.step {e : Nat} (pt : s.Points k e) (st : Step s a u) : u.Points k e := by
  refine ⟨pt.1, ?_⟩
  rcases pt.2 with done | ⟨last, p, here, armed⟩
  · exact .inl (st.ended done)
  rw [State.ended_iff]
  have mv := st.moves k.1
  rw [here, ← last] at mv
  generalize u.fiber k.1 = c at *
  generalize hn : u.serial k.1 = n at *
  cases mv with
  | same => exact .inr ⟨rfl, p, rfl, armed⟩
  | on keep => exact .inr ⟨rfl, _, rfl, keep armed⟩
  | release => exact .inl (.inr ⟨rfl, rfl⟩)

/-- The condition on the steps: an exchange does not take the waiter of another wait than the one whose pointer it is
made on. -/
def OwnWaiter (s : State φ θ) : Label θ → Prop
  | .exchange t => ∀ e k late f, s.signal t = .exchange e k late → s.waiter e = some f → s.current f = k
  | _ => True

/-- The call has the fiber of the wait in hand. -/
def Call.Resumes (k : Wait φ) : Call φ → Prop
  | .resume _ k' _ _ => k' = k
  | _ => False

/-- What a call knows of its wait. -/
inductive Knows (s : State φ θ) : Call φ → Prop where
  | idle : Knows s .idle
  | exchange {e k late} :
    s.pointer k = some e →
    (late = true → s.ended k = true) →
    Knows s (.exchange e k late)
  | resume {f c} :
    c ≠ .idle →
    Knows s (.resume f (s.current f) false c)

structure Own (s : State φ θ) : Prop where
  sound : Sound s
  points : ∀ k e, s.pointer k = some e → s.Points k e
  calls : ∀ t, Knows s (s.signal t)
  wakes : ∀ w x, x ∈ s.wakes w → x = ⟨w, false⟩
  returned : ∀ k ∈ s.returned, s.wakes k ≠ [] ∨ ∃ t, (s.signal t).Resumes k

omit [DecidableEq θ] in
/-- A wait that has ended was woken once. -/
lemma Sound.ended_wakes (so : Sound s) (pos : 0 < k.2) (h : s.ended k = true) : (s.wakes k).length = 1 := by
  obtain ⟨-, ⟨b, -, at_⟩, -, past, -⟩ := so.fiber k.1
  rcases State.ended_iff.1 h with lt | ⟨last, running⟩
  · exact past k.2 pos lt
  · generalize s.status k.1 = st at at_
    rw [running, ← last] at at_
    cases at_ with
    | running one => exact one pos

omit [DecidableEq θ] in
/-- An exchange that finds nobody comes after the one that took the fiber. -/
lemma Own.missed {e : Nat} {late : Bool} (ow : Own s) (h : s.signal t = .exchange e k late) (hw : s.waiter e = none) :
    s.wakes k ≠ [] ∨ ∃ t', (s.signal t').Resumes k := by
  have kn := h ▸ ow.calls t
  cases kn with
  | exchange ptr _ =>
  obtain ⟨pos, done | ⟨last, p, here, armed⟩⟩ := ow.points k e ptr
  · left
    intro none
    have one := ow.sound.ended_wakes pos done
    rw [none] at one
    cases one
  obtain ⟨-, ⟨b, lone, at_⟩, -, -, -⟩ := ow.sound.fiber k.1
  have out : ¬s.mine k.1 e := by
    unfold State.mine
    rw [hw]
    exact nofun
  -- somebody has the fiber in hand, or had it
  have taken : (s.wakes k).length = 1 ∨ b ≠ .idle := by
    generalize s.status k.1 = st at at_
    rw [here, ← last] at at_
    cases at_ with
    | wait _ ft =>
    generalize (s.wakes (k.1, k.2)).length = n at ft ⊢
    cases ft with
    | acquired | cleared | wants => exact absurd armed id
    | leaving _ und | parked und =>
      cases und with
      | posted mine => exact absurd mine out
      | load | casWants => exact .inr nofun
    | casSuspended => exact .inr nofun
    | met | signaled | push | handed | queued | woken => exact .inl rfl
  rcases taken with one | busy
  · left
    intro none
    rw [none] at one
    cases one
  · right
    rcases lone with ⟨-, rest⟩ | ⟨t', at', -⟩
    · exact absurd rest busy
    refine ⟨t', ?_⟩
    have kn := ow.calls t'
    replace at' : (s.signal t').at k.1 = b := at'
    revert kn at'
    generalize s.signal t' = c
    intro kn at'
    cases kn with
    | idle | exchange => exact absurd at'.symm busy
    | @resume f _ _ =>
      by_cases e : f = k.1
      · show s.current f = k
        rw [e]
        exact Prod.ext rfl last.symm
      · rw [← at'] at busy
        exact absurd (if_neg e) busy

/-- A call in progress keeps what it knows of its wait. -/
lemma Own.knows {t' : θ} (ow : Own s) (st : Step s a u) (same : u.signal t' = s.signal t')
    (ptr : ∀ k e, s.pointer k = some e → u.pointer k = some e) : Knows u (u.signal t') := by
  have kn := ow.calls t'
  have so := ow.sound
  rw [same]
  generalize hc : s.signal t' = c at *
  cases kn with
  | idle => exact .idle
  | exchange here late => exact .exchange (ptr _ _ here) fun e => st.ended (late e)
  | @resume f c busy =>
    obtain ⟨p, e, hf, -, -⟩ := so.busy hc busy
    have mv := st.moves f
    rw [hf] at mv
    have current : u.current f = s.current f := by
      unfold State.current
      generalize s.serial f = n at mv ⊢
      generalize u.serial f = n' at mv ⊢
      generalize u.fiber f = c' at mv
      cases mv with
      | same | on | release => rfl
    rw [← current]
    exact .resume busy

/-- A pointer is received once. -/
lemma Own.pointer {e : Nat} (ow : Own s) (st : Step s a u) (h : s.pointer k = some e) : u.pointer k = some e := by
  cases st with
  | @arm f e' hf =>
    show Function.update s.pointer (s.current f) _ k = _
    by_cases same : k = s.current f
    · -- it was not received before: the callback has not run
      subst same
      obtain ⟨-, done | ⟨-, p, here, armed⟩⟩ := ow.points _ e h
      · rcases State.ended_iff.1 done with lt | ⟨-, running⟩
        · exact absurd lt (Nat.lt_irrefl _)
        · cases hf.symm.trans running
      · cases hf.symm.trans here
        cases armed
    · rw [Function.update_of_ne same]
      exact h
  | _ => exact h

/-- A pointer that is there after a step points as it should. -/
lemma Own.points_step (ow : Own s) (st : Step s a u) : ∀ k e, u.pointer k = some e → u.Points k e := by
  intro k e h
  have old : s.pointer k = some e → u.Points k e := fun h => (ow.points k e h).step st
  have so := ow.sound
  cases st with
  | @arm f e' hf =>
    replace h : Function.update s.pointer (s.current f) (some e') k = some e := h
    by_cases same : k = s.current f
    · subst same
      rw [Function.update_self] at h
      cases h
      have pos : 0 < s.serial f := by
        obtain ⟨-, ⟨b, -, at_⟩, -, -, -⟩ := so.fiber f
        generalize s.status f = st at at_
        rw [hf] at at_
        cases at_ with
        | wait pos _ => exact pos
      exact ⟨pos, .inr ⟨rfl, .armed, Function.update_self .., trivial⟩⟩
    · rw [Function.update_of_ne same] at h
      exact old h
  | _ => exact old h

/-- A step of one thread: the others go on as they were. -/
lemma Own.calls_step (ow : Own s) (st : Step s a u) {c : Call φ} (eq : u.signal = Function.update s.signal t c)
    (new : Knows u c) : ∀ t', Knows u (u.signal t') := by
  intro t'
  by_cases e : t' = t
  · rw [eq, e, Function.update_self]
    exact new
  · exact ow.knows st (by rw [eq, Function.update_of_ne e]) fun _ _ => ow.pointer st

/-- What was woken stays woken, and a call that is in the hand of another thread stays there. -/
lemma Own.returned_step (ow : Own s) {c : Call φ} (eq : u.signal = Function.update s.signal t c)
    (keep : ∀ k, s.wakes k ≠ [] → u.wakes k ≠ []) (done : ∀ k, (s.signal t).Resumes k → u.wakes k ≠ [] ∨ c.Resumes k) :
    ∀ k ∈ s.returned, u.wakes k ≠ [] ∨ ∃ t, (u.signal t).Resumes k := by
  intro k mem
  rcases ow.returned k mem with some | ⟨t', mine⟩
  · exact .inl (keep k some)
  by_cases e : t' = t
  · subst e
    refine (done k mine).imp id fun mine => ⟨t', ?_⟩
    rwa [eq, Function.update_self]
  · refine .inr ⟨t', ?_⟩
    rwa [eq, Function.update_of_ne e]

omit [DecidableEq θ] in
/-- A wake is that of the wait the fiber is in. -/
lemma Own.wake (ow : Own s) (w : Wait φ) (x : Wake φ) (h : x ∈ (s.wake f ⟨s.current f, false⟩).wakes w) :
    x = ⟨w, false⟩ := by
  replace h : x ∈ Function.update s.wakes (s.current f) _ w := h
  by_cases e : w = s.current f
  · subst e
    rw [Function.update_self] at h
    rcases List.mem_cons.1 h with rfl | h
    · rfl
    · exact ow.wakes _ x h
  · rw [Function.update_of_ne e] at h
    exact ow.wakes w x h

omit [DecidableEq θ] in
/-- A wake-up takes no wake-up back. -/
lemma wake_keeps {x : Wake φ} (w : Wait φ) (h : s.wakes w ≠ []) : (s.wake f x).wakes w ≠ [] := by
  show Function.update s.wakes (s.current f) _ w ≠ []
  by_cases e : w = s.current f
  · subst e
    rw [Function.update_self]
    exact nofun
  · rwa [Function.update_of_ne e]

omit [DecidableEq θ] in
/-- A wake-up goes to the wait that the fiber is in. -/
lemma wake_self {x : Wake φ} : (s.wake f x).wakes (s.current f) ≠ [] := by
  show Function.update s.wakes (s.current f) _ (s.current f) ≠ []
  rw [Function.update_self]
  exact nofun

/-- A step under the condition keeps what the calls know. -/
lemma Own.step (ow : Own s) (ok : OwnWaiter s a) (st : Step s a u) : Own u := by
  have so := ow.sound.step st
  have points := ow.points_step st
  have fiber : u.signal = s.signal → u.wakes = s.wakes → u.returned = s.returned → Own u := by
    intro signal wakes returned
    refine ⟨so, points, fun t => ow.knows st (congrFun signal t) fun _ _ => ow.pointer st, ?_, ?_⟩
    · rw [wakes]
      exact ow.wakes
    · rw [returned, wakes, signal]
      exact ow.returned
  cases id st with
  | acquire | clear | want | publish | arm | switchOut | back | commit | commitFails | signaled | push | take
  | release => exact fiber rfl rfl rfl
  | @call t k e h ptr =>
    refine ⟨so, points, ow.calls_step st rfl (.exchange ptr id), ow.wakes, ow.returned_step rfl (fun _ => id) ?_⟩
    intro k' no
    rw [h] at no
    cases no
  | @miss t e k late h hw =>
    have mine : ∀ k, ¬(s.signal t).Resumes k := by
      rw [h]
      exact fun _ => id
    have old := ow.returned_step (u := s.finish t k) (c := .idle) rfl (fun _ => id) fun k here => absurd here (mine k)
    refine ⟨so, points, ow.calls_step st rfl .idle, ow.wakes, fun k' mem => ?_⟩
    rcases List.mem_cons.1 mem with rfl | mem
    · refine (ow.missed h hw).imp id ?_
      rintro ⟨t', here⟩
      refine ⟨t', ?_⟩
      show (Function.update s.signal t .idle t').Resumes k'
      rw [Function.update_of_ne]
      · exact here
      · rintro rfl
        exact mine k' here
    · exact old k' mem
  | @hit t e k late f h hw =>
    have kn := h ▸ ow.calls t
    cases kn with
    | exchange ptr after =>
    -- the waiter is that of the wait whose pointer it is, so the wait had not ended when the call was made
    have own : s.current f = k := ok e k late f h hw
    have early : late = false := by
      cases late with
      | false => rfl
      | true =>
        obtain ⟨p, hf⟩ := (ow.sound.fiber f).slot e hw
        rcases State.ended_iff.1 (after rfl) with lt | ⟨-, running⟩
        · rw [← own] at lt
          exact absurd lt (Nat.lt_irrefl _)
        · rw [← own] at running
          cases hf.symm.trans running
    subst own early
    refine ⟨so, points, ow.calls_step st rfl (.resume nofun), ow.wakes, ow.returned_step rfl (fun _ => id) ?_⟩
    intro k' no
    rw [h] at no
    cases no
  | @load t f k late n h hs =>
    have kn := h ▸ ow.calls t
    cases kn with
    | resume _ =>
    have busy : Rpc.resolve n (s.status f) ≠ .idle := by
      rcases hs with hs | hs
      · rw [hs]
        exact nofun
      · rw [hs]
        exact nofun
    refine ⟨so, points, ow.calls_step st rfl (.resume busy), ow.wakes, ow.returned_step rfl (fun _ => id) ?_⟩
    intro k' mine
    rw [h] at mine
    exact .inr mine
  | @loadOther t f k late n h no no' =>
    -- the status is one of the two
    obtain ⟨p, e, -, -, ft⟩ := ow.sound.busy h nofun
    generalize s.status f = st at *
    generalize (s.wakes (s.current f)).length = w at ft
    cases ft with
    | leaving => exact absurd rfl no'
    | parked => exact absurd rfl no
  | @casSuspended t f k late h hs =>
    have kn := h ▸ ow.calls t
    cases kn with
    | resume _ =>
    refine ⟨so, points, ow.calls_step st rfl (.resume (f := f) nofun), fun w x => ow.wake w x,
      ow.returned_step rfl (fun w => wake_keeps w) ?_⟩
    intro k' mine
    rw [h] at mine
    exact .inr mine
  | @casSuspendedFails t f k late h hs =>
    obtain ⟨p, e, -, -, ft⟩ := ow.sound.busy h nofun
    generalize s.status f = st at *
    generalize (s.wakes (s.current f)).length = w at ft
    cases ft with
    | leaving _ und | parked und => cases und
    | casSuspended => exact absurd rfl hs
  | @casWants t f k late n h hs =>
    have kn := h ▸ ow.calls t
    cases kn with
    | resume _ =>
    refine ⟨so, points, ow.calls_step st rfl .idle, fun w x => ow.wake w x, fun k' mem => ?_⟩
    rcases List.mem_cons.1 mem with rfl | mem
    · exact .inl wake_self
    · refine ow.returned_step (u := (s.wake f ⟨s.current f, false⟩).finish t (s.current f)) (c := .idle) rfl
        (fun w => wake_keeps w) (fun k here => ?_) k' mem
      rw [h] at here
      cases here
      exact .inl wake_self
  | @casWantsFails t f k late n h hs =>
    have kn := h ▸ ow.calls t
    cases kn with
    | resume _ =>
    refine ⟨so, points, ow.calls_step st rfl (.resume nofun), ow.wakes, ow.returned_step rfl (fun _ => id) ?_⟩
    intro k' mine
    rw [h] at mine
    exact .inr mine
  | @requeue t f k late h =>
    have kn := h ▸ ow.calls t
    cases kn with
    | resume _ =>
    -- it was woken before it was made ready
    have woken : s.wakes (s.current f) ≠ [] := by
      intro none
      obtain ⟨p, e, -, -, ft⟩ := ow.sound.busy h nofun
      rw [none] at ft
      generalize s.status f = st at ft
      cases ft with
      | leaving _ und | parked und => cases und
    refine ⟨so, points, ow.calls_step st rfl .idle, ow.wakes, fun k' mem => ?_⟩
    rcases List.mem_cons.1 mem with rfl | mem
    · exact .inl woken
    · refine ow.returned_step (u := s.finish t (s.current f)) (c := .idle) rfl (fun _ => id) (fun k here => ?_) k' mem
      rw [h] at here
      cases here
      exact .inl woken

omit [DecidableEq θ] in
/-- There was no wait yet. -/
lemma Own.start (n : Nat) : Own (State.start n : State φ θ) :=
  ⟨.start n, nofun, fun _ => .idle, nofun, nofun⟩

/-- In every state of a run the calls know their wait. -/
lemma Own.of_runs {n : Nat} (rn : Runs Step OwnWaiter (State.start n) s) : Own s :=
  rn.invariant (Own.start n) Own.step

/-- In every run in which no exchange takes the waiter of another wait, a wait is resumed by no call but one that was
made on its own pointer before it ended, and by that once; when it has ended it was; when a call on its pointer has
returned it was, or another call has the fiber in hand; and once it was resumed the fiber does not stay parked. -/
theorem own_signal_resumes {n : Nat} (rn : Runs Step OwnWaiter (State.start n : State φ θ) s) :
    (∀ w, s.wakes w = [] ∨ s.wakes w = [⟨w, false⟩]) ∧
    (∀ w, 0 < w.2 → s.ended w = true → s.wakes w = [⟨w, false⟩]) ∧
    (∀ w ∈ s.returned, s.wakes w = [⟨w, false⟩] ∨ ∃ t, (s.signal t).Resumes w) ∧
    ∀ f e, s.fiber f = .wait .parked e → s.wakes (s.current f) = [] := by
  have ow := Own.of_runs rn
  have one : ∀ w, s.wakes w = [] ∨ s.wakes w = [⟨w, false⟩] := by
    intro w
    have once := ow.sound.once w
    have own := ow.wakes w
    generalize s.wakes w = l at once own
    match l with
    | [] => exact .inl rfl
    | [x] => exact .inr (by rw [own x (List.mem_singleton_self x)])
    | _ :: _ :: _ => exact absurd once (by simp)
  refine ⟨one, fun w pos done => (one w).resolve_left fun none => ?_, fun w mem => ?_, fun f e h => ?_⟩
  · have woken := ow.sound.ended_wakes pos done
    rw [none] at woken
    cases woken
  · exact (ow.returned w mem).imp (fun some => (one w).resolve_left some) id
  · obtain ⟨-, ⟨b, -, at_⟩, -, -, -⟩ := ow.sound.fiber f
    generalize s.status f = st at at_
    rw [h] at at_
    cases at_ with
    | wait _ ft =>
    refine List.length_eq_zero_iff.1 ?_
    show (s.wakes (f, s.serial f)).length = 0
    generalize (s.wakes (f, s.serial f)).length = n at ft ⊢
    cases ft with
    | leaving no | met no => cases no
    | parked | casSuspended => rfl

/-- A wait that is signalled before the worker decides, and signalled again when it has ended. -/
theorem own_signal_resumes_again : ∃ s : State Unit Unit, Runs Step OwnWaiter (State.start 2) s ∧
    s.ended ((), 1) = true ∧ s.wakes ((), 1) = [⟨((), 1), false⟩] ∧ s.returned = [((), 1), ((), 1)] := by
  have r : Runs Step OwnWaiter (State.start 2 : State Unit Unit) _ := .refl
  have r := r.next .fiber trivial (.acquire (f := ()) (e := 0) rfl (by decide))
  have r := r.next .fiber trivial (.clear (f := ()) rfl)
  have r := r.next .fiber trivial (.want (f := ()) rfl)
  have r := r.next .fiber trivial (.publish (f := ()) rfl)
  have r := r.next .fiber trivial (.arm (f := ()) rfl)
  have r := r.next (.call ()) trivial (.call (k := ((), 1)) (e := 0) rfl rfl)
  have r := r.next (.exchange ()) (by rintro _ _ _ _ ⟨⟩ _; rfl) (.hit (f := ()) rfl rfl)
  have r := r.next (.resume ()) trivial (.load rfl (.inr rfl))
  have r := r.next (.resume ()) trivial (.casWants rfl rfl)
  have r := r.next .fiber trivial (.switchOut (f := ()) rfl)
  have r := r.next .fiber trivial (.back (f := ()) rfl (by decide) (by decide))
  have r := r.next .fiber trivial (.commitFails (f := ()) rfl (by decide))
  have r := r.next .fiber trivial (.signaled (f := ()) rfl)
  have r := r.next .fiber trivial (.push (f := ()) rfl)
  have r := r.next .fiber trivial (.take (f := ()) rfl)
  have r := r.next .fiber trivial (.release (f := ()) rfl)
  have r := r.next (.call ()) trivial (.call (k := ((), 1)) (e := 0) rfl rfl)
  have r := r.next (.exchange ()) (by rintro _ _ _ _ ⟨⟩ ⟨⟩) (.miss rfl rfl)
  exact ⟨_, r, rfl, (own_signal_resumes r).2.1 ((), 1) (by decide) rfl, rfl⟩

/-- A second signal on the pointer of a wait that has ended resumes another fiber, which has the event now. -/
theorem late_signal_resumes_another : ∃ s : State Bool Unit, Reaches Step (State.start 2) s ∧
    s.ended (false, 1) = true ∧ s.ended (true, 1) = false ∧ s.wakes (true, 1) = [⟨(false, 1), true⟩] := by
  have r : Reaches Step (State.start 2 : State Bool Unit) _ := .refl
  have r := r.next .fiber trivial (.acquire (f := false) (e := 0) rfl (by decide))
  have r := r.next .fiber trivial (.clear (f := false) rfl)
  have r := r.next .fiber trivial (.want (f := false) rfl)
  have r := r.next .fiber trivial (.publish (f := false) rfl)
  have r := r.next .fiber trivial (.arm (f := false) rfl)
  have r := r.next (.call ()) trivial (.call (k := (false, 1)) (e := 0) rfl rfl)
  have r := r.next (.exchange ()) trivial (.hit (f := false) rfl rfl)
  have r := r.next (.resume ()) trivial (.load rfl (.inr rfl))
  have r := r.next (.resume ()) trivial (.casWants rfl rfl)
  have r := r.next .fiber trivial (.switchOut (f := false) rfl)
  have r := r.next .fiber trivial (.back (f := false) rfl (by decide) (by decide))
  have r := r.next .fiber trivial (.commitFails (f := false) rfl (by decide))
  have r := r.next .fiber trivial (.signaled (f := false) rfl)
  have r := r.next .fiber trivial (.push (f := false) rfl)
  have r := r.next .fiber trivial (.take (f := false) rfl)
  have r := r.next .fiber trivial (.release (f := false) rfl)
  -- the other fiber takes the event, and the signal on the old pointer comes again
  have r := r.next .fiber trivial (.acquire (f := true) (e := 0) rfl (by decide))
  have r := r.next .fiber trivial (.clear (f := true) rfl)
  have r := r.next .fiber trivial (.want (f := true) rfl)
  have r := r.next .fiber trivial (.publish (f := true) rfl)
  have r := r.next .fiber trivial (.arm (f := true) rfl)
  have r := r.next (.call ()) trivial (.call (k := (false, 1)) (e := 0) rfl rfl)
  have r := r.next (.exchange ()) trivial (.hit (f := true) rfl rfl)
  have r := r.next (.resume ()) trivial (.load rfl (.inr rfl))
  have r := r.next (.resume ()) trivial (.casWants rfl rfl)
  exact ⟨_, r, rfl, rfl, rfl⟩

end JLib.DirectEvent
