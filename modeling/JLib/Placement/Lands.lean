import JLib.Placement.Pick

/-!
# Placement: where pushes land

A push lands well when each task of the call is appended once, to a queue that exists and that somebody
drains. A reserved worker never reads its ordinary inbox, so ordinary work must not get there. It does
in three ways: a caller names a reserved worker, `PushBatch` is given an affinity past the pool, and the
conversion of a picked index to `uint8_t` folds a worker past 255 back into the reserved band.
-/

namespace JLib.Placement
open Bands Bits

/-- The entry points. -/
inductive Call where
  | target (t : Task) (cpuaffinity : Nat)
  | batch (ts : List Task) (cpuaffinity minPerSegment : Nat) (lane : Lane) (pref : CorePref)
  | requeue (t : Task)
  | io (t : Task)
  deriving Repr, DecidableEq

/-- The tasks a call hands over. -/
def Call.tasks : Call → List Task
  | target t _ | requeue t | io t => [t]
  | batch ts _ _ _ _ => ts

/-- A call with what it reads; `x s` is what a batch reads for its segment `s`. -/
def Call.run (p : Pool) (x : Nat → Reads) : Call → Out
  | target t a => p.PushTarget (x 0) t a
  | batch ts a m lane pref => p.PushBatch x ts a m lane pref
  | requeue t => p.Requeue (x 0) t
  | io t => p.PushIO (x 0) t

/-- The queues somebody drains. -/
def Drained (p : Pool) (x : Reads) (c : Call) : Queue → Prop
  | .normal i => p.GetHotWorkers ≤ i ∧ i < p.n
  | .lane i => i < p.n
  | .resumed i => i < p.n ∧ x.fibersMigrate = false ∧ ∃ t, c = .requeue t ∧ t.assignedFiber = some i
  | .mainPub => True
  | .intake => p.GetHotWorkers > 0

/-- A call that accepts appends each of its tasks once, to queues somebody drains; one that refuses
appends nothing. -/
def Lands (p : Pool) (x : Nat → Reads) (c : Call) : Prop :=
  if (c.run p x).ok then
    ((c.run p x).log.map Prod.snd).flatten = c.tasks ∧
      ∀ e ∈ (c.run p x).log, Drained p (x 0) c e.1
  else (c.run p x).log = []

/-- The worker whose turn it is keeps out of the reserved band when its index becomes a byte. -/
def Pool.TurnFits (p : Pool) (x : Reads) : Prop :=
  p.GetHotWorkers ≤ toByte (p.whoseTurn (toSize x.nextWorker))

/-- What a push without an explicit worker has to meet. -/
def Pool.Spared (p : Pool) (x : Reads) (t : Task) : Prop :=
  p.useHi x t.lane = .LowLatency ∨ (Pool.PushMainPublish x t).ok ∨ p.TurnFits x

/-- What `PushTarget` has to meet. -/
def Pool.TargetAimed (p : Pool) (x : Reads) (t : Task) (a : Nat) : Prop :=
  if 0 < a ∧ a ≤ p.n then p.useHi x t.lane = .LowLatency ∨ p.GetHotWorkers < a else p.Spared x t

/-- What `Requeue` has to meet. -/
def Pool.RequeueAimed (p : Pool) (x : Reads) (t : Task) : Prop :=
  match t.assignedFiber with
  | some home =>
    if x.fibersMigrate then p.Spared x t
    else home < p.n ∨ p.useHi x t.lane = .LowLatency ∨ p.TurnFits x
  | none => p.useHi x t.lane = .LowLatency ∨ p.TurnFits x

/-- What a call has to meet. -/
def Aimed (p : Pool) (x : Nat → Reads) : Call → Prop
  | .target t a => p.TargetAimed (x 0) t a
  | .batch ts a _ lane _ =>
    ts = [] ∨ a = 0 ∨ a ≤ p.n ∧ (p.useHi (x 0) lane = .LowLatency ∨ p.GetHotWorkers < a)
  | .requeue t => p.RequeueAimed (x 0) t
  | .io _ => True

namespace Pool
variable {p : Pool} {x : Reads} {c : Call} {t : Task} {a i : Nat}

/-- A byte is at most what it was taken from. -/
lemma toByte_le (i : Nat) : toByte i ≤ i := Nat.mod_le ..

/-- Ordinary work that goes to the picked worker lands well when the worker's index fits. -/
lemma drained_pick (p : Pool) (x : Reads) (c : Call) (pref : CorePref) :
    Drained p x c (.normal (toByte (p.PickNextWorker x pref .Normal))) ↔ p.TurnFits x := by
  obtain ⟨hk, hn⟩ := p.pick_normal x pref
  obtain ⟨tk, tn⟩ := whoseTurn_spec (p := p) (toSize x.nextWorker)
  have le := toByte_le (p.PickNextWorker x pref .Normal)
  unfold TurnFits
  by_cases hw : 256 < p.n
  · rw [p.pick_wide x pref hw] at *
    exact ⟨fun h => h.1, fun h => ⟨h, by omega⟩⟩
  · have e1 : toByte (p.PickNextWorker x pref .Normal) = p.PickNextWorker x pref .Normal :=
      Nat.mod_eq_of_lt (by omega)
    have e2 : toByte (p.whoseTurn (toSize x.nextWorker)) = p.whoseTurn (toSize x.nextWorker) :=
      Nat.mod_eq_of_lt (by omega)
    rw [e1, e2]
    exact ⟨fun _ => tk, fun _ => ⟨hk, hn⟩⟩

/-- The spill target of a worker is a worker. -/
lemma spillTarget_lt (h : i < p.n) : p.HiPriSpillTarget x i < p.n := by
  unfold HiPriSpillTarget
  split
  · exact h
  · split
    · cases hf : List.find? _ _ with
      | none => exact h
      | some q =>
        have := List.find?_some hf
        simp only [decide_eq_true_eq] at this
        exact this.1
    · exact h

/-- The inbox of a worker that was named. -/
lemma drained_named (p : Pool) (x : Reads) (c : Call) (hi : Lane) (i : Nat) (hn : i < p.n) :
    Drained p x c (inbox hi i) ↔ hi = .LowLatency ∨ p.GetHotWorkers ≤ i := by
  cases hi with
  | Normal => simp [inbox, Drained, hn]
  | LowLatency => simp [inbox, Drained, hn]

/-- The shared intake takes lane work or leaves the choice open. -/
lemma intake_spec (p : Pool) (x : Reads) (t : Task) (on : Prop) [Decidable on] :
    (if on then p.PushLaneIntake x [t] else ⟨false, []⟩) = ⟨false, []⟩ ∨
      (if on then p.PushLaneIntake x [t] else ⟨false, []⟩) = ⟨true, [(.intake, [t])]⟩ ∧
        p.GetHotWorkers > 0 := by
  split
  · unfold PushLaneIntake
    split
    · exact .inl rfl
    · next h =>
      have hk : p.GetHotWorkers ≠ 0 := fun e => h (.inr (.inr (.inl e)))
      exact .inr ⟨rfl, Nat.pos_of_ne_zero hk⟩
  · exact .inl rfl

/-- The main thread publishes the task or refuses it. -/
lemma mainPublish_spec (x : Reads) (t : Task) :
    (PushMainPublish x t = ⟨false, []⟩ ∧ (PushMainPublish x t).ok = false) ∨
      PushMainPublish x t = ⟨true, [(.mainPub, [t])]⟩ ∧ (PushMainPublish x t).ok = true := by
  unfold PushMainPublish
  split
  · exact .inl ⟨rfl, rfl⟩
  · exact .inr ⟨rfl, rfl⟩

/-- After a refusal the second is tried. -/
lemma orElse_refused (b : Out) : orElse ⟨false, []⟩ b = b := rfl

/-- What was accepted is not tried again. -/
lemma orElse_accepted (l : List (Queue × List Task)) (b : Out) : orElse ⟨true, l⟩ b = ⟨true, l⟩ := rfl

/-- `PushTarget` appends the task to one queue. -/
lemma target_spec (p : Pool) (x : Reads) (t : Task) (a : Nat) (c : Call) :
    ∃ q, p.PushTarget x t a = ⟨true, [(q, [t])]⟩ ∧ (Drained p x c q ↔ p.TargetAimed x t a) := by
  unfold PushTarget TargetAimed
  dsimp only
  by_cases hx : 0 < a ∧ a ≤ p.n
  · have hx' : a > 0 ∧ a - 1 < p.n := by omega
    rw [if_pos hx', if_pos hx]
    refine ⟨_, rfl, ?_⟩
    rw [drained_named p x c _ _ hx'.2]
    have : p.GetHotWorkers ≤ a - 1 ↔ p.GetHotWorkers < a := by omega
    rw [this]
  · have hx' : ¬(a > 0 ∧ a - 1 < p.n) := by omega
    rw [if_neg hx', if_neg hx]
    cases hi : p.useHi x t.lane with
    | LowLatency =>
      have sp : p.Spared x t := .inl hi
      simp only [reduceCtorEq, if_false, true_and, if_true]
      rcases intake_spec p x t (x.laneIntakeOn = true) with e | ⟨e, hk⟩
      · rw [e, orElse_refused, orElse_refused]
        refine ⟨_, rfl, fun _ => sp, fun _ => ?_⟩
        have hp := p.pick_lt x t.corePref .LowLatency
        have h1 := toByte_le (p.PickNextWorker x t.corePref .LowLatency)
        have h2 := spillTarget_lt (x := x) (show toByte (p.PickNextWorker x t.corePref .LowLatency) < p.n
          by omega)
        exact Nat.lt_of_le_of_lt (toByte_le _) h2
      · rw [e, orElse_accepted, orElse_accepted]
        exact ⟨_, rfl, fun _ => sp, fun _ => hk⟩
    | Normal =>
      simp only [reduceCtorEq, false_and, if_false, if_true, orElse_refused]
      rcases mainPublish_spec x t with ⟨e, ok⟩ | ⟨e, ok⟩
      · rw [e, orElse_refused]
        refine ⟨_, rfl, ?_⟩
        refine (p.drained_pick x c t.corePref).trans ?_
        simp [Spared, hi, ok]
      · rw [e, orElse_accepted]
        exact ⟨_, rfl, fun _ => .inr (.inl ok), fun _ => trivial⟩

end Pool

/-- A call that appends its tasks to one queue. -/
lemma lands_one {p : Pool} {x : Nat → Reads} {c : Call} {q : Queue}
    (h : c.run p x = ⟨true, [(q, c.tasks)]⟩) : Lands p x c ↔ Drained p (x 0) c q := by
  unfold Lands
  rw [h]
  simp

namespace Pool
variable {p : Pool} {x : Nat → Reads} {t : Task} {a i : Nat}

/-- A targeted push lands if it is aimed. -/
lemma lands_target (p : Pool) (x : Nat → Reads) (t : Task) (a : Nat) :
    Lands p x (.target t a) ↔ Aimed p x (.target t a) := by
  obtain ⟨q, e, hq⟩ := p.target_spec (x 0) t a (.target t a)
  rw [lands_one (c := .target t a) e, hq]
  rfl

/-- A task of the I/O thread lands. -/
lemma lands_io (p : Pool) (x : Nat → Reads) (t : Task) : Lands p x (.io t) := by
  by_cases h : t.lane ≠ .LowLatency ∨ p.GetHotWorkers = 0
  · unfold Lands
    simp [Call.run, PushIO, h]
  · obtain ⟨q, e, hq⟩ := p.target_spec (x 0) t (toByte (1 + (x 0).ioSteer % p.GetHotWorkers)) (.io t)
    have hr : Call.run p x (.io t) = ⟨true, [(q, [t])]⟩ := by
      rw [← e]
      exact if_neg h
    rw [lands_one (c := .io t) hr, hq]
    have hk : p.GetHotWorkers > 0 := by omega
    have hl : t.lane = .LowLatency := by
      by_contra hl
      exact h (.inl hl)
    have hm := Nat.mod_lt (x 0).ioSteer hk
    have hb := p.hot_lt_byte
    have hn := p.hot_lt
    have e1 : toByte (1 + (x 0).ioSteer % p.GetHotWorkers) = 1 + (x 0).ioSteer % p.GetHotWorkers :=
      Nat.mod_eq_of_lt (by omega)
    rw [e1]
    have hi : p.useHi (x 0) t.lane = .LowLatency := by
      simp [useHi, HiPriLaneActive, hl, hk]
    unfold TargetAimed
    rw [if_pos (by omega)]
    exact .inl hi

/-- `Requeue` past the resumed inbox: the intake or the picked worker. -/
lemma placed_spec (p : Pool) (x : Reads) (t : Task) (c : Call) : ∃ q,
    orElse (if p.useHi x t.lane = .LowLatency ∧ x.laneIntakeOn then p.PushLaneIntake x [t]
        else ⟨false, []⟩)
      ⟨true, [(inbox (p.useHi x t.lane)
        (toByte (p.PickNextWorker x t.corePref (p.useHi x t.lane))), [t])]⟩ =
      ⟨true, [(q, [t])]⟩ ∧
    (Drained p x c q ↔ p.useHi x t.lane = .LowLatency ∨ p.TurnFits x) := by
  rcases intake_spec p x t (p.useHi x t.lane = .LowLatency ∧ x.laneIntakeOn) with e | ⟨e, hk⟩
  · rw [e, orElse_refused]
    refine ⟨_, rfl, ?_⟩
    cases hi : p.useHi x t.lane with
    | Normal =>
      refine (p.drained_pick x c t.corePref).trans ?_
      simp
    | LowLatency =>
      have hp := p.pick_lt x t.corePref .LowLatency
      have h1 := toByte_le (p.PickNextWorker x t.corePref .LowLatency)
      refine ⟨fun _ => .inl rfl, fun _ => ?_⟩
      exact Nat.lt_of_le_of_lt h1 hp
  · rw [e, orElse_accepted]
    refine ⟨_, rfl, fun _ => .inl ?_, fun _ => hk⟩
    by_contra hi
    rw [if_neg fun h => hi h.1] at e
    cases e

/-- A task that is queued again lands if it is aimed. -/
lemma lands_requeue (p : Pool) (x : Nat → Reads) (t : Task) :
    Lands p x (.requeue t) ↔ Aimed p x (.requeue t) := by
  obtain ⟨q, e, hq⟩ := p.placed_spec (x 0) t (.requeue t)
  have run : Call.run p x (.requeue t) = p.Requeue (x 0) t := rfl
  unfold Requeue at run
  dsimp only at run
  rw [Aimed, RequeueAimed]
  cases hf : t.assignedFiber with
  | none =>
    simp only [hf, Option.isSome_none, Bool.false_eq_true, and_false, if_false, orElse_refused] at run
    rw [e] at run
    exact (lands_one (c := .requeue t) run).trans hq
  | some home =>
    simp only [hf, Option.isSome_some, and_true] at run ⊢
    cases hm : (x 0).fibersMigrate with
    | true =>
      obtain ⟨q', e', hq'⟩ := p.target_spec (x 0) t 0 (.requeue t)
      rw [hm, if_pos rfl, e', orElse_accepted] at run
      refine (lands_one (c := .requeue t) run).trans (hq'.trans ?_)
      simp [TargetAimed]
    | false =>
      rw [hm, if_neg (by decide), orElse_refused] at run
      by_cases hh : home < p.n
      · simp only [hh, Bool.not_false, and_self, if_true, orElse_accepted] at run
        refine (lands_one (c := .requeue t) run).trans ?_
        simp [Drained, hh, hm, hf]
      · simp only [hh, and_false, if_false, orElse_refused] at run
        rw [e] at run
        refine (lands_one (c := .requeue t) run).trans (hq.trans ?_)
        simp [hh]

/-- Where segment `s` starts. -/
def offset (count segs s : Nat) : Nat := s * (count / segs) + min s (count % segs)

/-- A segment starts where the one before it ends. -/
lemma offset_succ (count segs s : Nat) :
    offset count segs (s + 1) = offset count segs s + (count / segs + if s < count % segs then 1 else 0) := by
  unfold offset
  rw [Nat.succ_mul]
  split <;> omega

/-- The last segment ends with the batch. -/
lemma offset_end {count segs : Nat} (h : 0 < segs) : offset count segs segs = count := by
  unfold offset
  have := Nat.mod_lt count h
  rw [Nat.min_eq_right (by omega)]
  exact Nat.div_add_mod count segs

/-- The segments from `s` on are the rest of the array, in order and without overlap. -/
lemma submitAll_tasks {lane : Lane} {pref : CorePref} {ts : List Task} {segs : Nat} (hs : 0 < segs)
    {m s : Nat} (h : s + m = segs) :
    ((p.submitAll x lane pref ts segs m s (offset ts.length segs s)).map Prod.snd).flatten =
      ts.drop (offset ts.length segs s) := by
  induction m generalizing s with
  | zero =>
    have e : s = segs := by omega
    rw [e, offset_end hs, List.drop_length]
    rfl
  | succ m ih =>
    have next := ih (s := s + 1) (by omega)
    rw [offset_succ] at next
    unfold submitAll
    dsimp only
    generalize (ts.length / segs + if s < ts.length % segs then 1 else 0) = len at next
    split
    · next h0 =>
      rw [h0, Nat.add_zero] at next
      exact next
    · rw [List.map_cons, List.flatten_cons, next, ← List.drop_drop]
      exact List.take_append_drop ..

/-- Every segment goes to the inbox of a worker that drains it. -/
lemma submitAll_drained {lane : Lane} {pref : CorePref} {ts : List Task} {segs m s first : Nat}
    {y : Reads} {c : Call} :
    ∀ e ∈ p.submitAll x lane pref ts segs m s first, Drained p y c e.1 := by
  induction m generalizing s first with
  | zero => nofun
  | succ m ih =>
    unfold submitAll
    dsimp only
    generalize (ts.length / segs + if s < ts.length % segs then 1 else 0) = len
    split
    · exact ih
    · intro e he
      rcases List.mem_cons.1 he with rfl | he
      · unfold submitRun
        dsimp only
        cases p.useHi (x s) lane with
        | Normal => exact p.pick_normal (x s) pref
        | LowLatency => exact p.pick_lt (x s) pref .LowLatency
      · exact ih e he

/-- A batch has a segment. -/
lemma segments_pos (p : Pool) (lane : Lane) (count m : Nat) : 0 < p.segments lane count m := by
  have hk := p.hot_lt
  unfold segments
  dsimp only
  generalize (if p.n = 0 then 1 else count / if m = 0 then 1 else m) = want
  split
  · omega
  · omega

/-- A batch lands if it is aimed. -/
lemma lands_batch (p : Pool) (x : Nat → Reads) (ts : List Task) (a m : Nat) (lane : Lane)
    (pref : CorePref) : Lands p x (.batch ts a m lane pref) ↔ Aimed p x (.batch ts a m lane pref) := by
  have run : Call.run p x (.batch ts a m lane pref) = p.PushBatch x ts a m lane pref := rfl
  unfold PushBatch at run
  dsimp only at run
  by_cases h0 : ts = []
  · subst h0
    rw [List.isEmpty_nil, if_pos rfl] at run
    unfold Lands
    rw [run]
    simp [Aimed, Call.tasks]
  · have he : ¬ts.isEmpty = true := by simpa using h0
    rw [if_neg he] at run
    by_cases ha : a = 0
    · subst ha
      rw [if_neg (by simp)] at run
      unfold Lands
      rw [run]
      simp only [if_true, Aimed, true_or, or_true, iff_true]
      refine ⟨?_, submitAll_drained⟩
      have whole : ∀ pref', ((p.submitAll x lane pref' ts (p.segments lane ts.length m)
          (p.segments lane ts.length m) 0 (offset ts.length (p.segments lane ts.length m) 0)).map
            Prod.snd).flatten = ts.drop (offset ts.length (p.segments lane ts.length m) 0) :=
        fun _ => submitAll_tasks (p.segments_pos lane ts.length m) (Nat.zero_add _)
      simpa [offset, Call.tasks] using
        whole (if pref = .Default ∧ (x 0).pushBatchWide = true then .Wide else pref)
    · rw [if_pos ha] at run
      have all : p.submitRun (x 0) lane ts 0 ts.length (a - 1) =
          (inbox (p.useHi (x 0) lane) (a - 1), ts) := by
        simp [submitRun]
      rw [all] at run
      refine (lands_one (c := .batch ts a m lane pref) run).trans ?_
      simp only [Aimed, h0, ha, false_or]
      by_cases hn : a ≤ p.n
      · rw [drained_named p (x 0) _ _ _ (by omega)]
        have : p.GetHotWorkers ≤ a - 1 ↔ p.GetHotWorkers < a := by omega
        rw [this]
        simp [hn]
      · cases p.useHi (x 0) lane with
        | Normal =>
          simp only [inbox, Drained, hn, false_and, iff_false]
          omega
        | LowLatency =>
          simp only [inbox, Drained, hn, false_and, iff_false]
          omega

end Pool

/-- A push lands well exactly when it is aimed well. -/
theorem pushes_land (p : Pool) (x : Nat → Reads) (c : Call) : Lands p x c ↔ Aimed p x c := by
  cases c with
  | target t a => exact p.lands_target x t a
  | batch ts a m lane pref => exact p.lands_batch x ts a m lane pref
  | requeue t => exact p.lands_requeue x t
  | io t => exact iff_of_true (p.lands_io x t) trivial

/-- Four workers, the first of them reserved: an ordinary task pushed with affinity 1 goes to the ordinary
inbox of the reserved worker. -/
theorem pushes_land_reserved : ∃ (p : Pool) (t : Task), p.n = 4 ∧ p.GetHotWorkers = 1 ∧
    Call.run p (fun _ => {}) (.target t 1) = ⟨true, [(.normal 0, [t])]⟩ ∧
    ¬Lands p (fun _ => {}) (.target t 1) := by
  let p : Pool := ⟨4, 0x010101#64, by decide, by decide⟩
  let t : Task := ⟨0, .Normal, .Default, none⟩
  have run : Call.run p (fun _ => {}) (.target t 1) = ⟨true, [(.normal 0, [t])]⟩ := by decide
  refine ⟨p, t, rfl, by decide, run, fun h => ?_⟩
  have hd : Drained p {} (.target t 1) (.normal 0) :=
    (lands_one (p := p) (c := .target t 1) run).1 h
  exact absurd hd.1 (by decide)

end JLib.Placement
