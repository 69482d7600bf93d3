import JLib.Floor.Awake

/-!
# A wave bounds the floor

As long as nobody moves the base, no interleaving of growths, collapses and moves of `K` brings the floor below its
base, over the room that `K` leaves it, or over the base and the largest submit; and the recorded peak keeps up with
it.
-/

namespace JLib.Floor
open LTS Bands

variable {θ τ : Type} [DecidableEq θ] {w : Pool} {s s' : State θ τ} {l : Label θ τ} {t u : θ} {c : Cause}
  {b bw : BitVec 64}
  {m B : Nat}

/-! ## What a growth asks for -/

/-- A growth asks for no less than there is, for no more than the wave needs, and leaves a worker that may park. -/
lemma crowded_spec {n userCap submitted want : Nat} (h : crowded n userCap submitted b = some want) :
    BandField b kBandF ≤ want ∧ want ≤ max submitted 1 + BandField b kBandFbase ∧
      BandField b kBandK + want + 2 ≤ n ∧ (userCap ≠ 0 → want ≤ userCap) := by
  unfold crowded at h
  dsimp only at h
  generalize BandField b kBandF = k at *
  generalize BandField b kBandFbase = fbase at *
  generalize BandField b kBandK = kNow at *
  simp only [Option.ite_none_left_eq_some, Option.some.injEq] at h
  obtain ⟨noRoom, structural, full, shrinks, rfl⟩ := h
  grind

/-! ## The bound -/

/-- The condition on the calls: a submit is of at most `m` tasks, and the base is not moved. -/
def Wave (m : Nat) (_ : State θ τ) : Label θ τ → Prop
  | .crowd _ submitted => max submitted 1 ≤ m
  | .setFloor _ _ => False
  | _ => True

/-- What a writer is asked for is at most the base and the wave, or the base. -/
def Cause.Bounded (m base : Nat) : Cause → Prop
  | grow want => want ≤ base + m
  | collapse _ b => b = base
  | force b => b = base
  | .base _ => False
  | floor _ => False
  | _ => True

def Pc.Bounded (m base top : Nat) : Pc → Prop
  | crowding submitted => max submitted 1 ≤ m
  | capped submitted bw => max submitted 1 ≤ m ∧ BandField bw kBandFbase = base
  | clock _ b => b = base
  | grown _ b _ => b = base
  | held _ b _ => b = base
  | load c => c.Bounded m base
  | loop c _ => c.Bounded m base
  | reset f => f ≤ top
  | stamp want _ => want ≤ base + m
  | stamped want _ _ => want ≤ base + m
  | peak want _ => want ≤ base + m
  | peakLoop want _ _ => want ≤ base + m
  | waking _ _ _ next => next.Bounded m base top
  | ringing _ next => next.Bounded m base top
  | _ => True

/-- The floor that a run from the word cannot exceed. -/
def top (m : Nat) (b : BitVec 64) : Nat := max (BandField b kBandF) (BandField b kBandFbase + m)

/-- The floor stands between its base and the bound. -/
structure Waved (w : Pool) (m : Nat) (b : BitVec 64) (s : State θ τ) : Prop where
  room : Room w.n s.word
  base : s.Fbase = BandField b kBandFbase
  above : s.Fbase ≤ s.F
  below : s.F ≤ top m b
  peak : s.g_awakeFloorPeak ≤ top m b
  bounded : ∀ t, (s.thread t).Bounded m s.Fbase (top m b)

/-- An exchange leaves the floor between the base and the larger of what it was and what the wave asks for. -/
lemma Cause.next_floor (two : 2 ≤ w.n) (small : w.n ≤ kMaxHintQueues) (h : (c.op w.n).next w.n b = some bw)
    (room : Room w.n b) (above : BandField b kBandFbase ≤ BandField b kBandF)
    (bd : c.Bounded m (BandField b kBandFbase)) :
    Room w.n bw ∧ BandField bw kBandFbase = BandField b kBandFbase ∧ BandField b kBandFbase ≤ BandField bw kBandF ∧
      BandField bw kBandF ≤ max (BandField b kBandF) (BandField b kBandFbase + m) := by
  have new := Cause.next_field two h
  have lt := BandField_lt b kBandF
  have small : w.n ≤ 256 := small
  unfold Room at room ⊢
  cases c with
  | grow f | force f =>
    have eK : BandField bw kBandK = BandField b kBandK := Cause.next_same two h (.inr (Nat.le_of_ble_eq_true rfl))
    have eB : BandField bw kBandFbase = BandField b kBandFbase :=
      Cause.next_same two h (.inr (Nat.le_of_ble_eq_true rfl))
    change BandField bw kBandF = min (max f (BandField b kBandFbase)) (w.n - BandField b kBandK - 1) % 256 at new
    rw [Nat.mod_eq_of_lt (by omega)] at new
    have bd : f ≤ BandField b kBandFbase + m := by
      first | exact bd | exact Nat.le_add_right_of_le (Nat.le_of_eq bd)
    omega
  | collapse cur base =>
    have eK : BandField bw kBandK = BandField b kBandK := Cause.next_same two h (.inr (Nat.le_of_ble_eq_true rfl))
    have eB : BandField bw kBandFbase = BandField b kBandFbase :=
      Cause.next_same two h (.inr (Nat.le_of_ble_eq_true rfl))
    have bd : base = BandField b kBandFbase := bd
    change BandField bw kBandF = base % 256 at new
    rw [Nat.mod_eq_of_lt (by omega)] at new
    omega
  | base | floor => exact bd.elim
  | kmax | kmin =>
    have eK : BandField bw kBandK = BandField b kBandK := Cause.next_same two h (.inl (Nat.le_of_ble_eq_true rfl))
    have eB : BandField bw kBandFbase = BandField b kBandFbase :=
      Cause.next_same two h (.inl (Nat.le_of_ble_eq_true rfl))
    have eF : BandField bw kBandF = BandField b kBandF := Cause.next_same two h (.inl (Nat.le_of_ble_eq_true rfl))
    omega
  | hot k =>
    have eB : BandField bw kBandFbase = BandField b kBandFbase :=
      Cause.next_same two h (.inl (Nat.le_of_ble_eq_true rfl))
    have eF : BandField bw kBandF = BandField b kBandF := Cause.next_same two h (.inl (Nat.le_of_ble_eq_true rfl))
    have le := Cause.next_le two h
    change BandField bw kBandK ≤ min (if BandField b kBandKmax = 0 then Promotion.requested k w.n else
      min (Promotion.requested k w.n) (BandField b kBandKmax)) (w.n - BandField b kBandF - 1) at le
    omega

/-- What a call goes on with is asked for no more. -/
lemma Cause.after_bounded {base prev top : Nat} (bd : c.Bounded m base) : (c.after prev).Bounded m base top := by
  cases c with
  | grow want =>
    show Pc.Bounded _ _ _ (if want > prev then .stamp want prev else .peak want prev)
    split <;> exact bd
  | base | floor => exact bd.elim
  | _ => trivial

namespace Waved

omit [DecidableEq θ] in
/-- What the wave asks for. -/
lemma wave_le (wv : Waved w m b s) : s.Fbase + m ≤ top m b := by
  rw [wv.base]
  exact Nat.le_max_right _ _

omit [DecidableEq θ] in
/-- A step that leaves the word. -/
lemma same (wv : Waved w m b s) (hw : s'.word = s.word) (peak : s'.g_awakeFloorPeak ≤ top m b)
    (bounded : ∀ t, (s'.thread t).Bounded m s.Fbase (top m b)) : Waved w m b s' := by
  have eB : s'.Fbase = s.Fbase := congrArg (BandField · kBandFbase) hw
  have eF : s'.F = s.F := congrArg (BandField · kBandF) hw
  refine ⟨?_, ?_, ?_, ?_, peak, ?_⟩
  · rw [hw]
    exact wv.room
  · rw [eB]
    exact wv.base
  · rw [eB, eF]
    exact wv.above
  · rw [eF]
    exact wv.below
  · rw [eB]
    exact bounded

/-- A thread goes on. -/
lemma goto {pc : Pc} (wv : Waved w m b s) (hw : s'.word = s.word) (peak : s'.g_awakeFloorPeak ≤ top m b)
    (ht : s'.thread = (s.goto t pc).thread) (bd : pc.Bounded m s.Fbase (top m b)) : Waved w m b s' := by
  refine wv.same hw peak fun u => ?_
  rw [ht, State.goto_thread]
  split
  · exact bd
  · exact wv.bounded u

end Waved

/-- A step under the condition keeps the floor within its bounds. -/
lemma Step.waved (two : 2 ≤ w.n) (small : w.n ≤ kMaxHintQueues) (st : Step w s l s') (ok : Wave m s l)
    (wv : Waved w m b s) : Waved w m b s' := by
  have here : ∀ {t pc}, s.thread t = pc → pc.Bounded m s.Fbase (top m b) := by
    rintro t _ rfl
    exact wv.bounded t
  cases st with
  | worker | notify => exact wv.same rfl wv.peak wv.bounded
  | outside => exact wv.same rfl wv.peak wv.bounded
  | crowding => exact wv.goto rfl wv.peak rfl ok
  | snapshot e =>
    have bd := here e
    exact wv.goto rfl wv.peak rfl ⟨bd, rfl⟩
  | @crowded t submitted bw e =>
    obtain ⟨le, eB⟩ := here e
    refine wv.goto rfl wv.peak rfl ?_
    cases asks : Floor.crowded w.n s.g_floorGrowCap submitted bw with
    | none => trivial
    | some want =>
      obtain ⟨-, wave, -⟩ := crowded_spec asks
      show want ≤ s.Fbase + m
      omega
  | collapse e =>
    refine wv.goto rfl wv.peak rfl ?_
    split
    · trivial
    · exact rfl
  | held e =>
    refine wv.goto rfl wv.peak rfl ?_
    have bd := here e
    split
    · trivial
    · exact bd
  | setFloor => exact ok.elim
  | force => exact wv.goto rfl wv.peak rfl rfl
  | reset => exact wv.goto rfl wv.peak rfl wv.below
  | resetStore e =>
    have bd := here e
    exact wv.goto rfl bd rfl trivial
  | @exchange t c cur bw e next eq =>
    subst eq
    have bd := here e
    obtain ⟨room, eB, above, below⟩ := Cause.next_floor two small next wv.room wv.above bd
    refine ⟨room, eB.trans wv.base, ?_, ?_, wv.peak, fun u => ?_⟩
    · show BandField bw kBandFbase ≤ BandField bw kBandF
      rw [eB]
      exact above
    · exact Nat.le_trans below (Nat.max_le.2 ⟨wv.below, wv.wave_le⟩)
    · show Pc.Bounded m (BandField bw kBandFbase) _ _
      rw [eB, State.goto_thread]
      split
      · exact Cause.after_bounded bd
      · exact wv.bounded u
  | peakExchange e more eq =>
    have bd : _ ≤ s.Fbase + m := here e
    refine wv.goto rfl (Nat.le_trans bd wv.wave_le) rfl ?_
    split <;> trivial
  | clock e | age e | load e | retry e | stamp e | stamped e | peak e | peakRetry e | woken e | notified e
  | ring e =>
    have bd := here e
    exact wv.goto rfl wv.peak rfl bd
  | peakDone e =>
    refine wv.goto rfl wv.peak rfl ?_
    split <;> trivial
  | keyed e =>
    refine wv.goto rfl wv.peak rfl ?_
    unfold Pc.Bounded
    split <;> trivial
  | push | collapsing | forcing | setHot | setHotEffective | resetting | refuse | resv | floored | slide =>
    exact wv.goto rfl wv.peak rfl trivial

/-- In every state of a run the floor is within its bounds. -/
lemma Waved.of_runs (two : 2 ≤ w.n) (small : w.n ≤ kMaxHintQueues) (room : Room w.n b)
    (above : BandField b kBandFbase ≤ BandField b kBandF) (rn : Runs (Step w) (Wave m) { word := b } s) :
    Waved w m b s := by
  have init : Waved w m b ({ word := b } : State θ τ) :=
    { room := room
      base := rfl
      above := above
      below := Nat.le_max_left _ _
      peak := Nat.zero_le _
      bounded := fun _ => trivial }
  refine rn.invariant (I := Waved w m b) init ?_
  intro s l s' wv ok st
  exact st.waved two small ok wv

/-- A pool of four with a floor of one: a growth for one task has made its exchange and recorded the peak. -/
lemma grown_four : ∃ s : State Unit Unit, Runs (Step ⟨4, false⟩) (fun s l => Wave 1 s l ∧ ∀ t, l ≠ .reset t)
    { word := 0x0101#64 } s ∧ s.F = 2 ∧ s.thread () = .resv 2 1 := by
  have r : Runs (Step ⟨4, false⟩) (fun s l => Wave 1 s l ∧ ∀ t, l ≠ .reset t)
    ({ word := 0x0101#64 } : State Unit Unit) _ := .refl
  have r := r.next (.crowd () 1) ⟨Nat.le_refl 1, nofun⟩ (.crowding rfl (by decide) (by decide))
  have r := r.next (.thread ()) ⟨trivial, nofun⟩ (.snapshot rfl)
  have r := r.next (.thread ()) ⟨trivial, nofun⟩ (.crowds rfl (show crowded 4 0 1 0x0101#64 = some 2 by decide))
  have r := r.next (.thread ()) ⟨trivial, nofun⟩ (.load rfl)
  have r := r.next (.exchange ()) ⟨trivial, nofun⟩
    (.exchange rfl (show (Op.setF 2).next 4 0x0101#64 = some 0x0102#64 by decide) rfl)
  have r := r.next (.thread ()) ⟨trivial, nofun⟩ (.stamp (show _ = Pc.stamp 2 1 from rfl))
  have r := r.next (.thread ()) ⟨trivial, nofun⟩ (.stamped rfl)
  have r := r.next (.thread ()) ⟨trivial, nofun⟩ (.peak rfl)
  have r := r.next (.thread ()) ⟨trivial, nofun⟩ (.peakExchange rfl (Nat.succ_pos 1) rfl)
  exact ⟨_, r, by decide, rfl⟩

/-- Nobody moves the base: the bands fit, the floor is at least its base, and neither it nor the recorded peak is over
the floor at the start and the base plus the largest submit. -/
theorem wave_bounds_floor (two : 2 ≤ w.n) (small : w.n ≤ kMaxHintQueues) (room : Room w.n b)
    (above : BandField b kBandFbase ≤ BandField b kBandF) (rn : Runs (Step w) (Wave m) { word := b } s) :
    s.K + s.F ≤ w.n - 1 ∧ s.Fbase = BandField b kBandFbase ∧ s.Fbase ≤ s.F ∧
      s.F ≤ max (BandField b kBandF) (BandField b kBandFbase + m) ∧
      s.g_awakeFloorPeak ≤ max (BandField b kBandF) (BandField b kBandFbase + m) := by
  have wv := Waved.of_runs two small room above rn
  exact ⟨wv.room, wv.base, wv.above, wv.below, wv.peak⟩

/-- Four workers, and a submit of one task, which grows the floor to two. -/
theorem wave_bounds_floor_four : ∃ s : State Unit Unit, Runs (Step ⟨4, false⟩) (Wave 1) { word := 0x0101#64 } s ∧
    s.F = 2 ∧ s.K + s.F ≤ 3 ∧ s.F ≤ max 1 (1 + 1) := by
  obtain ⟨s, rn, grown, -⟩ := grown_four
  have rn : Runs (Step ⟨4, false⟩) (Wave 1) { word := 0x0101#64 } s := rn.mono fun _ _ ok => ok.1
  obtain ⟨fits, -, -, bound, -⟩ := wave_bounds_floor (by decide) (by decide) (by decide) (by decide) rn
  exact ⟨s, rn, grown, fits, bound⟩

/-! ## The recorded peak -/

/-- The growth has made its exchange and has not recorded it. -/
def Pc.grows : Pc → Option Nat
  | stamp want _ => some want
  | stamped want _ _ => some want
  | peak want _ => some want
  | peakLoop want _ _ => some want
  | _ => none

/-- As `Wave`, and the peak is not reset. -/
def Unreset (m : Nat) (s : State θ τ) (l : Label θ τ) : Prop := Wave m s l ∧ ∀ t, l ≠ .reset t

/-- A floor of `v` is recorded, or is going to be. -/
def Recorded (b : BitVec 64) (v : Nat) (s : State θ τ) : Prop :=
  v ≤ max (BandField b kBandF) s.g_awakeFloorPeak ∨ ∃ t want, (s.thread t).grows = some want ∧ v ≤ want

/-- The call is not to lower a recorded peak of `peak`, and has seen no higher one. -/
def Pc.Calm (peak : Nat) : Pc → Prop
  | resetting => False
  | reset _ => False
  | peakLoop _ _ seen => seen ≤ peak
  | waking _ _ _ next => next.Calm peak
  | ringing _ next => next.Calm peak
  | _ => True

def Kept (s : State θ τ) : Prop := ∀ t, (s.thread t).Calm s.g_awakeFloorPeak

/-- Who is calm about a floor is calm about a higher one. -/
lemma Pc.Calm.mono {p q : Nat} {pc : Pc} (le : p ≤ q) (calm : pc.Calm p) : pc.Calm q := by
  induction pc with
  | peakLoop => exact Nat.le_trans calm le
  | waking _ _ _ _ ih | ringing _ _ ih => exact ih calm
  | resetting | reset => exact calm.elim
  | _ => trivial

/-- A thread goes on. -/
lemma Kept.goto {pc : Pc} (kp : Kept s) (peak : s.g_awakeFloorPeak ≤ s'.g_awakeFloorPeak)
    (ht : s'.thread = (s.goto t pc).thread) (calm : pc.Calm s'.g_awakeFloorPeak) : Kept s' := by
  intro u
  rw [ht, State.goto_thread]
  split
  · exact calm
  · exact (kp u).mono peak

/-- A thread that has nothing to record goes on. -/
lemma Recorded.goto {v : Nat} {pc : Pc} (rec : Recorded b v s) (peak : s.g_awakeFloorPeak ≤ s'.g_awakeFloorPeak)
    (ht : s'.thread = (s.goto t pc).thread)
    (own : ∀ want, (s.thread t).grows = some want → pc.grows = some want ∨ want ≤ s'.g_awakeFloorPeak) :
    Recorded b v s' := by
  obtain le | ⟨u, want, grows, le⟩ := rec
  · exact .inl (by omega)
  · by_cases eu : u = t
    · subst eu
      obtain grows | le' := own want grows
      · refine .inr ⟨u, want, ?_, le⟩
        rw [ht, State.goto_self]
        exact grows
      · exact .inl (by omega)
    · refine .inr ⟨u, want, ?_, le⟩
      rw [ht, State.goto_other _ _ eu]
      exact grows

/-- What a call goes on with does not lower the peak. -/
lemma Cause.after_calm {prev p : Nat} : (c.after prev).Calm p := by
  cases c with
  | grow want =>
    show Pc.Calm _ (if want > prev then .stamp want prev else .peak want prev)
    split <;> trivial
  | floor k =>
    show Pc.Calm _ (if k ≤ prev then .idle else .floored k prev)
    split <;> trivial
  | _ => trivial

/-- Nothing lowers the recorded peak. -/
lemma Step.kept (st : Step w s l s') (ok : Unreset m s l) (kp : Kept s) :
    Kept s' ∧ s.g_awakeFloorPeak ≤ s'.g_awakeFloorPeak := by
  have here : ∀ {t pc}, s.thread t = pc → pc.Calm s.g_awakeFloorPeak := by
    rintro t _ rfl
    exact kp t
  have same := Nat.le_refl s.g_awakeFloorPeak
  cases st with
  | worker | notify | outside => exact ⟨kp, same⟩
  | resetting => exact (ok.2 _ rfl).elim
  | reset e => exact (here e).elim
  | resetStore e => exact (here e).elim
  | exchange => exact ⟨kp.goto same rfl Cause.after_calm, same⟩
  | woken e | notified e | ring e =>
    have calm := here e
    exact ⟨kp.goto same rfl calm, same⟩
  | peakExchange e more eq =>
    subst eq
    refine ⟨kp.goto (Nat.le_of_lt more) rfl ?_, Nat.le_of_lt more⟩
    split <;> trivial
  | peak | peakRetry => exact ⟨kp.goto same rfl same, same⟩
  | @crowded t submitted bw e =>
    refine ⟨kp.goto same rfl ?_, same⟩
    cases Floor.crowded w.n s.g_floorGrowCap submitted bw <;> trivial
  | collapse | held | peakDone =>
    refine ⟨kp.goto same rfl ?_, same⟩
    split <;> trivial
  | keyed =>
    refine ⟨kp.goto same rfl ?_, same⟩
    unfold Pc.Calm
    split <;> trivial
  | _ => exact ⟨kp.goto same rfl trivial, same⟩

/-- A step under the condition keeps a floor recorded, or owed to the record. -/
lemma Step.recorded {v : Nat} (st : Step w s l s') (ok : Unreset m s l) (kp : Kept s) (rec : Recorded b v s) :
    Recorded b v s' := by
  have peak := (st.kept ok kp).2
  cases st with
  | worker | notify | outside => exact rec
  | stamp e | stamped e | peak e | peakRetry e =>
    refine rec.goto peak rfl fun want grows => .inl ?_
    rw [e] at grows
    exact grows
  | peakExchange e =>
    refine rec.goto peak rfl fun want grows => .inr ?_
    rw [e] at grows
    cases grows
    exact Nat.le_refl _
  | @peakDone t _ _ _ e done =>
    refine rec.goto peak rfl fun want grows => .inr ?_
    have calm := kp t
    rw [e] at grows calm
    cases grows
    exact Nat.le_trans (Nat.le_of_not_lt done) calm
  | crowding e | snapshot e | crowded e | collapsing e | collapse e | clock e | age e | held e | forcing e | force e
  | setFloor e | setHot e | setHotEffective e | resetting e | reset e | resetStore e | load e | exchange e | retry e
  | refuse e | resv e | floored e | keyed e | slide e | woken e | push e | ring e | notified e =>
    refine rec.goto peak rfl fun want grows => ?_
    rw [e] at grows
    cases grows

/-- Nobody but a growth lifts the floor over its base. -/
lemma Cause.next_kept (two : 2 ≤ w.n) (h : (c.op w.n).next w.n b = some bw)
    (above : BandField b kBandFbase ≤ BandField b kBandF) (bd : c.Bounded m (BandField b kBandFbase)) :
    BandField bw kBandF ≤ BandField b kBandF ∨ ∃ want, c = .grow want ∧ BandField bw kBandF ≤ want := by
  have le := Cause.next_le two h
  cases c with
  | grow want =>
    change BandField bw kBandF ≤ min (max want (BandField b kBandFbase)) _ at le
    by_cases more : BandField bw kBandF ≤ BandField b kBandF
    · exact .inl more
    · exact .inr ⟨want, rfl, by omega⟩
  | force base =>
    have bd : base = BandField b kBandFbase := bd
    change BandField bw kBandF ≤ min (max base (BandField b kBandFbase)) _ at le
    exact .inl (by omega)
  | collapse cur base =>
    have bd : base = BandField b kBandFbase := bd
    change BandField bw kBandF ≤ base at le
    exact .inl (by omega)
  | base | floor => exact bd.elim
  | kmax | kmin | hot => exact .inl (Nat.le_of_eq (Cause.next_same two h (.inl (Nat.le_of_ble_eq_true rfl))))

/-- A floor that comes to be is recorded, or is going to be. -/
lemma Step.lifted (two : 2 ≤ w.n) (st : Step w s l s') (ok : Unreset m s l) (wv : Waved w m b s) (kp : Kept s)
    (rec : Recorded b s.F s) : Recorded b s'.F s' := by
  have old : s'.F ≤ s.F → Recorded b s'.F s' := by
    intro le
    obtain le' | ⟨t, want, grows, le'⟩ := st.recorded ok kp rec
    · exact .inl (Nat.le_trans le le')
    · exact .inr ⟨t, want, grows, Nat.le_trans le le'⟩
  cases st with
  | @exchange t c cur bw e next eq =>
    subst eq
    have bd := wv.bounded t
    rw [e] at bd
    obtain le | ⟨want, rfl, le⟩ := Cause.next_kept two next wv.above bd
    · exact old le
    · by_cases more : want > s.F
      · refine .inr ⟨t, want, ?_, le⟩
        rw [State.goto_self]
        show Pc.grows (if want > s.F then .stamp want s.F else .peak want s.F) = some want
        rw [if_pos more]
        rfl
      · exact old (Nat.le_trans le (Nat.le_of_not_lt more))
  | _ => exact old (Nat.le_refl _)

/-- In every later state of a run the floor is recorded, or owed to the record. -/
lemma Recorded.of_runs (two : 2 ≤ w.n) (small : w.n ≤ kMaxHintQueues) (room : Room w.n b)
    (above : BandField b kBandFbase ≤ BandField b kBandF) (rn : Runs (Step w) (Unreset m) { word := b } s) :
    Kept s ∧ Recorded b s.F s := by
  induction rn with
  | refl => exact ⟨fun _ => trivial, .inl (Nat.le_max_left _ _)⟩
  | tail rn ok st ih =>
    obtain ⟨kp, rec⟩ := ih
    have wv : Waved w m b _ := .of_runs two small room above (rn.mono fun _ _ ok => ok.1)
    exact ⟨(st.kept ok kp).1, st.lifted two ok wv kp rec⟩

/-- The recorded peak is a high-water mark: whatever floor has stood at any time, over the one at the start, it is not
below it once no growth is between its exchange and its record. -/
theorem peak_recorded (two : 2 ≤ w.n) (small : w.n ≤ kMaxHintQueues) (room : Room w.n b)
    (above : BandField b kBandFbase ≤ BandField b kBandF) (rn : Runs (Step w) (Unreset m) { word := b } s)
    (rn' : Runs (Step w) (Unreset m) s s') (settled : ∀ t, (s'.thread t).grows = none) :
    s.F ≤ max (BandField b kBandF) s'.g_awakeFloorPeak := by
  have stood : Kept s' ∧ Recorded b s.F s' := by
    refine rn'.invariant (I := fun u => Kept u ∧ Recorded b s.F u) (Recorded.of_runs two small room above rn) ?_
    rintro u l u' ⟨kp, rec⟩ ok st
    exact ⟨(st.kept ok kp).1, st.recorded ok kp rec⟩
  obtain le | ⟨t, want, grows, -⟩ := stood.2
  · exact le
  · rw [settled t] at grows
    cases grows

/-- Four workers, and the growth to a floor of two is recorded. -/
theorem peak_recorded_four : ∃ s : State Unit Unit, Runs (Step ⟨4, false⟩) (Unreset 1) { word := 0x0101#64 } s ∧
    2 ≤ max 1 s.g_awakeFloorPeak := by
  obtain ⟨s, rn, grown, pc⟩ := grown_four
  refine ⟨s, rn, ?_⟩
  have recorded := peak_recorded (by decide) (by decide) (by decide) (by decide) rn .refl fun t => by
    rw [show s.thread t = .resv 2 1 from pc]
    rfl
  rw [grown] at recorded
  exact recorded

end JLib.Floor
