import JLib.Bands.Writers

/-!
# The bands fit in the pool

The reserved band and the floor leave one worker of the pool, `K` stays below `Kmax`, and `F` is not below its
base where there is room for it. The writers that clamp keep that; the others keep it if they are called with a
value that does. `BandsCasF` is one of them: a base for which there is no room comes into the word through it.
-/

namespace JLib.Bands
open LTS

variable {θ : Type} [DecidableEq θ] {n : Nat} {w w' : BitVec 64} {op : Op} {s s' : State θ} {l : Label θ}

def Room (n : Nat) (w : BitVec 64) : Prop := BandField w kBandK + BandField w kBandF ≤ n - 1

def Capped (w : BitVec 64) : Prop := BandField w kBandKmax ≠ 0 → BandField w kBandK ≤ BandField w kBandKmax

def Based (n : Nat) (w : BitVec 64) : Prop :=
  BandField w kBandFbase ≤ n - BandField w kBandK - 1 → BandField w kBandFbase ≤ BandField w kBandF

instance : Decidable (Room n w) := inferInstanceAs (Decidable (_ ≤ _))

instance : Decidable (Capped w) := inferInstanceAs (Decidable (_ → _))

instance : Decidable (Based n w) := inferInstanceAs (Decidable (_ → _))

/-- The call keeps the bands in order. -/
def Op.Fits (n : Nat) (w : BitVec 64) : Op → Prop
  | setF f => n ≤ kMaxHintQueues ∨ f < 256
  -- a floor that was cut short for `K` stays so
  | setK k =>
    (n ≤ kMaxHintQueues ∨ k < 256) ∧
      (BandField w kBandF < BandField w kBandFbase →
        n ≤ k + BandField w kBandFbase ∧
          (BandField w kBandKmax = 0 ∨ n ≤ BandField w kBandKmax + BandField w kBandFbase))
  | casF _ desired =>
    desired < 256 ∧ BandField w kBandK + desired ≤ n - 1 ∧
      (BandField w kBandFbase ≤ desired ∨ n ≤ BandField w kBandK + BandField w kBandFbase)
  | setFb fb => fb < 256 ∧ (fb ≤ BandField w kBandF ∨ n ≤ BandField w kBandK + fb)
  | setKmax km => km < 256 ∧ (km = 0 ∨ BandField w kBandK ≤ km)
  | setKmin km => km < 256

/-- What is written fits in its field. -/
lemma Op.Fits.lt (two : 2 ≤ n) (fits : op.Fits n w) : op.value n w < 256 := by
  have fb := BandField_lt w kBandFbase
  have km := BandField_lt w kBandKmax
  cases op with
  | setF f =>
    change n ≤ 256 ∨ f < 256 at fits
    change min (max f (BandField w kBandFbase)) (n - BandField w kBandK - 1) < 256
    omega
  | setK k =>
    obtain ⟨small, -⟩ := fits
    change n ≤ 256 ∨ k < 256 at small
    change min (if BandField w kBandKmax = 0 then k else min k (BandField w kBandKmax)) (n - BandField w kBandF - 1)
      < 256
    split <;> omega
  | casF expected desired => exact fits.1
  | setFb fb => exact fits.1
  | setKmax km => exact fits.1
  | setKmin km => exact fits

/-- A field lies inside the word. -/
lemma Op.field_le (op : Op) : op.field + 8 ≤ 64 := by
  cases op <;> exact Nat.le_of_ble_eq_true rfl

/-- The field of a call that fits is what it means to write. -/
lemma Op.Fits.written (two : 2 ≤ n) (fits : op.Fits n w) :
    BandField (BandPut w op.field (op.value n w)) op.field = op.value n w := by
  rw [BandField_put _ _ op.field_le]
  exact Nat.mod_eq_of_lt (fits.lt two)

/-- A call that fits keeps the bands in order. -/
lemma Op.Fits.keeps (two : 2 ≤ n) (fits : op.Fits n w) (h : op.next n w = some w') (room : Room n w) :
    Room n w' ∧ (Capped w → Capped w') ∧ (Based n w → Based n w') := by
  have new := fits.written two
  rw [← next_eq two h] at new
  have same : ∀ sh, sh + 8 ≤ op.field ∨ op.field + 8 ≤ sh → BandField w' sh = BandField w sh := by
    intro sh far
    rw [next_eq two h]
    exact BandField_put_of_ne _ _ far
  unfold Room at room
  cases op with
  | setF f =>
    have eK := same kBandK (.inr (Nat.le_of_ble_eq_true rfl))
    have eFb := same kBandFbase (.inr (Nat.le_of_ble_eq_true rfl))
    have eKm := same kBandKmax (.inr (Nat.le_of_ble_eq_true rfl))
    change BandField w' kBandF = min (max f (BandField w kBandFbase)) (n - BandField w kBandK - 1) at new
    unfold Room Capped Based
    rw [new, eK, eFb, eKm]
    omega
  | setK k =>
    have eF := same kBandF (.inl (Nat.le_of_ble_eq_true rfl))
    have eFb := same kBandFbase (.inl (Nat.le_of_ble_eq_true rfl))
    have eKm := same kBandKmax (.inr (Nat.le_of_ble_eq_true rfl))
    obtain ⟨-, cut⟩ := fits
    change BandField w' kBandK = min (if BandField w kBandKmax = 0 then k else min k (BandField w kBandKmax))
      (n - BandField w kBandF - 1) at new
    unfold Room Capped Based
    rw [new, eF, eFb, eKm]
    split <;> omega
  | casF expected desired =>
    have eK := same kBandK (.inr (Nat.le_of_ble_eq_true rfl))
    have eFb := same kBandFbase (.inr (Nat.le_of_ble_eq_true rfl))
    have eKm := same kBandKmax (.inr (Nat.le_of_ble_eq_true rfl))
    obtain ⟨-, le, base⟩ := fits
    change BandField w' kBandF = desired at new
    unfold Room Capped Based
    rw [new, eK, eFb, eKm]
    omega
  | setFb fb =>
    have eK := same kBandK (.inr (Nat.le_of_ble_eq_true rfl))
    have eF := same kBandF (.inl (Nat.le_of_ble_eq_true rfl))
    have eKm := same kBandKmax (.inr (Nat.le_of_ble_eq_true rfl))
    obtain ⟨-, base⟩ := fits
    change BandField w' kBandFbase = fb at new
    unfold Room Capped Based
    rw [new, eK, eF, eKm]
    omega
  | setKmax km =>
    have eK := same kBandK (.inl (Nat.le_of_ble_eq_true rfl))
    have eF := same kBandF (.inl (Nat.le_of_ble_eq_true rfl))
    have eFb := same kBandFbase (.inl (Nat.le_of_ble_eq_true rfl))
    obtain ⟨-, cap⟩ := fits
    change BandField w' kBandKmax = km at new
    unfold Room Capped Based
    rw [new, eK, eF, eFb]
    omega
  | setKmin km =>
    have eK := same kBandK (.inl (Nat.le_of_ble_eq_true rfl))
    have eF := same kBandF (.inl (Nat.le_of_ble_eq_true rfl))
    have eFb := same kBandFbase (.inl (Nat.le_of_ble_eq_true rfl))
    have eKm := same kBandKmax (.inl (Nat.le_of_ble_eq_true rfl))
    unfold Room Capped Based
    rw [eK, eF, eFb, eKm]
    exact ⟨room, id, id⟩

/-- The word a step leaves is the word, or what a call that met the word wrote. -/
lemma Step.word (st : Step n s l s') :
    s'.word = s.word ∨ ∃ t op, l = .exchange t ∧ s.thread t = .loop op s.word ∧ op.next n s.word = some s'.word := by
  cases st with
  | call => exact .inl rfl
  | retry => exact .inl rfl
  | refuse => exact .inl rfl
  | exchange loop next same =>
    subst same
    exact .inr ⟨_, _, rfl, loop, next⟩

/-- Every exchange that succeeds is of a call that fits the word. -/
def Clamped (n : Nat) (s : State θ) : Label θ → Prop
  | .exchange t => ∀ op cur, s.thread t = .loop op cur → op.Fits n s.word
  | _ => True

/-- The bands are in order, as far as they were in the word at the start. -/
structure Ordered (n : Nat) (w₀ w : BitVec 64) : Prop where
  room : Room n w
  capped : Capped w₀ → Capped w
  based : Based n w₀ → Based n w

/-- A clamped exchange keeps the bands in order. -/
lemma Step.ordered {w₀ : BitVec 64} (two : 2 ≤ n) (st : Step n s l s') (ok : Clamped n s l)
    (ord : Ordered n w₀ s.word) : Ordered n w₀ s'.word := by
  rcases st.word with e | ⟨t, op, rfl, loop, next⟩
  · rw [e]
    exact ord
  · obtain ⟨room, capped, based⟩ := (ok op _ loop).keeps two next ord.room
    exact ⟨room, fun c => capped (ord.capped c), fun b => based (ord.based b)⟩

/-- The bands are in order in every state of a run. -/
lemma Ordered.of_runs {w : BitVec 64} (two : 2 ≤ n) (room : Room n w)
    (rn : Runs (Step n) (Clamped n) { word := w } s) : Ordered n w s.word := by
  refine rn.invariant (I := fun s => Ordered n w s.word) ?_ fun ord ok st => st.ordered two ok ord
  exact ⟨room, fun c => c, fun b => b⟩

/-- Whatever the writers do, the bands fit the pool; an exchange changes its own field, to the value it is about,
and no other. -/
theorem bands_fit {w : BitVec 64} (two : 2 ≤ n) (room : Room n w) (rn : Runs (Step n) (Clamped n) { word := w } s) :
    (Room n s.word ∧ (Capped w → Capped s.word) ∧ (Based n w → Based n s.word)) ∧
      ∀ t op cur s', s.thread t = .loop op cur → Step n s (.exchange t) s' →
        (∀ i, i < op.field ∨ op.field + 8 ≤ i → s'.word.getLsbD i = s.word.getLsbD i) ∧
          (op.Fits n s.word → BandField s'.word op.field = op.value n s.word) := by
  constructor
  · have ord := Ordered.of_runs two room rn
    exact ⟨ord.room, ord.capped, ord.based⟩
  · intro t op cur s' loop st
    cases st with
    | exchange loop' next same =>
      rw [loop] at loop'
      cases loop'
      cases same
      refine ⟨fun i far => ?_, fun fits => ?_⟩
      · rw [Op.next_eq two next]
        exact BandPut_bit s.word _ far
      · rw [Op.next_eq two next]
        exact fits.written two

/-- The word of the static initialisation, and a `K` of one in a pool of four. -/
theorem bands_fit_four : ∃ s : State Unit, Runs (Step 4) (Clamped 4) { word := 0x0202#64 } s ∧
    BandField s.word kBandK = 1 ∧ Room 4 s.word ∧ Capped s.word ∧ Based 4 s.word := by
  have r : Runs (Step 4) (Clamped 4) ({ word := 0x0202#64 } : State Unit) { word := 0x0202#64 } := .refl
  have r := r.next (.call () (.setK 1)) trivial (.call rfl)
  have r := r.next (.exchange ()) (fun op cur e => by cases e; exact ⟨.inl (by decide), by decide⟩)
    (.exchange rfl rfl rfl)
  obtain ⟨room, capped, based⟩ := (bands_fit (by decide) (by decide : Room 4 0x0202#64) r).1
  exact ⟨_, r, by decide, room, capped (by decide), based (by decide)⟩

/-- A pool of four with a base of six: the floor is cut to three, and `BandsCasF(F, Fbase)` makes it six. -/
theorem base_over_pool : ∃ s : State Unit, Reaches (Step 4) { word := 0x0202#64 } s ∧ Room 4 0x0202#64 ∧
    BandField s.word kBandF = 6 ∧ ¬Room 4 s.word := by
  have r : Reaches (Step 4) ({ word := 0x0202#64 } : State Unit) { word := 0x0202#64 } := .refl
  have r := r.next (.call () (.setFb 6)) trivial (.call rfl)
  have r := r.next (.exchange ()) trivial (.exchange rfl rfl rfl)
  have r := r.next (.call () (.setF 6)) trivial (.call rfl)
  have r := r.next (.exchange ()) trivial (.exchange rfl rfl rfl)
  have r := r.next (.call () (.casF 3 6)) trivial (.call rfl)
  have r := r.next (.exchange ()) trivial (.exchange rfl (Op.next_casF (by decide)) rfl)
  exact ⟨_, r, by decide, by decide, by decide⟩

end JLib.Bands
