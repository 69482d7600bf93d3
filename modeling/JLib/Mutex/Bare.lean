import JLib.Mutex.Custody
import Mathlib.Data.Finset.Card

/-!
# Mutex: bare threads asleep in `bareCv`

A bare thread that finds the lock taken registers in `bareWaiters` and sleeps in `bareCv`; an `Unlock`
that really frees the lock looks at the counter and, if it is not zero, passes through `bareMtx` and
notifies one sleeper. Two facts carry the argument that no sleeper is forgotten. A thread whose
predicate failed still holds `bareMtx`, so an `Unlock` that freed the lock since then has not got past
`bareMtx`. And a registered thread is counted, so that `Unlock` does not skip the notify.
-/

namespace JLib.Mutex
open LTS

variable {T : Type}

/-- The stages of the bare path, in `Lock` and in `Unlock`. -/
inductive Stage where
  | out
  | acquire
  | pred
  | failed
  | asleep
  | notified
  | won
  | leaving
  | load
  | lock
  | unlock
  | notify
  deriving DecidableEq

/-- The stage a party is at. -/
def Pc.stage : Pc T → Stage
  | .bareAcquire => .acquire
  | .barePred => .pred
  | .bareFailed => .failed
  | .asleep => .asleep
  | .notified => .notified
  | .bareRecord | .bareRelease => .won
  | .bareDeregister => .leaving
  | .unlLoad => .load
  | .unlBareLock => .lock
  | .unlBareUnlock => .unlock
  | .unlNotify => .notify
  | _ => .out

/-- The stage `asleep` is one place. -/
lemma Pc.eq_asleep {p : Pc T} (h : p.stage = .asleep) : p = .asleep := by
  cases p <;> first | rfl | cases h

/-- Counted in `bareWaiters`. -/
def Stage.registered : Stage → Bool
  | .acquire | .pred | .failed | .asleep | .notified | .won | .leaving => true
  | _ => false

/-- Holding `bareMtx`. -/
def Stage.inBareMtx : Stage → Bool
  | .pred | .failed | .won | .unlock => true
  | _ => false

/-- Before `bareMtx` in an `Unlock` that freed the lock. -/
def Stage.early : Stage → Bool
  | .load | .lock => true
  | _ => false

/-- On the way to a notify, or to a look at the lock. -/
def Stage.wakes : Stage → Bool
  | .load | .lock | .unlock | .notify | .acquire | .pred | .notified => true
  | _ => false

/-- The counter, the holder of `bareMtx`, and that nobody is forgotten at a free lock. -/
structure Bare (m : Mtx T) (th : T → Thread T) : Prop where
  count : ∃ F : Finset T, (∀ t, t ∈ F ↔ (th t).pc.stage.registered) ∧ m.bareWaiters = F.card
  mtx : ∀ t, (th t).pc.stage.inBareMtx ↔ m.bareMtx = some t
  failed : m.locked = false → ∀ t, (th t).pc.stage = .failed → ∃ u, (th u).pc.stage.early
  asleep : m.locked = false → ∀ t, (th t).pc.stage = .asleep → ∃ u, (th u).pc.stage.wakes

variable [DecidableEq T]

namespace Bare
variable {m m' : Mtx T} {th th' : T → Thread T} {t : T} {h : Thread T}

/-- The stage of the party that steps. -/
lemma stage_self : ((Function.update th t h) t).pc.stage = h.pc.stage := by
  rw [Function.update_self]

/-- A stage other parties have is not changed. -/
lemma stage_other {i : T} (hi : i ≠ t) : ((Function.update th t h) i).pc.stage = (th i).pc.stage := by
  rw [Function.update_of_ne hi]

omit [DecidableEq T] in
/-- Nobody's stage changes and the lock is not freed. -/
lemma congr (b : Bare m th) (hs : ∀ i, (th' i).pc.stage = (th i).pc.stage)
    (hw : m'.bareWaiters = m.bareWaiters) (hm : m'.bareMtx = m.bareMtx)
    (hl : m'.locked = false → m.locked = false) : Bare m' th' := by
  constructor
  · obtain ⟨F, hF, e⟩ := b.count
    refine ⟨F, fun i => ?_, hw.trans e⟩
    rw [hs i]
    exact hF i
  · intro i
    rw [hs i, hm]
    exact b.mtx i
  · intro h0 i hi
    rw [hs i] at hi
    obtain ⟨u, hu⟩ := b.failed (hl h0) i hi
    exact ⟨u, by rwa [hs u]⟩
  · intro h0 i hi
    rw [hs i] at hi
    obtain ⟨u, hu⟩ := b.asleep (hl h0) i hi
    exact ⟨u, by rwa [hs u]⟩

/-- A party moves on within its stage. -/
lemma same (b : Bare m th) (hs : h.pc.stage = (th t).pc.stage)
    (hw : m'.bareWaiters = m.bareWaiters) (hm : m'.bareMtx = m.bareMtx)
    (hl : m'.locked = false → m.locked = false) : Bare m' (Function.update th t h) := by
  refine b.congr (fun i => ?_) hw hm hl
  by_cases e : i = t
  · subst e
    rw [stage_self, hs]
  · rw [stage_other e]

section Parts
variable (b : Bare m th)
include b

/-- The counter is left, and so is who is counted. -/
lemma count_same (hr : h.pc.stage.registered = (th t).pc.stage.registered)
    (hw : m'.bareWaiters = m.bareWaiters) :
    ∃ F : Finset T, (∀ i, i ∈ F ↔ (Function.update th t h i).pc.stage.registered) ∧
      m'.bareWaiters = F.card := by
  obtain ⟨F, hF, e⟩ := b.count
  refine ⟨F, fun i => ?_, hw.trans e⟩
  by_cases ei : i = t
  · subst ei
    rw [stage_self, hr]
    exact hF i
  · rw [stage_other ei]
    exact hF i

/-- A party is counted in. -/
lemma count_enter (h0 : (th t).pc.stage.registered = false) (h1 : h.pc.stage.registered = true)
    (hw : m'.bareWaiters = m.bareWaiters + 1) :
    ∃ F : Finset T, (∀ i, i ∈ F ↔ (Function.update th t h i).pc.stage.registered) ∧
      m'.bareWaiters = F.card := by
  obtain ⟨F, hF, e⟩ := b.count
  have nt : t ∉ F := fun hm => by
    rw [(hF t).1 hm] at h0
    cases h0
  refine ⟨insert t F, fun i => ?_, ?_⟩
  · by_cases ei : i = t
    · subst ei
      rw [stage_self, h1]
      simp
    · rw [stage_other ei, Finset.mem_insert, ← hF i]
      simp [ei]
  · rw [hw, e, Finset.card_insert_of_notMem nt]
    push_cast
    rfl

/-- A party is counted out. -/
lemma count_leave (h0 : (th t).pc.stage.registered = true) (h1 : h.pc.stage.registered = false)
    (hw : m'.bareWaiters = m.bareWaiters - 1) :
    ∃ F : Finset T, (∀ i, i ∈ F ↔ (Function.update th t h i).pc.stage.registered) ∧
      m'.bareWaiters = F.card := by
  obtain ⟨F, hF, e⟩ := b.count
  have mt : t ∈ F := (hF t).2 h0
  refine ⟨F.erase t, fun i => ?_, ?_⟩
  · by_cases ei : i = t
    · subst ei
      rw [stage_self, h1]
      simp
    · rw [stage_other ei, Finset.mem_erase, hF i]
      simp [ei]
  · have pos : 0 < F.card := Finset.card_pos.2 ⟨t, mt⟩
    rw [hw, e, Finset.card_erase_of_mem mt]
    omega

/-- Nobody takes `bareMtx` or lets go of it. -/
lemma mtx_same (hr : h.pc.stage.inBareMtx = (th t).pc.stage.inBareMtx)
    (hm : m'.bareMtx = m.bareMtx) (i : T) :
    (Function.update th t h i).pc.stage.inBareMtx ↔ m'.bareMtx = some i := by
  rw [hm, ← b.mtx i]
  by_cases ei : i = t
  · subst ei
    rw [stage_self, hr]
  · rw [stage_other ei]

/-- A party takes `bareMtx`. -/
lemma mtx_lock (h0 : m.bareMtx = none) (h1 : h.pc.stage.inBareMtx = true)
    (hm : m'.bareMtx = some t) (i : T) :
    (Function.update th t h i).pc.stage.inBareMtx ↔ m'.bareMtx = some i := by
  rw [hm]
  by_cases ei : i = t
  · subst ei
    rw [stage_self, h1]
    simp
  · rw [stage_other ei, b.mtx i, h0]
    simp [Ne.symm ei]

/-- A party lets go of `bareMtx`. -/
lemma mtx_unlock (h0 : (th t).pc.stage.inBareMtx = true) (h1 : h.pc.stage.inBareMtx = false)
    (hm : m'.bareMtx = none) (i : T) :
    (Function.update th t h i).pc.stage.inBareMtx ↔ m'.bareMtx = some i := by
  rw [hm]
  by_cases ei : i = t
  · subst ei
    rw [stage_self, h1]
    simp
  · rw [stage_other ei, b.mtx i, (b.mtx t).1 h0]
    simp [Ne.symm ei]

/-- A failed thread keeps its reason, unless the reason was the moving party. -/
lemma failed_same (hl : m'.locked = false → m.locked = false) (h1 : h.pc.stage ≠ .failed)
    (he : (th t).pc.stage.early → h.pc.stage.early) :
    m'.locked = false → ∀ i, (Function.update th t h i).pc.stage = .failed →
      ∃ u, (Function.update th t h u).pc.stage.early := by
  intro h0 i hi
  have ei : i ≠ t := by
    rintro rfl
    rw [stage_self] at hi
    exact h1 hi
  rw [stage_other ei] at hi
  obtain ⟨u, hu⟩ := b.failed (hl h0) i hi
  by_cases eu : u = t
  · subst eu
    exact ⟨u, by rw [stage_self]; exact he hu⟩
  · exact ⟨u, by rwa [stage_other eu]⟩

/-- A sleeper keeps its reason, unless the reason was the moving party. -/
lemma asleep_same (hl : m'.locked = false → m.locked = false) (h1 : h.pc.stage ≠ .asleep)
    (he : (th t).pc.stage.wakes → h.pc.stage.wakes) :
    m'.locked = false → ∀ i, (Function.update th t h i).pc.stage = .asleep →
      ∃ u, (Function.update th t h u).pc.stage.wakes := by
  intro h0 i hi
  have ei : i ≠ t := by
    rintro rfl
    rw [stage_self] at hi
    exact h1 hi
  rw [stage_other ei] at hi
  obtain ⟨u, hu⟩ := b.asleep (hl h0) i hi
  by_cases eu : u = t
  · subst eu
    exact ⟨u, by rw [stage_self]; exact he hu⟩
  · exact ⟨u, by rwa [stage_other eu]⟩

/-- While `bareMtx` is free or with a party that did not fail, nobody is at a failed predicate. -/
lemma failed_none
    (hm : m.bareMtx = none ∨ ((th t).pc.stage.inBareMtx ∧ (th t).pc.stage ≠ .failed))
    (h1 : h.pc.stage ≠ .failed) :
    m'.locked = false → ∀ i, (Function.update th t h i).pc.stage = .failed →
      ∃ u, (Function.update th t h u).pc.stage.early := by
  intro _ i hi
  have ei : i ≠ t := by
    rintro rfl
    rw [stage_self] at hi
    exact h1 hi
  rw [stage_other ei] at hi
  have e : m.bareMtx = some i := (b.mtx i).1 (by rw [hi]; rfl)
  rcases hm with hm | ⟨hm, ne⟩
  · rw [hm] at e
    cases e
  · rw [(b.mtx t).1 hm] at e
    cases e
    exact absurd hi ne

omit [DecidableEq T] in
/-- With a party counted the counter is not zero. -/
lemma registered_pos (hr : (th t).pc.stage.registered) : m.bareWaiters ≠ 0 := by
  obtain ⟨F, hF, e⟩ := b.count
  have pos : 0 < F.card := Finset.card_pos.2 ⟨t, (hF t).2 hr⟩
  omega

/-- A sleeper is woken for no reason. -/
lemma wake (h0 : (th t).pc.stage = .asleep) (h1 : h.pc.stage = .notified) :
    Bare m (Function.update th t h) :=
  ⟨b.count_same (by rw [h0, h1]; rfl) rfl, b.mtx_same (by rw [h0, h1]; rfl) rfl,
    b.failed_same id (by simp [h1]) (by simp [h0, Stage.early]),
    b.asleep_same id (by simp [h1]) (by simp [h1, Stage.wakes])⟩

end Parts

omit [DecidableEq T] in
/-- Nobody is on the bare path. -/
lemma init : Bare (Mutex.init T).mx (Mutex.init T).th := by
  refine ⟨⟨∅, fun t => ?_, rfl⟩, fun t => ?_, fun _ t ht => ?_, fun _ t ht => ?_⟩
  · simp [Mutex.init, Pc.stage, Stage.registered]
  · simp [Mutex.init, Pc.stage, Stage.inBareMtx]
  · cases ht
  · cases ht

variable {s s' : St T} {c : World T}

omit [DecidableEq T] in
/-- A `CancelWaiters` is not on the bare path. -/
lemma stage_canNext (tok : CancelToken) (f : Bool) (ws : List (Waiter T)) :
    (Pc.canNext tok f ws).stage = .out := by
  cases ws with
  | nil => cases f <;> rfl
  | cons w ws => rfl

/-- The steps of `Local`. -/
lemma here (b : Bare s.mx s.th) (lo : Local c t s.mx (s.th t) m h) :
    Bare m (Function.update s.th t h) := by
  cases lo with
  | bareRegister e =>
    have h0 : (s.th t).pc.stage = .out := by rw [e]; rfl
    exact ⟨b.count_enter (by rw [h0]; rfl) rfl rfl, b.mtx_same (by rw [h0]; rfl) rfl,
      b.failed_same id (by simp [Pc.stage]) (by simp [h0, Stage.early]),
      b.asleep_same id (by simp [Pc.stage]) (by simp [h0, Stage.wakes])⟩
  | bareAcquire e hm =>
    have h0 : (s.th t).pc.stage = .acquire ∨ (s.th t).pc.stage = .notified := by
      rcases e with e | e
      · exact .inl (by rw [e]; rfl)
      · exact .inr (by rw [e]; rfl)
    refine ⟨b.count_same ?_ rfl, b.mtx_lock hm rfl rfl, b.failed_same id (by simp [Pc.stage]) ?_,
      b.asleep_same id (by simp [Pc.stage]) fun _ => rfl⟩
    · rcases h0 with h0 | h0 <;> rw [h0] <;> rfl
    · rcases h0 with h0 | h0 <;> simp [h0, Stage.early]
  | barePredTake e _ =>
    have h0 : (s.th t).pc.stage = .pred := by rw [e]; rfl
    exact ⟨b.count_same (by rw [h0]; rfl) rfl, b.mtx_same (by rw [h0]; rfl) rfl,
      (fun hl => by cases hl), (fun hl => by cases hl)⟩
  | barePredFail e hl =>
    have h0 : (s.th t).pc.stage = .pred := by rw [e]; rfl
    exact ⟨b.count_same (by rw [h0]; rfl) rfl, b.mtx_same (by rw [h0]; rfl) rfl,
      fun hf => absurd (hl.symm.trans hf) (by simp), fun hf => absurd (hl.symm.trans hf) (by simp)⟩
  | bareSleep e =>
    have h0 : (s.th t).pc.stage = .failed := by rw [e]; rfl
    refine ⟨b.count_same (by rw [h0]; rfl) rfl, b.mtx_unlock (by rw [h0]; rfl) rfl rfl,
      b.failed_same id (by simp [Pc.stage]) (by simp [h0, Stage.early]), fun hl i hi => ?_⟩
    -- the thread that goes to sleep has the same reason as before, now as a sleeper
    have reason : ∃ u, u ≠ t ∧ (s.th u).pc.stage.wakes := by
      by_cases ei : i = t
      · obtain ⟨u, hu⟩ := b.failed hl t h0
        refine ⟨u, ?_, ?_⟩
        · rintro rfl
          rw [h0] at hu
          cases hu
        · revert hu
          cases (s.th u).pc.stage <;> simp [Stage.early, Stage.wakes]
      · rw [stage_other ei] at hi
        obtain ⟨u, hu⟩ := b.asleep hl i hi
        refine ⟨u, ?_, hu⟩
        rintro rfl
        rw [h0] at hu
        cases hu
    obtain ⟨u, ne, hu⟩ := reason
    exact ⟨u, by rwa [stage_other ne]⟩
  | spuriousWake e => exact b.wake (by rw [e]; rfl) rfl
  | bareRelease e =>
    have h0 : (s.th t).pc.stage = .won := by rw [e]; rfl
    exact ⟨b.count_same (by rw [h0]; rfl) rfl, b.mtx_unlock (by rw [h0]; rfl) rfl rfl,
      b.failed_same id (by simp [Pc.stage]) (by simp [h0, Stage.early]),
      b.asleep_same id (by simp [Pc.stage]) (by simp [h0, Stage.wakes])⟩
  | bareDeregister e =>
    have h0 : (s.th t).pc.stage = .leaving := by rw [e]; rfl
    exact ⟨b.count_leave (by rw [h0]; rfl) rfl rfl, b.mtx_same (by rw [h0]; rfl) rfl,
      b.failed_same id (by simp [Pc.stage]) (by simp [h0, Stage.early]),
      b.asleep_same id (by simp [Pc.stage]) (by simp [h0, Stage.wakes])⟩
  | unlFree e _ =>
    have h0 : (s.th t).pc.stage = .out := by rw [e]; rfl
    exact ⟨b.count_same (by rw [h0]; rfl) rfl, b.mtx_same (by rw [h0]; rfl) rfl,
      fun _ _ _ => ⟨t, by rw [stage_self]; rfl⟩, fun _ _ _ => ⟨t, by rw [stage_self]; rfl⟩⟩
  | unlLoadZero e hz =>
    have h0 : (s.th t).pc.stage = .load := by rw [e]; rfl
    -- the counter is zero, so nobody is registered
    have none : ∀ i, (s.th i).pc.stage.registered = false := by
      intro i
      cases hr : (s.th i).pc.stage.registered with
      | false => rfl
      | true => exact absurd hz (b.registered_pos hr)
    have none' : ∀ i p, Stage.registered p = true →
        (Function.update s.th t { s.th t with pc := .ret .unlocked } i).pc.stage ≠ p := by
      rintro i p hp rfl
      by_cases ei : i = t
      · subst ei
        rw [stage_self] at hp
        cases hp
      · rw [stage_other ei, none i] at hp
        cases hp
    exact ⟨b.count_same (by rw [h0]; rfl) rfl, b.mtx_same (by rw [h0]; rfl) rfl,
      fun _ i hi => absurd hi (none' i _ rfl), fun _ i hi => absurd hi (none' i _ rfl)⟩
  | unlLoadSome e _ =>
    have h0 : (s.th t).pc.stage = .load := by rw [e]; rfl
    exact ⟨b.count_same (by rw [h0]; rfl) rfl, b.mtx_same (by rw [h0]; rfl) rfl,
      b.failed_same id (by simp [Pc.stage]) fun _ => rfl,
      b.asleep_same id (by simp [Pc.stage]) fun _ => rfl⟩
  | unlBareLock e hm =>
    have h0 : (s.th t).pc.stage = .lock := by rw [e]; rfl
    exact ⟨b.count_same (by rw [h0]; rfl) rfl, b.mtx_lock hm rfl rfl,
      b.failed_none (t := t) (.inl hm) (by simp [Pc.stage]),
      b.asleep_same id (by simp [Pc.stage]) fun _ => rfl⟩
  | unlBareUnlock e =>
    have h0 : (s.th t).pc.stage = .unlock := by rw [e]; rfl
    exact ⟨b.count_same (by rw [h0]; rfl) rfl, b.mtx_unlock (by rw [h0]; rfl) rfl rfl,
      b.failed_none (.inr ⟨by rw [h0]; rfl, by simp [h0]⟩) (by simp [Pc.stage]),
      b.asleep_same id (by simp [Pc.stage]) fun _ => rfl⟩
  | call op e =>
    refine b.same ?_ rfl rfl id
    cases op <;> simp [Op.entry, Pc.stage, e]
  | @checkPass p e _ => cases p <;> exact b.same (by simp [Pc.stage, e]) rfl rfl id
  | @awakeOk k sl e _ => cases k <;> exact b.same (by simp [Pc.stage, e]) rfl rfl id
  | canPass e => exact b.same (by rw [stage_canNext, e]; rfl) rfl rfl id
  | enterTake e _ | tryTake e _ | cancelTake e _ | asyncTake e _ | lockTake e _ =>
    exact b.same (by simp [Pc.stage, e]) rfl rfl fun hl => by cases hl
  | callUnlock e _ | done e | checkCancelled e _ | enterPush e _ | awakeCancelled e _ | record e
  | tryFail e _ | cancelFail e _ | cancelCancelled e _ | cancelAgain e _ | asyncPush e _
  | asyncRecord e | asyncWrite e | lockViolation e _ | lockFail e _ | bareRecord e | unlHolder e
  | unlPop e _ | unlTestSkip e _ | unlTestChoose e _ | unlRecord e =>
    exact b.same (by simp [Pc.stage, e]) rfl rfl id

/-- Two parties move on within their stages. -/
lemma both (b : Bare s.mx s.th) {u : T} {h' : Thread T} (hm : s'.mx = s.mx)
    (hth : s'.th = Function.update (Function.update s.th u h') t h) (ne : u ≠ t)
    (hu : h'.pc.stage = (s.th u).pc.stage) (ht : h.pc.stage = (s.th t).pc.stage) :
    Bare s'.mx s'.th := by
  rw [hm, hth]
  refine (b.same hu rfl rfl id).same ?_ rfl rfl id
  rw [stage_other ne.symm, ht]

/-- Every step keeps the sleepers in view. -/
lemma step (b : Bare s.mx s.th) (inv : Inv s) (st : Step c s t s') : Bare s'.mx s'.th := by
  cases st with
  | here lo => exact b.here lo
  | @unlSkip w e =>
    have hw : w ∈ Pc.hand (.unlSkip w) := List.mem_singleton_self w
    exact b.both rfl (inv.writeSlot_goto e hw _ _) (inv.ne_of_hand e hw) rfl (by rw [e]; rfl)
  | @unlSkipResume w e =>
    have hw : w ∈ Pc.hand (.unlSkipResume w) := List.mem_singleton_self w
    obtain ⟨⟨pk, -, -⟩, -⟩ := inv.knows e hw
    exact b.both rfl (inv.resume_goto e hw _ _) (inv.ne_of_hand e hw) (by rw [pk]; rfl)
      (by rw [e]; rfl)
  | @unlWrite w e =>
    have hw : w ∈ Pc.hand (.unlWrite w) := List.mem_singleton_self w
    refine b.both rfl (inv.writeSlot_goto e hw _ _) (inv.ne_of_hand e hw) rfl ?_
    rw [e]
    split <;> rfl
  | @unlResume w e =>
    have hw : w ∈ Pc.hand (.unlResume w) := List.mem_singleton_self w
    obtain ⟨pk, -, -⟩ := inv.knows e hw
    exact b.both rfl (inv.resume_goto e hw _ _) (inv.ne_of_hand e hw) (by rw [pk]; rfl)
      (by rw [e]; rfl)
  | @notifyOne u e hu =>
    have ne : u ≠ t := ne_of_pc hu e (by simp)
    have b' : Bare s.mx (Function.update s.th u { s.th u with pc := .notified }) :=
      b.wake (by rw [hu]; rfl) rfl
    have h0 : (Function.update s.th u { s.th u with pc := .notified } t).pc.stage = .notify := by
      rw [stage_other ne.symm, e]
      rfl
    rw [St.goto_goto ne]
    refine ⟨b'.count_same (by rw [h0]; rfl) rfl, b'.mtx_same (by rw [h0]; rfl) rfl,
      b'.failed_same id (by simp [Pc.stage]) (by simp [h0, Stage.early]), fun _ _ _ => ⟨u, ?_⟩⟩
    rw [stage_other ne, stage_self]
    rfl
  | notifyNone e hn =>
    have h0 : (s.th t).pc.stage = .notify := by rw [e]; rfl
    refine ⟨b.count_same (by rw [h0]; rfl) rfl, b.mtx_same (by rw [h0]; rfl) rfl,
      b.failed_same id (by simp [Pc.stage]) (by simp [h0, Stage.early]), fun _ i hi => ?_⟩
    have ei : i ≠ t := by
      rintro rfl
      rw [St.goto, St.set, stage_self] at hi
      cases hi
    rw [St.goto, St.set, stage_other ei] at hi
    exact absurd (Pc.eq_asleep hi) (hn i)
  | @canWrite tok w ws f e =>
    have hw : w ∈ Pc.hand (.canWrite tok w ws f) := List.mem_cons_self
    exact b.both rfl (inv.writeSlot_goto e hw _ _) (inv.ne_of_hand e hw) rfl (by rw [e]; rfl)
  | @canResume tok w ws f e =>
    have hw : w ∈ Pc.hand (.canResume tok w ws f) := List.mem_cons_self
    obtain ⟨⟨pk, -, -⟩, -⟩ := inv.knows e hw
    exact b.both rfl (inv.resume_goto e hw _ _) (inv.ne_of_hand e hw) (by rw [pk]; rfl)
      (by rw [stage_canNext, e]; rfl)

end Bare
end JLib.Mutex
