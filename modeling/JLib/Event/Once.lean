import JLib.Event.Model

/-!
# Every registration is taken once

What becomes of a registration, told without the bitmap: it is in its slot, in the hand of the thread that
took it, or the fiber has been made ready for it; or its fiber took it back. `Book.Step` are the ways in
which it goes from one to the next, and every step of the event is one of them or changes none of it. So the
account of takers and wakes can be kept over the seven moves of the book, whatever the bits do.
-/

namespace JLib.Event
open LTS

variable {θ τ : Type}

/-- A fiber whose registration may be in its slot. -/
def Fiber.posted : Fiber → Bool
  | stored | added | cleared | parked => true
  | _ => false

/-- A fiber that somebody has to wake. -/
def Fiber.waits : Fiber → Bool
  | running | removed true => false
  | _ => true

/-- A fiber that may be in its slot has to be woken. -/
lemma Fiber.waits_of_posted {f : Fiber} (h : f.posted = true) : f.waits = true := by
  cases f <;> first | rfl | cases h

/-- The state without the bitmap, and of the threads only what they have taken. -/
structure Book (θ τ : Type) where
  fiber : Nat → Fiber
  slots : Nat → Option (Registration τ)
  resumed : Nat → Bool
  hand : θ → Option (Registration τ)
  serial : Nat → Nat
  takers : Nat × Nat → List (Party θ)
  wakes : Nat × Nat → Nat

def State.book (s : State θ τ) : Book θ τ where
  fiber := s.fiber
  slots := s.slots
  resumed := s.resumed
  hand t := (s.thread t).hand
  serial := s.serial
  takers := s.takers
  wakes := s.wakes

namespace Book

inductive Step [DecidableEq θ] : Book θ τ → Book θ τ → Prop where
  | same {b : Book θ τ} :
    Step b b
  | store {b : Book θ τ} {i x} :
    b.fiber i = .running →
    Step b
      { b with
        fiber := Function.update b.fiber i .stored
        slots := Function.update b.slots i (some ⟨i, b.serial i + 1, x⟩)
        serial := Function.update b.serial i (b.serial i + 1) }
  | move {b : Book θ τ} {i f} :
    (b.fiber i).posted = true ∨ b.fiber i = .removed false →
    f.posted = true →
    Step b { b with fiber := Function.update b.fiber i f }
  | take {b : Book θ τ} {t i r} :
    b.slots i = some r →
    b.hand t = none →
    Step b
      { b with
        slots := Function.update b.slots i none
        hand := Function.update b.hand t (some r)
        takers := Function.update b.takers r.key (.thread t :: b.takers r.key) }
  | selfMiss {b : Book θ τ} {i} :
    b.fiber i = .cleared →
    b.slots i = none →
    Step b { b with fiber := Function.update b.fiber i (.removed false) }
  | selfTake {b : Book θ τ} {i r} :
    b.fiber i = .cleared →
    b.slots i = some r →
    Step b
      { b with
        fiber := Function.update b.fiber i (.removed true)
        slots := Function.update b.slots i none
        takers := Function.update b.takers r.key (.self :: b.takers r.key) }
  | wake {b : Book θ τ} {t r} :
    b.hand t = some r →
    Step b
      { b with
        hand := Function.update b.hand t none
        resumed := Function.update b.resumed r.fiber true
        wakes := Function.update b.wakes r.key (b.wakes r.key + 1) }
  | leave {b : Book θ τ} {i} :
    b.fiber i = .removed true →
    Step b { b with fiber := Function.update b.fiber i .running }
  | unpark {b : Book θ τ} {i} :
    b.fiber i = .parked →
    b.resumed i = true →
    Step b
      { b with
        fiber := Function.update b.fiber i .running
        resumed := Function.update b.resumed i false }

/-- The registration is over: its fiber took it back, or one thread took it and woke the fiber once. -/
def Over (b : Book θ τ) (k : Nat × Nat) : Prop :=
  (b.takers k = [.self] ∧ b.wakes k = 0) ∨ ∃ t, b.takers k = [.thread t] ∧ b.wakes k = 1

/-- Where the last registration of a fiber is. -/
inductive At (b : Book θ τ) (i : Nat) : Prop where
  | none :
    b.fiber i = .running →
    b.slots i = .none →
    b.resumed i = false →
    b.serial i = 0 ∨ b.Over (i, b.serial i) →
    At b i
  | slot {x} :
    (b.fiber i).posted = true →
    0 < b.serial i →
    b.slots i = some ⟨i, b.serial i, x⟩ →
    b.resumed i = false →
    b.takers (i, b.serial i) = [] →
    b.wakes (i, b.serial i) = 0 →
    At b i
  | hand {t r} :
    (b.fiber i).waits = true →
    b.slots i = .none →
    b.resumed i = false →
    b.hand t = some r →
    r.key = (i, b.serial i) →
    b.takers (i, b.serial i) = [.thread t] →
    b.wakes (i, b.serial i) = 0 →
    At b i
  | ready {t} :
    (b.fiber i).waits = true →
    b.slots i = .none →
    b.resumed i = true →
    b.takers (i, b.serial i) = [.thread t] →
    b.wakes (i, b.serial i) = 1 →
    At b i
  | back :
    b.fiber i = .removed true →
    b.slots i = .none →
    b.resumed i = false →
    b.takers (i, b.serial i) = [.self] →
    b.wakes (i, b.serial i) = 0 →
    At b i

/-- Every registration is at one place, and those before the last are over. -/
structure Once (b : Book θ τ) : Prop where
  place : ∀ i, b.At i
  past : ∀ {i k}, 0 < k → k < b.serial i → b.Over (i, k)
  held : ∀ {t r}, b.hand t = some r →
    r.serial = b.serial r.fiber ∧ b.takers r.key = [.thread t] ∧ b.wakes r.key = 0
  fresh : ∀ {i k}, k = 0 ∨ b.serial i < k → b.takers (i, k) = [] ∧ b.wakes (i, k) = 0

variable {b b' : Book θ τ} {i : Nat}

/-- A registration stays over while nobody takes or wakes it. -/
lemma Over.congr {k : Nat × Nat} (h : b.Over k) (ht : b'.takers k = b.takers k)
    (hw : b'.wakes k = b.wakes k) : b'.Over k := by
  unfold Over
  rw [ht, hw]
  exact h

/-- The books agree on one fiber. -/
structure Same (b b' : Book θ τ) (i : Nat) : Prop where
  fiber : b'.fiber i = b.fiber i
  slots : b'.slots i = b.slots i
  resumed : b'.resumed i = b.resumed i
  serial : b'.serial i = b.serial i
  takers : ∀ k, b'.takers (i, k) = b.takers (i, k)
  wakes : ∀ k, b'.wakes (i, k) = b.wakes (i, k)
  hand : ∀ {t r}, b.hand t = some r → r.fiber = i → b'.hand t = some r

/-- A fiber stays at its place while the books agree on it. -/
lemma Same.place (same : Same b b' i) (h : b.At i) : b'.At i := by
  obtain ⟨hf, hs, hr, hn, ht, hw, hh⟩ := same
  have ended : b.Over (i, b.serial i) → b'.Over (i, b'.serial i) := by
    intro h
    rw [hn]
    exact h.congr (ht _) (hw _)
  cases h with
  | none h1 h2 h3 h4 => exact .none (hf ▸ h1) (hs ▸ h2) (hr ▸ h3) (h4.imp (hn ▸ ·) ended)
  | @slot x h1 h0 h2 h3 h4 h5 =>
    refine .slot (x := x) (hf ▸ h1) (hn ▸ h0) ?_ (hr ▸ h3) ?_ ?_
    · rw [hs, hn, h2]
    · rw [hn, ht, h4]
    · rw [hn, hw, h5]
  | hand h1 h2 h3 h4 h5 h6 h7 =>
    refine .hand (hf ▸ h1) (hs ▸ h2) (hr ▸ h3) (hh h4 (congrArg Prod.fst h5)) (hn ▸ h5) ?_ ?_
    · rw [hn, ht, h6]
    · rw [hn, hw, h7]
  | @ready t h1 h2 h3 h4 h5 =>
    refine .ready (t := t) (hf ▸ h1) (hs ▸ h2) (hr ▸ h3) ?_ ?_
    · rw [hn, ht, h4]
    · rw [hn, hw, h5]
  | back h1 h2 h3 h4 h5 =>
    refine .back (hf ▸ h1) (hs ▸ h2) (hr ▸ h3) ?_ ?_
    · rw [hn, ht, h4]
    · rw [hn, hw, h5]

/-- The last registration of a fiber that does not wait is over, or there was none. -/
lemma Once.over_of_running (once : b.Once) (h : b.fiber i = .running) :
    b.slots i = none ∧ b.resumed i = false ∧ (b.serial i = 0 ∨ b.Over (i, b.serial i)) := by
  cases once.place i with
  | none _ h2 h3 h4 => exact ⟨h2, h3, h4⟩
  | slot h1 => simp [h, Fiber.posted] at h1
  | hand h1 => simp [h, Fiber.waits] at h1
  | ready h1 => simp [h, Fiber.waits] at h1
  | back h1 => simp [h] at h1

/-- A slot holds the last registration of its fiber, and nobody has taken it. -/
lemma Once.of_slot (once : b.Once) {r : Registration τ} (h : b.slots i = some r) :
    r.key = (i, b.serial i) ∧ 0 < b.serial i ∧ (b.fiber i).posted = true ∧ b.resumed i = false ∧
      b.takers (i, b.serial i) = [] ∧ b.wakes (i, b.serial i) = 0 := by
  cases once.place i with
  | slot h1 h0 h2 h3 h4 h5 =>
    rw [h2] at h
    cases h
    exact ⟨rfl, h0, h1, h3, h4, h5⟩
  | none _ h2 => simp [h] at h2
  | hand _ h2 => simp [h] at h2
  | ready _ h2 => simp [h] at h2
  | back _ h2 => simp [h] at h2

/-- A fiber whose registration is in a hand waits, and its slot is empty. -/
lemma Once.of_hand (once : b.Once) {t : θ} {r : Registration τ} (h : b.hand t = some r) :
    (b.fiber r.fiber).waits = true ∧ b.slots r.fiber = none ∧ b.resumed r.fiber = false := by
  obtain ⟨hn, ht, hw⟩ := once.held h
  rw [Registration.key, hn] at ht hw
  cases once.place r.fiber with
  | hand h1 h2 h3 => exact ⟨h1, h2, h3⟩
  | none _ _ _ h4 =>
    rcases h4 with h4 | ⟨h4, -⟩ | ⟨_, -, h5⟩
    · rw [(once.fresh (.inl h4)).1] at ht
      cases ht
    · simp [h4] at ht
    · omega
  | slot _ _ _ _ h4 => simp [h4] at ht
  | ready _ _ _ _ h5 => omega
  | back _ _ _ h4 => simp [h4] at ht

/-- A fiber registers: what it registered before is over, so nothing is overwritten. -/
lemma Once.store {x : τ} (once : b.Once) (h : b.fiber i = .running) :
    Once
      { b with
        fiber := Function.update b.fiber i .stored
        slots := Function.update b.slots i (some ⟨i, b.serial i + 1, x⟩)
        serial := Function.update b.serial i (b.serial i + 1) } := by
  obtain ⟨-, hr, ended⟩ := once.over_of_running h
  obtain ⟨ht, hw⟩ := once.fresh (i := i) (k := b.serial i + 1) (.inr (Nat.lt_succ_self _))
  have other : ∀ {t r}, b.hand t = some r → r.fiber ≠ i := by
    rintro t r hh rfl
    have := (once.of_hand hh).1
    rw [h] at this
    cases this
  refine ⟨fun j => ?_, fun {j k} pos lt => ?_, fun {t r} hh => ?_, fun {j k} out => ?_⟩
  · by_cases e : j = i
    · subst e
      apply At.slot (x := x)
      all_goals simp [Fiber.posted, hr, ht, hw]
    · apply Same.place _ (once.place j)
      constructor <;> simp +contextual [e]
  · dsimp only at lt
    by_cases e : j = i
    · subst e
      rw [Function.update_self] at lt
      rcases Nat.lt_succ_iff_lt_or_eq.1 lt with lt | rfl
      · exact once.past pos lt
      · exact ended.resolve_left (by omega)
    · rw [Function.update_of_ne e] at lt
      exact once.past pos lt
  · dsimp only
    rw [Function.update_of_ne (other hh)]
    exact once.held hh
  · dsimp only at out
    apply once.fresh
    by_cases e : j = i
    · subst e
      rw [Function.update_self] at out
      exact out.imp_right (by omega)
    · rwa [Function.update_of_ne e] at out

/-- A fiber goes on to another place of `WaitOnEvent`. -/
lemma Once.move {f : Fiber} (once : b.Once) (h : (b.fiber i).posted = true ∨ b.fiber i = .removed false)
    (hf : f.posted = true) : Once { b with fiber := Function.update b.fiber i f } := by
  refine ⟨fun j => ?_, once.past, once.held, once.fresh⟩
  by_cases e : j = i
  · subst e
    have self : (Function.update b.fiber j f j).posted = true := by rwa [Function.update_self]
    cases once.place j with
    | slot _ h0 h2 h3 h4 h5 => exact .slot self h0 h2 h3 h4 h5
    | hand _ h2 h3 h4 h5 h6 h7 => exact .hand (Fiber.waits_of_posted self) h2 h3 h4 h5 h6 h7
    | ready _ h2 h3 h4 h5 => exact .ready (Fiber.waits_of_posted self) h2 h3 h4 h5
    | none h1 => simp [h1, Fiber.posted] at h
    | back h1 => simp [h1, Fiber.posted] at h
  · apply Same.place _ (once.place j)
    constructor <;> simp +contextual [e]

/-- A thread takes what is in a slot. -/
lemma Once.take [DecidableEq θ] {t : θ} {r : Registration τ} (once : b.Once) (h : b.slots i = some r)
    (empty : b.hand t = none) :
    Once
      { b with
        slots := Function.update b.slots i none
        hand := Function.update b.hand t (some r)
        takers := Function.update b.takers r.key (.thread t :: b.takers r.key) } := by
  obtain ⟨key, pos, hf, hr, ht, hw⟩ := once.of_slot h
  have key' : r.fiber = i ∧ r.serial = b.serial i := Prod.mk.inj key
  refine ⟨fun j => ?_, fun {j k} pos lt => ?_, fun {t' r'} hh => ?_, fun {j k} out => ?_⟩
  · by_cases e : j = i
    · subst e
      apply At.hand (t := t) (r := r)
      all_goals simp [Fiber.waits_of_posted hf, hr, key, ht, hw]
    · apply Same.place _ (once.place j)
      constructor <;> try simp [e, key]
      intro t' r' hh _
      rwa [Function.update_of_ne]
      rintro rfl
      rw [empty] at hh
      cases hh
  · dsimp only at lt
    have ne : (j, k) ≠ r.key := by
      rw [key]
      rintro ⟨⟩
      omega
    exact (once.past pos lt).congr (Function.update_of_ne ne ..) rfl
  · dsimp only at hh ⊢
    by_cases e : t' = t
    · subst e
      rw [Function.update_self] at hh
      cases hh
      rw [Function.update_self, key, ht]
      exact ⟨key'.1 ▸ key'.2, rfl, hw⟩
    · rw [Function.update_of_ne e] at hh
      obtain ⟨h1, h2, h3⟩ := once.held hh
      rw [Function.update_of_ne]
      · exact ⟨h1, h2, h3⟩
      · intro e'
        rw [e', key, ht] at h2
        cases h2
  · dsimp only at out ⊢
    have ne : (j, k) ≠ r.key := by
      rw [key]
      rintro ⟨⟩
      omega
    rw [Function.update_of_ne ne]
    exact once.fresh out

/-- A fiber finds its slot empty: a thread has its registration or has woken it. -/
lemma Once.selfMiss (once : b.Once) (h : b.fiber i = .cleared) (empty : b.slots i = none) :
    Once { b with fiber := Function.update b.fiber i (.removed false) } := by
  refine ⟨fun j => ?_, once.past, once.held, once.fresh⟩
  by_cases e : j = i
  · subst e
    have self : (Function.update b.fiber j (.removed false) j).waits = true := by
      rw [Function.update_self]
      rfl
    cases once.place j with
    | hand _ h2 h3 h4 h5 h6 h7 => exact .hand self h2 h3 h4 h5 h6 h7
    | ready _ h2 h3 h4 h5 => exact .ready self h2 h3 h4 h5
    | slot _ _ h2 => simp [empty] at h2
    | none h1 => simp [h] at h1
    | back h1 => simp [h] at h1
  · apply Same.place _ (once.place j)
    constructor <;> simp +contextual [e]

/-- A fiber takes its own registration back. -/
lemma Once.selfTake {r : Registration τ} (once : b.Once) (h : b.slots i = some r) :
    Once
      { b with
        fiber := Function.update b.fiber i (.removed true)
        slots := Function.update b.slots i none
        takers := Function.update b.takers r.key (.self :: b.takers r.key) } := by
  obtain ⟨key, pos, hf, hr, ht, hw⟩ := once.of_slot h
  have later : ∀ {j k}, (j, k) = r.key → j = i ∧ k = b.serial i := by
    intro j k e
    rw [key] at e
    exact Prod.mk.inj e
  refine ⟨fun j => ?_, fun {j k} p lt => ?_, fun {t r'} hh => ?_, fun {j k} out => ?_⟩
  · by_cases e : j = i
    · subst e
      apply At.back
      all_goals simp [hr, key, ht, hw]
    · apply Same.place _ (once.place j)
      constructor <;> simp +contextual [e, key]
  · dsimp only at lt
    refine (once.past p lt).congr (Function.update_of_ne (fun e => ?_) ..) rfl
    obtain ⟨rfl, rfl⟩ := later e
    omega
  · obtain ⟨h1, h2, h3⟩ := once.held hh
    dsimp only
    rw [Function.update_of_ne]
    · exact ⟨h1, h2, h3⟩
    · intro e
      rw [e, key, ht] at h2
      cases h2
  · dsimp only at out ⊢
    rw [Function.update_of_ne]
    · exact once.fresh out
    · intro e
      obtain ⟨rfl, rfl⟩ := later e
      omega

/-- A thread wakes the fiber of the registration it has taken. -/
lemma Once.wake [DecidableEq θ] {t : θ} {r : Registration τ} (once : b.Once) (h : b.hand t = some r) :
    Once
      { b with
        hand := Function.update b.hand t none
        resumed := Function.update b.resumed r.fiber true
        wakes := Function.update b.wakes r.key (b.wakes r.key + 1) } := by
  obtain ⟨hn, ht, hw⟩ := once.held h
  obtain ⟨hf, hs, -⟩ := once.of_hand h
  have key : r.key = (r.fiber, b.serial r.fiber) := by rw [Registration.key, hn]
  have pos : b.serial r.fiber ≠ 0 := by
    intro e
    rw [key, (once.fresh (.inl e)).1] at ht
    cases ht
  have other : ∀ {t' r'}, Function.update b.hand t none t' = some r' → t' ≠ t ∧ b.hand t' = some r' := by
    intro t' r' hh
    by_cases e : t' = t
    · rw [e, Function.update_self] at hh
      cases hh
    · rw [Function.update_of_ne e] at hh
      exact ⟨e, hh⟩
  refine ⟨fun j => ?_, fun {j k} p lt => ?_, fun {t' r'} hh => ?_, fun {j k} out => ?_⟩
  · by_cases e : j = r.fiber
    · subst e
      apply At.ready (t := t)
      all_goals simp [hf, hs, ← key, ht, hw]
    · apply Same.place _ (once.place j)
      constructor <;> try simp [e, key]
      rintro t' r' hh rfl
      rwa [Function.update_of_ne]
      rintro rfl
      rw [h] at hh
      cases hh
      exact e rfl
  · dsimp only at lt
    refine (once.past p lt).congr rfl (Function.update_of_ne (fun e => ?_) ..)
    rw [key] at e
    cases e
    omega
  · obtain ⟨ne, hh⟩ := other hh
    obtain ⟨h1, h2, h3⟩ := once.held hh
    refine ⟨h1, h2, ?_⟩
    dsimp only
    rw [Function.update_of_ne]
    · exact h3
    · intro e
      rw [e, ht] at h2
      cases h2
      exact ne rfl
  · dsimp only at out ⊢
    rw [Function.update_of_ne]
    · exact once.fresh out
    · rw [key]
      rintro ⟨⟩
      omega

/-- A fiber that took its registration back goes on. -/
lemma Once.leave (once : b.Once) (h : b.fiber i = .removed true) :
    Once { b with fiber := Function.update b.fiber i .running } := by
  refine ⟨fun j => ?_, once.past, once.held, once.fresh⟩
  by_cases e : j = i
  · subst e
    cases once.place j with
    | back _ h2 h3 h4 h5 => exact .none (Function.update_self ..) h2 h3 (.inr (.inl ⟨h4, h5⟩))
    | none h1 => simp [h] at h1
    | slot h1 => simp [h, Fiber.posted] at h1
    | hand h1 => simp [h, Fiber.waits] at h1
    | ready h1 => simp [h, Fiber.waits] at h1
  · apply Same.place _ (once.place j)
    constructor <;> simp +contextual [e]

/-- A fiber that was woken goes on. -/
lemma Once.unpark (once : b.Once) (h : b.fiber i = .parked) (hr : b.resumed i = true) :
    Once
      { b with
        fiber := Function.update b.fiber i .running
        resumed := Function.update b.resumed i false } := by
  refine ⟨fun j => ?_, once.past, once.held, once.fresh⟩
  by_cases e : j = i
  · subst e
    cases once.place j with
    | ready _ h2 _ h4 h5 =>
      exact .none (Function.update_self ..) h2 (Function.update_self ..) (.inr (.inr ⟨_, h4, h5⟩))
    | none h1 => simp [h] at h1
    | slot _ _ _ h3 => simp [hr] at h3
    | hand _ _ h3 => simp [hr] at h3
    | back h1 => simp [h] at h1
  · apply Same.place _ (once.place j)
    constructor <;> simp +contextual [e]

variable [DecidableEq θ]

/-- A step of the book keeps every registration at one place. -/
lemma Once.step (once : b.Once) (st : Step b b') : b'.Once := by
  cases st with
  | same => exact once
  | store h => exact once.store h
  | move h hf => exact once.move h hf
  | take h empty => exact once.take h empty
  | selfMiss h empty => exact once.selfMiss h empty
  | selfTake _ h => exact once.selfTake h
  | wake h => exact once.wake h
  | leave h => exact once.leave h
  | unpark h hr => exact once.unpark h hr

/-- A slot is filled by `AddWaiter` only. -/
lemma Step.slots {r : Registration τ} (st : Step b b') (h : b'.slots i = some r) :
    b.slots i = some r ∨ b'.fiber i = .stored := by
  have off : ∀ {j}, Function.update b.slots j none i = some r → b.slots i = some r := by
    intro j h
    by_cases e : i = j
    · rw [e, Function.update_self] at h
      cases h
    · rwa [Function.update_of_ne e] at h
  cases st with
  | @store j x =>
    by_cases e : i = j
    · exact .inr (e ▸ Function.update_self ..)
    · exact .inl ((Function.update_of_ne e ..).symm.trans h)
  | take => exact .inl (off h)
  | selfTake => exact .inl (off h)
  | _ => exact .inl h

/-- What is in a slot stays there until somebody takes it. -/
lemma Step.kept {r : Registration τ} (st : Step b b') (once : b.Once) (h : b.slots i = some r) :
    b'.slots i = some r ∨ b'.takers r.key ≠ [] := by
  have off : ∀ {j r' p}, b.slots j = some r' → Function.update b.slots j none i = some r ∨
      Function.update b.takers r'.key (p :: b.takers r'.key) r.key ≠ [] := by
    intro j r' p h'
    by_cases e : i = j
    · subst e
      rw [h] at h'
      cases h'
      refine .inr ?_
      rw [Function.update_self]
      exact List.cons_ne_nil _ _
    · refine .inl ?_
      rw [Function.update_of_ne e, h]
  cases st with
  | @store j x hj =>
    have ne : i ≠ j := by
      rintro rfl
      rw [(once.over_of_running hj).1] at h
      cases h
    exact .inl ((Function.update_of_ne ne ..).trans h)
  | take h' => exact off h'
  | selfTake _ h' => exact off h'
  | _ => exact .inl h

/-- Who took a registration has taken it for good. -/
lemma Step.takers {k : Nat × Nat} (st : Step b b') (h : b.takers k ≠ []) : b'.takers k ≠ [] := by
  have more : ∀ {j p}, Function.update b.takers j (p :: b.takers j) k ≠ [] := by
    intro j p
    by_cases e : k = j
    · rw [e, Function.update_self]
      exact List.cons_ne_nil _ _
    · rwa [Function.update_of_ne e]
  cases st with
  | take => exact more
  | selfTake => exact more
  | _ => exact h

end Book

/-! ## The steps of the event, in the book -/

section
variable [DecidableEq θ]

variable {s s' : State θ τ} {t : θ} {c c' : Pc τ}

/-- What the threads have taken after a step of one of them. -/
lemma State.hand_setThread (s : State θ τ) (t : θ) (c : Pc τ) :
    (s.setThread t c).book.hand = Function.update s.book.hand t c.hand := by
  funext t'
  change (Function.update s.thread t c t').hand = _
  by_cases e : t' = t
  · rw [e, Function.update_self, Function.update_self]
  · rw [Function.update_of_ne e, Function.update_of_ne e]
    rfl

/-- A thread that moves on changes what it has in hand, and no more of the book. -/
lemma State.book_setThread (s : State θ τ) (t : θ) (c : Pc τ) :
    (s.setThread t c).book = { s.book with hand := Function.update s.book.hand t c.hand } := by
  rw [← hand_setThread]
  rfl

/-- A step of a thread with nothing in its hand before or after is not in the book. -/
lemma Book.Step.idle (hs : s'.book = s.book) (h : s.thread t = c) (hc : c.hand = none)
    (hc' : c'.hand = none) : Book.Step s.book (s'.setThread t c').book := by
  have self : Function.update s.book.hand t none = s.book.hand := by
    apply Function.update_eq_self_iff.2
    change none = (s.thread t).hand
    rw [h, hc]
  rw [State.book_setThread, hs, hc', self]
  exact .same

/-- A thread exchanges a slot that is not empty. -/
lemma Book.Step.taken {i : Nat} {r : Registration τ} (h : s.thread t = c) (hc : c.hand = none)
    (hs : s.slots i = some r) (hb : s'.book = (s.takeSlot (.thread t) i).book) (hc' : c'.hand = some r) :
    Book.Step s.book (s'.setThread t c').book := by
  have empty : s.book.hand t = none := by
    change (s.thread t).hand = none
    rw [h, hc]
  rw [State.book_setThread, hb, hc', State.takeSlot, hs]
  exact .take hs empty

/-- A thread wakes what it has taken. -/
lemma Book.Step.woken {r : Registration τ} (h : s.thread t = c) (hc : c.hand = some r)
    (hc' : c'.hand = none) : Book.Step s.book ((s.resume r).setThread t c').book := by
  have full : s.book.hand t = some r := by
    change (s.thread t).hand = some r
    rw [h, hc]
  rw [State.book_setThread, hc']
  exact .wake full

/-- A fiber exchanges its own slot. -/
lemma Book.Step.selfTaken {i : Nat} (h : s.fiber i = .cleared) :
    Book.Step s.book ((s.takeSlot .self i).setFiber i (.removed (s.slots i).isSome)).book := by
  cases hs : s.slots i with
  | none =>
    rw [State.takeSlot, hs]
    exact .selfMiss h hs
  | some r =>
    rw [State.takeSlot, hs]
    exact .selfTake h hs

/-- A fiber goes on in `WaitOnEvent`. -/
lemma Book.Step.moved {i : Nat} {f : Fiber} (hs : s'.book = s.book)
    (h : (s.fiber i).posted = true ∨ s.fiber i = .removed false) (hf : f.posted = true) :
    Book.Step s.book (s'.setFiber i f).book := by
  have e : (s'.setFiber i f).book = { s'.book with fiber := Function.update s'.book.fiber i f } := rfl
  rw [e, hs]
  exact .move h hf

end

/-- A cancelled token is not in the book. -/
lemma State.book_markCancelled [DecidableEq τ] (s : State θ τ) (one : Bool) (x : τ) :
    (s.markCancelled one x).book = s.book := by
  cases one <;> rfl

/-- Every step of the event is in the book or changes nothing in it. -/
lemma Step.book [DecidableEq θ] [DecidableEq τ] {n : Nat} {s s' : State θ τ} {l : Label θ} (st : Step n s l s') :
    Book.Step s.book s'.book := by
  cases st with
  | reserve => exact .same
  | store h => exact .store h
  | publish h => exact .moved rfl (.inl (by rw [h]; rfl)) rfl
  | withdraw h => exact .moved rfl (.inl (by rw [h]; rfl)) rfl
  | selfTake h => exact .selfTaken h
  | leave h => exact .leave h
  | park h => exact .moved rfl (h.imp_left fun h => by rw [h]; rfl) rfl
  | unpark h hr => exact .unpark h hr
  | beginEmpty => exact .same
  | drainTake h _ hs => exact .taken h rfl hs rfl rfl
  | take h hs => exact .taken h rfl hs (State.book_markCancelled ..) rfl
  | drainWake h => exact .woken h rfl rfl
  | wakeCancelled h => exact .woken h rfl rfl
  | wakeOne h => exact .woken h rfl rfl
  | beginAll h => exact .idle rfl h rfl rfl
  | loadEmpty h => exact .idle rfl h rfl rfl
  | load h => exact .idle rfl h rfl rfl
  | swap h => exact .idle rfl h rfl rfl
  | drainMiss h => exact .idle rfl h rfl rfl
  | drainEnd h => exact .idle rfl h rfl rfl
  | endAll h => exact .idle rfl h rfl rfl
  | beginCancel h => exact .idle rfl h rfl rfl
  | beginOne h => exact .idle rfl h rfl rfl
  | scan h => exact .idle rfl h rfl rfl
  | pickLost h => exact .idle rfl h rfl rfl
  | pick h => exact .idle rfl h rfl rfl
  | takeMiss h => exact .idle rfl h rfl rfl
  | pickEnd h => exact .idle rfl h rfl rfl
  | endCancel h => exact .idle rfl h rfl rfl
  | endOne h => exact .idle rfl h rfl rfl

/-- Nobody has registered. -/
lemma Book.Once.init : (({} : State θ τ).book).Once := by
  refine ⟨fun i => .none rfl rfl rfl (.inl rfl), fun pos lt => ?_, fun h => ?_, fun _ => ⟨rfl, rfl⟩⟩
  · cases lt
  · cases h

/-- In every state the event can reach each registration is at one place. -/
lemma once_of_runs [DecidableEq θ] [DecidableEq τ] {n : Nat} {s : State θ τ} (rn : Reaches (Step n) {} s) :
    s.book.Once :=
  rn.invariant (I := fun s => s.book.Once) .init fun once _ st => once.step st.book

end JLib.Event
