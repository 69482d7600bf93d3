import JLib.WaitGroup.Zero
import JLib.WaitGroup.Settle

/-!
# WaitGroup: wakes are exact

Publication, the bit and the count are three atomic objects, and two drains take the stack. What ties
them together is who still has to do something: with tasks counted, a fiber on the stack that has armed
has the bit set, so the last completion will see it; at zero, a stack with fibers on it has a drain on its
way, and a set bit has a drain on its way that will clear it.

The last part does not hold of every run. A fiber whose entry was taken between its push and its
`fetch_or` sets the bit after the drain has cleared it, finds the stack empty in `WakeAllDirect` and
leaves without clearing it. When no other party is going to clear the bit, it stays.
-/

namespace JLib.WaitGroup
open LTS

variable {T : Type} [DecidableEq T]

namespace Pc

/-- Going to take the whole stack when the count is zero. -/
def collects : Pc T → Bool
  | arm | direct | wakeLock | wakeExchange => true
  | _ => false

/-- Going to clear the bit when the count is zero, or to find an empty stack. -/
def clears : Pc T → Bool
  | store | push | arm | direct | directAnd _ => true
  | p => p.sweeps

/-- Holds `mtx`. -/
def locks : Pc T → Bool
  | wakeExchange | wakeAnd _ | wakeUnlock _ => true
  | _ => false

end Pc

namespace St

/-- `WakeAllDirect` finds the stack empty, the bit is set and nobody else is going to clear it. -/
def LeavesBit (s : St T) (t : T) : Prop :=
  (s.th t).pc = .direct ∧ s.directWaiters = [] ∧ s.bit = true ∧
    ∀ u, u ≠ t → (s.th u).pc.clears = false

/-- Every wake of the run so far was exact, and no wake is missing. -/
structure Exact (s : St T) : Prop where
  placed : ∀ i, s.Placed i → (s.th i).pc.waits ∧ (s.th i).resumed = 0
  once : ∀ i, (s.th i).pc = .awake → (s.th i).resumed = 1
  atMost : ∀ i, (s.th i).pc.waits → (s.th i).resumed ≤ 1
  finished : ∀ i, (s.th i).pc.waits → (s.th i).resumed = 1 → s.count = 0
  progress : s.count = 0 → ∀ i, (s.th i).pc.waits → ∃ t s', Works s t s'
  settles : Acc (fun b a => ∃ t, Works a t b) s
  clean : s.count = 0 → (∀ i, (s.th i).pc.waits = false ∧ (s.th i).pc.wakes = false) →
    s.word = 0 ∧ s.directWaiters = [] ∧
      ∀ t, (s.th t).pc = .poll → ∃ s', Step s t s' ∧ (s'.th t).pc = .idle

end St

/-- What the steps of a run have to meet: the group is not reused under a `WakeAll` that has not swept
it yet, and no late waiter leaves the bit behind. -/
def Tidy (s : St T) : Act T → Prop
  | .add _ _ => s.Fresh
  | .move t => ¬s.LeavesBit t

/-- Who still has to do something. -/
structure Owed (s : St T) : Prop where
  armed : 0 < s.count → ∀ i ∈ s.directWaiters, (s.th i).pc ≠ .arm → s.bit = true
  served : s.count = 0 → s.directWaiters ≠ [] → ∃ j, (s.th j).pc.collects = true
  cleared : s.count = 0 → s.bit = true → ∃ j, (s.th j).pc.clears = true
  locked : ∀ i, s.mtx = some i ↔ (s.th i).pc.locks = true

namespace Owed
variable {s s' : St T} {t i : T} {a : Act T}

omit [DecidableEq T] in
/-- Nobody owes anything. -/
lemma init (c : Nat) : Owed (WaitGroup.init T c) where
  armed := nofun
  served _ h := absurd rfl h
  cleared _ := nofun
  locked _ := ⟨nofun, nofun⟩

/-- Somebody who has something to do is still there after the step of another party. -/
lemma stays (inv : Inv s) (st : Step s t s') {p : Pc T → Bool} (hp : p .awake = p .parked)
    (ht : p (s.th t).pc = true → p (s'.th t).pc = true) :
    (∃ j, p (s.th j).pc = true) → ∃ j, p (s'.th j).pc = true := by
  rintro ⟨j, hj⟩
  by_cases e : j = t
  · subst e
    exact ⟨j, ht hj⟩
  · exact ⟨j, by rw [inv.of_other p hp st e]; exact hj⟩

/-- With tasks counted and somebody waiting past the arming, the bit is set. -/
lemma armed_step (ow : Owed s) (z : s.Zero) (st : Step s t s') (hc' : 0 < s'.count) :
    ∀ i ∈ s'.directWaiters, (s'.th i).pc ≠ .arm → s'.bit = true := by
  have hc : 0 < s.count := by
    cases st with
    | complete _ h => exact h
    | _ => exact hc'
  have nl := (z hc t).1
  have arm := ow.armed hc
  -- a party that is not at `arm` has the bit set already
  have rest : (s.th t).pc ≠ .arm → (∀ i, i ≠ t → s'.th i = s.th i) →
      ∀ i ∈ s.directWaiters, (s'.th i).pc ≠ .arm → s.bit = true := by
    intro ht frame i hi hp
    by_cases ei : i = t
    · subst ei
      exact arm i hi ht
    · rw [frame i ei] at hp
      exact arm i hi hp
  cases st with
  | arm e => exact fun _ _ _ => rfl
  | push e =>
    intro i hi hp
    rcases List.mem_cons.1 hi with rfl | hi
    · simp at hp
    · exact rest (by rw [e]; nofun) (fun _ h => Function.update_of_ne h ..) i hi hp
  | call e | store e | switch e _ | signaled e _ | returns e | callPoll e | polled e _
  | complete e _ | wakeUnlock e | wakeDone e =>
    exact rest (by rw [e]; nofun) fun _ h => Function.update_of_ne h ..
  | direct e | directAnd e | directResume e | directDone e | wakeLock e _ | wakeExchange e
  | wakeAnd e | wakeResume e =>
    rw [e] at nl
    cases nl

/-- With none counted and somebody waiting, somebody is going to take the stack. -/
lemma served_step (ow : Owed s) (inv : Inv s) (st : Step s t s') (hc' : s'.count = 0)
    (hq : s'.directWaiters ≠ []) : ∃ j, (s'.th j).pc.collects = true := by
  have keep := stays inv st (p := Pc.collects) rfl
  cases st with
  | push e => exact ⟨t, by simp [Pc.collects]⟩
  | arm e =>
    have hc : s.count = 0 := hc'
    exact ⟨t, by simp [hc, Pc.collects]⟩
  | direct e | wakeExchange e => exact absurd rfl hq
  | wakeLock e _ => exact ⟨t, by simp [Pc.collects]⟩
  | complete e h =>
    have h1 : s.count = 1 := by
      have : s.count - 1 = 0 := hc'
      omega
    obtain ⟨i, hi⟩ := List.exists_mem_of_ne_nil _ hq
    by_cases ha : (s.th i).pc = .arm
    · have ne : i ≠ t := by
        rintro rfl
        rw [e] at ha
        cases ha
      exact ⟨i, by simp [St.goto, St.set, ne, ha, Pc.collects]⟩
    · have hb : s.bit = true := ow.armed h i hi ha
      exact ⟨t, by simp [h1, hb, Pc.collects]⟩
  | call e | store e | switch e _ | signaled e _ | returns e | callPoll e | polled e _
  | directAnd e | directResume e | directDone e | wakeAnd e | wakeUnlock e | wakeResume e
  | wakeDone e =>
    refine keep (fun h => ?_) (ow.served hc' hq)
    rw [e] at h
    cases h

/-- With none counted and the bit set, a tidy step leaves somebody to clear it. -/
lemma cleared_step (ow : Owed s) (inv : Inv s) (st : Step s t s') (tidy : ¬s.LeavesBit t)
    (hc' : s'.count = 0) (hb : s'.bit = true) : ∃ j, (s'.th j).pc.clears = true := by
  have keep := stays inv st (p := Pc.clears) rfl
  cases st with
  | call e | store e | push e => exact ⟨t, by simp [St.set, Pc.clears]⟩
  | arm e =>
    have hc : s.count = 0 := hc'
    exact ⟨t, by simp [hc, Pc.clears]⟩
  | direct e =>
    by_cases hq : s.directWaiters = []
    · -- the bit stays behind unless another party clears it
      by_contra none
      apply tidy
      refine ⟨e, hq, hb, fun u hu => ?_⟩
      by_contra hcl
      apply none
      refine ⟨u, ?_⟩
      simpa [St.goto, St.set, hu] using hcl
    · exact ⟨t, by simp [hq, Pc.clears]⟩
  | wakeLock e _ | wakeExchange e => exact ⟨t, by simp [Pc.clears, Pc.sweeps]⟩
  | directAnd e | wakeAnd e => cases hb
  | complete e h =>
    have h1 : s.count = 1 := by
      have : s.count - 1 = 0 := hc'
      omega
    have hb : s.bit = true := hb
    exact ⟨t, by simp [h1, hb, Pc.clears, Pc.sweeps]⟩
  | switch e _ | signaled e _ | returns e | callPoll e | polled e _ | directResume e
  | directDone e | wakeUnlock e | wakeResume e | wakeDone e =>
    refine keep (fun h => ?_) (ow.cleared hc' hb)
    rw [e] at h
    cases h

/-- The mutex is with whoever is inside it. -/
lemma locked_step (ow : Owed s) (inv : Inv s) (st : Step s t s') (i : T) :
    s'.mtx = some i ↔ (s'.th i).pc.locks = true := by
  have other : i ≠ t → (s'.th i).pc.locks = (s.th i).pc.locks := inv.of_other Pc.locks rfl st
  have own := ow.locked t
  -- the holder is the party that moves, or it is somebody else and nothing changed
  have keep : s'.mtx = s.mtx → (s'.th t).pc.locks = (s.th t).pc.locks →
      (s'.mtx = some i ↔ (s'.th i).pc.locks = true) := by
    intro hm ht
    rw [hm, ow.locked i]
    by_cases ei : i = t
    · rw [ei, ht]
    · rw [other ei]
  cases st with
  | wakeLock e hm =>
    by_cases ei : i = t
    · subst ei
      simp [St.goto, St.set, Pc.locks]
    · rw [other ei, ← ow.locked i, hm]
      simp [St.goto, St.set, Ne.symm ei]
  | wakeUnlock e =>
    have hm : s.mtx = some t := own.2 (by rw [e]; rfl)
    by_cases ei : i = t
    · subst ei
      simp [St.goto, St.set, Pc.locks]
    · rw [other ei, ← ow.locked i, hm]
      simp [St.goto, St.set, Ne.symm ei]
  | arm e | direct e | complete e _ =>
    refine keep rfl ?_
    rw [e, St.goto_pc]
    split <;> rfl
  | call e | store e | push e | switch e _ | signaled e _ | returns e | callPoll e | polled e _
  | directAnd e | directResume e | directDone e | wakeExchange e | wakeAnd e | wakeResume e
  | wakeDone e =>
    refine keep rfl ?_
    rw [e]
    simp [St.goto, St.set, Pc.locks]

/-- A tidy step keeps what is owed. -/
lemma next (ow : Owed s) (inv : Inv s) (z : s.Zero) (tidy : Tidy s a) (nx : Next s a s') :
    Owed s' := by
  cases nx with
  | move st =>
    exact ⟨ow.armed_step z st, ow.served_step inv st, ow.cleared_step inv st tidy,
      ow.locked_step inv st⟩
  | add k e hk h =>
    have pos : s.count + k ≠ 0 := by omega
    refine ⟨fun _ i hi hp => ?_, fun h0 => absurd h0 pos, fun h0 => absurd h0 pos, ow.locked⟩
    rcases h with h | all
    · exact ow.armed h i hi hp
    · have none := inv.stack_nil fun j => (all j).1
      simp only [none] at hi
      cases hi

end Owed

/-- The invariant of the runs whose steps are all tidy. -/
structure Good (s : St T) : Prop where
  inv : Inv s
  zero : s.Zero
  owed : Owed s
  within : ∃ F, s.Within F

namespace Good
variable {s s' : St T} {t i : T} {a : Act T}

omit [DecidableEq T] in
/-- Nothing has happened yet. -/
lemma init (c : Nat) : Good (WaitGroup.init T c) :=
  ⟨Inv.init c, St.Zero.init c, Owed.init c, ∅, fun _ h => absurd rfl h⟩

/-- A tidy step keeps the invariant. -/
lemma next (g : Good s) (tidy : Tidy s a) (nx : Next s a s') : Good s' := by
  refine ⟨g.inv.next nx, g.zero.next g.inv ?_ nx, g.owed.next g.inv g.zero tidy nx,
    g.inv.within_next g.within nx⟩
  rintro t k rfl
  exact tidy

omit [DecidableEq T] in
/-- A waiting fiber was resumed once at most. -/
lemma atMost (g : Good s) (w : (s.th i).pc.waits) : (s.th i).resumed ≤ 1 := by
  have ok := g.inv.ok i
  cases e : (s.th i).pc with
  | store | push | parked | awake =>
    simp only [Party.Ok, e] at ok
    omega
  | arm | direct | directAnd _ | directResume _ | switch =>
    simp only [Party.Ok, e] at ok
    rcases ok with ⟨h, -⟩ | ⟨h, -⟩ <;> omega
  | _ =>
    rw [e] at w
    cases w

/-- Somebody with fibers in its hands can move. -/
lemma holder_moves (h : (s.th t).pc.hand ≠ []) :
    ∃ s', Works s t s' := by
  cases e : (s.th t).pc with
  | directAnd ks => exact ⟨_, .directAnd e, by rw [e]; exact .inl rfl⟩
  | directResume ks =>
    cases ks with
    | nil => exact ⟨_, .directDone e, by rw [e]; exact .inl rfl⟩
    | cons k ks => exact ⟨_, .directResume e, by rw [e]; exact .inl rfl⟩
  | wakeAnd ks => exact ⟨_, .wakeAnd e, by rw [e]; exact .inr rfl⟩
  | wakeUnlock ks => exact ⟨_, .wakeUnlock e, by rw [e]; exact .inr rfl⟩
  | wakeResume ks =>
    cases ks with
    | nil => exact ⟨_, .wakeDone e, by rw [e]; exact .inr rfl⟩
    | cons k ks => exact ⟨_, .wakeResume e, by rw [e]; exact .inr rfl⟩
  | _ =>
    rw [e] at h
    exact absurd rfl h

/-- Whoever holds the mutex can move. -/
lemma locker_moves (h : (s.th t).pc.locks = true) :
    ∃ s', Works s t s' := by
  cases e : (s.th t).pc with
  | wakeExchange => exact ⟨_, .wakeExchange e, by rw [e]; exact .inr rfl⟩
  | wakeAnd ks => exact ⟨_, .wakeAnd e, by rw [e]; exact .inr rfl⟩
  | wakeUnlock ks => exact ⟨_, .wakeUnlock e, by rw [e]; exact .inr rfl⟩
  | _ =>
    rw [e] at h
    cases h

/-- When a drain is on its way somebody can move. -/
lemma collector_moves (g : Good s) (h : (s.th t).pc.collects = true) :
    ∃ t s', Works s t s' := by
  cases e : (s.th t).pc with
  | arm => exact ⟨t, _, .arm e, by rw [e]; exact .inl rfl⟩
  | direct => exact ⟨t, _, .direct e, by rw [e]; exact .inl rfl⟩
  | wakeExchange => exact ⟨t, _, .wakeExchange e, by rw [e]; exact .inr rfl⟩
  | wakeLock =>
    cases hm : s.mtx with
    | none => exact ⟨t, _, .wakeLock e hm, by rw [e]; exact .inr rfl⟩
    | some u => exact ⟨u, locker_moves ((g.owed.locked u).1 hm)⟩
  | _ =>
    rw [e] at h
    cases h

/-- With none counted and somebody waiting, some party inside can step. -/
lemma progress (g : Good s) (hc : s.count = 0) (w : (s.th i).pc.waits) :
    ∃ t s', Works s t s' := by
  have ok := g.inv.ok i
  cases e : (s.th i).pc with
  | store => exact ⟨i, _, .store e, .inl w⟩
  | push => exact ⟨i, _, .push e, .inl w⟩
  | arm => exact ⟨i, _, .arm e, .inl w⟩
  | direct => exact ⟨i, _, .direct e, .inl w⟩
  | directAnd ks => exact ⟨i, _, .directAnd e, .inl w⟩
  | directResume ks =>
    cases ks with
    | nil => exact ⟨i, _, .directDone e, .inl w⟩
    | cons k ks => exact ⟨i, _, .directResume e, .inl w⟩
  | awake => exact ⟨i, _, .returns e, .inl w⟩
  | switch =>
    simp only [Party.Ok, e] at ok
    rcases ok with ⟨-, hs, -⟩ | ⟨-, hs, -⟩
    · exact ⟨i, _, .switch e hs, .inl w⟩
    · exact ⟨i, _, .signaled e hs, .inl w⟩
  | parked =>
    simp only [Party.Ok, e] at ok
    obtain ⟨-, -, q, hq⟩ := ok
    cases q with
    | none =>
      obtain ⟨j, hj⟩ := g.owed.served hc (List.ne_nil_of_mem hq)
      exact g.collector_moves hj
    | some j => exact ⟨j, holder_moves (List.ne_nil_of_mem hq)⟩
  | _ =>
    rw [e] at w
    cases w

omit [DecidableEq T] in
/-- Nobody inside is going to clear the bit, so it is clear. -/
lemma bit_clear (g : Good s) (hc : s.count = 0)
    (quiet : ∀ i, (s.th i).pc.waits = false ∧ (s.th i).pc.wakes = false) : s.bit = false := by
  by_contra hb
  obtain ⟨j, hj⟩ := g.owed.cleared hc (by simpa using hb)
  obtain ⟨nw, nk⟩ := quiet j
  cases e : (s.th j).pc with
  | store | push | arm | direct | directAnd _ =>
    rw [e] at nw
    cases nw
  | wakeLock | wakeExchange | wakeAnd _ =>
    rw [e] at nk
    cases nk
  | _ =>
    rw [e] at hj
    cases hj

/-- What the invariant says of the wakes. -/
lemma exact (g : Good s) : s.Exact where
  placed i h := by
    obtain ⟨h0, -, w, -⟩ := g.inv.placed h
    exact ⟨w, h0⟩
  once i e := by
    have ok := g.inv.ok i
    simp only [Party.Ok, e] at ok
    exact ok.1
  atMost i w := g.atMost w
  finished i w h1 := by
    by_contra hc
    have h0 := (g.zero (Nat.pos_of_ne_zero hc) i).2 w
    omega
  progress hc i w := g.progress hc w
  settles := by
    obtain ⟨F, fin⟩ := g.within
    exact g.inv.settles fin
  clean hc quiet := by
    have hw : s.word = 0 := by
      simp [St.word, hc, g.bit_clear hc quiet]
    refine ⟨hw, g.inv.stack_nil fun i => (quiet i).1, fun t e => ?_⟩
    exact ⟨_, .polled e hw, St.goto_pc ..⟩

end Good

/-- In a run whose steps are all tidy every wake is exact: a waiting fiber is resumed once, and only when
the count is zero; at zero somebody can move as long as a fiber waits, and the parties inside can only
take finitely many steps; when they are done the word is zero, the stack is empty and pollers return. -/
theorem wakes_exact {c : Nat} {s : St T} (rn : Runs Next Tidy (init T c) s) : s.Exact :=
  (rn.invariant (Good.init c) Good.next).exact

/-- Fiber 1 parks; fiber 0 is on the stack and has not set the bit when the last task completes and
`WakeAll` takes both. It sets the bit after that and leaves it set: no poll returns any more. -/
theorem wakes_exact_bit_left : ∃ s : St (Fin 3), Reaches Next (init (Fin 3) 1) s ∧
    s.count = 0 ∧ (∀ i, (s.th i).pc = .idle) ∧ s.word = WAITER_BIT ∧ ¬s.Exact := by
  have r1 := (Runs.refl : Reaches Next (init (Fin 3) 1) _).next (.move 1) trivial (.move (.call rfl))
  have r2 := r1.next (.move 1) trivial (.move (.store rfl))
  have r3 := r2.next (.move 1) trivial (.move (.push rfl))
  have r4 := r3.next (.move 1) trivial (.move (.arm rfl))
  have r5 := r4.next (.move 1) trivial (.move (.switch rfl rfl))
  have r6 := r5.next (.move 0) trivial (.move (.call rfl))
  have r7 := r6.next (.move 0) trivial (.move (.store rfl))
  have r8 := r7.next (.move 0) trivial (.move (.push rfl))
  have r9 := r8.next (.move 2) trivial (.move (.complete rfl Nat.zero_lt_one))
  have r10 := r9.next (.move 2) trivial (.move (.wakeLock rfl rfl))
  have r11 := r10.next (.move 2) trivial (.move (.wakeExchange rfl))
  have r12 := r11.next (.move 2) trivial (.move (.wakeAnd rfl))
  have r13 := r12.next (.move 2) trivial (.move (.wakeUnlock rfl))
  have r14 := r13.next (.move 2) trivial (.move (.wakeResume rfl))
  have r15 := r14.next (.move 2) trivial (.move (.wakeResume rfl))
  have r16 := r15.next (.move 2) trivial (.move (.wakeDone rfl))
  have r17 := r16.next (.move 1) trivial (.move (.returns rfl))
  have r18 := r17.next (.move 0) trivial (.move (.arm rfl))
  have r19 := r18.next (.move 0) trivial (.move (.direct rfl))
  have r20 := r19.next (.move 0) trivial (.move (.signaled rfl rfl))
  have r21 := r20.next (.move 0) trivial (.move (.returns rfl))
  refine ⟨_, r21, rfl, by decide, rfl, fun ex => ?_⟩
  exact absurd (ex.clean rfl (by decide)).1 (by decide)

/-- Fiber 0 waits for one task, is woken by its completion and returns. -/
theorem wakes_exact_wait : ∃ s : St (Fin 2), Runs Next Tidy (init (Fin 2) 1) s ∧
    (s.th 0).pc = .awake ∧ s.Exact := by
  have r1 := (Runs.refl : Runs Next Tidy (init (Fin 2) 1) _).next (.move 0) nofun
    (.move (.call rfl))
  have r2 := r1.next (.move 0) nofun (.move (.store rfl))
  have r3 := r2.next (.move 0) nofun (.move (.push rfl))
  have r4 := r3.next (.move 0) nofun (.move (.arm rfl))
  have r5 := r4.next (.move 0) nofun (.move (.switch rfl rfl))
  have r6 := r5.next (.move 1) nofun (.move (.complete rfl Nat.zero_lt_one))
  have r7 := r6.next (.move 1) nofun (.move (.wakeLock rfl rfl))
  have r8 := r7.next (.move 1) nofun (.move (.wakeExchange rfl))
  have r9 := r8.next (.move 1) nofun (.move (.wakeAnd rfl))
  have r10 := r9.next (.move 1) nofun (.move (.wakeUnlock rfl))
  have r11 := r10.next (.move 1) nofun (.move (.wakeResume rfl))
  exact ⟨_, r11, rfl, wakes_exact r11⟩

end JLib.WaitGroup
