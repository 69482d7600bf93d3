import JLib.Range.Splits

/-!
# Lazy ranges: no split is hidden

Only the holder of the claim publishes on the non-worker lane and touches its bit, so what matters is
how the holder leaves. It clears the bit on the way out whatever the lane holds: its own counter is zero,
so none of its own splits is left, but helping may have put splits of another range there. When it leaves
with such a split on the lane, no worker looks at that lane any more.
-/

namespace JLib.Range
open LTS

variable {T : Type} {n : Nat}

/-- What the steps of a run have to meet: when the holder of the claim clears the bit on its way out, no
split of another range is on the lane. -/
def LeavesNone (pool : Pool T) (s : St T n) (t : T) : Prop :=
  ∀ r fs, pool.kind t = .app → s.stack t = .drain r .out :: fs → ∀ k ∈ s.deques none, k.range = r

def Frame.drains : Frame → Bool
  | drain _ _ => true
  | _ => false

/-- The non-worker lane is empty and not advertised. -/
def St.Shut (s : St T n) : Prop := s.stealHintParallel none = false ∧ s.deques none = []

/-- Every drain loop on the stack is at its test. -/
def Tests (fs : List Frame) : Prop := ∀ r d, .drain r d ∈ fs → d = .test

/-- What a stack of an application thread says about the non-worker lane. -/
structure Stacked (s : St T n) (t : T) (fs : List Frame) : Prop where
  holder : 0 < fs.countP Frame.drains → s.nonWorkerLaneClaimed = some t
  single : fs.countP Frame.drains ≤ 1
  inner : Tests fs.tail
  out : ∀ r gs, fs = .drain r .out :: gs → ∀ k ∈ s.deques none, k.range ≠ r
  release : ∀ r gs, fs = .drain r .release :: gs → s.Shut

/-- The invariant of the non-worker lane. -/
structure Laned (pool : Pool T) (s : St T n) : Prop where
  past : n ≥ kMaxHintQueues → s.stealHintParallel none = false
  free : s.nonWorkerLaneClaimed = none → s.Shut
  stacked : ∀ t, pool.kind t = .app → Stacked s t (s.stack t)

/-- Every drain loop is at its test if the first and the others are. -/
@[simp] lemma Tests.cons {f : Frame} {fs : List Frame} :
    Tests (f :: fs) ↔ (∀ r d, f = .drain r d → d = .test) ∧ Tests fs := by
  constructor
  · intro h
    exact ⟨fun r d e => h r d (e ▸ List.mem_cons_self),
      fun r d hd => h r d (List.mem_cons_of_mem f hd)⟩
  · rintro ⟨h, hs⟩ r d hd
    rcases List.mem_cons.1 hd with e | hd
    · exact h r d e.symm
    · exact hs r d hd

/-- A split that starts is not a drain loop. -/
@[simp] lemma Tests.start {k : Split} {runs : Bool} {fs : List Frame} :
    Tests (Range.start k runs fs) ↔ Tests fs := by
  cases runs <;> simp [Range.start]

/-- A split that starts adds no drain loop. -/
@[simp] lemma countP_start (k : Split) (runs : Bool) (fs : List Frame) :
    (start k runs fs).countP Frame.drains = fs.countP Frame.drains := by
  cases runs <;> simp [start, Frame.drains]

namespace Stacked
variable {s s' : St T n} {t : T} {fs gs : List Frame} {f : Frame}

/-- Whoever has a frame of the drain loop on its stack holds the claim. -/
lemma claimed (st : Stacked s t (f :: fs)) (hf : f.drains = true) :
    s.nonWorkerLaneClaimed = some t := by
  apply st.holder
  simp [hf]

/-- The drain loops of the new stack are all at their tests. -/
lemma tests (st : Stacked s t fs) (hc : s'.nonWorkerLaneClaimed = s.nonWorkerLaneClaimed)
    (hn : gs.countP Frame.drains = fs.countP Frame.drains) (hg : Tests gs) : Stacked s' t gs where
  holder h := by
    rw [hc]
    exact st.holder (hn ▸ h)
  single := by
    rw [hn]
    exact st.single
  inner r d hd := hg r d (List.mem_of_mem_tail hd)
  out r gs' e := by
    have := hg r .out (e ▸ List.mem_cons_self)
    cases this
  release r gs' e := by
    have := hg r .release (e ▸ List.mem_cons_self)
    cases this

/-- The drain loop on top goes on. -/
lemma phase {r : Nat} {d d' : Drain} (st : Stacked s t (.drain r d :: fs))
    (hc : s'.nonWorkerLaneClaimed = s.nonWorkerLaneClaimed)
    (ho : d' = .out → ∀ k ∈ s'.deques none, k.range ≠ r) (hr : d' = .release → s'.Shut) :
    Stacked s' t (.drain r d' :: fs) where
  holder _ := by
    rw [hc]
    exact st.claimed rfl
  single := by
    have h := st.single
    rw [List.countP_cons] at h ⊢
    exact h
  inner := st.inner
  out r' gs' e := by
    cases e
    exact ho rfl
  release r' gs' e := by
    cases e
    exact hr rfl

/-- Nothing about the lane changes for the worse. -/
lemma keep (st : Stacked s t fs) (hc : s'.nonWorkerLaneClaimed = s.nonWorkerLaneClaimed)
    (hd : s'.deques none ⊆ s.deques none) (hs : s.Shut → s'.Shut) : Stacked s' t fs where
  holder h := by
    rw [hc]
    exact st.holder h
  single := st.single
  inner := st.inner
  out r gs e k hk := st.out r gs e k (hd hk)
  release r gs e := hs (st.release r gs e)

end Stacked

namespace Laned
variable {s s' : St T n} {pool : Pool T} {t : T} {fs gs : List Frame}

/-- The lane is empty. -/
lemma init : Laned pool ({} : St T n) where
  past _ := rfl
  free _ := ⟨rfl, rfl⟩
  stacked _ _ := ⟨nofun, Nat.zero_le _, nofun, nofun, nofun⟩

/-- A step that does not publish on the non-worker lane and leaves its bit alone. -/
lemma keep [DecidableEq T] (ln : Laned pool s)
    (hp : n ≥ kMaxHintQueues → s'.stealHintParallel none = false)
    (hc : s'.nonWorkerLaneClaimed = s.nonWorkerLaneClaimed)
    (hd : s'.deques none ⊆ s.deques none)
    (hh : s'.stealHintParallel none = s.stealHintParallel none)
    (hs : s'.stack = Function.update s.stack t gs)
    (hg : pool.kind t = .app → Stacked s' t gs) : Laned pool s' := by
  have shut : s.Shut → s'.Shut := by
    rintro ⟨h, e⟩
    rw [e] at hd
    exact ⟨hh.trans h, List.subset_nil.1 hd⟩
  refine ⟨hp, fun h => shut (ln.free (hc ▸ h)), fun u hu => ?_⟩
  by_cases e : u = t
  · subst e
    rw [hs, Function.update_self]
    exact hg hu
  · rw [hs, Function.update_of_ne e]
    exact (ln.stacked u hu).keep hc hd shut

/-- Another application thread than the holder has no drain loop on its stack. -/
lemma no_drain (ln : Laned pool s) (hc : s.nonWorkerLaneClaimed ≠ some t) (hu : pool.kind t = .app) :
    (s.stack t).countP Frame.drains = 0 := by
  by_contra h
  exact hc ((ln.stacked t hu).holder (Nat.pos_of_ne_zero h))

/-- A stack without a drain loop says nothing about the lane. -/
lemma stacked_of_no_drain [DecidableEq T] (h : fs.countP Frame.drains = 0) : Stacked s t fs := by
  have none : ∀ r d gs, fs ≠ .drain r d :: gs := by
    rintro r d gs rfl
    simp [Frame.drains] at h
  refine ⟨fun hp => by omega, by omega, fun r d hd => ?_, fun r gs e => ?_, fun r gs e => ?_⟩
  · have := List.countP_eq_zero.1 h _ (List.mem_of_mem_tail hd)
    exact absurd rfl this
  · exact absurd e (none _ _ _)
  · exact absurd e (none _ _ _)

/-- A step of the holder of the claim. -/
lemma holder [DecidableEq T] (ln : Laned pool s)
    (hp : n ≥ kMaxHintQueues → s'.stealHintParallel none = false)
    (hc : s.nonWorkerLaneClaimed = some t)
    (hc' : s'.nonWorkerLaneClaimed = some t) (hs : s'.stack = Function.update s.stack t gs)
    (hg : Stacked s' t gs) : Laned pool s' := by
  refine ⟨hp, fun h => ?_, fun u hu => ?_⟩
  · rw [hc'] at h
    cases h
  · by_cases e : u = t
    · subst e
      rw [hs, Function.update_self]
      exact hg
    · rw [hs, Function.update_of_ne e]
      apply stacked_of_no_drain
      apply ln.no_drain _ hu
      rw [hc]
      exact fun h => e (Option.some.inj h).symm

/-- Below the first frame the drain loops are at their test. -/
lemma rest (ln : Laned pool s) {f : Frame} (e : s.stack t = f :: fs) (ht : pool.kind t = .app) :
    Tests fs := by
  have h := (ln.stacked t ht).inner
  rwa [e] at h

/-- The new stack of the party that moves has its drain loops at their tests. -/
lemma tests [DecidableEq T] (ln : Laned pool s)
    (hp : n ≥ kMaxHintQueues → s'.stealHintParallel none = false)
    (hc : s'.nonWorkerLaneClaimed = s.nonWorkerLaneClaimed)
    (hd : s'.deques none ⊆ s.deques none)
    (hh : s'.stealHintParallel none = s.stealHintParallel none)
    (hs : s'.stack = Function.update s.stack t gs)
    (hn : gs.countP Frame.drains = (s.stack t).countP Frame.drains)
    (hg : pool.kind t = .app → Tests gs) : Laned pool s' :=
  ln.keep hp hc hd hh hs fun ht => (ln.stacked t ht).tests hc hn (hg ht)

/-- Helping leaves the number of drain loops alone. -/
lemma helps (ln : Laned pool s) (e : s.stack t = fs) (h : Helps (pool.kind t) fs gs) :
    gs.countP Frame.drains = (s.stack t).countP Frame.drains ∧ (pool.kind t = .app → Tests gs) := by
  cases h with
  | idle _ =>
    rw [e]
    exact ⟨rfl, fun _ => nofun⟩
  | body _ =>
    rw [e]
    exact ⟨rfl, fun ht => by simpa using ln.rest e ht⟩
  | drain =>
    rw [e, List.countP_cons, List.countP_cons]
    exact ⟨rfl, fun ht => by simpa using ln.rest e ht⟩

/-- The bit of a worker is not that of the non-worker lane. -/
lemma setHint_none (s : St T n) (w : Fin n) :
    (s.SetParallelHint (some w)).stealHintParallel none = s.stealHintParallel none := by
  dsimp only [St.SetParallelHint]
  split <;> simp

/-- Clearing the bit of a worker leaves that of the non-worker lane. -/
lemma clearHint_none (s : St T n) (w : Fin n) (d : Nat) :
    (s.ClearParallelHintIfEmpty (some w) d).stealHintParallel none = s.stealHintParallel none := by
  dsimp only [St.ClearParallelHintIfEmpty]
  split <;> simp

/-- A step on the lane of the party that moves. -/
lemma lane [DecidableEq T] (ln : Laned pool s)
    (hp : n ≥ kMaxHintQueues → s'.stealHintParallel none = false)
    {l : Lane n} (hl : s.LaneForCurrentThread pool t l)
    (hc : s'.nonWorkerLaneClaimed = s.nonWorkerLaneClaimed)
    (hs : s'.stack = Function.update s.stack t gs)
    (hw : ∀ w, l = some w → s'.deques none ⊆ s.deques none ∧
      s'.stealHintParallel none = s.stealHintParallel none)
    (hg : pool.kind t = .app → Stacked s' t gs) : Laned pool s' := by
  cases l with
  | none => exact ln.holder hp hl.2 (hc.trans hl.2) hs (hg hl.1)
  | some w =>
    obtain ⟨hd, hh⟩ := hw w rfl
    exact ln.keep hp hc hd hh hs hg

/-- Past the bitmap there is no bit to set. -/
lemma past_step [DecidableEq T] (h : n ≥ kMaxHintQueues → s.stealHintParallel none = false)
    (st : Next pool s t s') (hn : n ≥ kMaxHintQueues) : s'.stealHintParallel none = false := by
  have idx : Lane.index (none : Lane n) ≥ kMaxHintQueues := hn
  cases st with
  | hint l e _ =>
    cases l with
    | none =>
      refine Eq.trans ?_ (h hn)
      simp [St.put, St.SetParallelHint, idx]
    | some w => exact (setHint_none s w).trans (h hn)
  | clear l e _ | out l e _ =>
    cases l with
    | none =>
      refine Eq.trans ?_ (h hn)
      simp [St.put, St.ClearParallelHintIfEmpty, idx]
    | some w => exact (clearHint_none s w 0).trans (h hn)
  | pass w e _ => exact (clearHint_none s w _).trans (h hn)
  | _ => exact h hn

/-- A lane that loses splits gains none elsewhere. -/
lemma deque_sub (s : St T n) (lane : Lane n) {l : List Split} (h : l ⊆ s.deques lane) :
    (s.withDeque lane l).deques none ⊆ s.deques none := by
  by_cases e : none = lane
  · subst e
    simpa [St.withDeque] using h
  · simp [St.withDeque, e]

/-- A step under the condition keeps the lane. -/
lemma step [DecidableEq T] (ln : Laned pool s) (c : Counted s) (lv : LeavesNone pool s t)
    (st : Next pool s t s') : Laned pool s' := by
  have past := past_step ln.past st
  cases st with
  | enter e =>
    refine ln.tests past rfl (List.Subset.refl _) rfl rfl ?_ ?_
    · simp [e, Frame.drains]
    · intro _
      simp [Tests]
  | ret e | full e | leaf e | join e _ | unwind e | complete e | split l e _ _ _ =>
    refine ln.tests past rfl (List.Subset.refl _) rfl rfl ?_ ?_
    · simp [e, Frame.drains]
    · intro ht
      simpa using ln.rest e ht
  | again e =>
    refine ln.tests past rfl (List.Subset.refl _) rfl rfl ?_ ?_
    · simp [e, List.countP_cons, Frame.drains]
    · intro ht
      simpa using ln.rest e ht
  | other e h =>
    obtain ⟨hn, hg⟩ := ln.helps e h
    refine ln.tests past rfl (List.Subset.refl _) rfl rfl ?_ ?_
    · rw [List.countP_cons, hn]
      rfl
    · intro ht
      simpa using hg ht
  | steal l runs e h hk =>
    obtain ⟨hn, hg⟩ := ln.helps e h
    refine ln.tests past rfl (deque_sub s l ?_) rfl rfl ?_ ?_
    · rw [hk]
      exact List.subset_append_left ..
    · rw [countP_start, hn]
    · intro ht
      simpa using hg ht
  | @take k ks w runs e _ hk =>
    refine ln.tests past rfl (deque_sub s (some w) (l := ks) ?_) rfl rfl ?_ ?_
    · rw [hk]
      exact List.subset_cons_self ..
    · rw [countP_start, e]
    · intro _
      rw [Tests.start]
      rintro _ _ ⟨⟩
  | pop l runs e _ hk =>
    refine ln.tests past rfl (deque_sub s l ?_) rfl rfl ?_ ?_
    · rw [hk]
      exact List.subset_cons_self ..
    · rw [countP_start, e]
      rfl
    · intro ht
      simpa using ln.rest e ht
  | parallelFor g lo hi e ht =>
    refine ln.keep past rfl (List.Subset.refl _) rfl rfl fun h => ?_
    rw [ht] at h
    cases h
  | parallelForFiber g lo hi e ht =>
    refine ln.keep past rfl (List.Subset.refl _) rfl rfl fun h => ?_
    rw [ht] at h
    cases h
  | @claim fs g lo hi e ht hc =>
    have h0 : ∀ u, pool.kind u = .app → (s.stack u).countP Frame.drains = 0 := by
      intro u hu
      apply ln.no_drain _ hu
      rw [hc]
      rintro ⟨⟩
    refine ⟨past, by rintro ⟨⟩, fun u hu => ?_⟩
    by_cases eu : u = t
    · subst eu
      have hf := h0 u ht
      rw [e, List.countP_cons] at hf
      have tests := ln.rest e ht
      simp only [St.put, Function.update_self]
      refine ⟨fun _ => rfl, ?_, by simpa using tests, by rintro _ _ ⟨⟩, by rintro _ _ ⟨⟩⟩
      simp [List.countP_cons, Frame.drains] at hf ⊢
      exact hf
    · have hs : St.stack (St.put { s.newRange g with nonWorkerLaneClaimed := some t } t
          (.run s.ranges lo hi :: .drain s.ranges .test :: .body :: fs)) u = s.stack u :=
        Function.update_of_ne eu ..
      rw [hs]
      exact stacked_of_no_drain (h0 u hu)
  | hint l e hl =>
    refine ln.lane past hl rfl rfl ?_ fun ht => ?_
    · rintro w rfl
      exact ⟨List.Subset.refl _, setHint_none s w⟩
    · refine (ln.stacked t ht).tests rfl ?_ ?_
      · simp [e, Frame.drains]
      · simpa using ln.rest e ht
  | push l e hl =>
    refine ln.lane past hl rfl rfl ?_ fun ht => ?_
    · rintro w rfl
      exact ⟨by simp [St.put, St.withDeque], rfl⟩
    · refine (ln.stacked t ht).tests rfl ?_ ?_
      · simp [e, Frame.drains]
      · simpa using ln.rest e ht
  | popEmpty l e _ _ =>
    refine ln.keep past rfl (List.Subset.refl _) rfl rfl fun ht => ?_
    have sk := ln.stacked t ht
    rw [e] at sk
    exact sk.phase rfl (by rintro ⟨⟩) (by rintro ⟨⟩)
  | clear l e hl =>
    refine ln.lane past hl rfl rfl ?_ fun ht => ?_
    · rintro w rfl
      exact ⟨List.Subset.refl _, clearHint_none s w 0⟩
    · have sk := ln.stacked t ht
      rw [e] at sk
      exact sk.phase rfl (by rintro ⟨⟩) (by rintro ⟨⟩)
  | @test fs r e =>
    refine ln.keep past rfl (List.Subset.refl _) rfl rfl fun ht => ?_
    have sk := ln.stacked t ht
    rw [e] at sk
    refine sk.phase rfl ?_ ?_
    · -- the counter read zero, so no split of this range is on the lane
      intro ho k hk
      refine c.range_ne ?_ hk
      by_contra h
      rw [if_pos (Nat.pos_of_ne_zero h)] at ho
      cases ho
    · split <;> rintro ⟨⟩
  | @out fs r l e hl =>
    refine ln.lane past hl rfl rfl ?_ fun ht => ?_
    · rintro w rfl
      exact ⟨List.Subset.refl _, clearHint_none s w 0⟩
    · have sk := ln.stacked t ht
      rw [e] at sk
      refine sk.phase rfl (by rintro ⟨⟩) fun _ => ?_
      cases l with
      | some w => exact absurd ht hl
      | none =>
        constructor
        · -- the bit is cleared, or there is none
          by_cases hn : n ≥ kMaxHintQueues
          · exact past hn
          · have idx : ¬Lane.index (none : Lane n) ≥ kMaxHintQueues := hn
            simp [St.put, St.ClearParallelHintIfEmpty, idx]
        · apply List.eq_nil_iff_forall_not_mem.2
          intro k hk
          exact sk.out r fs rfl k hk (lv r fs ht e k hk)
  | @release fs r e =>
    by_cases ht : pool.kind t = .app
    · have sk := ln.stacked t ht
      rw [e] at sk
      have hc := sk.claimed rfl
      have shut := sk.release r fs rfl
      refine ⟨past, fun _ => shut, fun u hu => ?_⟩
      apply stacked_of_no_drain
      by_cases eu : u = t
      · subst eu
        have h1 := sk.single
        rw [List.countP_cons] at h1
        simp only [St.put, Function.update_self]
        simpa [Frame.drains] using h1
      · simp only [St.put, Function.update_of_ne eu]
        apply ln.no_drain _ hu
        rw [hc]
        exact fun h => eu (Option.some.inj h).symm
    · exact ln.keep past (if_neg ht) (List.Subset.refl _) rfl rfl fun h => absurd h ht
  | pass w e ht =>
    refine ln.keep (t := t) past rfl (List.Subset.refl _) (clearHint_none s w _)
      (Function.update_eq_self t s.stack).symm fun h => ?_
    rw [ht] at h
    cases h

end Laned
/-- No published split is hidden: when nobody holds the claim, the bit of the non-worker lane is set if and
only if there is a split on that lane. -/
theorem splits_never_hidden [DecidableEq T] {pool : Pool T} {s : St T n}
    (rn : Runs (Next pool) (LeavesNone pool) {} s) (hc : s.nonWorkerLaneClaimed = none) :
    s.stealHintParallel none = true ↔ s.deques none ≠ [] := by
  have inv : Laned pool s ∧ Counted s := by
    apply rn.invariant (I := fun s => Laned pool s ∧ Counted s) ⟨Laned.init, Counted.init⟩
    rintro s t s' ⟨ln, c⟩ lv st
    exact ⟨ln.step c lv st, c.step st⟩
  obtain ⟨hh, hd⟩ := inv.1.free hc
  simp [hh, hd]

/-- Application thread 0 has published a split and 2 has it. Helping, 0 runs a split of the range of 1
and publishes half of that on the non-worker lane; then its own range is finished and it leaves. -/
theorem splits_never_hidden_other_range : ∃ (pool : Pool (Fin 3)) (s : St (Fin 3) 2),
    Reaches (Next pool) {} s ∧ s.nonWorkerLaneClaimed = none ∧
    s.deques none = [⟨2, 1, 48, 64⟩] ∧ s.stealHintParallel none = false := by
  let pool : Pool (Fin 3) := ⟨fun t => if t = 0 then .app else .native, 2⟩
  have r0 : Reaches (Next pool) ({} : St (Fin 3) 2) {} := .refl
  have r1 := r0.next 0 trivial (.enter rfl)
  have r2 := r1.next 0 trivial (.claim 16 0 64 rfl rfl rfl)
  have r3 := r2.next 0 trivial (.split none rfl ⟨rfl, rfl⟩ (by decide) (by decide))
  have r4 := r3.next 0 trivial (.hint none rfl ⟨rfl, rfl⟩)
  have r5 := r4.next 0 trivial (.push none rfl ⟨rfl, rfl⟩)
  have r6 := r5.next 0 trivial (.leaf rfl)
  have r7 := r6.next 0 trivial (.ret rfl)
  have r8 := r7.next 2 trivial (.steal (r := []) none true rfl (.idle rfl) rfl)
  have r9 := r8.next 0 trivial (.test rfl)
  have r10 := r9.next 0 trivial (.popEmpty none rfl ⟨rfl, rfl⟩ rfl)
  have r11 := r10.next 0 trivial (.clear none rfl ⟨rfl, rfl⟩)
  have r12 := r11.next 1 trivial (.enter rfl)
  have r13 := r12.next 1 trivial (.parallelFor 16 0 64 rfl rfl)
  have r14 := r13.next 1 trivial (.split (some 0) rfl nofun (by decide) (by decide))
  have r15 := r14.next 1 trivial (.hint (some 0) rfl nofun)
  have r16 := r15.next 1 trivial (.push (some 0) rfl nofun)
  have r17 := r16.next 0 trivial (.steal (r := []) (some 0) true rfl .drain rfl)
  have r18 := r17.next 0 trivial (.split none rfl ⟨rfl, rfl⟩ (by decide +kernel) (by decide +kernel))
  have r19 := r18.next 0 trivial (.hint none rfl ⟨rfl, rfl⟩)
  have r20 := r19.next 0 trivial (.push none rfl ⟨rfl, rfl⟩)
  have r21 := r20.next 0 trivial (.leaf rfl)
  have r22 := r21.next 0 trivial (.ret rfl)
  have r23 := r22.next 0 trivial (.complete rfl)
  have r24 := r23.next 2 trivial (.leaf rfl)
  have r25 := r24.next 2 trivial (.ret rfl)
  have r26 := r25.next 2 trivial (.complete rfl)
  have r27 := r26.next 0 trivial (.test rfl)
  have r28 := r27.next 0 trivial (.out none rfl ⟨rfl, rfl⟩)
  have r29 := r28.next 0 trivial (.release rfl)
  exact ⟨pool, _, r29, rfl, rfl, rfl⟩

/-- Application thread 0 publishes half of its range, takes it back, runs it and leaves. -/
theorem splits_never_hidden_own_range : ∃ (pool : Pool (Fin 1)) (s : St (Fin 1) 2),
    Runs (Next pool) (LeavesNone pool) {} s ∧ s.ranges = 1 ∧ s.tasks = 1 ∧
    s.nonWorkerLaneClaimed = none ∧ (s.stealHintParallel none = true ↔ s.deques none ≠ []) := by
  let pool : Pool (Fin 1) := ⟨fun _ => .app, 2⟩
  have r0 : Runs (Next pool) (LeavesNone pool) ({} : St (Fin 1) 2) {} := .refl
  have r1 := r0.next 0 nofun (.enter rfl)
  have r2 := r1.next 0 nofun (.claim 16 0 32 rfl rfl rfl)
  have r3 := r2.next 0 nofun (.split none rfl ⟨rfl, rfl⟩ (by decide) (by decide))
  have r4 := r3.next 0 nofun (.hint none rfl ⟨rfl, rfl⟩)
  have r5 := r4.next 0 nofun (.push none rfl ⟨rfl, rfl⟩)
  have r6 := r5.next 0 nofun (.leaf rfl)
  have r7 := r6.next 0 nofun (.ret rfl)
  have r8 := r7.next 0 nofun (.test rfl)
  have r9 := r8.next 0 nofun (.pop none true rfl ⟨rfl, rfl⟩ rfl)
  have r10 := r9.next 0 nofun (.leaf rfl)
  have r11 := r10.next 0 nofun (.ret rfl)
  have r12 := r11.next 0 nofun (.complete rfl)
  have r13 := r12.next 0 nofun (.test rfl)
  have r14 := r13.next 0 (fun _ _ _ _ => nofun) (.out none rfl ⟨rfl, rfl⟩)
  have r15 := r14.next 0 nofun (.release rfl)
  exact ⟨pool, _, r15, rfl, rfl, rfl, splits_never_hidden r15 rfl⟩

end JLib.Range
