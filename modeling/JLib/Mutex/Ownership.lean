import JLib.Mutex.Custody

/-!
# Mutex: whose the lock is

The lock is handed over rather than released, so at each moment it is with one party: one that took it
or was given it, one inside `Unlock` that has not yet let go of it, or the waiter that an `Unlock` has
chosen and not yet resumed. `Own o th` says that the records `th` name `o`, and nobody else, in one of
these ways; `locked` then says whether there is such an `o`.
-/

namespace JLib.Mutex
open LTS

variable {T : Type}

/-- Inside a call that has the lock and has not let go of it. -/
def Thread.carries (h : Thread T) : Bool :=
  match h.pc with
  | .ret (.res .ok) | .record | .asyncRecord _ | .asyncWrite _ => true
  | .bareRecord | .bareRelease | .bareDeregister => true
  | .unlHolder | .unlLoop | .unlTest _ | .unlSkip _ | .unlSkipResume _ => true
  | .awake _ _ => h.got
  | _ => false

/-- The waiter an `Unlock` has settled on and not yet resumed. -/
def Pc.chosen : Pc T → Option (Waiter T)
  | .unlWrite w | .unlRecord w | .unlResume w => some w
  | _ => none

/-- The waiter that is chosen is in hand. -/
lemma Pc.mem_hand_of_chosen {p : Pc T} {w : Waiter T} (h : p.chosen = some w) : w ∈ p.hand := by
  cases p with
  | unlWrite v | unlRecord v | unlResume v =>
    cases h
    exact List.mem_singleton_self _
  | _ => cases h

/-- A `CancelWaiters` chooses nobody. -/
lemma Pc.chosen_canNext (tok : CancelToken) (f : Bool) (ws : List (Waiter T)) :
    (Pc.canNext tok f ws).chosen = none := by
  cases ws with
  | nil => cases f <;> rfl
  | cons w ws => rfl

/-- A `CancelWaiters` has no lock. -/
lemma Thread.carries_canNext (h : Thread T) (tok : CancelToken) (f : Bool) (ws : List (Waiter T)) :
    Thread.carries { h with pc := .canNext tok f ws } = false := by
  cases ws with
  | nil => cases f <;> rfl
  | cons w ws => rfl

/-- The records say that the lock is with `o` and with nobody else. -/
structure Own (o : Option T) (th : T → Thread T) : Prop where
  holds : ∀ t, (th t).holds → o = some t ∧ (th t).carries = false
  carries : ∀ t, (th t).carries → o = some t
  chosen : ∀ i w, (th i).pc.chosen = some w →
    o = some w.party ∧ (th w.party).holds = false ∧ (th w.party).carries = false
  found : ∀ t, o = some t →
    (th t).holds ∨ (th t).carries ∨ ∃ i w, (th i).pc.chosen = some w ∧ w.party = t

variable [DecidableEq T]

namespace Own
variable {o : Option T} {th : T → Thread T} {t : T} {h k : Thread T} {w : Waiter T}

/-- A party moves on without taking the lock or letting go of it. -/
lemma move (own : Own o th)
    (e : (h.holds || h.carries) = ((th t).holds || (th t).carries))
    (ne : h.holds → h.carries = false) (hc : h.pc.chosen = (th t).pc.chosen) :
    Own o (Function.update th t h) := by
  have mine : (th t).holds || (th t).carries → o = some t := by
    intro hm
    rcases Bool.or_eq_true_iff.1 hm with hm | hm
    · exact (own.holds t hm).1
    · exact own.carries t hm
  have hchosen : ∀ i, (Function.update th t h i).pc.chosen = (th i).pc.chosen := by
    intro i
    by_cases hi : i = t
    · subst hi
      rw [Function.update_self, hc]
    · rw [Function.update_of_ne hi]
  constructor
  · intro i hi
    by_cases e' : i = t
    · subst e'
      rw [Function.update_self] at hi ⊢
      exact ⟨mine (by rw [← e, hi, Bool.true_or]), ne hi⟩
    · rw [Function.update_of_ne e'] at hi ⊢
      exact own.holds i hi
  · intro i hi
    by_cases e' : i = t
    · subst e'
      rw [Function.update_self] at hi
      exact mine (by rw [← e, hi, Bool.or_true])
    · rw [Function.update_of_ne e'] at hi
      exact own.carries i hi
  · intro i w hw
    rw [hchosen] at hw
    obtain ⟨ho, h1, h2⟩ := own.chosen i w hw
    refine ⟨ho, ?_⟩
    by_cases e' : w.party = t
    · rw [e'] at h1 h2
      rw [h1, h2, Bool.or_false] at e
      rw [e', Function.update_self]
      exact Bool.or_eq_false_iff.1 e
    · rw [Function.update_of_ne e']
      exact ⟨h1, h2⟩
  · intro i hi
    rcases own.found i hi with hf | hf | ⟨j, w, hw, rfl⟩
    · by_cases e' : i = t
      · subst e'
        rw [hf, Bool.true_or] at e
        rw [Function.update_self]
        rcases Bool.or_eq_true_iff.1 e with e | e
        · exact .inl e
        · exact .inr (.inl e)
      · rw [Function.update_of_ne e']
        exact .inl hf
    · by_cases e' : i = t
      · subst e'
        rw [hf, Bool.or_true] at e
        rw [Function.update_self]
        rcases Bool.or_eq_true_iff.1 e with e | e
        · exact .inl e
        · exact .inr (.inl e)
      · rw [Function.update_of_ne e']
        exact .inr (.inl hf)
    · exact .inr (.inr ⟨j, w, (hchosen j).trans hw, rfl⟩)

/-- Nobody has the lock: a party takes it. -/
lemma take (own : Own none th) (hh : h.holds = (th t).holds) (hc : h.carries = true)
    (hw : h.pc.chosen = none) : Own (some t) (Function.update th t h) := by
  have no : ∀ i, (th i).holds = false ∧ (th i).carries = false ∧ (th i).pc.chosen = none := by
    intro i
    refine ⟨?_, ?_, ?_⟩
    · cases e : (th i).holds with
      | false => rfl
      | true => cases (own.holds i e).1
    · cases e : (th i).carries with
      | false => rfl
      | true => cases own.carries i e
    · cases e : (th i).pc.chosen with
      | none => rfl
      | some w => cases (own.chosen i w e).1
  constructor
  · intro i hi
    by_cases e : i = t
    · subst e
      rw [Function.update_self, hh, (no i).1] at hi
      cases hi
    · rw [Function.update_of_ne e, (no i).1] at hi
      cases hi
  · intro i hi
    by_cases e : i = t
    · rw [e]
    · rw [Function.update_of_ne e, (no i).2.1] at hi
      cases hi
  · intro i w hi
    by_cases e : i = t
    · subst e
      rw [Function.update_self, hw] at hi
      cases hi
    · rw [Function.update_of_ne e, (no i).2.2] at hi
      cases hi
  · rintro i ⟨⟩
    rw [Function.update_self]
    exact .inr (.inl hc)

/-- The party that carries the lock gives it to nobody, or to a waiter it has chosen. -/
lemma give (own : Own o th) (ht : (th t).carries = true) (hh : h.holds = (th t).holds)
    (hc : h.carries = false) (hw : ∀ w, h.pc.chosen = some w → w.party ≠ t) :
    Own (h.pc.chosen.map (·.party)) (Function.update th t h) := by
  have ho := own.carries t ht
  have th0 : (th t).holds = false := by
    cases e : (th t).holds with
    | false => rfl
    | true => rw [(own.holds t e).2] at ht; cases ht
  have no : ∀ i, i ≠ t →
      (th i).holds = false ∧ (th i).carries = false ∧ (th i).pc.chosen = none := by
    intro i hi
    refine ⟨?_, ?_, ?_⟩
    · cases e : (th i).holds with
      | false => rfl
      | true => exact absurd (Option.some.inj (ho.symm.trans (own.holds i e).1)) hi.symm
    · cases e : (th i).carries with
      | false => rfl
      | true => exact absurd (Option.some.inj (ho.symm.trans (own.carries i e))) hi.symm
    · cases e : (th i).pc.chosen with
      | none => rfl
      | some w =>
        obtain ⟨hw, -, h2⟩ := own.chosen i w e
        rw [← Option.some.inj (ho.symm.trans hw), ht] at h2
        cases h2
  constructor
  · intro i hi
    by_cases e : i = t
    · subst e
      rw [Function.update_self, hh, th0] at hi
      cases hi
    · rw [Function.update_of_ne e, (no i e).1] at hi
      cases hi
  · intro i hi
    by_cases e : i = t
    · subst e
      rw [Function.update_self, hc] at hi
      cases hi
    · rw [Function.update_of_ne e, (no i e).2.1] at hi
      cases hi
  · intro i w hi
    by_cases e : i = t
    · subst e
      rw [Function.update_self] at hi
      have np := hw w hi
      rw [hi, Function.update_of_ne np]
      exact ⟨rfl, (no _ np).1, (no _ np).2.1⟩
    · rw [Function.update_of_ne e, (no i e).2.2] at hi
      cases hi
  · intro i hi
    obtain ⟨w, hw', rfl⟩ := Option.map_eq_some_iff.1 hi
    exact .inr (.inr ⟨t, w, by rw [Function.update_self, hw'], rfl⟩)

/-- The chosen waiter runs again, with the lock. -/
lemma resume (own : Own o th) (hw : (th t).pc.chosen = some w) (ne : w.party ≠ t)
    (uniq : ∀ j v, j ≠ t → (th j).pc.chosen = some v → v.party ≠ w.party)
    (hh : k.holds = (th w.party).holds) (hc : k.carries = true) (hv : k.pc.chosen = none)
    (th0 : h.holds = (th t).holds) (tc : h.carries = false)
    (tw : h.pc.chosen = none) :
    Own o (Function.update (Function.update th w.party k) t h) := by
  obtain ⟨ho, h1, h2⟩ := own.chosen t w hw
  constructor
  · intro i hi
    by_cases e : i = t
    · subst e
      rw [Function.update_self] at hi ⊢
      exact ⟨(own.holds i (th0 ▸ hi)).1, tc⟩
    · rw [Function.update_of_ne e] at hi ⊢
      by_cases e' : i = w.party
      · subst e'
        rw [Function.update_self, hh, h1] at hi
        cases hi
      · rw [Function.update_of_ne e'] at hi ⊢
        exact own.holds i hi
  · intro i hi
    by_cases e : i = t
    · subst e
      rw [Function.update_self, tc] at hi
      cases hi
    · rw [Function.update_of_ne e] at hi
      by_cases e' : i = w.party
      · rw [e']
        exact ho
      · rw [Function.update_of_ne e'] at hi
        exact own.carries i hi
  · intro i v hi
    by_cases e : i = t
    · subst e
      rw [Function.update_self, tw] at hi
      cases hi
    · rw [Function.update_of_ne e] at hi
      by_cases e' : i = w.party
      · subst e'
        rw [Function.update_self, hv] at hi
        cases hi
      · rw [Function.update_of_ne e'] at hi
        obtain ⟨hv, -, -⟩ := own.chosen i v hi
        exact absurd (Option.some.inj (hv.symm.trans ho)) (uniq i v e hi)
  · intro i hi
    rw [ho] at hi
    cases hi
    rw [Function.update_of_ne ne, Function.update_self]
    exact .inr (.inl hc)

end Own

/-- `locked` says whether the lock is with somebody, and nobody is queued at a free lock. -/
structure Owned (s : St T) : Prop where
  own : Own s.mx.owner s.th
  flag : s.mx.locked = s.mx.owner.isSome
  quiet : s.mx.locked = false → s.mx.waiters = []

section Steps
variable {s s' : St T} {c : World T} {t : T} {m : Mtx T} {h : Thread T}

/-- The steps that neither take the lock nor let go of it. -/
lemma Owned.here (od : Owned s) (ho : m.owner = s.mx.owner) (hl : m.locked = s.mx.locked)
    (hq : m.locked = false → m.waiters = [])
    (e : (h.holds || h.carries) = ((s.th t).holds || (s.th t).carries))
    (ne : h.holds → h.carries = false) (hc : h.pc.chosen = (s.th t).pc.chosen) :
    Owned { mx := m, th := Function.update s.th t h } := by
  refine ⟨?_, ?_, ?_⟩
  · rw [ho]
    exact od.own.move e ne hc
  · rw [ho, hl]
    exact od.flag
  · exact hq

/-- The steps that leave the party with the lock or without it as it was. -/
lemma Owned.keep (od : Owned s) (ho : m.owner = s.mx.owner) (hl : m.locked = s.mx.locked)
    (hq : m.locked = false → m.waiters = []) (hh : h.holds = (s.th t).holds)
    (hk : h.carries = (s.th t).carries) (hc : h.pc.chosen = (s.th t).pc.chosen) :
    Owned { mx := m, th := Function.update s.th t h } := by
  apply od.here ho hl hq
  · rw [hh, hk]
  · intro hm
    rw [hk]
    exact (od.own.holds t (hh ▸ hm)).2
  · exact hc

/-- A party finds the lock free and takes it. -/
lemma Owned.take (od : Owned s) (free : s.mx.locked = false) (hh : h.holds = (s.th t).holds)
    (hc : h.carries = true) (hw : h.pc.chosen = none) :
    Owned { mx := s.mx.take t, th := Function.update s.th t h } := by
  have ho : s.mx.owner = none := by
    have := od.flag
    rw [free] at this
    exact Option.not_isSome_iff_eq_none.1 (by simp [← this])
  have own := od.own
  rw [ho] at own
  exact ⟨own.take hh hc hw, rfl, fun h0 => by cases h0⟩

omit [DecidableEq T] in
/-- Who has the lock has it locked. -/
lemma Owned.locked_of_carries (od : Owned s) (ht : (s.th t).carries = true) :
    s.mx.locked = true := by
  rw [od.flag, od.own.carries t ht]
  rfl

/-- A step of a party keeps the lock with one owner. -/
lemma Local.owned (lo : Local c t s.mx (s.th t) m h) (inv : Inv s) (od : Owned s) :
    Owned { mx := m, th := Function.update s.th t h } := by
  cases lo with
  | enterTake e f | tryTake e f | cancelTake e f | asyncTake e f | lockTake e f | barePredTake e f =>
    exact od.take f rfl rfl rfl
  | enterPush e l | asyncPush e l =>
    refine od.keep rfl rfl ?_ rfl (by simp [Thread.carries, e]) (by simp [Pc.chosen, e])
    exact fun h0 => absurd (l.symm.trans h0) (by simp)
  | unlFree e hq =>
    have own := od.own.give (t := t) (h := { s.th t with pc := .unlLoad })
      (by simp [Thread.carries, e]) rfl rfl (fun w hw => by cases hw)
    exact ⟨own, rfl, fun _ => hq⟩
  | @unlPop w ws e hq =>
    have hl := od.locked_of_carries (t := t) (by simp [Thread.carries, e])
    refine od.keep rfl rfl ?_ rfl (by simp [Thread.carries, e]) (by simp [Pc.chosen, e])
    exact fun h0 => absurd (hl.symm.trans h0) (by simp)
  | @unlTestChoose w e _ =>
    have hl := od.locked_of_carries (t := t) (by simp [Thread.carries, e])
    have ne := inv.ne_of_hand e (List.mem_singleton_self w)
    have own := od.own.give (t := t) (h := { s.th t with pc := .unlWrite w })
      (by simp [Thread.carries, e]) rfl rfl (fun v hv => by cases hv; exact ne)
    exact ⟨own, hl, fun h0 => absurd (hl.symm.trans h0) (by simp)⟩
  | call op e =>
    refine od.keep rfl rfl od.quiet rfl ?_ ?_
    · cases op <;> simp [Thread.carries, e, Op.entry]
    · cases op <;> simp [Pc.chosen, e, Op.entry]
  | callUnlock e hh =>
    refine od.here rfl rfl od.quiet ?_ (fun h0 => by cases h0) ?_
    · simp [Thread.carries, hh]
    · simp [Pc.chosen, e]
  | @done r e =>
    refine od.here rfl rfl od.quiet ?_ (fun _ => rfl) ?_
    · by_cases hr : r = .res .ok
      · simp [Thread.carries, e, hr]
      · have : (s.th t).carries = false := by
          unfold Thread.carries
          rw [e]
          rcases r with r | _ | _ | _ | _
          · cases r
            · exact absurd rfl hr
            · rfl
          all_goals rfl
        show ((s.th t).holds || decide (r = .res .ok) || false) = _
        simp [this, hr]
    · simp [Pc.chosen, e]
  | @canPass tok e =>
    refine od.keep rfl rfl ?_ rfl ?_ ?_
    · intro h0
      have sub : (s.mx.cancelPass c tok).2.waiters.Sublist s.mx.waiters := eject_keep_sublist _ _ _
      rw [od.quiet h0] at sub
      exact List.sublist_nil.1 sub
    · rw [Thread.carries_canNext]
      simp [Thread.carries, e]
    · rw [Pc.chosen_canNext]
      simp [Pc.chosen, e]
  | @checkPass b e _ =>
    refine od.keep rfl rfl od.quiet rfl ?_ ?_ <;> cases b <;> simp [Thread.carries, Pc.chosen, e]
  | @awakeOk k sl e hs =>
    have ok := inv.ok t
    simp only [Thread.Ok, e] at ok
    refine od.keep rfl rfl od.quiet rfl ?_ ?_
    · rcases ok with ⟨hg, -⟩ | ⟨-, hc, hsl⟩
      · cases k <;> simp [Thread.carries, e, hg]
      · rw [hs hsl] at hc
        cases hc
    · cases k <;> simp [Pc.chosen, e]
  | awakeCancelled e hs =>
    have ok := inv.ok t
    simp only [Thread.Ok, e, hs] at ok
    rcases ok with ⟨-, ⟨⟩⟩ | ok
    exact od.keep rfl rfl od.quiet rfl (by simp [Thread.carries, e, ok.1]) (by simp [Pc.chosen, e])
  | bareAcquire e _ =>
    rcases e with e | e <;>
      exact od.keep rfl rfl od.quiet rfl (by simp [Thread.carries, e]) (by simp [Pc.chosen, e])
  | checkCancelled e _ | record e | tryFail e _ | cancelFail e _ | cancelCancelled e _
  | cancelAgain e _ | asyncRecord e | asyncWrite e | lockViolation e _ | lockFail e _
  | bareRegister e | barePredFail e _ | bareSleep e | spuriousWake e | bareRecord e | bareRelease e
  | bareDeregister e | unlHolder e | unlTestSkip e _ | unlRecord e | unlLoadZero e _
  | unlLoadSome e _ | unlBareLock e _ | unlBareUnlock e =>
    exact od.keep rfl rfl od.quiet rfl (by simp [Thread.carries, e]) (by simp [Pc.chosen, e])

/-- Another party's record and the moving party's change, the lock stays where it is. -/
lemma Owned.both (od : Owned s) {u : T} {h' : Thread T} (hm : s'.mx = s.mx)
    (hth : s'.th = Function.update (Function.update s.th u h') t h) (ne : u ≠ t)
    (hh' : h'.holds = (s.th u).holds) (hk' : h'.carries = (s.th u).carries)
    (hc' : h'.pc.chosen = (s.th u).pc.chosen) (hh : h.holds = (s.th t).holds)
    (hk : h.carries = (s.th t).carries) (hc : h.pc.chosen = (s.th t).pc.chosen) : Owned s' := by
  have od' : Owned { s with th := Function.update s.th u h' } :=
    od.keep rfl rfl od.quiet hh' hk' hc'
  have et : Function.update s.th u h' t = s.th t := Function.update_of_ne ne.symm _ _
  have od'' : Owned { s with th := Function.update (Function.update s.th u h') t h } := by
    refine od'.keep rfl rfl od.quiet ?_ ?_ ?_
    · exact hh.trans (congrArg Thread.holds et.symm)
    · exact hk.trans (congrArg Thread.carries et.symm)
    · exact hc.trans (congrArg (fun k => k.pc.chosen) et.symm)
  have e : s' = { s with th := Function.update (Function.update s.th u h') t h } := by
    rw [← hm, ← hth]
  rwa [e]

/-- Every step keeps the lock with one party. -/
lemma Owned.step (od : Owned s) (inv : Inv s) (st : Step c s t s') : Owned s' := by
  cases st with
  | here lo => exact lo.owned inv od
  | @unlSkip w e =>
    have hw : w ∈ Pc.hand (.unlSkip w) := List.mem_singleton_self w
    exact od.both rfl (inv.writeSlot_goto e hw _ _) (inv.ne_of_hand e hw) rfl rfl rfl rfl
      (by simp [Thread.carries, e]) (by simp [Pc.chosen, e])
  | @unlSkipResume w e =>
    have hw : w ∈ Pc.hand (.unlSkipResume w) := List.mem_singleton_self w
    obtain ⟨⟨pk, -, -⟩, -⟩ := inv.knows e hw
    exact od.both rfl (inv.resume_goto e hw _ _) (inv.ne_of_hand e hw) rfl
      (by simp [Thread.carries, pk]) (by simp [Pc.chosen, pk]) rfl (by simp [Thread.carries, e])
      (by simp [Pc.chosen, e])
  | @unlWrite w e =>
    have hw : w ∈ Pc.hand (.unlWrite w) := List.mem_singleton_self w
    refine od.both rfl (inv.writeSlot_goto e hw _ _) (inv.ne_of_hand e hw) rfl rfl rfl rfl ?_ ?_
    · split <;> simp [Thread.carries, e]
    · split <;> simp [Pc.chosen, e]
  | @unlResume w e =>
    have hw : w ∈ Pc.hand (.unlResume w) := List.mem_singleton_self w
    have own := od.own.resume (t := t) (w := w)
      (h := { s.th t with pc := .ret .unlocked })
      (k := { s.th w.party with pc := .awake w.kind w.slot, got := true })
      (by rw [e]; rfl) (inv.ne_of_hand e hw) ?_ rfl rfl rfl rfl rfl rfl
    · refine ⟨?_, od.flag, od.quiet⟩
      rw [inv.resume_goto e hw]
      exact own
    · intro j v hj hv
      have hv' : v ∈ (s.th j).pc.hand := Pc.mem_hand_of_chosen hv
      have hw' : w ∈ (s.th t).pc.hand := by rw [e]; exact hw
      exact inv.cus.ne_of_hands hj hv' hw'
  | @notifyOne u e hu =>
    have ne : u ≠ t := ne_of_pc hu e (by simp)
    exact od.both rfl (St.goto_goto ne _ _) ne rfl (by simp [Thread.carries, hu])
      (by simp [Pc.chosen, hu]) rfl (by simp [Thread.carries, e]) (by simp [Pc.chosen, e])
  | notifyNone e _ =>
    exact od.keep rfl rfl od.quiet rfl (by simp [Thread.carries, e]) (by simp [Pc.chosen, e])
  | @canWrite tok w ws f e =>
    have hw : w ∈ Pc.hand (.canWrite tok w ws f) := List.mem_cons_self
    exact od.both rfl (inv.writeSlot_goto e hw _ _) (inv.ne_of_hand e hw) rfl rfl rfl rfl
      (by simp [Thread.carries, e]) (by simp [Pc.chosen, e])
  | @canResume tok w ws f e =>
    have hw : w ∈ Pc.hand (.canResume tok w ws f) := List.mem_cons_self
    obtain ⟨⟨pk, -, -⟩, -⟩ := inv.knows e hw
    refine od.both rfl (inv.resume_goto e hw _ _) (inv.ne_of_hand e hw) rfl
      (by simp [Thread.carries, pk]) (by simp [Pc.chosen, pk]) rfl ?_ ?_
    · rw [Thread.carries_canNext]
      simp [Thread.carries, e]
    · rw [Pc.chosen_canNext]
      simp [Pc.chosen, e]

omit [DecidableEq T] in
/-- The lock is free. -/
lemma Owned.init : Owned (Mutex.init T) := by
  refine ⟨⟨?_, ?_, ?_, ?_⟩, rfl, fun _ => rfl⟩
  · intro t ht
    cases ht
  · intro t ht
    cases ht
  · intro i w hw
    cases hw
  · intro t ht
    cases ht

end Steps
end JLib.Mutex
