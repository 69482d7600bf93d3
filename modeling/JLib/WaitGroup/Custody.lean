import JLib.WaitGroup.Model

/-!
# WaitGroup: custody of the waiting fibers

A fiber that has published itself and has not been resumed is in one place: on `directWaiters`, or in
the local variables of the one drain whose exchange took it, which may be its own. Its `status` tells the
same story from its side. So each wait is resumed once, whatever the order of the steps.
-/

namespace JLib.WaitGroup
open LTS

variable {T : Type} [DecidableEq T]

namespace St

/-- Who is where: `none` is the stack, `some i` the hands of `i`. -/
def places (s : St T) : Option T → List T
  | none => s.directWaiters
  | some i => (s.th i).pc.hand

/-- Published and not yet resumed. -/
def Placed (s : St T) (i : T) : Prop := ∃ p, i ∈ s.places p

end St

/-- What a party's record says about its fiber. -/
def Party.Ok (h : Party T) (placed : Prop) : Prop :=
  match h.pc with
  | .store => h.resumed = 0 ∧ ¬placed
  | .push => h.resumed = 0 ∧ h.status = .wantsSuspend ∧ ¬placed
  | .arm | .direct | .directAnd _ | .directResume _ | .switch =>
    (h.resumed = 0 ∧ h.status = .wantsSuspend ∧ placed) ∨
      (h.resumed = 1 ∧ h.status = .suspendSignaled ∧ ¬placed)
  | .parked => h.resumed = 0 ∧ h.status = .suspended ∧ placed
  | .awake => h.resumed = 1 ∧ ¬placed
  | _ => ¬placed

/-- The custody invariant. -/
structure Inv (s : St T) : Prop where
  cus : Custody s.places
  ok : ∀ i, (s.th i).Ok (s.Placed i)

/-- The party is where it went. -/
@[simp] lemma St.goto_pc (s : St T) (t : T) (p : Pc T) : ((s.goto t p).th t).pc = p := by
  simp [St.goto, St.set]

/-- Resuming a fiber leaves the stack. -/
@[simp] lemma St.resume_directWaiters (s : St T) (k : T) :
    (s.resume k).directWaiters = s.directWaiters := rfl

namespace Inv
variable {s s' : St T} {t i k : T} {ks : List T}

omit [DecidableEq T] in
/-- Nobody waits yet. -/
lemma init (c : Nat) : Inv (WaitGroup.init T c) := by
  have none : ∀ p, (WaitGroup.init T c).places p = [] := by
    intro p
    cases p <;> rfl
  refine ⟨Custody.empty none, fun i => ?_⟩
  rintro ⟨p, hp⟩
  rw [none p] at hp
  cases hp

omit [DecidableEq T] in
/-- A party that is in a place is inside its wait and has not been resumed. -/
lemma placed (inv : Inv s) (h : s.Placed i) :
    (s.th i).resumed = 0 ∧ ((s.th i).status = .wantsSuspend ∨ (s.th i).pc = .parked ∧
      (s.th i).status = .suspended) ∧ (s.th i).pc.waits ∧ (s.th i).pc ≠ .awake := by
  have ok := inv.ok i
  unfold Party.Ok at ok
  split at ok
  · exact absurd h ok.2
  · exact absurd h ok.2.2
  case h_3 e | h_4 e | h_5 e | h_6 e | h_7 e =>
    rcases ok with ⟨h0, hs, -⟩ | ⟨-, -, np⟩
    · rw [e]
      exact ⟨h0, .inl hs, rfl, nofun⟩
    · exact absurd h np
  case h_8 e =>
    rw [e]
    exact ⟨ok.1, .inr ⟨rfl, ok.2.1⟩, rfl, nofun⟩
  · exact absurd h ok.2
  · exact absurd h ok

/-- Nothing changes place. -/
lemma move (inv : Inv s) (hp : ∀ p, s'.places p = s.places p) (hth : ∀ i, i ≠ t → s'.th i = s.th i)
    (hok : (s'.th t).Ok (s.Placed t)) : Inv s' := by
  have same : ∀ i, s'.Placed i ↔ s.Placed i := by
    intro i
    unfold St.Placed
    simp only [hp]
  refine ⟨inv.cus.congr hp, fun i => ?_⟩
  rw [same i]
  by_cases ei : i = t
  · subst ei
    exact hok
  · rw [hth i ei]
    exact inv.ok i

/-- A record that leaves the hands as they are moves nobody. -/
lemma places_set {m : St T} {h : Party T} (hq : m.directWaiters = s.directWaiters)
    (hm : m.th = s.th) (hh : h.pc.hand = (s.th t).pc.hand) (p : Option T) :
    (m.set t h).places p = s.places p := by
  cases p with
  | none => exact hq
  | some i =>
    by_cases ei : i = t
    · subst ei
      simp [St.places, St.set, hh]
    · simp [St.places, St.set, ei, hm]

/-- A party moves on with the same fibers in its hands. -/
lemma own {m : St T} {h : Party T} (inv : Inv s) (hq : m.directWaiters = s.directWaiters)
    (hm : m.th = s.th) (hh : h.pc.hand = (s.th t).pc.hand) (hok : h.Ok (s.Placed t)) :
    Inv (m.set t h) := by
  apply inv.move (t := t) (places_set hq hm hh)
  · intro i hi
    rw [← hm]
    exact Function.update_of_ne hi ..
  · simpa [St.set] using hok

/-- A fiber publishes itself. -/
lemma stepPush (inv : Inv s) (e : (s.th t).pc = .push) :
    Inv (St.goto { s with directWaiters := t :: s.directWaiters } t .arm) := by
  have ok := inv.ok t
  simp only [Party.Ok, e] at ok
  obtain ⟨h0, hs, np⟩ := ok
  generalize hs' : St.goto { s with directWaiters := t :: s.directWaiters } t .arm = s'
  have self : s'.th t = { s.th t with pc := .arm } := by
    rw [← hs']
    exact Function.update_self ..
  have other : ∀ i, i ≠ t → s'.th i = s.th i := by
    intro i hi
    rw [← hs']
    exact Function.update_of_ne hi ..
  have queue : s'.directWaiters = t :: s.directWaiters := by
    rw [← hs']
    rfl
  have hands : ∀ i, (s'.th i).pc.hand = (s.th i).pc.hand := by
    intro i
    by_cases ei : i = t
    · rw [ei, self, e]
      rfl
    · rw [other i ei]
  have frame : ∀ r, r ≠ none → s'.places r = s.places r := by
    intro r hr
    cases r with
    | none => exact absurd rfl hr
    | some i => exact hands i
  refine ⟨?_, fun i => ?_⟩
  · apply inv.cus.put (p := none) (k := t) (fun q hq => np ⟨q, hq⟩) frame
    rw [St.places, queue]
    exact .refl _
  · by_cases ei : i = t
    · subst ei
      rw [self]
      refine .inl ⟨h0, hs, none, ?_⟩
      rw [St.places, queue]
      exact List.mem_cons_self
    · rw [other i ei]
      have same : s'.Placed i ↔ s.Placed i := by
        constructor
        · rintro ⟨q, hq⟩
          cases q with
          | none =>
            rw [St.places, queue] at hq
            exact ⟨none, (List.mem_cons.1 hq).resolve_left ei⟩
          | some j =>
            rw [St.places, hands j] at hq
            exact ⟨some j, hq⟩
        · rintro ⟨q, hq⟩
          cases q with
          | none => exact ⟨none, by rw [St.places, queue]; exact List.mem_cons_of_mem t hq⟩
          | some j => exact ⟨some j, by rw [St.places, hands j]; exact hq⟩
      rw [same]
      exact inv.ok i

/-- A drain takes the whole stack. -/
lemma stepTake (inv : Inv s) {p : Pc T} (h0 : (s.th t).pc.hand = [])
    (h1 : p.hand = s.directWaiters)
    (hok : Party.Ok { s.th t with pc := p } (s.Placed t)) :
    Inv (St.goto { s with directWaiters := [] } t p) := by
  generalize hs' : St.goto { s with directWaiters := [] } t p = s'
  have self : s'.th t = { s.th t with pc := p } := by
    rw [← hs']
    exact Function.update_self ..
  have other : ∀ i, i ≠ t → s'.th i = s.th i := by
    intro i hi
    rw [← hs']
    exact Function.update_of_ne hi ..
  have queue : s'.directWaiters = [] := by
    rw [← hs']
    rfl
  have mine : s'.places (some t) = s.directWaiters := by
    rw [St.places, self, ← h1]
  have frame : ∀ r, r ≠ none → r ≠ some t → s'.places r = s.places r := by
    intro r h0 ht
    cases r with
    | none => exact absurd rfl h0
    | some i => simp only [St.places, other i fun e => ht (e ▸ rfl)]
  have same : ∀ i, s'.Placed i ↔ s.Placed i := by
    intro i
    constructor
    · rintro ⟨q, hq⟩
      cases q with
      | none =>
        rw [St.places, queue] at hq
        cases hq
      | some j =>
        by_cases ej : j = t
        · subst ej
          rw [mine] at hq
          exact ⟨none, hq⟩
        · rw [frame (some j) nofun fun e => ej (Option.some.inj e)] at hq
          exact ⟨some j, hq⟩
    · rintro ⟨q, hq⟩
      cases q with
      | none => exact ⟨some t, by rw [mine]; exact hq⟩
      | some j =>
        have ej : j ≠ t := by
          rintro rfl
          rw [St.places, h0] at hq
          cases hq
        refine ⟨some j, ?_⟩
        rw [frame (some j) nofun fun e => ej (Option.some.inj e)]
        exact hq
  refine ⟨?_, fun i => ?_⟩
  · apply inv.cus.move (p := none) (q := some t) nofun frame
    rw [mine, St.places, queue, St.places, St.places, h0, List.append_nil]
    exact List.Subperm.refl _
  · rw [same i]
    by_cases ei : i = t
    · rw [ei, self]
      exact hok
    · rw [other i ei]
      exact inv.ok i

/-- `Fiber::Resume` of a fiber that waits for it. -/
lemma resumed_ok (inv : Inv s) (h : s.Placed k) {q : Prop} (nq : ¬q) :
    ((s.resume k).th k).Ok q ∧ ((s.resume k).th k).pc.hand = (s.th k).pc.hand := by
  obtain ⟨h0, hs, -, -⟩ := inv.placed h
  have ok := inv.ok k
  rcases hs with hs | ⟨hp, hs⟩
  · have e : (s.resume k).th k =
        { s.th k with status := .suspendSignaled, resumed := (s.th k).resumed + 1 } := by
      simp [St.resume, St.set, hs]
    rw [e]
    refine ⟨?_, rfl⟩
    unfold Party.Ok at ok ⊢
    dsimp only
    split at ok
    · exact absurd h ok.2
    · exact absurd h ok.2.2
    case h_3 | h_4 | h_5 | h_6 | h_7 => exact .inr ⟨by rw [h0], rfl, nq⟩
    case h_8 =>
      rw [hs] at ok
      cases ok.2.1
    · exact absurd h ok.2
    · exact absurd h ok
  · have e : (s.resume k).th k =
        { s.th k with pc := .awake, status := .ready, resumed := (s.th k).resumed + 1 } := by
      simp [St.resume, St.set, hs]
    rw [e]
    exact ⟨⟨by simp [h0], nq⟩, by rw [hp]; rfl⟩

/-- A resumed fiber that was parked is awake, and any other is where it was. -/
lemma resume_pc (inv : Inv s) (h : s.Placed k) :
    ((s.resume k).th k).pc = (s.th k).pc ∨
      (s.th k).pc = .parked ∧ ((s.resume k).th k).pc = .awake := by
  obtain ⟨-, hs, -, -⟩ := inv.placed h
  rcases hs with hs | ⟨hp, hs⟩
  · exact .inl (by simp [St.resume, St.set, hs])
  · exact .inr ⟨hp, by simp [St.resume, St.set, hs]⟩

/-- A drain resumes the first fiber it holds. -/
lemma stepResume (inv : Inv s) {p : Pc T} (h0 : (s.th t).pc.hand = k :: ks) (h1 : p.hand = ks)
    (hp : ∀ h x, h.pc = (s.th t).pc → Party.Ok h x → Party.Ok { h with pc := p } x) :
    Inv ((s.resume k).goto t p) := by
  generalize hs' : (s.resume k).goto t p = s'
  have mine : s.places (some t) = k :: ks := h0
  have pl : s.Placed k := ⟨some t, by rw [mine]; exact List.mem_cons_self⟩
  have run : (s.th t).pc ≠ .parked := by
    intro e
    rw [e] at h0
    cases h0
  have self : s'.th t = { (s.resume k).th t with pc := p } := by
    rw [← hs']
    exact Function.update_self ..
  have other : ∀ i, i ≠ t → s'.th i = (s.resume k).th i := by
    intro i hi
    rw [← hs']
    exact Function.update_of_ne hi ..
  have spare : ∀ i, i ≠ k → (s.resume k).th i = s.th i := by
    intro i hi
    exact Function.update_of_ne hi ..
  have frame : ∀ r, r ≠ some t → s'.places r = s.places r := by
    intro r hr
    cases r with
    | none =>
      rw [← hs']
      rfl
    | some i =>
      have hi : i ≠ t := fun e => hr (e ▸ rfl)
      by_cases ei : i = k
      · subst ei
        simp only [St.places, other i hi, (inv.resumed_ok pl not_false).2]
      · simp only [St.places, other i hi, spare i ei]
  have rest : s'.places (some t) = ks := by
    rw [St.places, self]
    exact h1
  have cus : Custody s'.places := by
    apply inv.cus.shrink frame
    rw [rest, mine]
    exact (List.sublist_cons_self k ks).subperm
  have nd : k ∉ ks := by
    have h := inv.cus.nodup (some t)
    rw [mine] at h
    exact (List.nodup_cons.1 h).1
  have gone : ¬s'.Placed k := by
    rintro ⟨q, hq⟩
    by_cases e : q = some t
    · rw [e, rest] at hq
      exact nd hq
    · rw [frame q e] at hq
      refine e (inv.cus.unique hq (?_ : k ∈ s.places (some t)))
      rw [mine]
      exact List.mem_cons_self
  have same : ∀ i, i ≠ k → (s'.Placed i ↔ s.Placed i) := by
    intro i hi
    constructor
    · rintro ⟨q, hq⟩
      by_cases e : q = some t
      · rw [e, rest] at hq
        exact ⟨some t, by rw [mine]; exact List.mem_cons_of_mem k hq⟩
      · rw [frame q e] at hq
        exact ⟨q, hq⟩
    · rintro ⟨q, hq⟩
      by_cases e : q = some t
      · rw [e, mine] at hq
        exact ⟨some t, by rw [rest]; exact (List.mem_cons.1 hq).resolve_left hi⟩
      · exact ⟨q, by rw [frame q e]; exact hq⟩
  refine ⟨cus, fun i => ?_⟩
  by_cases ei : i = t
  · subst ei
    rw [self]
    by_cases ek : i = k
    · subst ek
      have e := (inv.resume_pc pl).resolve_right fun h => run h.1
      exact hp _ _ e (inv.resumed_ok pl gone).1
    · rw [same i ek, spare i ek]
      exact hp _ _ rfl (inv.ok i)
  · rw [other i ei]
    by_cases ek : i = k
    · subst ek
      exact (inv.resumed_ok pl gone).1
    · rw [same i ek, spare i ek]
      exact inv.ok i

/-- Custody holds after every step. -/
lemma step (inv : Inv s) (st : Step s t s') : Inv s' := by
  have ok := inv.ok t
  cases st with
  | call e =>
    simp only [Party.Ok, e] at ok
    exact inv.own rfl rfl (by rw [e]; rfl) ⟨rfl, ok⟩
  | store e =>
    simp only [Party.Ok, e] at ok
    exact inv.own rfl rfl (by rw [e]; rfl) ⟨ok.1, rfl, ok.2⟩
  | push e => exact inv.stepPush e
  | arm e =>
    simp only [Party.Ok, e] at ok
    refine inv.own rfl rfl ?_ ?_
    · rw [e]
      split <;> rfl
    · split <;> exact ok
  | switch e es =>
    simp only [Party.Ok, e, es] at ok
    rcases ok with ⟨h0, -, hp⟩ | ⟨-, h, -⟩
    · exact inv.own rfl rfl (by rw [e]; rfl) ⟨h0, rfl, hp⟩
    · cases h
  | signaled e es =>
    simp only [Party.Ok, e, es] at ok
    rcases ok with ⟨-, h, -⟩ | ⟨h1, -, hp⟩
    · cases h
    · exact inv.own rfl rfl (by rw [e]; rfl) ⟨h1, hp⟩
  | returns e =>
    simp only [Party.Ok, e] at ok
    exact inv.own rfl rfl (by rw [e]; rfl) ok.2
  | direct e =>
    simp only [Party.Ok, e] at ok
    refine inv.stepTake (by rw [e]; rfl) ?_ ?_
    · split
      · next h => rw [h]; rfl
      · rfl
    · split <;> exact ok
  | directAnd e =>
    simp only [Party.Ok, e] at ok
    exact inv.own rfl rfl (by rw [e]; rfl) ok
  | directResume e =>
    refine inv.stepResume (by rw [e]; rfl) rfl fun h x eh ok => ?_
    simp only [Party.Ok, eh, e] at ok
    exact ok
  | directDone e =>
    simp only [Party.Ok, e] at ok
    exact inv.own rfl rfl (by rw [e]; rfl) ok
  | callPoll e | polled e _ | wakeLock e _ | wakeDone e | wakeAnd e | wakeUnlock e =>
    simp only [Party.Ok, e] at ok
    exact inv.own rfl rfl (by rw [e]; rfl) ok
  | complete e _ =>
    simp only [Party.Ok, e] at ok
    refine inv.own rfl rfl ?_ ?_
    · rw [e]
      split <;> rfl
    · split <;> exact ok
  | wakeExchange e =>
    simp only [Party.Ok, e] at ok
    exact inv.stepTake (by rw [e]; rfl) rfl ok
  | wakeResume e =>
    refine inv.stepResume (by rw [e]; rfl) rfl fun h x eh ok => ?_
    simp only [Party.Ok, eh, e] at ok
    exact ok

/-- Another party stays where it stands, unless it is parked and woken up. -/
lemma pc_other (inv : Inv s) (st : Step s t s') (ne : i ≠ t) :
    (s'.th i).pc = (s.th i).pc ∨ (s.th i).pc = .parked ∧ (s'.th i).pc = .awake := by
  have resumed : ∀ {k ks p}, (s.th t).pc.hand = k :: ks →
      (((s.resume k).goto t p).th i).pc = (s.th i).pc ∨
        (s.th i).pc = .parked ∧ (((s.resume k).goto t p).th i).pc = .awake := by
    intro k ks p h0
    have frame : ((s.resume k).goto t p).th i = (s.resume k).th i := Function.update_of_ne ne ..
    rw [frame]
    by_cases ek : i = k
    · subst ek
      exact inv.resume_pc ⟨some t, by rw [St.places, h0]; exact List.mem_cons_self⟩
    · exact .inl (congrArg Party.pc (Function.update_of_ne ek ..))
  cases st with
  | directResume e | wakeResume e => exact resumed (by rw [e]; rfl)
  | _ => exact .inl (congrArg Party.pc (Function.update_of_ne ne ..))

/-- What does not tell `parked` from `awake` stays the same for another party. -/
lemma of_other {β : Type} (f : Pc T → β) (hf : f .awake = f .parked) (inv : Inv s)
    (st : Step s t s') (ne : i ≠ t) : f (s'.th i).pc = f (s.th i).pc := by
  rcases inv.pc_other st ne with h | ⟨h, h'⟩
  · rw [h]
  · rw [h, h', hf]

/-- Every step keeps everybody at one place. -/
lemma next {a : Act T} (inv : Inv s) (nx : Next s a s') : Inv s' := by
  cases nx with
  | @add t k _ _ _ =>
    exact inv.move (t := t) (fun p => by cases p <;> rfl) (fun _ _ => rfl) (inv.ok t)
  | move st => exact inv.step st

end Inv
end JLib.WaitGroup
