import JLib.Epochs.Model

/-!
# No deleter runs under a reader

A reader that obtained an object in a guard announced itself before, so the object was withdrawn, and
stamped with the epoch, after the announcement. A pass that frees the object has a bound above the stamp.
It began with an epoch above the stamp, hence after the object was withdrawn, and it came past the
reader's slot since: it saw an announcement that is no later than the stamp. `Safe` is this argument as an
invariant. It needs the announcement to last as long as the guard, and that fails when a second thread
uses the slot.
-/

namespace JLib.Epochs
open LTS State

variable {θ κ ι π : Type}
  {w : Setup θ κ} {s u : State θ κ ι π} {a : Label θ ι π} {t : θ} {p : π} {e v : Nat}

/-- The bound of a pass and the slots it has not looked at. -/
def Pass.bound : Pass κ π → Option (Nat × List κ)
  | .idle => none
  | .look v cs => some (v, cs)
  | .own v _ => some (v, [])
  | .orphan v _ => some (v, [])

/-- The entries a pass still has to look at. -/
def Pass.items : Pass κ π → List (Retired π)
  | .idle => []
  | .look _ _ => []
  | .own _ rs => rs
  | .orphan _ rs => rs

/-- An entry that some thread or the store has. -/
def State.Has (s : State θ κ ι π) (r : Retired π) : Prop :=
  (∃ t, s.stamp t = some r) ∨ (∃ t, r ∈ s.bag t) ∨ r ∈ s.orphans ∨ ∃ t, r ∈ (s.pass t).items

/-- The condition on the steps: no guard is announced on the slot of another one. -/
def Alone (w : Setup θ κ) (s : State θ κ ι π) : Label θ ι π → Prop
  | .announce t => ∀ t', w.slotOf t' = w.slotOf t → s.guard t' ≠ .inside
  | _ => True

/-- What the guards have to do with the slots. -/
structure Announced (w : Setup θ κ) (s : State θ κ ι π) : Prop where
  loads : ∀ {t e}, s.guard t = .loaded e → e ≤ s.globalEpoch
  slot : ∀ {t}, s.guard t = .inside → ∃ e ≤ s.globalEpoch, s.slot (w.slotOf t) = some e
  apart : ∀ {t t'}, w.slotOf t = w.slotOf t' → s.guard t = .inside → s.guard t' = .inside → t = t'
  out : ∀ {t}, s.guard t ≠ .inside → s.got t = []

/-- What the readers have to do with the bags and the passes. -/
structure Safe (w : Setup θ κ) (s : State θ κ ι π) : Prop where
  loc : ∀ {l p}, s.loc l = some p → s.withdrawn p = false
  known : ∀ {p e}, s.Has (p, e) → s.withdrawn p = true ∧ e ≤ s.globalEpoch
  gone : ∀ {p}, s.freed p = true → s.withdrawn p = true ∧ ∀ t, p ∉ s.got t
  kept : ∀ {t p e}, p ∈ s.got t → s.Has (p, e) → ∃ e' ≤ e, s.slot (w.slotOf t) = some e'
  past : ∀ {t v cs}, (s.pass t).bound = some (v, cs) → v ≤ s.globalEpoch
  scan : ∀ {t v cs t' p e}, (s.pass t).bound = some (v, cs) → p ∈ s.got t' → s.Has (p, e) → e < v →
    w.slotOf t' ∈ cs

/-- Nobody is announced. -/
lemma Announced.init (w : Setup θ κ) : Announced w ({} : State θ κ ι π) :=
  ⟨nofun, nofun, nofun, fun _ => rfl⟩

/-- Nobody reads. -/
lemma Safe.init (w : Setup θ κ) : Safe w ({} : State θ κ ι π) := by
  have none : ∀ {r}, ¬({} : State θ κ ι π).Has r := by
    rintro r (⟨_, h⟩ | ⟨_, h⟩ | h | ⟨_, h⟩) <;> cases h
  exact ⟨nofun, fun h => (none h).elim, nofun, nofun, nofun, nofun⟩

/-- The store is all that `OrphanEpochEntries` writes. -/
lemma State.orphanEpochEntries_eq (s : State θ κ ι π) (l : List (Retired π)) :
    ∃ o c, s.orphanEpochEntries l = { s with orphans := o, orphanCount := c } := by
  unfold State.orphanEpochEntries
  split
  · exact ⟨_, _, rfl⟩
  · exact ⟨_, _, rfl⟩

variable [DecidableEq θ]

/-- The bags and the store are all that `RetirePtr` writes. -/
lemma State.retirePtr_eq (s : State θ κ ι π) (t : θ) (r : Retired π) :
    ∃ b o c, s.retirePtr t r = { s with bag := b, orphans := o, orphanCount := c } := by
  unfold State.retirePtr
  split
  · obtain ⟨o, c, e⟩ := s.orphanEpochEntries_eq [r]
    exact ⟨s.bag, o, c, e⟩
  · exact ⟨_, _, _, rfl⟩

/-! ## Guards -/

/-- A step under the condition keeps the guards and the slots in step. -/
lemma Announced.step [DecidableEq κ] [DecidableEq ι] [DecidableEq π] (an : Announced w s) (ok : Alone w s a)
    (st : Step w s a u) : Announced w u := by
  cases st with
  | @load t h =>
    refine ⟨fun {t' e} h' => ?_, fun {t'} h' => ?_, fun {t1 t2} hc h1 h2 => ?_, fun {t'} h' => ?_⟩
    all_goals simp only [Function.update_apply] at *
    · split at h'
      · cases h'
        exact Nat.le_refl _
      · exact an.loads h'
    · split at h'
      · cases h'
      · exact an.slot h'
    · split at h1
      · cases h1
      · split at h2
        · cases h2
        · exact an.apart hc h1 h2
    · split at h'
      · apply an.out
        rename_i e
        rw [e, h]
        nofun
      · exact an.out h'
  | @announce t e h =>
    have le := an.loads h
    refine ⟨fun {t' e} h' => ?_, fun {t'} h' => ?_, fun {t1 t2} hc h1 h2 => ?_, fun {t'} h' => ?_⟩
    all_goals simp only [Function.update_apply] at *
    · split at h'
      · cases h'
      · exact an.loads h'
    · by_cases e' : t' = t
      · subst e'
        exact ⟨e, le, if_pos rfl⟩
      · rw [if_neg e'] at h'
        obtain ⟨e1, le1, hs⟩ := an.slot h'
        refine ⟨e1, le1, ?_⟩
        rw [if_neg, hs]
        exact fun hc => ok t' hc h'
    · split at h1 <;> split at h2
      · exact ‹t1 = t›.trans ‹t2 = t›.symm
      · rename_i e1 _
        exact absurd h2 (ok t2 (e1 ▸ hc.symm))
      · rename_i _ e2
        exact absurd h1 (ok t1 (e2 ▸ hc))
      · exact an.apart hc h1 h2
    · split at h'
      · exact absurd rfl h'
      · exact an.out h'
  | @read t l p h _ =>
    refine ⟨an.loads, an.slot, an.apart, fun {t'} h' => ?_⟩
    have ne : t' ≠ t := fun e => h' (e ▸ h)
    simp only [Function.update_of_ne ne]
    exact an.out h'
  | @clear t h =>
    refine ⟨fun {t' e} h' => ?_, fun {t'} h' => ?_, fun {t1 t2} hc h1 h2 => ?_, fun {t'} h' => ?_⟩
    all_goals simp only [Function.update_apply] at *
    · split at h'
      · cases h'
      · exact an.loads h'
    · split at h'
      · cases h'
      · rename_i ne
        obtain ⟨e1, le1, hs⟩ := an.slot h'
        refine ⟨e1, le1, ?_⟩
        rw [if_neg, hs]
        exact fun hc => ne (an.apart hc h' h)
    · split at h1
      · cases h1
      · split at h2
        · cases h2
        · exact an.apart hc h1 h2
    · split
      · rfl
      · rename_i ne
        rw [if_neg ne] at h'
        exact an.out h'
  | advance =>
    refine ⟨fun h => (an.loads h).trans (Nat.le_succ _), fun h => ?_, an.apart, an.out⟩
    obtain ⟨e, le, hs⟩ := an.slot h
    exact ⟨e, le.trans (Nat.le_succ _), hs⟩
  | @retire t r _ _ =>
    obtain ⟨b, o, c, e⟩ := s.retirePtr_eq t r
    rw [e]
    exact ⟨an.loads, an.slot, an.apart, an.out⟩
  | @exit t _ _ =>
    obtain ⟨o, c, e⟩ := s.orphanEpochEntries_eq (s.bag t)
    rw [e]
    exact ⟨an.loads, an.slot, an.apart, an.out⟩
  | _ => exact ⟨an.loads, an.slot, an.apart, an.out⟩

/-! ## Readers, bags and passes -/

omit [DecidableEq θ] in
/-- Readers and locations stay as they are, no entry is new, and no pass begins or looks further. -/
lemma Safe.frame (sf : Safe w s) (loc : u.loc = s.loc) (slot : u.slot = s.slot) (got : u.got = s.got)
    (withdrawn : u.withdrawn = s.withdrawn) (epoch : s.globalEpoch ≤ u.globalEpoch)
    (has : ∀ {r}, u.Has r → s.Has r)
    (bound : ∀ {t v cs}, (u.pass t).bound = some (v, cs) → ∃ t', (s.pass t').bound = some (v, cs))
    (freed : ∀ {p}, u.freed p = true →
      s.freed p = true ∨ s.withdrawn p = true ∧ ∀ t, p ∉ s.got t) : Safe w u := by
  refine ⟨fun h => ?_, fun h => ?_, fun h => ?_, fun h hr => ?_, fun h => ?_, fun h hg hr lt => ?_⟩
  · rw [withdrawn]
    exact sf.loc (loc ▸ h)
  · obtain ⟨wd, le⟩ := sf.known (has h)
    rw [withdrawn]
    exact ⟨wd, le.trans epoch⟩
  · rw [withdrawn, got]
    rcases freed h with h | h
    · exact sf.gone h
    · exact h
  · rw [got] at h
    rw [slot]
    exact sf.kept h (has hr)
  · obtain ⟨t', h⟩ := bound h
    exact (sf.past h).trans epoch
  · obtain ⟨t', h⟩ := bound h
    rw [got] at hg
    exact sf.scan h hg (has hr) lt

omit [DecidableEq θ] in
/-- What a finished scan lets the pass delete, no reader has. -/
lemma Safe.deletable (sf : Safe w s) (bound : (s.pass t).bound = some (v, [])) (has : s.Has (p, e))
    (lt : e < v) : s.withdrawn p = true ∧ ∀ t', p ∉ s.got t' := by
  refine ⟨(sf.known has).1, fun t' h => ?_⟩
  cases sf.scan bound h has lt

/-- The pass of one thread takes over entries from a place of its own or of the store. -/
lemma State.Has.of_pass {x : Pass κ π} {r : Retired π} (h : u.Has r)
    (pass : u.pass = Function.update s.pass t x) (stamp : u.stamp = s.stamp)
    (bag : ∀ {t}, r ∈ u.bag t → s.Has r) (orphans : r ∈ u.orphans → s.Has r)
    (items : r ∈ x.items → s.Has r) : s.Has r := by
  rcases h with ⟨t', h⟩ | ⟨t', h⟩ | h | ⟨t', h⟩
  · exact .inl ⟨t', stamp ▸ h⟩
  · exact bag h
  · exact orphans h
  · rw [pass, Function.update_apply] at h
    split at h
    · exact items h
    · exact .inr (.inr (.inr ⟨t', h⟩))

/-- A pass goes on with the bound it has. -/
lemma bound_of_pass {x : Pass κ π} (pass : u.pass = Function.update s.pass t x)
    (same : ∀ {b}, x.bound = some b → (s.pass t).bound = some b) {t' : θ} {v : Nat} {cs : List κ}
    (h : (u.pass t').bound = some (v, cs)) : ∃ t', (s.pass t').bound = some (v, cs) := by
  rw [pass, Function.update_apply] at h
  split at h
  · exact ⟨t, same h⟩
  · exact ⟨t', h⟩

/-- A pass that has begun takes one step. -/
lemma Safe.pass {x : Pass κ π} (sf : Safe w s) (same : ∀ {b}, x.bound = some b → (s.pass t).bound = some b)
    (loc : u.loc = s.loc) (slot : u.slot = s.slot) (got : u.got = s.got)
    (withdrawn : u.withdrawn = s.withdrawn) (epoch : u.globalEpoch = s.globalEpoch)
    (stamp : u.stamp = s.stamp) (pass : u.pass = Function.update s.pass t x)
    (bag : ∀ {r t}, r ∈ u.bag t → s.Has r) (orphans : ∀ {r}, r ∈ u.orphans → s.Has r)
    (items : ∀ {r}, r ∈ x.items → s.Has r)
    (freed : ∀ {p}, u.freed p = true →
      s.freed p = true ∨ s.withdrawn p = true ∧ ∀ t, p ∉ s.got t) : Safe w u := by
  apply sf.frame loc slot got withdrawn (Nat.le_of_eq epoch.symm) _ (bound_of_pass pass same) freed
  intro r h
  exact h.of_pass pass stamp bag orphans items

omit [DecidableEq θ] in
/-- The deleter of an entry of a pass runs. -/
lemma Safe.freed_of_delete [DecidableEq π] {r : Retired π} {rs : List (Retired π)} (sf : Safe w s)
    (bound : (s.pass t).bound = some (v, [])) (items : (s.pass t).items = r :: rs) (lt : r.2 < v)
    (h : (s.delete r.1).freed p = true) : s.freed p = true ∨ s.withdrawn p = true ∧ ∀ t, p ∉ s.got t := by
  simp only [State.delete, Function.update_apply] at h
  split at h
  · rename_i e
    right
    rw [e]
    apply sf.deletable bound _ lt
    right; right; right
    exact ⟨t, items ▸ List.mem_cons_self⟩
  · exact .inl h

/-- An announcement keeps the readers safe. -/
lemma Safe.announce [DecidableEq κ] {e : Nat} (sf : Safe w s) (an : Announced w s) (ok : Alone w s (.announce t)) :
    Safe w
      { s with
        slot := Function.update s.slot (w.slotOf t) (some e)
        guard := Function.update s.guard t .inside } := by
  refine ⟨sf.loc, sf.known, sf.gone, fun {t' p e'} h hr => ?_, sf.past, sf.scan⟩
  obtain ⟨e1, le, hs⟩ := sf.kept h hr
  refine ⟨e1, le, ?_⟩
  have inside : s.guard t' = .inside := by
    by_contra out
    rw [an.out out] at h
    cases h
  have ne : w.slotOf t' ≠ w.slotOf t := fun hc => ok t' hc inside
  simp only [Function.update_of_ne ne, hs]

/-- A guard that is left keeps the other readers safe. -/
lemma Safe.clear [DecidableEq κ] (sf : Safe w s) (an : Announced w s) (h : s.guard t = .inside) :
    Safe w
      { s with
        slot := Function.update s.slot (w.slotOf t) none
        guard := Function.update s.guard t .out
        got := Function.update s.got t [] } := by
  have back : ∀ {t' p}, p ∈ Function.update s.got t [] t' → t' ≠ t ∧ p ∈ s.got t' := by
    intro t' p hp
    rw [Function.update_apply] at hp
    split at hp
    · cases hp
    · exact ⟨‹_›, hp⟩
  refine ⟨sf.loc, sf.known, fun hf => ?_, fun {t' p e} hp hr => ?_, sf.past, fun hb hp hr lt => ?_⟩
  · exact ⟨(sf.gone hf).1, fun t' hp => (sf.gone hf).2 t' (back hp).2⟩
  · obtain ⟨ne, hp⟩ := back hp
    obtain ⟨e1, le, hs⟩ := sf.kept hp hr
    refine ⟨e1, le, ?_⟩
    have inside : s.guard t' = .inside := by
      by_contra out
      rw [an.out out] at hp
      cases hp
    have away : w.slotOf t' ≠ w.slotOf t := fun hc => ne (an.apart hc inside h)
    simp only [Function.update_of_ne away, hs]
  · exact sf.scan hb (back hp).2 hr lt

/-- An object that is still at some location has no entry and is not freed. -/
lemma Safe.read {l : ι} (sf : Safe w s) (hl : s.loc l = some p) :
    Safe w { s with got := Function.update s.got t (p :: s.got t) } := by
  have live := sf.loc hl
  have back : ∀ {t' q}, q ∈ Function.update s.got t (p :: s.got t) t' → q = p ∨ q ∈ s.got t' := by
    intro t' q hq
    rw [Function.update_apply] at hq
    split at hq
    · rename_i e
      rw [e]
      exact List.mem_cons.1 hq
    · exact .inr hq
  have entry : ∀ {e}, ¬s.Has (p, e) := by
    intro e hr
    rw [(sf.known hr).1] at live
    cases live
  refine ⟨sf.loc, sf.known, fun hf => ⟨(sf.gone hf).1, fun t' hq => ?_⟩, fun hq hr => ?_, sf.past,
    fun hb hq hr lt => ?_⟩
  · rcases back hq with rfl | hq
    · rw [(sf.gone hf).1] at live
      cases live
    · exact (sf.gone hf).2 t' hq
  · rcases back hq with rfl | hq
    · exact absurd hr entry
    · exact sf.kept hq hr
  · rcases back hq with rfl | hq
    · exact absurd hr entry
    · exact sf.scan hb hq hr lt

/-- The stamp is no earlier than any announcement and any pass. -/
lemma Safe.stamp [DecidableEq κ] [DecidableEq π] (sf : Safe w s) (an : Announced w s) (out : ∀ l, s.loc l ≠ some p) :
    Safe w
      { s with
        withdrawn := Function.update s.withdrawn p true
        stamp := Function.update s.stamp t (some (p, s.globalEpoch)) } := by
  have back : ∀ {r}, State.Has { s with
      withdrawn := Function.update s.withdrawn p true
      stamp := Function.update s.stamp t (some (p, s.globalEpoch)) } r →
      r = (p, s.globalEpoch) ∨ s.Has r := by
    rintro r (⟨t', h⟩ | h)
    · simp only [Function.update_apply] at h
      split at h
      · exact .inl (Option.some.inj h).symm
      · exact .inr (.inl ⟨t', h⟩)
    · exact .inr (.inr h)
  have mono : ∀ {q}, s.withdrawn q = true → Function.update s.withdrawn p true q = true := by
    intro q h
    rw [Function.update_apply]
    split
    · rfl
    · exact h
  refine ⟨fun {l q} h => ?_, fun h => ?_, fun hf => ⟨mono (sf.gone hf).1, (sf.gone hf).2⟩, fun {t' q e} hq hr => ?_,
    sf.past, fun {t1 v cs t' q e} hb hq hr lt => ?_⟩
  · have ne : q ≠ p := fun e => out l (e ▸ h)
    simp only [Function.update_of_ne ne]
    exact sf.loc h
  · rcases back h with e | h
    · cases e
      simp
    · exact ⟨mono (sf.known h).1, (sf.known h).2⟩
  · rcases back hr with e | hr
    · cases e
      have inside : s.guard t' = .inside := by
        by_contra out
        rw [an.out out] at hq
        cases hq
      exact an.slot inside
    · exact sf.kept hq hr
  · rcases back hr with e | hr
    · cases e
      have := sf.past hb
      omega
    · exact sf.scan hb hq hr lt

/-- A pass begins with the present epoch and all the slots. -/
lemma Safe.begin (sf : Safe w s) :
    Safe w { s with pass := Function.update s.pass t (.look s.globalEpoch w.participants) } := by
  have has : ∀ {r}, State.Has
      { s with pass := Function.update s.pass t (.look s.globalEpoch w.participants) } r → s.Has r := by
    intro r h
    exact h.of_pass (s := s) (t := t) rfl rfl (fun h => .inr (.inl ⟨_, h⟩))
      (fun h => .inr (.inr (.inl h))) (by rintro ⟨⟩)
  refine ⟨sf.loc, fun h => sf.known (has h), sf.gone, fun hp hr => sf.kept hp (has hr), fun hb => ?_,
    fun hb hp hr lt => ?_⟩
  · simp only [Function.update_apply] at hb
    split at hb
    · cases hb
      exact Nat.le_refl _
    · exact sf.past hb
  · simp only [Function.update_apply] at hb
    split at hb
    · cases hb
      exact w.registered _
    · exact sf.scan hb hp (has hr) lt

omit [DecidableEq θ] in
/-- A look at a slot does not raise the bound. -/
lemma State.lower_le (s : State θ κ ι π) (v : Nat) (c : κ) : s.lower v c ≤ v := by
  unfold State.lower
  split
  · exact Nat.min_le_left ..
  · exact Nat.le_refl _

omit [DecidableEq θ] in
/-- After a look at a slot the bound is at most what it announces. -/
lemma State.lower_le_slot {c : κ} (h : s.slot c = some e) : s.lower v c ≤ e := by
  unfold State.lower
  rw [h]
  exact Nat.min_le_right ..

/-- A pass comes past a slot. A reader there keeps the bound at or below what it protects. -/
lemma Safe.look [DecidableEq κ] {c : κ} {cs : List κ} (sf : Safe w s) (hs : s.pass t = .look v (c :: cs)) :
    Safe w { s with pass := Function.update s.pass t (.look (s.lower v c) cs) } := by
  have has : ∀ {r}, State.Has
      { s with pass := Function.update s.pass t (.look (s.lower v c) cs) } r → s.Has r := by
    intro r h
    exact h.of_pass (s := s) (t := t) rfl rfl (fun h => .inr (.inl ⟨_, h⟩))
      (fun h => .inr (.inr (.inl h))) (by rintro ⟨⟩)
  have bound : (s.pass t).bound = some (v, c :: cs) := by
    rw [hs]
    rfl
  refine ⟨sf.loc, fun h => sf.known (has h), sf.gone, fun hp hr => sf.kept hp (has hr), fun hb => ?_,
    fun {t1 v' cs' t' q e} hb hq hr lt => ?_⟩
  · simp only [Function.update_apply] at hb
    split at hb
    · cases hb
      exact (s.lower_le v c).trans (sf.past bound)
    · exact sf.past hb
  · simp only [Function.update_apply] at hb
    split at hb
    · cases hb
      rcases List.mem_cons.1 (sf.scan bound hq (has hr) (lt.trans_le (s.lower_le v c))) with hc | hc
      · obtain ⟨e1, le, hs⟩ := sf.kept hq (has hr)
        have := State.lower_le_slot (v := v) (hc ▸ hs)
        omega
      · exact hc
    · exact sf.scan hb hq (has hr) lt

/-- A retirement only moves the entry. -/
lemma has_of_retire {r r' : Retired π} (hs : s.stamp t = some r)
    (h : State.Has { s.retirePtr t r with stamp := Function.update s.stamp t none } r') : s.Has r' := by
  have back : ∀ {t'}, Function.update s.stamp t none t' = some r' → s.stamp t' = some r' := by
    intro t' h
    rw [Function.update_apply] at h
    split at h
    · cases h
    · exact h
  unfold State.retirePtr State.orphanEpochEntries at h
  split at h
  · rw [if_neg (List.cons_ne_nil r [])] at h
    rcases h with ⟨t', h⟩ | h | h | h
    · exact .inl ⟨t', back h⟩
    · exact .inr (.inl h)
    · rcases List.mem_append.1 h with h | h
      · exact .inr (.inr (.inl h))
      · rw [List.mem_singleton.1 h]
        exact .inl ⟨t, hs⟩
    · exact .inr (.inr (.inr h))
  · rcases h with ⟨t', h⟩ | ⟨t', h⟩ | h | h
    · exact .inl ⟨t', back h⟩
    · simp only [Function.update_apply] at h
      split at h
      · rcases List.mem_append.1 h with h | h
        · exact .inr (.inl ⟨t, h⟩)
        · rw [List.mem_singleton.1 h]
          exact .inl ⟨t, hs⟩
      · exact .inr (.inl ⟨t', h⟩)
    · exact .inr (.inr (.inl h))
    · exact .inr (.inr (.inr h))

/-- A thread that ends only moves its bag. -/
lemma has_of_exit {r : Retired π}
    (h : State.Has { s.orphanEpochEntries (s.bag t) with
      bag := Function.update s.bag t []
      bagDead := Function.update s.bagDead t true } r) : s.Has r := by
  have back : ∀ {t'}, r ∈ Function.update s.bag t [] t' → r ∈ s.bag t' := by
    intro t' h
    rw [Function.update_apply] at h
    split at h
    · cases h
    · exact h
  unfold State.orphanEpochEntries at h
  split at h
  · rcases h with h | ⟨t', h⟩ | h | h
    · exact .inl h
    · exact .inr (.inl ⟨t', back h⟩)
    · exact .inr (.inr (.inl h))
    · exact .inr (.inr (.inr h))
  · rcases h with h | ⟨t', h⟩ | h | h
    · exact .inl h
    · exact .inr (.inl ⟨t', back h⟩)
    · rcases List.mem_append.1 h with h | h
      · exact .inr (.inr (.inl h))
      · exact .inr (.inl ⟨t, h⟩)
    · exact .inr (.inr (.inr h))

omit [DecidableEq θ] in
/-- What a thread or the store has after an entry was put back. -/
lemma has_of_keep {r r' : Retired π} {rs : List (Retired π)} (items : (s.pass t).items = r :: rs)
    {l : List (Retired π)} (here : ∀ {x}, x ∈ l → s.Has x) (h : r' ∈ l ++ [r]) : s.Has r' := by
  rcases List.mem_append.1 h with h | h
  · exact here h
  · rw [List.mem_singleton.1 h]
    exact .inr (.inr (.inr ⟨t, items ▸ List.mem_cons_self⟩))

variable [DecidableEq κ] [DecidableEq ι] [DecidableEq π]

/-- A step under the condition keeps the readers safe. -/
lemma Safe.step (sf : Safe w s) (an : Announced w s) (ok : Alone w s a) (st : Step w s a u) :
    Safe w u := by
  have bag : ∀ {r t}, r ∈ s.bag t → s.Has r := fun h => .inr (.inl ⟨_, h⟩)
  have orphans : ∀ {r}, r ∈ s.orphans → s.Has r := fun h => .inr (.inr (.inl h))
  have item : ∀ {t r r' rs}, (s.pass t).items = r :: rs → r' ∈ rs → s.Has r' := fun e h =>
    .inr (.inr (.inr ⟨_, e ▸ List.mem_cons_of_mem _ h⟩))
  cases st with
  | load _ => exact ⟨sf.loc, sf.known, sf.gone, sf.kept, sf.past, sf.scan⟩
  | announce _ => exact sf.announce an ok
  | read _ hl => exact sf.read hl
  | clear h => exact sf.clear an h
  | @write l x h =>
    refine ⟨fun {l' p} hl => ?_, sf.known, sf.gone, sf.kept, sf.past, sf.scan⟩
    simp only [Function.update_apply] at hl
    split at hl
    · exact h p hl
    · exact sf.loc hl
  | stamp _ _ out => exact sf.stamp an out
  | @retire t r hs _ =>
    obtain ⟨b, o, c, e⟩ := s.retirePtr_eq t r
    have has : ∀ {r'}, State.Has { s.retirePtr t r with stamp := _ } r' → s.Has r' := has_of_retire hs
    rw [e] at has ⊢
    exact sf.frame rfl rfl rfl rfl (Nat.le_refl _) has (fun h => ⟨_, h⟩) .inl
  | advance =>
    exact sf.frame rfl rfl rfl rfl (Nat.le_succ _) id (fun h => ⟨_, h⟩) .inl
  | scan _ _ _ => exact sf.begin
  | look hs => exact sf.look hs
  | @own t v hs =>
    refine sf.pass (t := t) ?_ rfl rfl rfl rfl rfl rfl rfl (fun {r t'} h => ?_) orphans bag .inl
    · rw [hs]
      exact id
    · simp only [Function.update_apply] at h
      split at h
      · cases h
      · exact bag h
  | @ownDelete t v r rs hs lt =>
    have items : (s.pass t).items = r :: rs := by rw [hs]; rfl
    refine sf.pass (t := t) ?_ rfl rfl rfl rfl rfl rfl rfl bag orphans (item items)
      (sf.freed_of_delete (t := t) (by rw [hs]; rfl) items lt)
    rw [hs]
    exact id
  | @ownKeep t v r rs hs _ =>
    have items : (s.pass t).items = r :: rs := by rw [hs]; rfl
    refine sf.pass (t := t) ?_ rfl rfl rfl rfl rfl rfl rfl (fun {r t'} h => ?_) orphans (item items)
      .inl
    · rw [hs]
      exact id
    · simp only [Function.update_apply] at h
      split at h
      · exact has_of_keep items bag h
      · exact bag h
  | @ownEnd t v hs _ =>
    exact sf.pass (t := t) (by rintro _ ⟨⟩) rfl rfl rfl rfl rfl rfl rfl bag orphans (by rintro _ ⟨⟩)
      .inl
  | @orphan t v hs _ _ =>
    refine sf.pass (t := t) ?_ rfl rfl rfl rfl rfl rfl rfl bag (by rintro _ ⟨⟩) orphans .inl
    rw [hs]
    exact id
  | @orphanDelete t v r rs hs lt =>
    have items : (s.pass t).items = r :: rs := by rw [hs]; rfl
    refine sf.pass (t := t) ?_ rfl rfl rfl rfl rfl rfl rfl bag orphans (item items)
      (sf.freed_of_delete (t := t) (by rw [hs]; rfl) items lt)
    rw [hs]
    exact id
  | @orphanKeep t v r rs hs _ =>
    have items : (s.pass t).items = r :: rs := by rw [hs]; rfl
    refine sf.pass (t := t) ?_ rfl rfl rfl rfl rfl rfl rfl bag (has_of_keep items orphans)
      (item items) .inl
    rw [hs]
    exact id
  | @orphanEnd t v hs =>
    exact sf.pass (t := t) (by rintro _ ⟨⟩) rfl rfl rfl rfl rfl rfl rfl bag orphans (by rintro _ ⟨⟩)
      .inl
  | @exit t _ _ =>
    obtain ⟨o, c, e⟩ := s.orphanEpochEntries_eq (s.bag t)
    have has : ∀ {r}, State.Has { s.orphanEpochEntries (s.bag t) with bag := _, bagDead := _ } r → s.Has r :=
      has_of_exit
    rw [e] at has ⊢
    exact sf.frame rfl rfl rfl rfl (Nat.le_refl _) has (fun h => ⟨_, h⟩) .inl

/-- Where no guard is announced on the slot of another one, no object that a reader obtained in a guard
which it still has is deleted. -/
theorem no_deleter_under_reader (rn : Runs (Step w) (Alone w) ({} : State θ κ ι π) s) {t : θ} {p : π}
    (obtained : p ∈ s.got t) : s.freed p = false := by
  have inv : Announced w s ∧ Safe w s := by
    refine rn.invariant (I := fun s => Announced w s ∧ Safe w s) ⟨.init w, .init w⟩ fun inv ok st => ?_
    exact ⟨inv.1.step ok st, inv.2.step inv.1 ok st⟩
  apply Bool.eq_false_iff.2
  intro hf
  exact (inv.2.gone hf).2 t obtained

/-- Where each thread has a slot of its own, every step meets the condition. -/
lemma alone_of_injective (inj : Function.Injective w.slotOf) (st : Step w s a u) : Alone w s a := by
  cases st with
  | @announce t e h =>
    intro t' hc
    rw [inj hc, h]
    nofun
  | _ => trivial

/-- Where the slots are distinct, every run meets the condition. -/
lemma alone_of_reaches (inj : Function.Injective w.slotOf) (rn : Reaches (Step w) s u) :
    Runs (Step w) (Alone w) s u := by
  induction rn with
  | refl => exact .refl
  | tail _ _ st ih => exact ih.tail (alone_of_injective inj st) st

/-- Two threads of the pool. -/
def pool : Setup Bool Bool where
  slotOf := id
  participants := [false, true]
  registered t := by cases t <;> simp

/-- A reader obtains object 0. Then the object is replaced by object 1 and retired, and the pass of the
writer keeps it: the reader has announced the epoch of its retirement. -/
theorem no_deleter_under_reader_pool :
    ∃ s : State Bool Bool Unit Nat, Runs (Step pool) (Alone pool) {} s ∧ 0 ∈ s.got false ∧
      s.pass true = .idle ∧ s.bag true = [(0, 0)] ∧ s.freed 0 = false := by
  have r : Reaches (Step pool) ({} : State Bool Bool Unit Nat) _ := .refl
  have r1 := r.next (.write () (some 0)) trivial (.write (by simp))
  have r2 := r1.next (.load false) trivial (.load rfl)
  have r3 := r2.next (.announce false) trivial (.announce rfl)
  have r4 := r3.next (.read false) trivial (.read (l := ()) rfl rfl)
  have r5 := r4.next (.write () (some 1)) trivial (.write (by simp))
  have r6 := r5.next (.stamp true 0) trivial (.stamp rfl rfl (by simp))
  have r7 := r6.next (.retire true) trivial (.retire rfl nofun)
  have r8 := r7.next .advance trivial .advance
  have r9 := r8.next (.reclaim true) trivial (.scan rfl rfl (by rintro ⟨⟨⟩, -⟩))
  have r10 := r9.next (.reclaim true) trivial (.look rfl)
  have r11 := r10.next (.reclaim true) trivial (.look rfl)
  have r12 := r11.next (.reclaim true) trivial (.own rfl)
  have r13 := r12.next (.reclaim true) trivial (.ownKeep rfl (by decide))
  have r14 := r13.next (.reclaim true) trivial (.ownEnd rfl rfl)
  have rn := alone_of_reaches Function.injective_id r14
  have obtained : 0 ∈ [0] := List.mem_cons_self
  exact ⟨_, rn, obtained, rfl, rfl, no_deleter_under_reader rn (t := false) (p := 0) obtained⟩

/-- A worker, a thread that the pool did not start and that has the worker's slot, and the main thread. -/
def aliased : Setup Nat Nat where
  slotOf t := if t < 2 then 0 else 1
  participants := [0, 1]
  registered t := by split <;> simp

/-- The worker obtains the object. The second thread constructs and destroys a guard, and the slot reads
as not announced. The main thread takes the object out, retires it and ticks. -/
theorem deleted_under_reader :
    ∃ s : State Nat Nat Unit Nat, Reaches (Step aliased) {} s ∧ s.guard 0 = .inside ∧ 0 ∈ s.got 0 ∧
      s.freed 0 = true := by
  have r : Reaches (Step aliased) ({} : State Nat Nat Unit Nat) _ := .refl
  have r1 := r.next (.write () (some 0)) trivial (.write (by simp))
  have r2 := r1.next (.load 0) trivial (.load rfl)
  have r3 := r2.next (.announce 0) trivial (.announce rfl)
  have r4 := r3.next (.read 0) trivial (.read (l := ()) rfl rfl)
  have r5 := r4.next (.load 1) trivial (.load rfl)
  have r6 := r5.next (.announce 1) trivial (.announce rfl)
  have r7 := r6.next (.clear 1) trivial (.clear rfl)
  have r8 := r7.next (.write () none) trivial (.write (by simp))
  have r9 := r8.next (.stamp 2 0) trivial (.stamp rfl rfl nofun)
  have r10 := r9.next (.retire 2) trivial (.retire rfl nofun)
  have r11 := r10.next .advance trivial .advance
  have r12 := r11.next (.reclaim 2) trivial (.scan rfl rfl (by rintro ⟨⟨⟩, -⟩))
  have r13 := r12.next (.reclaim 2) trivial (.look rfl)
  have r14 := r13.next (.reclaim 2) trivial (.look rfl)
  have r15 := r14.next (.reclaim 2) trivial (.own rfl)
  have r16 := r15.next (.reclaim 2) trivial (.ownDelete rfl (by decide))
  exact ⟨_, r16, rfl, List.mem_cons_self, rfl⟩

end JLib.Epochs
