import JLib.Epochs.Safe
import JLib.LTS.Stock

/-!
# What a `Tick` frees

`TryReclaim` looks at the bag of the thread that calls it and at the store of the threads that ended.
When no guard is announced its bound is the new epoch, so it frees everything there. Of the bag of another
thread it frees nothing, however often it is called.
-/

namespace JLib.Epochs
open LTS State

variable {θ κ ι π : Type}
  {w : Setup θ κ} {s u : State θ κ ι π} {a : Label θ ι π} {t : θ} {p : π}

/-! ## `Tick` in steps -/

/-- An old entry is deleted first. -/
lemma State.delete_eq_deleteOld [DecidableEq π] {r : Retired π} {v : Nat} (lt : r.2 < v) (rs : List (Retired π)) :
    (s.delete r.1).deleteOld v rs = s.deleteOld v (r :: rs) := by
  unfold State.delete State.deleteOld
  congr 1
  funext p
  by_cases h : p = r.1
  · simp [h, lt]
  · simp [h, Ne.symm h]

/-- A young entry is not deleted. -/
lemma State.deleteOld_young [DecidableEq π] {r : Retired π} {v : Nat} (ge : ¬r.2 < v) (rs : List (Retired π)) :
    s.deleteOld v (r :: rs) = s.deleteOld v rs := by
  simp [State.deleteOld, ge]

variable [DecidableEq θ]

/-- An old entry is not kept. -/
lemma State.kept_old {r : Retired π} {v : Nat} (lt : r.2 < v) (rs : List (Retired π)) :
    kept v (r :: rs) = kept v rs :=
  List.filter_cons_of_neg (by simpa using lt)

/-- A young entry is kept. -/
lemma State.kept_young {r : Retired π} {v : Nat} (ge : ¬r.2 < v) (rs : List (Retired π)) :
    kept v (r :: rs) = r :: kept v rs :=
  List.filter_cons_of_pos (by simpa using ge)

/-- The steps of `MinActiveEpoch`. -/
lemma look_reaches [DecidableEq π] [DecidableEq κ] [DecidableEq ι] (w : Setup θ κ) (t : θ) (cs : List κ)
    (s : State θ κ ι π) {v : Nat} (h : s.pass t = .look v cs) :
    Reaches (Step w) s { s with pass := Function.update s.pass t (.look (cs.foldl s.lower v) []) } := by
  induction cs generalizing s v with
  | nil =>
    rw [List.foldl_nil, ← h, Function.update_eq_self]
    exact .refl
  | cons c cs ih =>
    have first : Reaches (Step w) s _ := Runs.refl.next (.reclaim t) trivial (.look h)
    have rest := ih { s with pass := Function.update s.pass t (.look (s.lower v c) cs) }
      (Function.update_self ..)
    simp only [Function.update_idem] at rest
    exact first.trans rest

/-- The steps of the loop over the thread's own bag. -/
lemma own_reaches [DecidableEq π] [DecidableEq κ] [DecidableEq ι] (w : Setup θ κ) (t : θ) (v : Nat)
    (rs : List (Retired π)) (s : State θ κ ι π) (h : s.pass t = .own v rs) :
    Reaches (Step w) s { s.deleteOld v rs with
      pass := Function.update s.pass t (.own v [])
      bag := Function.update s.bag t (s.bag t ++ kept v rs) } := by
  induction rs generalizing s with
  | nil =>
    have : kept v ([] : List (Retired π)) = [] := rfl
    rw [this, List.append_nil, Function.update_eq_self, ← h, Function.update_eq_self]
    simp only [State.deleteOld, List.any_nil, Bool.or_false]
    exact .refl
  | cons r rs ih =>
    by_cases lt : r.2 < v
    · have first : Reaches (Step w) s _ := Runs.refl.next (.reclaim t) trivial (.ownDelete h lt)
      have rest := ih { s.delete r.1 with pass := Function.update s.pass t (.own v rs) }
        (Function.update_self ..)
      rw [State.kept_old lt, ← State.delete_eq_deleteOld lt]
      simp only [Function.update_idem, State.deleteOld, State.delete] at rest ⊢
      exact first.trans rest
    · have first : Reaches (Step w) s _ := Runs.refl.next (.reclaim t) trivial (.ownKeep h lt)
      have rest := ih
        { s with
          pass := Function.update s.pass t (.own v rs)
          bag := Function.update s.bag t (s.bag t ++ [r]) } (Function.update_self ..)
      rw [State.kept_young lt, List.append_cons, State.deleteOld_young lt]
      simp only [Function.update_idem, Function.update_self, State.deleteOld] at rest ⊢
      exact first.trans rest

/-- The steps of `SweepEpochOrphans`. -/
lemma orphan_reaches [DecidableEq π] [DecidableEq κ] [DecidableEq ι] (w : Setup θ κ) (t : θ) (v : Nat)
    (rs : List (Retired π)) (s : State θ κ ι π) (h : s.pass t = .orphan v rs) :
    Reaches (Step w) s { s.deleteOld v rs with
      pass := Function.update s.pass t (.orphan v [])
      orphans := s.orphans ++ kept v rs } := by
  induction rs generalizing s with
  | nil =>
    have : kept v ([] : List (Retired π)) = [] := rfl
    rw [this, List.append_nil, ← h, Function.update_eq_self]
    simp only [State.deleteOld, List.any_nil, Bool.or_false]
    exact .refl
  | cons r rs ih =>
    by_cases lt : r.2 < v
    · have first : Reaches (Step w) s _ := Runs.refl.next (.reclaim t) trivial (.orphanDelete h lt)
      have rest := ih { s.delete r.1 with pass := Function.update s.pass t (.orphan v rs) }
        (Function.update_self ..)
      rw [State.kept_old lt, ← State.delete_eq_deleteOld lt]
      simp only [Function.update_idem, State.deleteOld, State.delete] at rest ⊢
      exact first.trans rest
    · have first : Reaches (Step w) s _ := Runs.refl.next (.reclaim t) trivial (.orphanKeep h lt)
      have rest := ih
        { s with pass := Function.update s.pass t (.orphan v rs), orphans := s.orphans ++ [r] }
        (Function.update_self ..)
      rw [State.kept_young lt, List.append_cons, State.deleteOld_young lt]
      simp only [Function.update_idem, State.deleteOld] at rest ⊢
      exact first.trans rest

/-- `TryReclaim` is a run of the steps. -/
lemma tryReclaim_reaches [DecidableEq π] [DecidableEq κ] [DecidableEq ι] (w : Setup θ κ) (t : θ) (s : State θ κ ι π)
    (idle : s.pass t = .idle)
    (live : s.bagDead t = false) (unlocked : s.Unlocked) : Reaches (Step w) s (s.tryReclaim w t) := by
  unfold State.tryReclaim
  split
  · exact .refl
  · rename_i some
    have r1 : Reaches (Step w) s _ := Runs.refl.next (.reclaim t) trivial (.scan idle live some)
    have r2 := r1.trans (look_reaches w t w.participants _ (Function.update_self ..))
    have r3 := r2.next (.reclaim t) trivial (.own (Function.update_self ..))
    have r4 := r3.trans (own_reaches w t _ (s.bag t) _ (Function.update_self ..))
    simp only [Function.update_idem, Function.update_self, List.nil_append, State.deleteOld] at r4
    by_cases count : s.orphanCount = 0
    · have r5 := r4.next (.reclaim t) trivial (.ownEnd (Function.update_self ..) count)
      simp only [Function.update_idem] at r5
      rw [← idle, Function.update_eq_self] at r5
      simp only [count, ne_eq, not_true_eq_false, if_false]
      exact r5
    · have free : ∀ t' v rs, Function.update s.pass t (.own (s.minActiveEpoch w) []) t' ≠ .orphan v rs := by
        intro t' v rs
        rw [Function.update_apply]
        split
        · nofun
        · exact unlocked t' v rs
      have r5 := r4.next (.reclaim t) trivial (.orphan (Function.update_self ..) count free)
      have r6 := r5.trans (orphan_reaches w t _ s.orphans _ (Function.update_self ..))
      have r7 := r6.next (.reclaim t) trivial (.orphanEnd (Function.update_self ..))
      simp only [Function.update_idem, List.nil_append, State.deleteOld] at r7
      rw [← idle, Function.update_eq_self] at r7
      rw [if_pos count]
      exact r7

/-- `Tick` is a run of the steps. -/
lemma tick_reaches [DecidableEq π] [DecidableEq κ] [DecidableEq ι] (w : Setup θ κ) (t : θ) (s : State θ κ ι π)
    (idle : s.pass t = .idle)
    (live : s.bagDead t = false) (unlocked : s.Unlocked) : Reaches (Step w) s (s.tick w t) := by
  have r1 : Reaches (Step w) s _ := Runs.refl.next .advance trivial .advance
  exact r1.trans (tryReclaim_reaches w t { s with globalEpoch := s.globalEpoch + 1 } idle live unlocked)

/-! ## Where the objects are -/

/-- The places an object has between its withdrawal and its deletion. -/
inductive Place (θ : Type) where
  | stamp (t : θ)
  | bag (t : θ)
  | pass (t : θ)
  | store
  deriving DecidableEq

/-- The entries at each place. -/
def State.entries (s : State θ κ ι π) : Place θ → List (Retired π)
  | .stamp t => (s.stamp t).toList
  | .bag t => s.bag t
  | .pass t => (s.pass t).items
  | .store => s.orphans

/-- The objects at each place. -/
def State.held (s : State θ κ ι π) (q : Place θ) : List π :=
  (s.entries q).map Prod.fst

/-- A withdrawn object is at one place until its deleter runs. -/
abbrev Kept (s : State θ κ ι π) : Prop :=
  Stock s.held s.withdrawn s.freed

omit [DecidableEq θ] in
/-- Nothing was withdrawn. -/
lemma Kept.init : Kept ({} : State θ κ ι π) := by
  apply Stock.empty
  · rintro (t | t | t | _) <;> rfl
  · exact fun _ => rfl
  · exact fun _ => rfl

omit [DecidableEq θ] in
/-- Nothing changes its place. -/
lemma Kept.same (k : Kept s) (entries : u.entries = s.entries) (withdrawn : u.withdrawn = s.withdrawn)
    (freed : u.freed = s.freed) : Kept u := by
  have held : u.held = s.held := by
    funext q
    rw [State.held, State.held, entries]
  rw [Kept, held, withdrawn, freed]
  exact k

omit [DecidableEq θ] in
/-- Entries change their place. -/
lemma Kept.move {q r : Place θ} (k : Kept s) (ne : q ≠ r)
    (frame : ∀ x, x ≠ q → x ≠ r → u.entries x = s.entries x)
    (perm : (u.entries q ++ u.entries r).Perm (s.entries q ++ s.entries r))
    (withdrawn : u.withdrawn = s.withdrawn) (freed : u.freed = s.freed) : Kept u := by
  have mv : Custody.Moved s.entries u.entries := ⟨q, r, ne, frame, perm⟩
  rw [Kept, withdrawn, freed]
  exact Stock.move k (mv.map Prod.fst)

/-- The frame of a move between two places, one of them the pass of a thread. -/
lemma entries_of_pass {x : Pass κ π} {q' : Place θ} (pass : u.pass = Function.update s.pass t x)
    (stamp : u.stamp = s.stamp) (bag : ∀ t', Place.bag t' ≠ q' → u.bag t' = s.bag t')
    (store : Place.store ≠ q' → u.orphans = s.orphans) :
    ∀ q, q ≠ .pass t → q ≠ q' → u.entries q = s.entries q := by
  rintro (t' | t' | t' | _) ne ne'
  · rw [State.entries, State.entries, stamp]
  · exact bag t' ne'
  · have : t' ≠ t := fun e => ne (e ▸ rfl)
    rw [State.entries, State.entries, pass, Function.update_of_ne this]
  · exact store ne'

/-- A pass changes its state and none of the entries it has. -/
lemma entries_of_same {x : Pass κ π} (pass : u.pass = Function.update s.pass t x)
    (items : x.items = (s.pass t).items) (stamp : u.stamp = s.stamp) (bag : u.bag = s.bag)
    (store : u.orphans = s.orphans) : u.entries = s.entries := by
  funext q
  cases q with
  | stamp t' => rw [State.entries, State.entries, stamp]
  | bag t' => rw [State.entries, State.entries, bag]
  | pass t' =>
    rw [State.entries, State.entries, pass, Function.update_apply]
    split
    · rename_i e
      rw [e, items]
    · rfl
  | store => exact store

/-- The deleter of the first entry of a pass runs. -/
lemma Kept.delete [DecidableEq π] {x : Pass κ π} {r : Retired π} (k : Kept s) (before : (s.pass t).items = r :: x.items)
    (pass : u.pass = Function.update s.pass t x) (stamp : u.stamp = s.stamp) (bag : u.bag = s.bag)
    (store : u.orphans = s.orphans) (withdrawn : u.withdrawn = s.withdrawn)
    (freed : u.freed = Function.update s.freed r.1 true) : Kept u := by
  rw [Kept, withdrawn, freed]
  apply Stock.spend k (p := .pass t)
  · intro q h
    have same := entries_of_pass pass stamp (fun t' _ => congrFun bag t') (fun _ => store) q h h
    rw [State.held, State.held, same]
  · simp only [State.held, State.entries, before, pass, Function.update_self, List.map_cons]
    exact .refl _

/-- An object is withdrawn. -/
lemma Kept.stamp [DecidableEq π] {e : Nat} (k : Kept s) (free : s.stamp t = none) (new : s.withdrawn p = false) :
    Kept { s with
      withdrawn := Function.update s.withdrawn p true
      stamp := Function.update s.stamp t (some (p, e)) } := by
  apply Stock.put k (p := .stamp t) new
  · rintro (t' | t' | t' | _) ne
    · have : t' ≠ t := fun e => ne (e ▸ rfl)
      simp only [State.held, State.entries, Function.update_of_ne this]
    all_goals rfl
  · simp [State.held, State.entries, free]

/-- A step keeps every withdrawn object at one place. -/
lemma Kept.step [DecidableEq π] [DecidableEq κ] [DecidableEq ι] (k : Kept s) (st : Step w s a u) : Kept u := by
  have bagOf : ∀ {t l} t', Place.bag t' ≠ .bag t → Function.update s.bag t l t' = s.bag t' := by
    intro t l t' ne
    apply Function.update_of_ne
    rintro rfl
    exact ne rfl
  cases st with
  | load _ => exact k.same rfl rfl rfl
  | announce _ => exact k.same rfl rfl rfl
  | read _ _ => exact k.same rfl rfl rfl
  | clear _ => exact k.same rfl rfl rfl
  | write _ => exact k.same rfl rfl rfl
  | stamp free new _ => exact k.stamp free new
  | @retire t r hs _ =>
    have frame : ∀ {t'} {x : Option (Retired π)}, Place.stamp t' ≠ .stamp t →
        Function.update s.stamp t x t' = s.stamp t' := by
      intro t' x ne
      apply Function.update_of_ne
      rintro rfl
      exact ne rfl
    unfold State.retirePtr State.orphanEpochEntries
    split
    · rw [if_neg (List.cons_ne_nil r [])]
      refine k.move (q := .stamp t) (r := .store) nofun ?_ ?_ rfl rfl
      · rintro (t' | t' | t' | _) ne ne'
        · exact congrArg Option.toList (frame ne)
        · rfl
        · rfl
        · exact absurd rfl ne'
      · simp only [State.entries, Function.update_self, hs, Option.toList, List.nil_append]
        exact List.perm_append_comm
    · refine k.move (q := .stamp t) (r := .bag t) nofun ?_ ?_ rfl rfl
      · rintro (t' | t' | t' | _) ne ne'
        · exact congrArg Option.toList (frame ne)
        · exact bagOf t' ne'
        · rfl
        · rfl
      · simp only [State.entries, Function.update_self, hs, Option.toList, List.nil_append]
        exact List.perm_append_comm
  | advance => exact k.same rfl rfl rfl
  | @scan t hs _ _ =>
    refine k.same (entries_of_same (t := t) rfl ?_ rfl rfl rfl) rfl rfl
    rw [hs]
    rfl
  | @look t v c cs hs =>
    refine k.same (entries_of_same (t := t) rfl ?_ rfl rfl rfl) rfl rfl
    rw [hs]
    rfl
  | @own t v hs =>
    refine k.move (q := .pass t) (r := .bag t) nofun
      (entries_of_pass rfl rfl bagOf fun _ => rfl) ?_ rfl rfl
    simp only [State.entries, Function.update_self, hs, Pass.items]
    exact List.perm_append_comm
  | @ownDelete t v r rs hs _ =>
    refine k.delete (t := t) (r := r) ?_ rfl rfl rfl rfl rfl rfl
    rw [hs]
    rfl
  | @ownKeep t v r rs hs _ =>
    refine k.move (q := .pass t) (r := .bag t) nofun
      (entries_of_pass rfl rfl bagOf fun _ => rfl) ?_ rfl rfl
    simp only [State.entries, Function.update_self, hs, Pass.items]
    rw [← List.append_assoc]
    exact List.perm_append_singleton r (rs ++ s.bag t)
  | @ownEnd t v hs _ =>
    refine k.same (entries_of_same (t := t) rfl ?_ rfl rfl rfl) rfl rfl
    rw [hs]
    rfl
  | @orphan t v hs _ _ =>
    refine k.move (q := .pass t) (r := .store) nofun
      (entries_of_pass rfl rfl (fun _ _ => rfl) fun ne => absurd rfl ne) ?_ rfl rfl
    simp only [State.entries, Function.update_self, hs, Pass.items]
    exact List.perm_append_comm
  | @orphanDelete t v r rs hs _ =>
    refine k.delete (t := t) (r := r) ?_ rfl rfl rfl rfl rfl rfl
    rw [hs]
    rfl
  | @orphanKeep t v r rs hs _ =>
    refine k.move (q := .pass t) (r := .store) nofun
      (entries_of_pass rfl rfl (fun _ _ => rfl) fun ne => absurd rfl ne) ?_ rfl rfl
    simp only [State.entries, Function.update_self, hs, Pass.items]
    rw [← List.append_assoc]
    exact List.perm_append_singleton r (rs ++ s.orphans)
  | @orphanEnd t v hs =>
    refine k.same (entries_of_same (t := t) rfl ?_ rfl rfl rfl) rfl rfl
    rw [hs]
    rfl
  | @exit t _ _ =>
    unfold State.orphanEpochEntries
    have frame : ∀ {o c} {d : θ → Bool} x, x ≠ .bag t → x ≠ .store →
        State.entries { s with orphans := o, orphanCount := c, bag := Function.update s.bag t [], bagDead := d } x =
          s.entries x := by
      rintro o c d (t' | t' | t' | _) ne ne'
      · rfl
      · exact bagOf t' ne
      · rfl
      · exact absurd rfl ne'
    split
    · rename_i empty
      refine k.move (q := .bag t) (r := .store) nofun frame ?_ rfl rfl
      simp only [State.entries, Function.update_self, empty]
      exact .refl _
    · refine k.move (q := .bag t) (r := .store) nofun frame ?_ rfl rfl
      simp only [State.entries, Function.update_self, List.nil_append]
      exact List.perm_append_comm

/-! ## The bound and the count -/

/-- An announcement is of a guard, the count is of the store, and an entry has an epoch of the past. -/
structure Settled (w : Setup θ κ) (s : State θ κ ι π) : Prop where
  slot : ∀ {c e}, s.slot c = some e → ∃ t, w.slotOf t = c ∧ s.guard t = .inside
  count : s.Unlocked → s.orphanCount = s.orphans.length
  past : ∀ {r}, s.Has r → r.2 ≤ s.globalEpoch

omit [DecidableEq θ] in
/-- Nobody is announced and nothing was retired. -/
lemma Settled.init (w : Setup θ κ) : Settled w ({} : State θ κ ι π) := by
  refine ⟨nofun, fun _ => rfl, ?_⟩
  rintro r (⟨_, h⟩ | ⟨_, h⟩ | h | ⟨_, h⟩) <;> cases h

omit [DecidableEq θ] in
/-- Neither the guards nor the slots change. -/
lemma Settled.frame (sd : Settled w s) (slot : u.slot = s.slot) (guard : u.guard = s.guard)
    (epoch : s.globalEpoch ≤ u.globalEpoch) (has : ∀ {r}, u.Has r → s.Has r)
    (count : u.Unlocked → u.orphanCount = u.orphans.length) : Settled w u := by
  refine ⟨fun h => ?_, count, fun h => (sd.past (has h)).trans epoch⟩
  rw [slot] at h
  rw [guard]
  exact sd.slot h

/-- A pass that does not have the lock takes no lock from another thread. -/
lemma unlocked_of_pass {x : Pass κ π} (pass : u.pass = Function.update s.pass t x)
    (mine : ∀ v rs, s.pass t ≠ .orphan v rs) (h : u.Unlocked) : s.Unlocked := by
  intro t' v rs
  by_cases e : t' = t
  · subst e
    exact mine v rs
  · have := h t' v rs
    rwa [pass, Function.update_of_ne e] at this

/-- A pass outside the store takes one step. -/
lemma Settled.pass {x : Pass κ π} (sd : Settled w s) (mine : ∀ v rs, s.pass t ≠ .orphan v rs)
    (pass : u.pass = Function.update s.pass t x) (slot : u.slot = s.slot) (guard : u.guard = s.guard)
    (epoch : u.globalEpoch = s.globalEpoch) (stamp : u.stamp = s.stamp) (store : u.orphans = s.orphans)
    (size : u.orphanCount = s.orphanCount) (bag : ∀ {r t}, r ∈ u.bag t → s.Has r)
    (items : ∀ {r}, r ∈ x.items → s.Has r) : Settled w u := by
  apply sd.frame slot guard (Nat.le_of_eq epoch.symm)
  · intro r h
    refine h.of_pass pass stamp bag (fun h => ?_) items
    rw [store] at h
    exact .inr (.inr (.inl h))
  · intro h
    rw [size, store]
    exact sd.count (unlocked_of_pass pass mine h)

/-- A thread in the store takes one step and keeps the lock. -/
lemma Settled.locked {x : Pass κ π} {v : Nat} {rs : List (Retired π)} (sd : Settled w s)
    (lock : x = .orphan v rs) (pass : u.pass = Function.update s.pass t x) (slot : u.slot = s.slot)
    (guard : u.guard = s.guard) (epoch : u.globalEpoch = s.globalEpoch) (stamp : u.stamp = s.stamp)
    (bag : u.bag = s.bag) (store : ∀ {r}, r ∈ u.orphans → s.Has r)
    (items : ∀ {r}, r ∈ rs → s.Has r) : Settled w u := by
  subst lock
  apply sd.frame slot guard (Nat.le_of_eq epoch.symm)
  · intro r h
    refine h.of_pass pass stamp (fun {t'} h => ?_) store items
    rw [bag] at h
    exact .inr (.inl ⟨t', h⟩)
  · intro h
    have := h t v rs
    rw [pass, Function.update_self] at this
    exact absurd rfl this

/-- A step keeps the announcements, the count and the epochs settled. -/
lemma Settled.step [DecidableEq π] [DecidableEq κ] [DecidableEq ι] (sd : Settled w s) (st : Step w s a u) :
    Settled w u := by
  have bag : ∀ {r t}, r ∈ s.bag t → s.Has r := fun h => .inr (.inl ⟨_, h⟩)
  have orphans : ∀ {r}, r ∈ s.orphans → s.Has r := fun h => .inr (.inr (.inl h))
  have item : ∀ {t r r' rs}, (s.pass t).items = r :: rs → r' ∈ rs → s.Has r' := fun e h =>
    .inr (.inr (.inr ⟨_, e ▸ List.mem_cons_of_mem _ h⟩))
  cases st with
  | @load t h =>
    refine ⟨fun {c e} hc => ?_, sd.count, sd.past⟩
    obtain ⟨t', e', hi⟩ := sd.slot hc
    refine ⟨t', e', ?_⟩
    have ne : t' ≠ t := by
      rintro rfl
      rw [h] at hi
      cases hi
    simp only [Function.update_of_ne ne, hi]
  | @announce t e h =>
    refine ⟨fun {c e} hc => ?_, sd.count, sd.past⟩
    simp only [Function.update_apply] at hc ⊢
    split at hc
    · rename_i e'
      exact ⟨t, e'.symm, if_pos rfl⟩
    · obtain ⟨t', e', hi⟩ := sd.slot hc
      exact ⟨t', e', by rw [hi, ite_self]⟩
  | read _ _ => exact ⟨sd.slot, sd.count, sd.past⟩
  | @clear t h =>
    refine ⟨fun {c e} hc => ?_, sd.count, sd.past⟩
    simp only [Function.update_apply] at hc ⊢
    split at hc
    · cases hc
    · rename_i ne
      obtain ⟨t', e', hi⟩ := sd.slot hc
      refine ⟨t', e', ?_⟩
      rw [if_neg, hi]
      rintro rfl
      exact ne e'.symm
  | write _ => exact ⟨sd.slot, sd.count, sd.past⟩
  | @stamp t p _ _ _ =>
    refine ⟨sd.slot, sd.count, fun {r} h => ?_⟩
    rcases h with ⟨t', h⟩ | h | h | h
    · simp only [Function.update_apply] at h
      split at h
      · cases h
        exact Nat.le_refl _
      · exact sd.past (.inl ⟨t', h⟩)
    · exact sd.past (.inr (.inl h))
    · exact sd.past (.inr (.inr (.inl h)))
    · exact sd.past (.inr (.inr (.inr h)))
  | @retire t r hs lock =>
    have has : ∀ {r'}, State.Has { s.retirePtr t r with stamp := _ } r' → s.Has r' := has_of_retire hs
    unfold State.retirePtr State.orphanEpochEntries at has ⊢
    split at has <;> rename_i dead
    · rw [if_neg (List.cons_ne_nil r [])] at has
      rw [if_pos dead, if_neg (List.cons_ne_nil r [])]
      exact sd.frame rfl rfl (Nat.le_refl _) has fun _ => rfl
    · rw [if_neg dead]
      exact sd.frame rfl rfl (Nat.le_refl _) has sd.count
  | advance => exact sd.frame rfl rfl (Nat.le_succ _) id sd.count
  | @scan t hs _ _ =>
    exact sd.pass (t := t) (by rw [hs]; nofun) rfl rfl rfl rfl rfl rfl rfl bag (by rintro _ ⟨⟩)
  | @look t v c cs hs =>
    exact sd.pass (t := t) (by rw [hs]; nofun) rfl rfl rfl rfl rfl rfl rfl bag (by rintro _ ⟨⟩)
  | @own t v hs =>
    refine sd.pass (t := t) (by rw [hs]; nofun) rfl rfl rfl rfl rfl rfl rfl (fun {r t'} h => ?_) bag
    simp only [Function.update_apply] at h
    split at h
    · cases h
    · exact bag h
  | @ownDelete t v r rs hs _ =>
    have items : (s.pass t).items = r :: rs := by rw [hs]; rfl
    exact sd.pass (t := t) (by rw [hs]; nofun) rfl rfl rfl rfl rfl rfl rfl bag (item items)
  | @ownKeep t v r rs hs _ =>
    have items : (s.pass t).items = r :: rs := by rw [hs]; rfl
    refine sd.pass (t := t) (by rw [hs]; nofun) rfl rfl rfl rfl rfl rfl rfl (fun {r t'} h => ?_)
      (item items)
    simp only [Function.update_apply] at h
    split at h
    · exact has_of_keep items bag h
    · exact bag h
  | @ownEnd t v hs _ =>
    exact sd.pass (t := t) (by rw [hs]; nofun) rfl rfl rfl rfl rfl rfl rfl bag (by rintro _ ⟨⟩)
  | @orphan t v hs _ _ =>
    exact sd.locked (t := t) rfl rfl rfl rfl rfl rfl rfl (by rintro _ ⟨⟩) orphans
  | @orphanDelete t v r rs hs _ =>
    have items : (s.pass t).items = r :: rs := by rw [hs]; rfl
    exact sd.locked (t := t) rfl rfl rfl rfl rfl rfl rfl orphans (item items)
  | @orphanKeep t v r rs hs _ =>
    have items : (s.pass t).items = r :: rs := by rw [hs]; rfl
    exact sd.locked (t := t) rfl rfl rfl rfl rfl rfl rfl (has_of_keep items orphans) (item items)
  | @orphanEnd t v hs =>
    refine sd.frame rfl rfl (Nat.le_refl _) (fun {r} h => ?_) fun _ => rfl
    exact h.of_pass (t := t) rfl rfl bag orphans (by rintro ⟨⟩)
  | @exit t _ lock =>
    have has : ∀ {r}, State.Has { s.orphanEpochEntries (s.bag t) with bag := _, bagDead := _ } r → s.Has r :=
      has_of_exit
    unfold State.orphanEpochEntries at has ⊢
    split at has <;> rename_i empty
    · rw [if_pos empty]
      exact sd.frame rfl rfl (Nat.le_refl _) has sd.count
    · rw [if_neg empty]
      exact sd.frame rfl rfl (Nat.le_refl _) has fun _ => rfl

omit [DecidableEq θ] in
/-- When no guard is announced the bound of a pass is the present epoch. -/
lemma Settled.minActiveEpoch (sd : Settled w s) (out : ∀ t, s.guard t = .out) :
    s.minActiveEpoch w = s.globalEpoch := by
  have none : ∀ c, s.slot c = none := by
    intro c
    cases h : s.slot c with
    | none => rfl
    | some e =>
      obtain ⟨t, _, hi⟩ := sd.slot h
      rw [out t] at hi
      cases hi
  have same : ∀ v c, s.lower v c = v := by
    intro v c
    rw [State.lower, none c]
  rw [State.minActiveEpoch]
  induction w.participants with
  | nil => rfl
  | cons c cs ih => rw [List.foldl_cons, same, ih]

/-! ## What two of them free -/

variable [DecidableEq π]

/-- A pass leaves alone what is not its own: the other passes and the other bags. -/
lemma tryReclaim_frame (w : Setup θ κ) (s : State θ κ ι π) (t : θ) :
    (s.tryReclaim w t).pass = s.pass ∧ (s.tryReclaim w t).bagDead = s.bagDead ∧
      ∀ t' ≠ t, (s.tryReclaim w t).bag t' = s.bag t' := by
  unfold State.tryReclaim
  split
  · exact ⟨rfl, rfl, fun _ _ => rfl⟩
  · dsimp only
    split
    all_goals exact ⟨rfl, rfl, fun t' ne => Function.update_of_ne ne ..⟩

/-- What is freed stays so. -/
lemma tryReclaim_mono (w : Setup θ κ) (t : θ) (h : s.freed p = true) : (s.tryReclaim w t).freed p = true := by
  unfold State.tryReclaim
  split
  · exact h
  · dsimp only
    split
    all_goals simp [State.sweepEpochOrphans, State.deleteOld, h]

/-- An entry below the bound is freed, in the thread's bag or in the store. -/
lemma tryReclaim_frees {r : Retired π} (count : s.orphanCount = s.orphans.length)
    (here : r ∈ s.bag t ∨ r ∈ s.orphans) (lt : r.2 < s.minActiveEpoch w) :
    (s.tryReclaim w t).freed r.1 = true := by
  have some : ¬(s.bag t = [] ∧ s.orphanCount = 0) := by
    rintro ⟨empty, zero⟩
    rw [zero] at count
    rw [empty, List.eq_nil_of_length_eq_zero count.symm] at here
    rcases here with h | h <;> cases h
  have old : ∀ {rs : List (Retired π)}, r ∈ rs →
      (rs.any fun r' => r'.1 = r.1 ∧ r'.2 < s.minActiveEpoch w) = true := by
    intro rs h
    exact List.any_eq_true.2 ⟨r, h, by simp [lt]⟩
  rw [State.tryReclaim, if_neg some]
  dsimp only
  rcases here with h | h
  · split
    all_goals simp only [State.sweepEpochOrphans, State.deleteOld, old h, Bool.or_true, Bool.true_or]
  · have pos : s.orphanCount ≠ 0 := by
      intro zero
      rw [zero] at count
      rw [List.eq_nil_of_length_eq_zero count.symm] at h
      cases h
    rw [if_pos pos]
    simp only [State.sweepEpochOrphans, State.deleteOld, old h, Bool.or_true]

/-- The object was retired, at an epoch that is at most `e` where its entry is still kept. -/
def State.RetiredBy (s : State θ κ ι π) (e : Nat) (p : π) : Prop :=
  s.withdrawn p = true ∧ (∀ t, p ∉ s.held (.stamp t)) ∧ ∀ q r, r ∈ s.entries q → r.1 = p → r.2 ≤ e

/-- With all guards released, two calls of `Tick` by one thread free every object retired up to an epoch
just when no other thread has an entry up to that epoch in its bag or in a pass of its own. -/
theorem ticks_free_iff [DecidableEq κ] [DecidableEq ι] (rn : Reaches (Step w) ({} : State θ κ ι π) s)
    (out : ∀ t, s.guard t = .out)
    (unlocked : s.Unlocked) (idle : s.pass t = .idle) (live : s.bagDead t = false) (e : Nat) :
    (∀ p, s.RetiredBy e p → ((s.tick w t).tick w t).freed p = true) ↔
      ∀ t' ≠ t, ∀ r, r ∈ s.bag t' ∨ r ∈ (s.pass t').items → e < r.2 := by
  have kept : ∀ {s}, Reaches (Step w) ({} : State θ κ ι π) s → Kept s :=
    fun rn => rn.invariant Kept.init fun k _ st => k.step st
  have sd : Settled w s := rn.invariant (Settled.init w) fun k _ st => k.step st
  -- the first of the two, and the second as a run
  have sd' : Settled w { s with globalEpoch := s.globalEpoch + 1 } := sd.step .advance
  obtain ⟨pass, dead, bag⟩ := tryReclaim_frame w { s with globalEpoch := s.globalEpoch + 1 } t
  obtain ⟨pass', -, bag'⟩ :=
    tryReclaim_frame w { s.tick w t with globalEpoch := (s.tick w t).globalEpoch + 1 } t
  have rn' : Reaches (Step w) {} ((s.tick w t).tick w t) := by
    apply (rn.trans (tick_reaches w t s idle live unlocked)).trans
    apply tick_reaches
    · exact (congrFun pass t).trans idle
    · exact (congrFun dead t).trans live
    · intro t' v rs
      have := unlocked t' v rs
      rwa [← pass] at this
  constructor
  · intro all t' ne r here
    by_contra le
    -- the entry is where it was, so the object is not freed
    obtain ⟨q, stays, mine, other⟩ : ∃ q, ((s.tick w t).tick w t).entries q = s.entries q ∧
        r ∈ s.entries q ∧ ∀ t, q ≠ .stamp t := by
      rcases here with h | h
      · exact ⟨.bag t', (bag' t' ne).trans (bag t' ne), h, nofun⟩
      · refine ⟨.pass t', ?_, h, nofun⟩
        exact (congrArg Pass.items (congrFun pass' t')).trans (congrArg Pass.items (congrFun pass t'))
    have held : r.1 ∈ s.held q := List.mem_map_of_mem mine
    have retired : s.RetiredBy e r.1 := by
      refine ⟨((kept rn).live held).1, fun t h => ?_, fun q' r' h' e' => ?_⟩
      · exact other t ((kept rn).custody.unique held h)
      · have held' : r'.1 ∈ s.held q' := List.mem_map_of_mem h'
        have eq := (kept rn).custody.unique (e' ▸ held') held
        subst eq
        have nd := (kept rn).custody.nodup q'
        rw [List.inj_on_of_nodup_map nd h' mine e']
        exact Nat.le_of_not_lt le
    have stays' : r.1 ∈ ((s.tick w t).tick w t).held q := by
      rw [State.held, stays]
      exact held
    have kept' := ((kept rn').live stays').2
    rw [all r.1 retired] at kept'
    cases kept'
  · intro none p ⟨wd, done, low⟩
    apply tryReclaim_mono
    rcases (kept rn).all wd with h | ⟨q, h⟩
    · exact tryReclaim_mono w t h
    · obtain ⟨r, hr, rfl⟩ := List.mem_map.1 h
      have has : s.Has r ∧ (r ∈ s.bag t ∨ r ∈ s.orphans) := by
        have le := low q r hr rfl
        cases q with
        | stamp t' => exact absurd h (done t')
        | bag t' =>
          by_cases e' : t' = t
          · exact ⟨.inr (.inl ⟨t', hr⟩), .inl (e' ▸ hr)⟩
          · exact absurd (none t' e' r (.inl hr)) (Nat.not_lt_of_le le)
        | pass t' =>
          by_cases e' : t' = t
          · rw [State.entries, e', idle] at hr
            cases hr
          · exact absurd (none t' e' r (.inr hr)) (Nat.not_lt_of_le le)
        | store => exact ⟨.inr (.inr (.inl hr)), .inr hr⟩
      apply tryReclaim_frees (s := { s with globalEpoch := s.globalEpoch + 1 }) (sd.count unlocked) has.2
      rw [sd'.minActiveEpoch out]
      exact Nat.lt_succ_of_le (sd.past has.1)

/-- A worker retires object 0 and ends, the main thread retires object 1: its ticks free both. -/
theorem ticks_free_iff_orphan :
    ∃ s : State Bool Bool Unit Nat, Reaches (Step pool) {} s ∧ s.orphans = [(0, 0)] ∧ s.bag true = [(1, 0)] ∧
      ∀ p, s.RetiredBy 0 p → ((s.tick pool true).tick pool true).freed p = true := by
  have r : Reaches (Step pool) ({} : State Bool Bool Unit Nat) _ := .refl
  have r1 := r.next (.stamp false 0) trivial (.stamp rfl rfl nofun)
  have r2 := r1.next (.retire false) trivial (.retire rfl nofun)
  have r3 := r2.next (.exit false) trivial (.exit rfl fun _ _ => nofun)
  have r4 := r3.next (.stamp true 1) trivial (.stamp rfl rfl nofun)
  have r5 := r4.next (.retire true) trivial (.retire rfl nofun)
  refine ⟨_, r5, rfl, rfl, ?_⟩
  apply (ticks_free_iff r5 (fun _ => rfl) (fun _ => nofun) rfl rfl 0).2
  intro t' ne r h
  cases t' with
  | false => rcases h with h | h <;> cases h
  | true => exact absurd rfl ne

/-- The frames of a loop: a worker retires an object and the main thread ticks. -/
def frames : Nat → State Bool Bool Unit Nat
  | 0 => {}
  | n + 1 =>
    State.tick pool
      { frames n with
        withdrawn := Function.update (frames n).withdrawn n true
        bag := Function.update (frames n).bag false ((frames n).bag false ++ [(n, (frames n).globalEpoch)]) }
      true

/-- After any number of frames the worker has all it retired. -/
lemma frames_spec (n : Nat) :
    Reaches (Step pool) {} (frames n) ∧ ((frames n).bag false).length = n ∧ (frames n).bag true = [] ∧
      (frames n).orphanCount = 0 ∧ (frames n).stamp = (fun _ => none) ∧ (frames n).loc = (fun _ => none) ∧
      (frames n).bagDead = (fun _ => false) ∧ (frames n).pass = (fun _ => .idle) ∧
      ∀ p, n ≤ p → (frames n).withdrawn p = false := by
  induction n with
  | zero => exact ⟨.refl, rfl, rfl, rfl, rfl, rfl, rfl, rfl, fun _ _ => rfl⟩
  | succ n ih =>
    obtain ⟨rn, len, bag, count, stamp, loc, dead, pass, new⟩ := ih
    have tick : frames (n + 1) =
        { frames n with
          withdrawn := Function.update (frames n).withdrawn n true
          bag := Function.update (frames n).bag false ((frames n).bag false ++ [(n, (frames n).globalEpoch)])
          globalEpoch := (frames n).globalEpoch + 1 } := by
      rw [frames, State.tick, State.tryReclaim]
      exact if_pos ⟨bag, count⟩
    have r1 := rn.next (.stamp false n) trivial
      (.stamp (by rw [stamp]) (new n (Nat.le_refl n)) (by rw [loc]; nofun))
    have r2 := r1.next (.retire false) trivial
      (.retire (r := (n, (frames n).globalEpoch)) rfl (by simp [dead]))
    have r3 := r2.next .advance trivial .advance
    have same : Function.update (fun _ : Bool => (none : Option (Retired Nat))) false none = fun _ => none :=
      Function.update_eq_self ..
    simp only [State.retirePtr, dead, Function.update_idem, stamp, same, Bool.false_eq_true, if_false] at r3
    rw [tick]
    refine ⟨?_, ?_, bag, count, stamp, loc, dead, pass, fun p le => ?_⟩
    · simpa only [stamp, dead] using r3
    · simp only [Function.update_self, List.length_append, len, List.length_singleton]
    · simp only [Function.update_of_ne (show p ≠ n by omega)]
      exact new p (by omega)

/-- A worker retires an object, and two ticks of the main thread do not free it. In a loop of frames the
objects that are not freed are as many as the frames. -/
theorem worker_bag_kept :
    (∃ s : State Bool Bool Unit Nat, Reaches (Step pool) {} s ∧ (∀ t, s.guard t = .out) ∧ s.RetiredBy 0 0 ∧
      ((s.tick pool true).tick pool true).freed 0 = false) ∧
    ∀ n, Reaches (Step pool) {} (frames n) ∧ ((frames n).bag false).length = n := by
  have r : Reaches (Step pool) ({} : State Bool Bool Unit Nat) _ := .refl
  have r1 := r.next (.stamp false 0) trivial (.stamp rfl rfl nofun)
  have r2 := r1.next (.retire false) trivial (.retire rfl nofun)
  refine ⟨⟨_, r2, fun _ => rfl, ⟨rfl, ?_, ?_⟩, rfl⟩, fun n => ⟨(frames_spec n).1, (frames_spec n).2.1⟩⟩
  · rintro (_ | _) <;> decide
  · rintro ((_ | _) | (_ | _) | (_ | _) | _) <;> decide

end JLib.Epochs
