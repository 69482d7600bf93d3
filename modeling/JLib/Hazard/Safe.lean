import JLib.Hazard.Model
import JLib.LTS.Stock

/-!
# No deleter runs on a protected object

A `Protect` that returned found the object in the source after it had written the cell, so the object was
retired after the cell was written. A `Scan` that began later still comes past the cell: it has the object
in its list or has the cell to come. Entries of the thread's own bag are older than the `Scan`. Entries of
the store need not be: a thread can retire an object and end while the `Scan` of another thread is between
its loop over the cells and the store.
-/

namespace JLib.Hazard
open LTS State

variable {θ ρ κ ι π : Type}
  {w : Table ρ κ} {s u : State θ ρ κ ι π} {a : Label θ ρ κ ι π} {t : θ} {p : π} {k : κ} {b n : Nat}
  {named : List π} {ks : List κ}

/-! ## Where the objects are -/

/-- The places an object has between its retirement and its deletion. -/
inductive Place (θ : Type) where
  | items (t : θ)
  | scan (t : θ)
  | store
  deriving DecidableEq

/-- What a `Scan` has read and which cells are to come. -/
def Scan.view : Scan κ π → Option (Nat × List π × List κ)
  | .idle => none
  | .read b named ks => some (b, named, ks)
  | .own b named _ => some (b, named, [])
  | .orphan b named _ => some (b, named, [])

/-- The entries a `Scan` still has to look at. -/
def Scan.todo : Scan κ π → List (Retired π)
  | .idle => []
  | .read _ _ _ => []
  | .own _ _ rs => rs
  | .orphan _ _ rs => rs

/-- The entries at each place. -/
def State.entries (s : State θ ρ κ ι π) : Place θ → List (Retired π)
  | .items t => s.items t
  | .scan t => (s.scan t).todo
  | .store => s.orphans

/-- The objects at each place. -/
def State.held (s : State θ ρ κ ι π) (q : Place θ) : List π :=
  (s.entries q).map Prod.fst

/-- An entry that some thread or the store has. -/
def State.Has (s : State θ ρ κ ι π) (r : Retired π) : Prop := ∃ q, r ∈ s.entries q

/-- A retired object is at one place until its deleter runs. -/
abbrev Kept (s : State θ ρ κ ι π) : Prop :=
  Stock s.held s.withdrawn s.freed

/-- Nothing was retired yet. -/
lemma Kept.init : Kept ({} : State θ ρ κ ι π) := by
  apply Stock.empty
  · rintro (t | t | _) <;> rfl
  · exact fun _ => rfl
  · exact fun _ => rfl

/-- What is retired was withdrawn. -/
lemma Kept.has (kp : Kept s) {r : Retired π} (h : s.Has r) : s.withdrawn r.1 = true := by
  obtain ⟨q, h⟩ := h
  exact (kp.live (List.mem_map_of_mem h)).1

/-- The frame of a move between the scan of a thread and one other place. -/
lemma moved_of_scan [DecidableEq θ] {x : Scan κ π} {q : Place θ} (ne : .scan t ≠ q)
    (scan : u.scan = Function.update s.scan t x)
    (items : ∀ t', Place.items t' ≠ q → u.items t' = s.items t')
    (store : Place.store ≠ q → u.orphans = s.orphans)
    (perm : (x.todo ++ u.entries q).Perm ((s.scan t).todo ++ s.entries q)) :
    Custody.Moved s.entries u.entries := by
  refine ⟨.scan t, q, ne, ?_, ?_⟩
  · rintro (t' | t' | _) h h'
    · exact items t' h'
    · have : t' ≠ t := fun e => h (e ▸ rfl)
      rw [State.entries, State.entries, scan, Function.update_of_ne this]
    · exact store h'
  · have here : u.entries (.scan t) = x.todo := by rw [State.entries, scan, Function.update_self]
    rw [here]
    exact perm

/-- A scan goes on and none of the entries change place. -/
lemma entries_of_scan [DecidableEq θ] {x : Scan κ π} (scan : u.scan = Function.update s.scan t x)
    (todo : x.todo = (s.scan t).todo) (items : u.items = s.items) (store : u.orphans = s.orphans) :
    u.entries = s.entries := by
  funext q
  cases q with
  | items t' => exact congrFun items t'
  | scan t' =>
    rw [State.entries, State.entries, scan, Function.update_apply]
    split
    · rename_i e
      rw [e, todo]
    · rfl
  | store => exact store

/-- What a thread leaves goes to the store. -/
lemma moved_of_exit [DecidableEq θ] {o : List (Retired π)} {c : Nat} {d : θ → Bool}
    (store : o = s.orphans ++ s.items t) :
    Custody.Moved s.entries (State.entries
      { s with orphans := o, orphanCount := c, items := Function.update s.items t [], retireDead := d }) := by
  refine ⟨.items t, .store, nofun, ?_, ?_⟩
  · rintro (t' | t' | _) h h'
    · have : t' ≠ t := fun e => h (e ▸ rfl)
      exact Function.update_of_ne this ..
    · rfl
    · exact absurd rfl h'
  · simp only [State.entries, Function.update_self, List.nil_append, store]
    exact List.perm_append_comm

/-- What a step does with the entries. -/
inductive Effect [DecidableEq π] (s u : State θ ρ κ ι π) : Prop where
  | quiet :
    u.entries = s.entries →
    u.withdrawn = s.withdrawn →
    u.freed = s.freed →
    Effect s u
  | moved :
    Custody.Moved s.entries u.entries →
    u.withdrawn = s.withdrawn →
    u.freed = s.freed →
    Effect s u
  | retire {q : Place θ} {p : π} :
    s.withdrawn p = false →
    (∀ q', q' ≠ q → u.entries q' = s.entries q') →
    u.entries q = s.entries q ++ [(p, s.retirements)] →
    u.withdrawn = Function.update s.withdrawn p true →
    u.freed = s.freed →
    Effect s u
  | delete {q : Place θ} {r : Retired π} :
    (∀ q', q' ≠ q → u.entries q' = s.entries q') →
    s.entries q = r :: u.entries q →
    u.withdrawn = s.withdrawn →
    u.freed = Function.update s.freed r.1 true →
    Effect s u
  | reuse {p : π} :
    u.entries = s.entries →
    s.freed p = true →
    u.withdrawn = Function.update s.withdrawn p false →
    u.freed = Function.update s.freed p false →
    Effect s u

/-- The deleter of the first entry of a scan runs. -/
lemma Effect.of_delete [DecidableEq θ] [DecidableEq π] {x : Scan κ π} {r : Retired π}
    (todo : (s.scan t).todo = r :: x.todo) : Effect s { s.delete r.1 with scan := Function.update s.scan t x } := by
  refine .delete (q := .scan t) (r := r) ?_ ?_ rfl rfl
  · rintro (t' | t' | _) h
    · rfl
    · have : t' ≠ t := fun e => h (e ▸ rfl)
      simp only [State.entries, Function.update_of_ne this]
    · rfl
  · simp only [State.entries, Function.update_self]
    exact todo

/-- What any step does with the entries. -/
lemma Step.effect [DecidableEq θ] [DecidableEq π] [DecidableEq ρ] [DecidableEq κ] [DecidableEq ι] (st : Step w s a u) :
    Effect s u := by
  have bagOf : ∀ {t l} t', Place.items t' ≠ .items t → Function.update s.items t l t' = s.items t' := by
    intro t l t' ne
    apply Function.update_of_ne
    rintro rfl
    exact ne rfl
  cases st with
  | protect _ _ => exact .quiet rfl rfl rfl
  | load _ => exact .quiet rfl rfl rfl
  | store _ => exact .quiet rfl rfl rfl
  | found _ _ => exact .quiet rfl rfl rfl
  | moved _ _ => exact .quiet rfl rfl rfl
  | set _ => exact .quiet rfl rfl rfl
  | write _ => exact .quiet rfl rfl rfl
  | @retire t p _ new _ _ =>
    unfold State.retire State.adoptOrphans
    split
    · rw [if_neg (List.cons_ne_nil _ _)]
      refine .retire (q := .store) (p := p) new ?_ rfl rfl rfl
      rintro (t' | t' | _) h
      · rfl
      · rfl
      · exact absurd rfl h
    · refine .retire (q := .items t) (p := p) new ?_ ?_ rfl rfl
      · rintro (t' | t' | _) h
        · exact bagOf t' h
        · rfl
        · rfl
      · simp only [State.entries, Function.update_self]
  | reuse h => exact .reuse rfl h rfl rfl
  | @scan t hs _ _ =>
    refine .quiet (entries_of_scan (t := t) rfl ?_ rfl rfl) rfl rfl
    rw [hs]
    rfl
  | @read t b named k ks hs =>
    refine .quiet (entries_of_scan (t := t) rfl ?_ rfl rfl) rfl rfl
    rw [hs]
    rfl
  | @own t b named hs =>
    refine .moved (moved_of_scan (q := .items t) nofun rfl bagOf (fun _ => rfl) ?_) rfl rfl
    simp only [State.entries, Function.update_self, hs, Scan.todo]
    exact List.perm_append_comm
  | @ownDelete t b named r rs hs _ =>
    apply Effect.of_delete
    rw [hs]
    rfl
  | @ownKeep t b named r rs hs _ =>
    refine .moved (moved_of_scan (q := .items t) nofun rfl bagOf (fun _ => rfl) ?_) rfl rfl
    simp only [State.entries, Function.update_self, hs, Scan.todo]
    rw [← List.append_assoc]
    exact List.perm_append_singleton r (rs ++ s.items t)
  | @ownEnd t b named hs _ =>
    refine .quiet (entries_of_scan (t := t) rfl ?_ rfl rfl) rfl rfl
    rw [hs]
    rfl
  | @orphan t b named hs _ _ =>
    refine .moved (moved_of_scan (q := .store) nofun rfl (fun _ _ => rfl) (absurd rfl) ?_) rfl rfl
    simp only [State.entries, hs, Scan.todo]
    exact List.perm_append_comm
  | @orphanDelete t b named r rs hs _ =>
    apply Effect.of_delete
    rw [hs]
    rfl
  | @orphanKeep t b named r rs hs _ =>
    refine .moved (moved_of_scan (q := .store) nofun rfl (fun _ _ => rfl) (absurd rfl) ?_) rfl rfl
    simp only [State.entries, hs, Scan.todo]
    rw [← List.append_assoc]
    exact List.perm_append_singleton r (rs ++ s.orphans)
  | @orphanEnd t b named hs =>
    refine .quiet (entries_of_scan (t := t) rfl ?_ rfl rfl) rfl rfl
    rw [hs]
    rfl
  | @exit t _ _ =>
    unfold State.adoptOrphans
    split
    · rename_i empty
      exact .moved (moved_of_exit (by rw [empty, List.append_nil])) rfl rfl
    · exact .moved (moved_of_exit rfl) rfl rfl

/-- A step keeps every retired object at one place. -/
lemma Kept.step [DecidableEq θ] [DecidableEq π] [DecidableEq ρ] [DecidableEq κ] [DecidableEq ι] (kp : Kept s)
    (st : Step w s a u) : Kept u := by
  cases st.effect with
  | quiet entries withdrawn freed =>
    have held : u.held = s.held := by
      funext q
      rw [State.held, State.held, entries]
    rw [Kept, held, withdrawn, freed]
    exact kp
  | moved mv withdrawn freed =>
    rw [Kept, withdrawn, freed]
    exact kp.move (mv.map Prod.fst)
  | @retire q p new frame here withdrawn freed =>
    rw [Kept, withdrawn, freed]
    apply kp.put (p := q) new
    · intro q' h
      rw [State.held, State.held, frame q' h]
    · rw [State.held, State.held, here, List.map_append]
      exact List.perm_append_singleton p _
  | @delete q r frame here withdrawn freed =>
    rw [Kept, withdrawn, freed]
    apply kp.spend (p := q)
    · intro q' h
      rw [State.held, State.held, frame q' h]
    · rw [State.held, State.held, here, List.map_cons]
  | @reuse p entries out withdrawn freed =>
    have held : u.held = s.held := by
      funext q
      rw [State.held, State.held, entries]
    rw [Kept, held, withdrawn, freed]
    exact kp.renew out

/-- Where nothing is withdrawn no entry is new. -/
lemma Effect.has_of_same [DecidableEq θ] [DecidableEq π] {r : Retired π} (ef : Effect s u)
    (same : u.withdrawn = s.withdrawn) (h : u.Has r) : s.Has r := by
  cases ef with
  | @retire q p new _ _ withdrawn _ =>
    have now : u.withdrawn p = true := by rw [withdrawn, Function.update_self]
    rw [same, new] at now
    cases now
  | quiet entries _ _ =>
    obtain ⟨q, h⟩ := h
    exact ⟨q, entries ▸ h⟩
  | moved mv _ _ => exact mv.mem.1 h
  | @delete q r' frame here _ _ =>
    obtain ⟨q', h⟩ := h
    by_cases e : q' = q
    · subst e
      exact ⟨q', here ▸ List.mem_cons_of_mem _ h⟩
    · exact ⟨q', frame q' e ▸ h⟩
  | reuse entries _ _ _ =>
    obtain ⟨q, h⟩ := h
    exact ⟨q, entries ▸ h⟩

/-- An entry is there before the step, or the step is its retirement. -/
lemma Effect.has [DecidableEq θ] [DecidableEq π] {r : Retired π} (ef : Effect s u) (h : u.Has r) :
    s.Has r ∨ r.2 = s.retirements := by
  cases ef with
  | @retire q p _ frame here _ _ =>
    obtain ⟨q', h⟩ := h
    by_cases e : q' = q
    · subst e
      rw [here] at h
      rcases List.mem_append.1 h with h | h
      · exact .inl ⟨q', h⟩
      · right
        rw [List.mem_singleton.1 h]
    · exact .inl ⟨q', frame q' e ▸ h⟩
  | quiet entries withdrawn freed => exact .inl (Effect.has_of_same (.quiet entries withdrawn freed) withdrawn h)
  | moved mv withdrawn freed => exact .inl (mv.mem.1 h)
  | delete frame here withdrawn freed =>
    exact .inl (Effect.has_of_same (.delete frame here withdrawn freed) withdrawn h)
  | reuse entries _ _ _ =>
    obtain ⟨q, h⟩ := h
    exact .inl ⟨q, entries ▸ h⟩

/-! ## Readers -/

/-- The cell a `Protect` is at. -/
def Protect.at : Protect κ ι π → Option κ
  | .idle => none
  | .enter k _ => some k
  | .loaded k _ _ => some k
  | .stored k _ _ => some k

/-- What the readers have to do with their cells. -/
structure Published (w : Table ρ κ) (s : State θ ρ κ ι π) : Prop where
  row : ∀ {r k}, (s.protect r).at = some k → w.row k = r
  stored : ∀ {r k l p}, s.protect r = .stored k l p → s.cell k = p
  returned : ∀ {k p}, s.returned k = some p → s.cell k = some p

/-- The cells are empty. -/
lemma Published.init (w : Table ρ κ) : Published w ({} : State θ ρ κ ι π) :=
  ⟨nofun, nofun, nofun⟩

/-- A reader goes on and no cell changes. -/
lemma Published.protect [DecidableEq ρ] {x : Protect κ ι π} {r : ρ} (pb : Published w s)
    (protect : u.protect = Function.update s.protect r x) (cell : u.cell = s.cell)
    (at' : ∀ k, x.at = some k → w.row k = r) (stored : ∀ k l p, x ≠ .stored k l p)
    (returned : ∀ {k p}, u.returned k = some p → s.cell k = some p) : Published w u := by
  refine ⟨fun {r' k} h => ?_, fun {r' k l p} h => ?_, fun h => ?_⟩
  · rw [protect, Function.update_apply] at h
    split at h
    · rename_i e
      rw [e]
      exact at' k h
    · exact pb.row h
  · rw [protect, Function.update_apply] at h
    rw [cell]
    split at h
    · exact absurd h (stored k l p)
    · exact pb.stored h
  · rw [cell]
    exact returned h

/-- Neither the readers nor the cells change. -/
lemma Published.frame (pb : Published w s) (protect : u.protect = s.protect) (cell : u.cell = s.cell)
    (returned : u.returned = s.returned) : Published w u := by
  refine ⟨?_, ?_, ?_⟩
  · rw [protect]
    exact pb.row
  · rw [protect, cell]
    exact pb.stored
  · rw [returned, cell]
    exact pb.returned

/-- Only the reader of a row writes its cells, so another one keeps what it stored. -/
lemma Published.step [DecidableEq θ] [DecidableEq π] [DecidableEq ρ] [DecidableEq κ] [DecidableEq ι]
    (pb : Published w s) (st : Step w s a u) : Published w u := by
  have other : ∀ {k x k' y}, Function.update s.returned k none k' = some y →
      Function.update s.cell k x k' = some y := by
    intro k x k' y h
    rw [Function.update_apply] at h ⊢
    split at h
    · cases h
    · rename_i ne
      rw [if_neg ne]
      exact pb.returned h
  cases st with
  | @protect r k l _ row =>
    refine pb.protect (r := r) rfl rfl ?_ nofun pb.returned
    rintro _ ⟨⟩
    exact row
  | @load r k l hs =>
    refine pb.protect (r := r) rfl rfl ?_ nofun pb.returned
    rintro _ ⟨⟩
    exact pb.row (by rw [hs]; rfl)
  | @store r k l p hs =>
    have mine : w.row k = r := pb.row (by rw [hs]; rfl)
    refine ⟨fun {r' k'} h => ?_, fun {r' k' l' p'} h => ?_, other⟩
    · simp only [Function.update_apply] at h
      split at h
      · rename_i e
        cases h
        rw [e, mine]
      · exact pb.row h
    · simp only [State.set, Function.update_apply] at h ⊢
      split at h
      · cases h
        exact if_pos rfl
      · rename_i ne
        have row : w.row k' = r' := pb.row (by rw [h]; rfl)
        rw [if_neg, pb.stored h]
        rintro rfl
        exact ne (row.symm.trans mine)
  | @found r k l p hs hl =>
    refine pb.protect (r := r) rfl rfl nofun nofun ?_
    intro k' p' h
    simp only [Function.update_apply] at h
    split at h
    · rename_i e
      rw [e, pb.stored hs]
      exact h
    · exact pb.returned h
  | @moved r k l p hs _ =>
    refine pb.protect (r := r) rfl rfl ?_ nofun pb.returned
    rintro _ ⟨⟩
    exact pb.row (by rw [hs]; rfl)
  | @set k p hs =>
    refine ⟨pb.row, fun {r k' l p'} h => ?_, other⟩
    replace h : s.protect r = .stored k' l p' := h
    have row : w.row k' = r := pb.row (by rw [h]; rfl)
    have ne : k' ≠ k := by
      rintro rfl
      rw [row, h] at hs
      cases hs
    simp only [State.set, Function.update_of_ne ne]
    exact pb.stored h
  | @retire t p _ _ _ _ =>
    unfold State.retire State.adoptOrphans
    split
    · split
      all_goals exact pb.frame rfl rfl rfl
    · exact pb.frame rfl rfl rfl
  | @exit t _ _ =>
    unfold State.adoptOrphans
    split
    all_goals exact pb.frame rfl rfl rfl
  | _ => exact pb.frame rfl rfl rfl

/-! ## Scans -/

/-- The condition on the steps: when a `Scan` comes to the store, all that is there was retired before the
`Scan` began to read the cells. -/
def Aged (s : State θ ρ κ ι π) : Label θ ρ κ ι π → Prop
  | .scan t => ∀ b named, s.scan t = .own b named [] → ∀ r ∈ s.orphans, r.2 < b
  | _ => True

/-- What the readers have to do with the bags and the scans. -/
structure Safe (s : State θ ρ κ ι π) : Prop where
  src : ∀ {l p}, s.src l = some p → s.withdrawn p = false
  past : ∀ {r}, s.Has r → r.2 < s.retirements
  begun : ∀ {t b named ks}, (s.scan t).view = some (b, named, ks) → b ≤ s.retirements
  mine : ∀ {t b named ks r}, (s.scan t).view = some (b, named, ks) → r ∈ s.items t ∨ r ∈ (s.scan t).todo →
    r.2 < b
  seen : ∀ {t b named ks k p n}, (s.scan t).view = some (b, named, ks) → s.returned k = some p →
    s.Has (p, n) → n < b → p ∈ named ∨ k ∈ ks
  gone : ∀ {k p}, s.returned k = some p → s.freed p = false

/-- Nothing was retired yet. -/
lemma Safe.init : Safe ({} : State θ ρ κ ι π) := by
  refine ⟨nofun, ?_, nofun, nofun, nofun, nofun⟩
  rintro r ⟨q, h⟩
  rcases q with t | t | _ <;> cases h

/-- Nothing is retired and no scan reads a cell. -/
lemma Safe.frame (sf : Safe s) (src : u.src = s.src) (withdrawn : u.withdrawn = s.withdrawn)
    (retirements : u.retirements = s.retirements)
    (returned : ∀ {k p}, u.returned k = some p → s.returned k = some p) (has : ∀ {r}, u.Has r → s.Has r)
    (view : ∀ {t x}, (u.scan t).view = some x → (s.scan t).view = some x)
    (mine : ∀ {t b named ks r}, (u.scan t).view = some (b, named, ks) →
      r ∈ u.items t ∨ r ∈ (u.scan t).todo → r.2 < b)
    (gone : ∀ {k p}, u.returned k = some p → u.freed p = false) : Safe u := by
  refine ⟨fun h => ?_, fun h => ?_, fun h => ?_, mine, fun h hk hr lt => ?_, gone⟩
  · rw [withdrawn]
    exact sf.src (src ▸ h)
  · rw [retirements]
    exact sf.past (has h)
  · rw [retirements]
    exact sf.begun (view h)
  · exact sf.seen (view h) (returned hk) (has hr) lt

/-- A scan that has read the cells takes one step. -/
lemma Safe.scan [DecidableEq θ] {x : Scan κ π} (sf : Safe s) (src : u.src = s.src)
    (withdrawn : u.withdrawn = s.withdrawn)
    (retirements : u.retirements = s.retirements) (returned : u.returned = s.returned)
    (scan : u.scan = Function.update s.scan t x) (has : ∀ {r}, u.Has r → s.Has r)
    (view : ∀ {y}, x.view = some y → (s.scan t).view = some y)
    (items : ∀ t' ≠ t, u.items t' = s.items t')
    (mine : ∀ {b named ks r}, x.view = some (b, named, ks) → r ∈ u.items t ∨ r ∈ x.todo → r.2 < b)
    (gone : ∀ {k p}, s.returned k = some p → u.freed p = false) : Safe u := by
  refine sf.frame src withdrawn retirements (fun h => returned ▸ h) has (fun {t' y} h => ?_)
    (fun {t' b named ks r} h hr => ?_) fun h => gone (returned ▸ h)
  all_goals
    rw [scan, Function.update_apply] at h
    split at h
  · rename_i e
    rw [e]
    exact view h
  · exact h
  · rename_i e
    subst e
    rw [scan, Function.update_self] at hr
    exact mine h hr
  · rename_i ne
    rw [scan, Function.update_of_ne ne, items t' ne] at hr
    exact sf.mine h hr

/-- What a scan that has read the cells did not find, no reader has protected. -/
lemma Safe.deletable [DecidableEq π] {r : Retired π} {rs : List (Retired π)} (sf : Safe s)
    (view : (s.scan t).view = some (b, named, [])) (todo : (s.scan t).todo = r :: rs) (out : r.1 ∉ named)
    (h : s.returned k = some p) : (s.delete r.1).freed p = false := by
  have here : r ∈ (s.scan t).todo := todo ▸ List.mem_cons_self
  have ne : p ≠ r.1 := by
    rintro rfl
    rcases sf.seen view h ⟨.scan t, here⟩ (sf.mine view (.inr here)) with h | h
    · exact out h
    · cases h
  rw [State.delete]
  simp only [Function.update_of_ne ne]
  exact sf.gone h

variable [DecidableEq κ]

/-- A cell is written: the object that its `Protect` returned is not protected by it any more. -/
lemma Safe.unset {x : Option π} (sf : Safe s) : Safe (s.set k x) := by
  have back : ∀ {k' y}, (s.set k x).returned k' = some y → s.returned k' = some y := by
    intro k' y h
    simp only [State.set, Function.update_apply] at h
    split at h
    · cases h
    · exact h
  exact sf.frame rfl rfl rfl back id id sf.mine fun h => sf.gone (back h)

/-- A `Protect` returns an object that it found in the source, so the object is not retired. -/
lemma Safe.found {l : ι} {x : Option π} (sf : Safe s) (kp : Kept s) (hl : s.src l = x) :
    Safe { s with returned := Function.update s.returned k x } := by
  refine ⟨sf.src, sf.past, sf.begun, sf.mine, fun {t b named ks k' p n} h hk hr lt => ?_,
    fun {k' p} hk => ?_⟩
  all_goals
    simp only [Function.update_apply] at hk
    split at hk
  · have wd := kp.has hr
    rw [sf.src (hl.trans hk)] at wd
    cases wd
  · exact sf.seen h hk hr lt
  · apply Bool.eq_false_iff.2
    intro hf
    have wd := kp.gone hf
    rw [sf.src (hl.trans hk)] at wd
    cases wd
  · exact sf.gone hk

/-- An object is retired after every scan that has begun, by a thread that is in none. -/
lemma Safe.retire [DecidableEq π] (sf : Safe s) (out : ∀ l, s.src l ≠ some p) (src : u.src = s.src)
    (withdrawn : u.withdrawn = Function.update s.withdrawn p true)
    (retirements : u.retirements = s.retirements + 1) (returned : u.returned = s.returned)
    (freed : u.freed = s.freed) (scan : u.scan = s.scan)
    (has : ∀ {r}, u.Has r → s.Has r ∨ r.2 = s.retirements) (idle : s.scan t = .idle)
    (items : ∀ t' ≠ t, u.items t' = s.items t') : Safe u := by
  refine ⟨fun {l p'} h => ?_, fun h => ?_, fun h => ?_, fun {t' b named ks r} h hr => ?_,
    fun {t' b named ks k p' n} h hk hr lt => ?_, fun h => ?_⟩
  · rw [src] at h
    have ne : p' ≠ p := by
      rintro rfl
      exact out l h
    rw [withdrawn, Function.update_of_ne ne]
    exact sf.src h
  · rw [retirements]
    rcases has h with h | h
    · exact Nat.lt_succ_of_lt (sf.past h)
    · exact Nat.lt_succ_of_le (Nat.le_of_eq h)
  · rw [retirements]
    rw [scan] at h
    exact Nat.le_succ_of_le (sf.begun h)
  · rw [scan] at h hr
    have ne : t' ≠ t := by
      rintro rfl
      rw [idle] at h
      cases h
    rw [items t' ne] at hr
    exact sf.mine h hr
  · rw [scan] at h
    rw [returned] at hk
    rcases has hr with hr | hr
    · exact sf.seen h hk hr lt
    · have := sf.begun h
      dsimp only at hr
      omega
  · rw [freed]
    rw [returned] at h
    exact sf.gone h

variable [DecidableEq θ]

omit [DecidableEq κ] in
/-- A scan begins. -/
lemma Safe.begin (sf : Safe s) :
    Safe { s with scan := Function.update s.scan t (.read s.retirements [] w.cells) } := by
  have has : ∀ {r}, State.Has { s with scan := Function.update s.scan t (.read s.retirements [] w.cells) } r →
      s.Has r := by
    rintro r ⟨q, h⟩
    rcases q with t' | t' | _
    · exact ⟨.items t', h⟩
    · simp only [State.entries, Function.update_apply] at h
      split at h
      · cases h
      · exact ⟨.scan t', h⟩
    · exact ⟨.store, h⟩
  refine ⟨sf.src, fun h => sf.past (has h), fun {t' b named ks} h => ?_, fun {t' b named ks r} h hr => ?_,
    fun {t' b named ks k p n} h hk hr lt => ?_, sf.gone⟩
  all_goals
    simp only [Function.update_apply] at h
    split at h
  · cases h
    exact Nat.le_refl _
  · exact sf.begun h
  · cases h
    refine sf.past (has ?_)
    rcases hr with hr | hr
    · exact ⟨.items t', hr⟩
    · exact ⟨.scan t', hr⟩
  · rename_i ne
    simp only [Function.update_of_ne ne] at hr
    exact sf.mine h hr
  · cases h
    exact .inr (w.all k)
  · exact sf.seen h hk (has hr) lt

omit [DecidableEq κ] in
/-- A scan reads one cell. -/
lemma Safe.read (sf : Safe s) (pb : Published w s) (hs : s.scan t = .read b named (k :: ks)) :
    Safe { s with scan := Function.update s.scan t (.read b (named ++ (s.cell k).toList) ks) } := by
  have view : (s.scan t).view = some (b, named, k :: ks) := by rw [hs]; rfl
  have entries : State.entries
      { s with scan := Function.update s.scan t (.read b (named ++ (s.cell k).toList) ks) } = s.entries :=
    entries_of_scan (t := t) rfl (by rw [hs]; rfl) rfl rfl
  have has : ∀ {r}, State.Has
      { s with scan := Function.update s.scan t (.read b (named ++ (s.cell k).toList) ks) } r → s.Has r := by
    rintro r ⟨q, h⟩
    rw [entries] at h
    exact ⟨q, h⟩
  refine ⟨sf.src, fun h => sf.past (has h), fun {t' b' named' ks'} h => ?_,
    fun {t' b' named' ks' r} h hr => ?_, fun {t' b' named' ks' k' p n} h hk hr lt => ?_, sf.gone⟩
  all_goals
    simp only [Function.update_apply] at h
    split at h
  · cases h
    exact sf.begun view
  · exact sf.begun h
  · cases h
    rename_i e
    subst e
    simp only [Function.update_self] at hr
    refine sf.mine view (hr.imp_right fun h => ?_)
    cases h
  · rename_i ne
    simp only [Function.update_of_ne ne] at hr
    exact sf.mine h hr
  · cases h
    rcases sf.seen view hk (has hr) lt with h | h
    · exact .inl (List.mem_append_left _ h)
    · rcases List.mem_cons.1 h with rfl | h
      · -- the cell still has what its `Protect` returned
        left
        rw [pb.returned hk]
        exact List.mem_append_right _ (List.mem_singleton.2 rfl)
      · exact .inr h
  · exact sf.seen h hk (has hr) lt

variable [DecidableEq π] [DecidableEq ρ] [DecidableEq ι]

/-- A step under the condition deletes nothing that a reader protects. -/
lemma Safe.step (sf : Safe s) (pb : Published w s) (kp : Kept s) (ok : Aged s a) (st : Step w s a u) :
    Safe u := by
  have ef := st.effect
  have other : ∀ {t l} t', t' ≠ t → Function.update s.items t l t' = s.items t' := by
    intro t l t' ne
    exact Function.update_of_ne ne ..
  cases st with
  | protect _ _ => exact ⟨sf.src, sf.past, sf.begun, sf.mine, sf.seen, sf.gone⟩
  | load _ => exact ⟨sf.src, sf.past, sf.begun, sf.mine, sf.seen, sf.gone⟩
  | @store r k l x _ =>
    have sf' : Safe (s.set k x) := sf.unset
    exact ⟨sf'.src, sf'.past, sf'.begun, sf'.mine, sf'.seen, sf'.gone⟩
  | @found r k l x _ hl =>
    have sf' := sf.found (k := k) kp hl
    exact ⟨sf'.src, sf'.past, sf'.begun, sf'.mine, sf'.seen, sf'.gone⟩
  | moved _ _ => exact ⟨sf.src, sf.past, sf.begun, sf.mine, sf.seen, sf.gone⟩
  | set _ => exact sf.unset
  | @write l x new =>
    refine ⟨fun {l' p} h => ?_, sf.past, sf.begun, sf.mine, sf.seen, sf.gone⟩
    simp only [Function.update_apply] at h
    split at h
    · exact new p h
    · exact sf.src h
  | @retire t p idle new out _ =>
    have has : ∀ {r}, State.Has { s.retire t p with withdrawn := _, retirements := _ } r →
        s.Has r ∨ r.2 = s.retirements := ef.has
    unfold State.retire State.adoptOrphans at has ⊢
    split at has <;> rename_i dead
    · rw [if_neg (List.cons_ne_nil _ _)] at has
      rw [if_pos dead, if_neg (List.cons_ne_nil _ _)]
      exact sf.retire out rfl rfl rfl rfl rfl rfl has idle fun _ _ => rfl
    · rw [if_neg dead]
      exact sf.retire out rfl rfl rfl rfl rfl rfl has idle other
  | @reuse p h =>
    refine ⟨fun {l p'} hl => ?_, sf.past, sf.begun, sf.mine, sf.seen, fun {k p'} hk => ?_⟩
    · simp only [Function.update_apply]
      split
      · rfl
      · exact sf.src hl
    · simp only [Function.update_apply]
      split
      · rfl
      · exact sf.gone hk
  | scan _ _ _ => exact sf.begin
  | read hs => exact sf.read pb hs
  | @own t b named hs =>
    have view : (s.scan t).view = some (b, named, []) := by rw [hs]; rfl
    refine sf.scan rfl rfl rfl rfl rfl (ef.has_of_same rfl) (fun h => h ▸ view) other
      (fun {b' named' ks r} h hr => ?_) sf.gone
    cases h
    simp only [Function.update_self] at hr
    rcases hr with hr | hr
    · cases hr
    · exact sf.mine view (.inl hr)
  | @ownDelete t b named r rs hs out =>
    have view : (s.scan t).view = some (b, named, []) := by rw [hs]; rfl
    have todo : (s.scan t).todo = r :: rs := by rw [hs]; rfl
    refine sf.scan (t := t) rfl rfl rfl rfl rfl (ef.has_of_same rfl) (fun h => h ▸ view) (fun _ _ => rfl)
      (fun {b' named' ks r'} h hr => ?_) (sf.deletable view todo out)
    cases h
    exact sf.mine view (hr.imp_right fun h => todo ▸ List.mem_cons_of_mem r h)
  | @ownKeep t b named r rs hs _ =>
    have view : (s.scan t).view = some (b, named, []) := by rw [hs]; rfl
    have todo : (s.scan t).todo = r :: rs := by rw [hs]; rfl
    refine sf.scan rfl rfl rfl rfl rfl (ef.has_of_same rfl) (fun h => h ▸ view) other
      (fun {b' named' ks r'} h hr => ?_) sf.gone
    cases h
    simp only [Function.update_self] at hr
    rcases hr with hr | hr
    · rcases List.mem_append.1 hr with hr | hr
      · exact sf.mine view (.inl hr)
      · rw [List.mem_singleton.1 hr]
        exact sf.mine view (.inr (todo ▸ List.mem_cons_self))
    · exact sf.mine view (.inr (todo ▸ List.mem_cons_of_mem r hr))
  | @ownEnd t b named hs _ =>
    exact sf.scan (t := t) rfl rfl rfl rfl rfl (ef.has_of_same rfl) (by rintro _ ⟨⟩) (fun _ _ => rfl)
      (by rintro _ _ _ _ ⟨⟩) sf.gone
  | @orphan t b named hs _ _ =>
    have view : (s.scan t).view = some (b, named, []) := by rw [hs]; rfl
    refine sf.scan (t := t) rfl rfl rfl rfl rfl (ef.has_of_same rfl) (fun h => h ▸ view) (fun _ _ => rfl)
      (fun {b' named' ks r} h hr => ?_) sf.gone
    cases h
    rcases hr with hr | hr
    · exact sf.mine view (.inl hr)
    · exact ok b named hs r hr
  | @orphanDelete t b named r rs hs out =>
    have view : (s.scan t).view = some (b, named, []) := by rw [hs]; rfl
    have todo : (s.scan t).todo = r :: rs := by rw [hs]; rfl
    refine sf.scan (t := t) rfl rfl rfl rfl rfl (ef.has_of_same rfl) (fun h => h ▸ view) (fun _ _ => rfl)
      (fun {b' named' ks r'} h hr => ?_) (sf.deletable view todo out)
    cases h
    exact sf.mine view (hr.imp_right fun h => todo ▸ List.mem_cons_of_mem r h)
  | @orphanKeep t b named r rs hs _ =>
    have view : (s.scan t).view = some (b, named, []) := by rw [hs]; rfl
    have todo : (s.scan t).todo = r :: rs := by rw [hs]; rfl
    refine sf.scan (t := t) rfl rfl rfl rfl rfl (ef.has_of_same rfl) (fun h => h ▸ view) (fun _ _ => rfl)
      (fun {b' named' ks r'} h hr => ?_) sf.gone
    cases h
    exact sf.mine view (hr.imp_right fun h => todo ▸ List.mem_cons_of_mem r h)
  | @orphanEnd t b named hs =>
    exact sf.scan (t := t) rfl rfl rfl rfl rfl (ef.has_of_same rfl) (by rintro _ ⟨⟩) (fun _ _ => rfl)
      (by rintro _ _ _ _ ⟨⟩) sf.gone
  | @exit t idle _ =>
    have mine : ∀ {t' b named ks r}, (s.scan t').view = some (b, named, ks) →
        r ∈ Function.update s.items t [] t' ∨ r ∈ (s.scan t').todo → r.2 < b := by
      intro t' b named ks r h hr
      rw [Function.update_apply] at hr
      split at hr
      · refine sf.mine h (hr.imp_left fun h => ?_)
        cases h
      · exact sf.mine h hr
    unfold State.adoptOrphans at ef ⊢
    split at ef <;> rename_i empty
    · rw [if_pos empty]
      exact sf.frame rfl rfl rfl id (ef.has_of_same rfl) id mine sf.gone
    · rw [if_neg empty]
      exact sf.frame rfl rfl rfl id (ef.has_of_same rfl) id mine sf.gone

/-- Where every scan that comes to the store finds only entries older than itself there, no object is
deleted while a cell has it that its `Protect` returned. -/
theorem no_deleter_on_protected (rn : Runs (Step w) Aged ({} : State θ ρ κ ι π) s) {k : κ} {p : π}
    (returned : s.returned k = some p) : s.cell k = some p ∧ s.freed p = false := by
  have inv : Published w s ∧ Kept s ∧ Safe s := by
    refine rn.invariant (I := fun s => Published w s ∧ Kept s ∧ Safe s) ⟨.init w, .init, .init⟩ ?_
    intro s a u ⟨pb, kp, sf⟩ ok st
    exact ⟨pb.step st, kp.step st, sf.step pb kp ok st⟩
  exact ⟨inv.1.returned returned, inv.2.2.gone returned⟩

/-- One reader with one cell. -/
def one : Table Unit Unit where
  row := id
  cells := [()]
  all _ := List.mem_cons_self

/-- A reader protects object 0. Then the object is taken out of the source and retired, and the scan of the
writer keeps it. -/
theorem no_deleter_on_protected_one :
    ∃ s : State Bool Unit Unit Unit Nat, Runs (Step one) Aged {} s ∧ s.returned () = some 0 ∧
      s.scan true = .idle ∧ s.items true = [(0, 0)] ∧ s.freed 0 = false := by
  have r : Runs (Step one) Aged ({} : State Bool Unit Unit Unit Nat) _ := .refl
  have r1 := r.next (.write () (some 0)) trivial (.write (by simp))
  have r2 := r1.next (.protect () () ()) trivial (.protect rfl rfl)
  have r3 := r2.next (.load ()) trivial (.load rfl)
  have r4 := r3.next (.store ()) trivial (.store rfl)
  have r5 := r4.next (.reload ()) trivial (.found rfl rfl)
  have r6 := r5.next (.write () none) trivial (.write (by simp))
  have r7 := r6.next (.retire true 0) trivial (.retire rfl rfl nofun nofun)
  have r8 := r7.next (.scan true) (by rintro _ _ ⟨⟩) (.scan rfl rfl (by rintro ⟨⟨⟩, -⟩))
  have r9 := r8.next (.scan true) (by rintro _ _ ⟨⟩) (.read rfl)
  have r10 := r9.next (.scan true) (by rintro _ _ ⟨⟩) (.own rfl)
  have r11 := r10.next (.scan true) (by rintro _ _ ⟨⟩) (.ownKeep rfl List.mem_cons_self)
  have r12 := r11.next (.scan true) (by rintro _ _ _ _ ⟨⟩) (.ownEnd rfl rfl)
  exact ⟨_, r12, rfl, rfl, rfl, (no_deleter_on_protected r12 (k := ()) (p := 0) rfl).2⟩

/-- The scan of the main thread has read the cell. Then the reader protects object 0; a worker takes it out
of the source, retires it and ends. The scan comes to the store with the list it has. -/
theorem deleted_while_protected :
    ∃ s : State Bool Unit Unit Unit Nat, Reaches (Step one) {} s ∧ s.returned () = some 0 ∧
      s.cell () = some 0 ∧ s.freed 0 = true := by
  have r : Reaches (Step one) ({} : State Bool Unit Unit Unit Nat) _ := .refl
  have r1 := r.next (.write () (some 0)) trivial (.write (by simp))
  have r2 := r1.next (.retire true 1) trivial (.retire rfl rfl (by simp) nofun)
  have r3 := r2.next (.scan true) trivial (.scan rfl rfl (by rintro ⟨⟨⟩, -⟩))
  have r4 := r3.next (.scan true) trivial (.read rfl)
  have r5 := r4.next (.protect () () ()) trivial (.protect rfl rfl)
  have r6 := r5.next (.load ()) trivial (.load rfl)
  have r7 := r6.next (.store ()) trivial (.store rfl)
  have r8 := r7.next (.reload ()) trivial (.found rfl rfl)
  have r9 := r8.next (.write () none) trivial (.write (by simp))
  have r10 := r9.next (.retire false 0) trivial (.retire rfl rfl nofun nofun)
  have r11 := r10.next (.exit false) trivial (.exit rfl (by rintro _ (_ | _) _ _ _ ⟨⟩))
  have r12 := r11.next (.scan true) trivial (.own rfl)
  have r13 := r12.next (.scan true) trivial (.ownDelete rfl (by rintro ⟨⟩))
  have r14 := r13.next (.scan true) trivial (.orphan rfl nofun (by rintro (_ | _) _ _ _ ⟨⟩))
  have r15 := r14.next (.scan true) trivial (.orphanDelete rfl (by rintro ⟨⟩))
  exact ⟨_, r15, rfl, rfl, rfl⟩

end JLib.Hazard
