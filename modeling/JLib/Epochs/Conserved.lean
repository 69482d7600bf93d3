import JLib.Epochs.Bags
import JLib.LTS.Conserved

/-!
# No retirement is lost

An entry is in one bag, or in the store of the orphans, or its deleter was started, once. While a loop
compacts a vector the vector stands for what was kept and what is still to be visited.
-/

namespace JLib.Epochs.Bags
open LTS Loops

inductive Place (θ : Type) where
  | bag (t : θ)
  | store
  | deleted

namespace Pass

/-- The loop of a thread over its bag. -/
def bagLoop {π : Type} (items : List (EpochRetired π)) (p : Pass) : Compaction (EpochRetired π) :=
  match p with
  | .own _ i kept _ => ⟨items, i, kept⟩
  | _ => ⟨items, 0, 0⟩

/-- The loop of a thread over the store. -/
def storeLoop {π : Type} (items : List (EpochRetired π)) (p : Pass) : Compaction (EpochRetired π) :=
  match p with
  | .sweep _ i kept _ => ⟨items, i, kept⟩
  | _ => ⟨items, 0, 0⟩

def sweeping : Pass → Bool
  | .sweep _ _ _ _ => true
  | _ => false

end Pass

variable {θ π : Type} {s u : State θ π} {a : Label θ π} {t : θ} {p : Pass} {ptr : π}
  {b r : List (EpochRetired π)}

namespace State

def bagLoop (s : State θ π) (t : θ) : Compaction (EpochRetired π) := (s.pass t).bagLoop (s.bag t)

def storeLoop (s : State θ π) : Compaction (EpochRetired π) :=
  match s.mtx with
  | some t => (s.pass t).storeLoop s.orphans
  | none => ⟨s.orphans, 0, 0⟩

/-- What is at each place. -/
def held (s : State θ π) : Place θ → List (EpochRetired π)
  | .bag t => (s.bagLoop t).content
  | .store => s.storeLoop.content
  | .deleted => s.deleted

end State

structure Inv (s : State θ π) : Prop where
  inside : ∀ t, (s.bagLoop t).Inside
  store : s.storeLoop.Inside
  holder : ∀ t, (s.pass t).sweeping = true ↔ s.mtx = some t
  serial : Numbered EpochRetired.serial s.retired
  conserved : Conserved s.held s.retired

/-- Nothing was retired. -/
lemma Inv.init : Inv ({} : State θ π) := by
  refine ⟨fun _ => Compaction.inside_begin [], Compaction.inside_begin [], fun _ => ⟨nofun, nofun⟩, nofun, ?_⟩
  apply Conserved.empty
  rintro (_ | _ | _)
  all_goals rfl

/-- The store is what it was while whoever sweeps it does not move. -/
lemma storeLoop_eq (mtx : u.mtx = s.mtx) (orphans : u.orphans = s.orphans)
    (pass : ∀ t', s.mtx = some t' → u.pass t' = s.pass t') : u.storeLoop = s.storeLoop := by
  unfold State.storeLoop
  rw [mtx, orphans]
  split
  next t' holds => rw [pass t' holds]
  next => rfl

variable [DecidableEq θ]

/-- A thread that does not sweep changes its own bag and where it is, and runs the deleters of `r`. -/
lemma Inv.own (inv : Inv s) (here : (s.pass t).sweeping = false) (there : p.sweeping = false)
    (bag : u.bag = Function.update s.bag t b) (pass : u.pass = Function.update s.pass t p)
    (orphans : u.orphans = s.orphans) (mtx : u.mtx = s.mtx) (retired : u.retired = s.retired)
    (deleted : u.deleted = s.deleted ++ r) (inside : (p.bagLoop b).Inside)
    (perm : ((p.bagLoop b).content ++ r).Perm (s.bagLoop t).content) : Inv u := by
  have free : s.mtx ≠ some t := by
    intro holds
    rw [(inv.holder t).2 holds] at here
    cases here
  have moved : ∀ t', t' ≠ t → u.pass t' = s.pass t' := by
    intro t' ne
    rw [pass, Function.update_of_ne ne]
  have store : u.storeLoop = s.storeLoop := storeLoop_eq mtx orphans fun t' holds => moved t' fun e => free (e ▸ holds)
  have loop : u.bagLoop t = p.bagLoop b := by
    unfold State.bagLoop
    rw [pass, bag, Function.update_self, Function.update_self]
  have other : ∀ t', t' ≠ t → u.bagLoop t' = s.bagLoop t' := by
    intro t' ne
    unfold State.bagLoop
    rw [moved t' ne, bag, Function.update_of_ne ne]
  refine ⟨fun t' => ?_, store ▸ inv.store, fun t' => ?_, retired ▸ inv.serial, ?_⟩
  · by_cases e : t' = t
    · rw [e, loop]
      exact inside
    · rw [other t' e]
      exact inv.inside t'
  · rw [mtx]
    by_cases e : t' = t
    · rw [e, pass, Function.update_self, there]
      exact ⟨nofun, fun holds => absurd holds free⟩
    · rw [moved t' e]
      exact inv.holder t'
  · rw [retired]
    refine inv.conserved.hand (p := .bag t) (q := .deleted) nofun ?_ ?_ deleted
    · rintro (t' | _ | _) ne ne'
      · exact congrArg Compaction.content (other t' fun e => ne (e ▸ rfl))
      · exact congrArg Compaction.content store
      · exact absurd rfl ne'
    · change ((u.bagLoop t).content ++ r).Perm (s.bagLoop t).content
      rw [loop]
      exact perm

/-- The thread that has the lock, or takes it, changes the store and where it is. -/
lemma Inv.sweep {o : List (EpochRetired π)} (inv : Inv s) (mine : s.mtx = some t ∨ s.mtx = none)
    (same : p.bagLoop (s.bag t) = s.bagLoop t) (bag : u.bag = s.bag) (pass : u.pass = Function.update s.pass t p)
    (orphans : u.orphans = o) (mtx : u.mtx = if p.sweeping then some t else none) (retired : u.retired = s.retired)
    (deleted : u.deleted = s.deleted ++ r) (inside : (p.storeLoop o).Inside)
    (perm : ((p.storeLoop o).content ++ r).Perm s.storeLoop.content) : Inv u := by
  have here : u.pass t = p := by
    rw [pass, Function.update_self]
  have moved : ∀ t', t' ≠ t → u.pass t' = s.pass t' := by
    intro t' ne
    rw [pass, Function.update_of_ne ne]
  have store : u.storeLoop = p.storeLoop o := by
    unfold State.storeLoop
    rw [mtx, orphans]
    cases p with
    | sweep _ _ _ _ =>
      change (u.pass t).storeLoop o = _
      rw [here]
    | _ => rfl
  have loop : ∀ t', u.bagLoop t' = s.bagLoop t' := by
    intro t'
    by_cases e : t' = t
    · rw [e, ← same]
      unfold State.bagLoop
      rw [here, bag]
    · unfold State.bagLoop
      rw [moved t' e, bag]
  refine ⟨fun t' => loop t' ▸ inv.inside t', store ▸ inside, fun t' => ?_, retired ▸ inv.serial, ?_⟩
  · rw [mtx]
    by_cases e : t' = t
    · rw [e, here]
      cases p.sweeping with
      | true => exact ⟨fun _ => rfl, fun _ => rfl⟩
      | false => exact ⟨nofun, nofun⟩
    · -- nobody else has the lock before or after
      rw [moved t' e, inv.holder t']
      constructor
      · intro holds
        rcases mine with mine | mine
        · exact absurd (Option.some.inj (holds.symm.trans mine)) e
        · cases holds.symm.trans mine
      · intro holds
        split at holds
        · exact absurd (Option.some.inj holds).symm e
        · cases holds
  · rw [retired]
    refine inv.conserved.hand (p := .store) (q := .deleted) nofun ?_ ?_ deleted
    · rintro (t' | _ | _) ne ne'
      · exact congrArg Compaction.content (loop t')
      · exact absurd rfl ne
      · exact absurd rfl ne'
    · change (u.storeLoop.content ++ r).Perm s.storeLoop.content
      rw [store]
      exact perm

/-- What is pushed is visited in its turn. -/
lemma Pass.bagLoop_push (p : Pass) (x : EpochRetired π) : p.bagLoop (b ++ [x]) = (p.bagLoop b).push x := by
  cases p with
  | _ => rfl

/-- Retiring a pointer puts it at one place. -/
lemma Inv.retire {epoch : Nat} (inv : Inv s) (free : s.bagDead t = true → s.mtx = none) :
    Inv (s.retirePtr t ptr epoch) := by
  have new : (⟨ptr, epoch, s.retired.length⟩ : EpochRetired π) ∉ s.retired := inv.serial.fresh rfl
  have serial := inv.serial.cons (k := ⟨ptr, epoch, s.retired.length⟩) rfl
  unfold State.retirePtr
  generalize (⟨ptr, epoch, s.retired.length⟩ : EpochRetired π) = x at new serial
  dsimp only
  split
  next dead =>
    have free := free dead
    have loop : s.storeLoop = ⟨s.orphans, 0, 0⟩ := by
      unfold State.storeLoop
      rw [free]
    unfold State.orphanEpochEntries
    rw [if_neg (List.cons_ne_nil _ _)]
    dsimp only
    have store : State.storeLoop
        { s with
          retired := x :: s.retired
          orphans := s.orphans ++ [x]
          orphanCount := (s.orphans ++ [x]).length } =
        s.storeLoop.push x := by
      rw [loop]
      unfold State.storeLoop
      dsimp only
      rw [free]
      rfl
    refine ⟨inv.inside, ?_, inv.holder, serial, ?_⟩
    · rw [store]
      exact Compaction.push_inside inv.store
    · refine inv.conserved.put (p := .store) new ?_ ?_
      · rintro (t' | _ | _) ne
        · rfl
        · exact absurd rfl ne
        · rfl
      · change (State.storeLoop _).content.Perm (_ :: s.storeLoop.content)
        rw [store, Compaction.content_push inv.store]
        exact List.perm_append_singleton ..
  next =>
    have loop : ∀ t', State.bagLoop
        { s with
          retired := x :: s.retired
          bag := Function.update s.bag t (s.bag t ++ [x]) } t' =
          if t' = t then (s.bagLoop t).push x else s.bagLoop t' := by
      intro t'
      unfold State.bagLoop
      dsimp only
      split
      next e => rw [e, Function.update_self, Pass.bagLoop_push]
      next ne => rw [Function.update_of_ne ne]
    refine ⟨fun t' => ?_, inv.store, inv.holder, serial, ?_⟩
    · rw [loop]
      split
      · exact Compaction.push_inside (inv.inside t)
      · exact inv.inside t'
    · refine inv.conserved.put (p := .bag t) new ?_ ?_
      · rintro (t' | _ | _) ne
        · change (State.bagLoop _ t').content = (s.bagLoop t').content
          have ne : t' ≠ t := fun e => ne (e ▸ rfl)
          rw [loop, if_neg ne]
        · rfl
        · rfl
      · change (State.bagLoop _ t).content.Perm (_ :: (s.bagLoop t).content)
        rw [loop, if_pos rfl, Compaction.content_push (inv.inside t)]
        exact List.perm_append_singleton ..

/-- A thread ends: what its bag holds goes to the store, if there is anything. -/
lemma Inv.exit (inv : Inv s) (idle : s.pass t = .idle) (bag : u.bag = Function.update s.bag t [])
    (pass : u.pass = s.pass) (mtx : u.mtx = s.mtx) (retired : u.retired = s.retired) (deleted : u.deleted = s.deleted)
    (store : s.bag t = [] ∧ u.orphans = s.orphans ∨ s.mtx = none ∧ u.orphans = s.orphans ++ s.bag t) : Inv u := by
  have old : (s.bagLoop t).content = s.bag t := by
    unfold State.bagLoop
    rw [idle]
    rfl
  have now : u.bagLoop t = ⟨[], 0, 0⟩ := by
    unfold State.bagLoop
    rw [pass, bag, Function.update_self, idle]
    rfl
  have other : ∀ t', t' ≠ t → u.bagLoop t' = s.bagLoop t' := by
    intro t' ne
    unfold State.bagLoop
    rw [pass, bag, Function.update_of_ne ne]
  have moved : u.storeLoop.Inside ∧ u.storeLoop.content.Perm (s.bag t ++ s.storeLoop.content) := by
    rcases store with ⟨nil, same⟩ | ⟨free, more⟩
    · rw [storeLoop_eq mtx same fun _ _ => congrFun pass _, nil]
      exact ⟨inv.store, .refl _⟩
    · have before : s.storeLoop = ⟨s.orphans, 0, 0⟩ := by rw [State.storeLoop, free]
      have after : u.storeLoop = ⟨s.orphans ++ s.bag t, 0, 0⟩ := by rw [State.storeLoop, mtx, free, more]
      rw [before, after, Compaction.content_begin, Compaction.content_begin]
      exact ⟨Compaction.inside_begin _, List.perm_append_comm⟩
  refine ⟨fun t' => ?_, moved.1, ?_, retired ▸ inv.serial, ?_⟩
  · by_cases e : t' = t
    · rw [e, now]
      exact Compaction.inside_begin _
    · rw [other t' e]
      exact inv.inside t'
  · rw [pass, mtx]
    exact inv.holder
  · rw [retired]
    refine inv.conserved.move (p := .bag t) (q := .store) nofun ?_ ?_
    · rintro (t' | _ | _) ne ne'
      · exact congrArg Compaction.content (other t' fun e => ne (e ▸ rfl))
      · exact absurd rfl ne'
      · exact deleted
    · change ((u.bagLoop t).content ++ u.storeLoop.content).Perm ((s.bagLoop t).content ++ s.storeLoop.content)
      rw [now, old]
      exact moved.2

omit [DecidableEq θ] in
/-- The loop over the bag, in a round. -/
lemma bagLoop_own {v i kept : Nat} {d : Bool} (here : s.pass t = .own v i kept d) :
    s.bagLoop t = ⟨s.bag t, i, kept⟩ ∧ (s.pass t).sweeping = false := by
  unfold State.bagLoop
  rw [here]
  exact ⟨rfl, rfl⟩

omit [DecidableEq θ] in
/-- The loop over the store, in a round. -/
lemma Inv.storeLoop_sweep {v i kept : Nat} {d : Bool} (inv : Inv s) (here : s.pass t = .sweep v i kept d) :
    s.storeLoop = ⟨s.orphans, i, kept⟩ ∧ s.mtx = some t ∧ s.bagLoop t = ⟨s.bag t, 0, 0⟩ := by
  have mine : s.mtx = some t := (inv.holder t).1 (by rw [here]; rfl)
  unfold State.storeLoop State.bagLoop
  rw [mine]
  dsimp only
  rw [here]
  exact ⟨rfl, rfl, rfl⟩

/-- A round that leaves the vector as it is. -/
lemma Inv.ownStay (inv : Inv s) (here : (s.pass t).sweeping = false) (there : p.sweeping = false)
    (inside : (p.bagLoop (s.bag t)).Inside)
    (perm : ((p.bagLoop (s.bag t)).content ++ r).Perm (s.bagLoop t).content) :
    Inv ({ s with deleted := s.deleted ++ r }.setPass t p) :=
  inv.own here there (Function.update_eq_self ..).symm rfl rfl rfl rfl rfl inside perm

/-- A thread goes on without touching a vector. -/
lemma Inv.goOn (inv : Inv s) (here : (s.pass t).sweeping = false) (there : p.sweeping = false)
    (same : p.bagLoop (s.bag t) = s.bagLoop t) : Inv (s.setPass t p) := by
  have stay := inv.ownStay (p := p) (r := []) here there (same ▸ inv.inside t) (by
    rw [same, List.append_nil])
  rw [List.append_nil] at stay
  exact stay

/-- A step keeps every retired pointer at one place. -/
lemma Inv.step (inv : Inv s) (st : Step s a u) : Inv u := by
  cases st with
  | retire _ free => exact inv.retire free
  | @reclaim t v idle _ _ =>
    refine inv.goOn (by rw [idle]; rfl) rfl ?_
    rw [State.bagLoop, idle]
    rfl
  | @ownDelete t v i kept x here at' old =>
    obtain ⟨loop, out⟩ := bagLoop_own here
    have inside := inv.inside t
    rw [loop] at inside
    refine inv.ownStay out rfl (Compaction.drop_inside inside at') ?_
    rw [loop]
    exact (List.perm_append_singleton ..).trans (Compaction.content_drop (c := ⟨s.bag t, i, kept⟩) at').symm
  | @ownReturn t v i kept here =>
    obtain ⟨loop, out⟩ := bagLoop_own here
    exact inv.goOn out rfl loop.symm
  | @ownKeep t v i kept x here at' young =>
    obtain ⟨loop, out⟩ := bagLoop_own here
    have inside := inv.inside t
    rw [loop] at inside
    refine inv.own (r := []) out rfl rfl rfl rfl rfl rfl (List.append_nil _).symm
      (Compaction.keep_inside inside at') ?_
    rw [loop, List.append_nil]
    exact .of_eq (Compaction.content_keep inside at')
  | @ownEnd t v i kept here done =>
    obtain ⟨loop, out⟩ := bagLoop_own here
    refine inv.own (p := .gate v) (r := []) out rfl rfl rfl rfl rfl rfl (List.append_nil _).symm
      (Compaction.inside_begin _) ?_
    rw [loop, List.append_nil, Compaction.content_end (c := ⟨s.bag t, i, kept⟩) done]
    exact .refl _
  | @shut t v here _ =>
    refine inv.goOn (by rw [here]; rfl) rfl ?_
    rw [State.bagLoop, here]
    rfl
  | @opened t v here _ =>
    refine inv.goOn (by rw [here]; rfl) rfl ?_
    rw [State.bagLoop, here]
    rfl
  | @lock t v here free =>
    have store : s.storeLoop = ⟨s.orphans, 0, 0⟩ := by rw [State.storeLoop, free]
    refine inv.sweep (p := .sweep v 0 0 false) (r := []) (.inr free) ?_ rfl rfl rfl rfl rfl
      (List.append_nil _).symm (Compaction.inside_begin _) ?_
    · rw [State.bagLoop, here]
      rfl
    · rw [store, List.append_nil]
      exact .refl _
  | @sweepDelete t v i kept x here at' old =>
    obtain ⟨store, mine, loop⟩ := inv.storeLoop_sweep here
    have inside := inv.store
    rw [store] at inside
    refine inv.sweep (p := .sweep v (i + 1) kept true) (.inl mine) loop.symm rfl rfl rfl mine rfl rfl
      (Compaction.drop_inside inside at') ?_
    rw [store]
    exact (List.perm_append_singleton ..).trans (Compaction.content_drop (c := ⟨s.orphans, i, kept⟩) at').symm
  | @sweepReturn t v i kept here =>
    obtain ⟨store, mine, loop⟩ := inv.storeLoop_sweep here
    have inside := inv.store
    rw [store] at inside
    refine inv.sweep (p := .sweep v i kept false) (r := []) (.inl mine) loop.symm rfl rfl rfl mine rfl
      (List.append_nil _).symm inside ?_
    rw [store, List.append_nil]
    exact .refl _
  | @sweepKeep t v i kept x here at' young =>
    obtain ⟨store, mine, loop⟩ := inv.storeLoop_sweep here
    have inside := inv.store
    rw [store] at inside
    refine inv.sweep (p := .sweep v (i + 1) (kept + 1) false) (r := []) (.inl mine) loop.symm rfl rfl rfl mine rfl
      (List.append_nil _).symm (Compaction.keep_inside inside at') ?_
    rw [store, List.append_nil]
    exact .of_eq (Compaction.content_keep inside at')
  | @sweepEnd t v i kept here done =>
    obtain ⟨store, mine, loop⟩ := inv.storeLoop_sweep here
    refine inv.sweep (p := .idle) (r := []) (.inl mine) loop.symm rfl rfl rfl rfl rfl
      (List.append_nil _).symm (Compaction.inside_begin _) ?_
    rw [store, List.append_nil, Compaction.content_end (c := ⟨s.orphans, i, kept⟩) done]
    exact .refl _
  | @exit t idle free =>
    unfold State.orphanEpochEntries
    split
    next nil => exact inv.exit idle rfl rfl rfl rfl rfl (.inl ⟨nil, rfl⟩)
    next more => exact inv.exit idle rfl rfl rfl rfl rfl (.inr ⟨free more, rfl⟩)

/-- Every retired entry is in exactly one of the bags, the store and the entries whose deleter was run, and
is there once. -/
theorem retirements_conserved (rn : Reaches Step ({} : State θ π) s) :
    (∀ x ∈ s.retired, ∃! p, x ∈ s.held p) ∧ ∀ p, (s.held p).Nodup := by
  have inv : Inv s := rn.invariant .init fun inv _ st => inv.step st
  exact ⟨fun x mem => inv.conserved.one_place mem, inv.conserved.custody.nodup⟩

/-- A deleter that the loop over the bag runs retires another object, which the loop then visits and keeps. -/
theorem retirements_conserved_nested :
    ∃ s : State Unit Nat, Reaches Step {} s ∧ s.pass () = .idle ∧ s.deleted = [⟨7, 0, 0⟩] ∧ s.bag () = [⟨8, 9, 1⟩] ∧
      (∀ x ∈ s.retired, ∃! p, x ∈ s.held p) ∧ ∀ p, (s.held p).Nodup := by
  have start : Reaches Step ({} : State Unit Nat) _ := .refl
  have r1 := start.next (.retire () 7 0) trivial (.retire rfl nofun)
  have r2 := r1.next (.reclaim () 5) trivial (.reclaim rfl rfl fun h => nomatch h.1)
  have r3 := r2.next (.pass ()) trivial (.ownDelete rfl rfl (by decide))
  have r4 := r3.next (.retire () 8 9) trivial (.retire rfl nofun)
  have r5 := r4.next (.pass ()) trivial (.ownReturn rfl)
  have r6 := r5.next (.pass ()) trivial (.ownKeep rfl rfl (by decide))
  have r7 := r6.next (.pass ()) trivial (.ownEnd rfl rfl)
  have r8 := r7.next (.pass ()) trivial (.shut rfl rfl)
  exact ⟨_, r8, rfl, rfl, rfl, retirements_conserved r8⟩

end JLib.Epochs.Bags
