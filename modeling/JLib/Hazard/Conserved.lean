import JLib.Hazard.Bags
import JLib.LTS.Conserved

/-!
# Retirements that are lost

An entry is in one bag, or in the store of the orphans, or its deleter was started, once: as long as no deleter
that the loop over a thread's own bag runs retires. What such a deleter pushes is behind the end of the loop, and
the vector it is in is thrown away when the loop has ended.
-/

namespace JLib.Hazard.Bags
open LTS Loops

inductive Place (θ : Type) where
  | bag (t : θ)
  | store
  | deleted

variable {θ π : Type}

/-- The loop over the bag, if it is the innermost. -/
def bagWalk (fs : List (Frame π)) (items : List (Retired π)) : Walk (Retired π) :=
  match fs with
  | .own _ _ i stop keep _ :: _ => ⟨items, i, stop, keep⟩
  | _ => ⟨items, 0, items.length, []⟩

/-- The loop over the store. -/
def storeWalk (mtx : Option (θ × Sweep π)) (orphans : List (Retired π)) : Walk (Retired π) :=
  match mtx with
  | some (_, v) => ⟨orphans, v.i, v.stop, v.stillNamed⟩
  | none => ⟨orphans, 0, orphans.length, []⟩

/-- What is at each place. -/
def State.held (s : State θ π) : Place θ → List (Retired π)
  | .bag t => (bagWalk (s.stack t) (s.items t)).content
  | .store => (storeWalk s.mtx s.orphans).content
  | .deleted => s.deleted

/-- A deleter that the loop over the bag runs does not retire. -/
def Quiet (s : State θ π) : Label θ π → Prop
  | .retire t _ _ => ∀ named b i stop keep fs, s.stack t ≠ .own named b i stop keep true :: fs
  | _ => True

def Frame.sweeping : Frame π → Bool
  | .sweep _ _ => true
  | _ => false

/-- A call of `Scan` is made by the thread itself or by a deleter that the thread's sweep runs. -/
inductive Shape (mine : Prop) : List (Frame π) → Prop where
  | out :
    Shape mine []
  | one {f} :
    f.sweeping = false →
    Shape mine [f]
  | sweep {named d} :
    mine →
    Shape mine [.sweep named d]
  | nested {f named} :
    f.sweeping = false →
    mine →
    Shape mine [f, .sweep named true]

variable {s u : State θ π} {a : Label θ π} {t : θ} {fs k : List (Frame π)} {l r : List (Retired π)} {p : π}
  {w : Setup} {mine : Prop} {f : Frame π} {named : List π}

/-- The calls of a thread are made by itself or by its sweep. -/
lemma Shape.mono {mine' : Prop} (h : mine → mine') (sh : Shape mine fs) : Shape mine' fs := by
  cases sh with
  | out => exact .out
  | one no => exact .one no
  | sweep m => exact .sweep (h m)
  | nested no m => exact .nested no (h m)

/-- The innermost call goes on. -/
lemma Shape.replace {g : Frame π} (sh : Shape mine (f :: fs)) (hf : f.sweeping = false) (hg : g.sweeping = false) :
    Shape mine (g :: fs) := by
  cases sh with
  | one _ => exact .one hg
  | sweep _ => cases hf
  | nested _ m => exact .nested hg m

/-- The innermost call returns. -/
lemma Shape.pop (sh : Shape mine (f :: fs)) : Shape mine fs := by
  cases sh with
  | one _ => exact .out
  | sweep _ => exact .out
  | nested _ m => exact .sweep m

/-- A call that sweeps is the only one. -/
lemma Shape.sweep_only {d : Bool} (sh : Shape mine (.sweep named d :: fs)) : fs = [] ∧ mine := by
  cases sh with
  | one no => cases no
  | sweep m => exact ⟨rfl, m⟩
  | nested no _ => cases no

/-- The iterators of the innermost loop over the bag are good. -/
def Good (fs : List (Frame π)) (l : List (Retired π)) (buffer : Nat) : Prop :=
  ∀ named b i stop keep d rest, fs = .own named b i stop keep d :: rest →
    b = buffer ∧ stop = l.length ∧ i ≤ stop

structure Inv (s : State θ π) : Prop where
  shape : ∀ t, Shape (∃ v, s.mtx = some (t, v)) (s.stack t)
  good : ∀ t, Good (s.stack t) (s.items t) (s.buffer t)
  sweep : ∀ t v, s.mtx = some (t, v) → v.stop = s.orphans.length ∧ v.i ≤ v.stop
  serial : Numbered Retired.serial s.retired
  conserved : Conserved s.held s.retired

/-- Nothing was retired yet. -/
lemma Inv.init : Inv ({} : State θ π) := by
  refine ⟨fun _ => .out, fun _ => nofun, nofun, nofun, ?_⟩
  apply Conserved.empty
  rintro (_ | _ | _)
  all_goals rfl

variable [DecidableEq θ]

/-- A thread changes its bag and its calls, and runs the deleters of `r`. -/
lemma Inv.own (inv : Inv s) (stack : u.stack = Function.update s.stack t k)
    (items : u.items = Function.update s.items t l)
    (buffer : ∀ t', t' ≠ t → u.buffer t' = s.buffer t') (orphans : u.orphans = s.orphans) (mtx : u.mtx = s.mtx)
    (retired : u.retired = s.retired) (deleted : u.deleted = s.deleted ++ r)
    (shape : Shape (∃ v, s.mtx = some (t, v)) k) (good : Good k l (u.buffer t))
    (perm : ((bagWalk k l).content ++ r).Perm (bagWalk (s.stack t) (s.items t)).content) : Inv u := by
  have here : u.stack t = k ∧ u.items t = l := by
    rw [stack, items]
    exact ⟨Function.update_self .., Function.update_self ..⟩
  have other : ∀ t', t' ≠ t → u.stack t' = s.stack t' ∧ u.items t' = s.items t' := by
    intro t' ne
    rw [stack, items]
    exact ⟨Function.update_of_ne ne .., Function.update_of_ne ne ..⟩
  refine ⟨fun t' => ?_, fun t' => ?_, ?_, retired ▸ inv.serial, ?_⟩
  · rw [mtx]
    by_cases e : t' = t
    · rw [e, here.1]
      exact shape
    · rw [(other t' e).1]
      exact inv.shape t'
  · by_cases e : t' = t
    · rw [e, here.1, here.2]
      exact good
    · rw [(other t' e).1, (other t' e).2, buffer t' e]
      exact inv.good t'
  · rw [mtx, orphans]
    exact inv.sweep
  · rw [retired]
    refine inv.conserved.hand (p := .bag t) (q := .deleted) nofun ?_ ?_ deleted
    · rintro (t' | _ | _) ne ne'
      · have ne : t' ≠ t := fun e => ne (e ▸ rfl)
        unfold State.held
        dsimp only
        rw [(other t' ne).1, (other t' ne).2]
      · unfold State.held
        dsimp only
        rw [mtx, orphans]
      · exact absurd rfl ne'
    · unfold State.held
      dsimp only
      rw [here.1, here.2]
      exact perm

/-- The thread that has the lock, or takes it, changes the store and its calls. -/
lemma Inv.store {m : Option (θ × Sweep π)} {o : List (Retired π)} (inv : Inv s)
    (mine : ∀ t' v, s.mtx = some (t', v) → t' = t)
    (stack : u.stack = Function.update s.stack t k) (items : u.items = s.items) (buffer : u.buffer = s.buffer)
    (orphans : u.orphans = o) (mtx : u.mtx = m) (retired : u.retired = s.retired) (deleted : u.deleted = s.deleted ++ r)
    (shape : Shape (∃ v, m = some (t, v)) k) (good : Good k (s.items t) (s.buffer t))
    (same : bagWalk k (s.items t) = bagWalk (s.stack t) (s.items t))
    (sweep : ∀ t v, m = some (t, v) → v.stop = o.length ∧ v.i ≤ v.stop)
    (perm : ((storeWalk m o).content ++ r).Perm (storeWalk s.mtx s.orphans).content) : Inv u := by
  have here : u.stack t = k := by
    rw [stack]
    exact Function.update_self ..
  have other : ∀ t', t' ≠ t → u.stack t' = s.stack t' := by
    intro t' ne
    rw [stack]
    exact Function.update_of_ne ne ..
  refine ⟨fun t' => ?_, fun t' => ?_, ?_, retired ▸ inv.serial, ?_⟩
  · rw [mtx]
    by_cases e : t' = t
    · rw [e, here]
      exact shape
    · -- nobody else has the lock before
      rw [other t' e]
      refine (inv.shape t').mono ?_
      rintro ⟨v, holds⟩
      exact absurd (mine t' v holds) e
  · rw [items, buffer]
    by_cases e : t' = t
    · rw [e, here]
      exact good
    · rw [other t' e]
      exact inv.good t'
  · rw [mtx, orphans]
    exact sweep
  · rw [retired]
    refine inv.conserved.hand (p := .store) (q := .deleted) nofun ?_ ?_ deleted
    · rintro (t' | _ | _) ne ne'
      · unfold State.held
        dsimp only
        rw [items]
        by_cases e : t' = t
        · rw [e, here, same]
        · rw [other t' e]
      · exact absurd rfl ne
      · exact absurd rfl ne'
    · unfold State.held
      dsimp only
      rw [mtx, orphans]
      exact perm

/-- The innermost call is not in the loop over the bag. -/
def Calm (fs : List (Frame π)) : Prop := ∀ named b i stop keep d rest, fs ≠ .own named b i stop keep d :: rest

/-- Outside the loop the bag is as it lies. -/
lemma Calm.walk (calm : Calm fs) (l : List (Retired π)) : bagWalk fs l = ⟨l, 0, l.length, []⟩ := by
  unfold bagWalk
  split
  next => exact absurd rfl (calm _ _ _ _ _ _ _)
  next => rfl

/-- Outside the loop the bag has what it lists. -/
lemma Calm.content (calm : Calm fs) (l : List (Retired π)) : (bagWalk fs l).content = l := by
  rw [calm.walk]
  rfl

/-- Outside the loop there are no iterators to spoil. -/
lemma Calm.good (calm : Calm fs) (l : List (Retired π)) (b : Nat) : Good fs l b :=
  fun _ _ _ _ _ _ _ h => absurd h (calm _ _ _ _ _ _ _)

/-- The thread is not in `Scan`, or a deleter of its sweep runs. -/
def Away (fs : List (Frame π)) : Prop := fs = [] ∨ ∃ named, fs = [.sweep named true]

/-- A thread outside `Scan` is not in the loop over the bag. -/
lemma Away.calm (away : Away fs) : Calm fs := by
  rcases away with rfl | ⟨_, rfl⟩
  · nofun
  · nofun

/-- Under the innermost call the thread is away. -/
lemma Shape.under (sh : Shape mine (f :: fs)) : Away fs := by
  cases sh with
  | one _ => exact .inl rfl
  | sweep _ => exact .inl rfl
  | nested _ _ => exact .inr ⟨_, rfl⟩

omit [DecidableEq θ] in
/-- A deleter that may retire runs outside the loop over the bag. -/
lemma Inv.away (inv : Inv s) (out : s.outside t = true) (quiet : Quiet s (.retire t p named)) : Away (s.stack t) := by
  have own : ∀ f fs, s.stack t = f :: fs → f.sweeping = false → f.deleting = true → False := by
    intro f fs e no del
    cases f with
    | own named b i stop keep d =>
      obtain rfl : d = true := del
      exact quiet _ _ _ _ _ _ e
    | sweep _ _ => cases no
    | gate _ => cases del
    | lock _ => cases del
    | undefined => cases del
  have sh := inv.shape t
  unfold State.outside at out
  generalize e : s.stack t = stack at sh out own
  cases sh with
  | out => exact .inl rfl
  | one no => exact (own _ _ rfl no out).elim
  | sweep _ =>
    cases out
    exact .inr ⟨_, rfl⟩
  | nested no _ => exact (own _ _ rfl no out).elim

/-- A loop over the bag begins. -/
lemma Inv.beginScan (inv : Inv s) (away : Away (s.stack t)) : Inv (s.beginScan t named) := by
  refine inv.own (t := t) (r := []) rfl (Function.update_eq_self ..).symm (fun _ _ => rfl) rfl rfl rfl
    (List.append_nil _).symm ?_ ?_ ?_
  · have sh := inv.shape t
    rcases away with e | ⟨_, e⟩
    · rw [e]
      exact .one rfl
    · rw [e] at sh ⊢
      exact .nested rfl (Shape.sweep_only sh).2
  · rintro _ _ _ _ _ _ _ h
    cases h
    exact ⟨rfl, rfl, Nat.zero_le _⟩
  · rw [away.calm.content, List.append_nil]
    exact .refl _

/-- A retirement into the bag. -/
lemma Inv.push {x : Retired π} (inv : Inv s) (away : Away (s.stack t)) (new : x.serial = s.retired.length)
    (stack : u.stack = s.stack) (items : u.items = Function.update s.items t (s.items t ++ [x]))
    (buffer : ∀ t', t' ≠ t → u.buffer t' = s.buffer t') (orphans : u.orphans = s.orphans) (mtx : u.mtx = s.mtx)
    (retired : u.retired = x :: s.retired) (deleted : u.deleted = s.deleted) : Inv u := by
  have here : u.items t = s.items t ++ [x] := by
    rw [items]
    exact Function.update_self ..
  have other : ∀ t', t' ≠ t → u.items t' = s.items t' := by
    intro t' ne
    rw [items]
    exact Function.update_of_ne ne ..
  refine ⟨fun t' => ?_, fun t' => ?_, ?_, ?_, ?_⟩
  · rw [stack, mtx]
    exact inv.shape t'
  · rw [stack]
    by_cases e : t' = t
    · rw [e]
      exact away.calm.good _ _
    · rw [other t' e, buffer t' e]
      exact inv.good t'
  · rw [mtx, orphans]
    exact inv.sweep
  · rw [retired]
    exact inv.serial.cons new
  · rw [retired]
    refine inv.conserved.put (p := .bag t) (inv.serial.fresh new) ?_ ?_
    · rintro (t' | _ | _) ne
      · have ne : t' ≠ t := fun e => ne (e ▸ rfl)
        unfold State.held
        dsimp only
        rw [stack, other t' ne]
      · unfold State.held
        dsimp only
        rw [mtx, orphans]
      · exact deleted
    · unfold State.held
      dsimp only
      rw [stack, here, away.calm.content, away.calm.content]
      exact List.perm_append_singleton ..

omit [DecidableEq θ] in
/-- A retirement into the store, which nobody sweeps. -/
lemma Inv.adopt {x : Retired π} (inv : Inv s) (free : s.mtx = none) (new : x.serial = s.retired.length)
    (stack : u.stack = s.stack) (items : u.items = s.items) (buffer : u.buffer = s.buffer)
    (orphans : u.orphans = s.orphans ++ [x]) (mtx : u.mtx = s.mtx) (retired : u.retired = x :: s.retired)
    (deleted : u.deleted = s.deleted) : Inv u := by
  refine ⟨fun t' => ?_, fun t' => ?_, ?_, ?_, ?_⟩
  · rw [stack, mtx]
    exact inv.shape t'
  · rw [stack, items, buffer]
    exact inv.good t'
  · rw [mtx, free]
    exact nofun
  · rw [retired]
    exact inv.serial.cons new
  · rw [retired]
    refine inv.conserved.put (p := .store) (inv.serial.fresh new) ?_ ?_
    · rintro (t' | _ | _) ne
      · unfold State.held
        dsimp only
        rw [stack, items]
      · exact absurd rfl ne
      · exact deleted
    · unfold State.held
      dsimp only
      rw [mtx, orphans, free]
      exact List.perm_append_singleton ..

/-- A thread ends: what its bag holds goes to the store, if there is anything. -/
lemma Inv.exit (inv : Inv s) (idle : s.stack t = []) (items : u.items = Function.update s.items t [])
    (stack : u.stack = s.stack) (buffer : u.buffer = s.buffer) (mtx : u.mtx = s.mtx) (retired : u.retired = s.retired)
    (deleted : u.deleted = s.deleted)
    (store : s.items t = [] ∧ u.orphans = s.orphans ∨ s.mtx = none ∧ u.orphans = s.orphans ++ s.items t) : Inv u := by
  have here : u.items t = [] := by
    rw [items]
    exact Function.update_self ..
  have other : ∀ t', t' ≠ t → u.items t' = s.items t' := by
    intro t' ne
    rw [items]
    exact Function.update_of_ne ne ..
  refine ⟨fun t' => ?_, fun t' => ?_, ?_, retired ▸ inv.serial, ?_⟩
  · rw [stack, mtx]
    exact inv.shape t'
  · rw [stack, buffer]
    by_cases e : t' = t
    · rw [e, idle]
      exact nofun
    · rw [other t' e]
      exact inv.good t'
  · rw [mtx]
    rcases store with ⟨_, same⟩ | ⟨free, _⟩
    · rw [same]
      exact inv.sweep
    · rw [free]
      exact nofun
  · rw [retired]
    refine inv.conserved.move (p := .bag t) (q := .store) nofun ?_ ?_
    · rintro (t' | _ | _) ne ne'
      · have ne : t' ≠ t := fun e => ne (e ▸ rfl)
        unfold State.held
        dsimp only
        rw [stack, other t' ne]
      · exact absurd rfl ne'
      · exact deleted
    · unfold State.held
      dsimp only
      rw [stack, idle, here, mtx]
      rcases store with ⟨nil, same⟩ | ⟨free, more⟩
      · rw [nil, same]
      · rw [free, more]
        change (s.orphans ++ s.items t).Perm (s.items t ++ s.orphans)
        exact List.perm_append_comm

/-- What is retired joins the bag, or the store. -/
lemma Inv.retire (inv : Inv s) (out : s.outside t = true) (quiet : Quiet s (.retire t p named))
    (free : s.retireDead t = true → s.mtx = none) : Inv (s.retire w t p named) := by
  have away := inv.away out quiet
  unfold State.retire
  dsimp only
  split
  next dead =>
    have free := free dead
    unfold State.adoptOrphans
    rw [if_neg (List.cons_ne_nil _ _)]
    exact inv.adopt free rfl rfl rfl rfl rfl rfl rfl rfl
  next =>
    have pushed : Inv (State.emplaceBack w { s with retired := ⟨p, s.retired.length⟩ :: s.retired } t
        ⟨p, s.retired.length⟩) := by
      unfold State.emplaceBack
      dsimp only
      split
      · exact inv.push away rfl rfl rfl (fun _ _ => rfl) rfl rfl rfl rfl
      · exact inv.push away rfl rfl rfl (fun t' ne => Function.update_of_ne ne ..) rfl rfl rfl rfl
    split
    next =>
      refine pushed.beginScan ?_
      unfold State.emplaceBack
      dsimp only
      split
      · exact away
      · exact away
    next => exact pushed

/-- A thread goes on outside the loop over its bag. -/
lemma Inv.goOn (inv : Inv s) (shape : Shape (∃ v, s.mtx = some (t, v)) fs) (there : Calm fs) (here : Calm (s.stack t)) :
    Inv (s.setStack t fs) := by
  refine inv.own (l := s.items t) (r := []) rfl (Function.update_eq_self ..).symm (fun _ _ => rfl) rfl rfl rfl
    (List.append_nil _).symm shape (there.good _ _) ?_
  rw [there.content, here.content, List.append_nil]

/-- A step under the condition loses no entry. -/
lemma Inv.step (inv : Inv s) (ok : Quiet s a) (st : Step w s a u) : Inv u := by
  cases st with
  | retire out free => exact inv.retire out ok free
  | scan idle _ _ => exact inv.beginScan (.inl idle)
  | @ownDelete t named b i stop keep x fs here _ lt at' old =>
    have sh := inv.shape t
    obtain ⟨same, whole, _⟩ := inv.good t _ _ _ _ _ _ _ here
    rw [here] at sh
    refine inv.own (t := t) (k := .own named b (i + 1) stop keep true :: fs) (r := [x]) rfl
      (Function.update_eq_self ..).symm (fun _ _ => rfl) rfl rfl rfl rfl (sh.replace rfl rfl) ?_ ?_
    · rintro _ _ _ _ _ _ _ h
      cases h
      exact ⟨same, whole, lt⟩
    · rw [here]
      exact (List.perm_append_singleton ..).trans
        (Walk.content_drop (w := ⟨s.items t, i, stop, keep⟩) at').symm
  | @ownReturn t named b i stop keep fs here =>
    have sh := inv.shape t
    obtain ⟨same, whole, le⟩ := inv.good t _ _ _ _ _ _ _ here
    rw [here] at sh
    refine inv.own (t := t) (k := .own named b i stop keep false :: fs) (r := []) rfl
      (Function.update_eq_self ..).symm (fun _ _ => rfl) rfl rfl rfl (List.append_nil _).symm (sh.replace rfl rfl) ?_ ?_
    · rintro _ _ _ _ _ _ _ h
      cases h
      exact ⟨same, whole, le⟩
    · rw [here, List.append_nil]
      exact .refl _
  | @ownKeep t named b i stop keep x fs here _ lt at' young =>
    have sh := inv.shape t
    obtain ⟨same, whole, _⟩ := inv.good t _ _ _ _ _ _ _ here
    rw [here] at sh
    refine inv.own (t := t) (k := .own named b (i + 1) stop (keep ++ [x]) false :: fs) (r := []) rfl
      (Function.update_eq_self ..).symm (fun _ _ => rfl) rfl rfl rfl (List.append_nil _).symm (sh.replace rfl rfl) ?_ ?_
    · rintro _ _ _ _ _ _ _ h
      cases h
      exact ⟨same, whole, lt⟩
    · rw [here, List.append_nil]
      exact .of_eq (Walk.content_keep (w := ⟨s.items t, i, stop, keep⟩) at')
  | @ownEnd t named b i stop keep fs here _ done =>
    have sh := inv.shape t
    obtain ⟨same, whole, _⟩ := inv.good t _ _ _ _ _ _ _ here
    rw [here] at sh
    refine inv.own (t := t) (k := .gate named :: fs) (r := []) rfl rfl
      (fun t' ne => Function.update_of_ne ne ..) rfl rfl rfl (List.append_nil _).symm (sh.replace rfl rfl) ?_ ?_
    · rintro _ _ _ _ _ _ _ h
      cases h
    · -- nothing was pushed, so the second vector is all there is
      rw [here, List.append_nil]
      have all := Walk.content_end (w := ⟨s.items t, i, stop, keep⟩) (whole ▸ done ▸ Nat.le_refl _)
      exact .of_eq all.symm
  | @undefined t named b i stop keep fs here bad =>
    exact absurd (inv.good t _ _ _ _ _ _ _ here).1 bad
  | @shut t named fs here _ =>
    have sh := inv.shape t
    rw [here] at sh
    exact inv.goOn sh.pop sh.under.calm (here ▸ nofun)
  | @opened t named fs here _ =>
    have sh := inv.shape t
    rw [here] at sh
    exact inv.goOn (sh.replace rfl rfl) nofun (here ▸ nofun)
  | @lock t named fs here free =>
    have sh := inv.shape t
    rw [here] at sh
    have only : fs = [] := by
      rcases sh.under with e | ⟨n, rfl⟩
      · exact e
      · obtain ⟨-, v, holds⟩ := sh.pop.sweep_only
        rw [free] at holds
        cases holds
    subst only
    refine inv.store (t := t) (r := []) (fun _ _ holds => ?_) rfl rfl rfl rfl rfl rfl (List.append_nil _).symm
      (.sweep ⟨_, rfl⟩) nofun ?_ ?_ ?_
    · rw [free] at holds
      cases holds
    · rw [here]
      rfl
    · rintro _ _ h
      cases h
      exact ⟨rfl, Nat.zero_le _⟩
    · rw [free, List.append_nil]
      exact .refl _
  | @sweepDelete t named v x fs here mine lt at' old =>
    have sh := inv.shape t
    rw [here] at sh
    obtain ⟨rfl, -⟩ := sh.sweep_only
    obtain ⟨whole, _⟩ := inv.sweep t v mine
    refine inv.store (t := t) (r := [x]) (fun _ _ holds => ?_) rfl rfl rfl rfl rfl rfl rfl
      (.sweep ⟨_, rfl⟩) nofun ?_ ?_ ?_
    · rw [mine] at holds
      cases holds
      rfl
    · rw [here]
      rfl
    · rintro _ _ h
      cases h
      exact ⟨whole, lt⟩
    · rw [mine]
      exact (List.perm_append_singleton ..).trans
        (Walk.content_drop (w := ⟨s.orphans, v.i, v.stop, v.stillNamed⟩) at').symm
  | @sweepReturn t named fs here =>
    have sh := inv.shape t
    rw [here] at sh
    obtain ⟨rfl, mine⟩ := sh.sweep_only
    exact inv.goOn (.sweep mine) nofun (here ▸ nofun)
  | @sweepKeep t named v x fs here mine lt at' young =>
    have sh := inv.shape t
    rw [here] at sh
    obtain ⟨rfl, -⟩ := sh.sweep_only
    obtain ⟨whole, _⟩ := inv.sweep t v mine
    refine inv.store (t := t) (k := s.stack t) (r := []) (fun _ _ holds => ?_) (Function.update_eq_self ..).symm
      rfl rfl rfl rfl rfl (List.append_nil _).symm ?_ (inv.good t) rfl ?_ ?_
    · rw [mine] at holds
      cases holds
      rfl
    · rw [here]
      exact .sweep ⟨_, rfl⟩
    · rintro _ _ h
      cases h
      exact ⟨whole, lt⟩
    · rw [mine, List.append_nil]
      exact .of_eq (Walk.content_keep (w := ⟨s.orphans, v.i, v.stop, v.stillNamed⟩) at')
  | @sweepEnd t named v fs here mine done =>
    have sh := inv.shape t
    rw [here] at sh
    obtain ⟨rfl, -⟩ := sh.sweep_only
    obtain ⟨whole, _⟩ := inv.sweep t v mine
    refine inv.store (t := t) (m := none) (r := []) (fun _ _ holds => ?_) rfl rfl rfl rfl rfl rfl
      (List.append_nil _).symm .out nofun ?_ nofun ?_
    · rw [mine] at holds
      cases holds
      rfl
    · rw [here]
      rfl
    · rw [mine, List.append_nil]
      have all := Walk.content_end (w := ⟨s.orphans, v.i, v.stop, v.stillNamed⟩) (whole ▸ done ▸ Nat.le_refl _)
      exact .of_eq all.symm
  | @exit t idle free =>
    unfold State.adoptOrphans
    split
    next nil => exact inv.exit idle rfl rfl rfl rfl rfl rfl (.inl ⟨nil, rfl⟩)
    next more => exact inv.exit idle rfl rfl rfl rfl rfl rfl (.inr ⟨free more, rfl⟩)

/-- Every retired entry is in exactly one of the bags, the store and the entries whose deleter was run, and is
there once, in every run in which no deleter that `Scan` runs from the thread's own bag retires. -/
theorem retirements_accounted (rn : Runs (Step w) Quiet ({} : State θ π) s) :
    (∀ x ∈ s.retired, ∃! p, x ∈ s.held p) ∧ ∀ p, (s.held p).Nodup := by
  have inv : Inv s := rn.invariant .init fun inv ok st => inv.step ok st
  exact ⟨fun x mem => inv.conserved.one_place mem, inv.conserved.custody.nodup⟩

/-- A thread ends with an object in its bag; the deleter of the object, run by the sweep of another thread,
retires. -/
theorem retirements_accounted_orphan :
    ∃ s : State Bool Nat, Runs (Step ⟨128, fun n => max 1 (2 * n)⟩) Quiet {} s ∧ s.stack true = [] ∧
      s.deleted = [⟨5, 0⟩] ∧ s.items true = [⟨6, 1⟩] ∧
      (∀ x ∈ s.retired, ∃! p, x ∈ s.held p) ∧ ∀ p, (s.held p).Nodup := by
  have start : Runs (Step ⟨128, fun n => max 1 (2 * n)⟩) Quiet ({} : State Bool Nat) _ := .refl
  have r1 := start.next (.retire false 5 []) nofun (.retire rfl nofun)
  have r2 := r1.next (.exit false) trivial (.exit rfl fun _ => rfl)
  have r3 := r2.next (.scan true []) trivial (.scan rfl rfl fun h => nomatch h.2)
  have r4 := r3.next (.pass true) trivial (.ownEnd rfl rfl rfl)
  have r5 := r4.next (.pass true) trivial (.opened rfl nofun)
  have r6 := r5.next (.pass true) trivial (.lock rfl rfl)
  have r7 := r6.next (.pass true) trivial (.sweepDelete rfl rfl (by decide) rfl List.not_mem_nil)
  have r8 := r7.next (.retire true 6 []) nofun (.retire rfl nofun)
  have r9 := r8.next (.pass true) trivial (.sweepReturn rfl)
  have r10 := r9.next (.pass true) trivial (.sweepEnd rfl rfl rfl)
  exact ⟨_, r10, rfl, rfl, rfl, retirements_accounted r10⟩

/-- A deleter that the loop over the bag runs retires another object. The vector has room for it; when the loop
has ended the object is nowhere. -/
theorem retirement_lost :
    ∃ s : State Unit Nat, Reaches (Step ⟨128, fun n => max 1 (2 * n)⟩) {} s ∧ s.stack () = [] ∧
      ⟨4, 3⟩ ∈ s.retired ∧ ∀ p, ⟨4, 3⟩ ∉ s.held p := by
  have start : Reaches (Step ⟨128, fun n => max 1 (2 * n)⟩) ({} : State Unit Nat) _ := .refl
  have r1 := start.next (.retire () 1 []) trivial (.retire rfl nofun)
  have r2 := r1.next (.retire () 2 []) trivial (.retire rfl nofun)
  have r3 := r2.next (.retire () 3 []) trivial (.retire rfl nofun)
  have r4 := r3.next (.scan () []) trivial (.scan rfl rfl fun h => nomatch h.1)
  have r5 := r4.next (.pass ()) trivial (.ownDelete rfl rfl (by decide) rfl List.not_mem_nil)
  have r6 := r5.next (.retire () 4 []) trivial (.retire rfl nofun)
  have r7 := r6.next (.pass ()) trivial (.ownReturn rfl)
  have r8 := r7.next (.pass ()) trivial (.ownDelete rfl rfl (by decide) rfl List.not_mem_nil)
  have r9 := r8.next (.pass ()) trivial (.ownReturn rfl)
  have r10 := r9.next (.pass ()) trivial (.ownDelete rfl rfl (by decide) rfl List.not_mem_nil)
  have r11 := r10.next (.pass ()) trivial (.ownReturn rfl)
  have r12 := r11.next (.pass ()) trivial (.ownEnd rfl rfl rfl)
  have r13 := r12.next (.pass ()) trivial (.shut rfl rfl)
  refine ⟨_, r13, rfl, by decide, ?_⟩
  rintro (_ | _ | _)
  · exact List.not_mem_nil
  · exact List.not_mem_nil
  · decide

end JLib.Hazard.Bags
