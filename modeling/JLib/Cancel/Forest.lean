import JLib.Cancel.Table

/-!
# The forest of scopes

What nesting is for: scopes are in a forest, and a scope is cancelled if it or one that encloses it was, up to the
first that was destroyed. The calls of `CancelScope` and `CancelVia`, one after the other, keep this forest in
recycled slots; `Cancelled` reads it there. Each call is a run of the table of scopes in which no other thread takes
a step.

A scope that finds the table full has no slot, and is not in the forest.
-/

namespace JLib.Scopes
open LTS Links CancelToken

variable {σ χ ρ : Type} [DecidableEq σ]

/-! ## Calls that are not interrupted -/

namespace State

/-- The parent that is stored for a token of the scope. -/
def resolving (s : State σ χ ρ) (p : Option σ) : Option σ :=
  p.filter fun y => s.resolves (s.raw y)

/-- `CancelScope(parent)`, with the token that a scope has issued; without one, `CancelScope()`. -/
def create (s : State σ χ ρ) (x : σ) (p : Option σ) : State σ χ ρ :=
  if s.head.index = 0 then
    { s with
      life := Function.update s.life x .invalid
      parent := Function.update s.parent x p }
  else
    { s with
      head := { tag := (s.head.tag + 1) % 2 ^ 32, index := s.nextFree (s.head.index - 1) }
      slots := Function.update s.slots (s.head.index - 1)
        { s.slots (s.head.index - 1) with parent := (s.resolving p).elim kNone.raw s.raw }
      life := Function.update s.life x (.alive (s.head.index - 1))
      parent := Function.update s.parent x p
      raw := Function.update s.raw x (handle (s.head.index - 1) (s.slots (s.head.index - 1)).gen)
      ops := s.ops + 1
      home := Function.update s.home x (some (s.head.index - 1, s.uses (s.head.index - 1)))
      tenant := Function.update s.tenant (s.head.index - 1) (some x)
      enclosing := Function.update s.enclosing x (s.resolving p) }

/-- `Cancel`. -/
def cancel (s : State σ χ ρ) (x : σ) : State σ χ ρ :=
  match s.life x with
  | .alive i => s.setCancelled i x
  | _ => s

/-- `CancelVia` of the token of a scope. -/
def cancelVia (s : State σ χ ρ) (x : σ) : Bool × State σ χ ρ :=
  if s.raw x = kNone.raw then (false, s)
  else if kCancelSlots ≤ s.raw x % 65536 then (false, s)
  else if genOf (wordOf (s.slots (s.raw x % 65536))) ≠ s.raw x / 65536 then (false, s)
  else if (s.slots (s.raw x % 65536)).cancelled = true then (true, s)
  else (true, s.setCancelled (s.raw x % 65536) x)

/-- `~CancelScope`. -/
def destroy (s : State σ χ ρ) (x : σ) : State σ χ ρ :=
  match s.life x with
  | .alive i =>
    { s with
      head := { tag := (s.head.tag + 1) % 2 ^ 32, index := i + 1 }
      slots := Function.update s.slots i
        { gen := ((s.slots i).gen + 1) % 2 ^ 32, cancelled := false, parent := kNone.raw }
      nextFree := Function.update s.nextFree i s.head.index
      life := Function.update s.life x .dead
      ops := s.ops + 1
      uses := Function.update s.uses i (s.uses i + 1) }
  | _ => { s with life := Function.update s.life x .dead }

/-- `Cancelled` of the token of a scope. -/
def cancelled (s : State σ χ ρ) (x : σ) : Bool :=
  CancelToken.cancelled s.slots ⟨s.raw x⟩

end State

inductive Op (σ : Type) where
  | create (x : σ) (parent : Option σ)
  | cancel (x : σ)
  | cancelVia (x : σ)
  | destroy (x : σ)

/-- The object was constructed and not destroyed. -/
def Life.constructed : Life → Bool
  | .alive _ => true
  | .invalid => true
  | _ => false

/-- One call. The token that a constructor is given is of a scope that was constructed, alive or not. -/
inductive Call : State σ χ ρ → Op σ → State σ χ ρ → Prop where
  | create {s : State σ χ ρ} {x p} :
    s.life x = .unborn →
    (∀ y ∈ p, s.life y ≠ .unborn) →
    Call s (.create x p) (s.create x p)
  | cancel {s : State σ χ ρ} {x} :
    (s.life x).constructed = true →
    Call s (.cancel x) (s.cancel x)
  | cancelVia {s : State σ χ ρ} {x} :
    Call s (.cancelVia x) (s.cancelVia x).2
  | destroy {s : State σ χ ρ} {x} :
    (s.life x).constructed = true →
    Call s (.destroy x) (s.destroy x)

/-! ## The forest -/

structure Forest (σ : Type) where
  alive : σ → Bool := fun _ => false
  parent : σ → Option σ := fun _ => none
  cancelled : σ → Bool := fun _ => false

namespace Forest

def create (f : Forest σ) (x : σ) (p : Option σ) : Forest σ :=
  { alive := Function.update f.alive x true
    parent := Function.update f.parent x p
    cancelled := Function.update f.cancelled x false }

def cancel (f : Forest σ) (x : σ) : Forest σ :=
  if f.alive x = true then { f with cancelled := Function.update f.cancelled x true } else f

def destroy (f : Forest σ) (x : σ) : Forest σ :=
  { f with alive := Function.update f.alive x false }

/-- What a call means; `got` says whether a new scope comes into the forest. -/
def after (f : Forest σ) (got : Bool) : Op σ → Forest σ
  | .create x p => if got = true then f.create x p else f
  | .cancel x => f.cancel x
  | .cancelVia x => f.cancel x
  | .destroy x => f.destroy x

/-- A scope or one that encloses it was cancelled: at most so many scopes, up to the first that is not alive. -/
def Cancelled (f : Forest σ) : Nat → σ → Prop
  | 0, _ => False
  | depth + 1, x =>
    f.alive x = true ∧ (f.cancelled x = true ∨ ∃ y, f.parent x = some y ∧ f.Cancelled depth y)

end Forest

/-- A call, in the slots and in the forest. -/
inductive Told (got : State σ χ ρ → Bool) : State σ χ ρ × Forest σ → Op σ → State σ χ ρ × Forest σ → Prop where
  | call {s u : State σ χ ρ} {f op} :
    Call s op u →
    Told got (s, f) op (u, f.after (got s) op)

/-- There is a free slot. -/
def State.hasRoom (s : State σ χ ρ) : Bool :=
  s.head.index ≠ 0

variable {s u : State σ χ ρ} {x y z : σ} {i : Nat} {p : Option σ} {op : Op σ} {f : Forest σ} {c : χ}

/-! ## Calls are runs -/

/-- A constructor that runs by itself is a run of steps. -/
lemma create_run [DecidableEq χ] [DecidableEq ρ] (unborn : s.life x = .unborn) :
    Runs Step Bounded s (s.create x p) := by
  have r : Runs Step Bounded s s := .refl
  have r1 := r.next (.construct x p) trivial (.construct unborn)
  unfold State.create
  split
  next full =>
    have r2 := r1.next (.acquire x) (fun h n k e => by
      dsimp only at e
      rw [Function.update_self] at e
      cases e) (.exhausted (Function.update_self ..) full)
    simp only [Function.update_idem] at r2
    exact r2
  next room =>
    have r2 := r1.next (.acquire x) (fun h n k e => by
      dsimp only at e
      rw [Function.update_self] at e
      cases e) (.next (Function.update_self ..) room)
    have r3 := r2.next (.acquire x) (fun h n k e => by
      dsimp only at e
      rw [Function.update_self] at e
      cases e
      dsimp only
      omega) (.pop (Function.update_self ..) rfl)
    have r4 := r3.next (.link x) trivial (.resolve (Function.update_self ..))
    have r5 := r4.next (.link x) trivial (.link (Function.update_self ..))
    have r6 := r5.next (.birth x) trivial (.birth (Function.update_self ..))
    simp only [State.resolvedParent, State.resolves, Function.update_idem, Function.update_self] at r6
    exact r6

/-- A `Cancel` that runs by itself is a run of steps. -/
lemma cancel_run [DecidableEq χ] [DecidableEq ρ] : Runs Step Bounded s (s.cancel x) := by
  unfold State.cancel
  split
  next i here => exact Runs.refl.next (.cancel x) trivial (.cancel here)
  next => exact .refl

/-- A `CancelVia` that runs by itself is a run of steps. -/
lemma cancelVia_run [DecidableEq χ] [DecidableEq ρ] (idle : s.via c = .idle)
    (soon : ∀ i n, s.home x = some (i, n) → s.uses i < n + 65536) : Runs Step Bounded s (s.cancelVia x).2 := by
  unfold State.cancelVia
  split
  · exact .refl
  split
  · exact .refl
  split
  · exact .refl
  split
  · exact .refl
  next ne lt gen clear =>
    have loaded : s.viaLoaded x = .cas x (wordOf (s.slots (s.raw x % 65536))) := by
      unfold State.viaLoaded
      dsimp only
      rw [if_neg gen]
      exact if_neg clear
    have r : Runs Step Bounded s s := .refl
    have r1 := r.next (.via c x) soon (.viaLoad idle ne (Nat.lt_of_not_le lt))
    have r2 := r1.next (.via c x) soon (.viaSet ((Function.update_self ..).trans loaded) rfl)
    have r3 := r2.next (.via c x) soon (.viaReturn (Function.update_self ..))
    unfold State.setCancelled at r3 ⊢
    simp only [Function.update_idem] at r3
    rw [← idle, Function.update_eq_self] at r3
    exact r3

/-- A destructor that runs by itself is a run of steps. -/
lemma destroy_run [DecidableEq χ] [DecidableEq ρ] (constructed : (s.life x).constructed = true) :
    Runs Step Bounded s (s.destroy x) := by
  have r : Runs Step Bounded s s := .refl
  unfold State.destroy
  split
  next i here =>
    have r1 := r.next (.destroy x) trivial (.destroy here)
    have r2 := r1.next (.destroy x) trivial (.bump (Function.update_self ..) rfl)
    have r3 := r2.next (.destroy x) trivial (.unlink (Function.update_self ..))
    have r4 := r3.next (.release x) (fun _ _ _ e => by
      dsimp only at e
      rw [Function.update_self] at e
      cases e) (.load (Function.update_self ..))
    have r5 := r4.next (.release x) (fun _ _ _ e => by
      dsimp only at e
      rw [Function.update_self] at e
      cases e) (.write (Function.update_self ..))
    have r6 := r5.next (.release x) (fun _ _ _ e => by
      dsimp only at e
      rw [Function.update_self] at e
      cases e
      dsimp only
      omega) (.push (Function.update_self ..) rfl)
    simp only [Function.update_idem, Function.update_self] at r6
    exact r6
  next other =>
    have invalid : s.life x = .invalid := by
      cases here : s.life x with
      | alive i => exact absurd here (other i)
      | invalid => rfl
      | _ =>
        rw [here] at constructed
        cases constructed
    exact r.next (.destroy x) trivial (.destroyInvalid invalid)

/-- A call is a run of the table in which the caller alone takes steps. -/
lemma Call.runs [DecidableEq χ] [DecidableEq ρ] (cl : Call s op u) (idle : s.via c = .idle)
    (soon : ∀ x i n, s.home x = some (i, n) → s.uses i < n + 65536) : Runs Step Bounded s u := by
  cases cl with
  | create unborn _ => exact create_run unborn
  | cancel _ => exact cancel_run
  | cancelVia => exact cancelVia_run idle (soon _)
  | destroy constructed => exact destroy_run constructed

/-! ## The slots mirror the forest -/

/-- Between two calls: a scope in the forest has a slot with its flag and the token of its parent, or no parent where
that was not alive. -/
structure Mirrors (s : State σ χ ρ) (f : Forest σ) : Prop where
  quiet : ∀ x i, (s.life x).live = some i → s.life x = .alive i
  idle : ∀ c, s.via c = .idle
  alive : ∀ x, f.alive x = true ↔ ∃ i, s.life x = .alive i
  flag : ∀ x i, s.life x = .alive i → (s.slots i).cancelled = f.cancelled x
  parent : ∀ x i, s.life x = .alive i →
    (∃ y, f.parent x = some y ∧ s.home y ≠ none ∧ (s.slots i).parent = s.raw y) ∨
      (s.slots i).parent = kNone.raw ∧ ∀ y, f.parent x = some y → s.life y ≠ .unborn ∧ ∀ j, s.life y ≠ .alive j

omit [DecidableEq σ] in
/-- There are no scopes yet. -/
lemma Mirrors.init : Mirrors ({} : State σ χ ρ) {} :=
  ⟨nofun, fun _ => rfl, fun _ => ⟨nofun, nofun⟩, nofun, nofun⟩

omit [DecidableEq σ] in
/-- What the token of a scope names: its slot as long as it is alive, and then nothing. -/
lemma Mirrors.slotOf_raw (mi : Mirrors s f) (hm : Homes s) (few : ∀ i, s.uses i < 65536) :
    (∀ i, s.life x = .alive i → slotOf s.slots (s.raw x) = some (s.slots i)) ∧
      ((∀ i, s.life x ≠ .alive i) → slotOf s.slots (s.raw x) = none) := by
  have gen : ∀ i, (s.slots i).genOf = s.uses i := by
    intro i
    have := few i
    unfold CancelSlot.genOf
    rw [hm.gen]
    omega
  unfold slotOf
  constructor
  · intro i here
    obtain ⟨-, lt, raw⟩ := hm.past (hm.live (by rw [here]; rfl))
    have := few i
    rw [raw, if_neg (handle_ne_none lt), handle_index lt, if_neg (Nat.not_le_of_lt lt), handle_gen lt, gen,
      if_neg (by omega)]
  · intro gone
    cases home : s.home x with
    | none => rw [hm.unset home, if_pos rfl]
    | some q =>
      obtain ⟨i, n⟩ := q
      obtain ⟨le, lt, raw⟩ := hm.past home
      have older : n ≠ s.uses i := by
        rintro rfl
        exact gone i (mi.quiet x i (hm.now home))
      have := few i
      rw [raw, if_neg (handle_ne_none lt), handle_index lt, if_neg (Nat.not_le_of_lt lt), handle_gen lt, gen,
        if_pos (by omega)]

omit [DecidableEq σ] in
/-- The constructor and `CancelVia` look at the same. -/
lemma resolves_iff : s.resolves (s.raw x) = true ↔ s.raw x % 65536 < kCancelSlots ∧
    (s.slots (s.raw x % 65536)).genOf = s.raw x / 65536 := by
  unfold State.resolves
  rw [Bool.and_eq_true, decide_eq_true_iff, beq_iff_eq]
  rfl

/-- A handle that resolves is of the use that its slot is in. -/
lemma slotOf_some {tbl : Nat → CancelSlot} {raw : Nat} {k : CancelSlot} (h : slotOf tbl raw = some k) :
    raw ≠ kNone.raw ∧ raw % 65536 < kCancelSlots ∧ (tbl (raw % 65536)).genOf = raw / 65536 ∧
      k = tbl (raw % 65536) := by
  unfold slotOf at h
  split at h
  · cases h
  split at h
  · cases h
  split at h
  · cases h
  next ne lt gen => exact ⟨ne, Nat.lt_of_not_le lt, not_not.1 gen, (Option.some.inj h).symm⟩

/-- A handle that does not resolve names nothing, or a use that is over. -/
lemma slotOf_none {tbl : Nat → CancelSlot} {raw : Nat} (h : slotOf tbl raw = none) :
    raw = kNone.raw ∨ kCancelSlots ≤ raw % 65536 ∨ (tbl (raw % 65536)).genOf ≠ raw / 65536 := by
  unfold slotOf at h
  split at h
  next eq => exact .inl eq
  split at h
  next le => exact .inr (.inl le)
  split at h
  next gen => exact .inr (.inr gen)
  next => cases h

omit [DecidableEq σ] in
/-- The handle of a scope resolves while the scope is alive. -/
lemma Mirrors.resolves (mi : Mirrors s f) (hm : Homes s) (few : ∀ i, s.uses i < 65536) :
    s.resolves (s.raw x) = true ↔ ∃ i, s.life x = .alive i := by
  obtain ⟨here, gone⟩ := mi.slotOf_raw (x := x) hm few
  rw [resolves_iff]
  constructor
  · rintro ⟨lt, gen⟩
    by_contra no
    rcases slotOf_none (gone fun i h => no ⟨i, h⟩) with none | le | other
    · rw [none] at lt
      exact absurd lt (by decide)
    · exact absurd lt (Nat.not_lt_of_le le)
    · exact other gen
  · rintro ⟨i, h⟩
    obtain ⟨-, lt, gen, -⟩ := slotOf_some (here i h)
    exact ⟨lt, gen⟩

/-- `CancelVia` sets the flag of a scope that is alive, and does nothing with the token of another one. -/
lemma Mirrors.cancelVia_eq (mi : Mirrors s f) (hm : Homes s) (few : ∀ i, s.uses i < 65536) :
    (∀ i, s.life x = .alive i → (s.cancelVia x).1 = true ∧
        (s.cancelVia x).2 = if (s.slots i).cancelled = true then s else s.setCancelled i x) ∧
      ((∀ i, s.life x ≠ .alive i) → s.cancelVia x = (false, s)) := by
  obtain ⟨named, none⟩ := mi.slotOf_raw (x := x) hm few
  unfold State.cancelVia
  constructor
  · intro i here
    obtain ⟨ne, lt, gen, -⟩ := slotOf_some (named i here)
    have index : s.raw x % 65536 = i := by
      obtain ⟨-, lt', raw⟩ := hm.past (hm.live (by rw [here]; rfl))
      rw [raw, handle_index lt']
    have gen' : genOf (wordOf (s.slots (s.raw x % 65536))) = s.raw x / 65536 := gen
    rw [if_neg ne, if_neg (Nat.not_le_of_lt lt), if_neg (not_not.2 gen'), index]
    split
    · exact ⟨rfl, rfl⟩
    · exact ⟨rfl, rfl⟩
  · intro gone
    rcases slotOf_none (none gone) with eq | le | other
    · rw [if_pos eq]
    · rw [if_pos le, ite_self]
    · have other' : genOf (wordOf (s.slots (s.raw x % 65536))) ≠ s.raw x / 65536 := other
      rw [if_pos other', ite_self, ite_self]

/-! ### What a call does -/

omit [DecidableEq σ] in
/-- No scope comes into the forest or leaves it, and nothing of the slots changes. -/
lemma Mirrors.same (mi : Mirrors s f) (slots : u.slots = s.slots) (home : u.home = s.home) (raw : u.raw = s.raw)
    (via : u.via = s.via) (live : ∀ z i, u.life z = .alive i ↔ s.life z = .alive i)
    (quiet : ∀ z i, (u.life z).live = some i → (s.life z).live = some i)
    (born : ∀ z, u.life z = .unborn → s.life z = .unborn) : Mirrors u f := by
  refine ⟨fun z i h => (live z i).2 (mi.quiet z i (quiet z i h)), fun c => ?_, fun z => ?_, fun z i h => ?_,
    fun z i h => ?_⟩
  · rw [via]
    exact mi.idle c
  · rw [mi.alive]
    exact exists_congr fun i => (live z i).symm
  · rw [slots]
    exact mi.flag z i ((live z i).1 h)
  · rw [slots, home, raw]
    rcases mi.parent z i ((live z i).1 h) with named | ⟨none, gone⟩
    · exact .inl named
    · refine .inr ⟨none, fun y eq => ⟨fun h => (gone y eq).1 (born y h), fun j h => ?_⟩⟩
      exact (gone y eq).2 j ((live y j).1 h)

/-- A scope that is outside the forest stays outside. -/
lemma Mirrors.outside {l : Life} (mi : Mirrors s f) (gone : ∀ i, s.life x ≠ .alive i)
    (life : u.life = Function.update s.life x l) (dead : l.live = none) (later : l ≠ .unborn)
    (slots : u.slots = s.slots) (home : u.home = s.home) (raw : u.raw = s.raw) (via : u.via = s.via) :
    Mirrors u f := by
  have never : ∀ i, l ≠ .alive i := by
    rintro i rfl
    cases dead
  refine mi.same slots home raw via (fun z i => ?_) (fun z i h => ?_) fun z h => ?_
  · rw [life, Function.update_apply]
    split
    next here =>
      rw [here]
      exact ⟨fun h => absurd h (never i), fun h => absurd h (gone i)⟩
    next => exact .rfl
  · rw [life, Function.update_apply] at h
    split at h
    · exact nomatch dead.symm.trans h
    · exact h
  · rw [life, Function.update_apply] at h
    split at h
    · exact absurd h later
    · exact h

/-- A scope that was constructed when the table was full. -/
lemma Mirrors.full (mi : Mirrors s f) (unborn : s.life x = .unborn) (full : s.head.index = 0) :
    Mirrors (s.create x p) f := by
  unfold State.create
  rw [if_pos full]
  have gone : ∀ i, s.life x ≠ .alive i := by
    intro i h
    exact nomatch unborn.symm.trans h
  exact mi.outside gone rfl rfl nofun rfl rfl rfl rfl

omit [DecidableEq σ] in
/-- The slot at the head of the list has no scope. -/
lemma Table.first_free {free : List Nat} (tb : Table s free) (room : s.head.index ≠ 0) :
    s.head.index - 1 ∈ free := by
  have list := tb.list
  unfold idx at list
  rw [if_neg room] at list
  cases list with
  | cons _ => exact .head _

omit [DecidableEq σ] in
/-- A free slot has its flag clear. -/
lemma Homes.clear_of_free {free : List Nat} (hm : Homes s) (tb : Table s free) (mem : i ∈ free) :
    (s.slots i).cancelled = false := by
  rw [Bool.eq_false_iff]
  intro flag
  obtain ⟨z, home, -⟩ := hm.flag flag
  exact tb.not_free (Life.slot_of_live (hm.now home)) mem

/-- A new scope takes a slot. -/
lemma Mirrors.create (mi : Mirrors s f) (inv : Inv s) (few : ∀ i, s.uses i < 65536) (unborn : s.life x = .unborn)
    (constructed : ∀ y ∈ p, s.life y ≠ .unborn) (room : s.head.index ≠ 0) :
    Mirrors (s.create x p) (f.create x p) := by
  obtain ⟨⟨free, tb⟩, -, hm⟩ := inv
  have first := tb.first_free room
  have new : s.home x = none := hm.early (by rw [unborn]; rfl)
  have apart : ∀ {z i}, s.life z = .alive i → z ≠ x ∧ i ≠ s.head.index - 1 := by
    intro z i h
    constructor
    · rintro rfl
      exact nomatch unborn.symm.trans h
    · rintro rfl
      exact tb.not_free (by rw [h]; rfl) first
  have issued : ∀ {y}, s.home y ≠ none → y ≠ x := by
    rintro y h rfl
    exact h new
  unfold State.create Forest.create
  rw [if_neg room]
  refine ⟨fun z i h => ?_, mi.idle, fun z => ?_, fun z i h => ?_, fun z i h => ?_⟩
  · dsimp only at h ⊢
    rw [Function.update_apply] at h ⊢
    split at h
    next here =>
      cases h
      rw [if_pos here]
    next other =>
      rw [if_neg other]
      exact mi.quiet z i h
  · dsimp only
    rw [Function.update_apply, Function.update_apply]
    split
    · exact ⟨fun _ => ⟨_, rfl⟩, fun _ => rfl⟩
    · exact mi.alive z
  · dsimp only at h ⊢
    rw [Function.update_apply] at h
    split at h
    next here =>
      cases h
      rw [here, Function.update_self, Function.update_self]
      exact hm.clear_of_free tb first
    next other =>
      rw [Function.update_of_ne (apart h).2, Function.update_of_ne other]
      exact mi.flag z i h
  · dsimp only at h ⊢
    rw [Function.update_apply] at h
    split at h
    next here =>
      cases h
      rw [here, Function.update_self, Function.update_self]
      cases p with
      | none => exact .inr ⟨rfl, nofun⟩
      | some y =>
        have resolving : s.resolving (some y) = if s.resolves (s.raw y) = true then some y else none := rfl
        rw [resolving]
        split
        next resolves =>
          obtain ⟨j, alive⟩ := (mi.resolves hm few).1 resolves
          have home := hm.live (x := y) (by rw [alive]; rfl)
          have ne : y ≠ x := (apart alive).1
          refine .inl ⟨y, rfl, ?_, ?_⟩
          · rw [Function.update_of_ne ne, home]
            nofun
          · rw [Function.update_of_ne ne]
            rfl
        next stale =>
          refine .inr ⟨rfl, ?_⟩
          rintro _ ⟨⟩
          have old := constructed y rfl
          have ne : y ≠ x := by
            rintro rfl
            exact old unborn
          rw [Function.update_of_ne ne]
          exact ⟨old, fun j h => stale ((mi.resolves hm few).2 ⟨j, h⟩)⟩
    next other =>
      rw [Function.update_of_ne (apart h).2, Function.update_of_ne other]
      rcases mi.parent z i h with ⟨y, eq, home, raw⟩ | ⟨none, gone⟩
      · refine .inl ⟨y, eq, ?_, ?_⟩
        · rw [Function.update_of_ne (issued home)]
          exact home
        · rw [Function.update_of_ne (issued home)]
          exact raw
      · refine .inr ⟨none, fun y eq => ?_⟩
        have old := gone y eq
        have ne : y ≠ x := by
          rintro rfl
          exact old.1 unborn
        rw [Function.update_of_ne ne]
        exact old

/-- A scope that is alive is cancelled. -/
lemma Mirrors.hit (mi : Mirrors s f) (inv : Inv s) (here : s.life x = .alive i) :
    Mirrors (s.setCancelled i x) (f.cancel x) := by
  obtain ⟨⟨free, tb⟩, -, -⟩ := inv
  unfold Forest.cancel
  rw [if_pos ((mi.alive x).2 ⟨i, here⟩)]
  have parent : ∀ j, ((s.setCancelled i x).slots j).parent = (s.slots j).parent := by
    intro j
    unfold State.setCancelled
    dsimp only
    rw [Function.update_apply]
    split
    next same => rw [same]
    next => rfl
  refine ⟨mi.quiet, mi.idle, mi.alive, fun z j (h : s.life z = .alive j) => ?_, fun z j h => ?_⟩
  · unfold State.setCancelled
    dsimp only
    rw [Function.update_apply, Function.update_apply]
    by_cases same : z = x
    · have eq : j = i := by
        rw [same] at h
        cases here.symm.trans h
        rfl
      rw [if_pos eq, if_pos same]
    · have other : j ≠ i := by
        rintro rfl
        exact same (tb.owner (by rw [h]; rfl) (by rw [here]; rfl))
      rw [if_neg other, if_neg same]
      exact mi.flag z j h
  · rw [parent]
    exact mi.parent z j h

/-- A scope that is alive ends, and its slot is free. -/
lemma Mirrors.leave (mi : Mirrors s f) (inv : Inv s) (here : s.life x = .alive i) :
    Mirrors (s.destroy x) (f.destroy x) := by
  obtain ⟨⟨free, tb⟩, -, -⟩ := inv
  have apart : ∀ {z j}, z ≠ x → s.life z = .alive j → j ≠ i := by
    rintro z j ne h rfl
    exact ne (tb.owner (by rw [h]; rfl) (by rw [here]; rfl))
  unfold State.destroy Forest.destroy
  rw [here]
  refine ⟨fun z j h => ?_, mi.idle, fun z => ?_, fun z j h => ?_, fun z j h => ?_⟩
  · dsimp only at h ⊢
    rw [Function.update_apply] at h ⊢
    split at h
    next => cases h
    next other =>
      rw [if_neg other]
      exact mi.quiet z j h
  · dsimp only
    rw [Function.update_apply, Function.update_apply]
    split
    · exact ⟨nofun, nofun⟩
    · exact mi.alive z
  · dsimp only at h ⊢
    rw [Function.update_apply] at h
    split at h
    next => cases h
    next other =>
      rw [Function.update_of_ne (apart other h)]
      exact mi.flag z j h
  · dsimp only at h ⊢
    rw [Function.update_apply] at h
    split at h
    next => cases h
    next other =>
      rw [Function.update_of_ne (apart other h)]
      rcases mi.parent z j h with named | ⟨none, gone⟩
      · exact .inl named
      · refine .inr ⟨none, fun y eq => ?_⟩
        rw [Function.update_apply]
        split
        · exact ⟨nofun, nofun⟩
        · exact gone y eq

/-- Destroying what is not alive changes nothing. -/
lemma Forest.destroy_eq (out : f.alive x = false) : f.destroy x = f := by
  unfold Forest.destroy
  rw [← out, Function.update_eq_self]

/-- Cancelling what is not alive changes nothing. -/
lemma Forest.cancel_eq (out : f.alive x = false) : f.cancel x = f := by
  unfold Forest.cancel
  rw [if_neg (by rw [out]; nofun)]

omit [DecidableEq σ] in
/-- A scope without a slot is not alive in the forest. -/
lemma Mirrors.not_alive (mi : Mirrors s f) (gone : ∀ i, s.life x ≠ .alive i) : f.alive x = false := by
  rw [Bool.eq_false_iff, Ne, mi.alive]
  rintro ⟨i, h⟩
  exact gone i h

/-- A destructor takes the scope out of both. -/
lemma Mirrors.destroy (mi : Mirrors s f) (inv : Inv s) (constructed : (s.life x).constructed = true) :
    Mirrors (s.destroy x) (f.destroy x) := by
  cases here : s.life x with
  | alive i => exact mi.leave inv here
  | invalid =>
    have gone : ∀ i, s.life x ≠ .alive i := by
      intro i h
      exact nomatch here.symm.trans h
    rw [Forest.destroy_eq (mi.not_alive gone)]
    unfold State.destroy
    rw [here]
    exact mi.outside gone rfl rfl nofun rfl rfl rfl rfl
  | _ =>
    rw [here] at constructed
    cases constructed

/-- A `Cancel` sets the flag in both. -/
lemma Mirrors.cancel (mi : Mirrors s f) (inv : Inv s) : Mirrors (s.cancel x) (f.cancel x) := by
  unfold State.cancel
  split
  next i here => exact mi.hit inv here
  next other =>
    rw [Forest.cancel_eq (mi.not_alive other)]
    exact mi

/-- A `CancelVia` sets the flag in both. -/
lemma Mirrors.cancelVia (mi : Mirrors s f) (inv : Inv s) (few : ∀ i, s.uses i < 65536) :
    Mirrors (s.cancelVia x).2 (f.cancel x) := by
  obtain ⟨named, other⟩ := mi.cancelVia_eq (x := x) inv.homes few
  by_cases alive : ∃ i, s.life x = .alive i
  · obtain ⟨i, here⟩ := alive
    rw [(named i here).2]
    split
    next flag =>
      -- it was cancelled before
      have cancelled : f.cancelled x = true := (mi.flag x i here).symm.trans flag
      have same : f.cancel x = f := by
        unfold Forest.cancel
        rw [← cancelled, Function.update_eq_self, ite_self]
      rw [same]
      exact mi
    next => exact mi.hit inv here
  · have gone : ∀ i, s.life x ≠ .alive i := fun i h => alive ⟨i, h⟩
    rw [other gone, Forest.cancel_eq (mi.not_alive gone)]
    exact mi

/-- A call does the same to both. -/
lemma Mirrors.call (mi : Mirrors s f) (inv : Inv s) (few : ∀ i, s.uses i < 65536) (cl : Call s op u) :
    Mirrors u (f.after s.hasRoom op) := by
  cases cl with
  | @create x p unborn constructed =>
    change Mirrors (s.create x p) (if s.hasRoom = true then f.create x p else f)
    split
    next room => exact mi.create inv few unborn constructed (of_decide_eq_true room)
    next full => exact mi.full unborn (not_not.1 fun room => full (decide_eq_true room))
  | cancel _ => exact mi.cancel inv
  | cancelVia => exact mi.cancelVia inv few
  | destroy constructed => exact mi.destroy inv constructed

/-- Slots are given back and never un-given. -/
lemma Call.uses_le (cl : Call s op u) (i : Nat) : s.uses i ≤ u.uses i := by
  cases cl with
  | create _ _ =>
    unfold State.create
    split <;> exact Nat.le_refl _
  | cancel _ =>
    unfold State.cancel
    split <;> exact Nat.le_refl _
  | cancelVia =>
    unfold State.cancelVia
    repeat' split
    all_goals exact Nat.le_refl _
  | destroy _ =>
    unfold State.destroy
    split
    · dsimp only
      rw [Function.update_apply]
      split
      next same =>
        rw [same]
        exact Nat.le_succ _
      next => exact Nat.le_refl _
    · exact Nat.le_refl _

/-! ## What `Cancelled` returns -/

/-- Nothing above the root is cancelled. -/
lemma cancelledFrom_none {tbl : Nat → CancelSlot} (depth : Nat) : cancelledFrom tbl depth kNone.raw = false := by
  cases depth with
  | zero => rfl
  | succ depth => rfl

omit [DecidableEq σ] in
/-- The walk in the slots is the walk in the forest. -/
lemma Mirrors.walk (mi : Mirrors s f) (hm : Homes s) (few : ∀ i, s.uses i < 65536) (depth : Nat) (x : σ) :
    cancelledFrom s.slots depth (s.raw x) = true ↔ f.Cancelled depth x := by
  induction depth generalizing x with
  | zero => exact ⟨fun h => Bool.noConfusion h, False.elim⟩
  | succ depth ih =>
    obtain ⟨named, none⟩ := mi.slotOf_raw (x := x) hm few
    unfold cancelledFrom Forest.Cancelled
    by_cases alive : ∃ i, s.life x = .alive i
    · obtain ⟨i, here⟩ := alive
      have inForest : f.alive x = true := (mi.alive x).2 ⟨i, here⟩
      rw [named i here]
      dsimp only
      rw [Bool.or_eq_true, mi.flag x i here, inForest]
      refine (or_congr_right ?_).trans (and_iff_right rfl).symm
      rcases mi.parent x i here with ⟨y, eq, -, raw⟩ | ⟨root, gone⟩
      · rw [raw, ih y, eq]
        constructor
        · exact fun h => ⟨y, rfl, h⟩
        · rintro ⟨_, ⟨⟩, h⟩
          exact h
      · rw [root, cancelledFrom_none]
        refine ⟨fun h => Bool.noConfusion h, ?_⟩
        rintro ⟨y, eq, h⟩
        have out := mi.not_alive (gone y eq).2
        cases depth with
        | zero => exact h.elim
        | succ depth => exact Bool.noConfusion (out.symm.trans h.1)
    · rw [none fun i h => alive ⟨i, h⟩]
      refine ⟨fun h => Bool.noConfusion h, fun h => absurd ((mi.alive x).1 h.1) alive⟩

/-- After any calls the slots mirror the forest. -/
lemma Mirrors.of_runs [DecidableEq χ] [DecidableEq ρ] (c : χ)
    (rn : Reaches (Told State.hasRoom) (({}, {}) : State σ χ ρ × Forest σ) (s, f))
    (few : ∀ i, s.uses i < 65536) : Inv s ∧ Mirrors s f := by
  generalize eq : (s, f) = v at rn
  induction rn generalizing s f with
  | refl =>
    cases eq
    exact ⟨.init, .init⟩
  | tail _ _ st ih =>
    cases st with
    | call cl =>
      cases eq
      have before := fun i => Nat.lt_of_le_of_lt (cl.uses_le i) (few i)
      obtain ⟨inv, mi⟩ := ih before rfl
      have rn := cl.runs (mi.idle c) fun x i n _ => Nat.lt_of_lt_of_le (before i) (Nat.le_add_left ..)
      exact ⟨rn.invariant inv fun inv ok st => inv.step ok st, mi.call inv before cl⟩

/-- A scope that has a slot is cancelled if and only if it or one that encloses it was, up to the first that was
destroyed and not more than `kMaxScopeDepth` in all; the token of a scope that has no slot, or none any more, is
never cancelled. -/
theorem cancelled_iff_forest {s : State σ Unit Unit} (rn : Reaches (Told State.hasRoom) ({}, {}) (s, f))
    (few : ∀ i, s.uses i < 65536) :
    (∀ x i, s.life x = .alive i → (s.cancelled x = true ↔ f.Cancelled kMaxScopeDepth x)) ∧
      ∀ x, (∀ i, s.life x ≠ .alive i) → s.cancelled x = false := by
  obtain ⟨inv, mi⟩ := Mirrors.of_runs () rn few
  refine ⟨fun x i _ => mi.walk inv.homes few kMaxScopeDepth x, fun x gone => ?_⟩
  rw [Bool.eq_false_iff]
  intro h
  have inForest := (mi.walk inv.homes few kMaxScopeDepth x).1 h
  exact nomatch (mi.not_alive gone).symm.trans inForest.1

/-- An operation in a connection: cancelling the connection cancels it. -/
theorem cancelled_iff_forest_nested : ∃ (s : State Nat Unit Unit) (f : Forest Nat),
    Reaches (Told State.hasRoom) ({}, {}) (s, f) ∧ f.Cancelled kMaxScopeDepth 1 ∧ s.cancelled 1 = true := by
  have r : Reaches (Told State.hasRoom) (({}, {}) : State Nat Unit Unit × Forest Nat) _ := .refl
  have r1 := r.next (.create 0 none) trivial (.call (.create rfl nofun))
  have r2 := r1.next (.create 1 (some 0)) trivial (.call (.create rfl (by rintro _ ⟨⟩ h; cases h)))
  have r3 := r2.next (.cancelVia 0) trivial (.call .cancelVia)
  have same := (cancelled_iff_forest r3 fun _ => Nat.zero_lt_succ _).1 1 1 rfl
  refine ⟨_, _, r3, ?_, same.2 ?_⟩
  · exact ⟨rfl, .inr ⟨0, rfl, rfl, .inl rfl⟩⟩
  · exact ⟨rfl, .inr ⟨0, rfl, rfl, .inl rfl⟩⟩

/-- The table can be filled. -/
lemma fill (n : Nat) (le : n ≤ kCancelSlots) : ∃ (s : State Nat Unit Unit) (f : Forest Nat),
    Reaches (Told fun _ => true) ({}, {}) (s, f) ∧ s.head.index = (if n = kCancelSlots then 0 else n + 1) ∧
      s.nextFree = ({} : State Nat Unit Unit).nextFree ∧ (∀ i, s.uses i = 0) ∧
      ∀ x, n ≤ x → s.life x = .unborn ∧ s.raw x = kNone.raw := by
  induction n with
  | zero => exact ⟨{}, {}, .refl, rfl, rfl, fun _ => rfl, fun _ _ => ⟨rfl, rfl⟩⟩
  | succ n ih =>
    obtain ⟨s, f, rn, index, next, uses, unborn⟩ := ih (Nat.le_of_succ_le le)
    rw [if_neg (Nat.ne_of_lt le)] at index
    have rn' := rn.next (.create n none) trivial (.call (.create (unborn n (Nat.le_refl n)).1 nofun))
    refine ⟨_, _, rn', ?_⟩
    unfold State.create
    rw [if_neg (by rw [index]; exact Nat.succ_ne_zero n)]
    refine ⟨?_, next, uses, fun x later => ?_⟩
    · dsimp only
      rw [index, next]
      rfl
    · have ne : x ≠ n := Nat.ne_of_gt later
      dsimp only
      rw [Function.update_of_ne ne, Function.update_of_ne ne]
      exact unborn x (Nat.le_of_succ_le later)

/-- A scope that is created and cancelled is cancelled. -/
lemma Forest.cancel_created (f : Forest σ) (x : σ) (p : Option σ) (depth : Nat) :
    ((f.create x p).cancel x).Cancelled (depth + 1) x := by
  have alive : (f.create x p).alive x = true := Function.update_self ..
  unfold Forest.cancel
  rw [if_pos alive]
  exact ⟨alive, .inl (Function.update_self ..)⟩

/-- A scope that was constructed when all slots were taken is not cancelled when it is. -/
theorem cancelled_without_slot : ¬∀ (s : State Nat Unit Unit) (f : Forest Nat),
    Reaches (Told fun _ => true) ({}, {}) (s, f) → (∀ i, s.uses i < 65536) →
      ∀ x, (s.life x).constructed = true → (s.cancelled x = true ↔ f.Cancelled kMaxScopeDepth x) := by
  intro means
  obtain ⟨s, f, rn, full, -, uses, unborn⟩ := fill kCancelSlots (Nat.le_refl _)
  rw [if_pos rfl] at full
  obtain ⟨new, raw⟩ := unborn kCancelSlots (Nat.le_refl _)
  have r1 := rn.next (.create kCancelSlots none) trivial (.call (.create new nofun))
  unfold State.create at r1
  rw [if_pos full] at r1
  have invalid := Function.update_self kCancelSlots Life.invalid s.life
  have r2 := r1.next (.cancel kCancelSlots) trivial (.call (.cancel (by dsimp only; rw [invalid]; rfl)))
  unfold State.cancel at r2
  dsimp only at r2
  rw [invalid] at r2
  have told := means _ _ r2 (fun i => by dsimp only; rw [uses i]; decide) kCancelSlots
    (by dsimp only; rw [invalid]; rfl)
  have flagged := told.2 (Forest.cancel_created f kCancelSlots none _)
  unfold State.cancelled CancelToken.cancelled at flagged
  dsimp only at flagged
  rw [raw, cancelledFrom_none] at flagged
  cases flagged

end JLib.Scopes
