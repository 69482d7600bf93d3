import JLib.LTS.Runs
import Mathlib.Algebra.Order.Ring.Int
import Mathlib.Data.List.Basic
import Mathlib.Logic.Function.Basic

/-!
# Nested guards

The life of `HazardGuard` of `include/Hazard.h` and `src/Hazard.cpp`: constructor, `Protect`, `Set`, `Clear` and
destructor, as one fiber (or one native task, or one external thread) executes them. All its guards have the cells
of one reader. A guard of a row that is not a fiber's counts for the suspension check, and the constructor refuses a
second one; the rows of fibers are not counted.

Built without assertions. An external thread that finds no free slot ends in its first constructor and is not here.
`returned` is read by no step.
-/

namespace JLib.Hazard.Guards
open LTS

/-- What the guards are built on, and `kCellsPerReader`. -/
structure Setup where
  fiber : Bool
  forceWorkerCells : Bool := false
  kCells : Nat

/-- What `CurrentReader` finds. -/
inductive Reader where
  | none
  | fiber
  | other
  deriving DecidableEq

/-- A live guard. `returned` is what its last `Protect` of a cell returned, until it writes the cell again. -/
structure Guard (π : Type) where
  cells : Bool
  countsForSuspend : Bool
  returned : Nat → Option (Option π) := fun _ => none

def Guard.note {π : Type} (G : Guard π) (k : Nat) (v : Option (Option π)) : Guard π :=
  { G with returned := Function.update G.returned k v }

/-- `guards` are the live ones, the innermost first. -/
structure State (π : Type) where
  isInitialized : Bool := false
  cell : Nat → Option π := fun _ => none
  guards : List (Guard π) := []
  suspendUnsafeDepth : Nat := 0
  -- in the loop of `Protect`: which guard, which cell and what was stored
  protect : Option (Nat × Nat × Option π) := none
  aborted : Bool := false

variable {π : Type}

/-- The table is built once the scheduler is initialized; a fiber has a row of its own. -/
def currentReader (w : Setup) (s : State π) : Reader :=
  if s.isInitialized = false then .none
  else if w.fiber = true ∧ w.forceWorkerCells = false then .fiber
  else .other

/-- The guard that the constructor makes. -/
def construct (w : Setup) (s : State π) : Guard π :=
  { cells := currentReader w s ≠ .none
    countsForSuspend := currentReader w s = .other }

/-- `Set` of the guard `G`, the `j`-th. -/
def State.set (w : Setup) (s : State π) (j : Nat) (G : Guard π) (k : Nat) (x : Option π) : State π :=
  if G.cells = true ∧ k < w.kCells then
    { s with
      cell := Function.update s.cell k x
      guards := s.guards.set j (G.note k none) }
  else s

/-- The destructor of the innermost guard. -/
def State.destroy (w : Setup) (s : State π) (G : Guard π) (rest : List (Guard π)) : State π :=
  { s with
    guards := rest
    suspendUnsafeDepth := if G.countsForSuspend = true then s.suspendUnsafeDepth - 1 else s.suspendUnsafeDepth
    cell := if G.cells = true then fun k => if k < w.kCells then none else s.cell k else s.cell }

/-- `load` is a round of the loop of `Protect` up to the fence, `found` its end. -/
inductive Label (π : Type) where
  | init
  | construct
  | set (j k : Nat) (x : Option π)
  | clear (j k : Nat)
  | load (j k : Nat) (p : Option π)
  | found
  | destroy

inductive Step (w : Setup) : State π → Label π → State π → Prop where
  | init {s : State π} :
    Step w s .init { s with isInitialized := true }
  -- HazardGuard
  | construct {s : State π} :
    s.aborted = false →
    s.protect = none →
    ((construct w s).countsForSuspend = true → s.suspendUnsafeDepth = 0 ∨ w.forceWorkerCells = true) →
    Step w s .construct { s with
      guards := construct w s :: s.guards
      suspendUnsafeDepth := if (construct w s).countsForSuspend = true then s.suspendUnsafeDepth + 1
        else s.suspendUnsafeDepth }
  | fatalNestedWorkerGuard {s : State π} :
    s.aborted = false →
    s.protect = none →
    (construct w s).countsForSuspend = true →
    s.suspendUnsafeDepth ≠ 0 →
    w.forceWorkerCells = false →
    Step w s .construct { s with aborted := true }
  -- Set, Clear
  | set {s : State π} {j G k x} :
    s.aborted = false →
    s.protect = none →
    s.guards[j]? = some G →
    Step w s (.set j k x) (s.set w j G k x)
  | clear {s : State π} {j G k} :
    s.aborted = false →
    s.protect = none →
    s.guards[j]? = some G →
    Step w s (.clear j k) (s.set w j G k none)
  -- Protect
  | enter {s : State π} {j G k p} :
    s.aborted = false →
    s.protect = none →
    s.guards[j]? = some G →
    G.cells = true →
    k < w.kCells →
    Step w s (.load j k p) { s.set w j G k p with protect := some (j, k, p) }
  | fatalCellOverflow {s : State π} {j G k p} :
    s.aborted = false →
    s.protect = none →
    s.guards[j]? = some G →
    ¬(G.cells = true ∧ k < w.kCells) →
    Step w s (.load j k p) { s with aborted := true }
  | again {s : State π} {j G k p q} :
    s.protect = some (j, k, q) →
    s.guards[j]? = some G →
    Step w s (.load j k p) { s.set w j G k p with protect := some (j, k, p) }
  | found {s : State π} {j G k p} :
    s.protect = some (j, k, p) →
    s.guards[j]? = some G →
    Step w s .found { s with protect := none, guards := s.guards.set j (G.note k (some p)) }
  -- ~HazardGuard
  | destroy {s : State π} {G rest} :
    s.aborted = false →
    s.protect = none →
    s.guards = G :: rest →
    Step w s .destroy (s.destroy w G rest)

/-- A live guard keeps what it protects. -/
def Kept (s : State π) : Prop :=
  ∀ (i : Nat) (G : Guard π), s.guards[i]? = some G → ∀ k p, G.returned k = some p → s.cell k = p

/-- The `j`-th guard writes nothing else in a cell for which another live guard's `Protect` returned a pointer. -/
def Agrees (w : Setup) (s : State π) (j k : Nat) (x : Option π) : Prop :=
  ∀ G : Guard π, s.guards[j]? = some G → G.cells = true → k < w.kCells →
    ∀ (i : Nat) (H : Guard π), i ≠ j → s.guards[i]? = some H → ∀ p, H.returned k = some p → p = x

/-- No guard writes over what another has, and when one is destroyed no other has a pointer. -/
def Undisturbed (w : Setup) (s : State π) : Label π → Prop
  | .set j k x => Agrees w s j k x
  | .clear j k => Agrees w s j k none
  | .load j k p => Agrees w s j k p
  | .destroy => ∀ (G : Guard π) (rest : List (Guard π)), s.guards = G :: rest → G.cells = true →
      ∀ H ∈ rest, ∀ k p, H.returned k = some p → p = none
  | _ => True

variable {w : Setup} {s u : State π} {l : Label π} {i j k : Nat} {x p : Option π} {G H : Guard π}
  {rest : List (Guard π)} {v : Option (Option π)}

/-- The guards when one of them has taken a note. -/
lemma get_set (get : s.guards[j]? = some G) (got : (s.guards.set j (G.note k v))[i]? = some H) :
    (i = j ∧ H = G.note k v) ∨ (i ≠ j ∧ s.guards[i]? = some H) := by
  obtain ⟨lt, -⟩ := List.getElem?_eq_some_iff.1 get
  rw [List.getElem?_set, if_pos lt] at got
  split at got
  next same =>
    exact .inl ⟨same.symm, (Option.some.inj got).symm⟩
  next ne => exact .inr ⟨Ne.symm ne, got⟩

/-- What a guard returned, after a note. -/
lemma returned_note {k' : Nat} (ret : (G.note k v).returned k' = some p) :
    (k' = k ∧ v = some p) ∨ (k' ≠ k ∧ G.returned k' = some p) := by
  unfold Guard.note at ret
  dsimp only at ret
  rw [Function.update_apply] at ret
  split at ret
  next same => exact .inl ⟨same, ret⟩
  next ne => exact .inr ⟨ne, ret⟩

/-- Guards return only what they have stored in cells they have. -/
structure Held (w : Setup) (s : State π) : Prop where
  rows : ∀ (i : Nat) (G : Guard π), s.guards[i]? = some G → ∀ k p, G.returned k = some p → G.cells = true ∧ k < w.kCells
  protect : ∀ j k p, s.protect = some (j, k, p) → s.cell k = p ∧ k < w.kCells ∧
    ∃ G : Guard π, s.guards[j]? = some G ∧ G.cells = true

/-- There are no guards yet. -/
lemma Held.init : Held w ({} : State π) :=
  ⟨nofun, nofun⟩

/-- A guard notes a pointer in a cell that it has. -/
lemma Held.note_rows (he : Held w s) (get : s.guards[j]? = some G) (mine : ∀ p, v = some p →
    G.cells = true ∧ k < w.kCells) (got : (s.guards.set j (G.note k v))[i]? = some H) :
    ∀ k p, H.returned k = some p → H.cells = true ∧ k < w.kCells := by
  intro k' p ret
  obtain ⟨rfl, rfl⟩ | ⟨-, got⟩ := get_set get got
  · obtain ⟨rfl, here⟩ | ⟨-, ret⟩ := returned_note ret
    · exact mine p here
    · exact he.rows _ _ get k' p ret
  · exact he.rows _ _ got k' p ret

/-- `Set` takes the note back. -/
lemma Held.set_rows (he : Held w s) (get : s.guards[j]? = some G)
    (got : (s.set w j G k x).guards[i]? = some H) :
    ∀ k p, H.returned k = some p → H.cells = true ∧ k < w.kCells := by
  unfold State.set at got
  split at got
  · exact he.note_rows (v := none) get (fun _ no => nomatch no) got
  · exact he.rows _ _ got

/-- A call of `Set` outside `Protect`. -/
lemma Held.set (he : Held w s) (idle : s.protect = none) (get : s.guards[j]? = some G) :
    Held w (s.set w j G k x) := by
  refine ⟨fun i H got => he.set_rows get got, fun j' k' p' here => ?_⟩
  unfold State.set at here
  split at here
  · exact nomatch idle.symm.trans here
  · exact nomatch idle.symm.trans here

/-- A round of `Protect`. -/
lemma Held.load (he : Held w s) (get : s.guards[j]? = some G) (cells : G.cells = true) (lt : k < w.kCells) :
    Held w { s.set w j G k p with protect := some (j, k, p) } := by
  refine ⟨fun i H got => he.set_rows get got, ?_⟩
  rintro _ _ _ ⟨⟩
  obtain ⟨len, -⟩ := List.getElem?_eq_some_iff.1 get
  unfold State.set
  rw [if_pos ⟨cells, lt⟩]
  refine ⟨Function.update_self .., lt, G.note k none, ?_, cells⟩
  exact List.getElem?_set_self len

/-- A step keeps the notes with the cells. -/
lemma Held.step (he : Held w s) (st : Step w s l u) : Held w u := by
  cases st with
  | init => exact ⟨he.rows, he.protect⟩
  | construct _ idle _ =>
    refine ⟨fun i H got => ?_, fun _ _ _ here => nomatch idle.symm.trans here⟩
    cases i with
    | zero =>
      cases got
      exact nofun
    | succ i => exact he.rows i H got
  | fatalNestedWorkerGuard => exact ⟨he.rows, he.protect⟩
  | set _ idle get => exact he.set idle get
  | clear _ idle get => exact he.set idle get
  | enter _ _ get cells lt => exact he.load get cells lt
  | fatalCellOverflow => exact ⟨he.rows, he.protect⟩
  | again here get =>
    obtain ⟨-, lt, G', get', cells⟩ := he.protect _ _ _ here
    cases get.symm.trans get'
    exact he.load get cells lt
  | found here get =>
    obtain ⟨-, lt, G', get', cells⟩ := he.protect _ _ _ here
    cases get.symm.trans get'
    exact ⟨fun i H got => he.note_rows get (fun _ _ => ⟨cells, lt⟩) got, nofun⟩
  | destroy _ idle eq =>
    refine ⟨fun i H got => he.rows (i + 1) H ?_, fun _ _ _ here => nomatch idle.symm.trans here⟩
    rw [eq]
    exact got

/-- What another guard's `Protect` returned is still there if the cell gets the same. -/
lemma Kept.set (kp : Kept s) (get : s.guards[j]? = some G) (ag : Agrees w s j k x) :
    Kept (s.set w j G k x) := by
  unfold State.set
  split
  next effect =>
    intro i H got k' p ret
    change Function.update s.cell k x k' = p
    rw [Function.update_apply]
    obtain ⟨rfl, rfl⟩ | ⟨ne, got⟩ := get_set get got
    · obtain ⟨-, here⟩ | ⟨ne, ret⟩ := returned_note ret
      · exact nomatch here
      · rw [if_neg ne]
        exact kp _ _ get k' p ret
    · split
      next same => exact (ag G get effect.1 effect.2 i H ne got p (same ▸ ret)).symm
      next => exact kp _ _ got k' p ret
  next => exact kp

/-- And only then. -/
lemma Agrees.of_kept (get : s.guards[j]? = some G) (kp : Kept (s.set w j G k x)) : Agrees w s j k x := by
  intro G' get' cells lt i H ne got p ret
  cases get.symm.trans get'
  unfold State.set at kp
  rw [if_pos ⟨cells, lt⟩] at kp
  have there := kp i H ((List.getElem?_set_ne (Ne.symm ne)).trans got) k p ret
  exact there.symm.trans (Function.update_self ..)

/-- A step that disturbs no guard leaves what they protect. -/
lemma Kept.step (he : Held w s) (kp : Kept s) (ok : Undisturbed w s l) (st : Step w s l u) : Kept u := by
  cases st with
  | init => exact kp
  | construct _ _ _ =>
    intro i H got k p ret
    cases i with
    | zero =>
      cases got
      exact nomatch ret
    | succ i => exact kp i H got k p ret
  | fatalNestedWorkerGuard => exact kp
  | set _ _ get => exact kp.set get ok
  | clear _ _ get => exact kp.set get ok
  | enter _ _ get _ _ => exact kp.set get ok
  | fatalCellOverflow => exact kp
  | again _ get => exact kp.set get ok
  | found here get =>
    intro i H got k' p' ret
    obtain ⟨rfl, rfl⟩ | ⟨-, got⟩ := get_set get got
    · obtain ⟨rfl, eq⟩ | ⟨-, ret⟩ := returned_note ret
      · cases eq
        exact (he.protect _ _ _ here).1
      · exact kp _ _ get k' p' ret
    · exact kp _ _ got k' p' ret
  | @destroy G rest _ _ eq =>
    intro i H got k p ret
    have kept : s.cell k = p := kp (i + 1) H (by rw [eq]; exact got) k p ret
    unfold State.destroy
    dsimp only
    split
    next cells =>
      change (if k < w.kCells then none else s.cell k) = p
      rw [kept, ok G rest eq cells H (List.mem_of_getElem? got) k p ret, ite_self]
    next => exact kept

/-- A step that leaves what the guards protect has disturbed none. -/
lemma Undisturbed.of_kept (he : Held w s) (st : Step w s l u) (kp : Kept u) : Undisturbed w s l := by
  cases st with
  | init => trivial
  | construct _ _ _ => trivial
  | fatalNestedWorkerGuard => trivial
  | set _ _ get => exact .of_kept get kp
  | clear _ _ get => exact .of_kept get kp
  | enter _ _ get _ _ => exact .of_kept get kp
  | fatalCellOverflow _ _ get no =>
    intro G' get' cells lt
    cases get.symm.trans get'
    exact absurd ⟨cells, lt⟩ no
  | again _ get => exact .of_kept get kp
  | found _ _ => trivial
  | @destroy G rest _ _ eq =>
    intro G' rest' eq' cells H mem k p ret
    cases eq.symm.trans eq'
    obtain ⟨i, got⟩ := List.mem_iff_getElem?.1 mem
    have kept := kp i H got k p ret
    obtain ⟨-, lt⟩ := he.rows (i + 1) H (by rw [eq]; exact got) k p ret
    unfold State.destroy at kept
    dsimp only at kept
    rw [if_pos cells, if_pos lt] at kept
    exact kept.symm

/-- In a run that disturbs no guard all keep what they protect. -/
lemma Kept.of_runs (rn : Runs (Step w) (Undisturbed w) {} s) : Held w s ∧ Kept s := by
  induction rn with
  | refl => exact ⟨.init, fun _ _ no => nomatch no⟩
  | tail _ ok st ih =>
    obtain ⟨he, kp⟩ := ih
    exact ⟨he.step st, kp.step he ok st⟩

/-- A live guard keeps what it protects in every state of a run if and only if no step of the run disturbs it. -/
theorem guard_keeps :
    Reaches (fun s l u => Step w s l u ∧ Kept u) {} s ↔ Runs (Step w) (Undisturbed w) {} s := by
  constructor
  · intro rn
    induction rn with
    | refl => exact .refl
    | tail _ _ st ih => exact ih.tail (.of_kept (Kept.of_runs ih).1 st.1 st.2) st.1
  · intro rn
    induction rn with
    | refl => exact .refl
    | tail rn ok st ih =>
      obtain ⟨he, kp⟩ := Kept.of_runs rn
      exact ih.tail trivial ⟨st, kp.step he ok st⟩

/-- A second guard on the row of a fiber takes away what the first protects. -/
theorem guard_erased : ¬∀ s : State Nat, Reaches (Step ⟨true, false, 4⟩) {} s → Kept s := by
  intro kept
  have rn : Reaches (Step ⟨true, false, 4⟩) ({} : State Nat) _ :=
    Runs.refl
      |>.next .init trivial .init
      |>.next .construct trivial (.construct rfl rfl nofun)
      |>.next (.load 0 0 (some 1)) trivial (.enter rfl rfl rfl rfl (by decide))
      |>.next .found trivial (.found rfl rfl)
      |>.next .construct trivial (.construct rfl rfl nofun)
      |>.next .destroy trivial (.destroy rfl rfl rfl)
  exact nomatch kept _ rn 0 _ rfl 0 (some 1) rfl

/-! ### Rows that are not a fiber's -/

def Guard.kind (G : Guard π) : Bool × Bool :=
  (G.cells, G.countsForSuspend)

/-- One guard has cells, and then the counter says so. -/
structure Alone (s : State π) : Prop where
  lone : (s.guards.map Guard.kind).Pairwise fun a b => a.1 = false ∨ b.1 = false
  depth : s.suspendUnsafeDepth = 0 → ∀ a ∈ s.guards.map Guard.kind, a.1 = false
  counts : ∀ a ∈ s.guards.map Guard.kind, a.2 = a.1

/-- There are no guards yet. -/
lemma Alone.init : Alone ({} : State π) :=
  ⟨.nil, nofun, nofun⟩

/-- A note is not about rows. -/
lemma note_kinds (get : s.guards[j]? = some G) :
    (s.guards.set j (G.note k v)).map Guard.kind = s.guards.map Guard.kind := by
  obtain ⟨lt, eq⟩ := List.getElem?_eq_some_iff.1 get
  have here : j < (s.guards.map Guard.kind).length := by
    rw [List.length_map]
    exact lt
  have same : (G.note k v).kind = (s.guards.map Guard.kind)[j] := by
    rw [List.getElem_map, eq]
    rfl
  rw [List.map_set, same, List.set_getElem_self]

/-- No guard comes or goes. -/
lemma Alone.congr (al : Alone s) (kinds : u.guards.map Guard.kind = s.guards.map Guard.kind)
    (depth : u.suspendUnsafeDepth = s.suspendUnsafeDepth) : Alone u := by
  obtain ⟨lone, none, counts⟩ := al
  rw [← kinds] at lone none counts
  exact ⟨lone, depth ▸ none, counts⟩

/-- A guard writes its cells. -/
lemma Alone.set (al : Alone s) (get : s.guards[j]? = some G) : Alone (s.set w j G k x) := by
  unfold State.set
  split
  · exact al.congr (note_kinds get) rfl
  · exact al

/-- On a worker's row a second guard gets no cells. -/
lemma Alone.step (hw : w.fiber = false ∧ w.forceWorkerCells = false) (al : Alone s) (st : Step w s l u) :
    Alone u := by
  cases st with
  | init => exact ⟨al.lone, al.depth, al.counts⟩
  | construct _ _ free =>
    have same : (construct w s).countsForSuspend = (construct w s).cells := by
      unfold construct currentReader
      rw [hw.1, hw.2]
      cases s.isInitialized <;> rfl
    cases counts : (construct w s).countsForSuspend with
    | true =>
      have none := al.depth ((free counts).resolve_right (by rw [hw.2]; nofun))
      refine ⟨.cons (fun a mem => .inr (none a mem)) al.lone, ?_, ?_⟩
      · dsimp only
        rw [if_pos rfl]
        exact nofun
      · rintro a mem
        obtain rfl | mem := List.mem_cons.1 mem
        · exact same
        · exact al.counts a mem
    | false =>
      rw [counts] at same
      refine ⟨.cons (fun a _ => .inl same.symm) al.lone, fun here => ?_, ?_⟩
      · rintro a mem
        obtain rfl | mem := List.mem_cons.1 mem
        · exact same.symm
        · exact al.depth here a mem
      · rintro a mem
        obtain rfl | mem := List.mem_cons.1 mem
        · exact counts.trans same
        · exact al.counts a mem
  | fatalNestedWorkerGuard => exact ⟨al.lone, al.depth, al.counts⟩
  | set _ _ get => exact al.set get
  | clear _ _ get => exact al.set get
  | enter _ _ get _ _ => exact (al.set get).congr rfl rfl
  | fatalCellOverflow => exact ⟨al.lone, al.depth, al.counts⟩
  | again _ get => exact (al.set get).congr rfl rfl
  | found _ get => exact al.congr (note_kinds get) rfl
  | @destroy G rest _ _ eq =>
    obtain ⟨lone, depth, counts⟩ := al
    rw [eq] at lone depth counts
    obtain ⟨first, lone⟩ := List.pairwise_cons.1 lone
    refine ⟨lone, fun zero a mem => ?_, fun a mem => counts a (.tail _ mem)⟩
    cases counted : G.countsForSuspend with
    | true =>
      have cells : G.cells = true := (counts _ (.head _)).symm.trans counted
      exact (first a mem).resolve_left (by rw [show G.kind.1 = G.cells from rfl, cells]; nofun)
    | false =>
      unfold State.destroy at zero
      dsimp only at zero
      rw [if_neg (by rw [counted]; nofun)] at zero
      exact depth zero a (.tail _ mem)

/-- Two guards that have cells are one. -/
lemma Alone.eq (al : Alone s) (get : s.guards[i]? = some G) (got : s.guards[j]? = some H)
    (cells : G.cells = true) (cells' : H.cells = true) : i = j := by
  have lone := List.pairwise_iff_getElem.1 (List.pairwise_map.1 al.lone)
  obtain ⟨ltI, rfl⟩ := List.getElem?_eq_some_iff.1 get
  obtain ⟨ltJ, rfl⟩ := List.getElem?_eq_some_iff.1 got
  obtain lt | eq | gt := Nat.lt_trichotomy i j
  · have no := lone i j ltI ltJ lt
    exact no.elim (fun no => nomatch cells.symm.trans no) fun no => nomatch cells'.symm.trans no
  · exact eq
  · have no := lone j i ltJ ltI gt
    exact no.elim (fun no => nomatch cells'.symm.trans no) fun no => nomatch cells.symm.trans no

/-- There is nobody to disturb. -/
lemma Alone.undisturbed (al : Alone s) (he : Held w s) : ∀ l, Undisturbed w s l := by
  have agrees : ∀ j k x, Agrees w s j k x := by
    intro j k x G get cells _ i H ne got p ret
    exact absurd (al.eq got get (he.rows i H got k p ret).1 cells) ne
  rintro (_ | _ | ⟨j, k, x⟩ | ⟨j, k⟩ | ⟨j, k, p⟩ | _ | _)
  · trivial
  · trivial
  · exact agrees j k x
  · exact agrees j k none
  · exact agrees j k p
  · trivial
  · intro G rest eq cells H mem k p ret
    obtain ⟨i, got⟩ := List.mem_iff_getElem?.1 mem
    have get : s.guards[0]? = some G := by rw [eq]; rfl
    have got : s.guards[i + 1]? = some H := by rw [eq]; exact got
    exact nomatch al.eq get got cells (he.rows _ H got k p ret).1

/-- On a row that is not a fiber's, the guards that the constructor has not refused keep what they protect. -/
theorem worker_guard_keeps (hw : w.fiber = false ∧ w.forceWorkerCells = false) (rn : Reaches (Step w) {} s) :
    Kept s := by
  have inv : Alone s ∧ Runs (Step w) (Undisturbed w) {} s := by
    induction rn with
    | refl => exact ⟨.init, .refl⟩
    | tail _ _ st ih =>
      obtain ⟨al, rn⟩ := ih
      exact ⟨al.step hw st, rn.tail (al.undisturbed (Kept.of_runs rn).1 _) st⟩
  exact (Kept.of_runs inv.2).2

end JLib.Hazard.Guards
