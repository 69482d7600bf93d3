import JLib.LTS.Runs
import Mathlib.Algebra.Order.Ring.Int
import Mathlib.Data.List.Basic
import Mathlib.Logic.Function.Basic

/-!
# Swap under a scan

`HazardGuard::Swap` and one call of `HazardDomain::Scan` of `src/Hazard.cpp`, every access to a cell a step. `Swap`
loads two cells of its row and stores each value in the other cell; nobody else writes these two. `Scan` reads all
cells in index order and then runs the deleters of what it did not find, first from the thread's own bag and then
from the store. The other cells change as they like.

Of the state, `early`, `readA`, `readB`, `others`, `examined` and `deleted` are read by no step.
-/

namespace JLib.Hazard.Swap
open LTS

/-- Where the guard's thread is in `Swap`. -/
inductive Pc (π : Type) where
  | enter
  | loadedA (va : Option π)
  | loaded (va vb : Option π)
  | stored (va vb : Option π)
  | returned

/-- How far the two stores are. -/
inductive Phase where
  | before
  | between
  | after
  deriving DecidableEq

def Pc.phase {π : Type} : Pc π → Phase
  | .stored _ _ => .between
  | .returned => .after
  | _ => .before

/-- Where the other thread is in `Scan`. -/
inductive Scan (π : Type) where
  | idle
  | read (named : List π) (i : Nat)
  | own (named todo : List π)
  | orphan (named todo : List π)
  | returned (named : List π)

structure State (π : Type) where
  cell : Nat → Option π
  pc : Pc π := .enter
  scan : Scan π := .idle
  -- the bag of the thread that scans, those of the other threads, and the store
  items : List π := []
  elsewhere : List π := []
  orphans : List π := []
  -- what was retired before `Swap` had returned
  early : List π := []
  -- how far `Swap` was when the scan read its two cells, and what it read in the others
  readA : Option Phase := none
  readB : Option Phase := none
  others : List π := []
  -- the entries that the loops have come to, and those whose deleter was run
  examined : List π := []
  deleted : List π := []

variable {π : Type} [DecidableEq π]

/-- The scan reads a cell. -/
def State.read (a b : Nat) (s : State π) (named : List π) (i : Nat) : State π :=
  { s with
    scan := .read (named ++ (s.cell i).toList) (i + 1)
    readA := if i = a then some s.pc.phase else s.readA
    readB := if i = b then some s.pc.phase else s.readB
    others := if i = a ∨ i = b then s.others else s.others ++ (s.cell i).toList }

/-- A retirement as `Swap` sees it. -/
def State.noteEarly (s : State π) (p : π) : List π :=
  match s.pc with
  | .returned => s.early
  | _ => s.early ++ [p]

/-- A round of a loop over entries. -/
def State.visit (s : State π) (named : List π) (p : π) : State π :=
  { s with
    examined := s.examined ++ [p]
    deleted := if p ∈ named then s.deleted else s.deleted ++ [p] }

inductive Label (π : Type) where
  | swap
  | other (k : Nat) (x : Option π)
  | retire (p : π)
  | retireElsewhere (p : π)
  | orphan (p : π)
  | scan

/-- `n` is the number of cells. -/
inductive Step (n a b : Nat) : State π → Label π → State π → Prop where
  -- Swap
  | loadA {s : State π} :
    s.pc = .enter →
    Step n a b s .swap { s with pc := .loadedA (s.cell a) }
  | loadB {s : State π} {va} :
    s.pc = .loadedA va →
    Step n a b s .swap { s with pc := .loaded va (s.cell b) }
  | storeA {s : State π} {va vb} :
    s.pc = .loaded va vb →
    Step n a b s .swap { s with pc := .stored va vb, cell := Function.update s.cell a vb }
  | storeB {s : State π} {va vb} :
    s.pc = .stored va vb →
    Step n a b s .swap { s with pc := .returned, cell := Function.update s.cell b va }
  -- the other cells
  | other {s : State π} {k x} :
    k ≠ a →
    k ≠ b →
    Step n a b s (.other k x) { s with cell := Function.update s.cell k x }
  -- retirements by the thread that will scan and by others, and what threads that end leave in the store
  | retire {s : State π} {p} :
    s.scan = .idle →
    Step n a b s (.retire p) { s with items := s.items ++ [p], early := s.noteEarly p }
  | retireElsewhere {s : State π} {p} :
    Step n a b s (.retireElsewhere p) { s with elsewhere := s.elsewhere ++ [p], early := s.noteEarly p }
  | adopt {s : State π} {p} :
    p ∈ s.elsewhere →
    (∀ named todo, s.scan ≠ .orphan named todo) →
    Step n a b s (.orphan p) { s with elsewhere := s.elsewhere.erase p, orphans := s.orphans ++ [p] }
  -- Scan
  | scan {s : State π} :
    s.scan = .idle →
    Step n a b s .scan { s with scan := .read [] 0 }
  | read {s : State π} {named i} :
    s.scan = .read named i →
    i < n →
    Step n a b s .scan (s.read a b named i)
  | own {s : State π} {named} :
    s.scan = .read named n →
    Step n a b s .scan { s with scan := .own named s.items }
  | ownVisit {s : State π} {named p todo} :
    s.scan = .own named (p :: todo) →
    Step n a b s .scan { s.visit named p with scan := .own named todo }
  | orphan {s : State π} {named} :
    s.scan = .own named [] →
    Step n a b s .scan { s with scan := .orphan named s.orphans }
  | orphanVisit {s : State π} {named p todo} :
    s.scan = .orphan named (p :: todo) →
    Step n a b s .scan { s.visit named p with scan := .orphan named todo }
  | finish {s : State π} {named} :
    s.scan = .orphan named [] →
    Step n a b s .scan { s with scan := .returned named }

/-- The scan read neither of the two cells while it held `p`; `c` are the cells when `Swap` began. -/
def Missed (c : Nat → Option π) (a b : Nat) (s : State π) (p : π) : Prop :=
  (c a = some p → s.readA ≠ some .before ∧ s.readB ≠ some .after) ∧
    (c b = some p → s.readA = some .before ∧ s.readB = some .after)

/-- What the cells of `Swap` hold in a phase. -/
def atA (c : Nat → Option π) (a b : Nat) : Phase → Option π
  | .before => c a
  | _ => c b

def atB (c : Nat → Option π) (a b : Nat) : Phase → Option π
  | .after => c a
  | _ => c b

variable {n a b : Nat} {c : Nat → Option π} {s u : State π} {l : Label π} {p : π} {named : List π} {i : Nat}

/-- `Swap` holds what it has loaded, and the cells hold what its phase says. -/
structure Cells (c : Nat → Option π) (a b : Nat) (s : State π) : Prop where
  atA : s.cell a = atA c a b s.pc.phase
  atB : s.cell b = atB c a b s.pc.phase
  loadedA : ∀ va, s.pc = .loadedA va → va = c a
  loaded : ∀ va vb, s.pc = .loaded va vb → va = c a ∧ vb = c b
  stored : ∀ va vb, s.pc = .stored va vb → va = c a ∧ vb = c b

omit [DecidableEq π] in
/-- `Swap` has not begun. -/
lemma Cells.init : Cells c a b { cell := c } :=
  ⟨rfl, rfl, nofun, nofun, nofun⟩

/-- A step leaves the cells as its phase says. -/
lemma Cells.step (ce : Cells c a b s) (st : Step n a b s l u) : Cells c a b u := by
  cases st with
  | loadA here =>
    have at' := ce.atA
    rw [here] at at'
    refine ⟨ce.atA.trans (by rw [here]; rfl), ce.atB.trans (by rw [here]; rfl), ?_, nofun, nofun⟩
    rintro _ h
    cases h
    exact at'
  | @loadB va here =>
    have at' := ce.atB
    rw [here] at at'
    refine ⟨ce.atA.trans (by rw [here]; rfl), ce.atB.trans (by rw [here]; rfl), nofun, ?_, nofun⟩
    rintro _ _ h
    cases h
    exact ⟨ce.loadedA va here, at'⟩
  | @storeA va vb here =>
    obtain ⟨rfl, rfl⟩ := ce.loaded va vb here
    have at' := ce.atB
    rw [here] at at'
    refine ⟨Function.update_self .., ?_, nofun, nofun, ?_⟩
    · change Function.update s.cell a (c b) b = c b
      rw [Function.update_apply]
      split
      · rfl
      · exact at'
    · rintro _ _ h
      cases h
      exact ⟨rfl, rfl⟩
  | @storeB va vb here =>
    obtain ⟨rfl, rfl⟩ := ce.stored va vb here
    have at' := ce.atA
    rw [here] at at'
    refine ⟨?_, Function.update_self .., nofun, nofun, nofun⟩
    change Function.update s.cell b (c a) a = c b
    rw [Function.update_apply]
    split
    next same => rw [same]
    next => exact at'
  | other neA neB =>
    refine ⟨?_, ?_, ce.loadedA, ce.loaded, ce.stored⟩
    · exact (Function.update_of_ne (Ne.symm neA) ..).trans ce.atA
    · exact (Function.update_of_ne (Ne.symm neB) ..).trans ce.atB
  | _ => exact ⟨ce.atA, ce.atB, ce.loadedA, ce.loaded, ce.stored⟩

/-- What a scan has found: in the two cells what they held in the phases in which they were read. -/
def Names (c : Nat → Option π) (a b : Nat) (s : State π) (named : List π) : Prop :=
  ∀ p, p ∈ named ↔ p ∈ s.others ∨ (∃ ph, s.readA = some ph ∧ atA c a b ph = some p) ∨
    ∃ ph, s.readB = some ph ∧ atB c a b ph = some p

/-- The cells were read, and the loops run the deleters of what is not named. -/
structure Reading (c : Nat → Option π) (a b : Nat) (s : State π) (named : List π) : Prop where
  names : Names c a b s named
  readA : s.readA ≠ none
  readB : s.readB ≠ none
  deleted : ∀ p, p ∈ s.deleted ↔ p ∈ s.examined ∧ p ∉ named

/-- What the scan has to do with the cells. -/
def Scanned (c : Nat → Option π) (a b : Nat) (s : State π) : Prop :=
  match s.scan with
  | .idle => Names c a b s [] ∧ s.readA = none ∧ s.readB = none ∧ s.examined = [] ∧ s.deleted = []
  | .read named i =>
    Names c a b s named ∧ (a < i → s.readA ≠ none) ∧ (b < i → s.readB ≠ none) ∧
      (i ≤ a → s.readA = none) ∧ (i ≤ b → s.readB = none) ∧ s.examined = [] ∧ s.deleted = []
  | .own named _ => Reading c a b s named
  | .orphan named _ => Reading c a b s named
  | .returned named => Reading c a b s named

omit [DecidableEq π] in
/-- The scan has not begun. -/
lemma Scanned.init : Scanned c a b { cell := c } := by
  refine ⟨fun p => ⟨nofun, ?_⟩, rfl, rfl, rfl, rfl⟩
  rintro (h | ⟨_, h, -⟩ | ⟨_, h, -⟩)
  · cases h
  · cases h
  · cases h

omit [DecidableEq π] in
/-- The scan is about what it has read. -/
lemma Scanned.congr (sc : Scanned c a b s) (scan : u.scan = s.scan) (readA : u.readA = s.readA)
    (readB : u.readB = s.readB) (others : u.others = s.others) (examined : u.examined = s.examined)
    (deleted : u.deleted = s.deleted) : Scanned c a b u := by
  have names : ∀ named, Names c a b s named → Names c a b u named := by
    intro named nm
    unfold Names
    rw [readA, readB, others]
    exact nm
  have reading : ∀ named, Reading c a b s named → Reading c a b u named := by
    intro named rd
    refine ⟨names _ rd.names, readA ▸ rd.readA, readB ▸ rd.readB, ?_⟩
    rw [examined, deleted]
    exact rd.deleted
  unfold Scanned at *
  rw [scan]
  split
  next here =>
    rw [here] at sc
    rw [readA, readB, examined, deleted]
    exact ⟨names _ sc.1, sc.2⟩
  next here =>
    rw [here] at sc
    rw [readA, readB, examined, deleted]
    exact ⟨names _ sc.1, sc.2⟩
  all_goals
    next here =>
      rw [here] at sc
      exact reading _ sc

omit [DecidableEq π] in
/-- One cell more. -/
lemma Names.read (nm : Names c a b s named) (ce : Cells c a b s) (newA : i ≤ a → s.readA = none)
    (newB : i ≤ b → s.readB = none) : Names c a b (s.read a b named i) (named ++ (s.cell i).toList) := by
  intro p
  rw [List.mem_append, nm p, Option.mem_toList]
  unfold State.read
  dsimp only
  by_cases hA : i = a
  · have value : s.cell i = atA c a b s.pc.phase := by
      rw [hA]
      exact ce.atA
    rw [newA (Nat.le_of_eq hA), if_pos hA, if_pos (.inl hA)]
    by_cases hB : i = b
    · have value' : s.cell i = atB c a b s.pc.phase := by
        rw [hB]
        exact ce.atB
      rw [newB (Nat.le_of_eq hB), if_pos hB]
      simp [← value, ← value']
    · rw [if_neg hB, value]
      simp only [reduceCtorEq, false_and, exists_false, false_or, Option.some.injEq, exists_eq_left']
      exact or_right_comm.trans or_assoc
  · rw [if_neg hA]
    by_cases hB : i = b
    · have value : s.cell i = atB c a b s.pc.phase := by
        rw [hB]
        exact ce.atB
      rw [newB (Nat.le_of_eq hB), if_pos hB, if_pos (.inr hB), value]
      simp only [reduceCtorEq, false_and, exists_false, or_false, Option.some.injEq, exists_eq_left']
      exact or_assoc
    · rw [if_neg hB, if_neg (not_or.2 ⟨hA, hB⟩), List.mem_append, Option.mem_toList]
      exact or_right_comm

/-- A round of a loop. -/
lemma Reading.visit {sc : Scan π} (rd : Reading c a b s named) (p : π) :
    Reading c a b { s.visit named p with scan := sc } named := by
  refine ⟨rd.names, rd.readA, rd.readB, fun q => ?_⟩
  unfold State.visit
  dsimp only
  rw [List.mem_append, List.mem_singleton]
  split
  next named' =>
    rw [rd.deleted q]
    constructor
    · exact fun h => ⟨.inl h.1, h.2⟩
    · rintro ⟨h | rfl, out⟩
      · exact ⟨h, out⟩
      · exact absurd named' out
  next out =>
    rw [List.mem_append, List.mem_singleton, rd.deleted q]
    constructor
    · rintro (h | rfl)
      · exact ⟨.inl h.1, h.2⟩
      · exact ⟨.inr rfl, out⟩
    · rintro ⟨h | rfl, out⟩
      · exact .inl ⟨h, out⟩
      · exact .inr rfl

/-- A step leaves the scan with what it has read. -/
lemma Scanned.step (hn : a < n ∧ b < n) (sc : Scanned c a b s) (ce : Cells c a b s) (st : Step n a b s l u) :
    Scanned c a b u := by
  cases st with
  | loadA _ => exact sc.congr rfl rfl rfl rfl rfl rfl
  | loadB _ => exact sc.congr rfl rfl rfl rfl rfl rfl
  | storeA _ => exact sc.congr rfl rfl rfl rfl rfl rfl
  | storeB _ => exact sc.congr rfl rfl rfl rfl rfl rfl
  | other _ _ => exact sc.congr rfl rfl rfl rfl rfl rfl
  | retire _ => exact sc.congr rfl rfl rfl rfl rfl rfl
  | retireElsewhere => exact sc.congr rfl rfl rfl rfl rfl rfl
  | adopt _ _ => exact sc.congr rfl rfl rfl rfl rfl rfl
  | scan here =>
    unfold Scanned at sc
    rw [here] at sc
    obtain ⟨nm, eA, eB, ex, de⟩ := sc
    exact ⟨nm, nofun, nofun, fun _ => eA, fun _ => eB, ex, de⟩
  | @read named i here lt =>
    unfold Scanned at sc
    rw [here] at sc
    obtain ⟨nm, someA, someB, noneA, noneB, ex, de⟩ := sc
    refine ⟨nm.read ce noneA noneB, ?_, ?_, ?_, ?_, ex, de⟩
    · intro lt
      change (if i = a then _ else s.readA) ≠ none
      split
      · nofun
      · exact someA (by omega)
    · intro lt
      change (if i = b then _ else s.readB) ≠ none
      split
      · nofun
      · exact someB (by omega)
    · intro le
      change (if i = a then _ else s.readA) = none
      rw [if_neg (by omega)]
      exact noneA (by omega)
    · intro le
      change (if i = b then _ else s.readB) = none
      rw [if_neg (by omega)]
      exact noneB (by omega)
  | own here =>
    unfold Scanned at sc
    rw [here] at sc
    obtain ⟨nm, someA, someB, -, -, ex, de⟩ := sc
    refine ⟨nm, someA hn.1, someB hn.2, fun p => ?_⟩
    dsimp only
    rw [ex, de]
    exact ⟨nofun, fun h => nomatch h.1⟩
  | ownVisit here =>
    unfold Scanned at sc
    rw [here] at sc
    exact Reading.visit sc _
  | orphan here =>
    unfold Scanned at sc
    rw [here] at sc
    exact ⟨sc.names, sc.readA, sc.readB, sc.deleted⟩
  | orphanVisit here =>
    unfold Scanned at sc
    rw [here] at sc
    exact Reading.visit sc _
  | finish here =>
    unfold Scanned at sc
    rw [here] at sc
    exact ⟨sc.names, sc.readA, sc.readB, sc.deleted⟩

/-- Of what was in the two cells when `Swap` began, the scan has found all but what it missed. -/
lemma Reading.named_iff (rd : Reading c a b s named) (mine : c a = some p ∨ c b = some p) :
    p ∈ named ↔ p ∈ s.others ∨ ¬Missed c a b s p := by
  obtain ⟨phA, eA⟩ := Option.ne_none_iff_exists'.1 rd.readA
  obtain ⟨phB, eB⟩ := Option.ne_none_iff_exists'.1 rd.readB
  have found : p ∈ named ↔ p ∈ s.others ∨ atA c a b phA = some p ∨ atB c a b phB = some p := by
    rw [rd.names p, eA, eB]
    simp
  have missed : Missed c a b s p ↔ ¬(atA c a b phA = some p ∨ atB c a b phB = some p) := by
    unfold Missed atA atB
    rw [eA, eB]
    by_cases hA : c a = some p <;> by_cases hB : c b = some p <;> cases phA <;> cases phB <;> simp_all
  rw [found, missed, not_not]

/-- A scan that meets a `Swap` anywhere deletes nothing that was in the two cells when the `Swap` began and was
retired before it returned if and only if, of such entries that it comes to, it has missed none that it did not find
in another cell. -/
theorem swap_protects (hn : a < n ∧ b < n) (rn : Reaches (Step n a b) { cell := c } s) :
    (∀ p ∈ s.early, c a = some p ∨ c b = some p → p ∉ s.deleted) ↔
      ∀ p ∈ s.early, c a = some p ∨ c b = some p → p ∈ s.examined → p ∉ s.others → ¬Missed c a b s p := by
  have inv : Cells c a b s ∧ Scanned c a b s :=
    rn.invariant (I := fun s => Cells c a b s ∧ Scanned c a b s) ⟨.init, .init⟩ fun inv _ st =>
      ⟨inv.1.step st, inv.2.step hn inv.1 st⟩
  have reading : ∀ named, Reading c a b s named → ((∀ p ∈ s.early, c a = some p ∨ c b = some p → p ∉ s.deleted) ↔
      ∀ p ∈ s.early, c a = some p ∨ c b = some p → p ∈ s.examined → p ∉ s.others → ¬Missed c a b s p) := by
    intro named rd
    constructor
    · intro safe p early mine seen out missed
      refine safe p early mine ((rd.deleted p).2 ⟨seen, fun found => ?_⟩)
      exact ((rd.named_iff mine).1 found).elim out fun no => no missed
    · intro found p early mine gone
      obtain ⟨seen, lost⟩ := (rd.deleted p).1 gone
      rw [rd.named_iff mine, not_or] at lost
      exact lost.2 (found p early mine seen lost.1)
  have sc := inv.2
  unfold Scanned at sc
  split at sc
  next =>
    rw [sc.2.2.2.1, sc.2.2.2.2]
    exact ⟨fun _ _ _ _ => nofun, fun _ _ _ _ => nofun⟩
  next =>
    rw [sc.2.2.2.2.2.1, sc.2.2.2.2.2.2]
    exact ⟨fun _ _ _ _ => nofun, fun _ _ _ _ => nofun⟩
  all_goals exact reading _ sc

/-- The two cells hold 1 and 2. -/
def twoCells : Nat → Option Nat
  | 0 => some 1
  | 1 => some 2
  | _ => none

/-- The scan is over before the first store: the entry was kept. -/
theorem swap_protects_before : ∃ s, Reaches (Step 2 0 1) { cell := twoCells } s ∧ s.examined = [1] ∧
    ∀ p ∈ s.early, twoCells 0 = some p ∨ twoCells 1 = some p → p ∉ s.deleted := by
  have rn : Reaches (Step 2 0 1) { cell := twoCells } _ :=
    Runs.refl
      |>.next (.retire 1) trivial (.retire rfl)
      |>.next .swap trivial (.loadA rfl)
      |>.next .scan trivial (.scan rfl)
      |>.next .scan trivial (.read rfl (by decide))
      |>.next .scan trivial (.read rfl (by decide))
      |>.next .scan trivial (.own rfl)
      |>.next .scan trivial (.ownVisit rfl)
      |>.next .swap trivial (.loadB rfl)
      |>.next .swap trivial (.storeA rfl)
  refine ⟨_, rn, rfl, (swap_protects (by decide) rn).2 fun p early _ _ _ missed => ?_⟩
  cases List.mem_singleton.1 early
  exact (missed.1 rfl).1 rfl

/-- Between the two stores the first value is in neither cell. -/
theorem swap_unprotected : ¬∀ s, Reaches (Step 2 0 1) { cell := twoCells } s →
    ∀ p ∈ s.early, twoCells 0 = some p ∨ twoCells 1 = some p → p ∉ s.deleted := by
  intro safe
  have rn : Reaches (Step 2 0 1) { cell := twoCells } _ :=
    Runs.refl
      |>.next (.retire 1) trivial (.retire rfl)
      |>.next .scan trivial (.scan rfl)
      |>.next .swap trivial (.loadA rfl)
      |>.next .swap trivial (.loadB rfl)
      |>.next .swap trivial (.storeA rfl)
      |>.next .scan trivial (.read rfl (by decide))
      |>.next .scan trivial (.read rfl (by decide))
      |>.next .scan trivial (.own rfl)
      |>.next .scan trivial (.ownVisit rfl)
  exact safe _ rn 1 (by decide) (.inl rfl) (by decide)

end JLib.Hazard.Swap
