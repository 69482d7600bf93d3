import JLib.LTS.Runs
import Mathlib.Logic.Function.Basic

/-!
# Hazard pointers

`HazardDomain` and `HazardGuard` of `include/Hazard.h` and `src/Hazard.cpp`. A reader has a row of cells. Its
`Protect` loads a source, stores what it found in a cell and loads the source again, until both loads agree.
A writer takes an object out of the sources and puts it in the bag of its thread. `Scan` reads the cells one
at a time, in index order, and runs the deleters of what it did not find: first in the bag of its own
thread, then in the store that ended threads have left their bags in.

Every access to a shared variable is a step. `Retire` may call `Scan`; here a thread that is not in a `Scan`
may begin one at any time. An address can be used again once its deleter ran.
-/

namespace JLib.Hazard
open LTS

/-- What is in a bag: the object and the number of retirements before its own, which only the proofs read. -/
abbrev Retired (π : Type) := π × Nat

/-- Where a reader is in `Protect`. -/
inductive Protect (κ ι π : Type) where
  | idle
  -- at the head of the loop
  | enter (k : κ) (src : ι)
  | loaded (k : κ) (src : ι) (p : Option π)
  | stored (k : κ) (src : ι) (p : Option π)

/-- Where a thread is in `Scan`. `began` is the number of retirements before it. -/
inductive Scan (κ π : Type) where
  | idle
  -- in the loop over the cells
  | read (began : Nat) (named : List π) (todo : List κ)
  -- in the loop over the thread's own bag
  | own (began : Nat) (named : List π) (todo : List (Retired π))
  -- in the loop over the store, with its lock
  | orphan (began : Nat) (named : List π) (todo : List (Retired π))

/-- Shared state. `src` are the sources from which readers load. -/
structure State (θ ρ κ ι π : Type) where
  cell : κ → Option π := fun _ => none
  src : ι → Option π := fun _ => none
  protect : ρ → Protect κ ι π := fun _ => .idle
  -- what the last `Protect` on a cell returned, until the cell is written again
  returned : κ → Option π := fun _ => none
  -- the object was taken out of all sources and retired
  withdrawn : π → Bool := fun _ => false
  items : θ → List (Retired π) := fun _ => []
  retireDead : θ → Bool := fun _ => false
  orphans : List (Retired π) := []
  orphanCount : Nat := 0
  scan : θ → Scan κ π := fun _ => .idle
  freed : π → Bool := fun _ => false
  retirements : Nat := 0

/-- The row of each cell, and the table in index order. -/
structure Table (ρ κ : Type) where
  row : κ → ρ
  cells : List κ
  all : ∀ k, k ∈ cells

variable {θ ρ κ ι π : Type} [DecidableEq θ] [DecidableEq ρ] [DecidableEq κ] [DecidableEq ι] [DecidableEq π]

namespace State

/-- Nobody has the lock of the store. -/
def Unlocked (s : State θ ρ κ ι π) : Prop := ∀ t b named rs, s.scan t ≠ .orphan b named rs

/-- `AdoptOrphans`. -/
def adoptOrphans (s : State θ ρ κ ι π) (v : List (Retired π)) : State θ ρ κ ι π :=
  if v = [] then s
  else { s with orphans := s.orphans ++ v, orphanCount := (s.orphans ++ v).length }

/-- `Retire`. -/
def retire (s : State θ ρ κ ι π) (t : θ) (p : π) : State θ ρ κ ι π :=
  if s.retireDead t then s.adoptOrphans [(p, s.retirements)]
  else { s with items := Function.update s.items t (s.items t ++ [(p, s.retirements)]) }

/-- `Set`: a cell is written, and what a `Protect` returned before is not protected by it. -/
def set (s : State θ ρ κ ι π) (k : κ) (p : Option π) : State θ ρ κ ι π :=
  { s with
    cell := Function.update s.cell k p
    returned := Function.update s.returned k none }

/-- The deleter runs. -/
def delete (s : State θ ρ κ ι π) (p : π) : State θ ρ κ ι π :=
  { s with freed := Function.update s.freed p true }

end State

inductive Label (θ ρ κ ι π : Type) where
  | protect (r : ρ) (k : κ) (src : ι)
  | load (r : ρ)
  | store (r : ρ)
  | reload (r : ρ)
  | set (k : κ) (p : Option π)
  | write (src : ι) (p : Option π)
  | retire (t : θ) (p : π)
  | reuse (p : π)
  | scan (t : θ)
  | exit (t : θ)

inductive Step (w : Table ρ κ) : State θ ρ κ ι π → Label θ ρ κ ι π → State θ ρ κ ι π → Prop where
  -- Protect
  | protect {s : State θ ρ κ ι π} {r k l} :
    s.protect r = .idle →
    w.row k = r →
    Step w s (.protect r k l) { s with protect := Function.update s.protect r (.enter k l) }
  | load {s : State θ ρ κ ι π} {r k l} :
    s.protect r = .enter k l →
    Step w s (.load r) { s with protect := Function.update s.protect r (.loaded k l (s.src l)) }
  | store {s : State θ ρ κ ι π} {r k l p} :
    s.protect r = .loaded k l p →
    Step w s (.store r) { s.set k p with protect := Function.update s.protect r (.stored k l p) }
  | found {s : State θ ρ κ ι π} {r k l p} :
    s.protect r = .stored k l p →
    s.src l = p →
    Step w s (.reload r)
      { s with
        protect := Function.update s.protect r .idle
        returned := Function.update s.returned k p }
  | moved {s : State θ ρ κ ι π} {r k l p} :
    s.protect r = .stored k l p →
    s.src l ≠ p →
    Step w s (.reload r) { s with protect := Function.update s.protect r (.enter k l) }
  -- Set and Clear, the stores of Swap and of ~HazardGuard
  | set {s : State θ ρ κ ι π} {k p} :
    s.protect (w.row k) = .idle →
    Step w s (.set k p) (s.set k p)
  -- the writers
  | write {s : State θ ρ κ ι π} {l x} :
    (∀ p, x = some p → s.withdrawn p = false) →
    Step w s (.write l x) { s with src := Function.update s.src l x }
  | retire {s : State θ ρ κ ι π} {t p} :
    s.scan t = .idle →
    s.withdrawn p = false →
    (∀ l, s.src l ≠ some p) →
    (s.retireDead t = true → s.Unlocked) →
    Step w s (.retire t p)
      { s.retire t p with
        withdrawn := Function.update s.withdrawn p true
        retirements := s.retirements + 1 }
  -- the allocator gives the address out again
  | reuse {s : State θ ρ κ ι π} {p} :
    s.freed p = true →
    Step w s (.reuse p)
      { s with
        withdrawn := Function.update s.withdrawn p false
        freed := Function.update s.freed p false }
  -- Scan
  | scan {s : State θ ρ κ ι π} {t} :
    s.scan t = .idle →
    s.retireDead t = false →
    ¬(s.items t = [] ∧ s.orphanCount = 0) →
    Step w s (.scan t) { s with scan := Function.update s.scan t (.read s.retirements [] w.cells) }
  | read {s : State θ ρ κ ι π} {t b named k ks} :
    s.scan t = .read b named (k :: ks) →
    Step w s (.scan t)
      { s with scan := Function.update s.scan t (.read b (named ++ (s.cell k).toList) ks) }
  | own {s : State θ ρ κ ι π} {t b named} :
    s.scan t = .read b named [] →
    Step w s (.scan t)
      { s with
        scan := Function.update s.scan t (.own b named (s.items t))
        items := Function.update s.items t [] }
  | ownDelete {s : State θ ρ κ ι π} {t b named r rs} :
    s.scan t = .own b named (r :: rs) →
    r.1 ∉ named →
    Step w s (.scan t) { s.delete r.1 with scan := Function.update s.scan t (.own b named rs) }
  | ownKeep {s : State θ ρ κ ι π} {t b named r rs} :
    s.scan t = .own b named (r :: rs) →
    r.1 ∈ named →
    Step w s (.scan t)
      { s with
        scan := Function.update s.scan t (.own b named rs)
        items := Function.update s.items t (s.items t ++ [r]) }
  | ownEnd {s : State θ ρ κ ι π} {t b named} :
    s.scan t = .own b named [] →
    s.orphanCount = 0 →
    Step w s (.scan t) { s with scan := Function.update s.scan t .idle }
  | orphan {s : State θ ρ κ ι π} {t b named} :
    s.scan t = .own b named [] →
    s.orphanCount ≠ 0 →
    s.Unlocked →
    Step w s (.scan t)
      { s with scan := Function.update s.scan t (.orphan b named s.orphans), orphans := [] }
  | orphanDelete {s : State θ ρ κ ι π} {t b named r rs} :
    s.scan t = .orphan b named (r :: rs) →
    r.1 ∉ named →
    Step w s (.scan t) { s.delete r.1 with scan := Function.update s.scan t (.orphan b named rs) }
  | orphanKeep {s : State θ ρ κ ι π} {t b named r rs} :
    s.scan t = .orphan b named (r :: rs) →
    r.1 ∈ named →
    Step w s (.scan t)
      { s with scan := Function.update s.scan t (.orphan b named rs), orphans := s.orphans ++ [r] }
  | orphanEnd {s : State θ ρ κ ι π} {t b named} :
    s.scan t = .orphan b named [] →
    Step w s (.scan t)
      { s with scan := Function.update s.scan t .idle, orphanCount := s.orphans.length }
  -- ~RetireBatch
  | exit {s : State θ ρ κ ι π} {t} :
    s.scan t = .idle →
    (s.items t ≠ [] → s.Unlocked) →
    Step w s (.exit t)
      { s.adoptOrphans (s.items t) with
        items := Function.update s.items t []
        retireDead := Function.update s.retireDead t true }

end JLib.Hazard
