import JLib.LTS.Runs
import Mathlib.Algebra.Order.Ring.Int
import Mathlib.Logic.Function.Basic

/-!
# Epoch reclamation

`EpochManager` and `EpochGuard` of `include/Epochs.h`. A reader announces the present epoch in a slot,
reads shared locations, and withdraws. A writer takes an object out of every shared location, reads the
epoch and puts the object in the bag of its thread. `TryReclaim` computes a bound from the slots, one slot
at a time, and runs the deleters of what was retired before it: first in the bag of its own thread, then
in the store that ended threads have left their bags in.

Every access to a shared variable is a step. A slot is found by `thread_id`, which is 0 for a thread the
pool did not start, so several threads may have one slot.
-/

namespace JLib.Epochs
open LTS

/-- What is in a bag: the object and the epoch of its retirement. -/
abbrev Retired (π : Type) := π × Nat

/-- Where a thread is in its guard: the constructor loads the epoch and stores it in the slot. -/
inductive Guard where
  | out
  | loaded (e : Nat)
  | inside
  deriving DecidableEq

/-- Where a thread is in `TryReclaim`. -/
inductive Pass (κ π : Type) where
  | idle
  -- in `MinActiveEpoch`: the minimum so far and the slots to come
  | look (minEpoch : Nat) (todo : List κ)
  -- in the loop over the thread's own bag
  | own (safeEpoch : Nat) (todo : List (Retired π))
  -- in `SweepEpochOrphans`, with its lock
  | orphan (safeEpoch : Nat) (todo : List (Retired π))

/-- Shared state. `loc` are the locations from which readers obtain objects. -/
structure State (θ κ ι π : Type) where
  globalEpoch : Nat := 0
  -- `none` is `SIZE_MAX`
  slot : κ → Option Nat := fun _ => none
  loc : ι → Option π := fun _ => none
  guard : θ → Guard := fun _ => .out
  -- what a reader has obtained in the guard it holds
  got : θ → List π := fun _ => []
  -- the object was taken out of all locations for good
  withdrawn : π → Bool := fun _ => false
  -- a writer between `CurrentEpoch()` and `RetirePtr`
  stamp : θ → Option (Retired π) := fun _ => none
  bag : θ → List (Retired π) := fun _ => []
  bagDead : θ → Bool := fun _ => false
  orphans : List (Retired π) := []
  orphanCount : Nat := 0
  pass : θ → Pass κ π := fun _ => .idle
  freed : π → Bool := fun _ => false

/-- The slot of each thread, and the slots the manager scans. -/
structure Setup (θ κ : Type) where
  slotOf : θ → κ
  participants : List κ
  registered : ∀ t, slotOf t ∈ participants

variable {θ κ ι π : Type} [DecidableEq θ] [DecidableEq κ] [DecidableEq ι] [DecidableEq π]

namespace State

/-- Nobody has the lock of the store. -/
def Unlocked (s : State θ κ ι π) : Prop := ∀ t v rs, s.pass t ≠ .orphan v rs

/-- `OrphanEpochEntries`. -/
def orphanEpochEntries (s : State θ κ ι π) (v : List (Retired π)) : State θ κ ι π :=
  if v = [] then s
  else { s with orphans := s.orphans ++ v, orphanCount := (s.orphans ++ v).length }

/-- `RetirePtr`. -/
def retirePtr (s : State θ κ ι π) (t : θ) (r : Retired π) : State θ κ ι π :=
  if s.bagDead t then s.orphanEpochEntries [r]
  else { s with bag := Function.update s.bag t (s.bag t ++ [r]) }

/-- One slot of `MinActiveEpoch`. -/
def lower (s : State θ κ ι π) (minEpoch : Nat) (c : κ) : Nat :=
  match s.slot c with
  | some e => min minEpoch e
  | none => minEpoch

/-- The deleter runs. -/
def delete (s : State θ κ ι π) (p : π) : State θ κ ι π :=
  { s with freed := Function.update s.freed p true }

end State

inductive Label (θ ι π : Type) where
  | load (t : θ)
  | announce (t : θ)
  | read (t : θ)
  | clear (t : θ)
  | write (l : ι) (x : Option π)
  | stamp (t : θ) (p : π)
  | retire (t : θ)
  | advance
  | reclaim (t : θ)
  | exit (t : θ)

inductive Step (w : Setup θ κ) : State θ κ ι π → Label θ ι π → State θ κ ι π → Prop where
  -- EpochGuard
  | load {s : State θ κ ι π} {t} :
    s.guard t = .out →
    Step w s (.load t) { s with guard := Function.update s.guard t (.loaded s.globalEpoch) }
  | announce {s : State θ κ ι π} {t e} :
    s.guard t = .loaded e →
    Step w s (.announce t)
      { s with
        slot := Function.update s.slot (w.slotOf t) (some e)
        guard := Function.update s.guard t .inside }
  | read {s : State θ κ ι π} {t l p} :
    s.guard t = .inside →
    s.loc l = some p →
    Step w s (.read t) { s with got := Function.update s.got t (p :: s.got t) }
  | clear {s : State θ κ ι π} {t} :
    s.guard t = .inside →
    Step w s (.clear t)
      { s with
        slot := Function.update s.slot (w.slotOf t) none
        guard := Function.update s.guard t .out
        got := Function.update s.got t [] }
  -- the writers
  | write {s : State θ κ ι π} {l x} :
    (∀ p, x = some p → s.withdrawn p = false) →
    Step w s (.write l x) { s with loc := Function.update s.loc l x }
  | stamp {s : State θ κ ι π} {t p} :
    s.stamp t = none →
    s.withdrawn p = false →
    (∀ l, s.loc l ≠ some p) →
    Step w s (.stamp t p)
      { s with
        withdrawn := Function.update s.withdrawn p true
        stamp := Function.update s.stamp t (some (p, s.globalEpoch)) }
  | retire {s : State θ κ ι π} {t r} :
    s.stamp t = some r →
    (s.bagDead t = true → s.Unlocked) →
    Step w s (.retire t) { s.retirePtr t r with stamp := Function.update s.stamp t none }
  -- AdvanceEpoch, when its exchange succeeds
  | advance {s : State θ κ ι π} :
    Step w s .advance { s with globalEpoch := s.globalEpoch + 1 }
  -- TryReclaim
  | scan {s : State θ κ ι π} {t} :
    s.pass t = .idle →
    s.bagDead t = false →
    ¬(s.bag t = [] ∧ s.orphanCount = 0) →
    Step w s (.reclaim t)
      { s with pass := Function.update s.pass t (.look s.globalEpoch w.participants) }
  | look {s : State θ κ ι π} {t v c cs} :
    s.pass t = .look v (c :: cs) →
    Step w s (.reclaim t) { s with pass := Function.update s.pass t (.look (s.lower v c) cs) }
  | own {s : State θ κ ι π} {t v} :
    s.pass t = .look v [] →
    Step w s (.reclaim t)
      { s with
        pass := Function.update s.pass t (.own v (s.bag t))
        bag := Function.update s.bag t [] }
  | ownDelete {s : State θ κ ι π} {t v r rs} :
    s.pass t = .own v (r :: rs) →
    r.2 < v →
    Step w s (.reclaim t) { s.delete r.1 with pass := Function.update s.pass t (.own v rs) }
  | ownKeep {s : State θ κ ι π} {t v r rs} :
    s.pass t = .own v (r :: rs) →
    ¬r.2 < v →
    Step w s (.reclaim t)
      { s with
        pass := Function.update s.pass t (.own v rs)
        bag := Function.update s.bag t (s.bag t ++ [r]) }
  | ownEnd {s : State θ κ ι π} {t v} :
    s.pass t = .own v [] →
    s.orphanCount = 0 →
    Step w s (.reclaim t) { s with pass := Function.update s.pass t .idle }
  | orphan {s : State θ κ ι π} {t v} :
    s.pass t = .own v [] →
    s.orphanCount ≠ 0 →
    s.Unlocked →
    Step w s (.reclaim t)
      { s with pass := Function.update s.pass t (.orphan v s.orphans), orphans := [] }
  | orphanDelete {s : State θ κ ι π} {t v r rs} :
    s.pass t = .orphan v (r :: rs) →
    r.2 < v →
    Step w s (.reclaim t) { s.delete r.1 with pass := Function.update s.pass t (.orphan v rs) }
  | orphanKeep {s : State θ κ ι π} {t v r rs} :
    s.pass t = .orphan v (r :: rs) →
    ¬r.2 < v →
    Step w s (.reclaim t)
      { s with pass := Function.update s.pass t (.orphan v rs), orphans := s.orphans ++ [r] }
  | orphanEnd {s : State θ κ ι π} {t v} :
    s.pass t = .orphan v [] →
    Step w s (.reclaim t)
      { s with pass := Function.update s.pass t .idle, orphanCount := s.orphans.length }
  -- ~EpochRetireBatch
  | exit {s : State θ κ ι π} {t} :
    s.pass t = .idle →
    (s.bag t ≠ [] → s.Unlocked) →
    Step w s (.exit t)
      { s.orphanEpochEntries (s.bag t) with
        bag := Function.update s.bag t []
        bagDead := Function.update s.bagDead t true }

/-! ## A `Tick` by a thread that is not interrupted -/

namespace State

/-- `MinActiveEpoch`. -/
def minActiveEpoch (w : Setup θ κ) (s : State θ κ ι π) : Nat :=
  w.participants.foldl s.lower s.globalEpoch

/-- The deleters of a list of entries run where the epoch is below the bound. -/
def deleteOld (s : State θ κ ι π) (safeEpoch : Nat) (rs : List (Retired π)) : State θ κ ι π :=
  { s with freed := fun p => s.freed p || rs.any fun r => r.1 = p ∧ r.2 < safeEpoch }

/-- What a loop over a list of entries keeps. -/
def kept (safeEpoch : Nat) (rs : List (Retired π)) : List (Retired π) :=
  rs.filter fun r => ¬r.2 < safeEpoch

/-- `SweepEpochOrphans`. -/
def sweepEpochOrphans (s : State θ κ ι π) (safeEpoch : Nat) : State θ κ ι π :=
  { s.deleteOld safeEpoch s.orphans with
    orphans := kept safeEpoch s.orphans
    orphanCount := (kept safeEpoch s.orphans).length }

/-- `TryReclaim`. -/
def tryReclaim (w : Setup θ κ) (s : State θ κ ι π) (t : θ) : State θ κ ι π :=
  if s.bag t = [] ∧ s.orphanCount = 0 then s
  else
    let safeEpoch := s.minActiveEpoch w
    let s' :=
      { s.deleteOld safeEpoch (s.bag t) with
        bag := Function.update s.bag t (kept safeEpoch (s.bag t)) }
    if s.orphanCount ≠ 0 then s'.sweepEpochOrphans safeEpoch else s'

/-- `Tick`. -/
def tick (w : Setup θ κ) (s : State θ κ ι π) (t : θ) : State θ κ ι π :=
  { s with globalEpoch := s.globalEpoch + 1 }.tryReclaim w t

end State

end JLib.Epochs
