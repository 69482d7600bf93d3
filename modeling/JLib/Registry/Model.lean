import JLib.LTS.Runs
import Mathlib.Logic.Function.Basic

/-!
# The cleanup chain of a dead fiber

`AdvanceCleanup`, `Deliver`, `DrainHolder` and `ReturnToPool` of `src/FiberRegistry.cpp`. A fiber that dies with
debts is linked onto the chain of one of its creditors after the other, by its own field `cleanupNext`; the
holder takes its whole chain, releases what it holds of each fiber and sends the fiber on; with no creditor left
the fiber goes back to the pool. The threads are those on which fibers die and those that drain; holders are
numbers, and there are `size` of them. Every access to the head of a chain is a step. A fiber is touched only by
the thread that has it in hand, so what is done to its own fields is one step.

The hook for the application's releases and the wake of the holder are left out. Of the state, what a `Book` keeps
besides creditors and debts is read by no step, and `place` only tells which fibers are in use and may die.
-/

namespace JLib.Registry
open LTS

/-- The bits of the creditor set. -/
def kCreditors : Nat := 384

/-- What a fiber owes: `creditors` and `debts`, these with their holder. The rest is for the account: the
creditors and the debts at its death, the creditor it is on its way to, the holders that have discharged it and
what they released. -/
structure Book (δ : Type) where
  creditors : Nat → Bool := fun _ => false
  debts : List (Nat × δ) := []
  recorded : Nat → Bool := fun _ => false
  owed : List (Nat × δ) := []
  due : Option Nat := none
  visits : List Nat := []
  paid : List (Nat × δ) := []

namespace Book
variable {δ : Type}

def die (creditors : Nat → Bool) (debts : List (Nat × δ)) : Book δ :=
  { creditors := creditors, debts := debts, recorded := creditors, owed := debts }

/-- `TakeCreditor`. -/
def take (b : Book δ) (h : Nat) : Book δ :=
  { b with creditors := Function.update b.creditors h false, due := some h }

/-- `DischargeFiberDebts`. -/
def discharge (b : Book δ) (h : Nat) : Book δ :=
  { b with
    debts := b.debts.filter (·.1 ≠ h)
    due := none
    visits := b.visits ++ [h]
    paid := b.paid ++ b.debts.filter (·.1 = h) }

/-- `NoteCreditor` after a delivery that failed. -/
def restore (b : Book δ) (h : Nat) : Book δ :=
  { b with creditors := Function.update b.creditors h true, due := none }

/-- `ResetForReuse`. -/
def reset (b : Book δ) : Book δ := { b with creditors := fun _ => false, debts := [] }

end Book

/-- Where `AdvanceCleanup` returns to: the worker on which the fiber died, or the walk of a chain, which goes on
with the fiber after. -/
abbrev Back (φ : Type) := Option (Nat × Option φ)

inductive Pc (φ : Type) where
  | idle
  -- `DrainHolder`
  | walk (h : Nat) (p : Option φ)
  | discharge (h : Nat) (f : φ) (nxt : Option φ)
  -- `AdvanceCleanup`
  | advance (f : φ) (k : Back φ)
  | deliver (h : Nat) (f : φ) (k : Back φ)
  | link (h : Nat) (f : φ) (head : Option φ) (k : Back φ)
  | cas (h : Nat) (f : φ) (head : Option φ) (k : Back φ)
  | restore (h : Nat) (f : φ) (k : Back φ)
  | recycle (f : φ) (k : Back φ)
  | returned (f : φ) (k : Back φ)

def Pc.back {φ : Type} : Back φ → Pc φ
  | none => idle
  | some (h, p) => walk h p

/-- Where a fiber is. -/
inductive Place (θ : Type) where
  | pool
  | use
  | hand (t : θ)
  | list (t : θ)
  | chain (h : Nat)
  | lost
  deriving DecidableEq

structure State (φ θ δ : Type) where
  inbound : Nat → Option φ := fun _ => none
  cleanupNext : φ → Option φ := fun _ => none
  book : φ → Book δ := fun _ => {}
  -- the status is `DEAD`
  dead : φ → Bool := fun _ => false
  -- how often it is in the pool
  pool : φ → Nat := fun _ => 1
  thread : θ → Pc φ := fun _ => .idle
  place : φ → Place θ := fun _ => .pool

variable {φ θ δ : Type} [DecidableEq φ] [DecidableEq θ]

namespace State

def goto (s : State φ θ δ) (t : θ) (c : Pc φ) : State φ θ δ := { s with thread := Function.update s.thread t c }

def put (s : State φ θ δ) (f : φ) (p : Place θ) : State φ θ δ := { s with place := Function.update s.place f p }

def enter (s : State φ θ δ) (f : φ) (b : Book δ) : State φ θ δ := { s with book := Function.update s.book f b }

end State

inductive Label (φ θ δ : Type) where
  | acquire (f : φ)
  | die (t : θ) (f : φ) (creditors : Nat → Bool) (debts : List (Nat × δ))
  | drain (t : θ) (h : Nat)
  | go (t : θ)

inductive Step (size : Nat) : State φ θ δ → Label φ θ δ → State φ θ δ → Prop where
  | acquire {s : State φ θ δ} {f n} :
    s.pool f = n + 1 →
    Step size s (.acquire f) ({ s with pool := Function.update s.pool f n }.put f .use)
  -- `ReleaseOnWorker` notes the holder of every debt that it can
  | die {s : State φ θ δ} {t f creditors debts} :
    s.thread t = .idle →
    s.place f = .use →
    (∀ h, creditors h = true → h < kCreditors) →
    (∀ d ∈ debts, d.1 < kCreditors → creditors d.1 = true) →
    Step size s (.die t f creditors debts)
      ((({ s with dead := Function.update s.dead f true }.enter f (.die creditors debts)).put f (.hand t)).goto t
        (.advance f none))
  -- `TakeAll`
  | drain {s : State φ θ δ} {t h} :
    s.thread t = .idle →
    h < size →
    Step size s (.drain t h)
      ({ s with
        inbound := Function.update s.inbound h none
        place := fun f => if s.place f = Place.chain h then .list t else s.place f }.goto t (.walk h (s.inbound h)))
  | walkEnd {s : State φ θ δ} {t h} :
    s.thread t = .walk h none →
    Step size s (.go t) (s.goto t .idle)
  | walkNext {s : State φ θ δ} {t h f} :
    s.thread t = .walk h (some f) →
    Step size s (.go t)
      (({ s with cleanupNext := Function.update s.cleanupNext f none }.put f (.hand t)).goto t
        (.discharge h f (s.cleanupNext f)))
  | discharge {s : State φ θ δ} {t h f nxt} :
    s.thread t = .discharge h f nxt →
    Step size s (.go t) ((s.enter f ((s.book f).discharge h)).goto t (.advance f (some (h, nxt))))
  | take {s : State φ θ δ} {t f k h} :
    s.thread t = .advance f k →
    (s.book f).creditors h = true →
    (∀ h' < h, (s.book f).creditors h' = false) →
    Step size s (.go t) ((s.enter f ((s.book f).take h)).goto t (.deliver h f k))
  | takeNone {s : State φ θ δ} {t f k} :
    s.thread t = .advance f k →
    (∀ h, (s.book f).creditors h = false) →
    Step size s (.go t) (s.goto t (.recycle f k))
  -- `Deliver`
  | deliverFails {s : State φ θ δ} {t h f k} :
    s.thread t = .deliver h f k →
    size ≤ h →
    Step size s (.go t) (s.goto t (.restore h f k))
  | deliver {s : State φ θ δ} {t h f k} :
    s.thread t = .deliver h f k →
    h < size →
    Step size s (.go t) (s.goto t (.link h f (s.inbound h) k))
  | link {s : State φ θ δ} {t h f head k} :
    s.thread t = .link h f head k →
    Step size s (.go t)
      ({ s with cleanupNext := Function.update s.cleanupNext f head }.goto t (.cas h f head k))
  | cas {s : State φ θ δ} {t h f head k} :
    s.thread t = .cas h f head k →
    s.inbound h = head →
    Step size s (.go t)
      (({ s with inbound := Function.update s.inbound h (some f) }.put f (.chain h)).goto t (.back k))
  | casFails {s : State φ θ δ} {t h f head k} :
    s.thread t = .cas h f head k →
    Step size s (.go t) (s.goto t (.link h f (s.inbound h) k))
  -- the creditor is put back, and nobody has the fiber any more
  | restore {s : State φ θ δ} {t h f k} :
    s.thread t = .restore h f k →
    Step size s (.go t) (((s.enter f ((s.book f).restore h)).put f .lost).goto t (.back k))
  -- `ReturnToPool`
  | recycle {s : State φ θ δ} {t f k} :
    s.thread t = .recycle f k →
    s.dead f = true →
    Step size s (.go t) ({ s with dead := Function.update s.dead f false }.goto t (.returned f k))
  | recycleFails {s : State φ θ δ} {t f k} :
    s.thread t = .recycle f k →
    s.dead f = false →
    Step size s (.go t) ((s.put f .lost).goto t (.back k))
  | returned {s : State φ θ δ} {t f k} :
    s.thread t = .returned f k →
    Step size s (.go t)
      ((({ s with pool := Function.update s.pool f (s.pool f + 1) }.enter f (s.book f).reset).put f .pool).goto t
        (.back k))

end JLib.Registry
