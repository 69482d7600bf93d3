import JLib.Bands.Word
import JLib.LTS.Runs
import Mathlib.Logic.Function.Basic

/-!
# Growing the reserved band

`TaskScheduler::SetHotWorkersEffective` of `src/TaskScheduler.cpp` on a pool of `n` workers, with what goes
on around it: producers that read the band word, choose a worker outside of the band and push to its
ordinary inbox later, and the workers, whose passes read the band once. Only calls that raise `K` are
modelled.

An inbox is the list of its tasks in the order of the exchanges of their pushes, with the thread that has
still to link the task. A pop takes the first task if that is linked; it can fail on an inbox that is not
empty as long as a push to it is unfinished. A pop takes time, so that two of them can overlap.
-/

namespace JLib.Promotion
open LTS Bands

def kMaxReservedWorkers : Nat := 2
def kStealHintDepth : Nat := 8

/-- What a thread that pushes or calls `SetHotWorkersEffective` is doing. In the shed loop `i` is the worker
whose inbox is emptied and `e` the value of `K` that was read back. -/
inductive Call (τ : Type) where
  | idle
  | placing (t : τ) (k : Nat)
  | chosen (t : τ) (j : Nat)
  | linking
  | committed (prev : Nat)
  | shed (i e : Nat)
  | popping (i e : Nat)
  | moving (i e : Nat) (t : τ)
  | moved (i e : Nat)
  deriving DecidableEq

/-- A worker is between two passes, in a pass that read the band, or in such a pass within a pop of its
inbox. -/
inductive Pass where
  | top
  | inside (isReservedWorker : Bool)
  | popping
  deriving DecidableEq

structure State (τ θ : Type) where
  word : BitVec 64
  inbox : Nat → List (τ × Option θ) := fun _ => []
  -- from the bottom
  deque : Nat → List τ := fun _ => []
  stealHintBacklog : Nat → Bool := fun _ => false
  stealHintParallel : Nat → Bool := fun _ => false
  pass : Nat → Pass := fun _ => .top
  call : θ → Call τ := fun _ => .idle

variable {τ θ : Type} [DecidableEq θ]

namespace State

def K (s : State τ θ) : Nat := BandField s.word kBandK

def advertised (s : State τ θ) (i : Nat) : Bool := s.stealHintBacklog i || s.stealHintParallel i

def setCall (s : State τ θ) (p : θ) (c : Call τ) : State τ θ :=
  { s with call := Function.update s.call p c }

def setPass (s : State τ θ) (i : Nat) (x : Pass) : State τ θ :=
  { s with pass := Function.update s.pass i x }

def setInbox (s : State τ θ) (i : Nat) (l : List (τ × Option θ)) : State τ θ :=
  { s with inbox := Function.update s.inbox i l }

def setDeque (s : State τ θ) (i : Nat) (l : List τ) : State τ θ :=
  { s with deque := Function.update s.deque i l }

/-- The exchange of a push. -/
def exchange (s : State τ θ) (p : θ) (j : Nat) (t : τ) : State τ θ :=
  s.setInbox j (s.inbox j ++ [(t, some p)])

/-- The push of `p` links its task. -/
def link (s : State τ θ) (p : θ) : State τ θ :=
  { s with inbox := fun j => (s.inbox j).map fun r => if r.2 = some p then (r.1, none) else r }

/-- What the top of a pass does to the worker's hint bits. -/
def refresh (s : State τ θ) (i : Nat) : State τ θ :=
  { s with
    stealHintBacklog :=
      Function.update s.stealHintBacklog i (decide (kStealHintDepth ≤ (s.deque i).length))
    stealHintParallel :=
      Function.update s.stealHintParallel i (s.stealHintParallel i && !(s.deque i).isEmpty) }

/-- A pop of the inbox can fail. -/
def mayFail (s : State τ θ) (i : Nat) : Prop := s.inbox i = [] ∨ ∃ r ∈ s.inbox i, r.2 ≠ none

end State

/-- The value `SetHotWorkersEffective` asks for. -/
def requested (k n : Nat) : Nat :=
  let eff := if n ≠ 0 ∧ k ≥ n then n - 1 else k
  let eff := if eff > kMaxReservedWorkers then kMaxReservedWorkers else eff
  if eff > 64 then 64 else eff

inductive Label (τ θ : Type) where
  | read (p : θ) (t : τ)
  | choose (p : θ)
  | exchange (p : θ)
  | link (p : θ)
  | raise (p : θ) (k : Nat)
  | reread (p : θ)
  | shed (p : θ)
  | shedTake (p : θ)
  | shedNone (p : θ)
  | shedPush (p : θ)
  | worker (i : Nat)
  | steal (i : Nat)
  | bands

inductive Step (n : Nat) : State τ θ → Label τ θ → State τ θ → Prop where
  -- a producer
  | read {s : State τ θ} {p t} :
    s.call p = .idle →
    Step n s (.read p t) (s.setCall p (.placing t s.K))
  | choose {s : State τ θ} {p t k j} :
    s.call p = .placing t k →
    k ≤ j →
    j < n →
    Step n s (.choose p) (s.setCall p (.chosen t j))
  | exchange {s : State τ θ} {p t j} :
    s.call p = .chosen t j →
    Step n s (.exchange p) ((s.exchange p j t).setCall p .linking)
  | link {s : State τ θ} {p} :
    s.call p = .linking →
    Step n s (.link p) ((s.link p).setCall p .idle)
  -- `SetHotWorkersEffective`
  | raise {s : State τ θ} {p k} :
    s.call p = .idle →
    s.K ≤ BandField (BandsSetK s.word (requested k n) n) kBandK →
    Step n s (.raise p k)
      { s.setCall p (.committed s.K) with word := BandsSetK s.word (requested k n) n }
  | reread {s : State τ θ} {p prev} :
    s.call p = .committed prev →
    Step n s (.reread p)
      (s.setCall p (if prev < s.K ∧ s.K < n then .shed prev s.K else .idle))
  | shed {s : State τ θ} {p i e} :
    s.call p = .shed i e →
    i < e →
    i < n →
    Step n s (.shed p) (s.setCall p (.popping i e))
  | shedEnd {s : State τ θ} {p i e} :
    s.call p = .shed i e →
    ¬(i < e ∧ i < n) →
    Step n s (.shed p) (s.setCall p .idle)
  | shedTake {s : State τ θ} {p i e t rest} :
    s.call p = .popping i e →
    s.inbox i = (t, none) :: rest →
    Step n s (.shedTake p) ((s.setInbox i rest).setCall p (.moving i e t))
  | shedNone {s : State τ θ} {p i e} :
    s.call p = .popping i e →
    s.mayFail i →
    Step n s (.shedNone p) (s.setCall p (.shed (i + 1) e))
  | shedPush {s : State τ θ} {p i e t} :
    s.call p = .moving i e t →
    Step n s (.shedPush p) ((s.exchange p e t).setCall p (.moved i e))
  | shedLink {s : State τ θ} {p i e} :
    s.call p = .moved i e →
    Step n s (.link p) ((s.link p).setCall p (.shed i e))
  -- a worker
  | latch {s : State τ θ} {i} :
    s.pass i = .top →
    Step n s (.worker i) (s.setPass i (.inside (decide (i < s.K))))
  | refresh {s : State τ θ} {i r} :
    s.pass i = .inside r →
    Step n s (.worker i) (s.refresh i)
  | pop {s : State τ θ} {i} :
    s.pass i = .inside false →
    Step n s (.worker i) (s.setPass i .popping)
  -- the task is staged on the deque or run
  | take {s : State τ θ} {i t rest} {b : Bool} :
    s.pass i = .popping →
    s.inbox i = (t, none) :: rest →
    Step n s (.worker i) (((s.setInbox i rest).setDeque i
      (if b then t :: s.deque i else s.deque i)).setPass i (.inside false))
  | takeNone {s : State τ θ} {i} :
    s.pass i = .popping →
    s.mayFail i →
    Step n s (.worker i) (s.setPass i (.inside false))
  | pop_bottom {s : State τ θ} {i r t rest} :
    s.pass i = .inside r →
    s.deque i = t :: rest →
    Step n s (.worker i) (s.setDeque i rest)
  -- a range task of the worker splits
  | split {s : State τ θ} {i r t} :
    s.pass i = .inside r →
    Step n s (.worker i)
      { s.setDeque i (t :: s.deque i) with
        stealHintParallel := Function.update s.stealHintParallel i true }
  | finish {s : State τ θ} {i r} :
    s.pass i = .inside r →
    Step n s (.worker i) (s.setPass i .top)
  -- the others
  | steal {s : State τ θ} {i t l} :
    s.deque i = l ++ [t] →
    Step n s (.steal i) (s.setDeque i l)
  | bands {s : State τ θ} {w : BitVec 64} :
    BandField w kBandK = s.K →
    Step n s .bands { s with word := w }

end JLib.Promotion
