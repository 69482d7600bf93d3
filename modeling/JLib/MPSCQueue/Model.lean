import JLib.LTS.Runs
import Mathlib.Logic.Function.Basic

/-!
# The inbox

`TaskMPSCQueue` of `include/TaskMPSCQueue.h`: an intrusive queue with any number of producers and one
consumer. An append is three atomic actions: it ends the chain it is given, exchanges `head_` for the
last node of the chain, and stores the link from the node it got back. Until that store the list is
broken there. The consumer's own `append(stub_)` goes the same way.

A task is in one queue at a time and `next` is a field of the task: a producer may append a node that is
not in this queue, and whoever has such a node may write its link.
-/

namespace JLib.MPSCQueue
open LTS

variable {α ι : Type} [DecidableEq α] [DecidableEq ι]

/-- An `append` or `push_batch` that is in progress: the chain is ended, or `head_` was exchanged and the
link is still to be stored. -/
inductive Append (α : Type) where
  | idle
  | ended (chain : List α)
  | swapped (prev first : α)
  deriving DecidableEq

/-- Where the consumer is in `pop`, with its local `tail`. -/
inductive Pc (α : Type) where
  | idle
  | pastStub (tail : α)
  | atEnd (tail : α)
  | drained (tail : α)
  | appending (tail : α)
  | appended (tail : α)
  deriving DecidableEq

structure Queue (α ι : Type) where
  next : α → Option α
  head : α
  tail : α
  stub : α
  -- `none` is the consumer
  call : Option ι → Append α := fun _ => .idle
  pc : Pc α := .idle
  -- the tasks in the order of the exchanges
  order : List α := []
  -- what each call of `pop` returned
  results : List (Option α) := []

namespace Queue

def init (next : α → Option α) (stub : α) : Queue α ι :=
  { next := Function.update next stub none, head := stub, tail := stub, stub := stub }

def popped (s : Queue α ι) : List α := s.results.reduceOption

/-- The tasks that were appended and not yet returned. -/
def rest (s : Queue α ι) : List α := s.order.drop s.popped.length

/-- Links the nodes of a chain one after the other; the last link is null. -/
def linkChain (next : α → Option α) : List α → α → Option α
  | [] => next
  | [x] => Function.update next x none
  | x :: y :: l => Function.update (linkChain next (y :: l)) x (some y)

def setCall (s : Queue α ι) (a : Option ι) (c : Append α) : Queue α ι :=
  { s with call := Function.update s.call a c }

/-- The chain is the caller's: it links it, and the append ends it. -/
def begin (s : Queue α ι) (a : Option ι) (chain : List α) : Queue α ι :=
  { s.setCall a (.ended chain) with next := linkChain s.next chain }

/-- `head_.exchange`. -/
def exchange (s : Queue α ι) (a : Option ι) : Queue α ι :=
  match s.call a with
  | .ended (x :: l) =>
    { s.setCall a (.swapped s.head x) with
      head := (x :: l).getLast (by simp)
      order := if a = none then s.order else s.order ++ x :: l }
  | _ => s

/-- `prev->next.store`. -/
def link (s : Queue α ι) (a : Option ι) : Queue α ι :=
  match s.call a with
  | .swapped prev first => { s.setCall a .idle with next := Function.update s.next prev (some first) }
  | _ => s

def returnFalse (s : Queue α ι) : Queue α ι := { s with pc := .idle, results := s.results ++ [none] }

/-- `tail_ = next; out = tail; return true`. -/
def returnTask (s : Queue α ι) (tail next : α) : Queue α ι :=
  { s with tail := next, pc := .idle, results := s.results ++ [some tail] }

/-- One atomic action of `pop`, with the local ones up to the next. -/
def pop (s : Queue α ι) : Queue α ι :=
  match s.pc with
  | .idle =>
    match s.next s.tail with
    | some n =>
      if s.tail = s.stub then { s with tail := n, pc := .pastStub n } else s.returnTask s.tail n
    | none => if s.tail = s.stub then s.returnFalse else { s with pc := .atEnd s.tail }
  | .pastStub t =>
    match s.next t with
    | some n => s.returnTask t n
    | none => { s with pc := .atEnd t }
  | .atEnd t => if t ≠ s.head then s.returnFalse else { s with pc := .drained t }
  | .drained t => { s.begin none [s.stub] with pc := .appending t }
  | .appending t =>
    match s.call none with
    | .swapped _ _ => { s.link none with pc := .appended t }
    | _ => s.exchange none
  | .appended t =>
    match s.next t with
    | some n => s.returnTask t n
    | none => s.returnFalse

/-- The node is not in this queue and not in a chain that is being appended. -/
def free (s : Queue α ι) (x : α) : Prop :=
  x ≠ s.stub ∧ x ∉ s.rest ∧ ∀ a l, s.call a = .ended l → x ∉ l

end Queue

inductive Label (α ι : Type) where
  | push (p : ι) (chain : List α)
  | exchange (p : ι)
  | link (p : ι)
  | foreign (x : α) (v : Option α)
  | pop

/-- `push` is a chain of one task. -/
inductive Step : Queue α ι → Label α ι → Queue α ι → Prop where
  | push {s : Queue α ι} {p chain} :
    s.call (some p) = .idle →
    chain ≠ [] →
    chain.Nodup →
    (∀ x ∈ chain, s.free x) →
    Step s (.push p chain) (s.begin (some p) chain)
  | exchange {s : Queue α ι} {p chain} :
    s.call (some p) = .ended chain →
    Step s (.exchange p) (s.exchange (some p))
  | link {s : Queue α ι} {p x y} :
    s.call (some p) = .swapped x y →
    Step s (.link p) (s.link (some p))
  | foreign {s : Queue α ι} {x v} :
    s.free x →
    Step s (.foreign x v) { s with next := Function.update s.next x v }
  | pop {s : Queue α ι} :
    Step s .pop s.pop

end JLib.MPSCQueue
