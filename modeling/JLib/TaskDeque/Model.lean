import JLib.LTS.Runs
import Mathlib.Algebra.Order.Ring.Int
import Mathlib.Data.Multiset.AddSub
import Mathlib.Logic.Function.Basic

/-!
# The work-stealing deque

`TaskDeque` of `include/TaskDeque.h`: one owner that pushes and pops at the bottom, any number of thieves
that steal at the top, and a ring that the owner replaces by one of twice the size when it is full. Each
load, store and compare-exchange of a shared variable is one step; what only the owner reads and writes
in between is done in the step before. Indices are natural numbers and do not wrap. The rings are
numbered in the order they are made; a ring that was replaced stays as it is.
-/

namespace JLib.TaskDeque
open LTS

/-! ## Tagged pointers -/

abbrev Word := BitVec 64

def kTagMask : Word := 0xF#64

/-- A `Task*` that is pushed, with the two header fields the tag is made of. `Task` is aligned to more
than `kTagMask`. -/
structure Item where
  ptr : Word
  corePref : BitVec 8
  type : BitVec 8
  aligned : ptr &&& kTagMask = 0
  deriving DecidableEq

def tag (item : Item) : Word :=
  item.ptr ||| (item.corePref.zeroExtend 64 &&& 0x3#64) |||
    ((item.type.zeroExtend 64 &&& 0x3#64) <<< 2)

def untag (v : Word) : Word := v &&& ~~~kTagMask

structure StealBits where
  corePref : Word
  type : Word
  deriving DecidableEq

def bits (v : Word) : StealBits := ⟨v &&& 0x3#64, (v >>> 2) &&& 0x3#64⟩

/-- The bits of the tag are those the alignment leaves free. -/
lemma untag_tag (item : Item) : untag (tag item) = item.ptr := by
  have pref : (item.corePref.zeroExtend 64 &&& 0x3#64) &&& ~~~kTagMask = 0#64 := by
    rw [BitVec.and_assoc]
    exact BitVec.and_zero
  have type : ((item.type.zeroExtend 64 &&& 0x3#64) <<< 2) &&& ~~~kTagMask = 0#64 := by
    rw [BitVec.shiftLeft_and_distrib, BitVec.and_assoc]
    exact BitVec.and_zero
  have ptr : item.ptr &&& ~~~kTagMask = item.ptr := by
    calc item.ptr &&& ~~~kTagMask
      _ = (item.ptr &&& kTagMask) ||| (item.ptr &&& ~~~kTagMask) := by
        rw [item.aligned]
        exact BitVec.zero_or.symm
      _ = item.ptr := by
        rw [← BitVec.and_or_distrib_left, BitVec.or_not_self, BitVec.and_allOnes]
  unfold untag tag
  rw [BitVec.and_or_distrib_right, BitVec.and_or_distrib_right, ptr, pref, type, BitVec.or_zero,
    BitVec.or_zero]

/-! ## The state -/

structure Ring where
  capacity : Nat
  slots : Nat → Word

namespace Ring

def MakeRing (capacity : Nat) : Ring := ⟨capacity, fun _ => 0⟩

def mask (r : Ring) : Nat := r.capacity - 1

/-- `slots[i & mask]`. -/
def slot (r : Ring) (i : Nat) : Word := r.slots (i &&& r.mask)

def store (r : Ring) (i : Nat) (v : Word) : Ring :=
  { r with slots := Function.update r.slots (i &&& r.mask) v }

end Ring

def kDefaultMaxCapacity : Nat := 2 ^ 16
def kHardMaxCapacity : Nat := 2 ^ 22

/-- Where the owner is. `batch` is false in `push_bottom`, which looks only once whether there is room.
In `pop_bottom` the number `b` is the decremented one. -/
inductive Owner where
  | idle
  | room (items : List Item) (batch : Bool) (t : Nat)
  | copy (items : List Item) (batch : Bool) (t i : Nat)
  | fill (items : List Item) (k : Nat)
  | lower (b : Nat)
  | reload (b : Nat)
  | read (b t : Nat)
  | race (b : Nat) (item : Word)
  | restore (b : Nat) (result : Option Word)
  | empty (t : Nat)
  | aborted

/-- Where a thief is. `steal` is `steal_if` with a predicate that takes everything. -/
inductive Thief where
  | idle
  | loaded (pred : StealBits → Bool) (t : Nat)
  | inRange (pred : StealBits → Bool) (t : Nat)
  | holding (pred : StealBits → Bool) (t r : Nat)
  | vetted (t : Nat) (v : Word)

structure Deque (θ : Type) where
  rings : Nat → Ring
  ring : Nat := 0
  top : Nat := 0
  bottom : Nat := 0
  owner : Owner := .idle
  thief : θ → Thief := fun _ => .idle
  maxCapacity : Nat
  ceilingIsHard : Bool
  -- the tasks of every push that is complete, and what pops and steals returned
  pushed : Multiset Word := 0
  returned : Multiset Word := 0

namespace Deque

variable {θ : Type} [DecidableEq θ]

def init (capacity maxCapacity : Nat) : Deque θ :=
  { rings := fun _ => .MakeRing capacity
    maxCapacity := if maxCapacity < capacity then capacity else maxCapacity
    ceilingIsHard := maxCapacity ≠ kDefaultMaxCapacity }

def current (s : Deque θ) : Ring := s.rings s.ring

/-- The task at a logical index. -/
def task (s : Deque θ) (i : Nat) : Word := untag (s.current.slot i)

def setRing (s : Deque θ) (r : Nat) (x : Ring) : Deque θ :=
  { s with rings := Function.update s.rings r x }

/-- `grow` up to the copy loop. -/
def grow (s : Deque θ) (items : List Item) (batch : Bool) (t : Nat) : Deque θ :=
  let newCap := s.current.capacity * 2
  if newCap > s.maxCapacity ∧ (s.ceilingIsHard ∨ newCap > kHardMaxCapacity) then
    { s with owner := .aborted }
  else { s.setRing (s.ring + 1) (.MakeRing newCap) with owner := .copy items batch t t }

def returning (s : Deque θ) (result : Option Word) : Deque θ :=
  { s with
    owner := .idle
    returned := match result with
      | some item => item ::ₘ s.returned
      | none => s.returned }

/-- What the owner does next in the operation it is in. -/
def advance (s : Deque θ) : Deque θ :=
  match s.owner with
  | .idle | .aborted => s
  | .room items batch t =>
    if s.bottom + items.length - t > s.current.capacity then s.grow items batch t
    else { s with owner := .fill items 0 }
  | .copy items batch t i =>
    if i = s.bottom then
      { s with
        ring := s.ring + 1
        owner := if batch then .room items batch t else .fill items 0 }
    else
      { s.setRing (s.ring + 1) ((s.rings (s.ring + 1)).store i (s.current.slot i)) with
        owner := .copy items batch t (i + 1) }
  | .fill items k =>
    match items[k]? with
    | some item =>
      { s.setRing s.ring (s.current.store (s.bottom + k) (tag item)) with
        owner := .fill items (k + 1) }
    | none =>
      { s with
        bottom := s.bottom + items.length
        owner := .idle
        pushed := s.pushed + Multiset.ofList (items.map Item.ptr) }
  | .lower b => { s with bottom := b, owner := .reload b }
  | .reload b => { s with owner := if s.top ≤ b then .read b s.top else .empty s.top }
  | .read b t =>
    let item := untag (s.current.slot b)
    if t = b then { s with owner := .race b item } else s.returning (some item)
  | .race b item =>
    if s.top = b then { s with top := b + 1, owner := .restore b (some item) }
    else { s with owner := .restore b none }
  | .restore b result => { s.returning result with bottom := b + 1 }
  | .empty t => { s.returning none with bottom := t }

def setThief (s : Deque θ) (x : θ) (pc : Thief) : Deque θ :=
  { s with thief := Function.update s.thief x pc }

/-- What a thief does next. -/
def prowl (s : Deque θ) (x : θ) : Deque θ :=
  match s.thief x with
  | .idle => s
  | .loaded pred t => s.setThief x (if t < s.bottom then .inRange pred t else .idle)
  | .inRange pred t => s.setThief x (.holding pred t s.ring)
  | .holding pred t r =>
    let v := (s.rings r).slot t
    s.setThief x (if pred (bits v) then .vetted t v else .idle)
  | .vetted t v =>
    if s.top = t then
      { s.setThief x .idle with top := t + 1, returned := untag v ::ₘ s.returned }
    else s.setThief x .idle

end Deque

inductive Label (θ : Type) where
  | push (items : List Item) (batch : Bool)
  | pop
  | owner
  | outOfMemory
  | steal (x : θ) (pred : StealBits → Bool)
  | thief (x : θ)

variable {θ : Type} [DecidableEq θ]

/-- An operation of the owner starts with its loads of `bottom_`, which only it writes, and `top_`. -/
inductive Step : Deque θ → Label θ → Deque θ → Prop where
  | push {s : Deque θ} {item} :
    s.owner = .idle →
    Step s (.push [item] false) { s with owner := .room [item] false s.top }
  | batch {s : Deque θ} {items} :
    s.owner = .idle →
    Step s (.push items true) { s with owner := .room items true s.top }
  | pop {s : Deque θ} :
    s.owner = .idle →
    Step s .pop (if s.top ≥ s.bottom then s.returning none else { s with owner := .lower (s.bottom - 1) })
  | owner {s : Deque θ} :
    Step s .owner s.advance
  | outOfMemory {s : Deque θ} {items batch t} :
    s.owner = .room items batch t →
    s.bottom + items.length - t > s.current.capacity →
    Step s .outOfMemory { s with owner := .aborted }
  | steal {s : Deque θ} {x pred} :
    s.thief x = .idle →
    Step s (.steal x pred) (s.setThief x (.loaded pred s.top))
  | thief {s : Deque θ} {x} :
    Step s (.thief x) (s.prowl x)

end JLib.TaskDeque
