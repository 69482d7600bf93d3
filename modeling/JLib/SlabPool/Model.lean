import JLib.LTS.Runs
import JLib.Links.Segment
import Mathlib.Algebra.Order.Ring.Int

/-!
# The slab allocator

`SlabPool` of `include/SlabPool.h`. A slot is a block and an index in it; block 0 is the primary one, the
others are the extents in the order of their creation. Free slots are linked through their own memory, in a
chain for each thread and in a shared one. `Alloc` takes from the chain of its thread and refills it when it
is empty; `Free` puts the slot on the chain of its thread and flushes it when it is long.

A section under the mutex is one step, and so is what a thread does with its own cache between two of
them. A live slot belongs to the program, which writes to it. The counters of live slots and the canary are
left out.
-/

namespace JLib.SlabPool
open LTS Links

/-- A slot: its block and its index there. -/
abbrev Slot := Nat × Nat

/-- How many slots a refill takes and a flush leaves. -/
def BATCH : Nat := 32

/-- The slots of an extent. -/
def kGrowSlots : Nat := 4096

/-- The chain of a thread. -/
structure Cache where
  head : Option Slot := none
  count : Nat := 0

structure Extent where
  block : Nat
  slots : Nat
  bumpNext : Nat := 0

/-- The local variables of `refill`. -/
structure Batch where
  batchHead : Option Slot := none
  batchTail : Option Slot := none
  moved : Nat := 0

/-- Where a thread is outside the locked sections. -/
inductive Call where
  | idle
  -- `refill`, after its locked section
  | splice (b : Batch)
  -- `Free`, when it calls `flush`
  | flush
  -- `flush`, before its locked section
  | peeled (batchHead batchTail : Option Slot)

inductive Life where
  | unborn
  | running
  | ended
  deriving DecidableEq

/-- Shared state. -/
structure State (θ : Type) where
  -- the first bytes of every slot
  next : Slot → Option Slot
  growth : Bool
  sharedHead : Option Slot := none
  bumpNext : Nat := 0
  -- the newest first
  extents : List Extent := []
  cache : θ → Cache := fun _ => {}
  call : θ → Call := fun _ => .idle
  life : θ → Life := fun _ => .unborn
  -- slots the program has
  live : Slot → Bool := fun _ => false

variable {θ : Type} [DecidableEq θ]

/-! ## The sections under the mutex -/

/-- The walk of `refill` along the shared chain: the last slot passed, the rest of the chain and the number
of slots. -/
def detach (next : Slot → Option Slot) : Nat → Option Slot → Option Slot → Nat → Option Slot × Option Slot × Nat
  | 0, curr, batchTail, moved => (batchTail, curr, moved)
  | _ + 1, none, batchTail, moved => (batchTail, none, moved)
  | n + 1, some curr, _, moved => detach next n (next curr) (some curr) (moved + 1)

/-- The loop over never-used slots of a block: each is put before the batch. -/
def bump (block : Nat) : Nat → Nat → (Slot → Option Slot) × Batch → (Slot → Option Slot) × Batch
  | _, 0, x => x
  | i, n + 1, (next, b) =>
    bump block (i + 1) n
      (Function.update next (block, i) b.batchHead,
        { batchHead := some (block, i)
          batchTail := if b.batchHead = none then some (block, i) else b.batchTail
          moved := b.moved + 1 })

namespace State

/-- `refill`, 1: recycled slots. -/
def recycle (s : State θ) : State θ × Batch :=
  match s.sharedHead with
  | none => (s, {})
  | some slot =>
    let (batchTail, curr, moved) := detach s.next BATCH (some slot) none 0
    ({ s with sharedHead := curr }, { batchHead := some slot, batchTail, moved })

/-- `refill`, 2: the never-used region of the primary block. -/
def topUp (memSlots : Nat) : State θ × Batch → State θ × Batch
  | (s, b) =>
    if b.moved < BATCH ∧ s.bumpNext < memSlots then
      let take := min (BATCH - b.moved) (memSlots - s.bumpNext)
      let (next, b) := bump 0 s.bumpNext take (s.next, b)
      ({ s with next := next, bumpNext := s.bumpNext + take }, b)
    else (s, b)

/-- The never-used region of an extent. -/
def bumpExtent (s : State θ) (b : Batch) (e : Extent) : State θ × Batch :=
  let take := min BATCH (e.slots - e.bumpNext)
  let (next, b) := bump e.block e.bumpNext take (s.next, b)
  ({ s with
      next := next
      extents := s.extents.map fun e' =>
        if e'.block = e.block then { e' with bumpNext := e'.bumpNext + take } else e' },
    b)

/-- `refill`, 3: an extent with room, or a new one where there is memory for it. -/
def grow (memory : Bool) : State θ × Batch → State θ × Batch
  | (s, b) =>
    if b.moved = 0 ∧ s.growth then
      match s.extents.find? fun e => e.bumpNext < e.slots with
      | some e => s.bumpExtent b e
      | none =>
        if memory then
          let e : Extent := { block := s.extents.length + 1, slots := kGrowSlots }
          { s with extents := e :: s.extents }.bumpExtent b e
        else (s, b)
    else (s, b)

/-- `refill` up to the end of its locked section. A pool of no slots has no memory. -/
def refill (memSlots : Nat) (memory : Bool) (s : State θ) : State θ × Batch :=
  if memSlots = 0 then (s, {})
  else grow memory (topUp memSlots s.recycle)

/-- `Prefault`. -/
def prefault (memSlots : Nat) (slots : Nat) (s : State θ) : State θ :=
  let slots := min slots (memSlots - s.bumpNext)
  let (next, b) := bump 0 s.bumpNext slots (s.next, { batchHead := s.sharedHead })
  { s with next := next, sharedHead := b.batchHead, bumpNext := s.bumpNext + slots }

end State

inductive Label (θ : Type) where
  | start (t : θ)
  | exit (t : θ)
  | alloc (t : θ) (slot : Slot)
  | refill (t : θ)
  | exhausted (t : θ)
  | splice (t : θ)
  | free (t : θ) (slot : Slot)
  | flush (t : θ)
  | prefault (slots : Nat)
  | write (slot : Slot)
  | setGrowth (on : Bool)

inductive Step (memSlots : Nat) : State θ → Label θ → State θ → Prop where
  | start {s : State θ} {t} :
    s.life t = .unborn →
    Step memSlots s (.start t) { s with life := Function.update s.life t .running }
  | exit {s : State θ} {t} :
    s.life t = .running →
    s.call t = .idle →
    Step memSlots s (.exit t) { s with life := Function.update s.life t .ended }
  -- Alloc
  | alloc {s : State θ} {t slot} :
    s.life t = .running →
    s.call t = .idle →
    (s.cache t).head = some slot →
    Step memSlots s (.alloc t slot)
      { s with
        cache := Function.update s.cache t { head := s.next slot, count := (s.cache t).count - 1 }
        live := Function.update s.live slot true }
  | refill {s s' : State θ} {t memory b slot} :
    s.life t = .running →
    s.call t = .idle →
    (s.cache t).head = none →
    s.refill memSlots memory = (s', b) →
    b.batchHead = some slot →
    Step memSlots s (.refill t) { s' with call := Function.update s.call t (.splice b) }
  | exhausted {s s' : State θ} {t memory b} :
    s.life t = .running →
    s.call t = .idle →
    (s.cache t).head = none →
    s.refill memSlots memory = (s', b) →
    b.batchHead = none →
    Step memSlots s (.exhausted t) s'
  | splice {s : State θ} {t b tail} :
    s.call t = .splice b →
    b.batchTail = some tail →
    Step memSlots s (.splice t)
      { s with
        next := Function.update s.next tail (s.cache t).head
        cache := Function.update s.cache t { head := b.batchHead, count := (s.cache t).count + b.moved }
        call := Function.update s.call t .idle }
  -- Free
  | free {s : State θ} {t slot} :
    s.life t = .running →
    s.call t = .idle →
    s.live slot = true →
    Step memSlots s (.free t slot)
      { s with
        next := Function.update s.next slot (s.cache t).head
        cache := Function.update s.cache t { head := some slot, count := (s.cache t).count + 1 }
        live := Function.update s.live slot false
        call := Function.update s.call t (if (s.cache t).count + 1 > 2 * BATCH then .flush else .idle) }
  | flushReturn {s : State θ} {t} :
    s.call t = .flush →
    (s.cache t).count ≤ BATCH →
    Step memSlots s (.flush t) { s with call := Function.update s.call t .idle }
  | peel {s : State θ} {t tail} :
    s.call t = .flush →
    ¬(s.cache t).count ≤ BATCH →
    follow s.next ((s.cache t).count - BATCH - 1) (s.cache t).head = some tail →
    Step memSlots s (.flush t)
      { s with
        cache := Function.update s.cache t { head := s.next tail, count := BATCH }
        call := Function.update s.call t (.peeled (s.cache t).head (some tail)) }
  | flush {s : State θ} {t batchHead tail} :
    s.call t = .peeled batchHead (some tail) →
    Step memSlots s (.flush t)
      { s with
        next := Function.update s.next tail s.sharedHead
        sharedHead := batchHead
        call := Function.update s.call t .idle }
  | prefault {s : State θ} {slots} :
    memSlots ≠ 0 →
    Step memSlots s (.prefault slots) (s.prefault memSlots slots)
  -- the program writes to a slot it has
  | write {s : State θ} {slot x} :
    s.live slot = true →
    Step memSlots s (.write slot) { s with next := Function.update s.next slot x }
  | setGrowth {s : State θ} {on} :
    Step memSlots s (.setGrowth on) { s with growth := on }

/-! ## `Alloc` by a thread that is not interrupted -/

namespace State

/-- `refill`. -/
def refillCache (memSlots : Nat) (memory : Bool) (s : State θ) (t : θ) : State θ :=
  let (s', b) := s.refill memSlots memory
  match b.batchHead, b.batchTail with
  | some _, some tail =>
    { s' with
      next := Function.update s'.next tail (s'.cache t).head
      cache := Function.update s'.cache t { head := b.batchHead, count := (s'.cache t).count + b.moved } }
  | _, _ => s'

/-- The front of the chain is taken. -/
def pop (s : State θ) (t : θ) : Option (Slot × State θ) :=
  (s.cache t).head.map fun slot =>
    (slot,
      { s with
        cache := Function.update s.cache t { head := s.next slot, count := (s.cache t).count - 1 }
        live := Function.update s.live slot true })

/-- `Alloc`, `none` where it returns `nullptr`. -/
def alloc (memSlots : Nat) (memory : Bool) (s : State θ) (t : θ) : Option (Slot × State θ) :=
  if (s.cache t).head = none then (s.refillCache memSlots memory t).pop t else s.pop t

/-- One `Alloc` after the other by the threads of a list, `none` where one of them returns `nullptr`. -/
def allocs (memSlots : Nat) (memory : Bool) : List θ → State θ → Option (State θ)
  | [], s => some s
  | t :: ts, s => (s.alloc memSlots memory t).bind fun r => allocs memSlots memory ts r.2

end State

/-! ## What the slots are -/

/-- `p` is the start of a slot of the pool: `SlotInSlab`. -/
def State.SlotInSlab (memSlots : Nat) (s : State θ) (slot : Slot) : Prop :=
  slot.1 = 0 ∧ slot.2 < memSlots ∨ ∃ e ∈ s.extents, e.block = slot.1 ∧ slot.2 < e.slots

/-- The slot is not in the never-used region of its block. -/
def State.bumped (s : State θ) (slot : Slot) : Bool :=
  decide (slot.1 = 0 ∧ slot.2 < s.bumpNext) || s.extents.any fun e => e.block = slot.1 ∧ slot.2 < e.bumpNext

/-- The slots of the pool. -/
def State.slots (memSlots : Nat) (s : State θ) : List Slot :=
  (List.range memSlots).map (Prod.mk 0) ++ s.extents.flatMap fun e => (List.range e.slots).map (Prod.mk e.block)

/-- `LiveCount`. -/
def State.liveCount (memSlots : Nat) (s : State θ) : Nat :=
  (s.slots memSlots).countP s.live

/-- `Capacity`. -/
def State.capacity (memSlots : Nat) (s : State θ) : Nat :=
  s.extents.foldl (fun n e => n + e.slots) memSlots

end JLib.SlabPool
