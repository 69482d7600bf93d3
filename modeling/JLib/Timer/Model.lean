import Mathlib.Algebra.Order.Ring.Int
import Mathlib.Logic.Function.Basic
import Mathlib.Tactic.Lemma

/-!
# The timer wheel

`TimerQueue::Impl` of `src/Timer.cpp`: four levels of 256 slots, each slot an index-linked list of
entries, with an occupancy bitmap a level. This module is the data and the functions that run under the
lock; the worker thread, the clock and the calls of other threads are in `Timer/Queue.lean`.

Ticks are integers: `t >> (kSlotBits * l)` is the floor division by the granularity of the level and
`& kSlotMask` the remainder by `kSlots`. Indices are natural numbers, `kNil` is `none`. The loops that
walk a linked list get the size of the table as fuel; that it is enough is part of what is proved about
them.
-/

namespace JLib.Timer

def kLevels : Nat := 4
def kSlotBits : Nat := 8
def kSlots : Nat := 256
def kOccWords : Nat := 4
def kMaxTicks : Int := 2 ^ 32
def kBatch : Nat := 64
def tickNs : Int := 1000000

def LevelGranularity (level : Nat) : Int := 2 ^ (kSlotBits * level)

/-- `(t >> (kSlotBits * l)) & kSlotMask`. -/
def slotAt (t : Int) (l : Nat) : Nat := (t / LevelGranularity l % kSlots).toNat

/-- What a timer cancels when it fires, and whom it wakes. -/
structure Action where
  token : Nat
  eject : Option Nat
  ctx : Option Nat
  deriving Repr, DecidableEq

structure Entry where
  deadlineTick : Int := 0
  action : Option Action := none
  prev : Option Nat := none
  next : Option Nat := none
  -- odd is armed, even is free
  generation : Nat := 0
  -- 1-based; 0 ends the free list
  nextFree : Nat := 0
  level : Option Nat := none
  slot : Nat := 0
  deriving Repr, DecidableEq

structure Impl where
  entries : Nat → Entry := fun _ => {}
  size : Nat := 0
  freeHead : Nat := 0
  heads : Nat × Nat → Option Nat := fun _ => none
  occ : Nat → Nat → BitVec 64 := fun _ _ => 0
  currentTick : Int := 0
  armedCount : Nat := 0

namespace Impl

def setEntry (q : Impl) (i : Nat) (e : Entry) : Impl :=
  { q with entries := Function.update q.entries i e }

def setHead (q : Impl) (l s : Nat) (h : Option Nat) : Impl :=
  { q with heads := Function.update q.heads (l, s) h }

/-! ## Occupancy -/

def setOcc (q : Impl) (l w : Nat) (v : BitVec 64) : Impl :=
  { q with occ := fun l' w' => if l' = l ∧ w' = w then v else q.occ l' w' }

def MarkOccupied (q : Impl) (l s : Nat) : Impl :=
  q.setOcc l (s / 64) (q.occ l (s / 64) ||| BitVec.twoPow 64 (s % 64))

def MarkEmpty (q : Impl) (l s : Nat) : Impl :=
  q.setOcc l (s / 64) (q.occ l (s / 64) &&& ~~~ (BitVec.twoPow 64 (s % 64)))

def LevelEmpty (q : Impl) (l : Nat) : Bool :=
  (List.range kOccWords).all fun w => q.occ l w == 0

/-- The rest of the scan, over the words after the starting one. -/
def scanWords (q : Impl) (l startWord : Nat) : List Nat → Option Nat
  | [] => none
  | i :: is =>
    let wi := (startWord + i) % kOccWords
    if q.occ l wi = 0 then scanWords q l startWord is
    else some (wi * 64 + (q.occ l wi).ctz.toNat)

/-- The next occupied slot at or after `start`, wrapping once; `kSlots` if the level is empty. -/
def NextOccupied (q : Impl) (l start : Nat) : Nat :=
  let startWord := start / 64
  let mask := BitVec.allOnes 64 <<< (start % 64)
  let w := q.occ l startWord &&& mask
  if w ≠ 0 then startWord * 64 + w.ctz.toNat
  else
    match q.scanWords l startWord [1, 2, 3] with
    | some s => s
    | none =>
      let w := q.occ l startWord &&& ~~~mask
      if w ≠ 0 then startWord * 64 + w.ctz.toNat else kSlots

/-! ## Lists -/

def Link (q : Impl) (idx l s : Nat) : Impl :=
  let next := q.heads (l, s)
  let q := q.setEntry idx
    { q.entries idx with level := some l, slot := s, prev := none, next := next }
  let q := match next with
    | some n => q.setEntry n { q.entries n with prev := some idx }
    | none => q
  (q.setHead l s (some idx)).MarkOccupied l s

/-- What came before an entry now leads to what comes after it. -/
def bypassBack (q : Impl) (e : Entry) (l : Nat) : Impl :=
  match e.prev with
  | some p => q.setEntry p { q.entries p with next := e.next }
  | none => q.setHead l e.slot e.next

/-- What comes after an entry now points back at what came before it. -/
def bypassFront (q : Impl) (e : Entry) : Impl :=
  match e.next with
  | some n => q.setEntry n { q.entries n with prev := e.prev }
  | none => q

def clearLinks (q : Impl) (idx : Nat) : Impl :=
  q.setEntry idx { q.entries idx with prev := none, next := none, level := none }

def Unlink (q : Impl) (idx : Nat) : Impl :=
  let e := q.entries idx
  match e.level with
  | none => q
  | some l =>
    let q := ((q.bypassBack e l).bypassFront e).clearLinks idx
    if q.heads (l, e.slot) = none then q.MarkEmpty l e.slot else q

/-! ## Placement -/

/-- The level and slot `Place` chooses for a deadline. -/
def placeOf (currentTick deadlineTick : Int) : Nat × Nat :=
  let delta := deadlineTick - currentTick
  if delta ≤ 0 then (0, slotAt currentTick 0)
  else
    match (List.range kLevels).find? fun l => delta < LevelGranularity (l + 1) with
    | some l => (l, slotAt deadlineTick l)
    | none => (kLevels - 1, slotAt (currentTick + kMaxTicks - 1) (kLevels - 1))

def Place (q : Impl) (idx : Nat) (deadlineTick : Int) : Impl :=
  q.Link idx (placeOf q.currentTick deadlineTick).1 (placeOf q.currentTick deadlineTick).2

/-- The loop of `Cascade`. -/
def cascadeFrom : Nat → Impl → Option Nat → Impl
  | 0, q, _ => q
  | _, q, none => q
  | fuel + 1, q, some idx =>
    let nextIdx := (q.entries idx).next
    let q := q.clearLinks idx
    cascadeFrom fuel (q.Place idx (q.entries idx).deadlineTick) nextIdx

def Cascade (q : Impl) (level slot : Nat) : Impl :=
  let idx := q.heads (level, slot)
  cascadeFrom q.size ((q.setHead level slot none).MarkEmpty level slot) idx

/-! ## Entries -/

def AcquireEntry (q : Impl) : Impl × Nat :=
  if q.freeHead ≠ 0 then
    let i := q.freeHead - 1
    ({ q with freeHead := (q.entries i).nextFree }, i)
  else
    ({ q.setEntry q.size {} with size := q.size + 1 }, q.size)

def ReleaseEntry (q : Impl) (i : Nat) : Impl :=
  let q := q.setEntry i { q.entries i with action := none, level := none, nextFree := q.freeHead }
  { q with freeHead := i + 1 }

/-- `++e.generation`, a 32-bit counter. -/
def bumpGeneration (q : Impl) (i : Nat) : Impl :=
  q.setEntry i { q.entries i with generation := ((q.entries i).generation + 1) % 2 ^ 32 }

/-- What the firing loop and `Disarm` both do to an armed entry. -/
def retire (q : Impl) (i : Nat) : Impl :=
  let q := ((q.Unlink i).bumpGeneration i).ReleaseEntry i
  { q with armedCount := q.armedCount - 1 }

/-! ## The clock -/

/-- The soonest tick at which level `l` may need something done. -/
def levelEvent (q : Impl) (l : Nat) : Option Int :=
  if q.LevelEmpty l then none
  else
    let cur := slotAt q.currentTick l
    let start := if l = 0 then cur else (cur + 1) % kSlots
    let s := q.NextOccupied l start
    if s = kSlots then none
    else
      let ahead := ((s : Int) - start) % kSlots
      let base := if l = 0 then q.currentTick
        else (q.currentTick / LevelGranularity l + 1) * LevelGranularity l
      some (base + ahead * LevelGranularity l)

def NextEventTick (q : Impl) : Int :=
  (List.range kLevels).foldl (fun best l =>
    match q.levelEvent l with
    | none => best
    | some when => if best < 0 ∨ when < best then when else best) (-1)

/-- `if (heads[l][s] != kNil) Cascade(l, s)`. -/
def cascadeSlot (l : Nat) (q : Impl) (s : Nat) : Impl :=
  if q.heads (l, s) = none then q else q.Cascade l s

/-- The slots of level `l` a move from `src` to `target` passes through. -/
def passedSlots (src target : Int) (l : Nat) : List Nat :=
  let steps := target / LevelGranularity l - src / LevelGranularity l
  if steps ≥ kSlots then List.range kSlots
  else (List.range steps.toNat).map fun k : Nat =>
    ((src / LevelGranularity l + (k + 1 : Int)) % kSlots).toNat

/-- The loop of `AdvanceTo` over the given levels. -/
def advanceLevels (src target : Int) : List Nat → Impl → Impl
  | [], q => q
  | l :: ls, q =>
    if src / LevelGranularity l = target / LevelGranularity l then q
    else advanceLevels src target ls ((passedSlots src target l).foldl (cascadeSlot l) q)

def AdvanceTo (q : Impl) (target : Int) : Impl :=
  if target ≤ q.currentTick then q
  else advanceLevels q.currentTick target [1, 2, 3] { q with currentTick := target }

/-! ## The firing loop -/

/-- A timer that was collected to be fired: which, for when, and what it does. -/
structure Due where
  idx : Nat
  generation : Nat
  deadlineTick : Int
  action : Option Action
  deriving Repr, DecidableEq

def due (q : Impl) (i : Nat) : Due :=
  ⟨i, (q.entries i).generation, (q.entries i).deadlineTick, (q.entries i).action⟩

/-- The loop that collects what is due in the slot the wheel stands on; `n` have been collected. -/
def fireFrom : Nat → Impl → Option Nat → Nat → Impl × List Due
  | 0, q, _, _ => (q, [])
  | _, q, none, _ => (q, [])
  | fuel + 1, q, some idx, n =>
    if n < kBatch then
      let nextIdx := (q.entries idx).next
      if (q.entries idx).deadlineTick ≤ q.currentTick then
        let rest := fireFrom fuel (q.retire idx) nextIdx (n + 1)
        (rest.1, q.due idx :: rest.2)
      else fireFrom fuel q nextIdx n
    else (q, [])

/-- How one pass of `Run` under the lock ends. -/
inductive Pass where
  | wait
  | waitUntil (tick : Int)
  | step
  | fire (tick : Int) (batch : List Due)
  deriving Repr, DecidableEq

/-- One pass of `Run` at a time when `NowTick()` is `now`. -/
def RunPass (q : Impl) (now : Int) : Impl × Pass :=
  let next := q.NextEventTick
  if next < 0 then ({ q with currentTick := now }, .wait)
  else if next > now then (q, .waitUntil next)
  else
    let q := q.AdvanceTo next
    let f := fireFrom q.size q (q.heads (0, slotAt q.currentTick 0)) 0
    if f.2 = [] then ({ f.1 with currentTick := f.1.currentTick + 1 }, .step)
    else (f.1, .fire q.currentTick f.2)

/-! ## Arm and Disarm, under the lock -/

structure TimerHandle where
  idx : Nat
  generation : Nat
  deriving Repr, DecidableEq

def delayTicks (delayNs : Int) : Int :=
  if delayNs > 0 then (delayNs + tickNs - 1) / tickNs else 0

/-- What `Arm` does once the wheel stands at the present: take an entry, fill it and place it. -/
def armEntry (q : Impl) (deadlineTick : Int) (a : Action) : Impl × Nat :=
  let (q, i) := q.AcquireEntry
  let q := q.bumpGeneration i
  let q := q.setEntry i { q.entries i with deadlineTick := deadlineTick, action := some a }
  let q := q.Place i deadlineTick
  ({ q with armedCount := q.armedCount + 1 }, i)

/-- `Arm` of an accepted timer: the wheel, the handle, and whether the worker is notified. -/
def Arm (q : Impl) (nowTick delayNs : Int) (a : Action) : Impl × TimerHandle × Bool :=
  let deadlineTick := nowTick + delayTicks delayNs
  let (q, i) := (q.AdvanceTo nowTick).armEntry deadlineTick a
  let next := q.NextEventTick
  (q, ⟨i, (q.entries i).generation⟩, next < 0 || next ≥ deadlineTick)

def Disarm (q : Impl) (h : TimerHandle) : Impl × Bool :=
  if h.idx ≥ q.size then (q, false)
  else if (q.entries h.idx).generation ≠ h.generation ∨ h.generation % 2 = 0 then (q, false)
  else (q.retire h.idx, true)

end Impl

end JLib.Timer
