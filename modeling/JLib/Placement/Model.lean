import JLib.Bits.Word
import JLib.Bands.Word

/-!
# Placement

Where a task goes: `PushTarget`, `PushBatch`, `Requeue` and `PushIO` of `src/TaskScheduler.cpp`, with
what they call to choose a queue (`PickNextWorker`, `HiPriSpillTarget`, `PushLaneIntake`,
`PushMainPublish`).

A call is a function of the pool (its size and the band word) and of what it reads: the configuration,
the rotation counters, the state of the workers and of the calling thread. Every value of these is
possible, so what a call leaves behind in the counters is not modelled. A call returns whether it
accepted and the log of what it appended to which queue. Indices are natural numbers: a queue that does
not exist can be named, and the conversions to `uint8_t` are written out.
-/

namespace JLib.Placement
open Bands Bits

inductive Lane where
  | Normal
  | LowLatency
  deriving Repr, DecidableEq

inductive CorePref where
  | Default
  | Wide
  deriving Repr, DecidableEq

/-- What placement reads of a task; `assignedFiber` is the home worker of its fiber. -/
structure Task where
  id : Nat
  lane : Lane
  corePref : CorePref
  assignedFiber : Option Nat
  deriving Repr, DecidableEq

/-- A pool with room for one worker outside the bands. -/
structure Pool where
  n : Nat
  word : BitVec 64
  two : 2 ≤ n
  room : BandField word kBandK + BandField word kBandF ≤ n - 1

/-- What a call reads. -/
structure Reads where
  -- configuration
  hiPriFloorLane : Bool := false
  placementFollowsGrownFloor : Bool := false
  laneIntakeOn : Bool := false
  mainPubOn : Bool := false
  pushBatchWide : Bool := false
  poolActive : Bool := true
  fibersMigrate : Bool := true
  streakSpillMax : Nat := 64
  -- rotation counters
  nextWorker : Int := 0
  nextHotWorker : Nat := 0
  ioSteer : Nat := 0
  spillCursor : Nat := 0
  -- workers
  awakeHint : Nat → BitVec 64 := fun _ => 0
  yielding : Nat → Bool := fun _ => false
  sleeping : Nat → Bool := fun _ => false
  hasQueuedWork : Nat → Bool := fun _ => false
  busy : Nat → Bool := fun _ => false
  -- the calling thread
  onWorker : Bool := false
  pushesSinceClock : Nat := 0
  floorStreak : Nat := 0
  lastPushNs : Int := 0
  nowNs : Int := 0
  -- queues that may refuse
  intakeFails : Bool := false
  mainPubMine : Bool := false
  mainPubFull : Bool := false

/-- The queues of a pool. -/
inductive Queue where
  | normal (i : Nat)
  | lane (i : Nat)
  | resumed (i : Nat)
  | mainPub
  | intake
  deriving Repr, DecidableEq

/-- Whether a call accepted, and what it appended where. -/
structure Out where
  ok : Bool
  log : List (Queue × List Task)
  deriving Repr, DecidableEq

def kHintWords : Nat := 4
def kMaxHintQueues : Nat := kHintWords * 64
def kStreakToSpill : Nat := 2
def kWaveGapNs : Int := 50000

/-- The conversion of an `int` to `size_t`. -/
def toSize (v : Int) : Nat := (v % 2 ^ 64).toNat

/-- The conversion of an `int` to `unsigned`. -/
def toUnsigned (v : Int) : Nat := (v % 2 ^ 32).toNat

/-- The conversion to `uint8_t`. -/
def toByte (i : Nat) : Nat := i % 256

namespace Pool

def GetHotWorkers (p : Pool) : Nat := BandField p.word kBandK
def GetAwakeFloor (p : Pool) : Nat := BandField p.word kBandF
def GetAwakeFloorBase (p : Pool) : Nat := BandField p.word kBandFbase
def GetBands (p : Pool) : Bands := Bands.GetBands p.word p.n

def HiPriLaneActive (p : Pool) (x : Reads) : Bool := p.GetHotWorkers > 0 || x.hiPriFloorLane

/-- The lane a task is routed on. -/
def useHi (p : Pool) (x : Reads) (lane : Lane) : Lane :=
  if lane = .LowLatency ∧ p.HiPriLaneActive x then .LowLatency else .Normal

/-- `PickNextWorker` for the lane: rotate the reserved workers. -/
def pickHot (p : Pool) (x : Reads) : Nat := x.nextHotWorker % min p.GetHotWorkers p.n

/-- `PickNextWorker` for the lane without reserved workers: rotate the awake floor. -/
def pickFloorLane (p : Pool) (x : Reads) : Option Nat :=
  let b := p.GetBands
  let baseF := p.GetAwakeFloorBase
  if baseF > 0 ∧ b.k < p.n then
    let span := if b.k + baseF ≤ p.n then baseF else p.n - b.k
    if span > 0 then some (b.k + x.nextHotWorker % span) else none
  else none

/-- Word `w` of a mask that keeps the bits from `b` on. -/
def maskFrom (b w : Nat) : BitVec 64 :=
  if b > w * 64 then
    if b - w * 64 ≥ 64 then 0 else ~~~((1#64 <<< (b - w * 64)) - 1#64)
  else ~~~0#64

/-- Word `w` of a mask that keeps the bits below `e`. -/
def maskBelow (e w : Nat) : BitVec 64 :=
  if e ≤ w * 64 then 0
  else if e - w * 64 ≥ 64 then ~~~0#64
  else (1#64 <<< (e - w * 64)) - 1#64

def nWords (p : Pool) : Nat := min ((p.n + 63) / 64) kHintWords

/-- The awake workers that take ordinary work. -/
def awakeW (p : Pool) (x : Reads) (w : Nat) : BitVec 64 := x.awakeHint w &&& maskFrom p.GetBands.k w

/-- Those of them on the floor. -/
def steerW (p : Pool) (x : Reads) (w : Nat) : BitVec 64 :=
  let steerF := if x.placementFollowsGrownFloor then p.GetAwakeFloor else p.GetAwakeFloorBase
  p.awakeW x w &&& (maskBelow (p.GetBands.k + steerF) w &&& maskFrom p.GetBands.k w)

/-- The words the bitmap select looks at: the floor if somebody there is awake. -/
def words (p : Pool) (x : Reads) : List (Nat × BitVec 64) :=
  let steer := (List.range p.nWords).map fun w => (w, p.steerW x w)
  if p.GetAwakeFloorBase ≠ 0 ∧ steer.any fun e => e.2 ≠ 0 then steer
  else (List.range p.nWords).map fun w => (w, p.awakeW x w)

/-- The word with bit `j` of the set, the bits before it cleared. -/
def pickBit : List (Nat × BitVec 64) → Nat → Option (Nat × BitVec 64)
  | [], _ => none
  | (w, word) :: rest, j =>
    if word = 0 then pickBit rest j
    else if j ≥ popCount word then pickBit rest (j - popCount word)
    else some (w, clearLow j word)

/-- Aim past a worker that is about to yield, inside the same word. -/
def reaim (p : Pool) (x : Reads) (w : Nat) (word : BitVec 64) : Nat :=
  let idx := w * 64 + word.ctz.toNat
  let rest := clearLowest word
  let alt := w * 64 + rest.ctz.toNat
  if idx < p.n ∧ x.yielding idx ∧ rest ≠ 0 ∧ alt < p.n then alt else idx

/-- A wave of pushes that crowds the floor spills onto the workers the floor has grown by. -/
def spill (p : Pool) (x : Reads) (idx : Nat) : Nat :=
  if x.onWorker then idx
  else if x.floorStreak > x.streakSpillMax ∧ (x.pushesSinceClock + 1) % 64 ≠ 0 then idx
  else
    let streak := if x.nowNs - x.lastPushNs < kWaveGapNs then x.floorStreak + 1 else 1
    if kStreakToSpill ≤ streak ∧ streak ≤ x.streakSpillMax ∧
        p.GetAwakeFloor > p.GetAwakeFloorBase then
      let span := p.GetAwakeFloor - p.GetAwakeFloorBase
      let alt := p.GetHotWorkers + p.GetAwakeFloorBase + toSize (x.nextWorker + 1) % span
      if alt < p.n then alt else idx
    else idx

/-- `PickNextWorker` over the bitmap of the awake workers. -/
def pickAwake (p : Pool) (x : Reads) : Option Nat :=
  let ws := p.words x
  let total := (ws.map fun e => popCount e.2).sum
  let j := if total > 1 then toUnsigned x.nextWorker % total else 0
  match pickBit ws j with
  | none => none
  | some (w, word) =>
    let idx := p.reaim x w word
    if idx < p.n then some (if x.hasQueuedWork idx then p.spill x idx else idx) else none

/-- One turn of the rotation: past the reserved workers. -/
def turn (p : Pool) (v : Nat) : Nat → Option Nat
  | 0 => none
  | m + 1 =>
    let j := ((v + (p.n - (m + 1))) % 2 ^ 64) % p.n
    if j < p.GetHotWorkers then turn p v m else some j

/-- `PickNextWorker` by rotation. -/
def pickRotation (p : Pool) (x : Reads) : Nat :=
  let v := toSize x.nextWorker
  match p.turn v p.n with
  | some j => j
  | none =>
    if p.GetHotWorkers < p.n then p.GetHotWorkers + v % (p.n - p.GetHotWorkers) else v

def PickNextWorker (p : Pool) (x : Reads) (pref : CorePref) (lane : Lane) : Nat :=
  if lane = .LowLatency ∧ p.GetHotWorkers > 0 then p.pickHot x
  else
    let floor := if lane = .LowLatency ∧ x.hiPriFloorLane then p.pickFloorLane x else none
    let awake := if p.n ≤ kMaxHintQueues ∧ pref = .Default then p.pickAwake x else none
    (floor.or awake).getD (p.pickRotation x)

/-- A reserved worker that is free, for lane work whose worker is inside a task. -/
def HiPriSpillTarget (p : Pool) (x : Reads) (chosen : Nat) : Nat :=
  if chosen ≥ p.n ∨ !x.busy chosen then chosen
  else if p.GetBands.k > 1 then
    (((List.range p.GetBands.k).map fun i => (x.spillCursor + i) % p.GetBands.k).find? fun q =>
      q < p.n ∧ q ≠ chosen ∧ !x.sleeping q ∧ !x.busy q).getD chosen
  else chosen

def PushLaneIntake (p : Pool) (x : Reads) (ts : List Task) : Out :=
  if ts.isEmpty ∨ !x.poolActive ∨ p.GetHotWorkers = 0 ∨ x.intakeFails then ⟨false, []⟩
  else ⟨true, [(.intake, ts)]⟩

def PushMainPublish (x : Reads) (t : Task) : Out :=
  if !x.mainPubOn ∨ !x.poolActive ∨ x.onWorker ∨ t.corePref ≠ .Default ∨ !x.mainPubMine ∨
      x.mainPubFull then ⟨false, []⟩
  else ⟨true, [(.mainPub, [t])]⟩

/-- Go on with another call when the first one refused. -/
def orElse (a : Out) (b : Out) : Out := if a.ok then a else ⟨b.ok, a.log ++ b.log⟩

/-- The inbox of a worker on a lane. -/
def inbox : Lane → Nat → Queue
  | .LowLatency, i => .lane i
  | .Normal, i => .normal i

def PushTarget (p : Pool) (x : Reads) (t : Task) (cpuaffinity : Nat) : Out :=
  let hi := p.useHi x t.lane
  if cpuaffinity > 0 ∧ cpuaffinity - 1 < p.n then ⟨true, [(inbox hi (cpuaffinity - 1), [t])]⟩
  else
    let intake := if hi = .LowLatency ∧ x.laneIntakeOn then p.PushLaneIntake x [t] else ⟨false, []⟩
    let main := if hi = .Normal then PushMainPublish x t else ⟨false, []⟩
    let chosen := toByte (p.PickNextWorker x t.corePref hi)
    let chosen := if hi = .LowLatency then toByte (p.HiPriSpillTarget x chosen) else chosen
    orElse (orElse intake main) ⟨true, [(inbox hi chosen, [t])]⟩

def Requeue (p : Pool) (x : Reads) (t : Task) : Out :=
  let hi := p.useHi x t.lane
  let migrated := if x.fibersMigrate ∧ t.assignedFiber.isSome then p.PushTarget x t 0 else ⟨false, []⟩
  let pinned : Out := match t.assignedFiber with
    | some home =>
      if !x.fibersMigrate ∧ home < p.n then ⟨true, [(.resumed home, [t])]⟩ else ⟨false, []⟩
    | none => ⟨false, []⟩
  let intake := if hi = .LowLatency ∧ x.laneIntakeOn then p.PushLaneIntake x [t] else ⟨false, []⟩
  let chosen := toByte (p.PickNextWorker x t.corePref hi)
  orElse migrated (orElse pinned (orElse intake ⟨true, [(inbox hi chosen, [t])]⟩))

def PushIO (p : Pool) (x : Reads) (t : Task) : Out :=
  if t.lane ≠ .LowLatency ∨ p.GetHotWorkers = 0 then ⟨false, []⟩
  else p.PushTarget x t (toByte (1 + x.ioSteer % p.GetHotWorkers))

/-- `submitRun`: a run of the array goes to one inbox. -/
def submitRun (p : Pool) (x : Reads) (lane : Lane) (ts : List Task) (first len chosen : Nat) :
    Queue × List Task :=
  (inbox (p.useHi x lane) chosen, (ts.drop first).take len)

/-- How many segments a batch is cut into. -/
def segments (p : Pool) (lane : Lane) (count minPerSegment : Nat) : Nat :=
  let minPer := if minPerSegment = 0 then 1 else minPerSegment
  let hotN := p.GetHotWorkers
  let reachable := if lane = .LowLatency ∧ hotN > 0 then hotN
    else if p.n > hotN then p.n - hotN else p.n
  let want := if p.n = 0 then 1 else count / minPer
  min (max want 1) reachable

/-- The segments of a batch from segment `s` on, the first of them at `first`. -/
def submitAll (p : Pool) (x : Nat → Reads) (lane : Lane) (pref : CorePref) (ts : List Task)
    (segs : Nat) : Nat → Nat → Nat → List (Queue × List Task)
  | 0, _, _ => []
  | m + 1, s, first =>
    let len := ts.length / segs + if s < ts.length % segs then 1 else 0
    if len = 0 then submitAll p x lane pref ts segs m (s + 1) first
    else
      let chosen := p.PickNextWorker (x s) pref (p.useHi (x s) lane)
      p.submitRun (x s) lane ts first len chosen ::
        submitAll p x lane pref ts segs m (s + 1) (first + len)

/-- `PushBatch`; `x s` is what the choice for segment `s` reads. -/
def PushBatch (p : Pool) (x : Nat → Reads) (ts : List Task) (cpuaffinity minPerSegment : Nat)
    (lane : Lane) (pref : CorePref) : Out :=
  if ts.isEmpty then ⟨true, []⟩
  else
    let pref := if pref = .Default ∧ (x 0).pushBatchWide then .Wide else pref
    if cpuaffinity ≠ 0 then
      ⟨true, [p.submitRun (x 0) lane ts 0 ts.length (cpuaffinity - 1)]⟩
    else
      let segs := p.segments lane ts.length minPerSegment
      ⟨true, p.submitAll x lane pref ts segs segs 0 0⟩

end Pool
end JLib.Placement
