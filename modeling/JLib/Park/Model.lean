import JLib.Bands.Word
import JLib.LTS.Runs
import Mathlib.Logic.Function.Basic

/-!
# Park and wake

How a worker of `src/Thread.cpp` goes to sleep and how `Thread::Wake` gets it up. One worker and any number of
producers share a word of four values, two flags and three queues; every access to one of them is a step,
and so are the lock of `parkMx`, the block in the wait and the wake by the kernel. The wait is on the address
of the word, or on the condition variable `parkCv`. The bands, the switches and the other inputs of the
predicate change at any time. Who makes `K` grow over the worker sheds its inbox: it pops there too.

A queue is quiescent when nothing was pushed into it that was not popped; a pop can fail although something
was pushed, when a push is half linked. `ended` and `exchanged` are history variables: what ended the last
wait, and who has exchanged the word since the last commit.
-/

namespace JLib.Park
open LTS Bands

/-- `WorkerState`. -/
inductive WorkerState where
  | empty
  | notified
  | parked
  | yield
  deriving DecidableEq

inductive Queue where
  | inbox
  | lane
  | resumed
  deriving DecidableEq

/-- The inputs of the park predicate, in the order in which it reads them. -/
inductive Input where
  | hasQueuedWork
  | laneWake
  | lane
  | inbox
  | resumed
  | holder
  | intake
  deriving DecidableEq

def Input.next : Input → Option Input
  | .hasQueuedWork => some .laneWake
  | .laneWake => some .lane
  | .lane => some .inbox
  | .inbox => some .resumed
  | .resumed => some .holder
  | .holder => some .intake
  | .intake => none

/-- What ends a wait: the word is not `PARKED`, the pool stops, or an input is not quiet. -/
inductive Ending where
  | word
  | stop
  | input (i : Input)
  deriving DecidableEq

/-- Where the worker is in a pass of its loop. -/
inductive Pc where
  | top
  | clearQueued
  | clearLane
  | body
  | search
  -- the park gate
  | gate
  | gatePaused
  | gateInput (i : Input)
  | bands
  | recheck
  | permit
  | commit
  | commitPermit
  -- the park block
  | committed
  | retract
  | retractPermit
  | lock
  | checkWord
  | checkRunning
  | checkInput (i : Input)
  | block
  | blocked
  | cleanup
  | left
  -- no park in this pass
  | spin
  -- `yieldWithHandshake`
  | yield
  | yieldPermit
  | yielded
  | yieldedPermit
  | exited
  deriving DecidableEq

/-- Where a producer is: it pushed, it is to exchange the word, or it found the worker parked. -/
inductive Producer where
  | idle
  | mark
  | exchange
  | owed
  | locked
  | notify
  deriving DecidableEq

/-- What is left of `Wake` after the exchange. -/
def Producer.after : WorkerState → Producer
  | .parked => .owed
  | _ => .idle

/-- Who holds `parkMx`. -/
inductive Holder (θ : Type) where
  | worker
  | producer (t : θ)
  deriving DecidableEq

/-- The worker's index, the size of the pool, and which wait is used. -/
structure Setup where
  qIndex : Nat
  nw : Nat
  condVar : Bool

structure State (θ τ : Type) where
  workerState : WorkerState := .empty
  hasQueuedWork : Bool := false
  laneWake : Bool := false
  queue : Queue → List τ := fun _ => []
  -- `HolderHasWork`, `LaneIntakeIdle`
  holder : Bool := false
  intakeIdle : Bool := true
  running : Bool := true
  paused : Bool := false
  bands : BitVec 64 := 0
  reservedNeverParks : Bool := false
  fibersMigrate : Bool := true
  parkMx : Option (Holder θ) := none
  -- the worker and the variables of its pass
  pc : Pc := .top
  isReservedWorker : Bool := false
  task_to_run : Option τ := none
  producer : θ → Producer := fun _ => .idle
  -- the history
  ended : Ending := .word
  exchanged : θ → Bool := fun _ => false

variable {θ τ : Type} [DecidableEq θ]

namespace State

/-- An input of the predicate that keeps the worker awake. -/
def loud (s : State θ τ) : Input → Bool
  | .hasQueuedWork => s.hasQueuedWork
  | .laneWake => s.laneWake
  | .lane => !(s.queue .lane).isEmpty
  | .inbox => !s.isReservedWorker && !(s.queue .inbox).isEmpty
  | .resumed => !(s.queue .resumed).isEmpty
  | .holder => s.holder
  | .intake => s.isReservedWorker && !s.intakeIdle

/-- `onAwakeFloor` of the gate. -/
def onAwakeFloor (w : Setup) (s : State θ τ) : Bool :=
  if w.qIndex < BandField s.bands kBandK then
    s.reservedNeverParks || decide (BandField s.bands kBandKmin < BandField s.bands kBandKmax)
  else decide (w.qIndex < BandField s.bands kBandK + BandField s.bands kBandF)

/-- The worker is in the floor by `GetBands`. -/
def inFloor (w : Setup) (s : State θ τ) : Bool :=
  decide ((GetBands s.bands w.nw).k ≤ w.qIndex) &&
    decide (w.qIndex < (GetBands s.bands w.nw).k + (GetBands s.bands w.nw).f)

/-- `compare_exchange_strong(WS_NOTIFIED, WS_EMPTY)`. -/
def consume (s : State θ τ) : State θ τ :=
  if s.workerState = .notified then { s with workerState := .empty } else s

/-- The worker leaves the wait. -/
def leave (w : Setup) (s : State θ τ) (e : Ending) : State θ τ :=
  if w.condVar then { s with parkMx := none, ended := e, pc := .cleanup } else { s with ended := e, pc := .cleanup }

/-- A blocked worker runs again. -/
def wake (w : Setup) (s : State θ τ) : State θ τ :=
  if s.pc = .blocked then { s with pc := if w.condVar then .lock else .checkWord } else s

def setProducer (s : State θ τ) (t : θ) (c : Producer) : State θ τ :=
  { s with producer := Function.update s.producer t c }

end State

inductive Label (θ τ : Type) where
  | worker
  -- the compare and exchange after the wait
  | cleanup
  | push (t : θ) (q : Queue) (x : τ)
  | producer (t : θ)
  | outside

inductive Step (w : Setup) : State θ τ → Label θ τ → State θ τ → Prop where
  -- a pass of the loop
  | top {s : State θ τ} :
    s.pc = .top →
    s.running = true →
    Step w s .worker
      { s with isReservedWorker := decide (w.qIndex < BandField s.bands kBandK), pc := .clearQueued }
  | topStops {s : State θ τ} :
    s.pc = .top →
    s.running = false →
    Step w s .worker { s with pc := .exited }
  | clearQueued {s : State θ τ} :
    s.pc = .clearQueued →
    Step w s .worker { s with hasQueuedWork := false, pc := .clearLane }
  | clearLane {s : State θ τ} :
    s.pc = .clearLane →
    Step w s .worker { s with laneWake := false, pc := .body }
  | body {s : State θ τ} :
    s.pc = .body →
    Step w s .worker { s with task_to_run := none, pc := .search }
  -- the search takes from the worker's queues what it may, and from other places
  | popInbox {s : State θ τ} {x l} :
    s.pc = .search →
    s.queue .inbox = x :: l →
    s.isReservedWorker = false →
    Step w s .worker { s with queue := Function.update s.queue .inbox l, task_to_run := some x }
  | popLane {s : State θ τ} {x l} :
    s.pc = .search →
    s.queue .lane = x :: l →
    Step w s .worker { s with queue := Function.update s.queue .lane l, task_to_run := some x }
  | popResumed {s : State θ τ} {x l} :
    s.pc = .search →
    s.queue .resumed = x :: l →
    s.fibersMigrate = false →
    Step w s .worker { s with queue := Function.update s.queue .resumed l, task_to_run := some x }
  | takeElsewhere {s : State θ τ} {x} :
    s.pc = .search →
    Step w s .worker { s with task_to_run := some x }
  | found {s : State θ τ} :
    s.pc = .search →
    s.task_to_run.isSome →
    Step w s .worker { s with pc := .top }
  | nothing {s : State θ τ} :
    s.pc = .search →
    s.task_to_run = none →
    Step w s .worker { s with pc := .gate }
  -- the park gate
  | gate {s : State θ τ} :
    s.pc = .gate →
    Step w s .worker { s with pc := if s.running then .gatePaused else .exited }
  | gatePaused {s : State θ τ} :
    s.pc = .gatePaused →
    Step w s .worker { s with pc := if s.paused then .bands else .gateInput .hasQueuedWork }
  | gateLoud {s : State θ τ} {i} :
    s.pc = .gateInput i →
    s.loud i = true →
    Step w s .worker { s with pc := .top }
  | gateQuiet {s : State θ τ} {i} :
    s.pc = .gateInput i →
    s.loud i = false →
    Step w s .worker { s with pc := (i.next.map .gateInput).getD .bands }
  | bandsStops {s : State θ τ} :
    s.pc = .bands →
    s.running = false →
    Step w s .worker { s with pc := .exited }
  | bandsParks {s : State θ τ} :
    s.pc = .bands →
    s.running = true →
    s.onAwakeFloor w = false →
    Step w s .worker { s with pc := .recheck }
  -- the worker is on the floor, or some queue of another advertises work
  | bandsStays {s : State θ τ} :
    s.pc = .bands →
    s.running = true →
    Step w s .worker { s with pc := .spin }
  | recheck {s : State θ τ} :
    s.pc = .recheck →
    Step w s .worker { s with pc := if s.inFloor w then .top else .permit }
  | permit {s : State θ τ} :
    s.pc = .permit →
    Step w s .worker { s.consume with pc := if s.workerState = .notified then .top else .commit }
  | commit {s : State θ τ} :
    s.pc = .commit →
    s.workerState = .empty →
    Step w s .worker { s with workerState := .parked, exchanged := fun _ => false, pc := .committed }
  | commitFails {s : State θ τ} :
    s.pc = .commit →
    s.workerState ≠ .empty →
    Step w s .worker { s with pc := if s.workerState = .notified then .commitPermit else .top }
  | commitPermit {s : State θ τ} :
    s.pc = .commitPermit →
    Step w s .worker { s.consume with pc := .top }
  -- the park block
  | committed {s : State θ τ} :
    s.pc = .committed →
    Step w s .worker { s with pc := if s.inFloor w then .retract else if w.condVar then .lock else .checkWord }
  | retract {s : State θ τ} :
    s.pc = .retract →
    s.workerState = .parked →
    Step w s .worker { s with workerState := .empty, pc := .top }
  | retractFails {s : State θ τ} :
    s.pc = .retract →
    s.workerState ≠ .parked →
    Step w s .worker { s with pc := .retractPermit }
  | retractPermit {s : State θ τ} :
    s.pc = .retractPermit →
    Step w s .worker { s.consume with pc := .top }
  | lock {s : State θ τ} :
    s.pc = .lock →
    s.parkMx = none →
    Step w s .worker { s with parkMx := some .worker, pc := .checkWord }
  | checkWord {s : State θ τ} :
    s.pc = .checkWord →
    s.workerState = .parked →
    Step w s .worker { s with pc := .checkRunning }
  | checkWordLeaves {s : State θ τ} :
    s.pc = .checkWord →
    s.workerState ≠ .parked →
    Step w s .worker (s.leave w .word)
  | checkRunning {s : State θ τ} :
    s.pc = .checkRunning →
    s.running = true →
    Step w s .worker { s with pc := .checkInput .hasQueuedWork }
  | checkRunningLeaves {s : State θ τ} :
    s.pc = .checkRunning →
    s.running = false →
    Step w s .worker (s.leave w .stop)
  | checkInput {s : State θ τ} {i} :
    s.pc = .checkInput i →
    s.loud i = false →
    Step w s .worker { s with pc := (i.next.map .checkInput).getD .block }
  | checkInputLeaves {s : State θ τ} {i} :
    s.pc = .checkInput i →
    s.loud i = true →
    Step w s .worker (s.leave w (.input i))
  -- the wait on the address compares the word and blocks in one
  | block {s : State θ τ} :
    s.pc = .block →
    w.condVar = false →
    Step w s .worker { s with pc := if s.workerState = .parked then .blocked else .checkWord }
  -- the wait on the condition variable unlocks and blocks in one
  | blockCondVar {s : State θ τ} :
    s.pc = .block →
    w.condVar = true →
    Step w s .worker { s with parkMx := none, pc := .blocked }
  | spurious {s : State θ τ} :
    s.pc = .blocked →
    Step w s .worker (s.wake w)
  | cleanup {s : State θ τ} :
    s.pc = .cleanup →
    Step w s .cleanup { s.consume with pc := .left }
  | left {s : State θ τ} :
    s.pc = .left →
    Step w s .worker { s with pc := if s.running then .top else .exited }
  -- no park
  | spin {s : State θ τ} {c} :
    s.pc = .spin →
    c = .top ∨ c = .yield →
    Step w s .worker { s with pc := c }
  | yield {s : State θ τ} :
    s.pc = .yield →
    s.workerState = .empty →
    Step w s .worker { s with workerState := .yield, pc := .yielded }
  | yieldFails {s : State θ τ} :
    s.pc = .yield →
    s.workerState ≠ .empty →
    Step w s .worker { s with pc := if s.workerState = .notified then .yieldPermit else .top }
  | yieldPermit {s : State θ τ} :
    s.pc = .yieldPermit →
    Step w s .worker { s.consume with pc := .top }
  | yielded {s : State θ τ} :
    s.pc = .yielded →
    s.workerState = .yield →
    Step w s .worker { s with workerState := .empty, pc := .top }
  | yieldedFails {s : State θ τ} :
    s.pc = .yielded →
    s.workerState ≠ .yield →
    Step w s .worker { s with pc := .yieldedPermit }
  | yieldedPermit {s : State θ τ} :
    s.pc = .yieldedPermit →
    Step w s .worker { s.consume with pc := .top }
  -- a producer pushes and marks, marks the lane, or only wakes
  | push {s : State θ τ} {t q x} :
    s.producer t = .idle →
    Step w s (.push t q x)
      ({ s with queue := Function.update s.queue q (s.queue q ++ [x]) }.setProducer t .mark)
  | markQueuedWork {s : State θ τ} {t} :
    s.producer t = .mark →
    Step w s (.producer t) ({ s with hasQueuedWork := true }.setProducer t .exchange)
  | markLaneWake {s : State θ τ} {t} :
    s.producer t = .idle →
    Step w s (.producer t) ({ s with laneWake := true }.setProducer t .exchange)
  | notifyOnly {s : State θ τ} {t} :
    s.producer t = .idle →
    Step w s (.producer t) (s.setProducer t .exchange)
  -- Wake
  | exchange {s : State θ τ} {t} :
    s.producer t = .exchange →
    Step w s (.producer t)
      ({ s with
        workerState := .notified
        exchanged := Function.update s.exchanged t true }.setProducer t (.after s.workerState))
  | wakeByAddress {s : State θ τ} {t} :
    s.producer t = .owed →
    w.condVar = false →
    Step w s (.producer t) ((s.wake w).setProducer t .idle)
  | lockMx {s : State θ τ} {t} :
    s.producer t = .owed →
    w.condVar = true →
    s.parkMx = none →
    Step w s (.producer t) ({ s with parkMx := some (.producer t) }.setProducer t .locked)
  | unlockMx {s : State θ τ} {t} :
    s.producer t = .locked →
    Step w s (.producer t) ({ s with parkMx := none }.setProducer t .notify)
  | notifyOne {s : State θ τ} {t} :
    s.producer t = .notify →
    Step w s (.producer t) ((s.wake w).setProducer t .idle)
  -- the shed loop of `SetHotWorkersEffective` pops the worker's inbox
  | shed {s : State θ τ} {x l} :
    s.queue .inbox = x :: l →
    Step w s .outside { s with queue := Function.update s.queue .inbox l }
  -- what else changes
  | outside {s : State θ τ} {bands holder intakeIdle running paused never migrate} :
    Step w s .outside
      { s with
        bands := bands
        holder := holder
        intakeIdle := intakeIdle
        running := running
        paused := paused
        reservedNeverParks := never
        fibersMigrate := migrate }

end JLib.Park
