import JLib.Bands.Writers
import JLib.Park.Model
import JLib.Promotion.Model

/-!
# The awake floor

The controller of the floor in `src/TaskScheduler.cpp`: `NoteFloorCrowding` grows `F`, `CollapseAwakeFloorToBase`
and `ForceAwakeFloorToBase` take it back, `SetAwakeFloor` moves its base, and `SetHotWorkers` slides the floor along
with `K`. Any number of threads call them, over one band word, while every worker of the pool goes through its loop
and its park gate (`Park`). One step is one access to what is shared.

Who grows the floor wakes the workers that have come into it. The range is computed after the exchange: a growth
remembers `prev` and `want` and reads `K` again, a call that moves `K` reads back `K`, wakes the workers whose reserved
membership has changed, and then reads `F`. The shed loop of `SetHotWorkersEffective` moves tasks from inbox to inbox
and is in `Promotion`; here the call goes on to its wakes.
-/

namespace JLib.Floor
open LTS Bands

/-- What `NoteFloorCrowding` makes of a snapshot of the word, for a submit of so many tasks to a pool of `n`; nothing
if the floor is not to grow. -/
def crowded (n userCap submitted : Nat) (bw : BitVec 64) : Option Nat :=
  let k := BandField bw kBandF
  let kNow := BandField bw kBandK
  let fbase := BandField bw kBandFbase
  if n ≤ kNow + 1 then none
  else
    let structural := if n ≥ kNow + 2 then n - kNow - 2 else 0
    if structural = 0 then none
    else
      let cap := if userCap ≠ 0 then userCap else
        let cap := if n ≥ 2 then n - 2 else 0
        if cap < fbase then fbase else cap
      let cap := if cap > structural then structural else cap
      if k ≥ cap then none
      else
        let want := k + if submitted ≠ 0 then submitted else 1
        let waveCap := (if submitted ≠ 0 then submitted else 1) + fbase
        let want := if want > waveCap then waveCap else want
        let want := if want > cap then cap else want
        if want < k then none else some want

/-- What a writer of the word is in the middle of. -/
inductive Cause where
  | grow (want : Nat)
  -- `SetAwakeFloor`, its base first
  | base (k : Nat)
  | floor (k : Nat)
  | collapse (cur base : Nat)
  | force (base : Nat)
  -- `SetHotWorkers`, its range first
  | kmax (k : Nat)
  | kmin (k : Nat)
  | hot (k : Nat)
  deriving DecidableEq

namespace Cause

def op (n : Nat) : Cause → Op
  | grow want => .setF want
  | base k => .setFb k
  | floor k => .setF k
  | collapse cur b => .casF cur b
  | force b => .setF b
  | kmax k => .setKmax k
  | kmin k => .setKmin k
  | hot k => .setK (Promotion.requested k n)

/-- The floor up to which the caller wakes the workers that its exchange brings in. -/
def promised : Cause → Nat
  | grow want => want
  | floor k => k
  | _ => 0

end Cause

inductive Pc where
  | idle
  -- `NoteFloorCrowding`
  | crowding (submitted : Nat)
  | capped (submitted : Nat) (bw : BitVec 64)
  -- `CollapseAwakeFloorToBase`
  | collapsing
  | clock (cur base : Nat)
  | grown (cur base : Nat) (now : Int)
  | held (cur base : Nat) (age : Int)
  -- `ForceAwakeFloorToBase`, `ResetAwakeFloorPeak`
  | forcing
  | resetting
  | reset (f : Nat)
  -- the loop of a writer
  | load (c : Cause)
  | loop (c : Cause) (cur : BitVec 64)
  -- a growth after its exchange
  | stamp (want prev : Nat)
  | stamped (want prev : Nat) (now : Int)
  | peak (want prev : Nat)
  | peakLoop (want prev seen : Nat)
  | resv (want prev : Nat)
  -- `SetAwakeFloor` after its exchange
  | floored (k prev : Nat)
  -- `SetHotWorkersEffective` after its exchange
  | keyed (prev : Nat)
  | slide (prev eff : Nat)
  -- the workers from `i` to `hi` are to be woken; the one in front is being woken
  | waking (lane : Bool) (i hi : Nat) (next : Pc)
  | ringing (i : Nat) (next : Pc)
  deriving DecidableEq

/-- What the exchange of the cause returns: what it has found in the field that it writes. -/
def Cause.found (K F : Nat) : Cause → Nat
  | hot _ => K
  | _ => F

/-- Where the thread goes from its exchange, which returned `prev`. -/
def Cause.after (prev : Nat) : Cause → Pc
  | grow want => if want > prev then .stamp want prev else .peak want prev
  | base k => .load (.floor k)
  | floor k => if k ≤ prev then .idle else .floored k prev
  | collapse _ _ | force _ => .idle
  | kmax k => .load (.kmin k)
  | kmin k => .load (.hot k)
  | hot _ => .keyed prev

structure State (θ τ : Type) where
  word : BitVec 64
  worker : Nat → Park.State θ τ := fun _ => {}
  thread : θ → Pc := fun _ => .idle
  -- `MonotonicNs()`
  now : Int := 0
  g_lastFloorGrowNs : Int := 0
  g_floorHoldNs : Int := 6000000
  g_floorGrowCap : Nat := 0
  g_streakSpillMax : Nat := 64
  g_awakeFloorPeak : Nat := 0

/-- The number of the workers, and how they wait. -/
structure Pool where
  n : Nat
  condVar : Bool

variable {θ τ : Type} [DecidableEq θ]

def Pool.setup (w : Pool) (i : Nat) : Park.Setup := ⟨i, w.n, w.condVar⟩

namespace State

/-- The worker, as it reads the band word. -/
def look (s : State θ τ) (i : Nat) : Park.State θ τ := { s.worker i with bands := s.word }

def K (s : State θ τ) : Nat := BandField s.word kBandK

def F (s : State θ τ) : Nat := BandField s.word kBandF

def Fbase (s : State θ τ) : Nat := BandField s.word kBandFbase

def goto (s : State θ τ) (t : θ) (pc : Pc) : State θ τ := { s with thread := Function.update s.thread t pc }

def setWorker (s : State θ τ) (i : Nat) (p : Park.State θ τ) : State θ τ :=
  { s with worker := Function.update s.worker i p }

end State

inductive Label (θ τ : Type) where
  | worker (i : Nat)
  | exchange (t : θ)
  | thread (t : θ)
  | crowd (t : θ) (submitted : Nat)
  | push (t : θ) (i : Nat) (q : Park.Queue) (x : τ)
  | setFloor (t : θ) (k : Nat)
  | reset (t : θ)
  | outside

inductive Step (w : Pool) : State θ τ → Label θ τ → State θ τ → Prop where
  -- a worker goes on in its loop, or what else its predicate reads changes
  | worker {s : State θ τ} {i l p} :
    i < w.n →
    l = .worker ∨ l = .cleanup ∨ l = .outside →
    Park.Step (w.setup i) (s.look i) l p →
    Step w s (.worker i) (s.setWorker i p)
  -- a thread pushes to a worker and wakes it
  | push {s : State θ τ} {t i q x p} :
    s.thread t = .idle →
    i < w.n →
    Park.Step (w.setup i) (s.look i) (.push t q x) p →
    Step w s (.push t i q x) ((s.setWorker i p).goto t (.ringing i .idle))
  -- `NoteFloorCrowding`
  | crowding {s : State θ τ} {t submitted} :
    s.thread t = .idle →
    s.g_streakSpillMax ≠ 0 →
    2 ≤ w.n →
    Step w s (.crowd t submitted) (s.goto t (.crowding submitted))
  | snapshot {s : State θ τ} {t submitted} :
    s.thread t = .crowding submitted →
    Step w s (.thread t) (s.goto t (.capped submitted s.word))
  | crowded {s : State θ τ} {t submitted bw} :
    s.thread t = .capped submitted bw →
    Step w s (.thread t)
      (s.goto t (((crowded w.n s.g_floorGrowCap submitted bw).map (.load <| .grow ·)).getD .idle))
  -- `CollapseAwakeFloorToBase`
  | collapsing {s : State θ τ} {t} :
    s.thread t = .idle →
    Step w s (.thread t) (s.goto t .collapsing)
  | collapse {s : State θ τ} {t} :
    s.thread t = .collapsing →
    Step w s (.thread t) (s.goto t (if s.F = s.Fbase then .idle else .clock s.F s.Fbase))
  | clock {s : State θ τ} {t cur base} :
    s.thread t = .clock cur base →
    Step w s (.thread t) (s.goto t (.grown cur base s.now))
  | age {s : State θ τ} {t cur base now} :
    s.thread t = .grown cur base now →
    Step w s (.thread t) (s.goto t (.held cur base (now - s.g_lastFloorGrowNs)))
  | held {s : State θ τ} {t cur base age} :
    s.thread t = .held cur base age →
    Step w s (.thread t) (s.goto t (if age < s.g_floorHoldNs then .idle else .load (.collapse cur base)))
  -- `ForceAwakeFloorToBase`
  | forcing {s : State θ τ} {t} :
    s.thread t = .idle →
    Step w s (.thread t) (s.goto t .forcing)
  | force {s : State θ τ} {t} :
    s.thread t = .forcing →
    Step w s (.thread t) (s.goto t (.load (.force s.Fbase)))
  -- `SetAwakeFloor`
  | setFloor {s : State θ τ} {t k} :
    s.thread t = .idle →
    Step w s (.setFloor t k) (s.goto t (.load (.base k)))
  -- `SetHotWorkers`, `SetHotWorkersEffective`
  | setHot {s : State θ τ} {t k} :
    s.thread t = .idle →
    Step w s (.thread t) (s.goto t (.load (.kmax k)))
  | setHotEffective {s : State θ τ} {t k} :
    s.thread t = .idle →
    Step w s (.thread t) (s.goto t (.load (.hot k)))
  -- `ResetAwakeFloorPeak`
  | resetting {s : State θ τ} {t} :
    s.thread t = .idle →
    Step w s (.reset t) (s.goto t .resetting)
  | reset {s : State θ τ} {t} :
    s.thread t = .resetting →
    Step w s (.thread t) (s.goto t (.reset s.F))
  | resetStore {s : State θ τ} {t f} :
    s.thread t = .reset f →
    Step w s (.thread t) ({ s with g_awakeFloorPeak := f }.goto t .idle)
  -- the loop of a writer
  | load {s : State θ τ} {t c} :
    s.thread t = .load c →
    Step w s (.thread t) (s.goto t (.loop c s.word))
  | exchange {s : State θ τ} {t c cur bw} :
    s.thread t = .loop c cur →
    (c.op w.n).next w.n cur = some bw →
    s.word = cur →
    Step w s (.exchange t) ({ s with word := bw }.goto t (c.after (c.found s.K s.F)))
  | retry {s : State θ τ} {t c cur bw} :
    s.thread t = .loop c cur →
    (c.op w.n).next w.n cur = some bw →
    Step w s (.thread t) (s.goto t (.loop c s.word))
  | refuse {s : State θ τ} {t c cur} :
    s.thread t = .loop c cur →
    (c.op w.n).next w.n cur = none →
    Step w s (.thread t) (s.goto t .idle)
  -- a growth after its exchange
  | stamp {s : State θ τ} {t want prev} :
    s.thread t = .stamp want prev →
    Step w s (.thread t) (s.goto t (.stamped want prev s.now))
  | stamped {s : State θ τ} {t want prev now} :
    s.thread t = .stamped want prev now →
    Step w s (.thread t) ({ s with g_lastFloorGrowNs := now }.goto t (.peak want prev))
  | peak {s : State θ τ} {t want prev} :
    s.thread t = .peak want prev →
    Step w s (.thread t) (s.goto t (.peakLoop want prev s.g_awakeFloorPeak))
  | peakExchange {s : State θ τ} {t want prev seen} :
    s.thread t = .peakLoop want prev seen →
    want > seen →
    s.g_awakeFloorPeak = seen →
    Step w s (.thread t) ({ s with g_awakeFloorPeak := want }.goto t (if want ≤ prev then .idle else .resv want prev))
  | peakRetry {s : State θ τ} {t want prev seen} :
    s.thread t = .peakLoop want prev seen →
    want > seen →
    Step w s (.thread t) (s.goto t (.peakLoop want prev s.g_awakeFloorPeak))
  | peakDone {s : State θ τ} {t want prev seen} :
    s.thread t = .peakLoop want prev seen →
    ¬want > seen →
    Step w s (.thread t) (s.goto t (if want ≤ prev then .idle else .resv want prev))
  | resv {s : State θ τ} {t want prev} :
    s.thread t = .resv want prev →
    Step w s (.thread t)
      (s.goto t (.waking false ((GetBands s.word w.n).k + prev) ((GetBands s.word w.n).k + want) .idle))
  -- `SetAwakeFloor` after its exchange
  | floored {s : State θ τ} {t k prev} :
    s.thread t = .floored k prev →
    Step w s (.thread t) (s.goto t (.waking false (s.K + prev) (s.K + k) .idle))
  -- `SetHotWorkersEffective` after its exchange
  | keyed {s : State θ τ} {t prev} :
    s.thread t = .keyed prev →
    Step w s (.thread t)
      (s.goto t (.waking true (min prev s.K) (max prev s.K) (if prev < s.K then .slide prev s.K else .idle)))
  | slide {s : State θ τ} {t prev eff} :
    s.thread t = .slide prev eff →
    Step w s (.thread t) (s.goto t (.waking false (prev + s.F) (eff + s.F) .idle))
  -- the wakes
  | ring {s : State θ τ} {t i hi next p} {lane : Bool} :
    s.thread t = .waking lane i hi next →
    i < hi →
    i < w.n →
    p = (if lane then { s.look i with laneWake := true } else s.look i).setProducer t .exchange →
    Step w s (.thread t) ((s.setWorker i p).goto t (.ringing i (.waking lane (i + 1) hi next)))
  | woken {s : State θ τ} {t i hi next} {lane : Bool} :
    s.thread t = .waking lane i hi next →
    ¬(i < hi ∧ i < w.n) →
    Step w s (.thread t) (s.goto t next)
  | notify {s : State θ τ} {t i next p} :
    s.thread t = .ringing i next →
    ((s.worker i).producer t) ≠ .idle →
    Park.Step (w.setup i) (s.look i) (.producer t) p →
    Step w s (.thread t) (s.setWorker i p)
  | notified {s : State θ τ} {t i next} :
    s.thread t = .ringing i next →
    (s.worker i).producer t = .idle →
    Step w s (.thread t) (s.goto t next)
  -- the clock and the settings
  | outside {s : State θ τ} {now hold userCap streakSpillMax} :
    s.now ≤ now →
    Step w s .outside
      { s with
        now := now
        g_floorHoldNs := hold
        g_floorGrowCap := userCap
        g_streakSpillMax := streakSpillMax }

end JLib.Floor
