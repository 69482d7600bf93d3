import JLib.LTS.Runs
import Mathlib.Algebra.Order.Ring.Int

/-!
# One call of `ParallelFor`

`ParallelFor`, `RunLazyRange` and `RunCursorRange` of `src/TaskScheduler.cpp`, for one call: the caller, the tasks
that it and they make, the shared cursor and the `WaitGroup`. A task is run by whoever takes it, at any time; where
it waits for that, and whether `RunLazyRange` finds a lane or room on it, is left open. The width of a range comes
out of floating point and is any number that the clamp allows.

An `int` wraps around where it overflows. `overflow` notes that an `int` computation has left the range; with
`past`, the calls of `func` that are over, it is read by no step. A call that runs is part of the activity it is
in.
-/

namespace JLib.ParallelFor
open LTS

def INT_MAX : Int := 2147483647

/-- The value is one of an `int`. -/
def InInt (x : Int) : Prop := -2147483648 ≤ x ∧ x ≤ INT_MAX

instance (x : Int) : Decidable (InInt x) := inferInstanceAs (Decidable (_ ∧ _))

def int (x : Int) : Int := (x + 2147483648) % 4294967296 - 2147483648

/-- An unsigned computation of 64 bits. -/
def size (x : Nat) : Nat := x % 18446744073709551616

def kMinGrain : Int := 16

def kProbeFloorNs : Int := 500

/-- `WAITER_BIT` of a `WaitGroup`, of which the lower bits are the count. -/
def WAITER_BIT : Nat := 1073741824

/-- The pool and the settings that a call reads. -/
structure Config where
  parallelForSerial : Bool
  poolActive : Bool
  workers : Nat
  measuredWidth : Bool
  rememberedCost : Bool
  minItersPerWorker : Nat
  leavesPerWorker : Nat
  leaves_pos : 0 < leavesPerWorker

/-- There is nobody to share the range with. -/
def Config.Serial (cfg : Config) : Prop := cfg.parallelForSerial = true ∨ cfg.poolActive = false ∨ cfg.workers = 0

/-- The locals of the probe. -/
structure Probe where
  probed : Int := 0
  chunk : Int := 1
  probeNs : Int := 0
  probeLen : Int := 0
  tPrev : Int

namespace Probe

def probeCap (len : Int) : Int := if len.tdiv 32 < 1 then 1 else len.tdiv 32

def take (p : Probe) (cap : Int) : Int := if p.chunk > cap - p.probed then cap - p.probed else p.chunk

/-- The clock reads `tNow` after a chunk. -/
def read (p : Probe) (cap tNow : Int) : Probe :=
  let take := p.take cap
  let d := if tNow > p.tPrev then tNow - p.tPrev else 1
  let want := (take * kProbeFloorNs).tdiv d
  let want := if want < take * 2 then take * 2 else want
  let want := if want > cap then cap else want
  let best := tNow > p.tPrev ∧ take ≥ p.probeLen
  { probed := p.probed + take
    chunk := want
    probeNs := if best then tNow - p.tPrev else p.probeNs
    probeLen := if best then take else p.probeLen
    tPrev := tNow }

end Probe

/-- What the caller or a task is about. -/
inductive Act where
  -- `RunLazyRange`: at the head of the loop; with a task for `[mid, hi)` made and counted; in the leaf
  | split (lo hi : Int)
  | counted (lo mid hi : Int)
  | leaf (lo hi : Int)
  -- a lane of `RunCursorRange`: at the cursor, in a slice
  | lane
  | slice (lo hi : Int)
  -- the leaf is over, or the lane is
  | finished (r : Option (Int × Int))

structure Shared where
  grain : Int := 1
  -- the cursor of `RunCursorRange`
  cursor : Option Int := none
  -- the count of the `WaitGroup`
  count : Nat := 0
  past : List (Int × Int) := []
  overflow : Bool := false

/-- These are results of `int` computations. -/
def Shared.note (sh : Shared) (xs : List Int) : Shared :=
  { sh with overflow := sh.overflow || xs.any fun x => !decide (InInt x) }

inductive Pc where
  | enter
  -- at the head of the probe loop, in a chunk, behind the loop
  | probe (p : Probe)
  | probing (p : Probe)
  | probed (p : Probe)
  -- `func(lo, end)` of a fall-back
  | serial (lo : Int)
  -- `haveWidth`
  | fan (lo : Int) (fanWidth : Nat)
  -- `RunCursorRange`: before the lanes, with so many of them still to be made
  | cursor (lo : Int)
  | spawn (lanes : Nat)
  | act (a : Act)
  | wait
  | returned

structure State where
  sh : Shared := {}
  pc : Pc := .enter
  tasks : List Act := []

inductive Label where
  | enter
  | cursor (hot : Nat)
  | fetch
  | other

/-- One step of an activity in a range that ends at `stop`, and the tasks that it publishes. -/
inductive Act.Step (stop : Int) : Shared → Act → Label → Shared → Act → List Act → Prop where
  | split {sh : Shared} {lo hi} :
    int (hi - lo) > sh.grain →
    Step stop sh (split lo hi) .other
      ({ sh with count := sh.count + 1 }.note [hi - lo, lo + (int (hi - lo)).tdiv 2])
      (counted lo (int (lo + (int (hi - lo)).tdiv 2)) hi) []
  | push {sh : Shared} {lo mid hi} :
    Step stop sh (counted lo mid hi) .other sh (split lo mid) [split mid hi]
  -- the deque is full
  | full {sh : Shared} {lo mid hi} :
    Step stop sh (counted lo mid hi) .other { sh with count := sh.count - 1 } (leaf lo hi) []
  -- the range is small, or there is no lane, no demand or no task
  | leaf {sh : Shared} {lo hi} :
    Step stop sh (split lo hi) .other (sh.note [hi - lo]) (leaf lo hi) []
  | ret {sh : Shared} {lo hi} :
    Step stop sh (leaf lo hi) .other sh (finished (some (lo, hi))) []
  | fetch {sh : Shared} {lo} :
    sh.cursor = some lo →
    lo < stop →
    Step stop sh lane .fetch ({ sh with cursor := some (int (lo + sh.grain)) }.note [lo + sh.grain])
      (slice lo (if int (lo + sh.grain) > stop then stop else int (lo + sh.grain))) []
  | fetchOver {sh : Shared} {lo} :
    sh.cursor = some lo →
    stop ≤ lo →
    Step stop sh lane .fetch ({ sh with cursor := some (int (lo + sh.grain)) }.note [lo + sh.grain])
      (finished none) []
  | sliceRet {sh : Shared} {lo hi} :
    Step stop sh (slice lo hi) .other { sh with past := sh.past ++ [(lo, hi)] } lane []

/-- The grain of a call, which the overload without one derives. -/
def Config.grain (cfg : Config) (begin stop : Int) : Option Int → Int
  | some grain => grain
  | none =>
    let leaves := max 1 (cfg.workers * 8)
    int (max 1 (((int (stop - begin)).toNat + leaves - 1) / leaves) : Nat)

/-- The grain of the splitter, for `len` items. -/
def splitGrain (cfg : Config) (grain len : Int) (fanWidth : Nat) : Int :=
  let maxLeaves := size (fanWidth * cfg.leavesPerWorker)
  max (max (max 1 grain) (int ↑(size (len.toNat + maxLeaves - 1) / maxLeaves))) kMinGrain

/-- The grain of the cursor, for `total` items and `W` workers. -/
def cursorGrain (grain total W : Int) : Int := max (max grain (int ((total + W * 64 - 1).tdiv (W * 64)))) 64

def cursorLanes (grain total W : Int) : Int := min W (max 1 ((total + grain - 1).tdiv grain))

inductive Step (cfg : Config) (begin stop grain : Int) : State → Label → State → Prop where
  | enterEmpty {s : State} :
    s.pc = .enter →
    int (stop - begin) ≤ 0 →
    Step cfg begin stop grain s .enter { s with sh := s.sh.note [stop - begin], pc := .returned }
  | enterSerial {s : State} :
    s.pc = .enter →
    int (stop - begin) > 0 →
    cfg.Serial →
    Step cfg begin stop grain s .enter { s with sh := s.sh.note [stop - begin], pc := .serial begin }
  -- the cost of the body is remembered
  | enterRemembered {s : State} (k : Nat) :
    s.pc = .enter →
    int (stop - begin) > 0 →
    ¬cfg.Serial →
    cfg.measuredWidth = true →
    cfg.rememberedCost = true →
    k ≤ cfg.workers →
    Step cfg begin stop grain s .enter
      { s with sh := s.sh.note [stop - begin], pc := if k < 2 then .serial begin else .fan begin k }
  | enterProbe {s : State} (t : Int) :
    s.pc = .enter →
    int (stop - begin) > 0 →
    ¬cfg.Serial →
    cfg.measuredWidth = true →
    Step cfg begin stop grain s .enter { s with sh := s.sh.note [stop - begin], pc := .probe { tPrev := t } }
  | enterUnmeasured {s : State} :
    s.pc = .enter →
    int (stop - begin) > 0 →
    ¬cfg.Serial →
    cfg.measuredWidth = false →
    Step cfg begin stop grain s .enter
      { s with
        sh := s.sh.note [stop - begin, int cfg.workers * int cfg.minItersPerWorker]
        pc :=
          if int (stop - begin) < int (int cfg.workers * int cfg.minItersPerWorker) then .serial begin
          else .fan begin cfg.workers }
  | probe {s : State} {p : Probe} :
    s.pc = .probe p →
    p.probed < Probe.probeCap (int (stop - begin)) →
    Step cfg begin stop grain s .other
      { s with
        sh := s.sh.note [begin + p.probed, begin + p.probed + p.take (Probe.probeCap (int (stop - begin)))]
        pc := .probing p }
  | probeOver {s : State} {p : Probe} :
    s.pc = .probe p →
    Probe.probeCap (int (stop - begin)) ≤ p.probed →
    Step cfg begin stop grain s .other { s with pc := .probed p }
  | probing {s : State} {p : Probe} (tNow : Int) :
    s.pc = .probing p →
    Step cfg begin stop grain s .other
      { s with
        sh := { s.sh with
          past := s.sh.past ++
            [(begin + p.probed, begin + p.probed + p.take (Probe.probeCap (int (stop - begin))))] }.note
              [p.probed + p.take (Probe.probeCap (int (stop - begin)))]
        pc :=
          let p' := p.read (Probe.probeCap (int (stop - begin))) tNow
          if p'.probeNs ≥ kProbeFloorNs then .probed p' else .probe p' }
  | probedAll {s : State} {p : Probe} :
    s.pc = .probed p →
    stop ≤ int (begin + p.probed) →
    Step cfg begin stop grain s .other { s with sh := s.sh.note [begin + p.probed], pc := .returned }
  | probedCheap {s : State} {p : Probe} :
    s.pc = .probed p →
    int (begin + p.probed) < stop →
    p.probeNs < kProbeFloorNs →
    Step cfg begin stop grain s .other
      { s with sh := s.sh.note [begin + p.probed], pc := .serial (int (begin + p.probed)) }
  | probed {s : State} {p : Probe} (k : Nat) :
    s.pc = .probed p →
    int (begin + p.probed) < stop →
    kProbeFloorNs ≤ p.probeNs →
    k ≤ cfg.workers →
    Step cfg begin stop grain s .other
      { s with
        sh := s.sh.note [begin + p.probed]
        pc := if k < 2 then .serial (int (begin + p.probed)) else .fan (int (begin + p.probed)) k }
  | serial {s : State} {lo} :
    s.pc = .serial lo →
    Step cfg begin stop grain s .other
      { s with sh := { s.sh with past := s.sh.past ++ [(lo, stop)] }, pc := .returned }
  -- the caller has a lane, or there is none for it
  | fan {s : State} {lo fanWidth} (lane : Bool) :
    s.pc = .fan lo fanWidth →
    Step cfg begin stop grain s .other
      { s with
        sh := { s.sh with grain := splitGrain cfg grain (int (stop - lo)) fanWidth }.note [stop - lo]
        pc := if lane then .act (.split lo stop) else .cursor lo }
  -- the range is not empty and neither is the pool: that has been asked before
  | cursor {s : State} {lo} (hot : Nat) :
    s.pc = .cursor lo →
    Step cfg begin stop grain s (.cursor hot)
      { s with
        sh := { s.sh with
          grain := cursorGrain s.sh.grain (stop - lo) (int (cfg.workers - hot))
          cursor := some lo
          count := (cursorLanes (cursorGrain s.sh.grain (stop - lo) (int (cfg.workers - hot))) (stop - lo)
            (int (cfg.workers - hot))).toNat }
        pc := .spawn (cursorLanes (cursorGrain s.sh.grain (stop - lo) (int (cfg.workers - hot))) (stop - lo)
          (int (cfg.workers - hot))).toNat }
  | spawn {s : State} {w} :
    s.pc = .spawn (w + 1) →
    Step cfg begin stop grain s .other { s with pc := .spawn w, tasks := s.tasks ++ [.lane] }
  -- no task, or no place for it
  | spawnFails {s : State} {w} :
    s.pc = .spawn (w + 1) →
    Step cfg begin stop grain s .other
      { s with sh := { s.sh with count := s.sh.count - 1 }, pc := .spawn w }
  | spawned {s : State} :
    s.pc = .spawn 0 →
    Step cfg begin stop grain s .other { s with pc := .act .lane }
  | act {s : State} {a l sh a' new} :
    s.pc = .act a →
    Act.Step stop s.sh a l sh a' new →
    Step cfg begin stop grain s l { sh := sh, pc := .act a', tasks := s.tasks ++ new }
  | finish {s : State} {r : Option (Int × Int)} :
    s.pc = .act (.finished r) →
    Step cfg begin stop grain s .other
      { s with sh := { s.sh with past := s.sh.past ++ r.toList }, pc := .wait }
  | return {s : State} :
    s.pc = .wait →
    s.sh.count = 0 →
    Step cfg begin stop grain s .other { s with pc := .returned }
  -- the tasks
  | task {s : State} {as bs a l sh a' new} :
    s.tasks = as ++ a :: bs →
    Act.Step stop s.sh a l sh a' new →
    Step cfg begin stop grain s l { s with sh := sh, tasks := as ++ a' :: bs ++ new }
  | complete {s : State} {as bs} {r : Option (Int × Int)} :
    s.tasks = as ++ .finished r :: bs →
    Step cfg begin stop grain s .other
      { s with sh := { s.sh with count := s.sh.count - 1, past := s.sh.past ++ r.toList }, tasks := as ++ bs }

end JLib.ParallelFor
