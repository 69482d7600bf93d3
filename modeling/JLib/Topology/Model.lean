import Mathlib.Algebra.Order.Ring.Int
import Mathlib.Logic.Function.Basic
import Mathlib.Tactic.Lemma
import Mathlib.Tactic.TypeStar

/-!
# Topology and placement

`topology::Info` of `include/Topology.h` and what is made of it in `src/TaskScheduler.cpp`: the tables of
`BuildTopology`, and the CPU that `StartPool` gives each worker. Both read the same topology. The four words of a
`CpuMask` are one word of 256 bits; an index of -1 is `none`; workers are numbers below the size of the pool.
`hardware_concurrency()` and `GetSafeTC()` are arguments. The table of the classes of CPUs is left out.
-/

namespace JLib.Topology

def kMaxCpus : Nat := 256

abbrev CpuMask := BitVec 256

namespace CpuMask

def Test (m : CpuMask) (c : Nat) : Bool := m.getLsbD c

def Count (m : CpuMask) : Nat := (List.range kMaxCpus).countP m.Test

/-- The CPUs of a mask, ascending. -/
def cpus (m : CpuMask) : List Nat := (List.range kMaxCpus).filter m.Test

end CpuMask

structure Info where
  -- one for each physical core
  coreMasks : List CpuMask
  -- one for each cache, of all levels
  cacheMasks : List CpuMask
  haveCores : Bool
  haveCache : Bool
  -- -1 is unknown
  efficiencyClass : Nat → Int
  maxClass : Int

inductive AffinityPolicy where
  | Hard
  | Ideal
  | None
  | PhysicalOnly
  deriving DecidableEq

/-! ## StartPool -/

namespace Info

/-- The first CPU of every core, if the policy wants one worker on each and there are two cores at least. -/
def physicalCpus (topo : Info) (policy : AffinityPolicy) : List Nat :=
  if policy = .PhysicalOnly ∧ topo.haveCores = true then
    let firsts := topo.coreMasks.filterMap fun m => m.cpus.head?
    if firsts.length ≥ 2 then firsts else []
  else []

/-- Every CPU of a core, ascending. -/
def logicalCpus (topo : Info) : List Nat :=
  if topo.haveCores then (topo.coreMasks.foldl (· ||| ·) (0 : CpuMask)).cpus else []

/-- `num_workers`, of a pool that is asked for so many. -/
def numWorkers (topo : Info) (policy : AffinityPolicy) (hw safeTC poolSize : Nat) : Nat :=
  let poolSize := if poolSize = 0 then safeTC else poolSize
  let poolSize := min poolSize (if hw = 0 then 4 else hw)
  if topo.physicalCpus policy ≠ [] then (topo.physicalCpus policy).length - 1 else poolSize

/-- The CPU of worker `i`. -/
def cpu (topo : Info) (policy : AffinityPolicy) (i : Nat) : Nat :=
  if topo.physicalCpus policy ≠ [] then (topo.physicalCpus policy).getD (i + 1) 0
  else if topo.logicalCpus.length > i + 1 then topo.logicalCpus.getD (i + 1) 0
  else i + 1

end Info

/-! ## BuildTopology -/

/-- `qIndexOf`. -/
def qIndexOf (num_workers logicalCpu : Nat) : Option Nat :=
  if logicalCpu < 1 then none else if logicalCpu - 1 < num_workers then some (logicalCpu - 1) else none

def qsInGroup (num_workers : Nat) (mask : CpuMask) : List Nat := mask.cpus.filterMap (qIndexOf num_workers)

/-- One core. -/
def pairUp (num_workers : Nat) (sibling : Nat → Option Nat) (mask : CpuMask) : Nat → Option Nat :=
  match qsInGroup num_workers mask with
  | [a, b] => Function.update (Function.update sibling a (some b)) b (some a)
  | _ => sibling

/-- One worker of a cache: the largest group is kept. -/
def keepLargest (sibling : Nat → Option Nat) (qs : List Nat) (mates : Nat → List Nat) (q : Nat) : Nat → List Nat :=
  if qs.length > (mates q).length + 1 then
    Function.update mates q (qs.filter fun other => other ≠ q ∧ some other ≠ sibling q)
  else mates

/-- One cache. -/
def gather (num_workers : Nat) (sibling : Nat → Option Nat) (mates : Nat → List Nat) (mask : CpuMask) :
    Nat → List Nat :=
  let qs := qsInGroup num_workers mask
  if qs.length < 2 then mates else qs.foldl (keepLargest sibling qs) mates

/-- One mask that may be the widest one of a CPU. -/
def widen (cpu : Nat) (best : Nat × CpuMask) (mask : CpuMask) : Nat × CpuMask :=
  if mask.Test cpu = false then best else if mask.Count > best.1 then (mask.Count, mask) else best

namespace Info

def isPCore (topo : Info) (num_workers : Nat) : Nat → Bool :=
  (List.range kMaxCpus).foldl (fun label cpu =>
    if topo.efficiencyClass cpu ≥ 0 ∧ topo.efficiencyClass cpu < topo.maxClass then
      match qIndexOf num_workers cpu with
      | some q => Function.update label q false
      | none => label
    else label) fun _ => true

def siblingQIndex (topo : Info) (num_workers : Nat) : Nat → Option Nat :=
  if topo.haveCores then topo.coreMasks.foldl (pairUp num_workers) fun _ => none else fun _ => none

/-- Without caches the pool is one cluster. -/
def clusterMates (topo : Info) (num_workers : Nat) : Nat → List Nat :=
  if topo.haveCache then topo.cacheMasks.foldl (gather num_workers (topo.siblingQIndex num_workers)) fun _ => []
  else fun q => (List.range num_workers).filter fun other => other ≠ q ∧ some other ≠ topo.siblingQIndex num_workers q

def llcMaskOfWorker (topo : Info) (q : Nat) : CpuMask :=
  if topo.haveCache = true ∧ q + 1 < kMaxCpus then (topo.cacheMasks.foldl (widen (q + 1)) (0, 0)).2 else 0

def matesSameClass (topo : Info) (num_workers q : Nat) : List Nat :=
  (topo.clusterMates num_workers q).filter fun m => topo.isPCore num_workers m == topo.isPCore num_workers q

def matesOtherClass (topo : Info) (num_workers q : Nat) : List Nat :=
  (topo.clusterMates num_workers q).filter fun m => !(topo.isPCore num_workers m == topo.isPCore num_workers q)

end Info

end JLib.Topology
