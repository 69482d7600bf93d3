import JLib.LTS.Runs
import JLib.LTS.Ledger

/-!
# Lazy ranges

`ParallelFor`, `RunLazyRange` and the drain loop of a bare caller (`src/TaskScheduler.cpp`), with the
non-worker lane, its claim and the `stealHintParallel` bits, as an interleaving model. A pool has `n`
workers; lane `some w` is the deque of worker `w` and lane `none` the non-worker lane, whose index is `n`.

A context is an application thread, a Native task on a worker or a fiber. What it runs is a stack of
frames, the innermost first, because helping nests: the body of a range may call `ParallelFor` again or
block in a primitive that helps, and a helper runs whatever split it finds. `body` stands for code that
is not the splitter's: it may return, call `ParallelFor` or help at any point. A `ParallelFor` that does
not get the claim runs `RunCursorRange`, which publishes on no lane: it is part of `body`.

A deque is a list with its bottom first; its operations are atomic. One step is one access to a deque, a
hint, a counter or the claim.
-/

namespace JLib.Range
open LTS

/-- Where a context runs. -/
inductive Kind where
  | app
  | native
  | fiber
  deriving Repr, DecidableEq

/-- A published half of a range: the task `RunLazyRange` makes. -/
structure Split where
  id : Nat
  range : Nat
  lo : Int
  hi : Int
  deriving Repr, DecidableEq

/-- Where the drain loop of `ParallelFor` stands. -/
inductive Drain where
  | test
  | pop
  | clear
  | help
  | out
  | release
  deriving Repr, DecidableEq

/-- One activation on the stack of a context. -/
inductive Frame where
  | body
  -- RunLazyRange: at the head of its loop, and while it publishes a split
  | run (r : Nat) (lo hi : Int)
  | counted (r : Nat) (lo hi : Int) (k : Split)
  | hinted (r : Nat) (lo hi : Int) (k : Split)
  | full (r : Nat) (lo hi : Int) (k : Split)
  -- a split between its pickup and its completion
  | exec (k : Split)
  -- ParallelFor after RunLazyRange: the drain loop of a bare caller, WaitFor of a fiber
  | drain (r : Nat) (d : Drain)
  | join (r : Nat)
  deriving Repr, DecidableEq

/-- A pool: who its contexts are, and `GetLazySplitCap`. -/
structure Pool (T : Type) where
  kind : T → Kind
  pendingCap : Nat

variable {T : Type} [DecidableEq T] {n : Nat}

/-- The deques of the workers and the non-worker lane. -/
abbrev Lane (n : Nat) := Option (Fin n)

/-- The index of a lane in `deques`. -/
def Lane.index : Lane n → Nat
  | none => n
  | some w => w

def kMaxHintQueues : Nat := 256

/-- The lanes, their hints, the claim, the counters of the ranges and what everybody runs. -/
structure St (T : Type) (n : Nat) where
  deques : Lane n → List Split := fun _ => []
  stealHintParallel : Lane n → Bool := fun _ => false
  nonWorkerLaneClaimed : Option T := none
  count : Nat → Nat := fun _ => 0
  grain : Nat → Int := fun _ => 0
  ranges : Nat := 0
  tasks : Nat := 0
  stack : T → List Frame := fun _ => []

namespace St

/-- Replace the stack of one context. -/
def put (s : St T n) (t : T) (fs : List Frame) : St T n :=
  { s with stack := Function.update s.stack t fs }

/-- Replace the contents of one deque. -/
def withDeque (s : St T n) (l : Lane n) (ks : List Split) : St T n :=
  { s with deques := Function.update s.deques l ks }

def SetParallelHint (s : St T n) (l : Lane n) : St T n :=
  { s with stealHintParallel :=
      if l.index ≥ kMaxHintQueues then s.stealHintParallel
      else Function.update s.stealHintParallel l true }

def ClearParallelHintIfEmpty (s : St T n) (l : Lane n) (depth : Nat) : St T n :=
  { s with stealHintParallel :=
      if l.index ≥ kMaxHintQueues ∨ depth ≠ 0 then s.stealHintParallel
      else Function.update s.stealHintParallel l false }

/-- The counter of a range goes up. -/
def fetchAdd (s : St T n) (r : Nat) : St T n :=
  { s with count := Function.update s.count r (s.count r + 1) }

/-- The counter of a range goes down. -/
def fetchSub (s : St T n) (r : Nat) : St T n :=
  { s with count := Function.update s.count r (s.count r - 1) }

/-- A new range; the counter of a range starts at zero. -/
def newRange (s : St T n) (g : Int) : St T n :=
  { s with ranges := s.ranges + 1, grain := Function.update s.grain s.ranges g }

/-- The lanes a context may publish on: a worker's own, the non-worker lane for the holder of the claim. -/
def LaneForCurrentThread (s : St T n) (pool : Pool T) (t : T) : Lane n → Prop
  | none => pool.kind t = .app ∧ s.nonWorkerLaneClaimed = some t
  | some _ => pool.kind t ≠ .app

end St

/-- The frames of a task that was picked up: it runs, or `DiscardIfCancelled` throws it away. -/
def start (k : Split) (runs : Bool) (fs : List Frame) : List Frame :=
  if runs then .run k.range k.lo k.hi :: .exec k :: fs else .exec k :: fs

/-- Where a context may pick up a task, and what is left to do when it is done. -/
inductive Helps (kind : Kind) : List Frame → List Frame → Prop where
  | idle :
    kind = .native →
    Helps kind [] []
  | body {fs} :
    kind ≠ .fiber →
    Helps kind (.body :: fs) (.body :: fs)
  | drain {r fs} :
    Helps kind (.drain r .help :: fs) (.drain r .test :: fs)

/-- One step of one context. -/
inductive Next (pool : Pool T) : St T n → T → St T n → Prop where
  -- code that is not the splitter's
  | enter {s t} :
    s.stack t = [] →
    Next pool s t (s.put t [.body])
  | ret {s t fs} :
    s.stack t = .body :: fs →
    Next pool s t (s.put t fs)
  | other {s t fs gs} :
    s.stack t = fs → Helps (pool.kind t) fs gs →
    Next pool s t (s.put t (.body :: gs))
  -- ParallelFor
  | claim {s t fs} (g lo hi : Int) :
    s.stack t = .body :: fs → pool.kind t = .app → s.nonWorkerLaneClaimed = none →
    Next pool s t (St.put { s.newRange g with nonWorkerLaneClaimed := some t } t
      (.run s.ranges lo hi :: .drain s.ranges .test :: .body :: fs))
  | parallelFor {s t fs} (g lo hi : Int) :
    s.stack t = .body :: fs → pool.kind t = .native →
    Next pool s t ((s.newRange g).put t
      (.run s.ranges lo hi :: .drain s.ranges .test :: .body :: fs))
  | parallelForFiber {s t fs} (g lo hi : Int) :
    s.stack t = .body :: fs → pool.kind t = .fiber →
    Next pool s t ((s.newRange g).put t (.run s.ranges lo hi :: .join s.ranges :: .body :: fs))
  -- RunLazyRange
  | split {s t fs r lo hi} (l : Lane n) :
    s.stack t = .run r lo hi :: fs → s.LaneForCurrentThread pool t l → hi - lo > s.grain r →
    ¬(pool.pendingCap ≠ 0 ∧ (s.deques l).length > pool.pendingCap) →
    Next pool s t (St.put { s.fetchAdd r with tasks := s.tasks + 1 } t
      (.counted r lo hi ⟨s.tasks, r, lo + (hi - lo) / 2, hi⟩ :: fs))
  | hint {s t fs r lo hi k} (l : Lane n) :
    s.stack t = .counted r lo hi k :: fs → s.LaneForCurrentThread pool t l →
    Next pool s t ((s.SetParallelHint l).put t (.hinted r lo hi k :: fs))
  | push {s t fs r lo hi k} (l : Lane n) :
    s.stack t = .hinted r lo hi k :: fs → s.LaneForCurrentThread pool t l →
    Next pool s t ((s.withDeque l (k :: s.deques l)).put t (.run r lo k.lo :: fs))
  | full {s t fs r lo hi k} :
    s.stack t = .hinted r lo hi k :: fs →
    Next pool s t (s.put t (.full r lo hi k :: fs))
  | unwind {s t fs r lo hi k} :
    s.stack t = .full r lo hi k :: fs →
    Next pool s t ((s.fetchSub k.range).put t (.body :: fs))
  | leaf {s t fs r lo hi} :
    s.stack t = .run r lo hi :: fs →
    Next pool s t (s.put t (.body :: fs))
  -- a task is picked up from the other end, or by a worker from its own, and completes
  | steal {s t fs gs k r} (l : Lane n) (runs : Bool) :
    s.stack t = fs → Helps (pool.kind t) fs gs → s.deques l = r ++ [k] →
    Next pool s t ((s.withDeque l r).put t (start k runs gs))
  | take {s t k ks} (w : Fin n) (runs : Bool) :
    s.stack t = [] → pool.kind t = .native → s.deques (some w) = k :: ks →
    Next pool s t ((s.withDeque (some w) ks).put t (start k runs []))
  | complete {s t fs k} :
    s.stack t = .exec k :: fs →
    Next pool s t ((s.fetchSub k.range).put t fs)
  -- the drain loop
  | test {s t fs r} :
    s.stack t = .drain r .test :: fs →
    Next pool s t (s.put t (.drain r (if s.count r > 0 then .pop else .out) :: fs))
  | pop {s t fs r k ks} (l : Lane n) (runs : Bool) :
    s.stack t = .drain r .pop :: fs → s.LaneForCurrentThread pool t l → s.deques l = k :: ks →
    Next pool s t ((s.withDeque l ks).put t (start k runs (.drain r .test :: fs)))
  | popEmpty {s t fs r} (l : Lane n) :
    s.stack t = .drain r .pop :: fs → s.LaneForCurrentThread pool t l → s.deques l = [] →
    Next pool s t (s.put t (.drain r .clear :: fs))
  | clear {s t fs r} (l : Lane n) :
    s.stack t = .drain r .clear :: fs → s.LaneForCurrentThread pool t l →
    Next pool s t ((s.ClearParallelHintIfEmpty l 0).put t (.drain r .help :: fs))
  | again {s t fs r} :
    s.stack t = .drain r .help :: fs →
    Next pool s t (s.put t (.drain r .test :: fs))
  | out {s t fs r} (l : Lane n) :
    s.stack t = .drain r .out :: fs → s.LaneForCurrentThread pool t l →
    Next pool s t ((s.ClearParallelHintIfEmpty l 0).put t (.drain r .release :: fs))
  | release {s t fs r} :
    s.stack t = .drain r .release :: fs →
    Next pool s t (St.put
      { s with nonWorkerLaneClaimed :=
          if pool.kind t = .app then none else s.nonWorkerLaneClaimed } t fs)
  | join {s t fs r} :
    s.stack t = .join r :: fs → s.count r = 0 →
    Next pool s t (s.put t fs)
  -- a worker's pass over its own deque
  | pass {s t} (w : Fin n) :
    s.stack t = [] → pool.kind t = .native →
    Next pool s t (s.ClearParallelHintIfEmpty (some w) (s.deques (some w)).length)

end JLib.Range
