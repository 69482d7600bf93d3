import JLib.Park.Model

/-!
# The shared lane intake

`PushLaneIntake` of `src/TaskScheduler.cpp`: low-latency tasks go into one queue that the `K` reserved workers share,
and as many of these as there are tasks are told, those first that are not in a body. The queue belongs to no worker,
so no drain finds what is left in it while the reserved workers sleep. Any number of threads push, each worker goes
through its loop and its park gate (`Park`) and is woken for other reasons too, and the pool is active.

`LaneIntakeIdle` reads `size_approx()`, which can lag an enqueue that has not returned; a dequeue can fail although
the queue holds something, and takes any of its tasks.
-/

namespace JLib.Intake
open LTS Bands

/-- Where a thread is in `PushLaneIntake`. -/
inductive Pc (τ : Type) where
  | idle
  | hot (tasks : List τ)
  | enqueue (tasks : List τ)
  -- the tasks are in the queue, and `enqueue_bulk` is to return
  | enqueued (n : Nat)
  | stamp (n : Nat) (now : Int)
  | limit (n : Nat)
  -- the loop over the reserved workers, and what it does to one
  | scan (i woke lim want : Nat)
  | mark (i : Nat) (next : Pc τ)
  | ringing (i : Nat) (next : Pc τ)
  deriving DecidableEq

structure State (θ τ : Type) where
  word : BitVec 64
  intake : List τ := []
  worker : Nat → Park.State θ τ := fun _ => {}
  busy : Nat → Bool := fun _ => false
  thread : θ → Pc τ := fun _ => .idle
  -- `MonotonicNs()`
  now : Int := 0
  g_ioLastPushNs : Int := 0

/-- The number of the workers, and how they wait. -/
structure Pool where
  n : Nat
  condVar : Bool

variable {θ τ : Type} [DecidableEq θ]

def Pool.setup (w : Pool) (i : Nat) : Park.Setup := ⟨i, w.n, w.condVar⟩

namespace State

/-- `GetHotWorkers`. -/
def K (s : State θ τ) : Nat := BandField s.word kBandK

/-- What `LaneIntakeIdle` may say: it is right about the queue unless an enqueue is to return. -/
def LaneIntakeIdle (s : State θ τ) (idle : Bool) : Prop :=
  idle = true → s.intake = [] ∨ ∃ t n, s.thread t = .enqueued n

/-- The worker, as it reads the band word and the queue. -/
def look (s : State θ τ) (i : Nat) (idle : Bool) : Park.State θ τ :=
  { s.worker i with bands := s.word, intakeIdle := idle }

def goto (s : State θ τ) (t : θ) (pc : Pc τ) : State θ τ := { s with thread := Function.update s.thread t pc }

def setWorker (s : State θ τ) (i : Nat) (p : Park.State θ τ) : State θ τ :=
  { s with worker := Function.update s.worker i p }

end State

inductive Label (θ τ : Type) where
  | worker (i : Nat)
  | producer (t : θ) (i : Nat)
  | pushLaneIntake (t : θ) (tasks : List τ)
  | thread (t : θ)
  | bands (bw : BitVec 64)
  | outside

inductive Step (w : Pool) : State θ τ → Label θ τ → State θ τ → Prop where
  -- a worker goes on in its loop, or what else its predicate reads changes
  | worker {s : State θ τ} {i idle m p} :
    i < w.n →
    s.LaneIntakeIdle idle →
    m = .worker ∨ m = .cleanup ∨ m = .outside →
    Park.Step (w.setup i) (s.look i idle) m p →
    Step w s (.worker i) (s.setWorker i p)
  -- a reserved worker looks into the intake before anything else
  | take {s : State θ τ} {i l x r} :
    i < w.n →
    (s.worker i).pc = .search →
    (s.worker i).isReservedWorker = true →
    (s.worker i).task_to_run = none →
    s.intake = l ++ x :: r →
    Step w s (.worker i) ({ s with intake := l ++ r }.setWorker i { s.look i false with task_to_run := some x })
  | body {s : State θ τ} {i b} :
    Step w s (.worker i) { s with busy := Function.update s.busy i b }
  -- a thread that is not in `PushLaneIntake` pushes to a worker and wakes it
  | producer {s : State θ τ} {t i idle m p} :
    s.thread t = .idle →
    i < w.n →
    m = .producer t ∨ (∃ q x, m = .push t q x) →
    Park.Step (w.setup i) (s.look i idle) m p →
    Step w s (.producer t i) (s.setWorker i p)
  -- `PushLaneIntake`
  | call {s : State θ τ} {t tasks} :
    s.thread t = .idle →
    tasks ≠ [] →
    Step w s (.pushLaneIntake t tasks) (s.goto t (.hot tasks))
  | hot {s : State θ τ} {t tasks} :
    s.thread t = .hot tasks →
    Step w s (.thread t) (s.goto t (if s.K = 0 then .idle else .enqueue tasks))
  | enqueueFails {s : State θ τ} {t tasks} :
    s.thread t = .enqueue tasks →
    Step w s (.thread t) (s.goto t .idle)
  | enqueue {s : State θ τ} {t tasks} :
    s.thread t = .enqueue tasks →
    Step w s (.thread t) ({ s with intake := s.intake ++ tasks }.goto t (.enqueued tasks.length))
  | clock {s : State θ τ} {t n} :
    s.thread t = .enqueued n →
    Step w s (.thread t) (s.goto t (.stamp n s.now))
  | stamp {s : State θ τ} {t n now} :
    s.thread t = .stamp n now →
    Step w s (.thread t) ({ s with g_ioLastPushNs := now }.goto t (.limit n))
  | limit {s : State θ τ} {t n} :
    s.thread t = .limit n →
    Step w s (.thread t) (s.goto t (.scan 0 0 (min s.K w.n) (min n (min s.K w.n))))
  | scan {s : State θ τ} {t i woke lim want} :
    s.thread t = .scan i woke lim want →
    i < lim →
    woke < want →
    Step w s (.thread t)
      (s.goto t
        (if s.busy i then .scan (i + 1) woke lim want else .mark i (.scan (i + 1) (woke + 1) lim want)))
  -- every reserved worker is in a body: the first is told
  | scanned {s : State θ τ} {t i woke lim want} :
    s.thread t = .scan i woke lim want →
    ¬(i < lim ∧ woke < want) →
    Step w s (.thread t) (s.goto t (if woke = 0 ∧ 0 < lim then .mark 0 .idle else .idle))
  -- `MarkQueuedWork`, `NotifyWorker`
  | mark {s : State θ τ} {t i next p} :
    s.thread t = .mark i next →
    (s.worker i).producer t = .idle →
    p = { s.worker i with hasQueuedWork := true }.setProducer t .exchange →
    Step w s (.thread t) ((s.setWorker i p).goto t (.ringing i next))
  | notify {s : State θ τ} {t i idle next p} :
    s.thread t = .ringing i next →
    (s.worker i).producer t ≠ .idle →
    Park.Step (w.setup i) (s.look i idle) (.producer t) p →
    Step w s (.thread t) (s.setWorker i p)
  | notified {s : State θ τ} {t i next} :
    s.thread t = .ringing i next →
    (s.worker i).producer t = .idle →
    Step w s (.thread t) (s.goto t next)
  -- the bands and the clock
  | bands {s : State θ τ} {bw} :
    Step w s (.bands bw) { s with word := bw }
  | outside {s : State θ τ} {now} :
    s.now ≤ now →
    Step w s .outside { s with now := now }

end JLib.Intake
