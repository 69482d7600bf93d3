import JLib.Semaphore.Permits
import JLib.Mutex.Exclusive

/-!
# SchedulerConditionVariable

`SchedulerConditionVariable` of `src/TaskScheduler.cpp` (`Wait`, `WaitCancellable`, `Notify_One`,
`Notify_All`, `CancelWaiters`) over the models of the two primitives it is built from: one
`SchedulerMutex`, and the `SchedulerSemaphore(0, 1)` that each waiting call keeps in its own stack
frame. A semaphore is named by the number of waits before it, so `waitingQueue` holds such numbers
where the source holds raw pointers, and a semaphore is alive as long as some party is inside the call
that constructed it.

A party runs the steps of `mutex` and of a semaphore inside its own call, one at a time; the calls into
them start and end at the places where the source makes them. Outside condition variable calls every
party uses the mutex as it likes. `taker` and `result` are history variables: which call took a waiter
out of the queue, and what the waiting call returned.
-/

namespace JLib.CondVar
open LTS

variable {T : Type} [DecidableEq T]

/-- A queued waiter: its semaphore and its scope. -/
structure CvWaiter where
  sem : Nat
  token : CancelToken
  deriving Repr, DecidableEq

/-- How a call returned. -/
inductive Ret where
  | res (r : WaitResult)
  | notified
  | ejected
  deriving Repr, DecidableEq

/-- Where a party stands. -/
inductive Pc where
  | idle
  | ret (r : Ret)
  -- Wait() and WaitCancellable() on a fiber, with its semaphore once there is one
  | check
  | push (slot : Bool)
  | unlock (k : Nat) (slot : Bool)
  | unlocking (k : Nat) (slot : Bool)
  | semWait (k : Nat) (slot : Bool)
  | waiting (k : Nat) (slot : Bool)
  | sweep (k : Nat)
  | lock (k : Nat) (r : WaitResult)
  | locking (k : Nat) (r : WaitResult)
  -- the same without a fiber
  | bareCheck (native : Bool)
  | bareUnlock (slot native : Bool)
  | bareUnlocking (slot native : Bool)
  | bareLock (slot native : Bool)
  | bareLocking (slot : Bool)
  | bareEnd (slot : Bool)
  -- Notify_One() and Notify_All()
  | notify (all : Bool)
  | signal (k : Nat) (rest : List Nat)
  | signalling (k : Nat) (rest : List Nat)
  -- CancelWaiters(tok)
  | canEnter (tok : CancelToken)
  | cancel (tok : CancelToken) (k : Nat) (rest : List Nat) (full : Bool)
  | cancelling (tok : CancelToken) (k : Nat) (rest : List Nat) (full : Bool)
  deriving Repr, DecidableEq

namespace Pc

/-- The semaphore in the frame of a waiting call. -/
def own : Pc → Option Nat
  | unlock k _ | unlocking k _ | semWait k _ | waiting k _ | sweep k | lock k _ | locking k _ => some k
  | _ => none

/-- The semaphores taken out of the queue and still to be seen to. -/
def hand : Pc → List Nat
  | signal k ks | signalling k ks | cancel _ k ks _ | cancelling _ k ks _ => k :: ks
  | _ => []

/-- The semaphore a call of this party is inside. -/
def active : Pc → Option Nat
  | waiting k _ | signalling k _ | cancelling _ k _ _ => some k
  | _ => none

/-- Inside `mutex.Unlock()` or `mutex.Lock()`. -/
def inMutex : Pc → Bool
  | unlocking _ _ | locking _ _ | bareUnlocking _ _ | bareLocking _ => true
  | _ => false

/-- Go on with the semaphores a `Notify` took out. -/
def signalNext : List Nat → Pc
  | [] => ret .notified
  | k :: ks => signal k ks

/-- Go on with the victims of a `CancelWaiters` pass; a pass that filled its buffer is repeated. -/
def canNext (tok : CancelToken) (full : Bool) : List Nat → Pc
  | [] => if full then canEnter tok else ret .ejected
  | k :: ks => cancel tok k ks full

end Pc

/-- Who took a waiter out of the queue. `rest` is what a `Notify_One` left in it. -/
inductive Taker where
  | notifyOne (rest : List Nat)
  | notifyAll
  | cancelWaiters
  deriving Repr, DecidableEq

/-- A party; `found` and `took` are the history of its last `Notify`: whether it was a `Notify_One` that
found a waiter, and what was taken out. -/
structure Thread where
  pc : Pc := .idle
  found : Bool := false
  took : List Nat := []
  deriving Repr, DecidableEq

/-- The condition variable, its mutex, the semaphores of all waits and all the callers. -/
structure St (T : Type) where
  mx : Mutex.St T
  sem : Nat → Semaphore.St T
  queue : List CvWaiter
  next : Nat
  th : T → Thread
  taker : Nat → Option Taker
  result : Nat → Option WaitResult

/-- The semaphore `k` is in the frame of a call that has not returned. -/
def St.Alive (s : St T) (k : Nat) : Prop := ∃ i, (s.th i).pc.own = some k

namespace St

/-- Replace what one party looks like. -/
def set (s : St T) (t : T) (h : Thread) : St T := { s with th := Function.update s.th t h }

/-- A party moves on. -/
def goto (s : St T) (t : T) (pc : Pc) : St T := s.set t { s.th t with pc := pc }

/-- The mutex looks like this. -/
def withMx (s : St T) (m : Mutex.St T) : St T := { s with mx := m }

/-- A semaphore looks like this. -/
def withSem (s : St T) (k : Nat) (m : Semaphore.St T) : St T :=
  { s with sem := Function.update s.sem k m }

/-- The queue looks like this. -/
def withQueue (s : St T) (q : List CvWaiter) : St T := { s with queue := q }

/-- The waiters `ks` have been taken out. -/
def withTaker (s : St T) (ks : List Nat) (x : Taker) : St T :=
  { s with taker := fun j => if j ∈ ks then some x else s.taker j }

/-- The waiting call with semaphore `k` has returned. -/
def withResult (s : St T) (k : Nat) (r : WaitResult) : St T :=
  { s with result := Function.update s.result k (some r) }

/-- Calling into semaphore `k`. -/
def semCall (s : St T) (k : Nat) (t : T) (op : Semaphore.Op) : St T :=
  s.withSem k ((s.sem k).set t { pc := op.entry })

/-- Coming back from semaphore `k`. -/
def semDone (s : St T) (k : Nat) (t : T) : St T := s.withSem k ((s.sem k).goto t .idle)

/-- Calling `mutex.Unlock()`. -/
def unlockCall (s : St T) (t : T) : St T :=
  s.withMx (s.mx.set t { s.mx.th t with pc := .unlHolder, holds := false })

/-- Calling `mutex.Lock()`. -/
def lockCall (s : St T) (t : T) (op : Mutex.Op) : St T :=
  s.withMx (s.mx.set t { s.mx.th t with pc := op.entry, slot := .ok, got := false })

/-- Coming back from `mutex.Unlock()`. -/
def unlockDone (s : St T) (t : T) : St T := s.withMx (s.mx.goto t .idle)

/-- Coming back from `mutex.Lock()` with the lock. -/
def lockDone (s : St T) (t : T) : St T :=
  s.withMx (s.mx.set t { s.mx.th t with pc := .idle, holds := true })

/-- A waiting call queues its new semaphore. -/
def enqueue (s : St T) (t : T) (slot : Bool) (token : CancelToken) : St T :=
  St.goto { s with queue := s.queue ++ [⟨s.next, token⟩], next := s.next + 1 } t
    (.unlock s.next slot)

/-- A `Notify` takes the first waiter, or all of them, out of the queue. -/
def dequeue (s : St T) (t : T) (all : Bool) : St T :=
  let ks := if all then s.queue.map (·.sem) else (s.queue.map (·.sem)).take 1
  ((s.withQueue (if all then [] else s.queue.tail)).withTaker ks
    (if all then .notifyAll else .notifyOne (s.queue.tail.map (·.sem)))).set t
    { pc := .signalNext ks, found := !all && !s.queue.isEmpty, took := ks }

/-- One pass of `CancelWaiters` over the queue. -/
def cancelPass (s : St T) (c : World T) (tok : CancelToken) : List CvWaiter × List CvWaiter :=
  eject (fun w => c.selects tok w.token) kBuf s.queue

variable (s : St T) (t : T)

/-- The party is where it went. -/
@[simp] lemma goto_pc (p : Pc) : ((s.goto t p).th t).pc = p := by simp [goto, set]

/-- A wait that has queued goes on to let go of the mutex. -/
@[simp] lemma enqueue_pc (sl : Bool) (tok : CancelToken) :
    ((s.enqueue t sl tok).th t).pc = .unlock s.next sl := goto_pc _ _ _

/-- A `Notify` goes on to signal what it took. -/
@[simp] lemma dequeue_pc (all : Bool) : ((s.dequeue t all).th t).pc =
    .signalNext (if all then s.queue.map (·.sem) else (s.queue.map (·.sem)).take 1) := by
  simp [dequeue, set]

end St

/-- The initial state. -/
def init (T : Type) : St T where
  mx := Mutex.init T
  sem _ := Semaphore.init (.new 0 1)
  queue := []
  next := 0
  th _ := {}
  taker _ := none
  result _ := none

/-- One step of one party. -/
inductive Step (c : World T) : St T → T → St T → Prop where
  -- user code around the condition variable: anything the mutex allows
  | user {s t m} :
    (s.th t).pc = .idle → Mutex.Step c s.mx t m →
    Step c s t (s.withMx m)
  -- calls; a waiting call is made with the mutex held
  | callWait {s t} (slot : Bool) :
    (s.th t).pc = .idle → (s.mx.th t).pc = .idle → (s.mx.th t).holds →
    Step c s t (s.goto t (if slot then .check else .push false))
  | callBareWait {s t} (slot native : Bool) :
    (s.th t).pc = .idle → (s.mx.th t).pc = .idle → (s.mx.th t).holds →
    Step c s t (s.goto t (if slot then .bareCheck native else .bareUnlock false native))
  | callNotify {s t} (all : Bool) :
    (s.th t).pc = .idle → (s.mx.th t).pc = .idle →
    Step c s t (s.goto t (.notify all))
  | callCancel {s t} (tok : CancelToken) :
    (s.th t).pc = .idle → (s.mx.th t).pc = .idle →
    Step c s t (s.goto t (.canEnter tok))
  | done {s t r} :
    (s.th t).pc = .ret r →
    Step c s t (s.goto t .idle)
  -- Wait() and WaitCancellable() on a fiber
  | checkCancelled {s t} :
    (s.th t).pc = .check → c.isTaskCancelled t →
    Step c s t (s.goto t (.ret (.res .cancelled)))
  | checkPass {s t} :
    (s.th t).pc = .check → ¬c.isTaskCancelled t →
    Step c s t (s.goto t (.push true))
  | pushCancelled {s t} :
    (s.th t).pc = .push true → c.isTaskCancelled t →
    Step c s t (s.goto t (.ret (.res .cancelled)))
  | push {s t sl} :
    (s.th t).pc = .push sl → (sl && c.isTaskCancelled t) = false →
    Step c s t (s.enqueue t sl (if sl then c.tokenOf t else .kNone))
  | unlock {s t k sl} :
    (s.th t).pc = .unlock k sl → (s.mx.th t).pc = .idle → (s.mx.th t).holds →
    Step c s t ((s.unlockCall t).goto t (.unlocking k sl))
  | unlocked {s t k sl} :
    (s.th t).pc = .unlocking k sl → (s.mx.th t).pc = .ret .unlocked →
    Step c s t ((s.unlockDone t).goto t (.semWait k sl))
  | semWait {s t k sl} :
    (s.th t).pc = .semWait k sl → ((s.sem k).th t).pc = .idle →
    Step c s t ((s.semCall k t (if sl then .waitCancellable else .wait)).goto t (.waiting k sl))
  | waited {s t k sl r} :
    (s.th t).pc = .waiting k sl → ((s.sem k).th t).pc = .ret (.res r) →
    Step c s t ((s.semDone k t).goto t (if r = .cancelled then .sweep k else .lock k r))
  | sweep {s t k} :
    (s.th t).pc = .sweep k →
    Step c s t ((s.withQueue (s.queue.filter (·.sem ≠ k))).goto t (.lock k .cancelled))
  | lock {s t k r} :
    (s.th t).pc = .lock k r → (s.mx.th t).pc = .idle →
    Step c s t ((s.lockCall t .lock).goto t (.locking k r))
  | locked {s t k r} :
    (s.th t).pc = .locking k r → (s.mx.th t).pc = .ret (.res .ok) →
    Step c s t (((s.lockDone t).withResult k r).goto t (.ret (.res r)))
  -- the same without a fiber
  | bareCancelled {s t n} :
    (s.th t).pc = .bareCheck n → c.isTaskCancelled t →
    Step c s t (s.goto t (.ret (.res .cancelled)))
  | barePass {s t n} :
    (s.th t).pc = .bareCheck n → ¬c.isTaskCancelled t →
    Step c s t (s.goto t (.bareUnlock true n))
  | bareUnlock {s t sl n} :
    (s.th t).pc = .bareUnlock sl n → (s.mx.th t).pc = .idle → (s.mx.th t).holds →
    Step c s t ((s.unlockCall t).goto t (.bareUnlocking sl n))
  | bareUnlocked {s t sl n} :
    (s.th t).pc = .bareUnlocking sl n → (s.mx.th t).pc = .ret .unlocked →
    Step c s t ((s.unlockDone t).goto t (.bareLock sl n))
  | bareLock {s t sl n} :
    (s.th t).pc = .bareLock sl n → (s.mx.th t).pc = .idle →
    Step c s t ((s.lockCall t (if n then .lockNative else .lockBare)).goto t (.bareLocking sl))
  | bareLocked {s t sl} :
    (s.th t).pc = .bareLocking sl → (s.mx.th t).pc = .ret (.res .ok) →
    Step c s t ((s.lockDone t).goto t (.bareEnd sl))
  | bareEnd {s t sl} :
    (s.th t).pc = .bareEnd sl →
    Step c s t (s.goto t (.ret (.res (if sl && c.isTaskCancelled t then .cancelled else .ok))))
  -- inside mutex.Unlock() or mutex.Lock()
  | mutex {s t m} :
    (s.th t).pc.inMutex → (s.mx.th t).pc ≠ .idle → (∀ r, (s.mx.th t).pc ≠ .ret r) →
    Mutex.Step c s.mx t m →
    Step c s t (s.withMx m)
  -- inside Wait(), WaitCancellable(), Signal() or CancelWaiters() of a semaphore
  | inside {s t k m} :
    (s.th t).pc.active = some k → ((s.sem k).th t).pc ≠ .idle →
    (∀ r, ((s.sem k).th t).pc ≠ .ret r) → Semaphore.Step c (s.sem k) t m →
    Step c s t (s.withSem k m)
  -- Notify_One() and Notify_All()
  | notify {s t all} :
    (s.th t).pc = .notify all →
    Step c s t (s.dequeue t all)
  | signal {s t k ks} :
    (s.th t).pc = .signal k ks → ((s.sem k).th t).pc = .idle →
    Step c s t ((s.semCall k t .signal).goto t (.signalling k ks))
  | signalled {s t k ks} :
    (s.th t).pc = .signalling k ks → ((s.sem k).th t).pc = .ret .signalled →
    Step c s t ((s.semDone k t).goto t (.signalNext ks))
  -- CancelWaiters(tok)
  | canPass {s t tok} :
    (s.th t).pc = .canEnter tok →
    Step c s t (((s.withQueue (s.cancelPass c tok).2).withTaker
      ((s.cancelPass c tok).1.map (·.sem)) .cancelWaiters).goto t
      (.canNext tok (kBuf ≤ (s.cancelPass c tok).1.length) ((s.cancelPass c tok).1.map (·.sem))))
  | cancel {s t tok k ks f} :
    (s.th t).pc = .cancel tok k ks f → ((s.sem k).th t).pc = .idle →
    Step c s t ((s.semCall k t (.cancelWaiters tok)).goto t (.cancelling tok k ks f))
  | cancelled {s t tok k ks f} :
    (s.th t).pc = .cancelling tok k ks f → ((s.sem k).th t).pc = .ret .ejected →
    Step c s t ((s.semDone k t).goto t (.canNext tok f ks))

/-- One step of the system: the world it sees and the party that moves. -/
abbrev Next (s : St T) (a : World T × T) (s' : St T) : Prop := Step a.1 s a.2 s'

end JLib.CondVar
