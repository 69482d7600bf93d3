import JLib.LTS.Runs
import JLib.LTS.Handoff
import JLib.Sync.Waiter

/-!
# SchedulerMutex

`SchedulerMutex` of `src/TaskScheduler.cpp` (`Lock`, `LockCancellable`, `LockAsyncEnqueue`,
`Try_Lock`, `Unlock`, `CancelWaiters`) as an interleaving model. The parties are fibers, coroutine
tasks and bare threads. One step is one `spinLock` or `holderLock` section, one access to
`bareWaiters`, one operation on `bareMtx` or `bareCv`, one cancellation test, one result write or one
resume; the world is arbitrary at each step. `bareCv` wakes at most one sleeper for a notify, which
one is open, and may wake any sleeper without one. The spin before a fiber suspends only reads and is
left out; so are the counter that stops a bare holder from helping, and the helping itself: a helped
task is a party of its own.

`Local` has the steps that touch the mutex and the moving party's own record, `Step` adds those that
reach into another party's frame. `owner`, `grants` and `gone` are history variables: whose the lock
is, the tickets it was handed to in that order, and the tickets of those waiters that were skipped
or ejected as cancelled.
-/

namespace JLib.Mutex
open LTS

variable {T : Type}

/-- The fields of `SchedulerMutex`, and the history. -/
structure Mtx (T : Type) where
  locked : Bool := false
  lockHolder : Option T := none
  waiters : List (Waiter T) := []
  bareMtx : Option T := none
  bareWaiters : Int := 0
  pushes : Nat := 0
  owner : Option T := none
  grants : List Nat := []
  gone : List Nat := []
  deriving Repr, DecidableEq

namespace Mtx

/-- `locked = true` under `!locked`. -/
def take (m : Mtx T) (t : T) : Mtx T := { m with locked := true, owner := some t }

/-- `locked = false` with the queue empty. -/
def free (m : Mtx T) : Mtx T := { m with locked := false, owner := none }

/-- `waiters.push(Waiter{...})`. -/
def push (m : Mtx T) (t : T) (kind : WaiterKind) (slot : Bool) (token : CancelToken) : Mtx T :=
  { m with waiters := m.waiters ++ [⟨t, kind, slot, token, m.pushes⟩], pushes := m.pushes + 1 }

/-- `lockHolder = task`. -/
def record (m : Mtx T) (task : Option T) : Mtx T := { m with lockHolder := task }

/-- One pass of `CancelWaiters`: cancellable and selected waiters leave, at most `kBuf` of them. -/
def cancelPass (m : Mtx T) (c : World T) (tok : CancelToken) : List (Waiter T) × Mtx T :=
  let r := eject (fun w => w.slot && c.selects tok w.token) kBuf m.waiters
  (r.1, { m with waiters := r.2, gone := m.gone ++ r.1.map (·.ticket) })

/-- `Unlock` passes a cancelled waiter over. -/
def skip (m : Mtx T) (w : Waiter T) : Mtx T := { m with gone := m.gone ++ [w.ticket] }

/-- `Unlock` settles on a waiter. -/
def choose (m : Mtx T) (w : Waiter T) : Mtx T :=
  { m with owner := some w.party, grants := m.grants ++ [w.ticket] }

end Mtx

/-- How a call returned. A plain `Lock()` and a successful `Try_Lock()` are `res .ok`; `violated` is a
contended `Lock()` of a task without a fiber, with a violation hook installed. -/
inductive Ret where
  | res (r : WaitResult)
  | refused
  | violated
  | unlocked
  | ejected
  deriving Repr, DecidableEq

/-- Where a party stands. -/
inductive Pc (T : Type) where
  | idle
  | ret (r : Ret)
  -- Lock() and LockCancellable() on a fiber
  | check (bare : Bool)
  | enter (slot : Bool)
  | parked (slot : Bool)
  | awake (kind : WaiterKind) (slot : Bool)
  | record
  -- Try_Lock(), and the loop around it in LockCancellable()
  | tryEnter
  | cancelTry
  | cancelCheck
  -- LockAsyncEnqueue(); the second flag says which overload
  | asyncEnter (slot tokened : Bool)
  | asyncRecord (slot : Bool)
  | asyncWrite (slot : Bool)
  -- Lock() without a fiber
  | lockTry (native : Bool)
  | bareRegister
  | bareAcquire
  | barePred
  | bareFailed
  | asleep
  | notified
  | bareRecord
  | bareRelease
  | bareDeregister
  -- Unlock()
  | unlHolder
  | unlLoop
  | unlTest (w : Waiter T)
  | unlSkip (w : Waiter T)
  | unlSkipResume (w : Waiter T)
  | unlWrite (w : Waiter T)
  | unlRecord (w : Waiter T)
  | unlResume (w : Waiter T)
  | unlLoad
  | unlBareLock
  | unlBareUnlock
  | unlNotify
  -- CancelWaiters(tok)
  | canEnter (tok : CancelToken)
  | canWrite (tok : CancelToken) (w : Waiter T) (rest : List (Waiter T)) (full : Bool)
  | canResume (tok : CancelToken) (w : Waiter T) (rest : List (Waiter T)) (full : Bool)
  deriving Repr, DecidableEq

/-- The calls, `Unlock` apart. -/
inductive Op where
  | lock
  | lockCancellable
  | lockBare
  | lockNative
  | lockCancellableBare
  | tryLock
  | lockAsyncEnqueue (slot tokened : Bool)
  | cancelWaiters (tok : CancelToken)
  deriving Repr, DecidableEq

/-- The first thing each call does. The overload of `LockAsyncEnqueue` without a result has no token
either. -/
def Op.entry : Op → Pc T
  | lock => .enter false
  | lockCancellable => .check false
  | lockBare => .lockTry false
  | lockNative => .lockTry true
  | lockCancellableBare => .check true
  | tryLock => .tryEnter
  | lockAsyncEnqueue slot tokened => .asyncEnter (slot && tokened) tokened
  | cancelWaiters tok => .canEnter tok

/-- Go on with the victims of a `CancelWaiters` pass; a pass that filled its buffer is repeated. -/
def Pc.canNext (tok : CancelToken) (full : Bool) : List (Waiter T) → Pc T
  | [] => if full then .canEnter tok else .ret .ejected
  | w :: ws => .canWrite tok w ws full

/-- The waiters a call holds in its local variables. -/
def Pc.hand : Pc T → List (Waiter T)
  | .unlTest w | .unlSkip w | .unlSkipResume w | .unlWrite w | .unlRecord w | .unlResume w => [w]
  | .canWrite _ w ws _ | .canResume _ w ws _ => w :: ws
  | _ => []

/-- A party. `holds` says that a call of it returned with the lock and it has not called `Unlock`
since; `got` that the current call was given the lock. -/
structure Thread (T : Type) where
  pc : Pc T := .idle
  slot : WaitResult := .ok
  holds : Bool := false
  got : Bool := false
  deriving Repr, DecidableEq

/-- The mutex and all its callers. -/
structure St (T : Type) where
  mx : Mtx T := {}
  th : T → Thread T := fun _ => {}

/-- The steps that stay with the mutex and the moving party's own record. -/
inductive Local (c : World T) (t : T) : Mtx T → Thread T → Mtx T → Thread T → Prop where
  -- calls and returns
  | call {m h} (op : Op) :
    h.pc = .idle →
    Local c t m h m { h with pc := op.entry, slot := .ok, got := false }
  | callUnlock {m h} :
    h.pc = .idle → h.holds →
    Local c t m h m { h with pc := .unlHolder, holds := false }
  | done {m h r} :
    h.pc = .ret r →
    Local c t m h m { h with pc := .idle, holds := h.holds || r = .res .ok }
  -- Lock() and LockCancellable() on a fiber
  | checkCancelled {m h b} :
    h.pc = .check b → c.isTaskCancelled t →
    Local c t m h m { h with pc := .ret (.res .cancelled) }
  | checkPass {m h b} :
    h.pc = .check b → ¬c.isTaskCancelled t →
    Local c t m h m { h with pc := if b then .cancelTry else .enter true }
  | enterTake {m h sl} :
    h.pc = .enter sl → m.locked = false →
    Local c t m h (m.take t) { h with pc := .record, got := true }
  | enterPush {m h sl} :
    h.pc = .enter sl → m.locked = true →
    Local c t m h (m.push t .fiber sl (if sl then c.tokenOf t else .kNone))
      { h with pc := .parked sl }
  | awakeCancelled {m h k} :
    h.pc = .awake k true → h.slot = .cancelled →
    Local c t m h m { h with pc := .ret (.res .cancelled) }
  | awakeOk {m h k sl} :
    h.pc = .awake k sl → (sl = true → h.slot = .ok) →
    Local c t m h m { h with pc := if k = .fiber then .record else .ret (.res .ok) }
  | record {m h} :
    h.pc = .record →
    Local c t m h (m.record (c.currentTask t)) { h with pc := .ret (.res .ok) }
  -- Try_Lock(), and the loop around it in LockCancellable()
  | tryTake {m h} :
    h.pc = .tryEnter → m.locked = false →
    Local c t m h (m.take t) { h with pc := .record, got := true }
  | tryFail {m h} :
    h.pc = .tryEnter → m.locked = true →
    Local c t m h m { h with pc := .ret .refused }
  | cancelTake {m h} :
    h.pc = .cancelTry → m.locked = false →
    Local c t m h (m.take t) { h with pc := .record, got := true }
  | cancelFail {m h} :
    h.pc = .cancelTry → m.locked = true →
    Local c t m h m { h with pc := .cancelCheck }
  | cancelCancelled {m h} :
    h.pc = .cancelCheck → c.isTaskCancelled t →
    Local c t m h m { h with pc := .ret (.res .cancelled) }
  | cancelAgain {m h} :
    h.pc = .cancelCheck → ¬c.isTaskCancelled t →
    Local c t m h m { h with pc := .cancelTry }
  -- LockAsyncEnqueue()
  | asyncTake {m h sl sc} :
    h.pc = .asyncEnter sl sc → m.locked = false →
    Local c t m h (m.take t) { h with pc := .asyncRecord sl, got := true }
  | asyncPush {m h sl sc} :
    h.pc = .asyncEnter sl sc → m.locked = true →
    Local c t m h (m.push t .coro sl (if sc then c.tokenOf t else .kNone)) { h with pc := .parked sl }
  | asyncRecord {m h sl} :
    h.pc = .asyncRecord sl →
    Local c t m h (m.record (some t)) { h with pc := .asyncWrite sl }
  | asyncWrite {m h sl} :
    h.pc = .asyncWrite sl →
    Local c t m h m { h with pc := .ret (.res .ok), slot := if sl then .ok else h.slot }
  -- Lock() without a fiber
  | lockTake {m h n} :
    h.pc = .lockTry n → m.locked = false →
    Local c t m h (m.take t) { h with pc := .record, got := true }
  | lockViolation {m h} :
    h.pc = .lockTry true → m.locked = true →
    Local c t m h m { h with pc := .ret .violated }
  | lockFail {m h} :
    h.pc = .lockTry false → m.locked = true →
    Local c t m h m { h with pc := .bareRegister }
  | bareRegister {m h} :
    h.pc = .bareRegister →
    Local c t m h { m with bareWaiters := m.bareWaiters + 1 } { h with pc := .bareAcquire }
  | bareAcquire {m h} :
    h.pc = .bareAcquire ∨ h.pc = .notified → m.bareMtx = none →
    Local c t m h { m with bareMtx := some t } { h with pc := .barePred }
  | barePredTake {m h} :
    h.pc = .barePred → m.locked = false →
    Local c t m h (m.take t) { h with pc := .bareRecord, got := true }
  | barePredFail {m h} :
    h.pc = .barePred → m.locked = true →
    Local c t m h m { h with pc := .bareFailed }
  | bareSleep {m h} :
    h.pc = .bareFailed →
    Local c t m h { m with bareMtx := none } { h with pc := .asleep }
  | spuriousWake {m h} :
    h.pc = .asleep →
    Local c t m h m { h with pc := .notified }
  | bareRecord {m h} :
    h.pc = .bareRecord →
    Local c t m h (m.record (c.currentTask t)) { h with pc := .bareRelease }
  | bareRelease {m h} :
    h.pc = .bareRelease →
    Local c t m h { m with bareMtx := none } { h with pc := .bareDeregister }
  | bareDeregister {m h} :
    h.pc = .bareDeregister →
    Local c t m h { m with bareWaiters := m.bareWaiters - 1 } { h with pc := .ret (.res .ok) }
  -- Unlock()
  | unlHolder {m h} :
    h.pc = .unlHolder →
    Local c t m h (m.record none) { h with pc := .unlLoop }
  | unlPop {m h w ws} :
    h.pc = .unlLoop → m.waiters = w :: ws →
    Local c t m h { m with waiters := ws } { h with pc := .unlTest w }
  | unlFree {m h} :
    h.pc = .unlLoop → m.waiters = [] →
    Local c t m h m.free { h with pc := .unlLoad }
  | unlTestSkip {m h w} :
    h.pc = .unlTest w → (w.slot && c.isTaskCancelled w.party) = true →
    Local c t m h (m.skip w) { h with pc := .unlSkip w }
  | unlTestChoose {m h w} :
    h.pc = .unlTest w → (w.slot && c.isTaskCancelled w.party) = false →
    Local c t m h (m.choose w) { h with pc := .unlWrite w }
  | unlRecord {m h w} :
    h.pc = .unlRecord w →
    Local c t m h (m.record (some w.party)) { h with pc := .unlResume w }
  | unlLoadZero {m h} :
    h.pc = .unlLoad → m.bareWaiters = 0 →
    Local c t m h m { h with pc := .ret .unlocked }
  | unlLoadSome {m h} :
    h.pc = .unlLoad → m.bareWaiters ≠ 0 →
    Local c t m h m { h with pc := .unlBareLock }
  | unlBareLock {m h} :
    h.pc = .unlBareLock → m.bareMtx = none →
    Local c t m h { m with bareMtx := some t } { h with pc := .unlBareUnlock }
  | unlBareUnlock {m h} :
    h.pc = .unlBareUnlock →
    Local c t m h { m with bareMtx := none } { h with pc := .unlNotify }
  -- CancelWaiters(tok)
  | canPass {m h tok} :
    h.pc = .canEnter tok →
    Local c t m h (m.cancelPass c tok).2 { h with
      pc := .canNext tok (kBuf ≤ (m.cancelPass c tok).1.length) (m.cancelPass c tok).1 }

variable [DecidableEq T]

namespace St

/-- Replace what one party looks like. -/
def set (s : St T) (t : T) (h : Thread T) : St T := { s with th := Function.update s.th t h }

/-- A party moves on. -/
def goto (s : St T) (t : T) (pc : Pc T) : St T := s.set t { s.th t with pc := pc }

/-- `*result = r` through a waiter's result pointer; nothing for a null pointer. -/
def writeSlot (s : St T) (w : Waiter T) (r : WaitResult) : St T :=
  s.set w.party { s.th w.party with slot := if w.slot then r else (s.th w.party).slot }

/-- `Thread::Resume(fiber)` or `Push(coro)`: the waiter runs again, with the lock or without. -/
def resume (s : St T) (w : Waiter T) (got : Bool) : St T :=
  s.set w.party { s.th w.party with pc := .awake w.kind w.slot, got := got }

end St

/-- One step of one party. -/
inductive Step (c : World T) : St T → T → St T → Prop where
  | here {s t m h} :
    Local c t s.mx (s.th t) m h →
    Step c s t { mx := m, th := Function.update s.th t h }
  -- Unlock() passes a waiter over
  | unlSkip {s t w} :
    (s.th t).pc = .unlSkip w →
    Step c s t ((s.writeSlot w .cancelled).goto t (.unlSkipResume w))
  | unlSkipResume {s t w} :
    (s.th t).pc = .unlSkipResume w →
    Step c s t ((s.resume w false).goto t .unlLoop)
  -- Unlock() hands the lock over; a coroutine is recorded as the holder first
  | unlWrite {s t w} :
    (s.th t).pc = .unlWrite w →
    Step c s t ((s.writeSlot w .ok).goto t (if w.kind = .coro then .unlRecord w else .unlResume w))
  | unlResume {s t w} :
    (s.th t).pc = .unlResume w →
    Step c s t ((s.resume w true).goto t (.ret .unlocked))
  -- bareCv.notify_one()
  | notifyOne {s t u} :
    (s.th t).pc = .unlNotify → (s.th u).pc = .asleep →
    Step c s t ((s.goto u .notified).goto t (.ret .unlocked))
  | notifyNone {s t} :
    (s.th t).pc = .unlNotify → (∀ u, (s.th u).pc ≠ .asleep) →
    Step c s t (s.goto t (.ret .unlocked))
  -- CancelWaiters(tok)
  | canWrite {s t tok w ws f} :
    (s.th t).pc = .canWrite tok w ws f →
    Step c s t ((s.writeSlot w .cancelled).goto t (.canResume tok w ws f))
  | canResume {s t tok w ws f} :
    (s.th t).pc = .canResume tok w ws f →
    Step c s t ((s.resume w false).goto t (.canNext tok f ws))

/-- One step of the system: the world it sees and the party that moves. -/
abbrev Next (s : St T) (a : World T × T) (s' : St T) : Prop := Step a.1 s a.2 s'

/-- The initial state: a new mutex and nobody inside a call. -/
def init (T : Type) : St T := {}

end JLib.Mutex
