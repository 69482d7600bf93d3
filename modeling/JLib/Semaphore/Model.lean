import JLib.LTS.Runs
import JLib.LTS.Handoff
import JLib.Sync.Waiter
import Mathlib.Logic.Function.Basic

/-!
# SchedulerSemaphore

`SchedulerSemaphore` of `src/TaskScheduler.cpp` (`Wait`, `WaitCancellable`, `WaitAsyncEnqueue`,
`Try_Wait`, `Signal`, `CancelWaiters`) as an interleaving model. Any number of parties (fibers,
coroutine tasks, bare threads) call any of the operations; one step is one `spinLock` critical
section, one cancellation test, one result write or one resume. The scheduler is up throughout, so
`IsInitialized()` is true and a coroutine waiter is always pushed.

The critical sections are the functions on `Sem`; `Step` says which of them a call runs next. A step
sees an arbitrary `World`: scopes and tasks may be cancelled between any two steps. `got` and `log` are
history variables that no step reads: how many permits the current call consumed, and what the
current `Signal` did with its permit.
-/

namespace JLib.Semaphore
open LTS

variable {T : Type} [DecidableEq T]

/-- The fields of `SchedulerSemaphore`. `pushes` counts the pushes, for the waiters' tickets. -/
structure Sem (T : Type) where
  permits : Int
  maxPermits : Int
  waiters : List (Waiter T)
  pushes : Nat
  deriving Repr, DecidableEq

namespace Sem

/-- `SchedulerSemaphore(initialPermits, maxPermits)`. -/
def new (initialPermits maxPermits : Int) : Sem T := ⟨initialPermits, maxPermits, [], 0⟩

/-- `--permits`, under `permits > 0`. -/
def take (m : Sem T) : Sem T := { m with permits := m.permits - 1 }

/-- `waiters.push(Waiter{...})`. -/
def push (m : Sem T) (t : T) (kind : WaiterKind) (slot : Bool) (token : CancelToken) : Sem T :=
  { m with waiters := m.waiters ++ [⟨t, kind, slot, token, m.pushes⟩], pushes := m.pushes + 1 }

/-- `if (permits < maxPermits) ++permits;`. -/
def put (m : Sem T) : Sem T :=
  if m.permits < m.maxPermits then { m with permits := m.permits + 1 } else m

/-- One pass of `CancelWaiters`: cancellable and selected waiters leave, at most `kBuf` of them. -/
def cancelPass (m : Sem T) (c : World T) (tok : CancelToken) : List (Waiter T) × Sem T :=
  let r := eject (fun w => w.slot && c.selects tok w.token) kBuf m.waiters
  (r.1, { m with waiters := r.2 })

end Sem

/-- What a `Signal` did with its permit: `granted` carries the receiver's result slot as it stood when
the receiver was resumed, `dropped` the permit count that stopped the increment. -/
inductive Outcome (T : Type) where
  | granted (w : Waiter T) (r : WaitResult)
  | incremented
  | dropped (permits : Int)
  deriving Repr, DecidableEq

/-- How a call returned. A plain `Wait()` and a successful `Try_Wait()` are `res .ok`; `settled` is the
`true` of a `WaitAsyncEnqueue` without a result slot whose task was cancelled. -/
inductive Ret where
  | res (r : WaitResult)
  | refused
  | settled
  | signalled
  | ejected
  deriving Repr, DecidableEq

/-- Where a party stands. The flag is "has a result slot" throughout. -/
inductive Pc (T : Type) where
  | idle
  | ret (r : Ret)
  -- Wait() and WaitCancellable() on a fiber
  | check (bare : Bool)
  | enter (slot : Bool)
  | parked (slot : Bool)
  | awake (slot : Bool)
  -- the bare-thread loop around Try_Wait(), and Try_Wait() itself
  | bareTry (slot : Bool)
  | bareCheck
  | tryEnter
  -- WaitAsyncEnqueue()
  | asyncEnter (slot : Bool)
  | asyncWrite (slot : Bool) (r : WaitResult)
  -- Signal()
  | sigEnter
  | sigTest (w : Waiter T) (empty : Bool)
  | sigWrite (w : Waiter T) (empty skip : Bool)
  | sigResume (w : Waiter T) (empty skip : Bool)
  | sigRetake (empty : Bool)
  -- CancelWaiters(tok)
  | canEnter (tok : CancelToken)
  | canWrite (tok : CancelToken) (w : Waiter T) (rest : List (Waiter T)) (full : Bool)
  | canResume (tok : CancelToken) (w : Waiter T) (rest : List (Waiter T)) (full : Bool)
  deriving Repr, DecidableEq

/-- The calls. -/
inductive Op where
  | wait
  | waitCancellable
  | bareWait
  | bareWaitCancellable
  | tryWait
  | waitAsyncEnqueue (slot : Bool)
  | signal
  | cancelWaiters (tok : CancelToken)
  deriving Repr, DecidableEq

/-- The first thing each call does. -/
def Op.entry : Op → Pc T
  | wait => .enter false
  | waitCancellable => .check false
  | bareWait => .bareTry false
  | bareWaitCancellable => .check true
  | tryWait => .tryEnter
  | waitAsyncEnqueue slot => .asyncEnter slot
  | signal => .sigEnter
  | cancelWaiters tok => .canEnter tok

/-- Pop the next waiter, as both critical sections of `Signal` do. -/
def Pc.sigPop (w : Waiter T) (ws : List (Waiter T)) : Pc T := .sigTest w ws.isEmpty

/-- Go on with the victims of a `CancelWaiters` pass; a pass that filled its buffer is repeated. -/
def Pc.canNext (tok : CancelToken) (full : Bool) : List (Waiter T) → Pc T
  | [] => if full then .canEnter tok else .ret .ejected
  | w :: ws => .canWrite tok w ws full

/-- The waiters a call holds in its local variables: popped and not yet resumed. -/
def Pc.hand : Pc T → List (Waiter T)
  | .sigTest w _ => [w]
  | .sigWrite w _ _ => [w]
  | .sigResume w _ _ => [w]
  | .canWrite _ w ws _ => w :: ws
  | .canResume _ w ws _ => w :: ws
  | _ => []

/-- A party: its program counter, its `result` slot and the history variables. -/
structure Thread (T : Type) where
  pc : Pc T := .idle
  slot : WaitResult := .ok
  got : Nat := 0
  log : List (Outcome T) := []
  deriving Repr, DecidableEq

/-- The semaphore and all its callers. -/
structure St (T : Type) where
  sem : Sem T
  th : T → Thread T

namespace St

/-- The critical section left the semaphore like this. -/
def withSem (s : St T) (m : Sem T) : St T := { s with sem := m }

/-- Replace what one party looks like. -/
def set (s : St T) (t : T) (th : Thread T) : St T := { s with th := Function.update s.th t th }

/-- A party moves on. -/
def goto (s : St T) (t : T) (pc : Pc T) : St T := s.set t { s.th t with pc := pc }

/-- A party takes a permit for its own call. -/
def takeFor (s : St T) (t : T) (pc : Pc T) : St T :=
  (s.withSem s.sem.take).set t { s.th t with pc := pc, got := (s.th t).got + 1 }

/-- `*result = r` through a waiter's result pointer; nothing for a null pointer. -/
def writeSlot (s : St T) (w : Waiter T) (r : WaitResult) : St T :=
  s.set w.party { s.th w.party with slot := if w.slot then r else (s.th w.party).slot }

/-- What putting a permit back comes to. -/
def putOutcome (s : St T) : Outcome T :=
  if s.sem.permits < s.sem.maxPermits then .incremented else .dropped s.sem.permits

/-- A `Signal` puts its permit back and returns. -/
def putBack (s : St T) (t : T) : St T :=
  (s.withSem s.sem.put).set t
    { s.th t with pc := .ret .signalled, log := (s.th t).log ++ [s.putOutcome] }

/-- `Thread::Resume(fiber)` or `Push(coro)`: the waiter runs again. -/
def resume (s : St T) (w : Waiter T) : St T := s.goto w.party (.awake w.slot)

/-- A `Signal` resumes the waiter it hands the permit to. -/
def grant (s : St T) (t : T) (w : Waiter T) : St T :=
  let s1 := s.set t { s.th t with
    pc := .ret .signalled
    log := (s.th t).log ++ [.granted w (s.th w.party).slot] }
  s1.set w.party { s1.th w.party with pc := .awake w.slot, got := (s1.th w.party).got + 1 }

end St

/-- The initial state: nobody is inside a call. -/
def init (m : Sem T) : St T := ⟨m, fun _ => {}⟩

/-- One step of one party. -/
inductive Step (c : World T) : St T → T → St T → Prop where
  -- calls and returns
  | call {s t} (op : Op) :
    (s.th t).pc = .idle →
    Step c s t (s.set t { pc := op.entry })
  | done {s t r} :
    (s.th t).pc = .ret r →
    Step c s t (s.goto t .idle)
  -- Wait() / WaitCancellable(): the test at the top
  | checkCancelled {s t b} :
    (s.th t).pc = .check b → c.isTaskCancelled t →
    Step c s t (s.goto t (.ret (.res .cancelled)))
  | checkPass {s t b} :
    (s.th t).pc = .check b → ¬c.isTaskCancelled t →
    Step c s t (s.goto t (if b then .bareTry true else .enter true))
  -- the critical section of the fiber path
  | enterTake {s t sl} :
    (s.th t).pc = .enter sl → s.sem.permits > 0 →
    Step c s t (s.takeFor t (.ret (.res .ok)))
  | enterCancelled {s t} :
    (s.th t).pc = .enter true → ¬s.sem.permits > 0 → c.isTaskCancelled t →
    Step c s t (s.goto t (.ret (.res .cancelled)))
  | enterPush {s t sl} :
    (s.th t).pc = .enter sl → ¬s.sem.permits > 0 → (sl && c.isTaskCancelled t) = false →
    Step c s t ((s.withSem (s.sem.push t .fiber sl (if sl then c.tokenOf t else .kNone))).goto t
      (.parked sl))
  | awake {s t sl} :
    (s.th t).pc = .awake sl →
    Step c s t (s.goto t (.ret (.res (if sl then (s.th t).slot else .ok))))
  -- the bare-thread loops; a failed Try_Wait of a plain Wait() changes nothing and is no step
  | bareTake {s t sl} :
    (s.th t).pc = .bareTry sl → s.sem.permits > 0 →
    Step c s t (s.takeFor t (.ret (.res .ok)))
  | bareFail {s t} :
    (s.th t).pc = .bareTry true → ¬s.sem.permits > 0 →
    Step c s t (s.goto t .bareCheck)
  | bareCancelled {s t} :
    (s.th t).pc = .bareCheck → c.isTaskCancelled t →
    Step c s t (s.goto t (.ret (.res .cancelled)))
  | bareAgain {s t} :
    (s.th t).pc = .bareCheck → ¬c.isTaskCancelled t →
    Step c s t (s.goto t (.bareTry true))
  | tryTake {s t} :
    (s.th t).pc = .tryEnter → s.sem.permits > 0 →
    Step c s t (s.takeFor t (.ret (.res .ok)))
  | tryFail {s t} :
    (s.th t).pc = .tryEnter → ¬s.sem.permits > 0 →
    Step c s t (s.goto t (.ret .refused))
  -- WaitAsyncEnqueue(): the own result write is outside the lock
  | asyncTake {s t sl} :
    (s.th t).pc = .asyncEnter sl → s.sem.permits > 0 →
    Step c s t (s.takeFor t (.asyncWrite sl .ok))
  | asyncCancelled {s t sl} :
    (s.th t).pc = .asyncEnter sl → ¬s.sem.permits > 0 → c.isTaskCancelled t →
    Step c s t (s.goto t (.asyncWrite sl .cancelled))
  | asyncPush {s t sl} :
    (s.th t).pc = .asyncEnter sl → ¬s.sem.permits > 0 → ¬c.isTaskCancelled t →
    Step c s t ((s.withSem (s.sem.push t .coro sl (c.tokenOf t))).goto t (.parked sl))
  | asyncWrite {s t sl r} :
    (s.th t).pc = .asyncWrite sl r →
    Step c s t (s.set t { s.th t with
      slot := if sl then r else (s.th t).slot
      pc := .ret (if sl then .res r else if r = .ok then .res .ok else .settled) })
  -- Signal()
  | sigEmpty {s t} :
    (s.th t).pc = .sigEnter → s.sem.waiters = [] →
    Step c s t (s.putBack t)
  | sigPop {s t w ws} :
    (s.th t).pc = .sigEnter → s.sem.waiters = w :: ws →
    Step c s t ((s.withSem { s.sem with waiters := ws }).goto t (.sigPop w ws))
  | sigTest {s t w e} :
    (s.th t).pc = .sigTest w e →
    Step c s t (s.goto t (.sigWrite w e (w.slot && c.isTaskCancelled w.party)))
  | sigWrite {s t w e skip} :
    (s.th t).pc = .sigWrite w e skip →
    Step c s t ((s.writeSlot w (if skip then .cancelled else .ok)).goto t (.sigResume w e skip))
  | sigGrant {s t w e} :
    (s.th t).pc = .sigResume w e false →
    Step c s t (s.grant t w)
  | sigSkip {s t w e} :
    (s.th t).pc = .sigResume w e true →
    Step c s t ((s.resume w).goto t (.sigRetake e))
  | sigBack {s t e} :
    (s.th t).pc = .sigRetake e → (e = true ∨ s.sem.waiters = []) →
    Step c s t (s.putBack t)
  | sigNext {s t w ws} :
    (s.th t).pc = .sigRetake false → s.sem.waiters = w :: ws →
    Step c s t ((s.withSem { s.sem with waiters := ws }).goto t (.sigPop w ws))
  -- CancelWaiters(tok)
  | canPass {s t tok} :
    (s.th t).pc = .canEnter tok →
    Step c s t ((s.withSem (s.sem.cancelPass c tok).2).goto t
      (.canNext tok (kBuf ≤ (s.sem.cancelPass c tok).1.length) (s.sem.cancelPass c tok).1))
  | canWrite {s t tok w ws f} :
    (s.th t).pc = .canWrite tok w ws f →
    Step c s t ((s.writeSlot w .cancelled).goto t (.canResume tok w ws f))
  | canResume {s t tok w ws f} :
    (s.th t).pc = .canResume tok w ws f →
    Step c s t ((s.resume w).goto t (.canNext tok f ws))

end JLib.Semaphore
