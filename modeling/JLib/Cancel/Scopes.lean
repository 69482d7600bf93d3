import JLib.Cancel.Token
import JLib.LTS.Runs
import Mathlib.Algebra.Order.Ring.Int
import Mathlib.Logic.Function.Basic

/-!
# The table of scopes

`CancelScope`, `CancelVia` and `CancelToken::Cancelled` of `include/CancelToken.h` and `src/CancelToken.cpp`,
every access to a shared word a step. A scope takes a slot from a lock-free stack whose head carries a tag,
stores its parent and reads the generation into its handle; its destructor raises the generation and puts
the slot back. `CancelVia` and `Cancelled` have only a handle.

The scopes themselves stand for the threads that construct and destroy them. Of the state, `ops`, `uses`,
`home`, `tenant`, `enclosing` and `hit` are read by no step.
-/

namespace JLib.Scopes
open LTS CancelToken

/-- The head of the free list: the tag and the index of the first slot, one-based. -/
structure FreeHead where
  tag : Nat := 0
  index : Nat := 1
  deriving DecidableEq

/-- The generation and the flag of a slot, which are one word. -/
abbrev Word := Nat × Bool

def wordOf (c : CancelSlot) : Word := (c.gen, c.cancelled)

/-- `GenOf`. -/
def genOf (st : Word) : Nat := st.1 % 65536

/-- The handle of a slot in a generation. -/
def handle (i gen : Nat) : Nat := gen % 65536 * 65536 + i

/-- Where a scope is in its life. `since` is `ops` when the head was loaded. -/
inductive Life where
  | unborn
  -- `AcquireSlot`: the head, then also the link of its slot
  | acquire (head : FreeHead) (since : Nat)
  | next (head : FreeHead) (since : Nat) (next : Nat)
  -- the constructor
  | owned (i : Nat)
  | link (i : Nat) (parent : Nat)
  | linked (i : Nat)
  | alive (i : Nat)
  -- the destructor
  | dying (i : Nat) (st : Word)
  | bumped (i : Nat)
  | release (i : Nat)
  -- `ReleaseSlot`: the head, then also the link written
  | push (i : Nat) (head : FreeHead) (since : Nat)
  | pushed (i : Nat) (head : FreeHead) (since : Nat)
  -- the table was full
  | invalid
  | dead

/-- Where a caller is in `CancelVia` of a token that a scope has issued. -/
inductive Via (σ : Type) where
  | idle
  | cas (x : σ) (st : Word)
  | done (x : σ) (result : Bool)

/-- Where a caller is in `Cancelled` of a token that a scope has issued. `tenant` is the last scope that took
the slot when its state was loaded. -/
inductive Walk (σ : Type) where
  | idle
  | state (x : σ) (raw depth : Nat)
  | parent (x : σ) (raw depth : Nat) (tenant : Option σ)
  | done (x : σ) (result : Bool)

/-- Shared state. -/
structure State (σ χ ρ : Type) where
  head : FreeHead := {}
  slots : Nat → CancelSlot := fun _ => {}
  nextFree : Nat → Nat := fun i => if i + 1 = kCancelSlots then 0 else i + 2
  life : σ → Life := fun _ => .unborn
  -- the token a constructor is given, by the scope that has issued it
  parent : σ → Option σ := fun _ => none
  raw : σ → Nat := fun _ => kNone.raw
  via : χ → Via σ := fun _ => .idle
  walk : ρ → Walk σ := fun _ => .idle
  -- the number of free-list operations that are complete
  ops : Nat := 0
  -- how often each slot was given back
  uses : Nat → Nat := fun _ => 0
  -- the slot of a scope and the number of uses before it
  home : σ → Option (Nat × Nat) := fun _ => none
  -- the last scope that took the slot
  tenant : Nat → Option σ := fun _ => none
  -- the scope that a nested one was constructed in
  enclosing : σ → Option σ := fun _ => none
  -- the scope was cancelled
  hit : σ → Bool := fun _ => false

variable {σ χ ρ : Type} [DecidableEq σ] [DecidableEq χ] [DecidableEq ρ]

namespace State

/-- `ResolveCancelSlot`. -/
def resolves (s : State σ χ ρ) (raw : Nat) : Bool :=
  raw % 65536 < kCancelSlots && genOf (wordOf (s.slots (raw % 65536))) == raw / 65536

/-- The parent that the constructor stores. -/
def resolvedParent (s : State σ χ ρ) (x : σ) : Option σ :=
  (s.parent x).filter fun y => s.resolves (s.raw y)

/-- The flag is set. -/
def setCancelled (s : State σ χ ρ) (i : Nat) (x : σ) : State σ χ ρ :=
  { s with
    slots := Function.update s.slots i { s.slots i with cancelled := true }
    hit := Function.update s.hit x true }

/-- One pass of the loop of `CancelVia`, after its load. -/
def viaLoaded (s : State σ χ ρ) (x : σ) : Via σ :=
  let st := wordOf (s.slots (s.raw x % 65536))
  if genOf st ≠ s.raw x / 65536 then .done x false
  else if st.2 then .done x true
  else .cas x st

end State

inductive Label (σ χ ρ : Type) where
  | construct (x : σ) (parent : Option σ)
  | acquire (x : σ)
  | link (x : σ)
  | birth (x : σ)
  | cancel (x : σ)
  | destroy (x : σ)
  | release (x : σ)
  | via (c : χ) (x : σ)
  | walk (r : ρ) (x : σ)

inductive Step : State σ χ ρ → Label σ χ ρ → State σ χ ρ → Prop where
  -- AcquireSlot
  | construct {s : State σ χ ρ} {x p} :
    s.life x = .unborn →
    Step s (.construct x p)
      { s with
        life := Function.update s.life x (.acquire s.head s.ops)
        parent := Function.update s.parent x p }
  | exhausted {s : State σ χ ρ} {x head since} :
    s.life x = .acquire head since →
    head.index = 0 →
    Step s (.acquire x) { s with life := Function.update s.life x .invalid }
  | next {s : State σ χ ρ} {x head since} :
    s.life x = .acquire head since →
    head.index ≠ 0 →
    Step s (.acquire x)
      { s with life := Function.update s.life x (.next head since (s.nextFree (head.index - 1))) }
  | popFail {s : State σ χ ρ} {x head since n} :
    s.life x = .next head since n →
    Step s (.acquire x) { s with life := Function.update s.life x (.acquire s.head s.ops) }
  | pop {s : State σ χ ρ} {x head since n} :
    s.life x = .next head since n →
    s.head = head →
    Step s (.acquire x)
      { s with
        head := { tag := (head.tag + 1) % 2 ^ 32, index := n }
        ops := s.ops + 1
        tenant := Function.update s.tenant (head.index - 1) (some x)
        life := Function.update s.life x (.owned (head.index - 1)) }
  -- CancelScope
  | resolve {s : State σ χ ρ} {x i} :
    s.life x = .owned i →
    Step s (.link x)
      { s with
        life := Function.update s.life x (.link i ((s.resolvedParent x).elim kNone.raw s.raw))
        enclosing := Function.update s.enclosing x (s.resolvedParent x) }
  | link {s : State σ χ ρ} {x i p} :
    s.life x = .link i p →
    Step s (.link x)
      { s with
        slots := Function.update s.slots i { s.slots i with parent := p }
        life := Function.update s.life x (.linked i) }
  | birth {s : State σ χ ρ} {x i} :
    s.life x = .linked i →
    Step s (.birth x)
      { s with
        life := Function.update s.life x (.alive i)
        raw := Function.update s.raw x (handle i (s.slots i).gen)
        home := Function.update s.home x (some (i, s.uses i)) }
  -- Cancel
  | cancel {s : State σ χ ρ} {x i} :
    s.life x = .alive i →
    Step s (.cancel x) (s.setCancelled i x)
  -- ~CancelScope
  | destroyInvalid {s : State σ χ ρ} {x} :
    s.life x = .invalid →
    Step s (.destroy x) { s with life := Function.update s.life x .dead }
  | destroy {s : State σ χ ρ} {x i} :
    s.life x = .alive i →
    Step s (.destroy x) { s with life := Function.update s.life x (.dying i (wordOf (s.slots i))) }
  | bumpFail {s : State σ χ ρ} {x i st} :
    s.life x = .dying i st →
    Step s (.destroy x) { s with life := Function.update s.life x (.dying i (wordOf (s.slots i))) }
  | bump {s : State σ χ ρ} {x i st} :
    s.life x = .dying i st →
    wordOf (s.slots i) = st →
    Step s (.destroy x)
      { s with
        slots := Function.update s.slots i { s.slots i with gen := (st.1 + 1) % 2 ^ 32, cancelled := false }
        uses := Function.update s.uses i (s.uses i + 1)
        life := Function.update s.life x (.bumped i) }
  | unlink {s : State σ χ ρ} {x i} :
    s.life x = .bumped i →
    Step s (.destroy x)
      { s with
        slots := Function.update s.slots i { s.slots i with parent := kNone.raw }
        life := Function.update s.life x (.release i) }
  -- ReleaseSlot
  | load {s : State σ χ ρ} {x i} :
    s.life x = .release i →
    Step s (.release x) { s with life := Function.update s.life x (.push i s.head s.ops) }
  | write {s : State σ χ ρ} {x i head since} :
    s.life x = .push i head since →
    Step s (.release x)
      { s with
        nextFree := Function.update s.nextFree i head.index
        life := Function.update s.life x (.pushed i head since) }
  | pushFail {s : State σ χ ρ} {x i head since} :
    s.life x = .pushed i head since →
    Step s (.release x) { s with life := Function.update s.life x (.push i s.head s.ops) }
  | push {s : State σ χ ρ} {x i head since} :
    s.life x = .pushed i head since →
    s.head = head →
    Step s (.release x)
      { s with
        head := { tag := (head.tag + 1) % 2 ^ 32, index := i + 1 }
        ops := s.ops + 1
        life := Function.update s.life x .dead }
  -- CancelVia
  | viaNone {s : State σ χ ρ} {c x} :
    s.via c = .idle →
    s.raw x = kNone.raw ∨ kCancelSlots ≤ s.raw x % 65536 →
    Step s (.via c x) { s with via := Function.update s.via c (.done x false) }
  | viaLoad {s : State σ χ ρ} {c x} :
    s.via c = .idle →
    s.raw x ≠ kNone.raw →
    s.raw x % 65536 < kCancelSlots →
    Step s (.via c x) { s with via := Function.update s.via c (s.viaLoaded x) }
  | viaFail {s : State σ χ ρ} {c x st} :
    s.via c = .cas x st →
    Step s (.via c x) { s with via := Function.update s.via c (s.viaLoaded x) }
  | viaSet {s : State σ χ ρ} {c x st} :
    s.via c = .cas x st →
    wordOf (s.slots (s.raw x % 65536)) = st →
    Step s (.via c x)
      { s.setCancelled (s.raw x % 65536) x with via := Function.update s.via c (.done x true) }
  | viaReturn {s : State σ χ ρ} {c x b} :
    s.via c = .done x b →
    Step s (.via c x) { s with via := Function.update s.via c .idle }
  -- Cancelled
  | walk {s : State σ χ ρ} {r x} :
    s.walk r = .idle →
    Step s (.walk r x) { s with walk := Function.update s.walk r (.state x (s.raw x) kMaxScopeDepth) }
  | walkNone {s : State σ χ ρ} {r x raw depth} :
    s.walk r = .state x raw depth →
    depth = 0 ∨ raw = kNone.raw ∨ kCancelSlots ≤ raw % 65536 →
    Step s (.walk r x) { s with walk := Function.update s.walk r (.done x false) }
  | walkStale {s : State σ χ ρ} {r x raw depth} :
    s.walk r = .state x raw (depth + 1) →
    raw ≠ kNone.raw →
    raw % 65536 < kCancelSlots →
    genOf (wordOf (s.slots (raw % 65536))) ≠ raw / 65536 →
    Step s (.walk r x) { s with walk := Function.update s.walk r (.done x false) }
  | walkState {s : State σ χ ρ} {r x raw depth} :
    s.walk r = .state x raw (depth + 1) →
    raw ≠ kNone.raw →
    raw % 65536 < kCancelSlots →
    genOf (wordOf (s.slots (raw % 65536))) = raw / 65536 →
    Step s (.walk r x)
      { s with
        walk := Function.update s.walk r
          (if (s.slots (raw % 65536)).cancelled then .done x true
            else .parent x raw depth (s.tenant (raw % 65536))) }
  | walkParent {s : State σ χ ρ} {r x raw depth tenant} :
    s.walk r = .parent x raw depth tenant →
    Step s (.walk r x)
      { s with walk := Function.update s.walk r (.state x (s.slots (raw % 65536)).parent depth) }
  | walkReturn {s : State σ χ ρ} {r x b} :
    s.walk r = .done x b →
    Step s (.walk r x) { s with walk := Function.update s.walk r .idle }

end JLib.Scopes
