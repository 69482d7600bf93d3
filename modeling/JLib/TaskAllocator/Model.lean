import JLib.SlabPool.Model

/-!
# The task allocator

`TaskAllocator` of `include/TaskAllocator.h`: four pools of slots of 64, 80, 128 and 256 bytes. `AllocSized` asks the
pools whose slots are large enough, the smallest first. `FreeSized` asks the pools in the same order whether an
address is the start of one of their slots; `Free` gives to `operator delete` what none of them has.

Threads interleave between the pools that a call asks and between the steps of a pool. Addresses are numbers, and
`Backing` says which ones `operator new` has returned. A pool's `Free` of a slot that is not live is not here.
`given` and what a `freeing` call knows of its pointer are read by no step.
-/

namespace JLib.TaskAllocator
open LTS

/-- The size classes. -/
inductive Class where
  | pool64
  | pool80
  | pool128
  | pool256
  deriving DecidableEq

/-- `SMALL_SLOT`, `SLOT80`, `MID_SLOT` and `SLOT`. -/
def Class.SLOT : Class → Nat
  | .pool64 => 64
  | .pool80 => 80
  | .pool128 => 128
  | .pool256 => 256

/-- The order in which the pools are asked. -/
def classes : List Class :=
  [.pool64, .pool80, .pool128, .pool256]

/-- The sizes of the pools, and the address of each block. -/
structure Backing where
  memSlots : Class → Nat
  base : Class → Nat → Nat

/-- The address of a slot. -/
def Backing.addr (B : Backing) (c : Class) (x : SlabPool.Slot) : Nat :=
  B.base c x.1 + x.2 * c.SLOT

/-- An address in a block of `m` slots. -/
def Backing.Covers (B : Backing) (c : Class) (block m p : Nat) : Prop :=
  B.base c block ≤ p ∧ p < B.base c block + m * c.SLOT

instance (B : Backing) (c : Class) (block m p : Nat) : Decidable (B.Covers c block m p) :=
  inferInstanceAs (Decidable (_ ∧ _))

variable {θ : Type} [DecidableEq θ]

/-- The slot of a block that starts at the address, if it is not an interior byte. -/
def Backing.slotAt (B : Backing) (c : Class) (block p : Nat) : Option SlabPool.Slot :=
  if (p - B.base c block) % c.SLOT = 0 then some (block, (p - B.base c block) / c.SLOT) else none

/-- The walk of `SlotInSlab`: the first block that has the address decides. -/
def Backing.findSlot (B : Backing) (c : Class) (q : SlabPool.State θ) (p : Nat) : Option SlabPool.Slot :=
  if B.memSlots c ≠ 0 ∧ B.Covers c 0 (B.memSlots c) p then B.slotAt c 0 p
  else (q.extents.find? fun e => B.Covers c e.block e.slots p).bind fun e => B.slotAt c e.block p

/-- `SlotInSlab`. -/
def Backing.slotInSlab (B : Backing) (c : Class) (q : SlabPool.State θ) (p : Nat) : Bool :=
  (B.findSlot c q p).isSome

/-- What `AllocSized` returned: the pool, the slot and the size it was asked for. -/
structure Given where
  pool : Class
  slot : SlabPool.Slot
  size : Nat

/-- Where a thread is outside the pools. -/
inductive Call where
  | idle
  | allocating (n : Nat) (todo : List Class)
  | freeing (p : Nat) (mine : Option Given) (todo : List Class)

structure State (θ : Type) where
  pool : Class → SlabPool.State θ
  call : θ → Call := fun _ => .idle
  -- the pointers that were returned and not given back
  given : Nat → Option Given := fun _ => none

/-- What a pool does that neither `AllocSized` nor `FreeSized` asks for. -/
def Inner : SlabPool.Label θ → Prop
  | .alloc _ _ => False
  | .refill _ => False
  | .exhausted _ => False
  | .free _ _ => False
  | _ => True

inductive Label (θ : Type) where
  | alloc (t : θ)
  | allocSized (t : θ) (n : Nat)
  | ask (t : θ)
  | returns (t : θ) (n p : Nat)
  | returnsNull (t : θ)
  | freeSized (t : θ) (p : Nat)
  | link (t : θ) (c : Class) (p : Nat)
  | operatorDelete (t : θ) (p : Nat)
  | inner (c : Class) (l : SlabPool.Label θ)

variable (B : Backing)

inductive Step : State θ → Label θ → State θ → Prop where
  -- Alloc, AllocSized
  | alloc {s : State θ} {t} :
    s.call t = .idle →
    (∀ c, (s.pool c).call t = .idle) →
    Step s (.alloc t)
      { s with call := Function.update s.call t (.allocating Class.pool256.SLOT [.pool256]) }
  | allocSized {s : State θ} {t n} :
    s.call t = .idle →
    (∀ c, (s.pool c).call t = .idle) →
    Step s (.allocSized t n) { s with call := Function.update s.call t (.allocating n classes) }
  | tooLarge {s : State θ} {t n c todo} :
    s.call t = .allocating n (c :: todo) →
    ¬n ≤ c.SLOT →
    Step s (.ask t) { s with call := Function.update s.call t (.allocating n todo) }
  | refill {s : State θ} {t n c todo q} :
    s.call t = .allocating n (c :: todo) →
    n ≤ c.SLOT →
    SlabPool.Step (B.memSlots c) (s.pool c) (.refill t) q →
    Step s (.ask t) { s with pool := Function.update s.pool c q }
  | exhausted {s : State θ} {t n c todo q} :
    s.call t = .allocating n (c :: todo) →
    n ≤ c.SLOT →
    SlabPool.Step (B.memSlots c) (s.pool c) (.exhausted t) q →
    Step s (.ask t)
      { s with
        pool := Function.update s.pool c q
        call := Function.update s.call t (.allocating n todo) }
  | returns {s : State θ} {t n c todo x q} :
    s.call t = .allocating n (c :: todo) →
    n ≤ c.SLOT →
    SlabPool.Step (B.memSlots c) (s.pool c) (.alloc t x) q →
    Step s (.returns t n (B.addr c x))
      { pool := Function.update s.pool c q
        call := Function.update s.call t .idle
        given := Function.update s.given (B.addr c x) (some ⟨c, x, n⟩) }
  | returnsNull {s : State θ} {t n} :
    s.call t = .allocating n [] →
    Step s (.returnsNull t) { s with call := Function.update s.call t .idle }
  -- FreeSized, Free
  | freeSized {s : State θ} {t p} :
    s.call t = .idle →
    (∀ c, (s.pool c).call t = .idle) →
    Step s (.freeSized t p) { s with call := Function.update s.call t (.freeing p (s.given p) classes) }
  | notOwned {s : State θ} {t p mine c todo} :
    s.call t = .freeing p mine (c :: todo) →
    B.slotInSlab c (s.pool c) p = false →
    Step s (.ask t) { s with call := Function.update s.call t (.freeing p mine todo) }
  | link {s : State θ} {t p mine c todo x q} :
    s.call t = .freeing p mine (c :: todo) →
    B.findSlot c (s.pool c) p = some x →
    SlabPool.Step (B.memSlots c) (s.pool c) (.free t x) q →
    Step s (.link t c p)
      { pool := Function.update s.pool c q
        call := Function.update s.call t .idle
        given := Function.update s.given p none }
  | operatorDelete {s : State θ} {t p mine} :
    s.call t = .freeing p mine [] →
    Step s (.operatorDelete t p) { s with call := Function.update s.call t .idle }
  -- the pools
  | inner {s : State θ} {c l q} :
    Inner l →
    SlabPool.Step (B.memSlots c) (s.pool c) l q →
    Step s (.inner c l) { s with pool := Function.update s.pool c q }

/-- A block of `m` slots that the pool has. -/
def HasBlock (s : State θ) (c : Class) (block m : Nat) : Prop :=
  block = 0 ∧ m = B.memSlots c ∨ ∃ e ∈ (s.pool c).extents, e.block = block ∧ e.slots = m

/-- The blocks that `operator new` returned do not overlap. -/
def Disjoint (s : State θ) : Prop :=
  ∀ c block m c' block' m' p, HasBlock B s c block m → HasBlock B s c' block' m' →
    B.Covers c block m p → B.Covers c' block' m' p → c = c' ∧ block = block'

end JLib.TaskAllocator
