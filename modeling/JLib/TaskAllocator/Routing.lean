import JLib.TaskAllocator.Model
import JLib.SlabPool.Slots

/-!
# The way back to the pool

The pool that a call asks is chosen by the size and by what the smaller pools have left, and found again by the
address alone. A slot starts at one address of one block, and the blocks are apart; so one pool has the address that
`AllocSized` returned, before and after every growth, and an address that no pool has is linked nowhere.
-/

namespace JLib.SlabPool
open LTS State

variable {θ : Type} {memSlots : Nat} {s u : State θ} {l : Label θ} {t : θ} {x : Slot}

/-! ## What a step of a pool does to its slots -/

/-- A bump in an extent does not change what slots there are. -/
lemma bumpExtent_slots {b : Batch} {e : Extent} (h : s.SlotInSlab memSlots x) :
    (s.bumpExtent b e).1.SlotInSlab memSlots x := by
  obtain first | ⟨e', mem, block, lt⟩ := h
  · exact .inl first
  · refine .inr ⟨_, List.mem_map_of_mem mem, ?_⟩
    split
    · exact ⟨block, lt⟩
    · exact ⟨block, lt⟩

/-- A slab that grows keeps its slots. -/
lemma grow_slots {memory : Bool} {sb : State θ × Batch} (h : sb.1.SlotInSlab memSlots x) :
    (grow memory sb).1.SlotInSlab memSlots x := by
  obtain ⟨s, b⟩ := sb
  unfold grow
  dsimp only
  split
  · split
    · exact bumpExtent_slots h
    · split
      · apply bumpExtent_slots
        obtain first | ⟨e, mem, eq⟩ := h
        · exact .inl first
        · exact .inr ⟨e, .tail _ mem, eq⟩
      · exact h
  · exact h

/-- A refill keeps the slots of the slab. -/
lemma refill_slots (memory : Bool) (h : s.SlotInSlab memSlots x) :
    (s.refill memSlots memory).1.SlotInSlab memSlots x := by
  unfold State.refill
  split
  · exact h
  · have same : (topUp memSlots s.recycle).1.extents = s.extents :=
      topUp_extents.1.trans recycle_extents.1
    apply grow_slots
    unfold State.SlotInSlab
    rw [same]
    exact h

variable [DecidableEq θ]

/-- A slot of a pool stays one. -/
lemma Step.slots (st : Step memSlots s l u) (h : s.SlotInSlab memSlots x) : u.SlotInSlab memSlots x := by
  cases st with
  | @refill _ _ memory _ _ _ _ _ eq _ =>
    have stays := refill_slots memory h
    rw [eq] at stays
    exact stays
  | @exhausted _ _ memory _ _ _ _ eq _ =>
    have stays := refill_slots memory h
    rw [eq] at stays
    exact stays
  | _ => exact h

/-- Slots become live and cease to be where a call of `Alloc` or `Free` says so. -/
lemma Step.live (st : Step memSlots s l u) : u.live = match l with
    | .alloc _ x => Function.update s.live x true
    | .free _ x => Function.update s.live x false
    | _ => s.live := by
  cases st with
  | @refill _ _ memory _ _ _ _ _ eq _ =>
    have same := (refill_same memSlots memory s).2.2.2.1
    rw [eq] at same
    exact same
  | @exhausted _ _ memory _ _ _ _ eq _ =>
    have same := (refill_same memSlots memory s).2.2.2.1
    rw [eq] at same
    exact same
  | _ => rfl

omit [DecidableEq θ] in
/-- A live slot is in its slab. -/
lemma Placed.inSlab {pl : Place θ → List Slot} (pd : Placed memSlots s pl) (live : s.live x = true) :
    s.SlotInSlab memSlots x :=
  pd.blocks.slotInSlab (pd.stock.gone live)

end JLib.SlabPool

namespace JLib.TaskAllocator
open LTS

variable {θ : Type} {B : Backing} {s u : State θ} {l : Label θ} {t : θ} {c c' : Class}
  {x : SlabPool.Slot} {p m block : Nat}

/-! ## Addresses -/

/-- No slot is empty. -/
lemma Class.SLOT_pos (c : Class) : 0 < c.SLOT := by
  cases c <;> decide

/-- A slot starts in its block. -/
lemma covers_addr : B.Covers c x.1 m (B.addr c x) ↔ x.2 < m := by
  unfold Backing.Covers Backing.addr
  rw [Nat.add_lt_add_iff_left, Nat.mul_lt_mul_right c.SLOT_pos]
  exact ⟨fun h => h.2, fun h => ⟨Nat.le_add_right .., h⟩⟩

/-- A pointer in a block is at a slot if it is the address of one. -/
lemma slotAt_eq (le : B.base c block ≤ p) : B.slotAt c block p = some x ↔ x.1 = block ∧ B.addr c x = p := by
  unfold Backing.slotAt Backing.addr
  constructor
  · intro h
    split at h
    next whole =>
      cases h
      rw [Nat.div_mul_cancel (Nat.dvd_of_mod_eq_zero whole), Nat.add_sub_cancel' le]
      exact ⟨rfl, rfl⟩
    next => cases h
  · rintro ⟨rfl, rfl⟩
    rw [Nat.add_sub_cancel_left, Nat.mul_mod_left, if_pos rfl, Nat.mul_div_cancel _ c.SLOT_pos]

/-- A slot of a pool is one of a block. -/
lemma inSlab_iff : (s.pool c).SlotInSlab (B.memSlots c) x ↔ ∃ m, HasBlock B s c x.1 m ∧ x.2 < m := by
  constructor
  · rintro (⟨first, lt⟩ | ⟨e, mem, block, lt⟩)
    · exact ⟨_, .inl ⟨first, rfl⟩, lt⟩
    · exact ⟨_, .inr ⟨e, mem, block, rfl⟩, lt⟩
  · rintro ⟨m, ⟨first, rfl⟩ | ⟨e, mem, block, rfl⟩, lt⟩
    · exact .inl ⟨first, lt⟩
    · exact .inr ⟨e, mem, block, lt⟩

/-- The walk stops at an extent that has the address. -/
lemma find_extent {e : SlabPool.Extent}
    (found : ((s.pool c).extents.find? fun e => B.Covers c e.block e.slots p) = some e) :
    HasBlock B s c e.block e.slots ∧ B.Covers c e.block e.slots p := by
  have cover := List.find?_some found
  rw [decide_eq_true_iff] at cover
  exact ⟨.inr ⟨e, List.mem_of_find?_eq_some found, rfl, rfl⟩, cover⟩

/-- The walk finds the slot that starts at the address. -/
lemma findSlot_eq (dis : Disjoint B s) :
    B.findSlot c (s.pool c) p = some x ↔ (s.pool c).SlotInSlab (B.memSlots c) x ∧ B.addr c x = p := by
  unfold Backing.findSlot
  constructor
  · intro h
    split at h
    next here =>
      obtain ⟨first, rfl⟩ := (slotAt_eq here.2.1).1 h
      exact ⟨.inl ⟨first, covers_addr.1 (first.symm ▸ here.2)⟩, rfl⟩
    next =>
      obtain ⟨e, found, h⟩ := Option.bind_eq_some_iff.1 h
      obtain ⟨has, cover⟩ := find_extent found
      obtain ⟨here, rfl⟩ := (slotAt_eq cover.1).1 h
      rw [← here] at has cover
      exact ⟨inSlab_iff.2 ⟨_, has, covers_addr.1 cover⟩, rfl⟩
  · rintro ⟨inSlab, rfl⟩
    obtain ⟨m, has, lt⟩ := inSlab_iff.1 inSlab
    have cover : B.Covers c x.1 m (B.addr c x) := covers_addr.2 lt
    -- whichever block the walk stops at is the block of the slot
    have here : ∀ block n, HasBlock B s c block n → B.Covers c block n (B.addr c x) →
        B.slotAt c block (B.addr c x) = some x := by
      intro block n has' cover'
      exact (slotAt_eq cover'.1).2 ⟨(dis _ _ _ _ _ _ _ has has' cover cover').2, rfl⟩
    split
    next first => exact here 0 _ (.inl ⟨rfl, rfl⟩) first.2
    next notFirst =>
      cases found : (s.pool c).extents.find? fun e => B.Covers c e.block e.slots (B.addr c x) with
      | some e =>
        obtain ⟨has', cover'⟩ := find_extent found
        exact here e.block e.slots has' cover'
      | none =>
        obtain ⟨first, rfl⟩ | ⟨e, mem, block, rfl⟩ := has
        · refine absurd ⟨?_, first ▸ cover⟩ notFirst
          exact Nat.ne_of_gt (Nat.lt_of_le_of_lt (Nat.zero_le _) lt)
        · have no := List.find?_eq_none.1 found e mem
          rw [block, decide_eq_true_iff] at no
          exact absurd cover no

/-- The test of a pool finds the slots of the pool. -/
lemma slotInSlab_eq (dis : Disjoint B s) : B.slotInSlab c (s.pool c) p = true ↔
    ∃ x, (s.pool c).SlotInSlab (B.memSlots c) x ∧ B.addr c x = p := by
  unfold Backing.slotInSlab
  rw [Option.isSome_iff_exists]
  exact exists_congr fun _ => findSlot_eq dis

/-- `SlotInSlab` is true for this pool alone. -/
def Sole (B : Backing) (s : State θ) (c : Class) (p : Nat) : Prop :=
  ∀ c', B.slotInSlab c' (s.pool c') p = true ↔ c' = c

/-- A slot has its address in no other pool. -/
lemma Disjoint.sole (dis : Disjoint B s) (inSlab : (s.pool c).SlotInSlab (B.memSlots c) x) :
    Sole B s c (B.addr c x) := by
  intro c'
  rw [slotInSlab_eq dis]
  constructor
  · rintro ⟨x', inSlab', eq⟩
    obtain ⟨m, has, lt⟩ := inSlab_iff.1 inSlab
    obtain ⟨m', has', lt'⟩ := inSlab_iff.1 inSlab'
    exact (dis _ _ _ _ _ _ _ has' has (eq ▸ covers_addr.2 lt') (covers_addr.2 lt)).1
  · rintro rfl
    exact ⟨x, inSlab, rfl⟩

/-- And no other slot of its pool has the address. -/
lemma Disjoint.slot_eq {x' : SlabPool.Slot} (dis : Disjoint B s)
    (inSlab : (s.pool c).SlotInSlab (B.memSlots c) x) (inSlab' : (s.pool c').SlotInSlab (B.memSlots c') x')
    (eq : B.addr c x = B.addr c' x') : c = c' ∧ x = x' := by
  have here : c = c' := (dis.sole inSlab' c).1 ((slotInSlab_eq dis).2 ⟨x, inSlab, eq⟩)
  cases here
  have found := (findSlot_eq dis).2 ⟨inSlab, eq⟩
  rw [(findSlot_eq dis).2 ⟨inSlab', rfl⟩] at found
  exact ⟨rfl, (Option.some.inj found).symm⟩

/-! ## The invariant -/

/-- What was returned is live, and the pool that a call looks for is among those it has not asked yet. -/
structure Routed (B : Backing) (s : State θ) : Prop where
  placed : ∀ c, ∃ pl, SlabPool.Placed (B.memSlots c) (s.pool c) pl
  given : ∀ p g, s.given p = some g → g.size ≤ g.pool.SLOT ∧ B.addr g.pool g.slot = p ∧
    (s.pool g.pool).live g.slot = true
  freeing : ∀ t p g todo, s.call t = .freeing p (some g) todo → g.pool ∈ todo ∧ B.addr g.pool g.slot = p ∧
    (s.pool g.pool).SlotInSlab (B.memSlots g.pool) g.slot

/-- Nothing was taken. -/
lemma Routed.init (next : Class → SlabPool.Slot → Option SlabPool.Slot) (g : Class → Bool) :
    Routed B ({ pool := fun c => { next := next c, growth := g c } } : State θ) :=
  ⟨fun c => ⟨_, .init (next c) (g c)⟩, nofun, nofun⟩

/-- A live slot of a pool is in its slab. -/
lemma Routed.inSlab (rt : Routed B s) (live : (s.pool c).live x = true) :
    (s.pool c).SlotInSlab (B.memSlots c) x := by
  obtain ⟨pl, pd⟩ := rt.placed c
  exact pd.inSlab live

variable [DecidableEq θ]

section PoolStep
variable {q : SlabPool.State θ} {k : SlabPool.Label θ}

/-- One pool takes a step. -/
lemma Routed.pools (rt : Routed B s) (st : SlabPool.Step (B.memSlots c) (s.pool c) k q) (c' : Class) :
    ∃ pl, SlabPool.Placed (B.memSlots c') (Function.update s.pool c q c') pl := by
  rw [Function.update_apply]
  split
  next same =>
    obtain ⟨pl, pd⟩ := rt.placed c
    rw [same]
    exact pd.step st
  next => exact rt.placed c'

/-- A step of one pool takes no slot away from any. -/
lemma slots_update (st : SlabPool.Step (B.memSlots c) (s.pool c) k q)
    (h : (s.pool c').SlotInSlab (B.memSlots c') x) :
    (Function.update s.pool c q c').SlotInSlab (B.memSlots c') x := by
  rw [Function.update_apply]
  split
  next same =>
    cases same
    exact st.slots h
  next => exact h

omit [DecidableEq θ] in
/-- A step of one pool that returns nothing leaves live what is live. -/
lemma live_update (stays : ∀ x, (s.pool c).live x = true → q.live x = true) (h : (s.pool c').live x = true) :
    (Function.update s.pool c q c').live x = true := by
  rw [Function.update_apply]
  split
  next same =>
    cases same
    exact stays x h
  next => exact h

/-- A pool takes a step in which no slot is given back. -/
lemma Routed.pool (rt : Routed B s) (st : SlabPool.Step (B.memSlots c) (s.pool c) k q)
    (stays : ∀ x, (s.pool c).live x = true → q.live x = true) :
    Routed B { s with pool := Function.update s.pool c q } := by
  refine ⟨rt.pools st, fun p g eq => ?_, fun t p g todo eq => ?_⟩
  · obtain ⟨le, addr, live⟩ := rt.given p g eq
    exact ⟨le, addr, live_update stays live⟩
  · obtain ⟨mem, addr, inSlab⟩ := rt.freeing t p g todo eq
    exact ⟨mem, addr, slots_update st inSlab⟩

end PoolStep

/-- A call goes on. -/
lemma Routed.call {k : Call} (rt : Routed B s) (next : ∀ p g todo, k = .freeing p (some g) todo →
      g.pool ∈ todo ∧ B.addr g.pool g.slot = p ∧ (s.pool g.pool).SlotInSlab (B.memSlots g.pool) g.slot) :
    Routed B { s with call := Function.update s.call t k } := by
  refine ⟨rt.placed, rt.given, fun t' p g todo eq => ?_⟩
  dsimp only at eq
  rw [Function.update_apply] at eq
  split at eq
  · exact next p g todo eq
  · exact rt.freeing t' p g todo eq

omit [DecidableEq θ] in
/-- The slot that `AllocSized` returns is one more. -/
lemma Routed.returns {n : Nat} (rt : Routed B s) (le : n ≤ c.SLOT) (live : (s.pool c).live x = true) :
    Routed B { s with given := Function.update s.given (B.addr c x) (some ⟨c, x, n⟩) } := by
  refine ⟨rt.placed, fun p g eq => ?_, rt.freeing⟩
  dsimp only at eq
  rw [Function.update_apply] at eq
  split at eq
  next same =>
    cases eq
    exact ⟨le, same.symm, live⟩
  next => exact rt.given p g eq

/-- The slot that was linked is one less. -/
lemma Routed.link {q : SlabPool.State θ} (rt : Routed B s) (dis : Disjoint B s)
    (found : B.findSlot c (s.pool c) p = some x)
    (st : SlabPool.Step (B.memSlots c) (s.pool c) (.free t x) q) :
    Routed B { s with pool := Function.update s.pool c q, given := Function.update s.given p none } := by
  refine ⟨rt.pools st, fun p' g eq => ?_, fun t p g todo eq => ?_⟩
  · dsimp only at eq
    rw [Function.update_apply] at eq
    split at eq
    next => cases eq
    next ne =>
      obtain ⟨le, rfl, live⟩ := rt.given p' g eq
      refine ⟨le, rfl, ?_⟩
      dsimp only
      rw [Function.update_apply]
      split
      next same =>
        rw [st.live]
        dsimp only
        rw [Function.update_apply, if_neg, ← same]
        · exact live
        · rintro rfl
          exact ne (same ▸ ((findSlot_eq dis).1 found).2)
      next => exact live
  · obtain ⟨mem, addr, inSlab⟩ := rt.freeing t p g todo eq
    exact ⟨mem, addr, slots_update st inSlab⟩

/-- A step keeps the calls on their way to their pool. -/
lemma Routed.step (rt : Routed B s) (dis : Disjoint B s) (st : Step B s l u) : Routed B u := by
  cases st with
  | alloc _ _ => exact rt.call nofun
  | allocSized _ _ => exact rt.call nofun
  | tooLarge _ _ => exact rt.call nofun
  | refill _ _ st => exact rt.pool st fun x live => by rw [st.live]; exact live
  | exhausted _ _ st => exact (rt.pool st fun x live => by rw [st.live]; exact live).call nofun
  | @returns t n c todo x q _ le st =>
    have rt' := rt.pool st fun x live => by
      rw [st.live]
      dsimp only
      rw [Function.update_apply]
      split
      · rfl
      · exact live
    refine (rt'.returns le ?_).call nofun
    dsimp only
    rw [Function.update_self, st.live]
    exact Function.update_self ..
  | returnsNull _ => exact rt.call nofun
  | freeSized _ _ =>
    apply rt.call
    intro p g todo eq
    injection eq with eqP eqG eqTodo
    subst eqP eqTodo
    obtain ⟨-, addr, live⟩ := rt.given _ g eqG
    refine ⟨?_, addr, rt.inSlab live⟩
    cases g.pool <;> decide
  | notOwned here no =>
    apply rt.call
    intro p g todo eq
    cases eq
    obtain ⟨mem, rfl, inSlab⟩ := rt.freeing _ _ _ _ here
    obtain rfl | mem := List.mem_cons.1 mem
    · rw [(dis.sole inSlab _).2 rfl] at no
      cases no
    · exact ⟨mem, rfl, inSlab⟩
  | link _ found st => exact (rt.link dis found st).call nofun
  | operatorDelete _ => exact rt.call nofun
  | @inner c l q own st =>
    refine rt.pool st fun x live => ?_
    rw [st.live]
    cases l with
    | alloc _ _ => exact own.elim
    | free _ _ => exact own.elim
    | _ => exact live

/-- In every state of a run the calls are on their way to their pool. -/
lemma Routed.of_runs {next : Class → SlabPool.Slot → Option SlabPool.Slot} {g : Class → Bool}
    (rn : Runs (Step B) (fun s _ => Disjoint B s) { pool := fun c => { next := next c, growth := g c } } s) :
    Routed B s := by
  induction rn with
  | refl => exact .init next g
  | tail _ dis st ih => exact ih.step dis st

/-- What `FreeSized` has done when it linked a slot: the slot is the first in the chain of the thread in that pool,
and no other pool was touched. -/
structure Linked (s u : State θ) (t : θ) (c : Class) (x : SlabPool.Slot) : Prop where
  head : ((u.pool c).cache t).head = some x
  next : (u.pool c).next x = ((s.pool c).cache t).head
  live : (u.pool c).live x = false
  others : ∀ c', c' ≠ c → u.pool c' = s.pool c'

/-- A call that links a slot links the one at its pointer. -/
lemma Step.linked (dis : Disjoint B s) (st : Step B s (.link t c p) u) :
    ∃ x, (s.pool c).SlotInSlab (B.memSlots c) x ∧ B.addr c x = p ∧ Linked s u t c x := by
  cases st with
  | @link t p mine c todo x q here found st =>
    obtain ⟨inSlab, addr⟩ := (findSlot_eq dis).1 found
    refine ⟨x, inSlab, addr, ?_⟩
    have same : (Function.update s.pool c q) c = q := Function.update_self ..
    cases st with
    | free _ _ _ =>
      constructor
      · dsimp only
        rw [same]
        dsimp only
        rw [Function.update_self]
      · dsimp only
        rw [same]
        exact Function.update_self ..
      · dsimp only
        rw [same]
        exact Function.update_self ..
      · intro c' ne
        exact Function.update_of_ne ne ..

/-- `AllocSized` returns the start of a slot that is large enough, free and in one pool; a call of `FreeSized` with it
finds that pool and puts the slot into its chain and into no other; what no pool has is linked nowhere, so the free
lists of a pool are made of the starts of its own slots. -/
theorem sized_round_trip {next : Class → SlabPool.Slot → Option SlabPool.Slot} {g : Class → Bool}
    (rn : Runs (Step B) (fun s _ => Disjoint B s) { pool := fun c => { next := next c, growth := g c } } s)
    (dis : Disjoint B s) :
    (∀ t n p u, Step B s (.returns t n p) u → ∃ c x, u.given p = some ⟨c, x, n⟩ ∧ n ≤ c.SLOT ∧
      B.addr c x = p ∧ (s.pool c).live x = false ∧ Sole B s c p) ∧
    (∀ p g, s.given p = some g → g.size ≤ g.pool.SLOT ∧ B.addr g.pool g.slot = p ∧ Sole B s g.pool p) ∧
    (∀ t p g todo, s.call t = .freeing p (some g) todo → g.pool ∈ todo ∧ Sole B s g.pool p ∧
      (∀ u, ¬Step B s (.operatorDelete t p) u) ∧
      ∀ c u, Step B s (.link t c p) u → c = g.pool ∧ Linked s u t c g.slot) ∧
    (∀ t c p u, Step B s (.link t c p) u → Sole B s c p ∧ ∃ x, B.addr c x = p ∧ Linked s u t c x) ∧
    (∀ t p u, Step B s (.operatorDelete t p) u → u.pool = s.pool) ∧
    ∀ c, ∃ pl, SlabPool.Chains (s.pool c) pl ∧ ∀ place, ∀ x ∈ pl place, Sole B s c (B.addr c x) := by
  have rt := Routed.of_runs rn
  refine ⟨?_, ?_, ?_, ?_, ?_, ?_⟩
  · intro t n p u st
    cases st with
    | @returns _ _ c _ x _ _ le st =>
      obtain ⟨pl, pd⟩ := rt.placed c
      obtain ⟨inSlab, free⟩ := pd.front st
      exact ⟨c, x, Function.update_self .., le, rfl, free, dis.sole inSlab⟩
  · intro p g eq
    obtain ⟨le, rfl, live⟩ := rt.given p g eq
    exact ⟨le, rfl, dis.sole (rt.inSlab live)⟩
  · intro t p g todo here
    obtain ⟨mem, rfl, inSlab⟩ := rt.freeing t p g todo here
    refine ⟨mem, dis.sole inSlab, ?_, ?_⟩
    · intro u st
      cases st with
      | operatorDelete here' =>
        cases here.symm.trans here'
        cases mem
    · intro c u st
      obtain ⟨x, inSlab', addr, lk⟩ := st.linked dis
      obtain ⟨rfl, rfl⟩ := dis.slot_eq inSlab' inSlab addr
      exact ⟨rfl, lk⟩
  · intro t c p u st
    obtain ⟨x, inSlab, rfl, lk⟩ := st.linked dis
    exact ⟨dis.sole inSlab, x, rfl, lk⟩
  · intro t p u st
    cases st with
    | operatorDelete _ => rfl
  · intro c
    obtain ⟨pl, pd⟩ := rt.placed c
    exact ⟨pl, pd.chains, fun place x mem => dis.sole (pd.blocks.slotInSlab (pd.stock.live mem).1)⟩

/-- Four pools, the smallest of them without slots. -/
def fourPools : Backing where
  memSlots
    | .pool64 => 0
    | _ => 1
  base
    | .pool64, _ => 0
    | .pool80, _ => 0
    | .pool128, _ => 80
    | .pool256, _ => 208

omit [DecidableEq θ] in
/-- Pools without extents are disjoint. -/
lemma fourPools_disjoint (none : ∀ c, (s.pool c).extents = []) : Disjoint fourPools s := by
  have first : ∀ {c block m}, HasBlock fourPools s c block m → block = 0 ∧ m = fourPools.memSlots c := by
    rintro c block m (h | ⟨e, mem, -⟩)
    · exact h
    · rw [none c] at mem
      cases mem
  rintro c _ _ c' _ _ p has has' cover cover'
  obtain ⟨rfl, rfl⟩ := first has
  obtain ⟨rfl, rfl⟩ := first has'
  refine ⟨?_, rfl⟩
  unfold Backing.Covers fourPools at cover cover'
  cases c <;> cases c' <;> simp only [Class.SLOT] at cover cover' <;> first | rfl | omega

/-- A request of 50 bytes is served by the second pool, and the address leads back to it. -/
theorem sized_round_trip_next : ∃ s : State Unit,
    s.call () = .freeing 0 (some ⟨.pool80, (0, 0), 50⟩) classes ∧ Sole fourPools s .pool80 0 := by
  have ok : ∀ s : State Unit, (∀ c, (s.pool c).extents = []) → Disjoint fourPools s :=
    fun s none => fourPools_disjoint none
  have r : Runs (Step fourPools) (fun s _ => Disjoint fourPools s)
      ({ pool := fun _ => { next := fun _ => none, growth := false } } : State Unit) _ := .refl
  have r1 := r.next (.inner .pool64 (.start ())) (ok _ fun _ => rfl) (.inner trivial (.start rfl))
  have r2 := r1.next (.inner .pool80 (.start ())) (ok _ fun c => by cases c <;> rfl)
    (.inner trivial (.start rfl))
  have r3 := r2.next (.allocSized () 50) (ok _ fun c => by cases c <;> rfl)
    (.allocSized rfl fun c => by cases c <;> rfl)
  have r4 := r3.next (.ask ()) (ok _ fun c => by cases c <;> rfl) (.exhausted rfl (by decide)
    (@SlabPool.Step.exhausted _ _ _ _ _ _ false _ rfl rfl rfl rfl rfl))
  have r5 := r4.next (.ask ()) (ok _ fun c => by cases c <;> rfl) (.refill rfl (by decide)
    (@SlabPool.Step.refill _ _ _ _ _ _ false _ (0, 0) rfl rfl rfl rfl rfl))
  have r6 := r5.next (.inner .pool80 (.splice ())) (ok _ fun c => by cases c <;> rfl)
    (.inner trivial (@SlabPool.Step.splice _ _ _ _ _ _ (0, 0) rfl rfl))
  have r7 := r6.next (.returns () 50 0) (ok _ fun c => by cases c <;> rfl)
    (@Step.returns _ _ _ _ _ _ .pool80 _ (0, 0) _ rfl (by decide) (.alloc rfl rfl rfl))
  have r8 := r7.next (.freeSized () 0) (ok _ fun c => by cases c <;> rfl)
    (.freeSized rfl fun c => by cases c <;> rfl)
  have trip := sized_round_trip r8 (ok _ fun c => by cases c <;> rfl)
  exact ⟨_, rfl, (trip.2.2.1 () 0 _ _ rfl).2.1⟩

end JLib.TaskAllocator
