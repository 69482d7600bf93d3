import JLib.SlabPool.Model
import JLib.LTS.Stock

/-!
# Where the slots are

A slot that was bumped is live, or it is at one place: in the chain of a thread, in the batch a thread moves
between its chain and the shared one, or in the shared chain. `Placed` says which lists of slots the links
spell at these places. The sections under the mutex are taken one part after the other, each with one
lemma about what it does to the lists.
-/

namespace JLib.SlabPool
open LTS Links State

variable {θ : Type} {memSlots : Nat} {s u : State θ} {a : Label θ} {t : θ} {b : Batch}
  {next : Slot → Option Slot} {h e : Option Slot} {l : List Slot} {block i n : Nat} {x : Slot}

/-! ## The loops -/

/-- The walk cuts a segment of at most `n` slots off the chain. -/
lemma detach_spec (n : Nat) (tail : Option Slot) (m : Nat) (sl : SList next h l) :
    ∃ e, detach next n h tail m = ((l.take n).getLast?.or tail, e, m + (l.take n).length) ∧
      Seg next h (l.take n) e ∧ SList next e (l.drop n) := by
  induction n generalizing h l tail m with
  | zero => exact ⟨h, rfl, .nil, sl⟩
  | succ n ih =>
    cases sl with
    | nil => exact ⟨none, rfl, .nil, .nil⟩
    | @cons i l sl =>
      obtain ⟨e, eq, sg, rest⟩ := ih (some i) (m + 1) sl
      refine ⟨e, ?_, .cons sg, rest⟩
      rw [detach, eq, List.take_succ_cons, List.length_cons, List.getLast?_cons]
      refine Prod.ext ?_ (Prod.ext rfl ?_)
      · cases (l.take n).getLast? <;> rfl
      · simp only
        omega

/-- The slots that `bump` puts before a batch, the last one first. -/
def fresh (block : Nat) : Nat → Nat → List Slot
  | _, 0 => []
  | i, n + 1 => fresh block (i + 1) n ++ [(block, i)]

/-- The slots from `i` on, of one block. -/
lemma mem_fresh : x ∈ fresh block i n ↔ x.1 = block ∧ i ≤ x.2 ∧ x.2 < i + n := by
  induction n generalizing i with
  | zero =>
    simp only [fresh, List.not_mem_nil, false_iff]
    omega
  | succ n ih =>
    rw [fresh, List.mem_append, ih, List.mem_singleton, Prod.ext_iff]
    simp only
    omega

/-- No slot is put twice. -/
lemma nodup_fresh (block i n : Nat) : (fresh block i n).Nodup := by
  induction n generalizing i with
  | zero => exact List.nodup_nil
  | succ n ih =>
    refine List.nodup_append.2 ⟨ih (i + 1), List.nodup_singleton _, ?_⟩
    rintro x hx _ hy rfl
    rw [List.mem_singleton.1 hy, mem_fresh] at hx
    simp only at hx
    omega

/-- So many slots are put. -/
lemma length_fresh (block i n : Nat) : (fresh block i n).length = n := by
  induction n generalizing i with
  | zero => rfl
  | succ n ih => rw [fresh, List.length_append, ih, List.length_singleton]

/-- Only the slots of the loop are written. -/
lemma bump_frame (out : x ∉ fresh block i n) : (bump block i n (next, b)).1 x = next x := by
  induction n generalizing i next b with
  | zero => rfl
  | succ n ih =>
    rw [fresh, List.mem_append, not_or, List.mem_singleton] at out
    rw [bump, ih out.1, Function.update_of_ne out.2]

/-- The slots of the loop are linked before what the batch had. -/
lemma bump_seg (sg : Seg next b.batchHead l e) (out : ∀ x ∈ fresh block i n, x ∉ l) :
    Seg (bump block i n (next, b)).1 (bump block i n (next, b)).2.batchHead (fresh block i n ++ l) e := by
  induction n generalizing i next b l with
  | zero => exact sg
  | succ n ih =>
    rw [bump, fresh, List.append_assoc]
    have first : (block, i) ∉ l := out _ (List.mem_append_right _ (List.mem_singleton.2 rfl))
    apply ih
    · apply Seg.cons
      rw [Function.update_self]
      apply sg.frame
      intro k hk
      apply Function.update_of_ne
      rintro rfl
      exact first hk
    · intro x hx hl
      rcases List.mem_cons.1 hl with rfl | hl
      · rw [mem_fresh] at hx
        omega
      · exact out x (List.mem_append_left _ hx) hl

/-- So many slots are counted. -/
lemma bump_moved : (bump block i n (next, b)).2.moved = b.moved + n := by
  induction n generalizing i next b with
  | zero => rfl
  | succ n ih =>
    rw [bump, ih]
    simp only
    omega

/-- The first of an empty batch is its tail. -/
lemma bump_tail (tail : b.batchTail = l.getLast?) (none : l = [] ↔ b.batchHead = none) :
    (bump block i n (next, b)).2.batchTail = (fresh block i n ++ l).getLast? := by
  induction n generalizing i next b l with
  | zero => exact tail
  | succ n ih =>
    rw [bump, fresh, List.append_assoc]
    apply ih
    · simp only [List.singleton_append, List.getLast?_cons, ← none]
      split
      · rename_i empty
        rw [empty]
        rfl
      · rename_i some
        rw [tail, List.getLast?_eq_some_getLast some]
        rfl
    · simp

/-! ## The lists at the places -/

inductive Place (θ : Type) where
  | cache (t : θ)
  | batch (t : θ)
  | shared
  deriving DecidableEq

/-- A batch is a segment with its last slot and its length. -/
structure Spelled (next : Slot → Option Slot) (b : Batch) (l : List Slot) : Prop where
  seg : ∃ e, Seg next b.batchHead l e
  tail : b.batchTail = l.getLast?
  moved : b.moved = l.length
  none : l = [] ↔ b.batchHead = none

/-- The batch that a thread has between its chain and the shared one. -/
def Call.Spells (next : Slot → Option Slot) : Call → List Slot → Prop
  | .idle, l => l = []
  | .splice b, l => Spelled next b l
  | .flush, l => l = []
  | .peeled batchHead batchTail, l => (∃ e, Seg next batchHead l e) ∧ batchTail = l.getLast?

/-- The links spell the lists. -/
structure Chains (s : State θ) (pl : Place θ → List Slot) : Prop where
  cache : ∀ t, SList s.next (s.cache t).head (pl (.cache t))
  count : ∀ t, (s.cache t).count = (pl (.cache t)).length
  batch : ∀ t, (s.call t).Spells s.next (pl (.batch t))
  shared : SList s.next s.sharedHead (pl .shared)

/-- The bump cursors are in their blocks, and the extents are numbered. -/
structure Blocks (memSlots : Nat) (s : State θ) : Prop where
  bump : s.bumpNext ≤ memSlots
  room : ∀ e ∈ s.extents, e.bumpNext ≤ e.slots
  number : ∀ e ∈ s.extents, 0 < e.block ∧ e.block ≤ s.extents.length
  nodup : (s.extents.map Extent.block).Nodup

/-- No block is added and no slot is used for the first time. -/
lemma Blocks.same (bl : Blocks memSlots s) (bumpNext : u.bumpNext = s.bumpNext) (extents : u.extents = s.extents) :
    Blocks memSlots u := by
  refine ⟨bumpNext ▸ bl.bump, ?_, ?_, ?_⟩
  all_goals rw [extents]
  · exact bl.room
  · exact bl.number
  · exact bl.nodup

structure Placed (memSlots : Nat) (s : State θ) (pl : Place θ → List Slot) : Prop where
  chains : Chains s pl
  stock : Stock pl s.bumped s.live
  blocks : Blocks memSlots s

variable {pl pl' : Place θ → List Slot}

/-- Nothing was allocated yet. -/
lemma Placed.init (next : Slot → Option Slot) (g : Bool) :
    Placed memSlots ({ next := next, growth := g } : State θ) fun _ => [] := by
  refine ⟨⟨fun _ => .nil, fun _ => rfl, fun _ => rfl, .nil⟩, .empty (fun _ => rfl) (fun x => ?_) fun _ => rfl,
    ⟨Nat.zero_le _, nofun, nofun, List.nodup_nil⟩⟩
  simp [State.bumped]

/-- Links outside the batch do not matter. -/
lemma Spelled.frame {next' : Slot → Option Slot} (sp : Spelled next b l) (same : ∀ x ∈ l, next' x = next x) :
    Spelled next' b l := by
  obtain ⟨e, sg⟩ := sp.seg
  exact ⟨⟨e, sg.frame same⟩, sp.tail, sp.moved, sp.none⟩

/-- Links outside what the call holds do not matter. -/
lemma Call.Spells.frame {next' : Slot → Option Slot} {c : Call} (sp : c.Spells next l)
    (same : ∀ x ∈ l, next' x = next x) : c.Spells next' l := by
  cases c with
  | idle => exact sp
  | splice b => exact Spelled.frame sp same
  | flush => exact sp
  | peeled _ _ =>
    obtain ⟨⟨e, sg⟩, tail⟩ := sp
    exact ⟨⟨e, sg.frame same⟩, tail⟩

/-! ## One thread is in a locked section -/

/-- A thread is in the locked section of `refill` with its batch, and all other places are as they are. -/
structure Drawn (memSlots : Nat) (s : State θ) (t : θ) (b : Batch) (pl : Place θ → List Slot) : Prop where
  cache : ∀ t', SList s.next (s.cache t').head (pl (.cache t'))
  count : ∀ t', (s.cache t').count = (pl (.cache t')).length
  batch : ∀ t' ≠ t, (s.call t').Spells s.next (pl (.batch t'))
  mine : Spelled s.next b (pl (.batch t))
  shared : SList s.next s.sharedHead (pl .shared)
  stock : Stock pl s.bumped s.live
  blocks : Blocks memSlots s

/-- A thread enters the locked section of `refill`. -/
lemma Placed.drawn (pd : Placed memSlots s pl) (idle : s.call t = .idle) : Drawn memSlots s t {} pl := by
  have empty : pl (.batch t) = [] := by
    have sp := pd.chains.batch t
    rw [idle] at sp
    exact sp
  refine ⟨pd.chains.cache, pd.chains.count, fun t' _ => pd.chains.batch t', ?_, pd.chains.shared, pd.stock,
    pd.blocks⟩
  rw [empty]
  exact ⟨⟨none, .nil⟩, rfl, rfl, fun _ => rfl, fun _ => rfl⟩

/-- The batch is nonempty: the thread leaves the section with it. -/
lemma Drawn.splice [DecidableEq θ] (dr : Drawn memSlots s t b pl) :
    Placed memSlots { s with call := Function.update s.call t (.splice b) } pl := by
  refine ⟨⟨dr.cache, dr.count, fun t' => ?_, dr.shared⟩, dr.stock, dr.blocks.same rfl rfl⟩
  simp only [Function.update_apply]
  split
  · rename_i e
    subst e
    exact dr.mine
  · rename_i ne
    exact dr.batch t' ne

/-- The batch is empty: the thread leaves the section with nothing. -/
lemma Drawn.exhausted [DecidableEq θ] (dr : Drawn memSlots s t b pl) (idle : s.call t = .idle)
    (none : b.batchHead = none) : Placed memSlots s pl := by
  refine ⟨⟨dr.cache, dr.count, fun t' => ?_, dr.shared⟩, dr.stock, dr.blocks⟩
  by_cases e : t' = t
  · subst e
    rw [idle]
    exact dr.mine.none.2 none
  · exact dr.batch t' e

/-- Recycled slots go from the shared chain to the batch. -/
lemma Drawn.recycle [DecidableEq θ] (dr : Drawn memSlots s t {} pl) :
    ∃ pl', Drawn memSlots s.recycle.1 t s.recycle.2 pl' := by
  have empty : pl (.batch t) = [] := dr.mine.none.2 rfl
  unfold State.recycle
  split
  · exact ⟨pl, dr⟩
  · rename_i slot hd
    have sl := dr.shared
    obtain ⟨e, eq, sg, rest⟩ := detach_spec BATCH none 0 sl
    rw [hd] at eq sg sl
    simp only [eq, Option.or_none, Nat.zero_add]
    refine ⟨Function.update (Function.update pl .shared ((pl .shared).drop BATCH)) (.batch t)
      ((pl .shared).take BATCH), fun t' => ?_, fun t' => ?_, fun t' ne => ?_, ?_, ?_, ?_,
      dr.blocks.same rfl rfl⟩
    · exact dr.cache t'
    · exact dr.count t'
    · have ne' : Place.batch t' ≠ .batch t := fun e => ne (Place.batch.inj e)
      rw [Function.update_of_ne ne']
      exact dr.batch t' ne
    · rw [Function.update_self]
      refine ⟨⟨e, sg⟩, rfl, rfl, ?_⟩
      have pos : (pl .shared) ≠ [] := by
        intro h
        rw [h] at sl
        cases sl
      simp [BATCH, pos]
    · rw [Function.update_of_ne (by nofun), Function.update_self]
      exact rest
    · refine dr.stock.move ⟨.batch t, .shared, nofun, fun r h h' => ?_, ?_⟩
      · rw [Function.update_of_ne h, Function.update_of_ne h']
      · rw [Function.update_self, Function.update_of_ne (by nofun), Function.update_self,
          List.take_append_drop, empty, List.nil_append]

/-- Slots of a never-used region are put before the batch. -/
lemma Drawn.bump [DecidableEq θ] (block i n : Nat) (dr : Drawn memSlots s t b pl)
    (new : ∀ x ∈ fresh block i n, s.bumped x = false)
    (next : u.next = (bump block i n (s.next, b)).1) (cache : u.cache = s.cache) (call : u.call = s.call)
    (shared : u.sharedHead = s.sharedHead) (live : u.live = s.live)
    (bumped : ∀ x, u.bumped x = true ↔ s.bumped x = true ∨ x ∈ fresh block i n)
    (blocks : Blocks memSlots u) : ∃ pl', Drawn memSlots u t (bump block i n (s.next, b)).2 pl' := by
  have out : ∀ {q x}, x ∈ pl q → x ∉ fresh block i n := by
    intro q x hx hn
    have taken := (dr.stock.live hx).1
    rw [new x hn] at taken
    cases taken
  have same : ∀ {q}, ∀ x ∈ pl q, u.next x = s.next x := by
    intro q x hx
    rw [next]
    exact bump_frame (out hx)
  obtain ⟨e, sg⟩ := dr.mine.seg
  refine ⟨Function.update pl (.batch t) (fresh block i n ++ pl (.batch t)), fun t' => ?_, fun t' => ?_,
    fun t' ne => ?_, ?_, ?_, ?_, blocks⟩
  · rw [cache]
    exact (dr.cache t').frame same
  · rw [cache]
    exact dr.count t'
  · have ne' : Place.batch t' ≠ .batch t := fun e => ne (Place.batch.inj e)
    rw [Function.update_of_ne ne', call]
    exact (dr.batch t' ne).frame same
  · rw [Function.update_self, next]
    refine ⟨⟨e, bump_seg sg fun x hn hx => out hx hn⟩, bump_tail dr.mine.tail dr.mine.none, ?_, ?_⟩
    · rw [bump_moved, dr.mine.moved, List.length_append, length_fresh]
      omega
    · have : Seg (SlabPool.bump block i n (s.next, b)).1 (SlabPool.bump block i n (s.next, b)).2.batchHead
          (fresh block i n ++ pl (.batch t)) e := bump_seg sg fun x hn hx => out hx hn
      constructor
      · intro h
        rw [h] at this
        obtain ⟨e1, e2⟩ := List.append_eq_nil_iff.1 h
        have zero := length_fresh block i n
        rw [e1] at zero
        subst zero
        exact dr.mine.none.1 e2
      · intro h
        rw [h] at this
        generalize fresh block i n ++ pl (.batch t) = l at this
        cases this with
        | nil => rfl
  · rw [Function.update_of_ne (by nofun), shared]
    exact dr.shared.frame same
  · rw [live]
    refine dr.stock.putAll (p := .batch t) (nodup_fresh block i n) new bumped (fun r h => ?_) ?_
    · exact Function.update_of_ne h ..
    · rw [Function.update_self]

/-- The slots that were used at least once. -/
lemma bumped_iff : s.bumped x = true ↔
    x.1 = 0 ∧ x.2 < s.bumpNext ∨ ∃ e ∈ s.extents, e.block = x.1 ∧ x.2 < e.bumpNext := by
  simp [State.bumped]

/-- The never-used region of the primary block is taken from its front. -/
lemma Blocks.primary (bl : Blocks memSlots s) :
    (∀ x ∈ fresh 0 s.bumpNext n, s.bumped x = false) ∧
      ∀ x, State.bumped { s with bumpNext := s.bumpNext + n } x = true ↔
        s.bumped x = true ∨ x ∈ fresh 0 s.bumpNext n := by
  refine ⟨fun x hx => Bool.eq_false_iff.2 fun h => ?_, fun x => ?_⟩
  · rw [mem_fresh] at hx
    rcases bumped_iff.1 h with h | ⟨e, he, eb, _⟩
    · omega
    · have := (bl.number e he).1
      omega
  · rw [bumped_iff, bumped_iff, mem_fresh]
    constructor
    · rintro (h | h)
      · by_cases lt : x.2 < s.bumpNext
        · exact .inl (.inl ⟨h.1, lt⟩)
        · exact .inr ⟨h.1, Nat.le_of_not_lt lt, h.2⟩
      · exact .inl (.inr h)
    · rintro ((h | h) | h)
      · exact .inl ⟨h.1, Nat.lt_of_lt_of_le h.2 (Nat.le_add_right ..)⟩
      · exact .inr h
      · exact .inl ⟨h.1, h.2.2⟩

/-- The batch gets slots of the slab that were never used. -/
lemma Drawn.topUp [DecidableEq θ] (dr : Drawn memSlots s t b pl) :
    ∃ pl', Drawn memSlots (State.topUp memSlots (s, b)).1 t (State.topUp memSlots (s, b)).2 pl' := by
  unfold State.topUp
  dsimp only
  split
  · obtain ⟨new, bumped⟩ := dr.blocks.primary (n := min (BATCH - b.moved) (memSlots - s.bumpNext))
    have le := dr.blocks.bump
    refine dr.bump _ _ _ new rfl rfl rfl rfl rfl bumped ⟨?_, dr.blocks.room, dr.blocks.number, dr.blocks.nodup⟩
    simp only
    omega
  · exact ⟨pl, dr⟩

/-- A new extent has no slot that was bumped. -/
lemma Drawn.extend (dr : Drawn memSlots s t b pl) :
    Drawn memSlots
      { s with extents := { block := s.extents.length + 1, slots := kGrowSlots } :: s.extents } t b pl := by
  have bumped : State.bumped
      { s with extents := { block := s.extents.length + 1, slots := kGrowSlots } :: s.extents } = s.bumped := by
    funext x
    apply Bool.eq_iff_iff.2
    rw [bumped_iff, bumped_iff]
    simp
  refine ⟨dr.cache, dr.count, dr.batch, dr.mine, dr.shared, ?_, dr.blocks.bump, ?_, ?_, ?_⟩
  · rw [bumped]
    exact dr.stock
  · intro e he
    rcases List.mem_cons.1 he with rfl | he
    · exact Nat.zero_le _
    · exact dr.blocks.room e he
  · intro e he
    rcases List.mem_cons.1 he with rfl | he
    · exact ⟨Nat.succ_pos _, Nat.le_refl _⟩
    · obtain ⟨pos, le⟩ := dr.blocks.number e he
      exact ⟨pos, Nat.le_succ_of_le le⟩
  · refine List.nodup_cons.2 ⟨fun h => ?_, dr.blocks.nodup⟩
    obtain ⟨e, he, eq⟩ := List.mem_map.1 h
    have := (dr.blocks.number e he).2
    simp only at eq
    omega

/-- An extent is the one with its number. -/
lemma Blocks.eq_of_block (bl : Blocks memSlots s) {e e' : Extent} (he : e ∈ s.extents) (he' : e' ∈ s.extents)
    (eq : e'.block = e.block) : e' = e :=
  List.inj_on_of_nodup_map bl.nodup he' he eq

variable [DecidableEq θ]

/-- The batch gets slots of an extent that were never used. -/
lemma Drawn.bumpExtent (dr : Drawn memSlots s t b pl) {e : Extent} (he : e ∈ s.extents) :
    ∃ pl', Drawn memSlots (s.bumpExtent b e).1 t (s.bumpExtent b e).2 pl' := by
  unfold State.bumpExtent
  dsimp only
  generalize hn : min BATCH (e.slots - e.bumpNext) = n
  have le := dr.blocks.room e he
  -- what an extent becomes
  have image : ∀ e' ∈ s.extents,
      (if e'.block = e.block then { e' with bumpNext := e'.bumpNext + n } else e').block = e'.block := by
    intro e' _
    split <;> rfl
  refine dr.bump e.block e.bumpNext n (fun x hx => ?_) rfl rfl rfl rfl rfl
    (fun x => ?_) ⟨dr.blocks.bump, ?_, ?_, ?_⟩
  · apply Bool.eq_false_iff.2
    intro h
    rw [mem_fresh] at hx
    rcases bumped_iff.1 h with h | ⟨e', he', eb, lt⟩
    · have := (dr.blocks.number e he).1
      omega
    · have eq := dr.blocks.eq_of_block he he' (eb.trans hx.1)
      subst eq
      omega
  · rw [bumped_iff, bumped_iff, mem_fresh]
    constructor
    · rintro (h | ⟨_, hm, eb, lt⟩)
      · exact .inl (.inl h)
      · obtain ⟨e', he', rfl⟩ := List.mem_map.1 hm
        rw [image e' he'] at eb
        split at lt
        · rename_i eq
          have := dr.blocks.eq_of_block he he' eq
          subst this
          by_cases old : x.2 < e'.bumpNext
          · exact .inl (.inr ⟨e', he', eb, old⟩)
          · exact .inr ⟨eb.symm, Nat.le_of_not_lt old, lt⟩
        · exact .inl (.inr ⟨e', he', eb, lt⟩)
    · rintro ((h | ⟨e', he', eb, lt⟩) | h)
      · exact .inl h
      · refine .inr ⟨_, List.mem_map_of_mem he', (image e' he').trans eb, ?_⟩
        split
        · exact Nat.lt_of_lt_of_le lt (Nat.le_add_right ..)
        · exact lt
      · refine .inr ⟨_, List.mem_map_of_mem he, (image e he).trans h.1.symm, ?_⟩
        rw [if_pos rfl]
        exact h.2.2
  · intro e' he'
    obtain ⟨e0, he0, rfl⟩ := List.mem_map.1 he'
    split
    · rename_i eq
      have := dr.blocks.eq_of_block he he0 eq
      subst this
      simp only
      omega
    · exact dr.blocks.room e0 he0
  · intro e' he'
    obtain ⟨e0, he0, rfl⟩ := List.mem_map.1 he'
    rw [image e0 he0, List.length_map]
    exact dr.blocks.number e0 he0
  · have same : List.map Extent.block (s.extents.map fun e' =>
        if e'.block = e.block then { e' with bumpNext := e'.bumpNext + n } else e') =
          s.extents.map Extent.block := by
      rw [List.map_map]
      exact List.map_congr_left image
    simp only [same]
    exact dr.blocks.nodup

/-- The batch gets slots of an extent, perhaps a new one. -/
lemma Drawn.grow {memory : Bool} (dr : Drawn memSlots s t b pl) :
    ∃ pl', Drawn memSlots (State.grow memory (s, b)).1 t (State.grow memory (s, b)).2 pl' := by
  unfold State.grow
  dsimp only
  split
  · split
    · rename_i e he
      exact dr.bumpExtent (List.mem_of_find?_eq_some he)
    · split
      · exact dr.extend.bumpExtent List.mem_cons_self
      · exact ⟨pl, dr⟩
  · exact ⟨pl, dr⟩

/-- The locked section of `refill` keeps every slot at one place. -/
lemma Drawn.refill (dr : Drawn memSlots s t {} pl) (memory : Bool) :
    ∃ pl', Drawn memSlots (s.refill memSlots memory).1 t (s.refill memSlots memory).2 pl' := by
  unfold State.refill
  split
  · exact ⟨pl, dr⟩
  · obtain ⟨pl1, dr1⟩ := dr.recycle
    obtain ⟨pl2, dr2⟩ := dr1.topUp
    exact dr2.grow

omit [DecidableEq θ] in
/-- The locked section of `refill` leaves the caches, the calls and the live slots alone. -/
lemma refill_same (memSlots : Nat) (memory : Bool) (s : State θ) :
    (s.refill memSlots memory).1.call = s.call ∧ (s.refill memSlots memory).1.life = s.life ∧
      (s.refill memSlots memory).1.cache = s.cache ∧ (s.refill memSlots memory).1.live = s.live ∧
      (s.refill memSlots memory).1.growth = s.growth := by
  unfold State.refill State.grow State.topUp State.recycle State.bumpExtent
  dsimp only
  repeat' split
  all_goals exact ⟨rfl, rfl, rfl, rfl, rfl⟩

/-! ## The steps -/

/-- The chain of one thread changes at its front. -/
lemma Placed.cacheStep {c : Cache} {l : List Slot} {taken : Slot → Bool} (pd : Placed memSlots s pl)
    (next : ∀ x, (∃ q, x ∈ pl q) → u.next x = s.next x) (cache : u.cache = Function.update s.cache t c)
    (call : u.call = Function.update s.call t .idle ∨ u.call = Function.update s.call t .flush)
    (idle : s.call t = .idle) (sl : SList u.next c.head l) (count : c.count = l.length)
    (shared : u.sharedHead = s.sharedHead) (bumped : u.bumped = s.bumped) (live : u.live = taken)
    (stock : Stock (Function.update pl (.cache t) l) s.bumped taken) (blocks : Blocks memSlots u) :
    Placed memSlots u (Function.update pl (.cache t) l) := by
  have same : ∀ {q}, ∀ x ∈ pl q, u.next x = s.next x := fun x hx => next x ⟨_, hx⟩
  refine ⟨⟨fun t' => ?_, fun t' => ?_, fun t' => ?_, ?_⟩, by rw [bumped, live]; exact stock, blocks⟩
  · by_cases e : t' = t
    · subst e
      rw [cache, Function.update_self, Function.update_self]
      exact sl
    · have ne : Place.cache t' ≠ .cache t := fun e' => e (Place.cache.inj e')
      rw [cache, Function.update_of_ne e, Function.update_of_ne ne]
      exact (pd.chains.cache t').frame same
  · by_cases e : t' = t
    · subst e
      rw [cache, Function.update_self, Function.update_self]
      exact count
    · have ne : Place.cache t' ≠ .cache t := fun e' => e (Place.cache.inj e')
      rw [cache, Function.update_of_ne e, Function.update_of_ne ne]
      exact pd.chains.count t'
  · rw [Function.update_of_ne (by nofun)]
    have sp := pd.chains.batch t'
    by_cases e : t' = t
    · subst e
      rw [idle] at sp
      rcases call with call | call
      all_goals
        rw [call, Function.update_self]
        exact sp
    · have same' : u.call t' = s.call t' := by
        rcases call with call | call
        all_goals rw [call, Function.update_of_ne e]
      rw [same']
      exact sp.frame same
  · rw [Function.update_of_ne (by nofun), shared]
    exact pd.chains.shared.frame same

/-- A thread takes a slot out of its cache. -/
lemma Placed.alloc (pd : Placed memSlots s pl) (idle : s.call t = .idle) (hd : (s.cache t).head = some x) :
    ∃ pl', Placed memSlots
      { s with
        cache := Function.update s.cache t { head := s.next x, count := (s.cache t).count - 1 }
        live := Function.update s.live x true } pl' := by
  have sl := pd.chains.cache t
  have count := pd.chains.count t
  rw [hd] at sl
  generalize eq : pl (.cache t) = l at sl count
  cases sl with
  | @cons _ l sl =>
    refine ⟨_, pd.cacheStep (t := t) (l := l) (fun _ _ => rfl) rfl (.inl ?_) idle sl ?_ rfl rfl rfl ?_
      (pd.blocks.same rfl rfl)⟩
    · rw [← idle, Function.update_eq_self]
    · simp only [count, List.length_cons, Nat.add_sub_cancel]
    · refine pd.stock.spend (p := .cache t) (fun r ne => Function.update_of_ne ne ..) ?_
      rw [Function.update_self, eq]

/-- A thread puts a slot into its cache. -/
lemma Placed.free (pd : Placed memSlots s pl) (idle : s.call t = .idle) (live : s.live x = true) :
    ∃ pl', Placed memSlots
      { s with
        next := Function.update s.next x (s.cache t).head
        cache := Function.update s.cache t { head := some x, count := (s.cache t).count + 1 }
        live := Function.update s.live x false
        call := Function.update s.call t (if (s.cache t).count + 1 > 2 * BATCH then .flush else .idle) } pl' := by
  have out : ∀ {q}, x ∉ pl q := by
    intro q hx
    rw [(pd.stock.live hx).2] at live
    cases live
  have same : ∀ y, (∃ q, y ∈ pl q) → Function.update s.next x (s.cache t).head y = s.next y := by
    rintro y ⟨q, hy⟩
    apply Function.update_of_ne
    rintro rfl
    exact out hy
  refine ⟨_, pd.cacheStep (t := t) (l := x :: pl (.cache t)) same rfl ?_ idle ?_ ?_ rfl rfl rfl ?_
    (pd.blocks.same rfl rfl)⟩
  · dsimp only
    split
    · exact .inr rfl
    · exact .inl rfl
  · apply SList.cons
    simp only [Function.update_self]
    exact (pd.chains.cache t).frame fun y hy => same y ⟨_, hy⟩
  · simp only [pd.chains.count t, List.length_cons]
  · refine pd.stock.restore (p := .cache t) live (fun r ne => Function.update_of_ne ne ..) ?_
    rw [Function.update_self]

/-- A list with a last element. -/
lemma split_last {l : List Slot} {tail : Slot} (h : some tail = l.getLast?) : ∃ m, l = m ++ [tail] := by
  have ne : l ≠ [] := by
    rintro rfl
    cases h
  refine ⟨l.dropLast, ?_⟩
  rw [List.getLast?_eq_some_getLast ne] at h
  rw [Option.some.inj h, List.dropLast_append_getLast]

omit [DecidableEq θ] in
/-- Two places of the custody make a list without a slot twice. -/
lemma nodup_two {q r : Place θ} (cus : Custody pl) (ne : q ≠ r) : (pl q ++ pl r).Nodup := by
  refine List.nodup_append.2 ⟨cus.nodup q, cus.nodup r, ?_⟩
  rintro y hy _ hy' rfl
  exact ne (cus.unique hy hy')

/-- A batch joins the free list. -/
lemma Placed.splice {tail : Slot} (pd : Placed memSlots s pl) (call : s.call t = .splice b)
    (last : b.batchTail = some tail) :
    ∃ pl', Placed memSlots
      { s with
        next := Function.update s.next tail (s.cache t).head
        cache := Function.update s.cache t { head := b.batchHead, count := (s.cache t).count + b.moved }
        call := Function.update s.call t .idle } pl' := by
  have sp : Spelled s.next b (pl (.batch t)) := by
    have sp := pd.chains.batch t
    rw [call] at sp
    exact sp
  obtain ⟨m, eq⟩ := split_last (last.symm.trans sp.tail)
  obtain ⟨e, sg⟩ := sp.seg
  have mine : tail ∈ pl (.batch t) := eq ▸ List.mem_append_right _ List.mem_cons_self
  have other : ∀ {q}, q ≠ .batch t → ∀ y ∈ pl q, Function.update s.next tail (s.cache t).head y = s.next y := by
    intro q ne y hy
    apply Function.update_of_ne
    rintro rfl
    exact ne (pd.stock.custody.unique hy mine)
  refine ⟨Function.update (Function.update pl (.batch t) []) (.cache t) (pl (.batch t) ++ pl (.cache t)),
    ⟨fun t' => ?_, fun t' => ?_, fun t' => ?_, ?_⟩, ?_, pd.blocks.same rfl rfl⟩
  · by_cases e : t' = t
    · subst e
      simp only [Function.update_self]
      have nd := nodup_two (q := .batch t') (r := .cache t') pd.stock.custody nofun
      rw [eq] at sg nd ⊢
      exact sg.splice (pd.chains.cache t') nd
    · have ne : Place.cache t' ≠ .cache t := fun e' => e (Place.cache.inj e')
      simp only [Function.update_of_ne e, Function.update_of_ne ne]
      rw [Function.update_of_ne (by nofun)]
      exact (pd.chains.cache t').frame (other nofun)
  · by_cases e : t' = t
    · subst e
      simp only [Function.update_self, List.length_append, pd.chains.count t', sp.moved]
      exact Nat.add_comm ..
    · have ne : Place.cache t' ≠ .cache t := fun e' => e (Place.cache.inj e')
      simp only [Function.update_of_ne e, Function.update_of_ne ne]
      rw [Function.update_of_ne (by nofun)]
      exact pd.chains.count t'
  · rw [Function.update_of_ne (by nofun)]
    by_cases e : t' = t
    · subst e
      simp only [Function.update_self]
      exact rfl
    · have ne : Place.batch t' ≠ .batch t := fun e' => e (Place.batch.inj e')
      simp only [Function.update_of_ne e, Function.update_of_ne ne]
      exact (pd.chains.batch t').frame (other ne)
  · rw [Function.update_of_ne (by nofun), Function.update_of_ne (by nofun)]
    exact pd.chains.shared.frame (other nofun)
  · refine pd.stock.move ⟨.batch t, .cache t, nofun, fun r h h' => ?_, ?_⟩
    · rw [Function.update_of_ne h', Function.update_of_ne h]
    · rw [Function.update_of_ne (by nofun), Function.update_self, Function.update_self, List.nil_append]

/-- `flush` cuts the front of the chain off and leaves `BATCH` slots. -/
lemma Placed.peel {tail : Slot} (pd : Placed memSlots s pl) (call : s.call t = .flush)
    (long : ¬(s.cache t).count ≤ BATCH)
    (last : follow s.next ((s.cache t).count - BATCH - 1) (s.cache t).head = some tail) :
    ∃ pl', Placed memSlots
      { s with
        cache := Function.update s.cache t { head := s.next tail, count := BATCH }
        call := Function.update s.call t (.peeled (s.cache t).head (some tail)) } pl' := by
  have empty : pl (.batch t) = [] := by
    have sp := pd.chains.batch t
    rw [call] at sp
    exact sp
  have count := pd.chains.count t
  generalize hk : (s.cache t).count - BATCH = k at last
  -- the front of the chain, and its last slot
  have sl := pd.chains.cache t
  rw [← List.take_append_drop k (pl (.cache t))] at sl
  obtain ⟨e, sg, rest⟩ := Seg.split sl
  have front : (pl (.cache t)).take k ≠ [] := by
    intro h
    have := congrArg List.length h
    rw [List.length_take, List.length_nil] at this
    omega
  obtain ⟨m, eq⟩ := split_last (List.getLast?_eq_some_getLast front).symm
  generalize hx : ((pl (.cache t)).take k).getLast front = x at eq
  have len : m.length = k - 1 := by
    have := congrArg List.length eq
    rw [List.length_take, List.length_append, List.length_singleton] at this
    omega
  have found : x = tail := by
    rw [eq] at sg
    have reach := follow_eq sg
    rw [len, last] at reach
    exact (Option.some.inj reach).symm
  subst found
  have stop : s.next x = e := by
    rw [eq] at sg
    exact sg.end_eq
  refine ⟨Function.update (Function.update pl (.cache t) ((pl (.cache t)).drop k)) (.batch t)
    ((pl (.cache t)).take k), ⟨fun t' => ?_, fun t' => ?_, fun t' => ?_, ?_⟩, ?_, pd.blocks.same rfl rfl⟩
  · rw [Function.update_of_ne (by nofun)]
    by_cases e' : t' = t
    · subst e'
      simp only [Function.update_self]
      rw [stop]
      exact rest
    · have ne : Place.cache t' ≠ .cache t := fun h => e' (Place.cache.inj h)
      simp only [Function.update_of_ne e', Function.update_of_ne ne]
      exact pd.chains.cache t'
  · rw [Function.update_of_ne (by nofun)]
    by_cases e' : t' = t
    · subst e'
      simp only [Function.update_self, List.length_drop]
      omega
    · have ne : Place.cache t' ≠ .cache t := fun h => e' (Place.cache.inj h)
      simp only [Function.update_of_ne e', Function.update_of_ne ne]
      exact pd.chains.count t'
  · by_cases e' : t' = t
    · subst e'
      simp only [Function.update_self]
      refine ⟨⟨e, sg⟩, ?_⟩
      rw [eq, List.getLast?_concat]
    · have ne : Place.batch t' ≠ .batch t := fun h => e' (Place.batch.inj h)
      simp only [Function.update_of_ne e', Function.update_of_ne ne]
      rw [Function.update_of_ne (by nofun)]
      exact pd.chains.batch t'
  · rw [Function.update_of_ne (by nofun), Function.update_of_ne (by nofun)]
    exact pd.chains.shared
  · refine pd.stock.move ⟨.batch t, .cache t, nofun, fun r h h' => ?_, ?_⟩
    · rw [Function.update_of_ne h, Function.update_of_ne h']
    · rw [Function.update_self, Function.update_of_ne (by nofun), Function.update_self,
        List.take_append_drop, empty, List.nil_append]

/-- `flush` puts what it cut off before the shared chain. -/
lemma Placed.flush {batchHead : Option Slot} {tail : Slot} (pd : Placed memSlots s pl)
    (call : s.call t = .peeled batchHead (some tail)) :
    ∃ pl', Placed memSlots
      { s with
        next := Function.update s.next tail s.sharedHead
        sharedHead := batchHead
        call := Function.update s.call t .idle } pl' := by
  obtain ⟨⟨e, sg⟩, last⟩ : (∃ e, Seg s.next batchHead (pl (.batch t)) e) ∧
      some tail = (pl (.batch t)).getLast? := by
    have sp := pd.chains.batch t
    rw [call] at sp
    exact sp
  obtain ⟨m, eq⟩ := split_last last
  have mine : tail ∈ pl (.batch t) := eq ▸ List.mem_append_right _ List.mem_cons_self
  have other : ∀ {q}, q ≠ .batch t → ∀ y ∈ pl q, Function.update s.next tail s.sharedHead y = s.next y := by
    intro q ne y hy
    apply Function.update_of_ne
    rintro rfl
    exact ne (pd.stock.custody.unique hy mine)
  refine ⟨Function.update (Function.update pl (.batch t) []) .shared (pl (.batch t) ++ pl .shared),
    ⟨fun t' => ?_, fun t' => ?_, fun t' => ?_, ?_⟩, ?_, pd.blocks.same rfl rfl⟩
  · rw [Function.update_of_ne (by nofun), Function.update_of_ne (by nofun)]
    exact (pd.chains.cache t').frame (other nofun)
  · rw [Function.update_of_ne (by nofun), Function.update_of_ne (by nofun)]
    exact pd.chains.count t'
  · rw [Function.update_of_ne (by nofun)]
    by_cases e : t' = t
    · subst e
      simp only [Function.update_self]
      exact rfl
    · have ne : Place.batch t' ≠ .batch t := fun h => e (Place.batch.inj h)
      simp only [Function.update_of_ne e, Function.update_of_ne ne]
      exact (pd.chains.batch t').frame (other ne)
  · rw [Function.update_self]
    have nd := nodup_two (q := .batch t) (r := .shared) pd.stock.custody nofun
    rw [eq] at sg nd ⊢
    exact sg.splice pd.chains.shared nd
  · refine pd.stock.move ⟨.batch t, .shared, nofun, fun r h h' => ?_, ?_⟩
    · rw [Function.update_of_ne h', Function.update_of_ne h]
    · rw [Function.update_of_ne (by nofun), Function.update_self, Function.update_self, List.nil_append]

/-- `Prefault` puts never-used slots before the shared chain. -/
lemma Placed.prefault {slots : Nat} (pd : Placed memSlots s pl) :
    ∃ pl', Placed memSlots (s.prefault memSlots slots) pl' := by
  unfold State.prefault
  dsimp only
  generalize hn : min slots (memSlots - s.bumpNext) = n
  have le := pd.blocks.bump
  obtain ⟨new, bumped⟩ := pd.blocks.primary (n := n)
  have out : ∀ {q x}, x ∈ pl q → x ∉ fresh 0 s.bumpNext n := by
    intro q x hx hn
    have taken := (pd.stock.live hx).1
    rw [new x hn] at taken
    cases taken
  have same : ∀ {q}, ∀ x ∈ pl q,
      (SlabPool.bump 0 s.bumpNext n (s.next, { batchHead := s.sharedHead })).1 x = s.next x :=
    fun x hx => bump_frame (out hx)
  refine ⟨Function.update pl .shared (fresh 0 s.bumpNext n ++ pl .shared),
    ⟨fun t' => ?_, fun t' => ?_, fun t' => ?_, ?_⟩, ?_, ?_, pd.blocks.room, pd.blocks.number, pd.blocks.nodup⟩
  · rw [Function.update_of_ne (by nofun)]
    exact (pd.chains.cache t').frame same
  · rw [Function.update_of_ne (by nofun)]
    exact pd.chains.count t'
  · rw [Function.update_of_ne (by nofun)]
    exact (pd.chains.batch t').frame same
  · rw [Function.update_self]
    apply Seg.toSList
    exact bump_seg (b := { batchHead := s.sharedHead }) pd.chains.shared.toSeg fun x hn hx => out hx hn
  · refine pd.stock.putAll (p := .shared) (nodup_fresh 0 s.bumpNext n) new bumped (fun r h => ?_) ?_
    · exact Function.update_of_ne h ..
    · rw [Function.update_self]
  · simp only
    omega

omit [DecidableEq θ] in
/-- The program writes to its slots, and no chain goes through them. -/
lemma Placed.write {y : Option Slot} (pd : Placed memSlots s pl) (live : s.live x = true) :
    Placed memSlots { s with next := Function.update s.next x y } pl := by
  have same : ∀ {q}, ∀ z ∈ pl q, Function.update s.next x y z = s.next z := by
    intro q z hz
    apply Function.update_of_ne
    rintro rfl
    rw [(pd.stock.live hz).2] at live
    cases live
  exact ⟨⟨fun t' => (pd.chains.cache t').frame same, pd.chains.count,
    fun t' => (pd.chains.batch t').frame same, pd.chains.shared.frame same⟩, pd.stock, pd.blocks.same rfl rfl⟩

/-- A step keeps every slot at one place. -/
lemma Placed.step (pd : Placed memSlots s pl) (st : Step memSlots s a u) : ∃ pl', Placed memSlots u pl' := by
  have chains := pd.chains
  cases st with
  | start _ =>
    exact ⟨pl, ⟨chains.cache, chains.count, chains.batch, chains.shared⟩, pd.stock, pd.blocks.same rfl rfl⟩
  | exit _ _ =>
    exact ⟨pl, ⟨chains.cache, chains.count, chains.batch, chains.shared⟩, pd.stock, pd.blocks.same rfl rfl⟩
  | alloc _ idle hd => exact pd.alloc idle hd
  | @refill _ t memory b slot _ idle _ eq _ =>
    obtain ⟨pl', dr⟩ := (pd.drawn idle).refill memory
    have call := (refill_same memSlots memory s).1
    rw [eq] at dr call
    have pd' := dr.splice
    simp only at call pd'
    rw [call] at pd'
    exact ⟨pl', pd'⟩
  | @exhausted _ t memory b _ idle _ eq none =>
    obtain ⟨pl', dr⟩ := (pd.drawn idle).refill memory
    have call := (refill_same memSlots memory s).1
    rw [eq] at dr call
    exact ⟨pl', dr.exhausted ((congrFun call t).trans idle) none⟩
  | splice call last => exact pd.splice call last
  | free _ idle live => exact pd.free idle live
  | @flushReturn t call _ =>
    refine ⟨pl, ⟨chains.cache, chains.count, fun t' => ?_, chains.shared⟩, pd.stock, pd.blocks.same rfl rfl⟩
    have sp := chains.batch t'
    simp only [Function.update_apply]
    split
    · rename_i e
      rw [e, call] at sp
      rw [e]
      exact sp
    · exact sp
  | peel call long last => exact pd.peel call long last
  | flush call => exact pd.flush call
  | prefault _ => exact pd.prefault
  | write live => exact ⟨pl, pd.write live⟩
  | setGrowth =>
    exact ⟨pl, ⟨chains.cache, chains.count, chains.batch, chains.shared⟩, pd.stock, pd.blocks.same rfl rfl⟩

/-- The slots are placed in every state of a run. -/
lemma placed_of_runs {g : Bool} (rn : Reaches (Step memSlots) ({ next := next, growth := g } : State θ) s) :
    ∃ pl, Placed memSlots s pl := by
  refine rn.invariant (I := fun s => ∃ pl, Placed memSlots s pl) ⟨_, .init next g⟩ ?_
  rintro s a u ⟨pl, pd⟩ _ st
  exact pd.step st

end JLib.SlabPool
