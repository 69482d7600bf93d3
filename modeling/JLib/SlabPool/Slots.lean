import JLib.SlabPool.Places

/-!
# What becomes of a slot

A slot is never handed out twice: in every state of a run each slot of the pool is live, or in one chain, or
never used, and `Alloc` hands out what is at the front of a chain.

A slot can be lost. The cache of a thread has no destructor, so what is in it when the thread ends is out of
reach. Where no thread ends with slots in its cache, all slots that are not live can be allocated again.
-/

namespace JLib.SlabPool
open LTS Links State

variable {θ : Type} {memSlots : Nat} {s u : State θ} {a : Label θ} {t : θ}
  {next : Slot → Option Slot} {g : Bool} {x : Slot} {pl : Place θ → List Slot}

/-! ## Never twice -/

/-- What a slot can be. -/
inductive Whereabouts (θ : Type) where
  | live
  | held (q : Place θ)
  | unused

/-- The slot is that, where the links spell the lists. -/
def State.At (s : State θ) (pl : Place θ → List Slot) : Whereabouts θ → Slot → Prop
  | .live, x => s.live x = true
  | .held q, x => x ∈ pl q
  | .unused, x => s.bumped x = false

/-- A slot that was used is a slot of the pool. -/
lemma Blocks.slotInSlab (bl : Blocks memSlots s) (h : s.bumped x = true) : s.SlotInSlab memSlots x := by
  rcases bumped_iff.1 h with ⟨e, lt⟩ | ⟨e, he, eb, lt⟩
  · exact .inl ⟨e, Nat.lt_of_lt_of_le lt bl.bump⟩
  · exact .inr ⟨e, he, eb, Nat.lt_of_lt_of_le lt (bl.room e he)⟩

/-- A slot is one of these and no other. -/
lemma Placed.one (pd : Placed memSlots s pl) (x : Slot) : ∃! w, s.At pl w x := by
  cases hb : s.bumped x with
  | false =>
    refine ⟨.unused, hb, fun w h => ?_⟩
    cases w with
    | live =>
      rw [pd.stock.gone h] at hb
      cases hb
    | held q =>
      rw [(pd.stock.live h).1] at hb
      cases hb
    | unused => rfl
  | true =>
    have used : ¬s.At pl .unused x := by
      rw [State.At, hb]
      nofun
    rcases pd.stock.all hb with hl | ⟨q, hq⟩
    · refine ⟨.live, hl, fun w h => ?_⟩
      cases w with
      | live => rfl
      | held q =>
        rw [State.At] at h
        rw [(pd.stock.live h).2] at hl
        cases hl
      | unused => exact absurd h used
    · refine ⟨.held q, hq, fun w h => ?_⟩
      cases w with
      | live =>
        rw [State.At, (pd.stock.live hq).2] at h
        cases h
      | held q' => rw [pd.stock.custody.unique h hq]
      | unused => exact absurd h used

/-- `Alloc` takes a slot that is not live. -/
lemma Placed.front [DecidableEq θ] (pd : Placed memSlots s pl) (st : Step memSlots s (.alloc t x) u) :
    s.SlotInSlab memSlots x ∧ s.live x = false := by
  cases st with
  | alloc _ _ hd =>
    have sl := pd.chains.cache t
    rw [hd] at sl
    generalize eq : pl (.cache t) = l at sl
    cases sl with
    | cons _ =>
      have mem : x ∈ pl (.cache t) := eq ▸ List.mem_cons_self
      obtain ⟨bumped, free⟩ := pd.stock.live mem
      exact ⟨pd.blocks.slotInSlab bumped, free⟩

/-- In every state of a run the chains are lists of slots of the pool, the count of a cache is the length of
its chain, and every slot is either live, or in the chain of one thread, or in the batch that one thread
moves between its chain and the shared one, or in the shared chain, or never used. What `Alloc` returns is a
slot of the pool that is not live. -/
theorem slot_in_one_place [DecidableEq θ] (rn : Reaches (Step memSlots) ({ next := next, growth := g } : State θ) s) :
    (∃ pl : Place θ → List Slot,
      (∀ t, SList s.next (s.cache t).head (pl (.cache t)) ∧ (s.cache t).count = (pl (.cache t)).length) ∧
      SList s.next s.sharedHead (pl .shared) ∧ (∀ t, (s.call t).Spells s.next (pl (.batch t))) ∧
      (∀ q, (pl q).Nodup ∧ ∀ x ∈ pl q, s.SlotInSlab memSlots x) ∧
      ∀ x, s.SlotInSlab memSlots x → ∃! w, s.At pl w x) ∧
    ∀ t x u, Step memSlots s (.alloc t x) u → s.SlotInSlab memSlots x ∧ s.live x = false := by
  obtain ⟨pl, pd⟩ := placed_of_runs rn
  have slots : ∀ {q x}, x ∈ pl q → s.SlotInSlab memSlots x :=
    fun h => pd.blocks.slotInSlab (pd.stock.live h).1
  refine ⟨⟨pl, fun t => ⟨pd.chains.cache t, pd.chains.count t⟩, pd.chains.shared, pd.chains.batch,
    fun q => ⟨pd.stock.custody.nodup q, fun x => slots⟩, fun x _ => pd.one x⟩, fun t x u st => pd.front st⟩

/-- A thread of a pool of two slots refills its chain: it would get slot 1 first. -/
theorem slot_in_one_place_two :
    ∃ s : State Bool, Reaches (Step 2) { next := fun _ => none, growth := false } s ∧
      (s.cache true).head = some (0, 1) ∧ s.SlotInSlab 2 (0, 1) ∧ s.live (0, 1) = false := by
  have r : Reaches (Step 2) ({ next := fun _ => none, growth := false } : State Bool) _ := .refl
  have r1 := r.next (.start true) trivial (.start rfl)
  have r2 := r1.next (.refill true) trivial (@Step.refill _ _ _ _ _ _ false _ (0, 1) rfl rfl rfl rfl rfl)
  have r3 := r2.next (.splice true) trivial (@Step.splice _ _ _ _ _ _ (0, 0) rfl rfl)
  obtain ⟨inSlab, out⟩ := (slot_in_one_place r3).2 true (0, 1) _ (.alloc rfl rfl rfl)
  exact ⟨_, r3, rfl, inSlab, out⟩

/-! ## Never lost -/

/-- The condition on the steps: no thread ends with a slot in its cache, and growth is not turned off while an
extent has slots that were never used. -/
def Emptied (s : State θ) : Label θ → Prop
  | .exit t => (s.cache t).head = none
  | .setGrowth on => on = false → ∀ e ∈ s.extents, e.slots ≤ e.bumpNext
  | _ => True

/-- A thread that does not run has nothing, and what was grown is in use when growth is off. -/
structure Tidy (memSlots : Nat) (s : State θ) : Prop where
  stopped : ∀ t, s.life t ≠ .running → (s.cache t).head = none ∧ s.call t = .idle
  full : s.growth = false → ∀ e ∈ s.extents, e.slots ≤ e.bumpNext
  none : memSlots = 0 → s.extents = []

/-- No thread has run yet. -/
lemma Tidy.init : Tidy memSlots ({ next := next, growth := g } : State θ) :=
  ⟨fun _ _ => ⟨rfl, rfl⟩, fun _ => nofun, fun _ => rfl⟩

/-- Taking back the free slots leaves the extents. -/
lemma recycle_extents : s.recycle.1.extents = s.extents ∧ s.recycle.1.growth = s.growth := by
  unfold State.recycle
  split <;> exact ⟨rfl, rfl⟩

/-- Topping up leaves the extents. -/
lemma topUp_extents {b : Batch} : (State.topUp memSlots (s, b)).1.extents = s.extents ∧
    (State.topUp memSlots (s, b)).1.growth = s.growth := by
  unfold State.topUp
  dsimp only
  split <;> exact ⟨rfl, rfl⟩

/-- Without growth a refill leaves the extents alone, and a pool of no slots has none. -/
lemma refill_extents (memory : Bool) (h : s.growth = false ∨ memSlots = 0) :
    (s.refill memSlots memory).1.extents = s.extents := by
  unfold State.refill
  split
  · rfl
  · rename_i pos
    have off := h.resolve_right pos
    have stays : (State.topUp memSlots s.recycle).1.growth = false := by
      rw [topUp_extents.2, recycle_extents.2, off]
    rw [State.grow, if_neg (by rw [stays]; simp), topUp_extents.1, recycle_extents.1]

/-- A thread that runs takes a step of its own. -/
lemma Tidy.run (td : Tidy memSlots s) (running : s.life t = .running) (life : u.life = s.life)
    (cache : ∀ t' ≠ t, u.cache t' = s.cache t') (call : ∀ t' ≠ t, u.call t' = s.call t')
    (growth : u.growth = s.growth) (extents : s.growth = false ∨ memSlots = 0 → u.extents = s.extents) :
    Tidy memSlots u := by
  refine ⟨fun t' h => ?_, fun off => ?_, fun zero => ?_⟩
  · rw [life] at h
    have ne : t' ≠ t := by
      rintro rfl
      exact h running
    rw [cache t' ne, call t' ne]
    exact td.stopped t' h
  · rw [growth] at off
    rw [extents (.inl off)]
    exact td.full off
  · rw [extents (.inr zero)]
    exact td.none zero

/-- Only a thread that runs is in a call. -/
lemma Tidy.running (td : Tidy memSlots s) (busy : s.call t ≠ .idle) : s.life t = .running := by
  by_contra h
  exact busy (td.stopped t h).2

/-- A step under the condition leaves no slot with a thread that has ended. -/
lemma Tidy.step [DecidableEq θ] (td : Tidy memSlots s) (ok : Emptied s a) (st : Step memSlots s a u) :
    Tidy memSlots u := by
  cases st with
  | @start t _ =>
    refine ⟨fun t' h => ?_, td.full, td.none⟩
    simp only [Function.update_apply] at h
    split at h
    · exact absurd rfl h
    · exact td.stopped t' h
  | @exit t _ idle =>
    refine ⟨fun t' h => ?_, td.full, td.none⟩
    simp only [Function.update_apply] at h
    split at h
    · rename_i e
      rw [e]
      exact ⟨ok, idle⟩
    · exact td.stopped t' h
  | @alloc t x running _ _ =>
    exact td.run running rfl (fun t' ne => Function.update_of_ne ne ..) (fun _ _ => rfl) rfl fun _ => rfl
  | @refill _ t memory b slot running _ _ eq _ =>
    obtain ⟨_, life, cache, _, growth⟩ := refill_same memSlots memory s
    have extents : s.growth = false ∨ memSlots = 0 → (s.refill memSlots memory).1.extents = s.extents :=
      refill_extents memory
    rw [eq] at life cache growth extents
    exact td.run running life (fun t' _ => congrFun cache t') (fun t' ne => Function.update_of_ne ne ..)
      growth extents
  | @exhausted _ t memory b running _ _ eq _ =>
    obtain ⟨call, life, cache, _, growth⟩ := refill_same memSlots memory s
    have extents : s.growth = false ∨ memSlots = 0 → (s.refill memSlots memory).1.extents = s.extents :=
      refill_extents memory
    rw [eq] at call life cache growth extents
    exact td.run running life (fun t' _ => congrFun cache t') (fun t' _ => congrFun call t') growth extents
  | @splice t b tail call _ =>
    exact td.run (td.running (by rw [call]; nofun)) rfl (fun t' ne => Function.update_of_ne ne ..)
      (fun t' ne => Function.update_of_ne ne ..) rfl fun _ => rfl
  | @free t x running _ _ =>
    exact td.run running rfl (fun t' ne => Function.update_of_ne ne ..)
      (fun t' ne => Function.update_of_ne ne ..) rfl fun _ => rfl
  | @flushReturn t call _ =>
    exact td.run (td.running (by rw [call]; nofun)) rfl (fun _ _ => rfl)
      (fun t' ne => Function.update_of_ne ne ..) rfl fun _ => rfl
  | @peel t tail call _ _ =>
    exact td.run (td.running (by rw [call]; nofun)) rfl (fun t' ne => Function.update_of_ne ne ..)
      (fun t' ne => Function.update_of_ne ne ..) rfl fun _ => rfl
  | @flush t batchHead tail call =>
    exact td.run (td.running (by rw [call]; nofun)) rfl (fun _ _ => rfl)
      (fun t' ne => Function.update_of_ne ne ..) rfl fun _ => rfl
  | prefault _ => exact ⟨td.stopped, td.full, td.none⟩
  | write _ => exact ⟨td.stopped, td.full, td.none⟩
  | setGrowth => exact ⟨td.stopped, ok, td.none⟩

/-- A slot that is not live is in the shared chain, or never used, or with a thread that runs. -/
lemma Placed.reachable (pd : Placed memSlots s pl) (td : Tidy memSlots s) (out : s.live x = false) :
    x ∈ pl .shared ∨ s.bumped x = false ∨
      ∃ t, s.life t = .running ∧ (x ∈ pl (.cache t) ∨ x ∈ pl (.batch t)) := by
  have running : ∀ {t}, x ∈ pl (.cache t) ∨ x ∈ pl (.batch t) → s.life t = .running := by
    intro t h
    by_contra stop
    obtain ⟨empty, idle⟩ := td.stopped t stop
    rcases h with h | h
    · have sl := pd.chains.cache t
      rw [empty] at sl
      generalize pl (.cache t) = l at sl h
      cases sl with
      | nil => cases h
    · have sp := pd.chains.batch t
      rw [idle] at sp
      rw [show pl (.batch t) = [] from sp] at h
      cases h
  cases hb : s.bumped x with
  | false => exact .inr (.inl rfl)
  | true =>
    rcases pd.stock.all hb with hl | ⟨q, hq⟩
    · rw [out] at hl
      cases hl
    · cases q with
      | cache t => exact .inr (.inr ⟨t, running (.inl hq), .inl hq⟩)
      | batch t => exact .inr (.inr ⟨t, running (.inr hq), .inr hq⟩)
      | shared => exact .inl hq

/-! ## The calls of `Alloc` that are left -/

/-- The slots are those of the slab and of the extents. -/
lemma mem_slots : x ∈ s.slots memSlots ↔ s.SlotInSlab memSlots x := by
  rw [State.slots, List.mem_append, State.SlotInSlab]
  refine or_congr ?_ ?_
  · rw [List.mem_map]
    constructor
    · rintro ⟨i, hi, rfl⟩
      exact ⟨rfl, List.mem_range.1 hi⟩
    · rintro ⟨e, lt⟩
      exact ⟨x.2, List.mem_range.2 lt, Prod.ext e.symm rfl⟩
  · rw [List.mem_flatMap]
    refine exists_congr fun e => and_congr_right fun _ => ?_
    rw [List.mem_map]
    constructor
    · rintro ⟨i, hi, rfl⟩
      exact ⟨rfl, List.mem_range.1 hi⟩
    · rintro ⟨eb, lt⟩
      exact ⟨x.2, List.mem_range.2 lt, Prod.ext eb rfl⟩

/-- There are as many slots as the capacity says. -/
lemma length_slots : (s.slots memSlots).length = s.capacity memSlots := by
  rw [State.slots, State.capacity, List.length_append, List.length_map, List.length_range]
  generalize memSlots = m
  induction s.extents generalizing m with
  | nil => rfl
  | cons e es ih =>
    rw [List.foldl_cons, ← ih, List.flatMap_cons, List.length_append, List.length_map, List.length_range]
    omega

/-- No slot is counted twice. -/
lemma Blocks.nodup_slots (bl : Blocks memSlots s) : (s.slots memSlots).Nodup := by
  have block : ∀ b n, ((List.range n).map (Prod.mk b) : List Slot).Nodup := fun b n =>
    List.nodup_range.map fun _ _ h => (Prod.ext_iff.1 h).2
  refine List.nodup_append.2 ⟨block 0 memSlots, ?_, ?_⟩
  · refine List.nodup_flatMap.2 ⟨fun e _ => block e.block e.slots, ?_⟩
    have nd := bl.nodup
    rw [List.Nodup, List.pairwise_map] at nd
    refine nd.imp fun {e e'} ne => ?_
    intro x hx hx'
    obtain ⟨_, _, rfl⟩ := List.mem_map.1 hx
    obtain ⟨_, _, eq⟩ := List.mem_map.1 hx'
    exact ne (Prod.ext_iff.1 eq).1.symm
  · rintro x hx _ hy rfl
    obtain ⟨_, _, rfl⟩ := List.mem_map.1 hx
    obtain ⟨e, he, hy⟩ := List.mem_flatMap.1 hy
    obtain ⟨_, _, eq⟩ := List.mem_map.1 hy
    have := (bl.number e he).1
    have := (Prod.ext_iff.1 eq).1
    simp only at this
    omega

/-- One slot more is live. -/
lemma countP_update {l : List Slot} {f : Slot → Bool} (nd : l.Nodup) (mem : x ∈ l) (out : f x = false) :
    l.countP (Function.update f x true) = l.countP f + 1 := by
  induction l with
  | nil => cases mem
  | cons y l ih =>
    obtain ⟨hy, nd⟩ := List.nodup_cons.1 nd
    rw [List.countP_cons, List.countP_cons]
    rcases List.mem_cons.1 mem with rfl | mem
    · have rest : l.countP (Function.update f x true) = l.countP f := by
        refine List.countP_congr fun z hz => ?_
        rw [Function.update_of_ne]
        rintro rfl
        exact hy hz
      rw [rest, Function.update_self, out]
      simp
    · have ne : y ≠ x := by
        rintro rfl
        exact hy mem
      rw [ih nd mem, Function.update_of_ne ne]
      omega

/-- A batch that gets a slot is not empty. -/
lemma bump_head {next : Slot → Option Slot} {b : Batch} {block i n : Nat} (h : b.batchHead ≠ none ∨ n ≠ 0) :
    (bump block i n (next, b)).2.batchHead ≠ none := by
  induction n generalizing i next b with
  | zero => exact h.resolve_right (absurd rfl)
  | succ n ih =>
    rw [bump]
    apply ih
    left
    rintro ⟨⟩

/-- A refill gets a slot where one is in the shared chain or in the never-used region of the primary block. -/
lemma refill_head {memory : Bool} (pos : memSlots ≠ 0) (off : s.growth = false)
    (some : s.sharedHead ≠ none ∨ s.bumpNext < memSlots) :
    (s.refill memSlots memory).2.batchHead ≠ none := by
  have recycle : s.recycle.1.growth = false ∧ s.recycle.1.bumpNext = s.bumpNext ∧
      (s.sharedHead ≠ none → s.recycle.2.batchHead ≠ none) ∧
      (s.sharedHead = none → s.recycle.2.moved = 0) := by
    unfold State.recycle
    split
    · rename_i h
      exact ⟨off, rfl, fun h' => absurd h h', fun _ => rfl⟩
    · rename_i slot h
      exact ⟨off, rfl, fun _ => nofun, fun h' => by rw [h] at h'; cases h'⟩
  obtain ⟨growth, cursor, head, zero⟩ := recycle
  have topUp : (State.topUp memSlots s.recycle).1.growth = false ∧
      (State.topUp memSlots s.recycle).2.batchHead ≠ none := by
    unfold State.topUp
    dsimp only
    split
    · refine ⟨growth, bump_head ?_⟩
      right
      omega
    · rename_i stop
      refine ⟨growth, head ?_⟩
      intro h
      have lt := some.resolve_left (absurd h)
      rw [zero h, cursor] at stop
      exact stop ⟨by decide, lt⟩
  rw [State.refill, if_neg pos, State.grow, if_neg (by rw [topUp.1]; simp)]
  exact topUp.2

variable [DecidableEq θ]

/-- No thread is in a call and growth is off. -/
structure Rest (memSlots : Nat) (s : State θ) : Prop where
  placed : ∃ pl, Placed memSlots s pl
  tidy : Tidy memSlots s
  idle : ∀ t, s.call t = .idle
  off : s.growth = false

/-- A run that ends outside all calls. -/
lemma Rest.run (rs : Rest memSlots s) (rn : Runs (Step memSlots) Emptied s u) (idle : u.call = s.call)
    (off : u.growth = s.growth) : Rest memSlots u := by
  have inv : (∃ pl, Placed memSlots u pl) ∧ Tidy memSlots u := by
    refine rn.invariant (I := fun s => (∃ pl, Placed memSlots s pl) ∧ Tidy memSlots s) ⟨rs.placed, rs.tidy⟩ ?_
    rintro s a u ⟨⟨pl, pd⟩, td⟩ ok st
    exact ⟨pd.step st, td.step ok st⟩
  exact ⟨inv.1, inv.2, fun t => (congrFun idle t).trans (rs.idle t), off.trans rs.off⟩

/-- The batch of a refill has a last slot where it has a first one. -/
lemma refill_tail {memory : Bool} (pd : Placed memSlots s pl) (idle : s.call t = .idle)
    (got : (s.refill memSlots memory).2.batchHead ≠ none) :
    ∃ tail, (s.refill memSlots memory).2.batchTail = some tail := by
  obtain ⟨pl', dr⟩ := (pd.drawn idle).refill memory
  have ne : pl' (.batch t) ≠ [] := fun h => got (dr.mine.none.1 h)
  exact ⟨_, dr.mine.tail.trans (List.getLast?_eq_some_getLast ne)⟩

/-- `refill` is a run of the steps, and it leaves a nonempty chain where there is a slot. -/
lemma Rest.refillCache {memory : Bool} (rs : Rest memSlots s) (running : s.life t = .running)
    (empty : (s.cache t).head = none) (got : (s.refill memSlots memory).2.batchHead ≠ none) :
    Rest memSlots (s.refillCache memSlots memory t) ∧ ((s.refillCache memSlots memory t).cache t).head ≠ none ∧
      (s.refillCache memSlots memory t).live = s.live ∧ (s.refillCache memSlots memory t).life = s.life ∧
      (s.refillCache memSlots memory t).extents = s.extents := by
  obtain ⟨pl, pd⟩ := rs.placed
  obtain ⟨tail, last⟩ := refill_tail (t := t) pd (rs.idle t) got
  obtain ⟨slot, hd⟩ := Option.ne_none_iff_exists'.1 got
  obtain ⟨call, life, cache, live, growth⟩ := refill_same memSlots memory s
  have extents : (s.refill memSlots memory).1.extents = s.extents := refill_extents memory (.inl rs.off)
  have eq : s.refillCache memSlots memory t =
      { (s.refill memSlots memory).1 with
        next := Function.update (s.refill memSlots memory).1.next tail
          ((s.refill memSlots memory).1.cache t).head
        cache := Function.update (s.refill memSlots memory).1.cache t
          { head := (s.refill memSlots memory).2.batchHead
            count := ((s.refill memSlots memory).1.cache t).count + (s.refill memSlots memory).2.moved } } := by
    rw [State.refillCache]
    simp only [hd, last]
  have r1 : Runs (Step memSlots) Emptied s _ :=
    Runs.refl.next (.refill t) trivial (.refill running (rs.idle t) empty (Prod.mk.eta).symm hd)
  have r2 := r1.next (.splice t) trivial (.splice (Function.update_self ..) last)
  simp only [Function.update_idem] at r2
  rw [← rs.idle t, Function.update_eq_self, ← call] at r2
  rw [eq]
  refine ⟨rs.run r2 call growth, ?_, live, life, extents⟩
  simp only [Function.update_self]
  exact got

/-- The front of a chain is a slot that is not live. -/
lemma Rest.pop {y : Slot} (rs : Rest memSlots s) (running : s.life t = .running)
    (eq : s.pop t = some (y, u)) :
    Rest memSlots u ∧ s.SlotInSlab memSlots y ∧ s.live y = false ∧ u.live = Function.update s.live y true ∧
      u.life = s.life ∧ u.extents = s.extents := by
  obtain ⟨slot, hd, e⟩ := Option.map_eq_some_iff.1 eq
  cases e
  have st : Step memSlots s (.alloc t y) _ := .alloc running (rs.idle t) hd
  obtain ⟨pl, pd⟩ := rs.placed
  have sl := pd.chains.cache t
  rw [hd] at sl
  generalize eq' : pl (.cache t) = l at sl
  cases sl with
  | cons _ =>
    have mem := pd.stock.live (p := .cache t) (eq' ▸ List.mem_cons_self)
    refine ⟨rs.run (Runs.refl.next (.alloc t y) trivial st) rfl rfl, pd.blocks.slotInSlab mem.1, mem.2, rfl, rfl, rfl⟩

/-- An `Alloc` that succeeds makes one slot live. -/
lemma Rest.alloc {memory : Bool} {y : Slot} (rs : Rest memSlots s) (running : s.life t = .running)
    (eq : s.alloc memSlots memory t = some (y, u)) :
    Rest memSlots u ∧ s.SlotInSlab memSlots y ∧ s.live y = false ∧ u.live = Function.update s.live y true ∧
      u.life = s.life ∧ u.extents = s.extents := by
  rw [State.alloc] at eq
  split at eq
  · rename_i empty
    have got : (s.refill memSlots memory).2.batchHead ≠ none := by
      intro h
      have head : ((s.refillCache memSlots memory t).cache t).head = none := by
        rw [State.refillCache]
        simp only [h]
        rw [(refill_same memSlots memory s).2.2.1, empty]
      rw [State.pop, head] at eq
      cases eq
    obtain ⟨rs', _, live, life, extents⟩ := rs.refillCache running empty got
    obtain ⟨rs'', inSlab, out, live', life', extents'⟩ := rs'.pop ((congrFun life t).trans running) eq
    rw [State.SlotInSlab, extents] at inSlab
    rw [live] at out live'
    exact ⟨rs'', inSlab, out, live', life'.trans life, extents'.trans extents⟩
  · exact rs.pop running eq

/-- While a slot is not live some thread that runs can allocate. -/
lemma Rest.succeeds {t0 : θ} (memory : Bool) (rs : Rest memSlots s) (running : s.life t0 = .running)
    (inSlab : s.SlotInSlab memSlots x) (out : s.live x = false) :
    ∃ t, s.life t = .running ∧ ∃ r, s.alloc memSlots memory t = some r := by
  obtain ⟨pl, pd⟩ := rs.placed
  have pos : memSlots ≠ 0 := by
    intro zero
    rcases inSlab with ⟨_, lt⟩ | ⟨e, he, _⟩
    · omega
    · rw [rs.tidy.none zero] at he
      cases he
  have front : ∀ {v : State θ} {t}, (v.cache t).head ≠ none → ∃ r, v.pop t = some r := by
    intro v t h
    obtain ⟨slot, hd⟩ := Option.ne_none_iff_exists'.1 h
    exact ⟨_, by rw [State.pop, hd]; rfl⟩
  have cached : ∀ {t}, (s.cache t).head ≠ none → ∃ r, s.alloc memSlots memory t = some r := by
    intro t h
    rw [State.alloc, if_neg h]
    exact front h
  have shared : s.sharedHead ≠ none ∨ s.bumpNext < memSlots →
      ∃ t, s.life t = .running ∧ ∃ r, s.alloc memSlots memory t = some r := by
    intro h
    refine ⟨t0, running, ?_⟩
    by_cases empty : (s.cache t0).head = none
    · rw [State.alloc, if_pos empty]
      exact front (rs.refillCache running empty (refill_head pos rs.off h)).2.1
    · exact cached empty
  rcases pd.reachable rs.tidy out with h | h | ⟨t, run, h | h⟩
  · apply shared
    left
    intro none
    have sl := pd.chains.shared
    rw [none] at sl
    generalize pl .shared = l at sl h
    cases sl with
    | nil => cases h
  · apply shared
    right
    -- the extents are in use, so the slot is one of the primary block
    rcases inSlab with ⟨e, lt⟩ | ⟨e, he, eb, lt⟩
    · by_contra le
      have := bumped_iff.2 (.inl ⟨e, (by omega : x.2 < s.bumpNext)⟩)
      rw [h] at this
      cases this
    · have full := rs.tidy.full rs.off e he
      have := bumped_iff.2 (.inr ⟨e, he, eb, Nat.lt_of_lt_of_le lt full⟩)
      rw [h] at this
      cases this
  · refine ⟨t, run, cached ?_⟩
    intro none
    have sl := pd.chains.cache t
    rw [none] at sl
    generalize pl (.cache t) = l at sl h
    cases sl with
    | nil => cases h
  · have sp := pd.chains.batch t
    rw [rs.idle t] at sp
    rw [show pl (.batch t) = [] from sp] at h
    cases h

/-- As many calls of `Alloc` succeed as slots are not live. -/
lemma Rest.allocs {t0 : θ} (memory : Bool) (n : Nat) (rs : Rest memSlots s) (running : s.life t0 = .running)
    (left : s.liveCount memSlots + n = s.capacity memSlots) :
    ∃ ts : List θ, ts.length = n ∧ (∀ t ∈ ts, s.life t = .running) ∧
      ∃ u, s.allocs memSlots memory ts = some u := by
  induction n generalizing s with
  | zero => exact ⟨[], rfl, nofun, s, rfl⟩
  | succ n ih =>
    -- some slot is not live
    obtain ⟨x, hx, out⟩ : ∃ x ∈ s.slots memSlots, s.live x = false := by
      by_contra none
      simp only [not_exists, not_and, Bool.not_eq_false] at none
      have := List.countP_eq_length.2 none
      rw [State.liveCount, this, length_slots] at left
      omega
    obtain ⟨t, run, ⟨y, u⟩, eq⟩ := rs.succeeds memory running (mem_slots.1 hx) out
    obtain ⟨rs', inSlab, out', live, life, extents⟩ := rs.alloc run eq
    have slots : u.slots memSlots = s.slots memSlots := by rw [State.slots, State.slots, extents]
    have cap : u.capacity memSlots = s.capacity memSlots := by rw [State.capacity, State.capacity, extents]
    have count : u.liveCount memSlots = s.liveCount memSlots + 1 := by
      obtain ⟨pl, pd⟩ := rs.placed
      rw [State.liveCount, State.liveCount, slots, live]
      exact countP_update pd.blocks.nodup_slots (mem_slots.2 inSlab) out'
    obtain ⟨ts, len, runs, v, rest⟩ := ih rs' ((congrFun life t0).trans running) (by omega)
    refine ⟨t :: ts, by rw [List.length_cons, len], fun t' h => ?_, v, ?_⟩
    · rcases List.mem_cons.1 h with rfl | h
      · exact run
      · exact (congrFun life t').symm.trans (runs t' h)
    · rw [State.allocs, eq]
      exact rest

/-- Where no thread ends with a slot in its cache and growth is not turned off while an extent has slots that
were never used: every slot that is not live is in the shared chain, or never used, or in the chain (or the
batch) of a thread that runs. When no call is under way, growth is off and some thread runs, as many calls of
`Alloc` by threads that run succeed as the capacity is above the number of live slots. -/
theorem no_slot_lost (rn : Runs (Step memSlots) Emptied ({ next := next, growth := g } : State θ) s) :
    (∃ pl : Place θ → List Slot, Chains s pl ∧ ∀ x, s.SlotInSlab memSlots x → s.live x = false →
      x ∈ pl .shared ∨ s.bumped x = false ∨
        ∃ t, s.life t = .running ∧ (x ∈ pl (.cache t) ∨ x ∈ pl (.batch t))) ∧
    ((∀ t, s.call t = .idle) → s.growth = false → (∃ t, s.life t = .running) → ∀ memory,
      ∃ ts : List θ, ts.length = s.capacity memSlots - s.liveCount memSlots ∧
        (∀ t ∈ ts, s.life t = .running) ∧ ∃ u, s.allocs memSlots memory ts = some u) := by
  obtain ⟨⟨pl, pd⟩, td⟩ : (∃ pl, Placed memSlots s pl) ∧ Tidy memSlots s := by
    refine rn.invariant (I := fun s => (∃ pl, Placed memSlots s pl) ∧ Tidy memSlots s)
      ⟨⟨_, .init next g⟩, .init⟩ ?_
    rintro s a u ⟨⟨pl, pd⟩, td⟩ ok st
    exact ⟨pd.step st, td.step ok st⟩
  refine ⟨⟨pl, pd.chains, fun x _ out => pd.reachable td out⟩, ?_⟩
  rintro idle off ⟨t0, running⟩ memory
  have le : s.liveCount memSlots ≤ s.capacity memSlots := by
    rw [← length_slots]
    exact List.countP_le_length
  exact Rest.allocs memory _ ⟨⟨pl, pd⟩, td, idle, off⟩ running (by omega)

/-- A thread of a pool of two slots allocates both and frees one: one more `Alloc` succeeds. -/
theorem no_slot_lost_two :
    ∃ s : State Bool, Runs (Step 2) Emptied { next := fun _ => none, growth := false } s ∧
      s.capacity 2 - s.liveCount 2 = 1 ∧ ∃ ts : List Bool, ts.length = 1 ∧
        ∃ u, s.allocs 2 false ts = some u := by
  have r : Runs (Step 2) Emptied ({ next := fun _ => none, growth := false } : State Bool) _ := .refl
  have r1 := r.next (.start true) trivial (.start rfl)
  have r2 := r1.next (.refill true) trivial (@Step.refill _ _ _ _ _ _ false _ (0, 1) rfl rfl rfl rfl rfl)
  have r3 := r2.next (.splice true) trivial (@Step.splice _ _ _ _ _ _ (0, 0) rfl rfl)
  have r4 := r3.next (.alloc true (0, 1)) trivial (.alloc rfl rfl rfl)
  have r5 := r4.next (.alloc true (0, 0)) trivial (.alloc rfl rfl rfl)
  have r6 := r5.next (.free true (0, 1)) trivial (.free rfl rfl rfl)
  obtain ⟨ts, len, _, all⟩ := (no_slot_lost r6).2 (by rintro (_ | _) <;> rfl) rfl ⟨true, rfl⟩ false
  exact ⟨_, r6, rfl, ts, len, all⟩

/-- The thread ends after it has allocated and freed one slot of a pool of one. The slot is in its cache, and
the other thread, which runs, gets `nullptr`: no thread that runs can have the slot. -/
theorem slot_lost :
    ∃ s : State Bool, Reaches (Step 1) { next := fun _ => none, growth := false } s ∧
      s.capacity 1 - s.liveCount 1 = 1 ∧ (∀ t, s.call t = .idle) ∧ s.life true = .ended ∧
      s.life false = .running ∧ (s.cache true).head = some (0, 0) ∧ s.bumped (0, 0) = true ∧
      s.sharedHead = none ∧ (s.cache false).head = none ∧ (s.alloc 1 false false).isNone ∧
      (s.alloc 1 true false).isNone := by
  have r : Reaches (Step 1) ({ next := fun _ => none, growth := false } : State Bool) _ := .refl
  have r1 := r.next (.start true) trivial (.start rfl)
  have r2 := r1.next (.start false) trivial (.start rfl)
  have r3 := r2.next (.refill true) trivial (@Step.refill _ _ _ _ _ _ false _ (0, 0) rfl rfl rfl rfl rfl)
  have r4 := r3.next (.splice true) trivial (@Step.splice _ _ _ _ _ _ (0, 0) rfl rfl)
  have r5 := r4.next (.alloc true (0, 0)) trivial (.alloc rfl rfl rfl)
  have r6 := r5.next (.free true (0, 0)) trivial (.free rfl rfl rfl)
  have r7 := r6.next (.exit true) trivial (.exit rfl rfl)
  exact ⟨_, r7, rfl, by rintro (_ | _) <;> rfl, rfl, rfl, rfl, rfl, rfl, rfl, rfl, rfl⟩

end JLib.SlabPool
