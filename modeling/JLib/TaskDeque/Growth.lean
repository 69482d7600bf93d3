import JLib.TaskDeque.Vetted
import Mathlib.Algebra.BigOperators.Group.Finset.Basic
import Mathlib.Data.Nat.Log

/-!
# Growing for a batch

`push_bottom_batch` doubles the ring until the batch fits. Only the owner changes the capacity, and it has
loaded `top` before the loop, so the number of steps it takes is known when it starts, whatever thieves
do meanwhile. The constructor takes every capacity that has no bit in common with its predecessor; one of
them is 0, which doubling does not change.
-/

namespace JLib.TaskDeque
open LTS Deque

variable {θ : Type}

/-- The test of the constructor. -/
def accepts (capacity : Nat) : Prop := capacity &&& (capacity - 1) = 0

/-- The capacity that holds `n` tasks. -/
def needed (n : Nat) : Nat := if n = 0 then 0 else 2 ^ Nat.clog 2 n

/-- The largest capacity the deque may grow to. -/
def Deque.ceiling (s : Deque θ) : Nat :=
  if s.ceilingIsHard then s.maxCapacity else max s.maxCapacity kHardMaxCapacity

def Label.ofThief : Label θ → Prop
  | .steal _ _ => True
  | .thief _ => True
  | _ => False

/-- What can happen from `s` on until the owner has taken `n` steps, and whether memory ran out. -/
inductive During [DecidableEq θ] (s : Deque θ) : Nat → Bool → Deque θ → Prop where
  | start :
    During s 0 false s
  | owner {n oom u} :
    During s n oom u →
    During s (n + 1) oom u.advance
  | outOfMemory {n u v} :
    During s n false u →
    Step u .outOfMemory v →
    During s n true v
  | thief {n oom u a v} :
    During s n oom u →
    a.ofThief →
    Step u a v →
    During s n oom v

/-- The batch `items` pushed on `s` is in the deque `u`. -/
structure Grown (s : Deque θ) (items : List Item) (u : Deque θ) : Prop where
  idle : u.owner = .idle
  pow : ∃ k, u.current.capacity = 2 ^ k
  fits : u.bottom ≤ u.top + u.current.capacity
  bottom : u.bottom = s.bottom + items.length
  kept : ∀ i, u.top ≤ i → i < s.bottom → u.task i = s.task i
  appended : ∀ j item, items[j]? = some item → u.task (s.bottom + j) = item.ptr
  retired : ∑ r ∈ Finset.range u.ring, (u.rings r).capacity < u.current.capacity

/-- Every batch that the ceiling leaves room for is pushed in a number of the owner's steps that is
known when it starts. -/
def GrowsAsNeeded (θ : Type) [DecidableEq θ] (capacity maxCapacity : Nat) : Prop :=
  ∀ (s v : Deque θ) (items : List Item), Reaches Step (Deque.init capacity maxCapacity) s →
    Step s (.push items true) v → needed (s.bottom + items.length - s.top) ≤ s.ceiling →
    ∃ n, ∀ oom u, During v n oom u → if oom then u.owner = .aborted else Grown s items u

variable {s u v : Deque θ} {a : Label θ} {x : θ} {items : List Item} {n k m need total : Nat}
  {oom : Bool}

/-! ## Capacities -/

/-- The constructor lets the powers of two through, and zero. -/
lemma accepts_iff (capacity : Nat) : accepts capacity ↔ capacity = 0 ∨ ∃ k, capacity = 2 ^ k := by
  unfold accepts
  by_cases e : capacity = 0
  · subst e
    exact ⟨fun _ => .inl rfl, fun _ => rfl⟩
  · rw [Nat.and_sub_one_eq_zero_iff_isPowerOfTwo e]
    exact ⟨fun h => .inr h, fun h => h.resolve_left e⟩

/-- Rings double. -/
def Doubled (k : Nat) (s : Deque θ) : Prop := ∀ r ≤ s.ring, (s.rings r).capacity = 2 ^ (k + r)

/-- The replaced rings together are smaller than the one in use. -/
lemma Doubled.retired_lt (h : Doubled k s) :
    ∑ r ∈ Finset.range s.ring, (s.rings r).capacity < s.current.capacity := by
  have sums : ∀ q ≤ s.ring, ∑ r ∈ Finset.range q, (s.rings r).capacity < 2 ^ (k + q) := by
    intro q
    induction q with
    | zero =>
      intro _
      exact Nat.two_pow_pos _
    | succ q ih =>
      intro le
      have lt := ih (Nat.le_of_succ_le le)
      rw [Finset.sum_range_succ, h q (Nat.le_of_succ_le le), ← Nat.add_assoc, pow_succ]
      omega
  have lt := sums s.ring le_rfl
  rwa [← h s.ring le_rfl] at lt

/-- What the owner does to the capacities. -/
lemma Held.advance_capacity (h : Held s) :
    (∀ r ≤ s.ring, (s.advance.rings r).capacity = (s.rings r).capacity) ∧
    (s.advance.ring = s.ring ∨ s.advance.ring = s.ring + 1 ∧
      (s.advance.rings (s.ring + 1)).capacity = s.current.capacity * 2) := by
  have o := h.owner
  have fresh : ∀ (r : Ring) (q), q ≤ s.ring →
      ((s.setRing (s.ring + 1) r).rings q).capacity = (s.rings q).capacity := by
    intro r q hq
    exact congrArg Ring.capacity (Function.update_of_ne (by omega) ..)
  unfold OwnerAt at o
  unfold Deque.advance
  cases ho : s.owner with
  | room items batch t =>
    simp only
    split
    next =>
      unfold Deque.grow
      simp only
      split
      next => exact ⟨fun _ _ => rfl, .inl rfl⟩
      next => exact ⟨fresh _, .inl rfl⟩
    next => exact ⟨fun _ _ => rfl, .inl rfl⟩
  | copy items batch t i =>
    rw [ho] at o
    obtain ⟨_, _, _, _, _, twice, _⟩ := o
    simp only
    split
    next => exact ⟨fun _ _ => rfl, .inr ⟨rfl, twice⟩⟩
    next => exact ⟨fresh _, .inl rfl⟩
  | fill items k =>
    simp only
    split
    next item _ =>
      refine ⟨fun q _ => ?_, .inl rfl⟩
      by_cases e : q = s.ring
      · subst e
        have stored : (s.setRing s.ring (s.current.store (s.bottom + k) (tag item))).rings s.ring =
            s.current.store (s.bottom + k) (tag item) := Function.update_self ..
        exact (congrArg Ring.capacity stored).trans rfl
      · exact congrArg Ring.capacity (Function.update_of_ne e ..)
    next => exact ⟨fun _ _ => rfl, .inl rfl⟩
  | read b t =>
    simp only
    split
    next => exact ⟨fun _ _ => rfl, .inl rfl⟩
    next => exact ⟨fun _ _ => rfl, .inl rfl⟩
  | race b item =>
    simp only
    split
    next => exact ⟨fun _ _ => rfl, .inl rfl⟩
    next => exact ⟨fun _ _ => rfl, .inl rfl⟩
  | _ => exact ⟨fun _ _ => rfl, .inl rfl⟩

/-- A step of the owner doubles a ring or leaves it. -/
lemma Doubled.advance (d : Doubled k s) (h : Held s) : Doubled k s.advance := by
  obtain ⟨old, ring⟩ := h.advance_capacity
  intro r le
  rcases ring with same | ⟨next, twice⟩
  · rw [same] at le
    rw [old r le, d r le]
  · rw [next] at le
    by_cases e : r = s.ring + 1
    · have cap : s.current.capacity = 2 ^ (k + s.ring) := d s.ring le_rfl
      rw [e, twice, cap, ← Nat.add_assoc, pow_succ]
    · have le' : r ≤ s.ring := by omega
      rw [old r le', d r le']

/-! ## What thieves leave alone -/

/-- What only the owner changes. -/
structure Same (s u : Deque θ) : Prop where
  owner : u.owner = s.owner
  bottom : u.bottom = s.bottom
  ring : u.ring = s.ring
  rings : u.rings = s.rings
  ceiling : u.ceiling = s.ceiling

/-- The ring in use is the same. -/
lemma Same.current (h : Same s u) : u.current = s.current := by
  unfold Deque.current
  rw [h.rings, h.ring]

/-- A thief changes nothing of the owner's. -/
lemma Same.prowl [DecidableEq θ] : Same s (s.prowl x) := by
  unfold Deque.prowl
  cases s.thief x with
  | vetted t v =>
    simp only
    split
    next => exact ⟨rfl, rfl, rfl, rfl, rfl⟩
    next => exact ⟨rfl, rfl, rfl, rfl, rfl⟩
  | _ => exact ⟨rfl, rfl, rfl, rfl, rfl⟩

/-- A step of a thief changes nothing of the owner's. -/
lemma Same.of_thief [DecidableEq θ] (ha : a.ofThief) (st : Step s a u) : Same s u := by
  cases st with
  | steal _ => exact ⟨rfl, rfl, rfl, rfl, rfl⟩
  | thief => exact .prowl
  | _ => exact ha.elim

/-- A step of a thief pushes nothing. -/
lemma Frames.of_thief [DecidableEq θ] (ha : a.ofThief) (st : Step s a u) : Frames s u := by
  cases st with
  | steal _ => exact .setThief
  | thief => exact .prowl
  | _ => exact ha.elim

/-- A step doubles a ring or leaves it. -/
lemma Doubled.step [DecidableEq θ] (d : Doubled k s) (h : Held s) (st : Step s a u) : Doubled k u := by
  cases st with
  | push _ => exact d
  | batch _ => exact d
  | pop _ =>
    split
    next => exact d
    next => exact d
  | owner => exact d.advance h
  | outOfMemory _ _ => exact d
  | steal _ => exact d
  | @thief x =>
    have same : Same s (s.prowl x) := .prowl
    intro r le
    rw [same.rings]
    exact d r (same.ring ▸ le)

/-! ## The steps a batch takes -/

/-- How often the ring of this capacity is replaced before `need` tasks fit. -/
def doublings (need capacity : Nat) : Nat := Nat.clog 2 need - Nat.clog 2 capacity

/-- A full ring is doubled once more. -/
lemma doublings_full {capacity : Nat} (pow : capacity = 2 ^ k) (full : capacity < need) :
    doublings need capacity = doublings need (capacity * 2) + 1 ∧ capacity * 2 ≤ needed need := by
  subst pow
  have lt : k < Nat.clog 2 need := (Nat.lt_clog_iff_pow_lt (by decide)).2 full
  unfold doublings
  rw [← pow_succ, Nat.clog_pow 2 k (by decide), Nat.clog_pow 2 (k + 1) (by decide)]
  refine ⟨by omega, ?_⟩
  unfold needed
  rw [if_neg (Nat.zero_lt_of_lt full).ne']
  exact Nat.pow_le_pow_right (by decide) lt

/-- Where the owner is in pushing `items` on `s`, after `n` steps of `total`. A ring that is replaced
costs a step for the test, one for each of the tasks it holds and one to publish the new one. -/
inductive Place (s : Deque θ) (items : List Item) (total : Nat) (n : Nat) (u : Deque θ) : Prop where
  | room :
    u.owner = .room items true s.top →
    u.bottom = s.bottom →
    n + (doublings (s.bottom + items.length - s.top) u.current.capacity * (s.bottom - s.top + 2) +
      items.length + 2) = total →
    Place s items total n u
  | copy {i} :
    u.owner = .copy items true s.top i →
    u.bottom = s.bottom →
    n + (s.bottom - i + 1 + doublings (s.bottom + items.length - s.top) (u.current.capacity * 2) *
      (s.bottom - s.top + 2) + items.length + 2) = total →
    Place s items total n u
  | fill {j} :
    u.owner = .fill items j →
    u.bottom = s.bottom →
    n + (items.length - j + 1) = total →
    Place s items total n u
  | done :
    u.owner = .idle →
    u.bottom = s.bottom + items.length →
    (∀ j item, items[j]? = some item → u.task (s.bottom + j) = item.ptr) →
    total ≤ n →
    Place s items total n u

/-- The owner is where it was. -/
lemma Place.same (p : Place s items total n u) (e : Same u v) : Place s items total n v := by
  have current := e.current
  cases p with
  | room owner bottom count =>
    exact .room (e.owner.trans owner) (e.bottom.trans bottom) (current ▸ count)
  | copy owner bottom count =>
    exact .copy (e.owner.trans owner) (e.bottom.trans bottom) (current ▸ count)
  | fill owner bottom count => exact .fill (e.owner.trans owner) (e.bottom.trans bottom) count
  | done owner bottom stored le =>
    refine .done (e.owner.trans owner) (e.bottom.trans bottom) (fun j item hj => ?_) le
    unfold Deque.task
    rw [current]
    exact stored j item hj

/-- The owner's next step. -/
lemma Place.owner (p : Place s items total n u) (h : Held u)
    (room : needed (s.bottom + items.length - s.top) ≤ u.ceiling) :
    Place s items total (n + 1) u.advance := by
  obtain ⟨k, pow⟩ := h.pow u.ring
  change u.current.capacity = 2 ^ k at pow
  have o := h.owner
  unfold OwnerAt at o
  cases p with
  | room owner bottom count =>
    unfold Deque.advance
    simp only [owner]
    split
    next full =>
      rw [bottom] at full
      obtain ⟨more, fits⟩ := doublings_full pow full
      have allowed : ¬(u.current.capacity * 2 > u.maxCapacity ∧
          (u.ceilingIsHard ∨ u.current.capacity * 2 > kHardMaxCapacity)) := by
        have le := fits.trans room
        unfold Deque.ceiling at le
        split at le
        next => exact fun c => absurd c.1 (Nat.not_lt.2 le)
        next soft =>
          rintro ⟨past, hard⟩
          have past_hard := hard.resolve_left soft
          omega
      unfold Deque.grow
      simp only [if_neg allowed]
      refine .copy rfl bottom ?_
      rw [current_setRing (Nat.succ_ne_self _), ← count, more, Nat.succ_mul]
      omega
    next fits =>
      rw [bottom, Nat.not_lt] at fits
      have none : doublings (s.bottom + items.length - s.top) u.current.capacity = 0 :=
        Nat.sub_eq_zero_of_le (Nat.clog_mono_right 2 fits)
      refine .fill rfl bottom ?_
      rw [none, Nat.zero_mul] at count
      omega
  | @copy i owner bottom count =>
    rw [owner] at o
    obtain ⟨_, _, _, _, i_le, twice, _⟩ := o
    unfold Deque.advance
    simp only [owner]
    split
    next e =>
      refine .room rfl bottom ?_
      show n + 1 + (doublings _ (u.rings (u.ring + 1)).capacity * _ + items.length + 2) = total
      rw [twice]
      omega
    next ne =>
      refine .copy rfl bottom ?_
      rw [current_setRing (Nat.succ_ne_self _)]
      omega
  | @fill j owner bottom count =>
    rw [owner] at o
    obtain ⟨_, j_le, filled⟩ := o
    unfold Deque.advance
    simp only [owner]
    split
    next item hj =>
      have lt : j < items.length := (List.getElem?_eq_some_iff.1 hj).1
      exact .fill rfl bottom (by omega)
    next hj =>
      have e : items.length ≤ j := List.getElem?_eq_none_iff.1 hj
      refine .done rfl (congrArg (· + items.length) bottom) (fun q item hq => ?_) (by omega)
      have lt : q < items.length := (List.getElem?_eq_some_iff.1 hq).1
      have stored := filled q (lt.trans_le e) item hq
      rw [bottom] at stored
      exact (congrArg untag stored).trans (untag_tag item)
  | done owner bottom stored le =>
    have stays : u.advance = u := by
      unfold Deque.advance
      rw [owner]
    rw [stays]
    exact .done owner bottom stored (le.trans (Nat.le_succ n))

/-- What is known while the batch is pushed. -/
structure Pushing (k : Nat) (s : Deque θ) (items : List Item) (total n : Nat) (u : Deque θ) :
    Prop where
  held : Held u
  doubled : Doubled k u
  ceiling : u.ceiling = s.ceiling
  kept : ∀ i, u.top ≤ i → i < s.bottom → u.current.slot i = s.current.slot i
  place : Place s items total n u

/-- The limit is not below where the batch began. -/
lemma Place.limit (p : Place s items total n u) : s.bottom ≤ u.limit := by
  unfold Deque.limit
  cases p with
  | room owner bottom _ =>
    rw [owner]
    exact bottom.ge
  | copy owner bottom _ =>
    rw [owner]
    exact bottom.ge
  | fill owner bottom _ =>
    rw [owner]
    exact bottom.ge
  | done owner bottom _ _ =>
    rw [owner]
    exact (Nat.le_add_right _ _).trans bottom.ge

/-- The ceiling does not move. -/
lemma advance_ceiling : s.advance.ceiling = s.ceiling := by
  unfold Deque.advance Deque.grow
  cases s.owner with
  | room items batch t =>
    simp only
    split
    next =>
      split
      next => rfl
      next => rfl
    next => rfl
  | copy items batch t i =>
    simp only
    split
    next => rfl
    next => rfl
  | fill items k =>
    simp only
    split
    next => rfl
    next => rfl
  | read b t =>
    simp only
    split
    next => rfl
    next => rfl
  | race b item =>
    simp only
    split
    next => rfl
    next => rfl
  | _ => rfl

/-- A step of a thief leaves the push where it is. -/
lemma Pushing.thief [DecidableEq θ] (p : Pushing k s items total n u) (ha : a.ofThief) (st : Step u a v) :
    Pushing k s items total n v := by
  have same : Same u v := .of_thief ha st
  have frames : Frames u v := .of_thief ha st
  refine ⟨p.held.step st, p.doubled.step p.held st, same.ceiling.trans p.ceiling, fun i at_top lt => ?_,
    p.place.same same⟩
  rw [same.current]
  exact p.kept i (frames.top.trans at_top) lt

/-- A step of the owner brings the push on. -/
lemma Pushing.owner (p : Pushing k s items total n u)
    (room : needed (s.bottom + items.length - s.top) ≤ s.ceiling) :
    Pushing k s items total (n + 1) u.advance := by
  have place := p.place.owner p.held (p.ceiling ▸ room)
  refine ⟨p.held.advance, p.doubled.advance p.held, advance_ceiling.trans p.ceiling,
    fun i at_top lt => ?_, place⟩
  by_cases ends : ∃ items k, u.owner = .fill items k ∧ items[k]? = none
  · obtain ⟨items, k, owner, none⟩ := ends
    have stays : u.advance.current = u.current ∧ u.advance.top = u.top := by
      unfold Deque.advance
      simp only [owner, none]
      exact ⟨rfl, trivial⟩
    rw [stays.1]
    exact p.kept i (stays.2 ▸ at_top) lt
  · have frames := p.held.frames fun items k owner none => ends ⟨items, k, owner, none⟩
    rw [frames.slot i at_top (lt.trans_le place.limit)]
    exact p.kept i (frames.top.trans at_top) lt

/-- A batch from its start on, unless memory runs out. -/
lemma Pushing.during [DecidableEq θ] (p : Pushing k s items total 0 v)
    (room : needed (s.bottom + items.length - s.top) ≤ s.ceiling) (d : During v n oom u) :
    if oom then u.owner = .aborted else Pushing k s items total n u := by
  induction d with
  | start => exact p
  | @owner n oom u _ ih =>
    cases oom with
    | true =>
      have aborted : u.owner = .aborted := ih
      have stays : u.advance = u := by
        unfold Deque.advance
        rw [aborted]
      show u.advance.owner = .aborted
      rw [stays]
      exact aborted
    | false => exact Pushing.owner ih room
  | outOfMemory _ st =>
    cases st
    rfl
  | @thief n oom u a v _ ha st ih =>
    cases oom with
    | true => exact (Same.of_thief ha st).owner.trans ih
    | false => exact Pushing.thief ih ha st

/-- All the steps are taken. -/
lemma Pushing.grown (p : Pushing k s items n n u) : Grown s items u := by
  cases p.place with
  | room _ _ count => omega
  | copy _ _ count => omega
  | fill _ _ count => omega
  | done idle bottom stored _ =>
    have limit : u.limit = u.bottom := by
      unfold Deque.limit
      rw [idle]
    have retired := p.doubled.retired_lt
    have fits := p.held.fits
    rw [limit] at fits
    exact ⟨idle, p.held.pow u.ring, fits, bottom,
      fun i at_top lt => congrArg untag (p.kept i at_top lt), stored, retired⟩

/-- A batch that there is room for is pushed in a number of steps, unless memory runs out. -/
lemma Held.grows [DecidableEq θ] (h : Held s) (d : Doubled k s) (st : Step s (.push items true) v)
    (room : needed (s.bottom + items.length - s.top) ≤ s.ceiling) :
    ∃ n, ∀ oom u, During v n oom u → if oom then u.owner = .aborted else Grown s items u := by
  have pushing : ∃ total, Pushing k s items total 0 v := by
    have held := h.step st
    have doubled := d.step h st
    cases st with | batch idle =>
    exact ⟨_, held, doubled, rfl, fun _ _ _ => rfl, .room rfl rfl rfl⟩
  obtain ⟨total, p⟩ := pushing
  refine ⟨total, fun oom u during => ?_⟩
  have after := p.during room during
  cases oom with
  | true => exact after
  | false => exact Pushing.grown after

/-! ## A ring of no slots -/

/-- The owner can always go on. -/
lemma During.exists [DecidableEq θ] (v : Deque θ) (n : Nat) : ∃ u, During v n false u := by
  induction n with
  | zero => exact ⟨v, .start⟩
  | succ n ih =>
    obtain ⟨u, d⟩ := ih
    exact ⟨_, d.owner⟩

/-- No ring has a slot. -/
def Hollow (s : Deque θ) : Prop := ∀ r, (s.rings r).capacity = 0

/-- A ring without slots is replaced by one without slots. -/
lemma Hollow.setRing (h : Hollow s) {q : Nat} {r : Ring} (none : r.capacity = 0) :
    Hollow (s.setRing q r) := by
  intro p
  show (Function.update s.rings q r p).capacity = 0
  by_cases e : p = q
  · rw [e, Function.update_self]
    exact none
  · rw [Function.update_of_ne e]
    exact h p

/-- Twice nothing is nothing. -/
lemma Hollow.advance (h : Hollow s) : Hollow s.advance := by
  have twice : s.current.capacity * 2 = 0 := by
    rw [show s.current.capacity = 0 from h s.ring]
  unfold Deque.advance
  cases s.owner with
  | room items batch t =>
    simp only
    split
    next =>
      unfold Deque.grow
      simp only
      split
      next => exact h
      next => exact h.setRing twice
    next => exact h
  | copy items batch t i =>
    simp only
    split
    next => exact h
    next => exact h.setRing (h _)
  | fill items k =>
    simp only
    split
    next => exact h.setRing (h _)
    next => exact h
  | read b t =>
    simp only
    split
    next => exact h
    next => exact h
  | race b item =>
    simp only
    split
    next => exact h
    next => exact h
  | _ => exact h

/-- A ring without slots stays one. -/
lemma Hollow.during [DecidableEq θ] (h : Hollow v) (d : During v n oom u) : Hollow u := by
  induction d with
  | start => exact h
  | owner _ ih => exact ih.advance
  | outOfMemory _ st ih =>
    cases st
    exact ih
  | thief _ ha st ih =>
    intro r
    rw [(Same.of_thief ha st).rings]
    exact ih r

/-- The owner is in the loop that makes room for one task. -/
structure Spinning (item : Item) (u : Deque θ) : Prop where
  hollow : Hollow u
  bottom : u.bottom = 0
  place : u.owner = .room [item] true 0 ∨ u.owner = .copy [item] true 0 0

/-- On a ring without slots the owner does not get out of the loop. -/
lemma Spinning.advance {item : Item} (h : Spinning item u) : Spinning item u.advance := by
  have hollow := h.hollow.advance
  have none : u.current.capacity = 0 := h.hollow u.ring
  have bottom := h.bottom
  unfold Deque.advance at hollow ⊢
  rcases h.place with owner | owner
  · have full : u.bottom + [item].length - 0 > u.current.capacity := by
      rw [none, bottom]
      exact Nat.one_pos
    simp only [owner, if_pos full] at hollow ⊢
    have allowed : ¬(u.current.capacity * 2 > u.maxCapacity ∧
        (u.ceilingIsHard ∨ u.current.capacity * 2 > kHardMaxCapacity)) := by
      rw [none]
      exact fun c => absurd c.1 (Nat.not_lt_zero _)
    unfold Deque.grow at hollow ⊢
    simp only [if_neg allowed] at hollow ⊢
    exact ⟨hollow, bottom, .inr rfl⟩
  · simp only [owner, if_pos bottom.symm] at hollow ⊢
    exact ⟨hollow, bottom, .inl rfl⟩

variable [DecidableEq θ]

/-- Nor does it in any number of steps. -/
lemma Spinning.during {item : Item} (h : Spinning item v) (d : During v n false u) :
    Spinning item u := by
  generalize e : false = oom at d
  induction d with
  | start => exact h
  | owner _ ih => exact (ih e).advance
  | outOfMemory => exact Bool.noConfusion e
  | thief _ ha st ih =>
    have same := Same.of_thief ha st
    obtain ⟨hollow, bottom, place⟩ := ih e
    refine ⟨fun r => ?_, same.bottom.trans bottom, ?_⟩
    · rw [same.rings]
      exact hollow r
    · rw [same.owner]
      exact place

/-- A deque of a capacity that the constructor takes: every batch for which the capacity that holds it is
not past the ceiling is pushed in a number of the owner's steps known when it starts, or the process has
stopped for want of memory; it leaves a power of two that the tasks fit in, the tasks that were there
with the batch after them, and replaced rings that together are smaller than the one in use; all this if
and only if the capacity is not 0. -/
theorem push_bottom_batch_grows {capacity maxCapacity : Nat} (ok : accepts capacity) :
    GrowsAsNeeded θ capacity maxCapacity ↔ capacity ≠ 0 := by
  constructor
  · rintro grows rfl
    obtain ⟨v, st⟩ : ∃ v, Step (Deque.init 0 maxCapacity : Deque θ) (.push [] true) v :=
      ⟨_, .batch rfl⟩
    obtain ⟨n, ends⟩ := grows _ v [] .refl st (Nat.zero_le _)
    obtain ⟨u, d⟩ := During.exists v n
    obtain ⟨k, pow⟩ := (ends false u d).pow
    have start : Hollow v := by
      cases st with | batch _ =>
      exact fun _ => rfl
    have hollow : Hollow u := start.during d
    have none : u.current.capacity = 0 := hollow u.ring
    exact absurd (pow.symm.trans none) (Nat.two_pow_pos k).ne'
  · intro ne s v items rn st room
    obtain ⟨k, rfl⟩ := ((accepts_iff capacity).1 ok).resolve_left ne
    obtain ⟨held, doubled⟩ : Held s ∧ Doubled k s := by
      apply rn.invariant (I := fun s => Held s ∧ Doubled k s)
      · refine ⟨Held.init k maxCapacity, fun r le => ?_⟩
        have first : r = 0 := Nat.le_zero.1 le
        subst first
        rfl
      · intro _ _ _ h _ st
        exact ⟨h.1.step st, h.2.step h.1 st⟩
    exact held.grows doubled st room

/-- A deque of one slot. -/
theorem push_bottom_batch_grows_one : GrowsAsNeeded Unit 1 kDefaultMaxCapacity :=
  (push_bottom_batch_grows (show 1 &&& 0 = 0 from rfl)).2 Nat.one_ne_zero

/-- The constructor takes capacity 0; on such a deque `push_bottom_batch` of one task never returns,
although a ring of one slot would hold it. -/
theorem zero_capacity_spins :
    accepts 0 ∧ ¬GrowsAsNeeded Unit 0 kDefaultMaxCapacity ∧
    ∀ (item : Item) (v : Deque Unit), Step (Deque.init 0 kDefaultMaxCapacity) (.push [item] true) v →
      ∀ n u, During v n false u → u.owner ≠ .idle ∧ u.owner ≠ .aborted := by
  have spins : ∀ (item : Item) (v : Deque Unit),
      Step (Deque.init 0 kDefaultMaxCapacity) (.push [item] true) v →
      ∀ n u, During v n false u → u.owner ≠ .idle ∧ u.owner ≠ .aborted := by
    intro item v st n u d
    have start : Spinning item v := by
      cases st with | batch _ =>
      exact ⟨fun _ => rfl, rfl, .inl rfl⟩
    rcases (start.during d).place with owner | owner
    · rw [owner]
      exact ⟨by rintro ⟨⟩, by rintro ⟨⟩⟩
    · rw [owner]
      exact ⟨by rintro ⟨⟩, by rintro ⟨⟩⟩
  refine ⟨rfl, fun grows => ?_, spins⟩
  have item : Item := ⟨16#64, 0, 0, rfl⟩
  obtain ⟨v, st⟩ : ∃ v, Step (Deque.init 0 kDefaultMaxCapacity : Deque Unit) (.push [item] true) v :=
    ⟨_, .batch rfl⟩
  have room : needed 1 ≤ (Deque.init 0 kDefaultMaxCapacity : Deque Unit).ceiling := by decide +kernel
  obtain ⟨n, ends⟩ := grows _ v [item] .refl st room
  obtain ⟨u, d⟩ := During.exists v n
  exact absurd (ends false u d).idle (spins item v st n u d).1

end JLib.TaskDeque
