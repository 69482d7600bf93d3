import JLib.TaskDeque.Exact

/-!
# What a thief has vetted

`steal_if` decides from a slot that it reads before it claims the task. Beside the deque a run here keeps
the task that the last push put at each logical index, and the predicate each thief was called with. A
slot that can still be taken holds the tag of the task its index was pushed with, whichever ring it is
read from; so the claim, which succeeds only if `top` is what it was, is of the task the predicate saw.
-/

namespace JLib.TaskDeque
open LTS Deque

variable {θ : Type} [DecidableEq θ] {s u : Deque θ} {a : Label θ} {t b i k : Nat} {x : θ}
  {items : List Item} {batch : Bool}

/-! ## The tag -/

/-- The two fields of a task as the predicate is given them. -/
def Item.bits (item : Item) : StealBits :=
  ⟨item.corePref.zeroExtend 64 &&& 0x3#64, item.type.zeroExtend 64 &&& 0x3#64⟩

/-- The two low bits of a tag are those of `corePref`. -/
lemma tag_low (item : Item) : tag item &&& 0x3#64 = item.corePref.zeroExtend 64 &&& 0x3#64 := by
  have ptr_low : item.ptr &&& 0x3#64 = 0#64 := by
    calc item.ptr &&& 0x3#64
      _ = item.ptr &&& (kTagMask &&& 0x3#64) := rfl
      _ = 0#64 := by
        rw [← BitVec.and_assoc, item.aligned]
        rfl
  have type_low : ((item.type.zeroExtend 64 &&& 0x3#64) <<< 2) &&& 0x3#64 = 0#64 := by
    rw [BitVec.shiftLeft_and_distrib, BitVec.and_assoc]
    exact BitVec.and_zero
  unfold tag
  rw [BitVec.and_or_distrib_right, BitVec.and_or_distrib_right, ptr_low, type_low, BitVec.or_zero,
    BitVec.zero_or, BitVec.and_assoc, BitVec.and_self]

/-- The two bits above them are those of `type`. -/
lemma tag_high (item : Item) : (tag item >>> 2) &&& 0x3#64 = item.type.zeroExtend 64 &&& 0x3#64 := by
  have ptr_high : (item.ptr >>> 2) &&& 0x3#64 = 0#64 := by
    calc (item.ptr >>> 2) &&& 0x3#64
      _ = (item.ptr &&& kTagMask) >>> 2 &&& 0x3#64 := by
        rw [BitVec.ushiftRight_and_distrib, BitVec.and_assoc]
        rfl
      _ = 0#64 := by
        rw [item.aligned]
        rfl
  have pref_high : ((item.corePref.zeroExtend 64 &&& 0x3#64) >>> 2) &&& 0x3#64 = 0#64 := by
    rw [BitVec.ushiftRight_and_distrib, BitVec.and_assoc]
    exact BitVec.and_zero
  have type_high : (((item.type.zeroExtend 64 &&& 0x3#64) <<< 2) >>> 2) &&& 0x3#64 =
      item.type.zeroExtend 64 &&& 0x3#64 := by
    generalize ht : item.type.zeroExtend 64 &&& 0x3#64 = y
    have small : y.toNat ≤ 3 := by
      rw [← ht, BitVec.toNat_and]
      exact Nat.and_le_right
    have back : y <<< 2 >>> 2 = y := by
      apply BitVec.eq_of_toNat_eq
      rw [BitVec.toNat_ushiftRight, BitVec.toNat_shiftLeft, Nat.shiftLeft_eq,
        Nat.shiftRight_eq_div_pow, Nat.mod_eq_of_lt (by omega)]
      exact Nat.mul_div_cancel _ (by decide)
    rw [back, ← ht, BitVec.and_assoc, BitVec.and_self]
  unfold tag
  rw [BitVec.ushiftRight_or_distrib, BitVec.ushiftRight_or_distrib, BitVec.and_or_distrib_right,
    BitVec.and_or_distrib_right, ptr_high, pref_high, type_high, BitVec.zero_or, BitVec.zero_or]

/-- The predicate sees the two fields of the task. -/
lemma bits_tag (item : Item) : bits (tag item) = item.bits := by
  unfold bits Item.bits
  exact congrArg₂ StealBits.mk (tag_low item) (tag_high item)

/-! ## What was pushed where -/

/-- A completed push puts its tasks at the indices from `bottom` on. -/
def logged (s : Deque θ) (log : Nat → Option Item) : Label θ → Nat → Option Item
  | .owner, i =>
    match s.owner with
    | .fill items k =>
      if items[k]? = none ∧ s.bottom ≤ i ∧ i < s.bottom + items.length then items[i - s.bottom]?
      else log i
    | _ => log i
  | _, i => log i

def asking (asked : θ → StealBits → Bool) : Label θ → θ → StealBits → Bool
  | .steal x pred => Function.update asked x pred
  | _ => asked

/-- A deque with the task last pushed at each index and the predicate each thief last came with. -/
structure Watched (θ : Type) where
  deque : Deque θ
  log : Nat → Option Item := fun _ => none
  asked : θ → StealBits → Bool := fun _ _ => true

inductive Watch : Watched θ → Label θ → Watched θ → Prop where
  | step {w : Watched θ} {a u} :
    Step w.deque a u →
    Watch w a { deque := u, log := logged w.deque w.log a, asked := asking w.asked a }

/-- A slot that can still be taken holds the tag of the task its index was pushed with. -/
def Logs (s : Deque θ) (log : Nat → Option Item) : Prop :=
  ∀ i, s.top ≤ i → i < s.limit → ∃ item, log i = some item ∧ s.current.slot i = tag item

/-- A step that pushes nothing takes away what can be taken and changes none of it. -/
structure Frames (s u : Deque θ) : Prop where
  top : s.top ≤ u.top
  limit : u.limit ≤ s.limit
  slot : ∀ i, u.top ≤ i → i < u.limit → u.current.slot i = s.current.slot i

omit [DecidableEq θ] in
/-- A step that pushes nothing leaves what was pushed. -/
lemma Logs.frames {log : Nat → Option Item} (h : Logs s log) (f : Frames s u) : Logs u log := by
  intro i h1 h2
  obtain ⟨item, hi, slot⟩ := h i (f.top.trans h1) (h2.trans_le f.limit)
  exact ⟨item, hi, (f.slot i h1 h2).trans slot⟩

omit [DecidableEq θ] in
/-- Rings and `top` stay. -/
lemma Frames.same (top : u.top = s.top) (current : u.current = s.current)
    (limit : u.limit ≤ s.limit) : Frames s u :=
  ⟨top.ge, limit, fun _ _ _ => by rw [current]⟩

/-! ## What a step does to the slots -/

/-- A thief's step pushes nothing. -/
lemma Frames.setThief {pc : Thief} : Frames s (s.setThief x pc) := .same rfl rfl le_rfl

/-- A step of a thief pushes nothing. -/
lemma Frames.prowl : Frames s (s.prowl x) := by
  unfold Deque.prowl
  cases hx : s.thief x with
  | idle => exact .same rfl rfl le_rfl
  | loaded pred t => exact .setThief
  | inRange pred t => exact .setThief
  | holding pred t r => exact .setThief
  | vetted t v =>
    simp only
    split
    next e => exact ⟨e ▸ Nat.le_succ _, le_rfl, fun _ _ _ => rfl⟩
    next => exact .setThief

omit [DecidableEq θ] in
/-- A slot that the owner is not storing into. -/
lemma current_setRing {q : Nat} {r : Ring} {o : Owner} (ne : q ≠ s.ring) :
    ({ s.setRing q r with owner := o } : Deque θ).current = s.current :=
  Function.update_of_ne ne.symm ..

omit [DecidableEq θ] in
/-- Every step of the owner but the one that ends a push. -/
lemma Held.frames (h : Held s) (going : ∀ items k, s.owner = .fill items k → items[k]? ≠ none) :
    Frames s s.advance := by
  have o := h.owner
  unfold OwnerAt at o
  unfold Deque.advance
  cases ho : s.owner with
  | idle => exact .same rfl rfl le_rfl
  | aborted => exact .same rfl rfl le_rfl
  | room items batch t =>
    have hl := (limit_of_push (.inl ⟨t, ho⟩)).1
    simp only
    split
    next =>
      unfold Deque.grow
      simp only
      split
      next => exact .same rfl rfl hl.ge
      next => exact .same rfl (current_setRing (Nat.succ_ne_self _)) hl.ge
    next => exact .same rfl rfl hl.ge
  | copy items batch t i =>
    rw [ho] at o
    obtain ⟨t_le, _, _, _, _, _, copied⟩ := o
    have hl := (limit_of_push (.inr (.inl ⟨t, i, ho⟩))).1
    simp only
    split
    next e =>
      -- the new ring holds what the old one held at each index that is left
      have limit : ({ s with
          ring := s.ring + 1
          owner := if batch then .room items batch t else .fill items 0 } : Deque θ).limit =
          s.bottom := by
        cases batch <;> rfl
      refine ⟨le_rfl, ?_, fun j h1 h2 => ?_⟩
      · rw [limit, hl]
      · rw [limit] at h2
        exact copied j (t_le.trans h1) (e ▸ h2)
    next => exact .same rfl (current_setRing (Nat.succ_ne_self _)) hl.ge
  | fill items k =>
    rw [ho] at o
    obtain ⟨room, _, _⟩ := o
    have hl := (limit_of_push (b := true) (.inr (.inr ⟨k, ho⟩))).1
    obtain ⟨item, hk⟩ := Option.ne_none_iff_exists'.1 (going items k ho)
    have lt : k < items.length := (List.getElem?_eq_some_iff.1 hk).1
    simp only [hk]
    refine ⟨le_rfl, hl.ge, fun j h1 h2 => ?_⟩
    have below : j < s.bottom := h2
    have at_top : s.top ≤ j := h1
    have stored : ({ s.setRing s.ring (s.current.store (s.bottom + k) (tag item)) with
        owner := .fill items (k + 1) } : Deque θ).current =
        s.current.store (s.bottom + k) (tag item) := Function.update_self ..
    rw [stored]
    apply Ring.slot_store_ne (h.pow s.ring)
    · omega
    · show s.bottom + k < j + s.current.capacity
      omega
    · show j < s.bottom + k + s.current.capacity
      omega
  | lower b =>
    rw [ho] at o
    refine Frames.same rfl rfl ?_
    show b + 1 ≤ s.limit
    unfold Deque.limit
    rw [ho]
    exact o.ge
  | reload b =>
    rw [ho] at o
    change s.bottom = b at o
    have hl : s.limit = s.bottom + 1 := by
      unfold Deque.limit
      rw [ho]
    by_cases le : s.top ≤ b
    · simp only [if_pos le]
      refine Frames.same rfl rfl ?_
      rw [hl]
      show (if s.top = b then s.bottom + 1 else s.bottom) ≤ s.bottom + 1
      split
      next => exact le_rfl
      next => exact Nat.le_succ _
    · simp only [if_neg le]
      exact .same rfl rfl hl.ge
  | read b t =>
    have hl : s.limit = if t = b then s.bottom + 1 else s.bottom := by
      unfold Deque.limit
      rw [ho]
    simp only
    split
    next e =>
      refine Frames.same rfl rfl ?_
      rw [hl, if_pos e]
      exact le_rfl
    next e =>
      refine Frames.same rfl rfl ?_
      rw [hl, if_neg e]
      exact le_rfl
  | race b item =>
    have hl : s.limit = s.bottom + 1 := by
      unfold Deque.limit
      rw [ho]
    simp only
    split
    next e => exact ⟨e ▸ Nat.le_succ _, hl.ge, fun _ _ _ => rfl⟩
    next => exact .same rfl rfl hl.ge
  | restore b result =>
    rw [ho] at o
    refine Frames.same rfl rfl ?_
    unfold Deque.limit
    rw [ho]
    exact (congrArg (· + 1) o.1).ge
  | empty t =>
    rw [ho] at o
    refine Frames.same rfl rfl ?_
    unfold Deque.limit
    rw [ho]
    exact o.1.ge

omit [DecidableEq θ] in
/-- The step that ends a push. -/
lemma Logs.pushed {log : Nat → Option Item} (l : Logs s log) (h : Held s)
    (ho : s.owner = .fill items k) (hk : items[k]? = none) : Logs s.advance (logged s log .owner) := by
  have o := h.owner
  unfold OwnerAt at o
  rw [ho] at o
  obtain ⟨room, k_le, filled⟩ := o
  have hl := (limit_of_push (b := true) (.inr (.inr ⟨k, ho⟩))).1
  have e : k = items.length := by
    have := List.getElem?_eq_none_iff.1 hk
    omega
  have adv : s.advance = { s with
      bottom := s.bottom + items.length
      owner := .idle
      pushed := s.pushed + Multiset.ofList (items.map Item.ptr) } := by
    unfold Deque.advance
    simp only [ho, hk]
  rw [adv]
  intro i at_top lt
  change s.top ≤ i at at_top
  change i < s.bottom + items.length at lt
  have log_eq : logged s log .owner i =
      if items[k]? = none ∧ s.bottom ≤ i ∧ i < s.bottom + items.length then items[i - s.bottom]?
      else log i := by
    unfold logged
    simp only [ho]
  rw [log_eq]
  by_cases below : i < s.bottom
  · rw [if_neg fun c => absurd c.2.1 (Nat.not_le.2 below)]
    exact l i at_top (hl ▸ below)
  · have at_item : i - s.bottom < items.length := by omega
    have there : items[i - s.bottom]? = some (items.get ⟨i - s.bottom, at_item⟩) :=
      List.getElem?_eq_getElem at_item
    rw [if_pos ⟨hk, Nat.not_lt.1 below, lt⟩]
    refine ⟨_, there, ?_⟩
    have stored := filled (i - s.bottom) (e ▸ at_item) _ there
    rwa [Nat.add_sub_cancel' (Nat.not_lt.1 below)] at stored

omit [DecidableEq θ] in
/-- A step of the owner logs what it pushed. -/
lemma Logs.advance {log : Nat → Option Item} (l : Logs s log) (h : Held s) :
    Logs s.advance (logged s log .owner) := by
  by_cases done : ∃ items k, s.owner = .fill items k ∧ items[k]? = none
  · obtain ⟨items, k, ho, hk⟩ := done
    exact l.pushed h ho hk
  · have same : logged s log .owner = log := by
      funext i
      unfold logged
      simp only
      split
      next items k ho =>
        rw [if_neg fun c => done ⟨items, k, ho, c.1⟩]
      next => rfl
    rw [same]
    exact l.frames (h.frames fun items k ho hk => done ⟨items, k, ho, hk⟩)

/-- Every step logs what was pushed. -/
lemma Logs.step {log : Nat → Option Item} (l : Logs s log) (h : Held s) (st : Step s a u) :
    Logs u (logged s log a) := by
  have idle_limit : s.owner = .idle → s.limit = s.bottom := by
    intro idle
    unfold Deque.limit
    rw [idle]
  cases st with
  | push idle => exact l.frames (.same rfl rfl (idle_limit idle).ge)
  | batch idle => exact l.frames (.same rfl rfl (idle_limit idle).ge)
  | pop idle =>
    split
    next => exact l.frames (.same rfl rfl (idle_limit idle).ge)
    next => exact l.frames (.same rfl rfl (idle_limit idle).ge)
  | owner => exact l.advance h
  | @outOfMemory items batch t room _ =>
    exact l.frames (.same rfl rfl (limit_of_push (.inl ⟨t, room⟩)).1.ge)
  | steal _ => exact l.frames .setThief
  | thief => exact l.frames .prowl

/-! ## The predicate -/

/-- What a thief is called with, and what it has found of the slot it read. -/
def Asked (pred : StealBits → Bool) : Thief → Prop
  | .idle => True
  | .loaded p _ => p = pred
  | .inRange p _ => p = pred
  | .holding p _ _ => p = pred
  | .vetted _ v => pred (bits v) = true

/-- A thief at its next step. -/
lemma Asked.prowl {pred : StealBits → Bool} (h : Asked pred (s.thief x)) :
    Asked pred ((s.prowl x).thief x) := by
  have put : ∀ pc, (s.setThief x pc).thief x = pc := fun _ => Function.update_self ..
  unfold Deque.prowl
  cases hx : s.thief x with
  | idle =>
    simp only [hx]
    trivial
  | loaded p t =>
    rw [hx] at h
    simp only [put]
    split
    next => exact h
    next => trivial
  | inRange p t =>
    rw [hx] at h
    simp only [put]
    exact h
  | holding p t r =>
    rw [hx] at h
    change p = pred at h
    subst h
    simp only [put]
    split
    next yes => exact yes
    next => trivial
  | vetted t v =>
    simp only
    split
    next =>
      show Asked pred ((s.setThief x .idle).thief x)
      rw [put]
      trivial
    next =>
      rw [put]
      trivial

/-- Another thief's step is not its own. -/
lemma prowl_thief {y : θ} (ne : y ≠ x) : (s.prowl x).thief y = s.thief y := by
  have put : ∀ pc, (s.setThief x pc).thief y = s.thief y := fun _ => Function.update_of_ne ne ..
  unfold Deque.prowl
  split
  next => rfl
  next => exact put _
  next => exact put _
  next => exact put _
  next =>
    split
    next => exact put _
    next => exact put _

omit [DecidableEq θ] in
/-- A step of the owner moves no thief. -/
lemma advance_thief : s.advance.thief = s.thief := by
  unfold Deque.advance Deque.grow
  cases s.owner with
  | idle => rfl
  | aborted => rfl
  | room items batch t =>
    simp only
    split
    next =>
      split
      next => rfl
      next => rfl
    next => rfl
  | copy items batch t i =>
    simp only
    split
    next => rfl
    next => rfl
  | fill items k =>
    simp only
    split
    next => rfl
    next => rfl
  | lower b => rfl
  | reload b => rfl
  | read b t =>
    simp only
    split
    next => rfl
    next => rfl
  | race b item =>
    simp only
    split
    next => rfl
    next => rfl
  | restore b result => rfl
  | empty t => rfl

structure Vetting (w : Watched θ) : Prop where
  held : Held w.deque
  logs : Logs w.deque w.log
  asked : ∀ x, Asked (w.asked x) (w.deque.thief x)

/-- A thief comes away only with a task that it was shown. -/
lemma Vetting.step {w v : Watched θ} (h : Vetting w) (st : Watch w a v) : Vetting v := by
  obtain @⟨u, st⟩ := st
  refine ⟨h.held.step st, h.logs.step h.held st, fun y => ?_⟩
  have own := h.asked y
  cases st with
  | push _ => exact own
  | batch _ => exact own
  | pop _ =>
    split
    next => exact own
    next => exact own
  | owner =>
    simp only [advance_thief]
    exact own
  | outOfMemory _ _ => exact own
  | @steal x pred idle =>
    by_cases e : y = x
    · subst e
      have asked : asking w.asked (.steal y pred) y = pred := Function.update_self ..
      have thief : (w.deque.setThief y (.loaded pred w.deque.top)).thief y =
          .loaded pred w.deque.top := Function.update_self ..
      show Asked (asking w.asked (.steal y pred) y) _
      rw [asked, thief]
      rfl
    · have asked : asking w.asked (.steal x pred) y = w.asked y := Function.update_of_ne e ..
      have thief : (w.deque.setThief x (.loaded pred w.deque.top)).thief y = w.deque.thief y :=
        Function.update_of_ne e ..
      show Asked (asking w.asked (.steal x pred) y) _
      rw [asked, thief]
      exact own
  | @thief x =>
    by_cases e : y = x
    · subst e
      exact own.prowl
    · simp only [prowl_thief e]
      exact own

/-- In every state what a thief was shown is the task that it goes for. -/
lemma Vetting.of_reaches {maxCapacity : Nat} {w : Watched θ}
    (rn : Reaches Watch { deque := Deque.init (2 ^ k) maxCapacity } w) : Vetting w := by
  apply rn.invariant (I := Vetting)
  · refine ⟨Held.init k maxCapacity, fun i _ lt => ?_, fun _ => trivial⟩
    exact absurd lt (Nat.not_lt_zero i)
  · intro _ _ _ h _ st
    exact h.step st

/-- A thief's step that returns a task claims the index at `top`. -/
lemma Vetting.claims {w : Watched θ} (h : Vetting w) {ptr : Word}
    (got : (w.deque.prowl x).returned = ptr ::ₘ w.deque.returned) :
    ∃ item, w.log w.deque.top = some item ∧ ptr = item.ptr ∧ w.asked x item.bits = true ∧
      (w.deque.prowl x).top = w.deque.top + 1 := by
  have none : ∀ {q : Multiset Word}, q ≠ ptr ::ₘ q := by
    intro q e
    have := congrArg Multiset.card e
    rw [Multiset.card_cons] at this
    omega
  have th := h.held.thief x
  have asked := h.asked x
  unfold Deque.prowl at got ⊢
  cases hx : w.deque.thief x with
  | idle =>
    simp only [hx] at got
    exact absurd got none
  | loaded pred t =>
    simp only [hx] at got
    exact absurd got none
  | inRange pred t =>
    simp only [hx] at got
    exact absurd got none
  | holding pred t r =>
    simp only [hx] at got
    exact absurd got none
  | vetted t v =>
    rw [hx] at th asked
    by_cases e : w.deque.top = t
    · simp only [hx, if_pos e] at got ⊢
      subst e
      obtain ⟨lt, ev⟩ := th.2 rfl
      obtain ⟨item, hi, slot⟩ := h.logs w.deque.top le_rfl lt
      have vt : v = tag item := ev.trans slot
      refine ⟨item, hi, ?_, ?_, rfl⟩
      · have := congrArg Multiset.card got
        have head : untag v = ptr := (Multiset.cons_inj_left _).1 got
        rw [← head, vt, untag_tag]
      · change w.asked x (bits v) = true at asked
        rwa [vt, bits_tag] at asked
    · simp only [hx, if_neg e] at got
      exact absurd got none

/-- A thief's step that returns nothing leaves the deque alone. -/
lemma prowl_declines (got : (s.prowl x).returned = s.returned) :
    (s.prowl x).top = s.top ∧ (s.prowl x).bottom = s.bottom ∧ (s.prowl x).ring = s.ring ∧
      (s.prowl x).rings = s.rings := by
  unfold Deque.prowl at got ⊢
  cases hx : s.thief x with
  | idle => exact ⟨rfl, rfl, rfl, rfl⟩
  | loaded pred t => exact ⟨rfl, rfl, rfl, rfl⟩
  | inRange pred t => exact ⟨rfl, rfl, rfl, rfl⟩
  | holding pred t r => exact ⟨rfl, rfl, rfl, rfl⟩
  | vetted t v =>
    by_cases e : s.top = t
    · simp only [hx, if_pos e] at got
      have := congrArg Multiset.card got
      rw [Multiset.card_cons] at this
      omega
    · simp only [if_neg e]
      exact ⟨rfl, rfl, rfl, rfl⟩

/-- In every run, whatever the owner and the other thieves do: a task that `steal_if` returns is the one
pushed last at the index it claims, and the predicate took the bits it was pushed with; a call that
returns nothing, as one whose predicate declines, leaves `top`, `bottom` and the rings as they are. And
the tag of every task gives back its pointer and its bits. -/
theorem steal_if_claims_vetted {maxCapacity : Nat} {w v : Watched θ}
    (rn : Reaches Watch { deque := Deque.init (2 ^ k) maxCapacity } w) (st : Watch w (.thief x) v) :
    (∀ ptr, v.deque.returned = ptr ::ₘ w.deque.returned →
      ∃ item, w.log w.deque.top = some item ∧ ptr = item.ptr ∧ w.asked x item.bits = true ∧
        v.deque.top = w.deque.top + 1) ∧
    (v.deque.returned = w.deque.returned →
      v.deque.top = w.deque.top ∧ v.deque.bottom = w.deque.bottom ∧ v.deque.ring = w.deque.ring ∧
        v.deque.rings = w.deque.rings) ∧
    (∀ pred t r, w.deque.thief x = .holding pred t r →
      w.asked x = pred ∧
      (pred (bits ((w.deque.rings r).slot t)) = false → v.deque = w.deque.setThief x .idle)) ∧
    ∀ item : Item, untag (tag item) = item.ptr ∧ bits (tag item) = item.bits := by
  have h : Vetting w := .of_reaches rn
  cases st with | step st =>
  cases st
  refine ⟨fun ptr got => h.claims got, prowl_declines, fun pred t r holding => ?_,
    fun item => ⟨untag_tag item, bits_tag item⟩⟩
  have asked := h.asked x
  rw [holding] at asked
  refine ⟨asked.symm, fun no => ?_⟩
  show w.deque.prowl x = _
  unfold Deque.prowl
  simp only [holding, no, Bool.false_eq_true, if_false]

/-- Two tasks are pushed on a ring of one, which grows; a thief that takes only native tasks, as the
first is, claims it. -/
theorem steal_if_claims_vetted_native :
    ∃ (w v : Watched Unit) (item : Item),
      Reaches Watch { deque := Deque.init (2 ^ 0) kDefaultMaxCapacity } w ∧
      Watch w (.thief ()) v ∧ v.deque.returned = 16#64 ::ₘ w.deque.returned ∧
      w.log w.deque.top = some item ∧ 16#64 = item.ptr ∧ w.asked () item.bits = true := by
  have r0 : Reaches Watch { deque := (Deque.init (2 ^ 0) kDefaultMaxCapacity : Deque Unit) } _ := .refl
  have r1 := r0.next (.push [⟨16#64, 0, 1, rfl⟩, ⟨32#64, 1, 0, rfl⟩] true) trivial (.step (.batch rfl))
  have r2 := (((r1.next .owner trivial (.step .owner)).next .owner trivial (.step .owner)).next .owner
    trivial (.step .owner)).next .owner trivial (.step .owner)
  have r3 := (r2.next .owner trivial (.step .owner)).next .owner trivial (.step .owner)
  have r4 := r3.next (.steal () fun b => b.type = 1#64) trivial (.step (.steal rfl))
  have r5 := ((r4.next (.thief ()) trivial (.step .thief)).next (.thief ()) trivial
    (.step .thief)).next (.thief ()) trivial (.step .thief)
  obtain ⟨claims, _⟩ := steal_if_claims_vetted (x := ()) r5 (.step .thief)
  obtain ⟨item, logged, ptr, asked, _⟩ := claims 16#64 (by decide +kernel)
  exact ⟨_, _, item, r5, .step .thief, by decide +kernel, logged, ptr, asked⟩

end JLib.TaskDeque
