import JLib.TaskDeque.Model
import Mathlib.Algebra.BigOperators.Intervals
import Mathlib.Algebra.Order.Group.Multiset

/-!
# Who holds what in the deque

The tasks that can still be taken are those at the indices from `top` up to a limit: `bottom`, or one
more while the owner is about to take, or to race a thief for, the task it has lowered `bottom` past. The
invariant says what the owner and each thief know at every point; a thief's knowledge counts only as long
as `top` is what it loaded, and `top` never goes back.
-/

namespace JLib.TaskDeque
open LTS

variable {θ : Type} {s u : Deque θ} {r : Ring} {i j t b : Nat} {v : Word}

/-! ## Slots -/

/-- A slot holds what was stored. -/
lemma Ring.slot_store_self : (r.store i v).slot i = v := Function.update_self ..

/-- Two indices less than a turn apart have different slots. -/
lemma Ring.slot_store_ne (pow : ∃ k, r.capacity = 2 ^ k) (ne : i ≠ j) (h1 : i < j + r.capacity)
    (h2 : j < i + r.capacity) : (r.store i v).slot j = r.slot j := by
  obtain ⟨k, hk⟩ := pow
  apply Function.update_of_ne
  show j &&& (r.capacity - 1) ≠ i &&& (r.capacity - 1)
  rw [hk, Nat.and_two_pow_sub_one_eq_mod, Nat.and_two_pow_sub_one_eq_mod]
  rw [hk] at h1 h2
  intro e
  rcases Nat.lt_or_gt_of_ne ne with lt | lt
  · have := Nat.sub_mod_eq_zero_of_mod_eq e
    rw [Nat.mod_eq_of_lt (by omega)] at this
    omega
  · have := Nat.sub_mod_eq_zero_of_mod_eq e.symm
    rw [Nat.mod_eq_of_lt (by omega)] at this
    omega

/-! ## The invariant -/

namespace Deque

/-- The end of the indices that can still be taken. -/
def limit (s : Deque θ) : Nat :=
  match s.owner with
  | .reload _ | .race _ _ | .restore _ _ | .empty _ => s.bottom + 1
  | .read b t => if t = b then s.bottom + 1 else s.bottom
  | _ => s.bottom

/-- What the owner has taken and not yet returned. -/
def owed (s : Deque θ) : Multiset Word :=
  match s.owner with
  | .read b t => if t = b then 0 else {s.task b}
  | .restore _ (some item) => {item}
  | _ => 0

/-- The tasks at the indices from `a` to `b`. -/
def span (s : Deque θ) (a b : Nat) : Multiset Word := ∑ i ∈ Finset.Ico a b, {s.task i}

end Deque

def OwnerAt (s : Deque θ) : Prop :=
  match s.owner with
  | .idle | .aborted => True
  | .room items batch t => t ≤ s.top ∧ s.bottom ≤ t + s.current.capacity ∧
      (batch = false → items.length = 1)
  | .copy items batch t i => t ≤ s.top ∧ s.bottom ≤ t + s.current.capacity ∧
      (batch = false → items.length = 1) ∧ t ≤ i ∧ i ≤ s.bottom ∧
      (s.rings (s.ring + 1)).capacity = s.current.capacity * 2 ∧
      ∀ j, t ≤ j → j < i → (s.rings (s.ring + 1)).slot j = s.current.slot j
  | .fill items k => s.bottom + items.length ≤ s.top + s.current.capacity ∧ k ≤ items.length ∧
      ∀ j < k, ∀ item, items[j]? = some item → s.current.slot (s.bottom + j) = tag item
  | .lower b => s.bottom = b + 1
  | .reload b => s.bottom = b
  | .read b t => s.bottom = b ∧ t ≤ b ∧ t ≤ s.top
  | .race b item => s.bottom = b ∧ b ≤ s.top ∧ (s.top = b → item = s.task b)
  | .restore b _ => s.bottom = b ∧ s.top = b + 1
  | .empty t => s.bottom + 1 = t ∧ s.top = t

def ThiefAt (s : Deque θ) : Thief → Prop
  | .idle => True
  | .loaded _ t => t ≤ s.top
  | .inRange _ t => t ≤ s.top ∧ (s.top = t → t < s.limit)
  | .holding _ t r => t ≤ s.top ∧ r ≤ s.ring ∧
      (s.top = t → t < s.limit ∧ (s.rings r).slot t = s.current.slot t)
  | .vetted t v => t ≤ s.top ∧ (s.top = t → t < s.limit ∧ v = s.current.slot t)

structure Held (s : Deque θ) : Prop where
  pow : ∀ r, ∃ k, (s.rings r).capacity = 2 ^ k
  top_le : s.top ≤ s.limit
  fits : s.limit ≤ s.top + s.current.capacity
  owner : OwnerAt s
  thief : ∀ x, ThiefAt s (s.thief x)
  account : s.pushed = s.returned + s.owed + s.span s.top s.limit

/-! ## Spans -/

/-- Only the tasks in the span matter. -/
lemma span_congr {a b : Nat} (h : ∀ i, a ≤ i → i < b → u.task i = s.task i) :
    u.span a b = s.span a b := by
  apply Finset.sum_congr rfl
  intro i hi
  rw [Finset.mem_Ico] at hi
  rw [h i hi.1 hi.2]

/-- A span and its first task. -/
lemma span_first {a b : Nat} (h : a < b) : s.span a b = s.task a ::ₘ s.span (a + 1) b := by
  unfold Deque.span
  rw [Finset.sum_eq_sum_Ico_succ_bot h, Multiset.singleton_add]

/-- A span and its last task. -/
lemma span_last {a b : Nat} (h : a ≤ b) : s.span a (b + 1) = s.task b ::ₘ s.span a b := by
  unfold Deque.span
  rw [Finset.sum_Ico_succ_top h, add_comm, Multiset.singleton_add]

/-- An empty span has no task. -/
lemma span_self (a : Nat) : s.span a a = 0 := by
  unfold Deque.span
  rw [Finset.Ico_self, Finset.sum_empty]

/-- The tasks of a batch, at consecutive indices. -/
lemma span_items (items : List Item) (b : Nat)
    (h : ∀ j < items.length, ∀ item, items[j]? = some item → s.task (b + j) = item.ptr) :
    s.span b (b + items.length) = Multiset.ofList (items.map Item.ptr) := by
  induction items generalizing b with
  | nil => exact span_self b
  | cons item items ih =>
    have first := h 0 (by simp) item rfl
    have rest := ih (b + 1) fun j hj x hx => by
      have := h (j + 1) (by simpa using hj) x (by simpa using hx)
      rwa [Nat.add_comm j 1, ← Nat.add_assoc] at this
    rw [span_first (by simp), List.map_cons, ← Multiset.cons_coe, ← rest, ← first]
    congr 2
    rw [List.length_cons]
    omega

/-! ## What a thief knows -/

/-- A step that leaves the task at `top` alone, if `top` is left. -/
structure Keeps (s u : Deque θ) : Prop where
  top : s.top ≤ u.top
  ring : s.ring ≤ u.ring
  limit : u.top = s.top → s.top < s.limit → s.top < u.limit
  current : u.top = s.top → s.top < s.limit → u.current.slot s.top = s.current.slot s.top
  rings : ∀ r ≤ s.ring, u.top = s.top → s.top < s.limit →
    (u.rings r).slot s.top = (s.rings r).slot s.top

/-- A step that leaves the task at `top` leaves the thief where it is. -/
lemma ThiefAt.keeps {pc : Thief} (th : ThiefAt s pc) (k : Keeps s u) : ThiefAt u pc := by
  have top := k.top
  cases pc with
  | idle => trivial
  | loaded _ t =>
    have le : t ≤ s.top := th
    exact le.trans top
  | inRange _ t =>
    obtain ⟨le, h⟩ := th
    refine ⟨le.trans top, fun e => ?_⟩
    have et : s.top = t := by omega
    subst et
    exact k.limit e (h rfl)
  | holding _ t r =>
    obtain ⟨le, hr, h⟩ := th
    refine ⟨le.trans top, hr.trans k.ring, fun e => ?_⟩
    have et : s.top = t := by omega
    subst et
    obtain ⟨lt, es⟩ := h rfl
    exact ⟨k.limit e lt, by rw [k.rings r hr e lt, k.current e lt, es]⟩
  | vetted t v =>
    obtain ⟨le, h⟩ := th
    refine ⟨le.trans top, fun e => ?_⟩
    have et : s.top = t := by omega
    subst et
    obtain ⟨lt, es⟩ := h rfl
    exact ⟨k.limit e lt, by rw [k.current e lt, es]⟩

/-- Only the owner's place, `bottom` and what is counted change. -/
lemma Keeps.same (top : u.top = s.top) (ring : u.ring = s.ring) (rings : u.rings = s.rings)
    (limit : s.top < s.limit → s.top < u.limit) : Keeps s u := by
  refine ⟨top.ge, ring.ge, fun _ => limit, fun _ _ => ?_, fun _ _ _ _ => ?_⟩
  · unfold Deque.current
    rw [ring, rings]
  · rw [rings]

end JLib.TaskDeque
