import JLib.TaskDeque.Held
import Mathlib.Tactic.Abel

/-!
# Every task is taken once

Each step of the owner and of a thief keeps the invariant, and with it the account: what was pushed is
what was returned, what the owner has taken, and the tasks from `top` to the limit.
-/

namespace JLib.TaskDeque
open LTS Deque

variable {θ : Type} {s u : Deque θ} {a : Label θ} {t b i k : Nat} {x : θ}
  {items : List Item} {batch : Bool}

/-- What can be taken ends at `bottom` or behind it. -/
lemma bottom_le_limit (s : Deque θ) : s.bottom ≤ s.limit := by
  unfold Deque.limit
  cases s.owner with
  | read b t =>
    simp only
    split
    · exact Nat.le_succ _
    · exact le_rfl
  | _ => simp

/-- A ring has a slot. -/
lemma capacity_pos (h : Held s) (r : Nat) : 0 < (s.rings r).capacity := by
  obtain ⟨k, hk⟩ := h.pow r
  rw [hk]
  exact Nat.two_pow_pos k

/-! ## Thieves -/

/-- A thief goes on. -/
lemma Held.setThief [DecidableEq θ] (h : Held s) {pc : Thief} (hpc : ThiefAt s pc) : Held (s.setThief x pc) := by
  refine ⟨h.pow, h.top_le, h.fits, h.owner, fun y => ?_, h.account⟩
  show ThiefAt s (Function.update s.thief x pc y)
  by_cases e : y = x
  · rw [e, Function.update_self]
    exact hpc
  · rw [Function.update_of_ne e]
    exact h.thief y

/-- A thief's compare-exchange succeeds. -/
lemma Held.take [DecidableEq θ] {v : Word} (h : Held s) (lt : s.top < s.limit) (ev : v = s.current.slot s.top) :
    Held { s.setThief x .idle with top := s.top + 1, returned := untag v ::ₘ s.returned } := by
  have h' : Held (s.setThief x .idle) := h.setThief trivial
  refine ⟨h.pow, lt, h.fits.trans (Nat.add_le_add_right (Nat.le_succ _) _), ?_, fun y => ?_, ?_⟩
  · have o := h.owner
    unfold OwnerAt at o ⊢
    unfold Deque.limit at lt
    simp only [Deque.setThief]
    cases ho : s.owner with
    | idle => trivial
    | aborted => trivial
    | room items batch t =>
      rw [ho] at o
      exact ⟨o.1.trans (Nat.le_succ _), o.2⟩
    | copy items batch t i =>
      rw [ho] at o
      exact ⟨o.1.trans (Nat.le_succ _), o.2⟩
    | fill items k =>
      rw [ho] at o
      exact ⟨o.1.trans (Nat.add_le_add_right (Nat.le_succ _) _), o.2⟩
    | lower b =>
      rw [ho] at o
      exact o
    | reload b =>
      rw [ho] at o
      exact o
    | read b t =>
      rw [ho] at o
      exact ⟨o.1, o.2.1, o.2.2.trans (Nat.le_succ _)⟩
    | race b item =>
      rw [ho] at o
      refine ⟨o.1, o.2.1.trans (Nat.le_succ _), fun e => ?_⟩
      have := o.2.1
      change s.top + 1 = b at e
      omega
    | restore b result =>
      rw [ho] at o lt
      obtain ⟨h1, h2⟩ := o
      simp only at lt
      omega
    | empty t =>
      rw [ho] at o lt
      obtain ⟨h1, h2⟩ := o
      simp only at lt
      omega
  · apply (h'.thief y).keeps
    refine ⟨Nat.le_succ _, le_rfl, fun e => ?_, fun e => ?_, fun _ _ e => ?_⟩
    · exact absurd e (Nat.succ_ne_self _)
    · exact absurd e (Nat.succ_ne_self _)
    · exact absurd e (Nat.succ_ne_self _)
  · show s.pushed = untag v ::ₘ s.returned + s.owed + s.span (s.top + 1) s.limit
    rw [h.account, span_first lt, ev, Multiset.add_cons, Multiset.cons_add, Multiset.cons_add]
    rfl

/-- A step of a thief loses no task. -/
lemma Held.prowl [DecidableEq θ] (h : Held s) (x : θ) : Held (s.prowl x) := by
  have th := h.thief x
  unfold Deque.prowl
  cases hx : s.thief x with
  | idle => exact h
  | loaded pred t =>
    rw [hx] at th
    apply h.setThief
    split
    next lt => exact ⟨th, fun _ => lt.trans_le (bottom_le_limit s)⟩
    next => trivial
  | inRange pred t =>
    rw [hx] at th
    exact h.setThief ⟨th.1, le_rfl, fun e => ⟨th.2 e, rfl⟩⟩
  | holding pred t r =>
    rw [hx] at th
    apply h.setThief
    split
    next => exact ⟨th.1, th.2.2⟩
    next => trivial
  | vetted t v =>
    rw [hx] at th
    simp only
    split
    next e =>
      subst e
      exact h.take (th.2 rfl).1 (th.2 rfl).2
    next => exact h.setThief trivial

/-! ## The owner -/

/-- The owner goes to another place and nothing else changes. -/
lemma Held.relabel (h : Held s) {o : Owner} (ho : OwnerAt { s with owner := o })
    (hl : ({ s with owner := o } : Deque θ).limit = s.limit)
    (hd : ({ s with owner := o } : Deque θ).owed = s.owed) : Held { s with owner := o } := by
  refine ⟨h.pow, hl ▸ h.top_le, hl ▸ h.fits, ho, fun y => ?_, ?_⟩
  · exact (h.thief y).keeps (Keeps.same rfl rfl rfl fun lt => hl ▸ lt)
  · rw [hd, hl]
    exact h.account

/-- A push or a pop begins. -/
lemma Held.start (h : Held s) (idle : s.owner = .idle) (one : batch = false → items.length = 1) :
    Held { s with owner := .room items batch s.top } := by
  have hl : s.limit = s.bottom := by
    unfold Deque.limit
    rw [idle]
  apply h.relabel
  · refine ⟨le_rfl, ?_, one⟩
    have := h.fits
    rw [hl] at this
    exact this
  · exact hl.symm
  · unfold Deque.owed
    rw [idle]

/-- The ring that is being made is not one a thief can read. -/
lemma Held.setFresh (h : Held s) {r : Ring} (hl : s.limit = s.bottom) (hd : s.owed = 0)
    (pow : ∃ k, r.capacity = 2 ^ k) (t_le : t ≤ s.top) (room : s.bottom ≤ t + s.current.capacity)
    (one : batch = false → items.length = 1) (le_i : t ≤ i) (i_le : i ≤ s.bottom)
    (twice : r.capacity = s.current.capacity * 2)
    (copied : ∀ j, t ≤ j → j < i → r.slot j = s.current.slot j) :
    Held { s.setRing (s.ring + 1) r with owner := .copy items batch t i } := by
  have old : ∀ {q}, q ≤ s.ring → (s.setRing (s.ring + 1) r).rings q = s.rings q :=
    fun le => Function.update_of_ne (by omega) ..
  have new : (s.setRing (s.ring + 1) r).rings (s.ring + 1) = r := Function.update_self ..
  have cur : (s.setRing (s.ring + 1) r).current = s.current := old le_rfl
  generalize hu : ({ s.setRing (s.ring + 1) r with owner := .copy items batch t i } : Deque θ) = u
  have top : u.top = s.top := by rw [← hu]; rfl
  have ring : u.ring = s.ring := by rw [← hu]; rfl
  have bottom : u.bottom = s.bottom := by rw [← hu]; rfl
  have limit : u.limit = s.limit := by
    rw [hl, ← hu]
    rfl
  have rings : u.rings = (s.setRing (s.ring + 1) r).rings := by rw [← hu]
  have current : u.current = s.current := by
    rw [← cur, ← hu]
    rfl
  refine ⟨fun q => ?_, ?_, ?_, ?_, fun y => ?_, ?_⟩
  · rw [rings]
    by_cases e : q = s.ring + 1
    · rw [e, new]
      exact pow
    · have : (s.setRing (s.ring + 1) r).rings q = s.rings q := Function.update_of_ne e ..
      rw [this]
      exact h.pow q
  · rw [top, limit]
    exact h.top_le
  · rw [top, limit, current]
    exact h.fits
  · unfold OwnerAt
    rw [top, bottom, current, ring, rings, new, ← hu]
    exact ⟨t_le, room, one, le_i, i_le, twice, copied⟩
  · have thief : u.thief = s.thief := by rw [← hu]; rfl
    rw [thief]
    apply (h.thief y).keeps
    refine ⟨top.ge, ring.ge, fun _ lt => limit ▸ lt, fun _ _ => ?_, fun q hq _ _ => ?_⟩
    · rw [current]
    · rw [rings, old hq]
  · have owed : u.owed = 0 := by rw [← hu]; rfl
    have span : u.span s.top s.limit = s.span s.top s.limit := by
      apply span_congr
      intro i _ _
      unfold Deque.task
      rw [current]
    have counts : u.pushed = s.pushed ∧ u.returned = s.returned := by
      rw [← hu]
      exact ⟨rfl, rfl⟩
    rw [counts.1, counts.2, owed, top, limit, span, h.account, hd]

/-- The indices `limit`, the owner's place and what it owes are those of a push. -/
lemma limit_of_push {l : List Item} {b : Bool} (h : (∃ t, s.owner = .room l b t) ∨
    (∃ t i, s.owner = .copy l b t i) ∨ ∃ k, s.owner = .fill l k) :
    s.limit = s.bottom ∧ s.owed = 0 := by
  unfold Deque.limit Deque.owed
  rcases h with ⟨t, e⟩ | ⟨t, i, e⟩ | ⟨k, e⟩ <;> rw [e] <;> exact ⟨rfl, rfl⟩

/-- The owner makes room. -/
lemma Held.room (h : Held s) (ho : s.owner = .room items batch t) : Held s.advance := by
  have o := h.owner
  unfold OwnerAt at o
  rw [ho] at o
  obtain ⟨t_le, room, one⟩ := o
  obtain ⟨hl, hd⟩ := limit_of_push (.inl ⟨t, ho⟩)
  unfold Deque.advance
  simp only [ho]
  split
  next full =>
    unfold Deque.grow
    simp only
    split
    next => exact h.relabel trivial hl.symm hd.symm
    next =>
      obtain ⟨k, hk⟩ := h.pow s.ring
      have hk' : s.current.capacity * 2 = 2 ^ (k + 1) := by
        rw [pow_succ]
        exact congrArg (· * 2) hk
      refine h.setFresh hl hd ⟨k + 1, hk'⟩ t_le room one le_rfl ?_ rfl fun j h1 h2 => ?_
      · have := h.top_le
        omega
      · omega
  next fits =>
    refine h.relabel ⟨?_, Nat.zero_le _, fun j hj => ?_⟩ hl.symm hd.symm
    · show s.bottom + items.length ≤ s.top + s.current.capacity
      omega
    · omega

/-- The owner copies a task into the new ring. -/
lemma Held.copy (h : Held s) (ho : s.owner = .copy items batch t i) : Held s.advance := by
  have o := h.owner
  unfold OwnerAt at o
  rw [ho] at o
  obtain ⟨t_le, room, one, le_i, i_le, twice, copied⟩ := o
  obtain ⟨hl, hd⟩ := limit_of_push (.inr (.inl ⟨t, i, ho⟩))
  have pos : 0 < s.current.capacity := capacity_pos h s.ring
  have htop := h.top_le
  have hfits := h.fits
  unfold Deque.advance
  simp only [ho]
  split
  next e =>
    -- the new ring is stored; it holds the same tasks
    subst e
    generalize hu : ({ s with
      ring := s.ring + 1
      owner := if batch then .room items batch t else .fill items 0 } : Deque θ) = u
    have top : u.top = s.top := by rw [← hu]
    have ring : u.ring = s.ring + 1 := by rw [← hu]
    have rings : u.rings = s.rings := by rw [← hu]
    have bottom : u.bottom = s.bottom := by rw [← hu]
    have current : u.current = s.rings (s.ring + 1) := by
      unfold Deque.current
      rw [rings, ring]
    have owner : u.owner = if batch then .room items batch t else .fill items 0 := by rw [← hu]
    have push : u.limit = u.bottom ∧ u.owed = 0 := by
      apply limit_of_push (l := items) (b := batch)
      rw [owner]
      by_cases hb : batch = true
      · exact .inl ⟨t, if_pos hb⟩
      · exact .inr (.inr ⟨0, if_neg hb⟩)
    have slot : s.top < s.bottom → u.current.slot s.top = s.current.slot s.top := by
      intro lt
      rw [current, copied _ t_le lt]
    refine ⟨rings ▸ h.pow, ?_, ?_, ?_, fun y => ?_, ?_⟩
    · rw [top, push.1, bottom, ← hl]
      exact h.top_le
    · rw [top, push.1, bottom, current, twice]
      omega
    · unfold OwnerAt
      rw [owner]
      by_cases hb : batch = true
      · rw [if_pos hb]
        simp only
        rw [top, bottom, current, twice]
        exact ⟨t_le, by omega, one⟩
      · rw [if_neg hb]
        simp only
        rw [top, bottom, current, twice, one (by simpa using hb)]
        exact ⟨by omega, Nat.zero_le _, fun j hj => absurd hj (Nat.not_lt_zero j)⟩
    · have thief : u.thief = s.thief := by rw [← hu]
      rw [thief]
      apply (h.thief y).keeps
      refine ⟨top.ge, ?_, fun _ lt => ?_, fun _ lt => slot ?_, fun q _ _ _ => ?_⟩
      · rw [ring]
        exact Nat.le_succ _
      · rw [push.1, bottom, ← hl]
        exact lt
      · rwa [← hl]
      · rw [rings]
    · have counts : u.pushed = s.pushed ∧ u.returned = s.returned := by
        rw [← hu]
        exact ⟨rfl, rfl⟩
      have span : u.span s.top s.bottom = s.span s.top s.bottom := by
        apply span_congr
        intro j h1 h2
        unfold Deque.task
        rw [current, copied j (t_le.trans h1) h2]
      rw [counts.1, counts.2, push.2, push.1, top, bottom, span, h.account, hd, hl]
  next ne =>
    obtain ⟨k, hk⟩ := h.pow (s.ring + 1)
    refine h.setFresh hl hd ⟨k, hk⟩ t_le room one (by omega) (by omega) twice fun j h1 h2 => ?_
    by_cases e : j = i
    · rw [e, Ring.slot_store_self]
    · rw [Ring.slot_store_ne ⟨k, hk⟩ (Ne.symm e) (by omega) (by omega)]
      exact copied j h1 (by omega)

/-- A slot below the batch is not one the batch is stored in. -/
lemma Held.fill (h : Held s) (ho : s.owner = .fill items k) : Held s.advance := by
  have o := h.owner
  unfold OwnerAt at o
  rw [ho] at o
  obtain ⟨room, k_le, filled⟩ := o
  obtain ⟨hl, hd⟩ := limit_of_push (b := true) (.inr (.inr ⟨k, ho⟩))
  have htop := h.top_le
  unfold Deque.advance
  simp only [ho]
  cases hk : items[k]? with
  | some item =>
    have lt : k < items.length := (List.getElem?_eq_some_iff.1 hk).1
    simp only
    generalize hu : ({ s.setRing s.ring (s.current.store (s.bottom + k) (tag item)) with
      owner := .fill items (k + 1) } : Deque θ) = u
    have top : u.top = s.top := by rw [← hu]; rfl
    have ring : u.ring = s.ring := by rw [← hu]; rfl
    have bottom : u.bottom = s.bottom := by rw [← hu]; rfl
    have push := limit_of_push (s := u) (l := items) (b := true)
      (.inr (.inr ⟨k + 1, by rw [← hu]⟩))
    have current : u.current = s.current.store (s.bottom + k) (tag item) := by
      rw [← hu]
      exact Function.update_self ..
    have older : ∀ {q}, q ≠ s.ring → u.rings q = s.rings q := by
      intro q hq
      rw [← hu]
      exact Function.update_of_ne hq ..
    have cap : u.current.capacity = s.current.capacity := by rw [current]; rfl
    have below : ∀ {j}, s.top ≤ j → j < s.bottom + k → u.current.slot j = s.current.slot j := by
      intro j h1 h2
      rw [current, Ring.slot_store_ne (r := s.current) (h.pow s.ring) (by omega)]
      · show s.bottom + k < j + s.current.capacity
        omega
      · show j < s.bottom + k + s.current.capacity
        omega
    refine ⟨fun q => ?_, ?_, ?_, ?_, fun y => ?_, ?_⟩
    · by_cases e : q = s.ring
      · rw [e, ← ring]
        show ∃ k, u.current.capacity = 2 ^ k
        rw [cap]
        exact h.pow s.ring
      · rw [older e]
        exact h.pow q
    · rw [top, push.1, bottom, ← hl]
      exact htop
    · rw [top, push.1, bottom, cap, ← hl]
      exact h.fits
    · unfold OwnerAt
      rw [top, bottom, cap, ← hu]
      refine ⟨room, lt, fun j hj x hx => ?_⟩
      rw [hu]
      by_cases e : j = k
      · rw [e] at hx ⊢
        rw [hk, Option.some.injEq] at hx
        rw [current, Ring.slot_store_self, hx]
      · rw [below (by omega) (by omega)]
        exact filled j (by omega) x hx
    · have thief : u.thief = s.thief := by rw [← hu]; rfl
      rw [thief]
      apply (h.thief y).keeps
      refine ⟨top.ge, ring.ge, fun _ lt => ?_, fun _ lt => ?_, fun q _ _ lt => ?_⟩
      · rw [push.1, bottom, ← hl]
        exact lt
      · exact below le_rfl (by omega)
      · by_cases e : q = s.ring
        · rw [e, ← ring]
          show u.current.slot s.top = _
          rw [ring]
          exact below le_rfl (by omega)
        · rw [older e]
    · have counts : u.pushed = s.pushed ∧ u.returned = s.returned := by
        rw [← hu]
        exact ⟨rfl, rfl⟩
      have span : u.span s.top s.bottom = s.span s.top s.bottom := by
        apply span_congr
        intro j h1 h2
        unfold Deque.task
        rw [below h1 (by omega)]
      rw [counts.1, counts.2, push.2, push.1, top, bottom, span, h.account, hd, hl]
  | none =>
    -- the tasks are all stored, and `bottom` is raised past them
    have e : k = items.length := by
      have := List.getElem?_eq_none_iff.1 hk
      omega
    subst e
    refine ⟨h.pow, ?_, room, trivial, fun y => ?_, ?_⟩
    · show s.top ≤ s.bottom + items.length
      omega
    · refine (h.thief y).keeps (Keeps.same rfl rfl rfl fun lt => ?_)
      show s.top < s.bottom + items.length
      omega
    · have stored : s.span s.bottom (s.bottom + items.length) =
          Multiset.ofList (items.map Item.ptr) := by
        apply span_items
        intro j hj item hx
        unfold Deque.task
        rw [filled j hj item hx, untag_tag]
      have split : s.span s.top (s.bottom + items.length) =
          s.span s.top s.bottom + Multiset.ofList (items.map Item.ptr) := by
        rw [← stored]
        exact (Finset.sum_Ico_consecutive _ (hl ▸ htop) (Nat.le_add_right _ _)).symm
      show s.pushed + _ = s.returned + 0 + s.span s.top (s.bottom + items.length)
      rw [split, h.account, hd, hl, add_assoc]

/-- The owner lowers `bottom`. -/
lemma Held.lower (h : Held s) (ho : s.owner = .lower b) : Held s.advance := by
  have o := h.owner
  unfold OwnerAt at o
  rw [ho] at o
  have hl : s.limit = b + 1 := by
    unfold Deque.limit
    rw [ho]
    exact o
  have hd : s.owed = 0 := by
    unfold Deque.owed
    rw [ho]
  unfold Deque.advance
  simp only [ho]
  refine ⟨h.pow, ?_, ?_, rfl, fun y => ?_, ?_⟩
  · show s.top ≤ b + 1
    rw [← hl]
    exact h.top_le
  · show b + 1 ≤ s.top + s.current.capacity
    rw [← hl]
    exact h.fits
  · refine (h.thief y).keeps (Keeps.same rfl rfl rfl fun lt => ?_)
    show s.top < b + 1
    rwa [← hl]
  · show s.pushed = s.returned + 0 + s.span s.top (b + 1)
    rw [h.account, hd, hl]

/-- The owner reads `top` again. -/
lemma Held.reload (h : Held s) (ho : s.owner = .reload b) : Held s.advance := by
  have o := h.owner
  unfold OwnerAt at o
  rw [ho] at o
  change s.bottom = b at o
  have hl : s.limit = b + 1 := by
    unfold Deque.limit
    rw [ho]
    exact congrArg (· + 1) o
  have hd : s.owed = 0 := by
    unfold Deque.owed
    rw [ho]
  have htop := h.top_le
  have hfits := h.fits
  unfold Deque.advance
  simp only [ho]
  by_cases le : s.top ≤ b
  · rw [if_pos le]
    by_cases e : s.top = b
    · apply h.relabel
      · exact ⟨o, le, le_rfl⟩
      · unfold Deque.limit
        simp only [e, if_true, ho]
      · unfold Deque.owed
        simp only [e, if_true, ho]
    · -- no thief can have got as far as `b`, so the task there is the owner's from now on
      have lim : ({ s with owner := .read b s.top } : Deque θ).limit = b := by
        unfold Deque.limit
        simp only [e, if_false]
        exact o
      refine ⟨h.pow, ?_, ?_, ⟨o, le, le_rfl⟩, fun y => ?_, ?_⟩
      · rw [lim]
        exact le
      · rw [lim]
        show b ≤ s.top + s.current.capacity
        omega
      · refine (h.thief y).keeps (Keeps.same rfl rfl rfl fun _ => ?_)
        rw [lim]
        omega
      · have owed : ({ s with owner := .read b s.top } : Deque θ).owed = {s.task b} := by
          unfold Deque.owed
          simp only [e, if_false]
          rfl
        rw [owed, lim]
        show s.pushed = s.returned + {s.task b} + s.span s.top b
        rw [h.account, hd, hl, span_last le, ← Multiset.singleton_add]
        abel
  · rw [if_neg le]
    apply h.relabel
    · refine ⟨?_, rfl⟩
      show s.bottom + 1 = s.top
      omega
    · unfold Deque.limit
      simp only [ho]
    · unfold Deque.owed
      simp only [ho]

/-- The owner reads the last task. -/
lemma Held.read (h : Held s) (ho : s.owner = .read b t) : Held s.advance := by
  have o := h.owner
  unfold OwnerAt at o
  rw [ho] at o
  obtain ⟨hb, t_le, t_top⟩ := o
  unfold Deque.advance
  simp only [ho]
  by_cases e : t = b
  · rw [if_pos e]
    apply h.relabel
    · exact ⟨hb, e ▸ t_top, fun _ => rfl⟩
    · unfold Deque.limit
      simp only [ho, e, if_true]
    · unfold Deque.owed
      simp only [ho, e, if_true]
  · rw [if_neg e]
    have hl : s.limit = s.bottom := by
      unfold Deque.limit
      simp only [ho, e, if_false]
    have hd : s.owed = {s.task b} := by
      unfold Deque.owed
      simp only [ho, e, if_false]
    refine ⟨h.pow, ?_, ?_, trivial, fun y => ?_, ?_⟩
    · show s.top ≤ s.bottom
      rw [← hl]
      exact h.top_le
    · show s.bottom ≤ s.top + s.current.capacity
      rw [← hl]
      exact h.fits
    · refine (h.thief y).keeps (Keeps.same rfl rfl rfl fun lt => ?_)
      show s.top < s.bottom
      rwa [← hl]
    · show s.pushed = s.task b ::ₘ s.returned + 0 + s.span s.top s.bottom
      rw [h.account, hd, hl, ← Multiset.singleton_add]
      abel

/-- The owner races for the last task. -/
lemma Held.race {item : Word} (h : Held s) (ho : s.owner = .race b item) : Held s.advance := by
  have o := h.owner
  unfold OwnerAt at o
  rw [ho] at o
  obtain ⟨hb, b_le, same⟩ := o
  have hl : s.limit = b + 1 := by
    unfold Deque.limit
    rw [ho]
    exact congrArg (· + 1) hb
  have hd : s.owed = 0 := by
    unfold Deque.owed
    rw [ho]
  have htop := h.top_le
  unfold Deque.advance
  simp only [ho]
  by_cases e : s.top = b
  · rw [if_pos e]
    refine ⟨h.pow, ?_, ?_, ⟨hb, rfl⟩, fun y => ?_, ?_⟩
    · show b + 1 ≤ s.bottom + 1
      omega
    · show s.bottom + 1 ≤ b + 1 + s.current.capacity
      omega
    · apply (h.thief y).keeps
      have ne : ¬b + 1 = s.top := by omega
      refine ⟨?_, le_rfl, fun e' => absurd e' ne, fun e' => absurd e' ne,
        fun _ _ e' => absurd e' ne⟩
      show s.top ≤ b + 1
      omega
    · show s.pushed = s.returned + {item} + s.span (b + 1) (s.bottom + 1)
      rw [h.account, hd, hl, hb, e, span_last le_rfl, span_self, span_self, same e, add_zero,
        add_zero]
      rfl
  · rw [if_neg e]
    apply h.relabel
    · refine ⟨hb, ?_⟩
      show s.top = b + 1
      omega
    · unfold Deque.limit
      simp only [ho]
    · unfold Deque.owed
      simp only [ho]

/-- The owner puts `bottom` back. -/
lemma Held.restore {result : Option Word} (h : Held s) (ho : s.owner = .restore b result) :
    Held s.advance := by
  have o := h.owner
  unfold OwnerAt at o
  rw [ho] at o
  obtain ⟨hb, htop⟩ := o
  have hl : s.limit = b + 1 := by
    unfold Deque.limit
    rw [ho]
    exact congrArg (· + 1) hb
  unfold Deque.advance
  simp only [ho]
  refine ⟨h.pow, ?_, ?_, trivial, fun y => ?_, ?_⟩
  · show s.top ≤ b + 1
    omega
  · show b + 1 ≤ s.top + s.current.capacity
    rw [← hl]
    exact h.fits
  · refine (h.thief y).keeps (Keeps.same rfl rfl rfl fun lt => ?_)
    show s.top < b + 1
    rwa [← hl]
  · show s.pushed = (s.returning result).returned + 0 + s.span s.top (b + 1)
    rw [h.account, hl, htop, span_self]
    unfold Deque.owed Deque.returning
    cases result with
    | none => simp only [ho]
    | some item =>
      simp only [ho]
      rw [← Multiset.singleton_add]
      abel

/-- The owner finds nothing. -/
lemma Held.empty (h : Held s) (ho : s.owner = .empty t) : Held s.advance := by
  have o := h.owner
  unfold OwnerAt at o
  rw [ho] at o
  obtain ⟨hb, htop⟩ := o
  have hl : s.limit = t := by
    unfold Deque.limit
    rw [ho]
    exact hb
  have hd : s.owed = 0 := by
    unfold Deque.owed
    rw [ho]
  unfold Deque.advance
  simp only [ho]
  refine ⟨h.pow, ?_, ?_, trivial, fun y => ?_, ?_⟩
  · show s.top ≤ t
    exact htop.le
  · show t ≤ s.top + s.current.capacity
    rw [← hl]
    exact h.fits
  · refine (h.thief y).keeps (Keeps.same rfl rfl rfl fun lt => ?_)
    show s.top < t
    rwa [← hl]
  · show s.pushed = s.returned + 0 + s.span s.top t
    rw [h.account, hd, hl]

/-- A step of the owner loses no task. -/
lemma Held.advance (h : Held s) : Held s.advance := by
  cases ho : s.owner with
  | idle =>
    unfold Deque.advance
    rw [ho]
    exact h
  | aborted =>
    unfold Deque.advance
    rw [ho]
    exact h
  | room items batch t => exact h.room ho
  | copy items batch t i => exact h.copy ho
  | fill items k => exact h.fill ho
  | lower b => exact h.lower ho
  | reload b => exact h.reload ho
  | read b t => exact h.read ho
  | race b item => exact h.race ho
  | restore b result => exact h.restore ho
  | empty t => exact h.empty ho

/-- No step loses a task. -/
lemma Held.step [DecidableEq θ] (h : Held s) (st : Step s a u) : Held u := by
  cases st with
  | push idle => exact h.start idle fun _ => rfl
  | batch idle => exact h.start idle nofun
  | pop idle =>
    have hl : s.limit = s.bottom := by
      unfold Deque.limit
      rw [idle]
    have hd : s.owed = 0 := by
      unfold Deque.owed
      rw [idle]
    split
    · exact h.relabel trivial hl.symm hd.symm
    next lt =>
      refine h.relabel ?_ hl.symm hd.symm
      show s.bottom = s.bottom - 1 + 1
      omega
  | owner => exact h.advance
  | @outOfMemory items batch t room _ =>
    obtain ⟨hl, hd⟩ := limit_of_push (.inl ⟨t, room⟩)
    exact h.relabel trivial hl.symm hd.symm
  | steal _ => exact h.setThief le_rfl
  | thief => exact h.prowl _

/-- The deque is empty. -/
lemma Held.init (k maxCapacity : Nat) : Held (Deque.init (2 ^ k) maxCapacity : Deque θ) := by
  refine ⟨fun _ => ⟨k, rfl⟩, le_rfl, Nat.zero_le _, trivial, fun _ => trivial, ?_⟩
  show (0 : Multiset Word) = 0 + 0 + (Deque.init (2 ^ k) maxCapacity : Deque θ).span 0 0
  rw [span_self]
  rfl

/-- From a deque of any capacity that is a power of two: the tasks returned are among the tasks pushed,
none more often than it was pushed; and when no operation is in progress, the tasks that were pushed and
not returned are exactly those at the indices from `top` to `bottom` of the ring. -/
theorem each_task_taken_once [DecidableEq θ] {k maxCapacity : Nat}
    (rn : Reaches Step (Deque.init (2 ^ k) maxCapacity) s) :
    s.returned ≤ s.pushed ∧
    (s.owner = .idle → (∀ x, s.thief x = .idle) → s.top ≤ s.bottom ∧
      s.pushed = s.returned + ∑ i ∈ Finset.Ico s.top s.bottom, {s.task i}) := by
  have h : Held s :=
    rn.invariant (I := Held) (Held.init k maxCapacity) fun h _ st => h.step st
  refine ⟨?_, fun idle _ => ?_⟩
  · rw [h.account, add_assoc]
    exact Multiset.le_add_right _ _
  · have hl : s.limit = s.bottom := by
      unfold Deque.limit
      rw [idle]
    have hd : s.owed = 0 := by
      unfold Deque.owed
      rw [idle]
    have account := h.account
    rw [hd, hl, add_zero] at account
    exact ⟨hl ▸ h.top_le, account⟩

/-- A batch of three on a deque of capacity 1, which grows twice; then one task is stolen. -/
theorem each_task_taken_once_grown :
    ∃ s : Deque Unit, Reaches Step (Deque.init (2 ^ 0) kDefaultMaxCapacity) s ∧
      s.current.capacity = 4 ∧ s.returned = {16#64} ∧ s.returned ≤ s.pushed ∧
      s.pushed = s.returned + ∑ i ∈ Finset.Ico s.top s.bottom, {s.task i} := by
  have r0 : Reaches Step (Deque.init (2 ^ 0) kDefaultMaxCapacity : Deque Unit) _ := .refl
  have r1 := r0.next (.push [⟨16#64, 0, 0, rfl⟩, ⟨32#64, 1, 1, rfl⟩, ⟨48#64, 0, 1, rfl⟩] true) trivial
    (.batch rfl)
  -- room, grow and publish, twice; then the three stores and that of `bottom`
  have r2 := (((r1.next .owner trivial .owner).next .owner trivial .owner).next .owner trivial
    .owner).next .owner trivial .owner
  have r3 := ((((r2.next .owner trivial .owner).next .owner trivial .owner).next .owner trivial
    .owner).next .owner trivial .owner).next .owner trivial .owner
  have r4 := r3.next (.steal () fun _ => true) trivial (.steal rfl)
  have r5 := (((r4.next (.thief ()) trivial .thief).next (.thief ()) trivial .thief).next (.thief ())
    trivial .thief).next (.thief ()) trivial .thief
  obtain ⟨le, rest⟩ := each_task_taken_once r5
  exact ⟨_, r5, by decide +kernel, by decide +kernel, le,
    (rest rfl fun _ => rfl).2⟩

end JLib.TaskDeque
