import JLib.ParallelFor.Model
import Mathlib.Data.BitVec

/-!
# `PushArray`

`PushArray` of `include/TaskScheduler.h`, which does not wait: the range is cut into chunks, each of which
becomes a task or, where `CreateInternalTask` fails, is run at once. A `size_t` is a word of 64 bits and
its arithmetic wraps around. `room` is the longest vector that `ts.reserve` makes; it throws on a longer one.
-/

namespace JLib.ParallelFor

abbrev Size := BitVec 64

/-- The ends of chunk `c`. -/
def bounds (begin stop chunkSize : Size) (c : Nat) : Size × Size :=
  let lo := begin + BitVec.ofNat 64 c * chunkSize
  (lo, if lo + chunkSize > stop then stop else lo + chunkSize)

/-- The indices that the loop of a chunk calls `fn` with. -/
def indices (r : Size × Size) : List Nat := List.range' r.1.toNat (r.2.toNat - r.1.toNat)

/-- `ts`, the chunks that were run at once, and the counter of the `WaitGroup`. -/
structure Submitted where
  ts : List (Size × Size) := []
  inline : List (Size × Size) := []
  n : Option (BitVec 32)

namespace Submitted

/-- The body of the loop over the chunks. -/
def chunk (created : Nat → Bool) (begin stop chunkSize : Size) (s : Submitted) (c : Nat) : Submitted :=
  if created c then { s with ts := s.ts ++ [bounds begin stop chunkSize c] }
  else { s with inline := s.inline ++ [bounds begin stop chunkSize c] }

/-- `fn` is called with these, by the tasks and at once. -/
def calls (s : Submitted) : List Nat := (s.ts ++ s.inline).flatMap indices

end Submitted

/-- `created c` is whether the task for chunk `c` can be had, `n` the counter of the `WaitGroup`, if one is
given. -/
def PushArray (created : Nat → Bool) (room : Nat) (begin stop chunkSize : Size) (n : Option (BitVec 32)) :
    Option Submitted :=
  if stop ≤ begin then some { n := n }
  else
    let chunkSize := if chunkSize = 0 then 1 else chunkSize
    let total := stop - begin
    let chunks := (total + chunkSize - 1) / chunkSize
    if chunks.toNat > room then none
    else
      let s := (List.range chunks.toNat).foldl (Submitted.chunk created begin stop chunkSize) { n := n }
      some { s with n := s.n.map fun n => if s.ts = [] then n else n + BitVec.ofNat 32 s.ts.length }

/-- The tasks that a counter counts. -/
def outstanding (n : BitVec 32) : Nat := n.toNat % WAITER_BIT

/-- Every index is visited once, and the tasks are counted. -/
def VisitsOnce (created : Nat → Bool) (room : Nat) (begin stop chunkSize : Size) (n : Option (BitVec 32)) :
    Prop :=
  ∃ s, PushArray created room begin stop chunkSize n = some s ∧
    (∀ i, s.calls.count i = if begin.toNat ≤ i ∧ i < stop.toNat then 1 else 0) ∧
    ∀ k, n = some k → ∃ k', s.n = some k' ∧ outstanding k' = outstanding k + s.ts.length

variable {created : Nat → Bool} {room : Nat} {begin stop chunkSize : Size} {n : Option (BitVec 32)}
  {c m i : Nat} {r : Size × Size}

/-! ## One chunk -/

/-- The loop of a chunk visits its indices once. -/
lemma count_indices : (indices r).count i = if r.1.toNat ≤ i ∧ i < r.2.toNat then 1 else 0 := by
  have once : (indices r).Nodup := List.nodup_range'
  rw [once.count]
  unfold indices
  congr 1
  rw [List.mem_range'_1, eq_iff_iff]
  omega

/-- The first index of a chunk that begins below 2 ^ 64. -/
lemma bounds_lo (pos : 0 < chunkSize.toNat) (fits : begin.toNat + c * chunkSize.toNat < 2 ^ 64) :
    (bounds begin stop chunkSize c).1.toNat = begin.toNat + c * chunkSize.toNat := by
  have small : c < 2 ^ 64 := by
    have := Nat.le_mul_of_pos_right c pos
    omega
  show (begin + BitVec.ofNat 64 c * chunkSize).toNat = _
  rw [BitVec.toNat_add, BitVec.toNat_mul, BitVec.toNat_ofNat, Nat.mod_eq_of_lt small,
    Nat.mod_eq_of_lt (by omega : c * chunkSize.toNat < 2 ^ 64), Nat.mod_eq_of_lt fits]

/-- The end of a chunk that has room below 2 ^ 64. -/
lemma bounds_hi (pos : 0 < chunkSize.toNat)
    (fits : begin.toNat + c * chunkSize.toNat + chunkSize.toNat < 2 ^ 64) :
    (bounds begin stop chunkSize c).2.toNat =
      min stop.toNat (begin.toNat + c * chunkSize.toNat + chunkSize.toNat) := by
  have first : (bounds begin stop chunkSize c).1.toNat = begin.toNat + c * chunkSize.toNat :=
    bounds_lo pos (by omega)
  have lo : (begin + BitVec.ofNat 64 c * chunkSize).toNat = begin.toNat + c * chunkSize.toNat := first
  have hi : (begin + BitVec.ofNat 64 c * chunkSize + chunkSize).toNat =
      begin.toNat + c * chunkSize.toNat + chunkSize.toNat := by
    rw [BitVec.toNat_add, lo, Nat.mod_eq_of_lt fits]
  unfold bounds
  simp only
  split
  next past =>
    rw [gt_iff_lt, BitVec.lt_def, hi] at past
    omega
  next below =>
    rw [gt_iff_lt, BitVec.lt_def, hi] at below
    rw [hi]
    omega

/-- The end of a chunk that has no room wraps around to before its first index. -/
lemma bounds_wraps (pos : 0 < chunkSize.toNat) (lt : begin.toNat + c * chunkSize.toNat < stop.toNat)
    (wraps : 2 ^ 64 ≤ begin.toNat + c * chunkSize.toNat + chunkSize.toNat) :
    indices (bounds begin stop chunkSize c) = [] := by
  have lo : (bounds begin stop chunkSize c).1.toNat = begin.toNat + c * chunkSize.toNat :=
    bounds_lo pos (lt.trans stop.isLt)
  have hi : (begin + BitVec.ofNat 64 c * chunkSize + chunkSize).toNat =
      begin.toNat + c * chunkSize.toNat + chunkSize.toNat - 2 ^ 64 := by
    have first : (begin + BitVec.ofNat 64 c * chunkSize).toNat = begin.toNat + c * chunkSize.toNat := lo
    have small := chunkSize.isLt
    have below := stop.isLt
    rw [BitVec.toNat_add, first, Nat.mod_eq_sub_mod wraps, Nat.mod_eq_of_lt (by omega)]
  have before : (bounds begin stop chunkSize c).2.toNat ≤ (bounds begin stop chunkSize c).1.toNat := by
    have small := chunkSize.isLt
    rw [lo]
    unfold bounds
    simp only
    split
    next past =>
      rw [gt_iff_lt, BitVec.lt_def, hi] at past
      omega
    next =>
      rw [hi]
      omega
  unfold indices
  rw [Nat.sub_eq_zero_of_le before]
  rfl

/-! ## All the chunks -/

/-- The indices of the first `m` chunks. -/
def visited (begin stop chunkSize : Size) (m : Nat) : List Nat :=
  (List.range m).flatMap fun c => indices (bounds begin stop chunkSize c)

/-- The indices of one chunk more. -/
lemma visited_succ : visited begin stop chunkSize (m + 1) =
    visited begin stop chunkSize m ++ indices (bounds begin stop chunkSize m) := by
  unfold visited
  rw [List.range_succ, List.flatMap_append, List.flatMap_singleton]

/-- The first chunks visit their indices once, as long as nothing wraps. -/
lemma count_visited (pos : 0 < chunkSize.toNat) (fits : begin.toNat + m * chunkSize.toNat < 2 ^ 64) :
    (visited begin stop chunkSize m).count i =
      if begin.toNat ≤ i ∧ i < min stop.toNat (begin.toNat + m * chunkSize.toNat) then 1 else 0 := by
  induction m with
  | zero =>
    rw [Nat.zero_mul, if_neg (by omega)]
    rfl
  | succ m ih =>
    rw [Nat.succ_mul, ← Nat.add_assoc] at fits ⊢
    rw [visited_succ, List.count_append, ih (by omega), count_indices, bounds_lo pos (by omega),
      bounds_hi pos fits]
    have after : begin.toNat ≤ begin.toNat + m * chunkSize.toNat := Nat.le_add_right _ _
    generalize begin.toNat + m * chunkSize.toNat = lo at fits after ⊢
    split <;> split <;> split <;> omega

/-- The chunks of which a task was made, and those of which none was. -/
lemma foldl_chunk (s : Submitted) (l : List Nat) :
    l.foldl (Submitted.chunk created begin stop chunkSize) s =
      { ts := s.ts ++ (l.filter created).map (bounds begin stop chunkSize)
        inline := s.inline ++ (l.filter fun c => !created c).map (bounds begin stop chunkSize)
        n := s.n } := by
  induction l generalizing s with
  | nil =>
    simp only [List.foldl_nil, List.filter_nil, List.map_nil, List.append_nil]
  | cons c l ih =>
    rw [List.foldl_cons, ih]
    unfold Submitted.chunk
    cases h : created c with
    | true => simp [h]
    | false => simp [h]

/-- The order of the chunks does not matter to what they visit. -/
lemma count_calls (k : Option (BitVec 32)) :
    ({ ts := ((List.range m).filter created).map (bounds begin stop chunkSize)
       inline := ((List.range m).filter fun c => !created c).map (bounds begin stop chunkSize)
       n := k } : Submitted).calls.count i = (visited begin stop chunkSize m).count i := by
  unfold Submitted.calls visited
  have perm := ((List.filter_append_perm created (List.range m)).map
    (bounds begin stop chunkSize)).flatMap_right indices
  rw [List.map_append, List.flatMap_map (bounds begin stop chunkSize)] at perm
  exact perm.count_eq i

/-! ## The whole range -/

/-- The chunks of a range of `total` indices, as they are meant. -/
def chunkCount (total chunkSize : Nat) : Nat := (total + chunkSize - 1) / chunkSize

/-- So many chunks cover the range, and one less does not. -/
lemma chunkCount_spec {total k : Nat} (pos : 0 < k) (some : 0 < total) :
    0 < chunkCount total k ∧ total ≤ chunkCount total k * k ∧
      (chunkCount total k - 1) * k < total := by
  unfold chunkCount
  have below := Nat.div_mul_le_self (total + k - 1) k
  have above := Nat.lt_div_mul_add (a := total + k - 1) pos
  have first : 0 < (total + k - 1) / k := Nat.div_pos (by omega) pos
  rw [Nat.sub_mul]
  refine ⟨first, ?_, ?_⟩ <;> omega

/-- `chunks`, where the sum does not wrap around. -/
lemma chunks_toNat (lt : begin < stop) (pos : 0 < chunkSize.toNat)
    (fits : stop.toNat - begin.toNat + chunkSize.toNat - 1 < 2 ^ 64) :
    ((stop - begin + chunkSize - 1) / chunkSize).toNat =
      chunkCount (stop.toNat - begin.toNat) chunkSize.toNat := by
  rw [BitVec.lt_def] at lt
  have total : (stop - begin).toNat = stop.toNat - begin.toNat := BitVec.toNat_sub_of_le lt.le
  have sum : (stop - begin + chunkSize - 1).toNat = stop.toNat - begin.toNat + chunkSize.toNat - 1 := by
    have one : (1 : Size).toNat = 1 := rfl
    rw [BitVec.toNat_sub, BitVec.toNat_add, total, one]
    omega
  rw [BitVec.toNat_udiv, sum]
  rfl

/-- Where it does, there is no chunk. -/
lemma chunks_wrap (lt : begin < stop) (pos : 0 < chunkSize.toNat)
    (wraps : 2 ^ 64 ≤ stop.toNat - begin.toNat + chunkSize.toNat - 1) :
    ((stop - begin + chunkSize - 1) / chunkSize).toNat = 0 := by
  rw [BitVec.lt_def] at lt
  have total : (stop - begin).toNat = stop.toNat - begin.toNat := BitVec.toNat_sub_of_le lt.le
  have small := stop.isLt
  have small' := chunkSize.isLt
  have sum : (stop - begin + chunkSize - 1).toNat < chunkSize.toNat := by
    have one : (1 : Size).toNat = 1 := rfl
    rw [BitVec.toNat_sub, BitVec.toNat_add, total, one]
    omega
  rw [BitVec.toNat_udiv]
  exact Nat.div_eq_of_lt sum

/-- The counter counts the tasks unless it runs into the bit. -/
lemma outstanding_add {k : BitVec 32} {t : Nat} :
    outstanding (k + BitVec.ofNat 32 t) = outstanding k + t ↔ outstanding k + t < WAITER_BIT := by
  unfold outstanding WAITER_BIT
  rw [BitVec.toNat_add, BitVec.toNat_ofNat]
  omega

/-- The chunk size that is used. -/
def effective (chunkSize : Size) : Size := if chunkSize = 0 then 1 else chunkSize

/-- The chunk size that is used is not zero. -/
lemma effective_pos : 0 < (effective chunkSize).toNat := by
  unfold effective
  split
  next => exact Nat.one_pos
  next ne =>
    apply Nat.pos_of_ne_zero
    exact fun zero => ne (BitVec.eq_of_toNat_eq zero)

/-- What `PushArray` does when it neither returns at once nor throws. -/
lemma PushArray_eq (lt : begin < stop)
    (fits : stop.toNat - begin.toNat + (effective chunkSize).toNat - 1 < 2 ^ 64)
    (le : chunkCount (stop.toNat - begin.toNat) (effective chunkSize).toNat ≤ room) :
    ∃ s, PushArray created room begin stop chunkSize n = some s ∧
      (∀ i, s.calls.count i = (visited begin stop (effective chunkSize)
        (chunkCount (stop.toNat - begin.toNat) (effective chunkSize).toNat)).count i) ∧
      s.ts.length = ((List.range (chunkCount (stop.toNat - begin.toNat)
        (effective chunkSize).toNat)).filter created).length ∧
      s.n = n.map fun k => k + BitVec.ofNat 32 s.ts.length := by
  have started : ¬stop ≤ begin := by
    rw [BitVec.le_def, Nat.not_le]
    exact lt
  unfold PushArray
  rw [if_neg started]
  simp only
  rw [show (if chunkSize = 0 then 1 else chunkSize) = effective chunkSize from rfl,
    chunks_toNat lt effective_pos fits, if_neg (Nat.not_lt.2 le), foldl_chunk]
  refine ⟨_, rfl, fun i => count_calls _, ?_, ?_⟩
  · simp only [List.nil_append, List.length_map]
  · cases n with
    | none => rfl
    | some k =>
      simp only [List.nil_append, Option.map_some, Option.some.injEq]
      split
      next none =>
        rw [none]
        exact (BitVec.add_zero k).symm
      next => rfl

/-- The last index is missed if the last chunk has no room below 2 ^ 64. -/
lemma last_missed (pos : 0 < chunkSize.toNat) (lt : begin < stop)
    (wraps : 2 ^ 64 ≤ begin.toNat +
      chunkCount (stop.toNat - begin.toNat) chunkSize.toNat * chunkSize.toNat) :
    (visited begin stop chunkSize (chunkCount (stop.toNat - begin.toNat) chunkSize.toNat)).count
      (stop.toNat - 1) = 0 := by
  rw [BitVec.lt_def] at lt
  obtain ⟨first, _, before⟩ := chunkCount_spec pos (Nat.sub_pos_of_lt lt)
  generalize chunkCount (stop.toNat - begin.toNat) chunkSize.toNat = m at first before wraps ⊢
  obtain ⟨q, rfl⟩ := Nat.exists_eq_add_of_lt first
  rw [Nat.zero_add] at before wraps ⊢
  rw [Nat.add_sub_cancel] at before
  rw [Nat.succ_mul, ← Nat.add_assoc] at wraps
  have small := stop.isLt
  rw [visited_succ, bounds_wraps pos (by omega) wraps, List.append_nil, count_visited pos (by omega),
    if_neg (by omega)]

/-- `PushArray` visits every index of the range once and none beside it, and counts the tasks it pushes,
if and only if the range is empty or neither the sum that the chunks are counted with nor the end of the
last chunk is past the largest `size_t`, the vector for the chunks can be had, and the count of the
`WaitGroup` has room for the tasks that can be had. -/
theorem push_array_visits_once :
    VisitsOnce created room begin stop chunkSize n ↔
      begin < stop →
        stop.toNat - begin.toNat + (effective chunkSize).toNat - 1 < 2 ^ 64 ∧
        begin.toNat + chunkCount (stop.toNat - begin.toNat) (effective chunkSize).toNat *
          (effective chunkSize).toNat < 2 ^ 64 ∧
        chunkCount (stop.toNat - begin.toNat) (effective chunkSize).toNat ≤ room ∧
        ∀ k, n = some k → outstanding k + ((List.range (chunkCount (stop.toNat - begin.toNat)
          (effective chunkSize).toNat)).filter created).length < WAITER_BIT := by
  constructor
  · rintro ⟨s, run, once, counted⟩ lt
    have started : ¬stop ≤ begin := by
      rw [BitVec.le_def, Nat.not_le]
      exact lt
    have last : s.calls.count (stop.toNat - 1) = 1 := by
      rw [BitVec.lt_def] at lt
      rw [once, if_pos (by omega)]
    have fits : stop.toNat - begin.toNat + (effective chunkSize).toNat - 1 < 2 ^ 64 := by
      by_contra wraps
      unfold PushArray at run
      rw [if_neg started] at run
      simp only at run
      rw [show (if chunkSize = 0 then 1 else chunkSize) = effective chunkSize from rfl,
        chunks_wrap lt effective_pos (Nat.not_lt.1 wraps), if_neg (Nat.not_lt_zero _),
        Option.some.injEq] at run
      rw [← run] at last
      exact absurd last Nat.zero_ne_one
    have le : chunkCount (stop.toNat - begin.toNat) (effective chunkSize).toNat ≤ room := by
      by_contra more
      unfold PushArray at run
      rw [if_neg started] at run
      simp only at run
      rw [show (if chunkSize = 0 then 1 else chunkSize) = effective chunkSize from rfl,
        chunks_toNat lt effective_pos fits, if_pos (Nat.not_le.1 more)] at run
      cases run
    obtain ⟨s', run', calls, length, after⟩ := PushArray_eq (n := n) lt fits le
    obtain rfl : s' = s := Option.some.inj (run'.symm.trans run)
    refine ⟨fits, ?_, le, fun k hk => ?_⟩
    · by_contra wraps
      rw [calls, last_missed effective_pos lt (Nat.not_lt.1 wraps)] at last
      exact absurd last Nat.zero_ne_one
    · obtain ⟨k', hk', sum⟩ := counted k hk
      rw [after, hk, Option.map_some, Option.some.injEq] at hk'
      rw [← hk'] at sum
      exact length ▸ outstanding_add.1 sum
  · intro ok
    by_cases lt : begin < stop
    · obtain ⟨fits, last, le, group⟩ := ok lt
      obtain ⟨s, run, calls, length, after⟩ := PushArray_eq (n := n) lt fits le
      refine ⟨s, run, fun i => ?_, fun k hk => ⟨_, by rw [after, hk, Option.map_some], ?_⟩⟩
      · rw [BitVec.lt_def] at lt
        have pos : 0 < (effective chunkSize).toNat := effective_pos
        obtain ⟨_, all, _⟩ := chunkCount_spec pos (Nat.sub_pos_of_lt lt)
        rw [calls, count_visited effective_pos last, Nat.min_eq_left (by omega)]
      · exact outstanding_add.2 (length ▸ group k hk)
    · have none : stop ≤ begin := by
        rw [BitVec.le_def]
        exact Nat.not_lt.1 lt
      refine ⟨{ n := n }, if_pos none, fun i => ?_, fun k hk => ⟨k, hk, rfl⟩⟩
      rw [BitVec.le_def] at none
      rw [if_neg (by omega)]
      rfl

/-- Ten indices in chunks of the largest size: no chunk at all. And nine indices at the top of the range of
a `size_t` in chunks of sixteen: the only chunk is empty. -/
theorem push_array_skips :
    ¬VisitsOnce (fun _ => true) (2 ^ 60 - 1) 0 10 (BitVec.allOnes 64) none ∧
    ¬VisitsOnce (fun _ => true) (2 ^ 60 - 1) (BitVec.allOnes 64 - 9) (BitVec.allOnes 64) 16 none := by
  constructor
  · rintro ⟨s, run, once, _⟩
    have none : PushArray (fun _ => true) (2 ^ 60 - 1) 0 10 (BitVec.allOnes 64) none =
        some { n := none } := by rfl
    obtain rfl := Option.some.inj (none.symm.trans run)
    exact absurd (once 0) (by decide)
  · rintro ⟨s, run, once, _⟩
    have one : PushArray (fun _ => true) (2 ^ 60 - 1) (BitVec.allOnes 64 - 9) (BitVec.allOnes 64) 16 none =
        some { ts := [(BitVec.allOnes 64 - 9, 6)], n := none } := by rfl
    obtain rfl := Option.some.inj (one.symm.trans run)
    exact absurd (once (2 ^ 64 - 10)) (by decide)

end JLib.ParallelFor
