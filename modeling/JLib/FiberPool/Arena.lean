import Mathlib.Algebra.Order.Ring.Int
import Mathlib.Data.BitVec
import Mathlib.Logic.Function.Basic

/-!
# The fibers and their stacks

`FiberStackArena` of `include/FiberStackArena.h` and the construction of a `GlobalFiberPool`: for each
stack class that has fibers, one reservation of address space of which a region is carved for each. Sizes
and addresses are words of 64 bits. What the operating system answers is a parameter; the constructor
throws where the answer is a failure or an arena has no room.
-/

namespace JLib.FiberPool

abbrev Addr := BitVec 64

inductive StackClass where
  | Standard
  | Tiny
  | Deep
  deriving DecidableEq

/-- The order in which the classes are built, which is that of their numbers as well. -/
def order : List StackClass := [.Standard, .Tiny, .Deep]

/-- The calls to the operating system. There is one reservation for each class. -/
structure System where
  PageSize : Addr
  ReserveNoAccess : StackClass → Option Addr
  CommitReadWrite : Addr → Addr → Bool

def kTinyUsablePages : Addr := 2
def kStandardUsable : Addr := 60 * 1024
def kDeepUsable : Addr := 508 * 1024

def System.UsableFor (os : System) : StackClass → Addr
  | .Tiny => kTinyUsablePages * os.PageSize
  | .Deep => kDeepUsable
  | .Standard => kStandardUsable

/-- The stack and the guard page. -/
def System.RegionFor (os : System) (c : StackClass) : Addr := os.UsableFor c + os.PageSize

/-- `(x + page - 1) & ~(page - 1)`. -/
def roundUp (page x : Addr) : Addr := (x + page - 1) &&& ~~~(page - 1)

/-! ## The arena -/

structure FiberStackArena where
  pageSize : Addr
  base : Addr
  totalSize : Addr
  offset : Addr := 0

/-- The address of the region, or null, and the arena after the call. -/
def FiberStackArena.AllocateStack (os : System) (ar : FiberStackArena) (rawSize : Addr) :
    Option Addr × FiberStackArena :=
  let size := roundUp ar.pageSize rawSize
  if size ≤ ar.pageSize then (none, ar)
  else
    let current := ar.offset
    let after := { ar with offset := ar.offset + size }
    if current > ar.totalSize ∨ size > ar.totalSize - current then (none, after)
    else
      let region := ar.base + current
      if os.CommitReadWrite (region + ar.pageSize) (size - ar.pageSize) then (some region, after)
      else (none, after)

/-! ## The pool -/

structure Fiber where
  stackBase : Addr
  stackSize : Addr
  stackClass : StackClass
  poolIndex : Nat
  deriving DecidableEq

structure Pool where
  arenas : StackClass → Option FiberStackArena := fun _ => none
  fibers : StackClass → List Fiber := fun _ => []

/-- `n` fibers of a class, the first of which gets the index `nextIndex`. -/
def carve (os : System) (cls : StackClass) (region : Addr) :
    Nat → FiberStackArena → Nat → Option (FiberStackArena × List Fiber)
  | 0, ar, _ => some (ar, [])
  | n + 1, ar, nextIndex =>
    match ar.AllocateStack os region with
    | (none, _) => none
    | (some stackMem, after) =>
      (carve os cls region n after (nextIndex + 1)).map fun r =>
        (r.1, ⟨stackMem, region, cls, nextIndex⟩ :: r.2)

/-- One turn of the constructor's loop over the classes. A class without fibers has no arena. -/
def addClass (os : System) (counts : StackClass → Addr) (p : Pool × Nat) (cls : StackClass) :
    Option (Pool × Nat) :=
  let n := counts cls
  if n = 0 then some p
  else
    let region := os.RegionFor cls
    match os.ReserveNoAccess cls with
    | none => none
    | some base =>
      match carve os cls region n.toNat ⟨os.PageSize, base, n * region, 0⟩ p.2 with
      | none => none
      | some (ar, fs) =>
        some (⟨Function.update p.1.arenas cls (some ar), Function.update p.1.fibers cls fs⟩, p.2 + n.toNat)

/-- The constructor. -/
def GlobalFiberPool (os : System) (counts : StackClass → Addr) : Option Pool :=
  (order.foldlM (addClass os counts) ({}, 0)).map Prod.fst

namespace Pool

/-- The loop of `FiberForStack` over the classes. -/
def find (os : System) (pool : Pool) (addr : Addr) : List StackClass → Option Fiber
  | [] => none
  | ci :: cs =>
    match pool.arenas ci with
    | none => find os pool addr cs
    | some ar =>
      if pool.fibers ci = [] then find os pool addr cs
      else if addr < ar.base ∨ addr ≥ ar.base + ar.totalSize then find os pool addr cs
      else
        let stride := roundUp ar.pageSize (os.RegionFor ci)
        if stride = 0 then find os pool addr cs
        else
          let idx := ((addr - ar.base) / stride).toNat
          if idx ≥ (pool.fibers ci).length then none else (pool.fibers ci)[idx]?

def FiberForStack (os : System) (pool : Pool) (addr : Addr) : Option Fiber :=
  if addr = 0 then none else find os pool addr order

/-- The loop of `At`. -/
def walk (pool : Pool) (poolIndex : Nat) : List StackClass → Option Fiber
  | [] => none
  | c :: cs =>
    if poolIndex < (pool.fibers c).length then (pool.fibers c)[poolIndex]?
    else walk pool (poolIndex - (pool.fibers c).length) cs

def At (pool : Pool) (poolIndex : Nat) : Option Fiber := pool.walk poolIndex order

end Pool

/-! ## Rounding -/

variable {os : System} {ar ar' : FiberStackArena} {cls : StackClass} {page x size region : Addr}
  {k n next : Nat} {fs : List Fiber}

/-- The low bits are cleared. -/
lemma toNat_masked (pow : page.toNat = 2 ^ k) : (x &&& ~~~(page - 1)).toNat = x.toNat / 2 ^ k * 2 ^ k := by
  have mask : (page - 1).toNat = 2 ^ k - 1 := by
    have one : (1 : Addr).toNat = 1 := rfl
    have pos := Nat.two_pow_pos k
    rw [BitVec.toNat_sub_of_le, pow, one]
    rw [BitVec.le_def, pow, one]
    exact pos
  have low : (x &&& (page - 1)).toNat = x.toNat % 2 ^ k := by
    rw [BitVec.toNat_and, mask, Nat.and_two_pow_sub_one_eq_mod]
  have split : (x &&& ~~~(page - 1)) = x - (x &&& (page - 1)) := by
    have apart : (x &&& (page - 1)) &&& (x &&& ~~~(page - 1)) = 0#64 := by
      ext i hi
      simp only [BitVec.getElem_and, BitVec.getElem_not, BitVec.getElem_zero]
      cases x[i] <;> cases (page - 1)[i] <;> rfl
    have sum : (x &&& (page - 1)) + (x &&& ~~~(page - 1)) = x := by
      rw [BitVec.add_eq_or_of_and_eq_zero _ _ apart, ← BitVec.and_or_distrib_left,
        BitVec.or_not_self, BitVec.and_allOnes]
    exact BitVec.eq_sub_iff_add_eq.2 ((BitVec.add_comm _ _).trans sum)
  have le : (x &&& (page - 1)) ≤ x := by
    rw [BitVec.le_def, low]
    exact Nat.mod_le _ _
  have whole := Nat.div_add_mod' x.toNat (2 ^ k)
  rw [split, BitVec.toNat_sub_of_le le, low]
  omega

/-- Rounding up gives the next multiple of the page size. -/
lemma toNat_roundUp (pow : page.toNat = 2 ^ k) (fits : x.toNat + 2 ^ k - 1 < 2 ^ 64) :
    (roundUp page x).toNat = (x.toNat + 2 ^ k - 1) / 2 ^ k * 2 ^ k := by
  unfold roundUp
  rw [toNat_masked pow]
  have one : (1 : Addr).toNat = 1 := rfl
  have pos := Nat.two_pow_pos k
  have sum : (x + page - 1).toNat = x.toNat + 2 ^ k - 1 := by
    rw [BitVec.toNat_sub, BitVec.toNat_add, pow, one]
    omega
  rw [sum]

/-- A size too large to round is rounded to nothing. -/
lemma roundUp_wraps (pow : page.toNat = 2 ^ k) (wraps : 2 ^ 64 ≤ x.toNat + 2 ^ k - 1) :
    (roundUp page x).toNat = 0 := by
  unfold roundUp
  rw [toNat_masked pow]
  have one : (1 : Addr).toNat = 1 := rfl
  have small := x.isLt
  have small' := page.isLt
  have sum : (x + page - 1).toNat < 2 ^ k := by
    rw [BitVec.toNat_sub, BitVec.toNat_add, pow, one]
    omega
  rw [Nat.div_eq_of_lt sum, Nat.zero_mul]

/-! ## Carving -/

/-- The arena has a region left. -/
def FiberStackArena.Room (ar : FiberStackArena) (n : Nat) (size : Addr) : Prop :=
  ar.pageSize < size ∧ ar.offset.toNat + n * size.toNat ≤ ar.totalSize.toNat

/-- The arena after `n` regions. -/
def FiberStackArena.used (ar : FiberStackArena) (n : Nat) (size : Addr) : FiberStackArena :=
  { ar with offset := ar.offset + BitVec.ofNat 64 n * size }

/-- One region and then `n` are one more. -/
lemma used_succ : (ar.used 1 size).used n size = ar.used (n + 1) size := by
  unfold FiberStackArena.used
  congr 1
  rw [BitVec.add_assoc]
  congr 1
  rw [Nat.add_comm n 1, BitVec.ofNat_add, BitVec.add_mul]

/-- The offset does not wrap around where there is room. -/
lemma used_offset (room : ar.Room n size) :
    (ar.used n size).offset.toNat = ar.offset.toNat + n * size.toNat := by
  obtain ⟨big, fits⟩ := room
  have total := ar.totalSize.isLt
  rw [BitVec.lt_def] at big
  have small : n < 2 ^ 64 := by
    have := Nat.le_mul_of_pos_right n (Nat.zero_lt_of_lt big)
    omega
  show (ar.offset + BitVec.ofNat 64 n * size).toNat = _
  rw [BitVec.toNat_add, BitVec.toNat_mul, BitVec.toNat_ofNat, Nat.mod_eq_of_lt small,
    Nat.mod_eq_of_lt (by omega : n * size.toNat < 2 ^ 64), Nat.mod_eq_of_lt (by omega)]

/-- After one region there is room for the others. -/
lemma room_rest (room : ar.Room (n + 1) size) : (ar.used 1 size).Room n size := by
  obtain ⟨big, fits⟩ := room
  rw [Nat.succ_mul] at fits
  have one : ar.Room 1 size := ⟨big, by omega⟩
  refine ⟨big, ?_⟩
  rw [used_offset one]
  show ar.offset.toNat + 1 * size.toNat + n * size.toNat ≤ ar.totalSize.toNat
  omega

/-- `AllocateStack` succeeds where there is room. -/
lemma AllocateStack_room (commit : ∀ a b, os.CommitReadWrite a b = true)
    (room : ar.Room 1 (roundUp ar.pageSize region)) :
    ar.AllocateStack os region =
      (some (ar.base + ar.offset), ar.used 1 (roundUp ar.pageSize region)) := by
  obtain ⟨big, fits⟩ := room
  have used : ar.used 1 (roundUp ar.pageSize region) =
      { ar with offset := ar.offset + roundUp ar.pageSize region } := by
    unfold FiberStackArena.used
    congr 2
    exact BitVec.one_mul _
  rw [used]
  unfold FiberStackArena.AllocateStack
  simp only
  have within : ¬(ar.offset > ar.totalSize ∨ roundUp ar.pageSize region > ar.totalSize - ar.offset) := by
    have le : ar.offset ≤ ar.totalSize := by
      rw [BitVec.le_def]
      omega
    rintro (past | past)
    · rw [gt_iff_lt, BitVec.lt_def] at past
      omega
    · rw [gt_iff_lt, BitVec.lt_def, BitVec.toNat_sub_of_le le] at past
      omega
  rw [if_neg (BitVec.not_le.2 big), if_neg within, if_pos (commit _ _)]

/-- Where it succeeds there was room. -/
lemma room_of_AllocateStack {mem : Addr} (ok : ar.AllocateStack os region = (some mem, ar')) :
    ar.Room 1 (roundUp ar.pageSize region) ∧ ar' = ar.used 1 (roundUp ar.pageSize region) := by
  have used : ar.used 1 (roundUp ar.pageSize region) =
      { ar with offset := ar.offset + roundUp ar.pageSize region } := by
    unfold FiberStackArena.used
    congr 2
    exact BitVec.one_mul _
  unfold FiberStackArena.AllocateStack at ok
  simp only at ok
  split at ok
  next => cases ok
  next big =>
    split at ok
    next => cases ok
    next within =>
      split at ok
      next =>
        rw [Prod.mk.injEq] at ok
        refine ⟨⟨BitVec.not_le.1 big, ?_⟩, ok.2.symm.trans used.symm⟩
        have le : ar.offset ≤ ar.totalSize := BitVec.not_lt.1 fun past => within (.inl past)
        have fits := BitVec.not_lt.1 fun past => within (.inr past)
        rw [BitVec.le_def, BitVec.toNat_sub_of_le le] at fits
        rw [BitVec.le_def] at le
        omega
      next => cases ok

/-- A fiber of an arena. -/
def FiberStackArena.fiber (ar : FiberStackArena) (cls : StackClass) (region size : Addr) (next i : Nat) :
    Fiber :=
  ⟨ar.base + (ar.used i size).offset, region, cls, next + i⟩

/-- With room the fibers are carved side by side. -/
lemma carve_room (commit : ∀ a b, os.CommitReadWrite a b = true)
    (room : ar.Room n (roundUp ar.pageSize region)) :
    carve os cls region n ar next = some (ar.used n (roundUp ar.pageSize region),
      (List.range n).map (ar.fiber cls region (roundUp ar.pageSize region) next)) := by
  induction n generalizing ar next with
  | zero =>
    have same : ar.used 0 (roundUp ar.pageSize region) = ar := by
      unfold FiberStackArena.used
      rw [BitVec.zero_mul, BitVec.add_zero]
    rw [same]
    rfl
  | succ n ih =>
    have one : ar.Room 1 (roundUp ar.pageSize region) := by
      refine ⟨room.1, ?_⟩
      have fits := room.2
      rw [Nat.succ_mul] at fits
      omega
    unfold carve
    rw [AllocateStack_room commit one]
    simp only
    have rest : carve os cls region n (ar.used 1 (roundUp ar.pageSize region)) (next + 1) = _ :=
      ih (room_rest room)
    rw [rest]
    simp only [Option.map_some]
    congr 2
    · exact used_succ
    · rw [List.range_succ_eq_map, List.map_cons, List.map_map]
      congr 1
      · unfold FiberStackArena.fiber FiberStackArena.used
        simp only [BitVec.zero_mul, BitVec.add_zero, Nat.add_zero]
      · apply List.map_congr_left
        intro i _
        show FiberStackArena.fiber _ cls region _ (next + 1) i = ar.fiber cls region _ next (i + 1)
        have page : (ar.used 1 (roundUp ar.pageSize region)).pageSize = ar.pageSize := rfl
        unfold FiberStackArena.fiber
        rw [page, used_succ, Nat.add_assoc, Nat.add_comm 1 i]
        rfl

/-- Where all the regions are carved there was room for them. -/
lemma room_of_carve (ok : carve os cls region (n + 1) ar next = some (ar', fs)) :
    ar.Room (n + 1) (roundUp ar.pageSize region) := by
  induction n generalizing ar next ar' fs with
  | zero =>
    unfold carve at ok
    split at ok
    next => cases ok
    next found => exact (room_of_AllocateStack found).1
  | succ n ih =>
    rw [carve] at ok
    split at ok
    next => cases ok
    next stackMem after found =>
      obtain ⟨one, rfl⟩ := room_of_AllocateStack found
      obtain ⟨r, rest, _⟩ := Option.map_eq_some_iff.1 ok
      have more : (ar.used 1 (roundUp ar.pageSize region)).Room (n + 1) (roundUp ar.pageSize region) :=
        ih rest
      refine ⟨one.1, ?_⟩
      have fits := more.2
      rw [used_offset one] at fits
      have fits' : ar.offset.toNat + 1 * (roundUp ar.pageSize region).toNat +
          (n + 1) * (roundUp ar.pageSize region).toNat ≤ ar.totalSize.toNat := fits
      rw [Nat.succ_mul (n + 1)]
      omega

end JLib.FiberPool
