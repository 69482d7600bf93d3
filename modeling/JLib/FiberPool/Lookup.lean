import JLib.FiberPool.Arena
import Mathlib.Data.Nat.Prime.Basic

/-!
# Which fiber owns an address

Where the page size divides the usable size of every class that has fibers, the regions of a class are
laid end to end in its arena and dividing by their size finds the one that has an address. The arena is
reserved for the sizes as they are asked for and the regions are rounded up to pages, so it is too small
for the last of them where the page size does not divide: no pool is built.
-/

namespace JLib.FiberPool

variable {os : System} {counts : StackClass → Addr} {pool : Pool} {c d : StackClass} {k n i : Nat}
  {f g : Fiber} {a : Addr}

/-! ## Regions -/

namespace Fiber

def lo (f : Fiber) : Nat := f.stackBase.toNat

def hi (f : Fiber) : Nat := f.stackBase.toNat + f.stackSize.toNat

/-- The address is in the fiber's region. -/
def Owns (f : Fiber) (a : Addr) : Prop := f.lo ≤ a.toNat ∧ a.toNat < f.hi

end Fiber

/-- The pool has the fibers that were asked for, their regions lie apart inside the arenas, and the two
ways to find a fiber agree with them. -/
structure Exact (os : System) (counts : StackClass → Addr) (pool : Pool) : Prop where
  sizes : ∀ c, (pool.fibers c).length = (counts c).toNat
  inside : ∀ c, ∀ f ∈ pool.fibers c, f.lo < f.hi ∧ ∃ ar, pool.arenas c = some ar ∧
    ar.base.toNat ≤ f.lo ∧ f.hi ≤ ar.base.toNat + ar.totalSize.toNat
  apart : ∀ c d, ∀ f ∈ pool.fibers c, ∀ g ∈ pool.fibers d, f ≠ g → f.hi ≤ g.lo ∨ g.hi ≤ f.lo
  found : ∀ c, ∀ f ∈ pool.fibers c, ∀ a, f.Owns a → pool.FiberForStack os a = some f
  outside : ∀ a, (∀ c, ∀ f ∈ pool.fibers c, ¬f.Owns a) → pool.FiberForStack os a = none
  listed : ∀ c, ∀ f ∈ pool.fibers c, pool.At f.poolIndex = some f
  dense : ∀ i, (∃ c, ∃ f ∈ pool.fibers c, f.poolIndex = i) ↔
    i < (counts .Standard).toNat + (counts .Tiny).toNat + (counts .Deep).toNat

/-! ## The condition -/

/-- The usable size, where nothing overflows. -/
def System.usable (os : System) : StackClass → Nat
  | .Tiny => 2 * os.PageSize.toNat
  | .Deep => 520192
  | .Standard => 61440

/-- The pages are small enough for the classes that have fibers, and the arenas fit in a word. -/
structure Fits (os : System) (counts : StackClass → Addr) : Prop where
  page : counts .Standard ≠ 0 ∨ counts .Deep ≠ 0 → os.PageSize.toNat ≤ 4096
  size : ∀ c, (counts c).toNat * (os.usable c + os.PageSize.toNat) < 2 ^ 64

/-- The arena of a class. -/
def System.base (os : System) (c : StackClass) : Addr := (os.ReserveNoAccess c).getD 0

/-- What the operating system is relied on for: a page is a power of two, the calls succeed, and the
reservations are ranges of addresses, not at null, of which no two overlap. -/
structure System.Serves (os : System) (counts : StackClass → Addr) : Prop where
  page : ∃ k, os.PageSize.toNat = 2 ^ k
  reserve : ∀ c, counts c ≠ 0 → os.ReserveNoAccess c = some (os.base c) ∧ os.base c ≠ 0 ∧
    (os.base c).toNat + (counts c * os.RegionFor c).toNat < 2 ^ 64
  apart : ∀ c d, c ≠ d → counts c ≠ 0 → counts d ≠ 0 →
    (os.base c).toNat + (counts c * os.RegionFor c).toNat ≤ (os.base d).toNat ∨
    (os.base d).toNat + (counts d * os.RegionFor d).toNat ≤ (os.base c).toNat
  commit : ∀ a n, os.CommitReadWrite a n = true

def System.arena (os : System) (counts : StackClass → Addr) (c : StackClass) : FiberStackArena :=
  ⟨os.PageSize, os.base c, counts c * os.RegionFor c, 0⟩

def System.stride (os : System) (c : StackClass) : Addr := roundUp os.PageSize (os.RegionFor c)

/-- Room for all the regions of a class. -/
def System.Room (os : System) (counts : StackClass → Addr) (c : StackClass) : Prop :=
  (os.arena counts c).Room (counts c).toNat (os.stride c)

/-- A stack has some bytes. -/
lemma usable_pos (pow : os.PageSize.toNat = 2 ^ k) (c : StackClass) : 0 < os.usable c := by
  have pos := Nat.two_pow_pos k
  cases c with
  | Tiny =>
    show 0 < 2 * os.PageSize.toNat
    omega
  | Standard => exact Nat.succ_pos _
  | Deep => exact Nat.succ_pos _

/-- A region is the stack and the guard page, if nothing overflows. -/
lemma region_toNat (fits : os.usable c + os.PageSize.toNat < 2 ^ 64) :
    (os.RegionFor c).toNat = os.usable c + os.PageSize.toNat := by
  unfold System.RegionFor
  cases c with
  | Tiny =>
    change 2 * os.PageSize.toNat + _ < _ at fits
    have usable : (os.UsableFor .Tiny).toNat = 2 * os.PageSize.toNat := by
      have two : (kTinyUsablePages).toNat = 2 := rfl
      show (kTinyUsablePages * os.PageSize).toNat = _
      rw [BitVec.toNat_mul, two]
      exact Nat.mod_eq_of_lt (by omega)
    rw [BitVec.toNat_add, usable]
    exact Nat.mod_eq_of_lt fits
  | Standard =>
    rw [BitVec.toNat_add]
    exact Nat.mod_eq_of_lt fits
  | Deep =>
    rw [BitVec.toNat_add]
    exact Nat.mod_eq_of_lt fits

/-- The multiples of a page are rounded to themselves. -/
lemma stride_eq (pow : os.PageSize.toNat = 2 ^ k) (dvd : 2 ^ k ∣ os.usable c)
    (fits : os.usable c + os.PageSize.toNat < 2 ^ 64) : os.stride c = os.RegionFor c := by
  have region := region_toNat fits
  obtain ⟨q, hq⟩ := dvd
  have pos := Nat.two_pow_pos k
  have small := os.PageSize.isLt
  have whole : (os.RegionFor c).toNat = (q + 1) * 2 ^ k := by
    rw [region, pow, hq, Nat.mul_comm, ← Nat.succ_mul]
  have room : (os.RegionFor c).toNat + 2 ^ k - 1 < 2 ^ 64 := by
    rw [pow] at small
    have le : k ≤ 64 := (Nat.pow_le_pow_iff_right (by decide)).1 small.le
    obtain ⟨t, ht⟩ := Nat.pow_dvd_pow 2 le
    rw [whole] at region ⊢
    rw [← region, ht, Nat.mul_comm (2 ^ k)] at fits
    have lt : q + 1 < t := Nat.lt_of_mul_lt_mul_right fits
    have step : (q + 1 + 1) * 2 ^ k ≤ t * 2 ^ k := Nat.mul_le_mul_right _ lt
    rw [ht, Nat.mul_comm (2 ^ k)]
    rw [Nat.succ_mul (q + 1)] at step
    omega
  apply BitVec.eq_of_toNat_eq
  unfold System.stride
  rw [toNat_roundUp pow room, whole, Nat.add_sub_assoc pos, Nat.mul_comm (q + 1), Nat.mul_add_div pos,
    Nat.div_eq_of_lt (Nat.sub_lt pos Nat.one_pos), Nat.add_zero, Nat.mul_comm]

/-- An arena has room for its regions if and only if the pages divide them and their sum fits. -/
lemma room_iff (pow : os.PageSize.toNat = 2 ^ k) (some : counts c ≠ 0) :
    os.Room counts c ↔
      2 ^ k ∣ os.usable c ∧ (counts c).toNat * (os.usable c + os.PageSize.toNat) < 2 ^ 64 := by
  have pos := Nat.two_pow_pos k
  have first : 0 < (counts c).toNat := by
    apply Nat.pos_of_ne_zero
    exact fun zero => some (BitVec.eq_of_toNat_eq zero)
  constructor
  · rintro ⟨big, fits⟩
    change os.PageSize < os.stride c at big
    have fits : 0 + (counts c).toNat * (os.stride c).toNat ≤ (counts c * os.RegionFor c).toNat := fits
    rw [Nat.zero_add, BitVec.toNat_mul] at fits
    rw [BitVec.lt_def, pow] at big
    have rounds : (os.RegionFor c).toNat + 2 ^ k - 1 < 2 ^ 64 := by
      by_contra wraps
      have none : (os.stride c).toNat = 0 := roundUp_wraps pow (Nat.not_lt.1 wraps)
      rw [none] at big
      exact absurd big (Nat.not_lt_zero _)
    have stride : (os.stride c).toNat = ((os.RegionFor c).toNat + 2 ^ k - 1) / 2 ^ k * 2 ^ k :=
      toNat_roundUp pow rounds
    have above : (os.RegionFor c).toNat ≤ (os.stride c).toNat := by
      have := Nat.div_add_mod' ((os.RegionFor c).toNat + 2 ^ k - 1) (2 ^ k)
      have := Nat.mod_lt ((os.RegionFor c).toNat + 2 ^ k - 1) pos
      omega
    have total := Nat.mod_le ((counts c).toNat * (os.RegionFor c).toNat) (2 ^ 64)
    have below : (os.stride c).toNat ≤ (os.RegionFor c).toNat :=
      Nat.le_of_mul_le_mul_left (fits.trans total) first
    have same : (os.stride c).toNat = (os.RegionFor c).toNat := Nat.le_antisymm below above
    have dvd : 2 ^ k ∣ (os.RegionFor c).toNat := by
      rw [← same, stride]
      exact Nat.dvd_mul_left _ _
    have product : (counts c).toNat * (os.RegionFor c).toNat < 2 ^ 64 := by
      rw [same] at fits
      exact fits.trans_lt (Nat.mod_lt _ (by decide))
    -- only `2 * PageSize` can have wrapped, and then the region is no larger than a page
    have exact_region : os.usable c + os.PageSize.toNat < 2 ^ 64 := by
      have small := os.PageSize.isLt
      have le : k < 64 := (Nat.pow_lt_pow_iff_right (by decide)).1 (pow ▸ small)
      have half : os.PageSize.toNat ≤ 2 ^ 63 := by
        rw [pow]
        exact Nat.pow_le_pow_right (by decide) (by omega)
      cases c with
      | Standard =>
        show 61440 + _ < _
        omega
      | Deep =>
        show 520192 + _ < _
        omega
      | Tiny =>
        show 2 * os.PageSize.toNat + _ < _
        by_contra wraps
        have last : k = 63 := by
          by_contra ne
          have quarter : os.PageSize.toNat ≤ 2 ^ 62 := by
            rw [pow]
            exact Nat.pow_le_pow_right (by decide) (by omega)
          omega
        subst last
        have region : (os.RegionFor .Tiny).toNat = 2 ^ 63 := by
          show (kTinyUsablePages * os.PageSize + os.PageSize).toNat = _
          have two : (kTinyUsablePages).toNat = 2 := rfl
          rw [BitVec.toNat_add, BitVec.toNat_mul, two, pow]
          rfl
        omega
    have region := region_toNat exact_region
    rw [region] at dvd product
    rw [pow] at dvd
    exact ⟨(Nat.dvd_add_left (Nat.dvd_refl _)).1 dvd, product⟩
  · rintro ⟨dvd, product⟩
    have one : os.usable c + os.PageSize.toNat < 2 ^ 64 :=
      (Nat.le_mul_of_pos_left _ first).trans_lt product
    have stride := stride_eq pow dvd one
    have region := region_toNat one
    have usable := usable_pos pow c
    refine ⟨?_, ?_⟩
    · show os.PageSize < os.stride c
      rw [stride, BitVec.lt_def, region]
      omega
    · show 0 + (counts c).toNat * (os.stride c).toNat ≤ (counts c * os.RegionFor c).toNat
      rw [Nat.zero_add, stride, BitVec.toNat_mul, region, Nat.mod_eq_of_lt product]

/-- The usable sizes are multiples of 4096, and of no larger power of two. -/
lemma dvd_usable_iff (pow : os.PageSize.toNat = 2 ^ k) (c : StackClass) :
    2 ^ k ∣ os.usable c ↔ c = .Tiny ∨ os.PageSize.toNat ≤ 4096 := by
  rw [pow]
  have small : ∀ {m : Nat}, Nat.Coprime 2 m → (2 ^ k ∣ 2 ^ 12 * m ↔ 2 ^ k ≤ 4096) := by
    intro m odd
    constructor
    · intro dvd
      have low : 2 ^ k ∣ 2 ^ 12 := (Nat.Coprime.pow_left k odd).dvd_of_dvd_mul_right dvd
      exact Nat.le_of_dvd (by decide) low
    · intro le
      have low : k ≤ 12 := (Nat.pow_le_pow_iff_right (by decide : 1 < 2)).1 le
      exact (Nat.pow_dvd_pow 2 low).mul_right m
  cases c with
  | Tiny =>
    refine ⟨fun _ => .inl rfl, fun _ => ?_⟩
    show 2 ^ k ∣ 2 * os.PageSize.toNat
    rw [pow]
    exact Nat.dvd_mul_left _ _
  | Standard =>
    have odd : Nat.Coprime 2 15 := by decide
    rw [or_iff_right (by rintro ⟨⟩)]
    exact small odd
  | Deep =>
    have odd : Nat.Coprime 2 127 := by decide
    rw [or_iff_right (by rintro ⟨⟩)]
    exact small odd

/-! ## Building -/

/-- The pool with one more class, whose fibers have the indices from `p.2` on. -/
def System.added (os : System) (counts : StackClass → Addr) (p : Pool × Nat) (c : StackClass) :
    Pool × Nat :=
  if counts c = 0 then p
  else
    (⟨Function.update p.1.arenas c (some ((os.arena counts c).used (counts c).toNat (os.stride c))),
      Function.update p.1.fibers c ((List.range (counts c).toNat).map
        ((os.arena counts c).fiber c (os.RegionFor c) (os.stride c) p.2))⟩,
      p.2 + (counts c).toNat)

/-- With room a class is added whole. -/
lemma addClass_room (serves : os.Serves counts) (room : counts c ≠ 0 → os.Room counts c) (p : Pool × Nat) :
    addClass os counts p c = some (os.added counts p c) := by
  unfold addClass System.added
  simp only
  split
  next => rfl
  next some =>
    rw [(serves.reserve c some).1]
    have carved : carve os c (os.RegionFor c) (counts c).toNat
        ⟨os.PageSize, os.base c, counts c * os.RegionFor c, 0⟩ p.2 = _ :=
      carve_room serves.commit (room some)
    simp only
    rw [carved]
    rfl

/-- A class that was added had room. -/
lemma room_of_addClass {p q : Pool × Nat} (serves : os.Serves counts)
    (ok : addClass os counts p c = some q) (some : counts c ≠ 0) : os.Room counts c := by
  unfold addClass at ok
  simp only [if_neg some] at ok
  rw [(serves.reserve c some).1] at ok
  simp only at ok
  obtain ⟨n, hn⟩ : ∃ n, (counts c).toNat = n + 1 := by
    refine Nat.exists_eq_succ_of_ne_zero fun zero => ?_
    exact some (BitVec.eq_of_toNat_eq zero)
  split at ok
  next => cases ok
  next ar fs carved =>
    rw [hn] at carved
    have room := room_of_carve carved
    rw [← hn] at room
    exact room

/-- Where the fibers of a class begin in the order of the indices. -/
def start (counts : StackClass → Addr) : StackClass → Nat
  | .Standard => 0
  | .Tiny => (counts .Standard).toNat
  | .Deep => (counts .Standard).toNat + (counts .Tiny).toNat

/-- The fibers of a class as the constructor makes them. -/
def System.row (os : System) (counts : StackClass → Addr) (c : StackClass) : List Fiber :=
  (List.range (counts c).toNat).map
    ((os.arena counts c).fiber c (os.RegionFor c) (os.stride c) (start counts c))

/-- The pool is the one that the constructor makes. -/
structure Built (os : System) (counts : StackClass → Addr) (pool : Pool) : Prop where
  arenas : ∀ c, counts c ≠ 0 →
    pool.arenas c = some ((os.arena counts c).used (counts c).toNat (os.stride c))
  fibers : ∀ c, pool.fibers c = os.row counts c

/-- The indices go on behind the fibers of the class. -/
lemma added_snd (p : Pool × Nat) : (os.added counts p c).2 = p.2 + (counts c).toNat := by
  unfold System.added
  split
  next none =>
    rw [none]
    rfl
  next => rfl

/-- The arena and the fibers of the class. -/
lemma added_own (p : Pool × Nat) (empty : p.1.fibers c = []) :
    (counts c ≠ 0 → (os.added counts p c).1.arenas c =
      some ((os.arena counts c).used (counts c).toNat (os.stride c))) ∧
    (os.added counts p c).1.fibers c = (List.range (counts c).toNat).map
      ((os.arena counts c).fiber c (os.RegionFor c) (os.stride c) p.2) := by
  unfold System.added
  by_cases none : counts c = 0
  · rw [if_pos none, none]
    exact ⟨fun some => absurd rfl some, empty⟩
  · rw [if_neg none]
    exact ⟨fun _ => Function.update_self .., Function.update_self ..⟩

/-- The other classes are left. -/
lemma added_other (p : Pool × Nat) (ne : d ≠ c) :
    (os.added counts p c).1.arenas d = p.1.arenas d ∧ (os.added counts p c).1.fibers d = p.1.fibers d := by
  unfold System.added
  split
  next => exact ⟨rfl, rfl⟩
  next => exact ⟨Function.update_of_ne ne .., Function.update_of_ne ne ..⟩

/-- There is a pool if and only if every arena has room. -/
lemma built_iff (serves : os.Serves counts) :
    (∃ pool, GlobalFiberPool os counts = some pool) ↔ ∀ c, counts c ≠ 0 → os.Room counts c := by
  unfold GlobalFiberPool order
  constructor
  · rintro ⟨pool, ok⟩
    obtain ⟨r, ok, _⟩ := Option.map_eq_some_iff.1 ok
    simp only [List.foldlM_cons, List.foldlM_nil, Option.bind_eq_bind] at ok
    obtain ⟨p1, ok1, ok⟩ := Option.bind_eq_some_iff.1 ok
    obtain ⟨p2, ok2, ok⟩ := Option.bind_eq_some_iff.1 ok
    obtain ⟨p3, ok3, _⟩ := Option.bind_eq_some_iff.1 ok
    intro c some
    cases c with
    | Standard => exact room_of_addClass serves ok1 some
    | Tiny => exact room_of_addClass serves ok2 some
    | Deep => exact room_of_addClass serves ok3 some
  · intro room
    simp only [List.foldlM_cons, List.foldlM_nil, Option.bind_eq_bind]
    rw [addClass_room serves (room _), Option.bind_some, addClass_room serves (room _), Option.bind_some,
      addClass_room serves (room _), Option.bind_some]
    exact ⟨_, rfl⟩

/-- A constructor that does not throw makes this pool. -/
lemma GlobalFiberPool_built (serves : os.Serves counts) (ok : GlobalFiberPool os counts = some pool) :
    Built os counts pool := by
  have room := (built_iff serves).1 ⟨pool, ok⟩
  unfold GlobalFiberPool order at ok
  simp only [List.foldlM_cons, List.foldlM_nil, Option.bind_eq_bind] at ok
  rw [addClass_room serves (room _), Option.bind_some, addClass_room serves (room _), Option.bind_some,
    addClass_room serves (room _), Option.bind_some] at ok
  obtain rfl := Option.some.inj ok
  generalize h1 : os.added counts ({}, 0) .Standard = p1
  generalize h2 : os.added counts p1 .Tiny = p2
  have next1 : p1.2 = (counts .Standard).toNat := by
    rw [← h1, added_snd, Nat.zero_add]
  have next2 : p2.2 = (counts .Standard).toNat + (counts .Tiny).toNat := by
    rw [← h2, added_snd, next1]
  have own1 := @added_own os counts .Standard ({}, 0) rfl
  have own2 := @added_own os counts .Tiny p1 (by
    rw [← h1, (added_other _ (by rintro ⟨⟩)).2])
  have own3 := @added_own os counts .Deep p2 (by
    rw [← h2, (added_other _ (by rintro ⟨⟩)).2, ← h1, (added_other _ (by rintro ⟨⟩)).2])
  rw [h1] at own1
  rw [h2] at own2
  have keep2 := @added_other os counts .Tiny .Standard p1 (by rintro ⟨⟩)
  rw [h2] at keep2
  refine ⟨fun c some => ?_, fun c => ?_⟩
  · cases c with
    | Standard =>
      show (os.added counts p2 .Deep).1.arenas .Standard = _
      rw [(added_other _ (by rintro ⟨⟩)).1, keep2.1, own1.1 some]
    | Tiny =>
      show (os.added counts p2 .Deep).1.arenas .Tiny = _
      rw [(added_other _ (by rintro ⟨⟩)).1, own2.1 some]
    | Deep => exact own3.1 some
  · cases c with
    | Standard =>
      show (os.added counts p2 .Deep).1.fibers .Standard = _
      rw [(added_other _ (by rintro ⟨⟩)).2, keep2.2, own1.2]
      rfl
    | Tiny =>
      show (os.added counts p2 .Deep).1.fibers .Tiny = _
      rw [(added_other _ (by rintro ⟨⟩)).2, own2.2, next1]
      rfl
    | Deep =>
      rw [own3.2, next2]
      rfl

/-! ## Where the regions are -/

/-- The classes fit when each has room in its arena. -/
lemma fits_iff (serves : os.Serves counts) :
    Fits os counts ↔ ∀ c, counts c ≠ 0 → os.Room counts c := by
  obtain ⟨k, pow⟩ := serves.page
  constructor
  · intro fits c some
    refine (room_iff pow some).2 ⟨(dvd_usable_iff pow c).2 ?_, fits.size c⟩
    cases c with
    | Tiny => exact .inl rfl
    | Standard => exact .inr (fits.page (.inl some))
    | Deep => exact .inr (fits.page (.inr some))
  · intro room
    refine ⟨fun some => ?_, fun c => ?_⟩
    · rcases some with some | some
      · have dvd := ((room_iff pow some).1 (room _ some)).1
        exact ((dvd_usable_iff pow _).1 dvd).resolve_left (by rintro ⟨⟩)
      · have dvd := ((room_iff pow some).1 (room _ some)).1
        exact ((dvd_usable_iff pow _).1 dvd).resolve_left (by rintro ⟨⟩)
    · by_cases none : counts c = 0
      · rw [none]
        show 0 * _ < _
        rw [Nat.zero_mul]
        exact Nat.two_pow_pos 64
      · exact ((room_iff pow none).1 (room c none)).2

/-- Fiber `i` of a class. -/
def System.fiber (os : System) (counts : StackClass → Addr) (c : StackClass) (i : Nat) : Fiber :=
  (os.arena counts c).fiber c (os.RegionFor c) (os.stride c) (start counts c) i

/-- The size of a class's regions. -/
def System.size (os : System) (c : StackClass) : Nat := os.usable c + os.PageSize.toNat

/-- The fibers of a class. -/
lemma mem_row : f ∈ os.row counts c ↔ ∃ i < (counts c).toNat, os.fiber counts c i = f := by
  unfold System.row
  rw [List.mem_map]
  constructor
  · rintro ⟨i, hi, e⟩
    exact ⟨i, List.mem_range.1 hi, e⟩
  · rintro ⟨i, hi, e⟩
    exact ⟨i, List.mem_range.2 hi, e⟩

/-- Fiber `i` of a class. -/
lemma row_get (lt : i < (counts c).toNat) : (os.row counts c)[i]? = some (os.fiber counts c i) := by
  unfold System.row
  rw [List.getElem?_map, List.getElem?_range lt]
  rfl

/-- A class has as many fibers as were asked for. -/
lemma length_row : (os.row counts c).length = (counts c).toNat := by
  unfold System.row
  rw [List.length_map, List.length_range]

/-- The regions of a class, in numbers. -/
structure Laid (os : System) (counts : StackClass → Addr) (c : StackClass) : Prop where
  pos : 0 < os.size c
  stride : (os.stride c).toNat = os.size c
  total : (counts c * os.RegionFor c).toNat = (counts c).toNat * os.size c
  fits : (os.base c).toNat + (counts c).toNat * os.size c < 2 ^ 64
  lo : ∀ i < (counts c).toNat, (os.fiber counts c i).lo = (os.base c).toNat + i * os.size c
  hi : ∀ i < (counts c).toNat, (os.fiber counts c i).hi = (os.base c).toNat + (i + 1) * os.size c

/-- The regions of a class lie side by side in its arena. -/
lemma Fits.laid (fits : Fits os counts) (serves : os.Serves counts) (some : counts c ≠ 0) :
    Laid os counts c := by
  obtain ⟨k, pow⟩ := serves.page
  have room := (fits_iff serves).1 fits c some
  obtain ⟨dvd, product⟩ := (room_iff pow some).1 room
  have first : 0 < (counts c).toNat := by
    apply Nat.pos_of_ne_zero
    exact fun zero => some (BitVec.eq_of_toNat_eq zero)
  have one : os.usable c + os.PageSize.toNat < 2 ^ 64 :=
    (Nat.le_mul_of_pos_left _ first).trans_lt product
  have region : (os.RegionFor c).toNat = os.size c := region_toNat one
  have stride : (os.stride c).toNat = os.size c := by rw [stride_eq pow dvd one, region]
  have total : (counts c * os.RegionFor c).toNat = (counts c).toNat * os.size c := by
    rw [BitVec.toNat_mul, region]
    exact Nat.mod_eq_of_lt product
  have range := (serves.reserve c some).2.2
  rw [total] at range
  have lo : ∀ i < (counts c).toNat, (os.fiber counts c i).lo = (os.base c).toNat + i * os.size c := by
    intro i lt
    have le : i * os.size c ≤ (counts c).toNat * os.size c := Nat.mul_le_mul_right _ lt.le
    have here : (os.arena counts c).Room i (os.stride c) := by
      refine ⟨room.1, ?_⟩
      show 0 + i * (os.stride c).toNat ≤ (counts c * os.RegionFor c).toNat
      rw [stride, total, Nat.zero_add]
      exact le
    have offset := used_offset here
    show (os.base c + ((os.arena counts c).used i (os.stride c)).offset).toNat = _
    rw [BitVec.toNat_add, offset, stride]
    show ((os.base c).toNat + (0 + i * os.size c)) % 2 ^ 64 = _
    rw [Nat.zero_add]
    exact Nat.mod_eq_of_lt (by omega)
  refine ⟨(usable_pos pow c).trans_le (Nat.le_add_right _ _), stride, total, range, lo, fun i lt => ?_⟩
  show (os.fiber counts c i).lo + (os.RegionFor c).toNat = _
  rw [lo i lt, region, Nat.succ_mul, Nat.add_assoc]

/-- A region ends before the next begins. -/
lemma next_le {m : Nat} (r : Nat) (lt : i < m) : (i + 1) * r ≤ m * r := Nat.mul_le_mul_right r lt

/-- A class with a fiber was asked for. -/
lemma counts_ne (lt : i < (counts c).toNat) : counts c ≠ 0 := by
  intro none
  rw [none] at lt
  exact absurd lt (Nat.not_lt_zero i)

/-- Two fibers have regions apart. -/
lemma Fits.apart {j : Nat} (fits : Fits os counts) (serves : os.Serves counts)
    (hi : i < (counts c).toNat) (hj : j < (counts d).toNat)
    (ne : os.fiber counts c i ≠ os.fiber counts d j) :
    (os.fiber counts c i).hi ≤ (os.fiber counts d j).lo ∨
      (os.fiber counts d j).hi ≤ (os.fiber counts c i).lo := by
  have lc := fits.laid serves (counts_ne hi)
  have ld := fits.laid serves (counts_ne hj)
  rw [lc.hi i hi, lc.lo i hi, ld.hi j hj, ld.lo j hj]
  by_cases e : c = d
  · subst e
    have apart : i ≠ j := fun e => ne (e ▸ rfl)
    rcases Nat.lt_or_gt_of_ne apart with lt | lt
    · have := next_le (os.size c) lt
      exact .inl (by omega)
    · have := next_le (os.size c) lt
      exact .inr (by omega)
  · have apart := serves.apart c d e (counts_ne hi) (counts_ne hj)
    rw [lc.total, ld.total] at apart
    have := next_le (os.size c) hi
    have := next_le (os.size d) hj
    rcases apart with le | le
    · exact .inl (by omega)
    · exact .inr (by omega)

/-! ## Finding a fiber -/

/-- The class that has the address decides. -/
lemma Built.find_own {cs : List StackClass} (built : Built os counts pool) (l : Laid os counts c)
    (lt : i < (counts c).toNat) (own : (os.fiber counts c i).Owns a) :
    pool.find os a (c :: cs) = some (os.fiber counts c i) := by
  obtain ⟨ge, below⟩ := own
  rw [l.lo i lt] at ge
  rw [l.hi i lt] at below
  have last := next_le (os.size c) lt
  have some_fiber : pool.fibers c ≠ [] := by
    rw [built.fibers c, ← List.length_pos_iff, length_row]
    exact Nat.zero_lt_of_lt lt
  have within : ¬(a < os.base c ∨ a ≥ os.base c + counts c * os.RegionFor c) := by
    have fits := l.fits
    rintro (before | past)
    · rw [BitVec.lt_def] at before
      omega
    · rw [ge_iff_le, BitVec.le_def, BitVec.toNat_add, l.total, Nat.mod_eq_of_lt fits] at past
      omega
  have some_stride : roundUp os.PageSize (os.RegionFor c) ≠ 0 := by
    intro none
    have zero : (os.stride c).toNat = 0 := congrArg BitVec.toNat none
    have := l.pos
    rw [l.stride] at zero
    omega
  have index : ((a - os.base c) / roundUp os.PageSize (os.RegionFor c)).toNat = i := by
    have le : os.base c ≤ a := by
      rw [BitVec.le_def]
      omega
    have stride : (roundUp os.PageSize (os.RegionFor c)).toNat = os.size c := l.stride
    rw [BitVec.toNat_udiv, BitVec.toNat_sub_of_le le, stride]
    rw [Nat.succ_mul] at below
    refine Nat.div_eq_of_lt_le ?_ ?_
    · omega
    · rw [Nat.succ_mul]
      omega
  unfold Pool.find
  rw [built.arenas c (counts_ne lt)]
  simp only [if_neg some_fiber]
  refine (if_neg within).trans ((if_neg some_stride).trans ?_)
  show (if ((a - os.base c) / roundUp os.PageSize (os.RegionFor c)).toNat ≥ _ then _ else
    (pool.fibers c)[((a - os.base c) / roundUp os.PageSize (os.RegionFor c)).toNat]?) = _
  rw [index, built.fibers c, if_neg (by rw [length_row]; omega), row_get lt]

/-- The others are passed over. -/
lemma Built.find_other {cs : List StackClass} (built : Built os counts pool) (fits : Fits os counts)
    (serves : os.Serves counts) (none : ∀ i < (counts c).toNat, ¬(os.fiber counts c i).Owns a) :
    pool.find os a (c :: cs) = pool.find os a cs := by
  rw [Pool.find]
  by_cases zero : counts c = 0
  · have empty : pool.fibers c = [] := by
      rw [built.fibers c]
      unfold System.row
      rw [zero]
      rfl
    split
    next => rfl
    next => rw [if_pos empty]
  · have l := fits.laid serves zero
    have beside : a < os.base c ∨ a ≥ os.base c + counts c * os.RegionFor c := by
      by_contra within
      rw [not_or, ge_iff_le, BitVec.not_lt, BitVec.not_le, BitVec.le_def, BitVec.lt_def, BitVec.toNat_add,
        l.total, Nat.mod_eq_of_lt l.fits] at within
      obtain ⟨ge, lt⟩ := within
      have small : (a.toNat - (os.base c).toNat) / os.size c < (counts c).toNat := by
        apply Nat.div_lt_of_lt_mul
        rw [Nat.mul_comm]
        omega
      refine none _ small ⟨?_, ?_⟩
      · have := Nat.div_mul_le_self (a.toNat - (os.base c).toNat) (os.size c)
        rw [l.lo _ small]
        omega
      · have := Nat.lt_div_mul_add (a := a.toNat - (os.base c).toNat) l.pos
        rw [l.hi _ small, Nat.succ_mul]
        omega
    rw [built.arenas c zero]
    simp only
    split
    next => rfl
    next =>
      exact if_pos beside

/-- The walk comes to the fiber of the index. -/
lemma Built.walk_own (built : Built os counts pool) (lt : i < (counts c).toNat) :
    pool.At (start counts c + i) = some (os.fiber counts c i) := by
  have length : ∀ c, (pool.fibers c).length = (counts c).toNat := by
    intro c
    rw [built.fibers c, length_row]
  unfold Pool.At order Pool.walk
  rw [length .Standard]
  cases c with
  | Standard =>
    have first : start counts .Standard + i = i := Nat.zero_add i
    rw [first, if_pos lt, built.fibers, row_get lt]
  | Tiny =>
    have second : start counts .Tiny + i = (counts .Standard).toNat + i := rfl
    rw [second, if_neg (by omega), Nat.add_sub_cancel_left]
    unfold Pool.walk
    rw [length .Tiny, if_pos lt, built.fibers, row_get lt]
  | Deep =>
    have third : start counts .Deep + i = (counts .Standard).toNat + ((counts .Tiny).toNat + i) :=
      Nat.add_assoc _ _ _
    rw [third, if_neg (by omega), Nat.add_sub_cancel_left]
    unfold Pool.walk
    rw [length .Tiny, if_neg (by omega), Nat.add_sub_cancel_left]
    unfold Pool.walk
    rw [length .Deep, if_pos lt, built.fibers, row_get lt]

/-- A pool that is built is exact. -/
lemma Built.exact (built : Built os counts pool) (fits : Fits os counts) (serves : os.Serves counts) :
    Exact os counts pool where
  sizes c := by rw [built.fibers c, length_row]
  inside c f mem := by
    obtain ⟨i, lt, rfl⟩ := mem_row.1 (built.fibers c ▸ mem)
    have l := fits.laid serves (counts_ne lt)
    have pos := l.pos
    have last := next_le (os.size c) lt
    refine ⟨?_, _, built.arenas c (counts_ne lt), ?_, ?_⟩
    · rw [l.lo i lt, l.hi i lt, Nat.succ_mul]
      omega
    · rw [l.lo i lt]
      exact Nat.le_add_right _ _
    · rw [l.hi i lt]
      show _ ≤ (os.base c).toNat + (counts c * os.RegionFor c).toNat
      rw [l.total]
      omega
  apart c d f hf g hg ne := by
    obtain ⟨i, hi, rfl⟩ := mem_row.1 (built.fibers c ▸ hf)
    obtain ⟨j, hj, rfl⟩ := mem_row.1 (built.fibers d ▸ hg)
    exact fits.apart serves hi hj ne
  found c f mem a own := by
    obtain ⟨i, lt, rfl⟩ := mem_row.1 (built.fibers c ▸ mem)
    have l := fits.laid serves (counts_ne lt)
    have some_addr : a ≠ 0 := by
      rintro rfl
      have ge := own.1
      rw [l.lo i lt] at ge
      have zero : (os.base c).toNat = 0 := by
        have : (0 : Addr).toNat = 0 := rfl
        omega
      exact (serves.reserve c (counts_ne lt)).2.1 (BitVec.eq_of_toNat_eq zero)
    have others : ∀ d, d ≠ c → ∀ j < (counts d).toNat, ¬(os.fiber counts d j).Owns a := by
      intro d ne j hj own'
      have apart : os.fiber counts c i ≠ os.fiber counts d j := fun e =>
        ne (congrArg Fiber.stackClass e).symm
      obtain ⟨h1, h2⟩ := own
      obtain ⟨h3, h4⟩ := own'
      rcases fits.apart serves lt hj apart with le | le <;> omega
    unfold Pool.FiberForStack order
    rw [if_neg some_addr]
    cases c with
    | Standard => exact built.find_own l lt own
    | Tiny =>
      rw [built.find_other fits serves (others .Standard (by rintro ⟨⟩))]
      exact built.find_own l lt own
    | Deep =>
      rw [built.find_other fits serves (others .Standard (by rintro ⟨⟩)),
        built.find_other fits serves (others .Tiny (by rintro ⟨⟩))]
      exact built.find_own l lt own
  outside a none := by
    have nobody : ∀ c, ∀ i < (counts c).toNat, ¬(os.fiber counts c i).Owns a := by
      intro c i lt
      exact none c _ (by rw [built.fibers c, mem_row]; exact ⟨i, lt, rfl⟩)
    unfold Pool.FiberForStack order
    rw [built.find_other fits serves (nobody _), built.find_other fits serves (nobody _),
      built.find_other fits serves (nobody _)]
    exact ite_self _
  listed c f mem := by
    obtain ⟨i, lt, rfl⟩ := mem_row.1 (built.fibers c ▸ mem)
    exact built.walk_own lt
  dense i := by
    constructor
    · rintro ⟨c, f, mem, rfl⟩
      obtain ⟨j, lt, rfl⟩ := mem_row.1 (built.fibers c ▸ mem)
      show start counts c + j < _
      cases c with
      | Standard =>
        show 0 + j < _
        omega
      | Tiny =>
        show (counts .Standard).toNat + j < _
        omega
      | Deep =>
        show (counts .Standard).toNat + (counts .Tiny).toNat + j < _
        omega
    · intro lt
      have at_class : ∀ c j, j < (counts c).toNat → start counts c + j = i →
          ∃ c, ∃ f ∈ pool.fibers c, f.poolIndex = i := by
        intro c j hj e
        refine ⟨c, os.fiber counts c j, ?_, e⟩
        rw [built.fibers c, mem_row]
        exact ⟨j, hj, rfl⟩
      by_cases first : i < (counts .Standard).toNat
      · exact at_class .Standard i first (Nat.zero_add i)
      · by_cases second : i < (counts .Standard).toNat + (counts .Tiny).toNat
        · refine at_class .Tiny (i - (counts .Standard).toNat) (by omega) ?_
          show (counts .Standard).toNat + _ = i
          omega
        · refine at_class .Deep (i - ((counts .Standard).toNat + (counts .Tiny).toNat)) (by omega) ?_
          show (counts .Standard).toNat + (counts .Tiny).toNat + _ = i
          omega

/-- For every triple of counts, every page size that is a power of two and every place of the arenas: the
pool is built, and addresses and indices lead to its fibers exactly, if and only if the pages are at most
4096 bytes or there are no `Standard` and no `Deep` fibers, and every arena fits in the address space. -/
theorem fiber_for_stack_exact (serves : os.Serves counts) :
    (∃ pool, GlobalFiberPool os counts = some pool ∧ Exact os counts pool) ↔ Fits os counts := by
  constructor
  · rintro ⟨pool, ok, _⟩
    exact (fits_iff serves).2 ((built_iff serves).1 ⟨pool, ok⟩)
  · intro fits
    obtain ⟨pool, ok⟩ := (built_iff serves).2 ((fits_iff serves).1 fits)
    exact ⟨pool, ok, (GlobalFiberPool_built serves ok).exact fits serves⟩

/-- A system with pages of this size, and an arena for each class. -/
def System.paged (page : Addr) : System where
  PageSize := page
  ReserveNoAccess
    | .Standard => some 0x10000000
    | .Tiny => some 0x20000000
    | .Deep => some 0x30000000
  CommitReadWrite _ _ := true

/-- The counts of `Create(2, 1, 1)` are few enough for that. -/
def few : StackClass → Addr
  | .Standard => 2
  | .Tiny => 1
  | .Deep => 1

/-- The example is a system as it is relied on. -/
lemma paged_serves {page : Addr} (h : page = 4096 ∨ page = 16384) : (System.paged page).Serves few := by
  rcases h with rfl | rfl
  · refine ⟨⟨12, rfl⟩, fun c _ => ?_, fun c d ne _ _ => ?_, fun _ _ => rfl⟩
    · cases c <;> exact ⟨rfl, by decide, by decide⟩
    · cases c <;> cases d <;> first | exact absurd rfl ne | decide
  · refine ⟨⟨14, rfl⟩, fun c _ => ?_, fun c d ne _ _ => ?_, fun _ _ => rfl⟩
    · cases c <;> exact ⟨rfl, by decide, by decide⟩
    · cases c <;> cases d <;> first | exact absurd rfl ne | decide

/-- Pages of 4 KiB. -/
theorem fiber_for_stack_exact_small :
    ∃ pool, GlobalFiberPool (System.paged 4096) few = some pool ∧ Exact (System.paged 4096) few pool := by
  apply (fiber_for_stack_exact (paged_serves (.inl rfl))).2
  refine ⟨fun _ => by decide, fun c => ?_⟩
  cases c <;> decide

/-- Pages of 16 KiB: the arena of the two `Standard` fibers is of 152 KiB and their regions are of 80. -/
theorem large_pages_throw :
    (System.paged 16384).Serves few ∧
    ¬∃ pool, GlobalFiberPool (System.paged 16384) few = some pool ∧
      Exact (System.paged 16384) few pool := by
  refine ⟨paged_serves (.inr rfl), ?_⟩
  rintro ⟨pool, ok, _⟩
  have none : (GlobalFiberPool (System.paged 16384) few).isNone = true := by decide +kernel
  rw [ok] at none
  cases none

end JLib.FiberPool
