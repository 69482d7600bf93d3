import JLib.Timer.Occupancy
import JLib.LTS.Custody
import JLib.Links.Chain

/-!
# The shape of the timer table

`Shape q held` says which entries are where: on the free list, in a slot's doubly linked list, or loose
(taken out of one place and not yet put into another). Every index of the table is at one spot, the
links spell what the spot holds, the fields of a linked entry name its slot and the bitmap says which
slots hold something. The operations on the links are moves between spots.
-/

namespace JLib.Timer
open LTS Links

inductive Spot where
  | free
  | loose
  | cell (c : Nat × Nat)
  deriving DecidableEq

/-- An index of the free list, which is 1-based. -/
def freeRef (n : Nat) : Option Nat := if n = 0 then none else some (n - 1)

structure Shape (q : Impl) (held : Spot → List Nat) : Prop where
  custody : Custody held
  covers : ∀ i, i < q.size ↔ ∃ p, i ∈ held p
  lists : ∀ c, DList (fun i => (q.entries i).prev) (fun i => (q.entries i).next) none
    (q.heads c) (held (.cell c))
  free : SList (fun i => freeRef (q.entries i).nextFree) (freeRef q.freeHead) (held .free)
  cell : ∀ {c i}, i ∈ held (.cell c) → (q.entries i).level = some c.1 ∧ (q.entries i).slot = c.2
  bounds : ∀ {c i}, i ∈ held (.cell c) → c.1 < 4 ∧ c.2 < 256
  occ : ∀ c, q.Occupied c.1 c.2 ↔ held (.cell c) ≠ []

/-- What the operations on the links leave alone. -/
structure Kept (q q' : Impl) : Prop where
  size : q'.size = q.size
  freeHead : q'.freeHead = q.freeHead
  currentTick : q'.currentTick = q.currentTick
  armedCount : q'.armedCount = q.armedCount
  deadlineTick : ∀ k, (q'.entries k).deadlineTick = (q.entries k).deadlineTick
  action : ∀ k, (q'.entries k).action = (q.entries k).action
  generation : ∀ k, (q'.entries k).generation = (q.entries k).generation
  nextFree : ∀ k, (q'.entries k).nextFree = (q.entries k).nextFree

/-- Nothing happens. -/
lemma Kept.refl (q : Impl) : Kept q q :=
  ⟨rfl, rfl, rfl, rfl, fun _ => rfl, fun _ => rfl, fun _ => rfl, fun _ => rfl⟩

/-- One operation after the other. -/
lemma Kept.trans {q q' q'' : Impl} (h : Kept q q') (h' : Kept q' q'') : Kept q q'' where
  size := h'.size.trans h.size
  freeHead := h'.freeHead.trans h.freeHead
  currentTick := h'.currentTick.trans h.currentTick
  armedCount := h'.armedCount.trans h.armedCount
  deadlineTick k := (h'.deadlineTick k).trans (h.deadlineTick k)
  action k := (h'.action k).trans (h.action k)
  generation k := (h'.generation k).trans (h.generation k)
  nextFree k := (h'.nextFree k).trans (h.nextFree k)

variable {q q' : Impl} {held : Spot → List Nat} {i : Nat} {c : Nat × Nat} {X : List Nat}

/-- The placement after items have moved from spot `p` to spot `p'`. -/
def relocate (held : Spot → List Nat) (p : Spot) (xs : List Nat) (p' : Spot) (ys : List Nat) :
    Spot → List Nat :=
  Function.update (Function.update held p xs) p' ys

/-- At the first spot is what was put there. -/
lemma relocate_fst {p p' : Spot} {xs ys : List Nat} (ne : p ≠ p') :
    relocate held p xs p' ys p = xs := by
  simp [relocate, ne]

/-- At the second spot is what was put there. -/
lemma relocate_snd {p p' : Spot} {xs ys : List Nat} : relocate held p xs p' ys p' = ys := by
  simp [relocate]

/-- Elsewhere is what was there. -/
lemma relocate_other {p p' r : Spot} {xs ys : List Nat} (h : r ≠ p) (h' : r ≠ p') :
    relocate held p xs p' ys r = held r := by
  simp [relocate, h, h']

/-- A move keeps custody and what is somewhere. -/
lemma Shape.relocate (sh : Shape q held) (q' : Impl) {p p' : Spot} (xs ys : List Nat) (ne : p ≠ p')
    (perm : (xs ++ ys).Perm (held p ++ held p')) (hs : q'.size = q.size) :
    Custody (relocate held p xs p' ys) ∧
      ∀ i, i < q'.size ↔ ∃ r, i ∈ relocate held p xs p' ys r := by
  have frame : ∀ r, r ≠ p → r ≠ p' → Timer.relocate held p xs p' ys r = held r :=
    fun r h h' => relocate_other h h'
  have perm' : (Timer.relocate held p xs p' ys p ++ Timer.relocate held p xs p' ys p').Perm
      (held p ++ held p') := by
    rw [relocate_fst ne, relocate_snd]
    exact perm
  refine ⟨sh.custody.move ne frame perm'.subperm, fun i => ?_⟩
  rw [Custody.mem_move frame perm', hs]
  exact sh.covers i

/-- An entry that is at one spot is not at another. -/
lemma Shape.apart (sh : Shape q held) {p p' : Spot} {j : Nat} (ne : p ≠ p') (hi : i ∈ held p)
    (hj : j ∈ held p') : i ≠ j := by
  rintro rfl
  exact ne (sh.custody.unique hi hj)

/-- The fields of a loose entry do not matter. -/
lemma Shape.setLoose (sh : Shape q held) (hi : i ∈ held .loose) (e : Entry) :
    Shape (q.setEntry i e) held := by
  have same : ∀ {p j}, p ≠ Spot.loose → j ∈ held p → (q.setEntry i e).entries j = q.entries j := by
    intro p j ne hj
    have : j ≠ i := sh.apart ne hj hi
    simp [Impl.setEntry, this]
  refine ⟨sh.custody, sh.covers, fun c => ?_, ?_, fun {c j} hj => ?_, sh.bounds, sh.occ⟩
  · refine (sh.lists c).frame (fun k hk => ?_) fun k hk => ?_
    · rw [same (by simp) hk]
    · rw [same (by simp) hk]
  · refine sh.free.frame fun k hk => ?_
    rw [same (by simp) hk]
  · rw [same (by simp) hj]
    exact sh.cell hj

/-! ## Link -/

/-- What `Link` writes, entry by entry; the old first entry is not the new one. -/
lemma Link_entries (ne : q.heads c ≠ some i) (k : Nat) :
    (q.Link i c.1 c.2).entries k =
      if k = i then
        { q.entries i with level := some c.1, slot := c.2, prev := none, next := q.heads c }
      else if q.heads c = some k then { q.entries k with prev := some i }
      else q.entries k := by
  unfold Impl.Link
  cases h : q.heads c with
  | none =>
    by_cases hk : k = i
    · subst hk
      simp [Impl.setEntry, Impl.setHead, Impl.MarkOccupied, Impl.setOcc]
    · simp [Impl.setEntry, Impl.setHead, Impl.MarkOccupied, Impl.setOcc, hk]
  | some n =>
    have hni : n ≠ i := by
      rintro rfl
      exact ne h
    by_cases hk : k = i
    · subst hk
      simp [Impl.setEntry, Impl.setHead, Impl.MarkOccupied, Impl.setOcc, hni.symm]
    by_cases hn : k = n
    · subst hn
      simp [Impl.setEntry, Impl.setHead, Impl.MarkOccupied, Impl.setOcc, hk]
    · have : some n ≠ some k := fun e => hn (Option.some.inj e).symm
      simp [Impl.setEntry, Impl.setHead, Impl.MarkOccupied, Impl.setOcc, hk, hn, Ne.symm hn]

/-- Linking leaves all but the links, and puts the entry at the head of its slot. -/
lemma Link_rest : (q.Link i c.1 c.2).size = q.size ∧ (q.Link i c.1 c.2).freeHead = q.freeHead ∧
    (q.Link i c.1 c.2).currentTick = q.currentTick ∧
    (q.Link i c.1 c.2).armedCount = q.armedCount ∧
    (q.Link i c.1 c.2).heads = Function.update q.heads c (some i) ∧
    (q.Link i c.1 c.2).occ = (q.MarkOccupied c.1 c.2).occ := by
  unfold Impl.Link
  cases h : q.heads c with
  | none => exact ⟨rfl, rfl, rfl, rfl, rfl, rfl⟩
  | some n => exact ⟨rfl, rfl, rfl, rfl, rfl, rfl⟩

/-- Linking an entry that is not the head leaves the rest. -/
lemma Link_kept (ne : q.heads c ≠ some i) : Kept q (q.Link i c.1 c.2) := by
  obtain ⟨h1, h2, h3, h4, -, -⟩ := Link_rest (q := q) (i := i) (c := c)
  refine ⟨h1, h2, h3, h4, fun k => ?_, fun k => ?_, fun k => ?_, fun k => ?_⟩
  all_goals
    rw [Link_entries ne]
    by_cases hk : k = i
    · subst hk
      simp
    · simp only [hk, if_false]
      split <;> rfl

/-- A loose entry is the head of no slot. -/
lemma Shape.head_ne (sh : Shape q held) (hi : i ∈ held .loose) : q.heads c ≠ some i := by
  intro e
  have hh := (sh.lists c).start_eq
  rw [e] at hh
  have : i ∈ held (.cell c) := List.mem_of_mem_head? hh.symm
  exact sh.apart (by simp) hi this rfl

/-- `Link` moves a loose entry to the front of a slot's list. -/
lemma Shape.link (sh : Shape q held) (hX : held .loose = i :: X) (hc : c.1 < 4 ∧ c.2 < 256) :
    Shape (q.Link i c.1 c.2)
      (Timer.relocate held (.cell c) (i :: held (.cell c)) .loose X) := by
  have hi : i ∈ held .loose := by simp [hX]
  have ne : q.heads c ≠ some i := sh.head_ne hi
  obtain ⟨hs, hf, -, -, hh, ho⟩ := Link_rest (q := q) (i := i) (c := c)
  have cne : Spot.cell c ≠ .loose := by simp
  obtain ⟨cus, cov⟩ := sh.relocate (q.Link i c.1 c.2) (i :: held (.cell c)) X cne (by
    rw [hX]
    exact List.perm_middle.symm) hs
  refine ⟨cus, cov, fun c' => ?_, ?_, fun {c' j} hj => ?_, fun {c' j} hj => ?_, fun c' => ?_⟩
  · by_cases hcc : c' = c
    · subst hcc
      rw [relocate_fst cne, hh, Function.update_self]
      refine (sh.lists c').pushFront (sh.custody.nodup _) ?_ ?_ (fun k hk => ?_) fun k hk => ?_
      · simp [Link_entries ne]
      · simp [Link_entries ne]
      · have hki : k ≠ i := sh.apart cne hk hi
        simp only [Link_entries ne, hki, if_false]
        split <;> rfl
      · have hki : k ≠ i := sh.apart cne hk hi
        simp only [Link_entries ne, hki, if_false]
        split <;> rfl
    · rw [relocate_other (by simpa using hcc) (by simp), hh, Function.update_of_ne hcc]
      -- the old first entry of `c` is in no other list
      have far : ∀ k ∈ held (.cell c'), k ≠ i ∧ q.heads c ≠ some k := by
        intro k hk
        refine ⟨sh.apart (by simp) hk hi, fun e => ?_⟩
        have hh' := (sh.lists c).start_eq
        rw [e] at hh'
        have hk' : k ∈ held (.cell c) := List.mem_of_mem_head? hh'.symm
        exact sh.apart (by simpa using hcc) hk hk' rfl
      refine (sh.lists c').frame (fun k hk => ?_) fun k hk => ?_
      · obtain ⟨h1, h2⟩ := far k hk
        simp [Link_entries ne, h1, h2]
      · obtain ⟨h1, h2⟩ := far k hk
        simp [Link_entries ne, h1, h2]
  · rw [relocate_other (by simp) (by simp), hf]
    refine sh.free.frame fun k hk => ?_
    rw [(Link_kept ne).nextFree]
  · by_cases hcc : c' = c
    · subst hcc
      rw [relocate_fst cne] at hj
      rcases List.mem_cons.1 hj with rfl | hj
      · simp [Link_entries ne]
      · have hki : j ≠ i := sh.apart cne hj hi
        simp only [Link_entries ne, hki, if_false]
        split <;> exact sh.cell hj
    · rw [relocate_other (by simpa using hcc) (by simp)] at hj
      have hki : j ≠ i := sh.apart (by simp) hj hi
      simp only [Link_entries ne, hki, if_false]
      split <;> exact sh.cell hj
  · by_cases hcc : c' = c
    · rw [hcc]
      exact hc
    · rw [relocate_other (by simpa using hcc) (by simp)] at hj
      exact sh.bounds hj
  · have occ_eq : (q.Link i c.1 c.2).Occupied c'.1 c'.2 ↔
        (q.MarkOccupied c.1 c.2).Occupied c'.1 c'.2 := by
      unfold Impl.Occupied
      rw [ho]
    rw [occ_eq, Impl.MarkOccupied_iff, sh.occ c']
    by_cases hcc : c' = c
    · subst hcc
      simp [relocate_fst cne]
    · have : ¬(c'.1 = c.1 ∧ c'.2 = c.2) := fun h => hcc (Prod.ext h.1 h.2)
      rw [relocate_other (by simpa using hcc) (by simp)]
      simp [this]

/-! ## Unlink -/

/-- The entry before is linked past the one that goes. -/
lemma bypassBack_entries {e : Entry} {l : Nat} (k : Nat) :
    (q.bypassBack e l).entries k =
      if e.prev = some k then { q.entries k with next := e.next } else q.entries k := by
  unfold Impl.bypassBack
  cases e.prev with
  | none => simp [Impl.setHead]
  | some p =>
    by_cases h : k = p
    · subst h
      simp [Impl.setEntry]
    · simp [Impl.setEntry, h, Ne.symm h]

/-- The entry behind is linked past the one that goes. -/
lemma bypassFront_entries {e : Entry} (k : Nat) :
    (q.bypassFront e).entries k =
      if e.next = some k then { q.entries k with prev := e.prev } else q.entries k := by
  unfold Impl.bypassFront
  cases e.next with
  | none => simp
  | some n =>
    by_cases h : k = n
    · subst h
      simp [Impl.setEntry]
    · simp [Impl.setEntry, h, Ne.symm h]

/-- The links of the entry that goes are cleared. -/
lemma clearLinks_entries (k : Nat) :
    (q.clearLinks i).entries k =
      if k = i then { q.entries i with prev := none, next := none, level := none }
      else q.entries k := by
  by_cases h : k = i
  · subst h
    simp [Impl.clearLinks, Impl.setEntry]
  · simp [Impl.clearLinks, Impl.setEntry, h]

/-- Clearing the links leaves the rest. -/
lemma clearLinks_kept : Kept q (q.clearLinks i) := by
  refine ⟨rfl, rfl, rfl, rfl, fun k => ?_, fun k => ?_, fun k => ?_, fun k => ?_⟩
  all_goals
    rw [clearLinks_entries]
    split
    next h => rw [h]
    next => rfl

/-- What `Unlink` writes, entry by entry, when the neighbours are other entries. -/
lemma Unlink_entries {l : Nat} (hl : (q.entries i).level = some l)
    (hp : (q.entries i).prev ≠ some i) (hn : (q.entries i).next ≠ some i) (k : Nat) :
    (q.Unlink i).entries k =
      if k = i then { q.entries i with prev := none, next := none, level := none }
      else
        { q.entries k with
          next := if (q.entries i).prev = some k then (q.entries i).next else (q.entries k).next
          prev := if (q.entries i).next = some k then (q.entries i).prev
            else (q.entries k).prev } := by
  have last : (q.Unlink i).entries k =
      (((q.bypassBack (q.entries i) l).bypassFront (q.entries i)).clearLinks i).entries k := by
    unfold Impl.Unlink
    simp only [hl]
    split <;> rfl
  rw [last, clearLinks_entries, bypassFront_entries, bypassFront_entries, bypassBack_entries,
    bypassBack_entries, if_neg hp, if_neg hn]
  split
  · rfl
  · split <;> split <;> simp_all

/-- Unlinking leaves all but the links, and moves the head if the entry was it. -/
lemma Unlink_rest {l : Nat} (hl : (q.entries i).level = some l) :
    (q.Unlink i).size = q.size ∧ (q.Unlink i).freeHead = q.freeHead ∧
    (q.Unlink i).currentTick = q.currentTick ∧ (q.Unlink i).armedCount = q.armedCount ∧
    (q.Unlink i).heads = (if (q.entries i).prev = none then
      Function.update q.heads (l, (q.entries i).slot) (q.entries i).next else q.heads) ∧
    (q.Unlink i).occ = (if (q.Unlink i).heads (l, (q.entries i).slot) = none then
      (q.MarkEmpty l (q.entries i).slot).occ else q.occ) := by
  have hb : (q.bypassBack (q.entries i) l).size = q.size ∧
      (q.bypassBack (q.entries i) l).freeHead = q.freeHead ∧
      (q.bypassBack (q.entries i) l).currentTick = q.currentTick ∧
      (q.bypassBack (q.entries i) l).armedCount = q.armedCount ∧
      (q.bypassBack (q.entries i) l).heads = (if (q.entries i).prev = none then
        Function.update q.heads (l, (q.entries i).slot) (q.entries i).next else q.heads) ∧
      (q.bypassBack (q.entries i) l).occ = q.occ := by
    unfold Impl.bypassBack
    cases (q.entries i).prev with
    | none => exact ⟨rfl, rfl, rfl, rfl, rfl, rfl⟩
    | some p => exact ⟨rfl, rfl, rfl, rfl, rfl, rfl⟩
  have hf : ∀ q' : Impl, (q'.bypassFront (q.entries i)).size = q'.size ∧
      (q'.bypassFront (q.entries i)).freeHead = q'.freeHead ∧
      (q'.bypassFront (q.entries i)).currentTick = q'.currentTick ∧
      (q'.bypassFront (q.entries i)).armedCount = q'.armedCount ∧
      (q'.bypassFront (q.entries i)).heads = q'.heads ∧
      (q'.bypassFront (q.entries i)).occ = q'.occ := by
    intro q'
    unfold Impl.bypassFront
    cases (q.entries i).next with
    | none => exact ⟨rfl, rfl, rfl, rfl, rfl, rfl⟩
    | some n => exact ⟨rfl, rfl, rfl, rfl, rfl, rfl⟩
  obtain ⟨b1, b2, b3, b4, b5, b6⟩ := hb
  obtain ⟨f1, f2, f3, f4, f5, f6⟩ := hf (q.bypassBack (q.entries i) l)
  have e : q.Unlink i = if (((q.bypassBack (q.entries i) l).bypassFront (q.entries i)).clearLinks
        i).heads (l, (q.entries i).slot) = none
      then (((q.bypassBack (q.entries i) l).bypassFront (q.entries i)).clearLinks i).MarkEmpty l
        (q.entries i).slot
      else ((q.bypassBack (q.entries i) l).bypassFront (q.entries i)).clearLinks i := by
    unfold Impl.Unlink
    simp only [hl]
  have hh : (q.Unlink i).heads = (if (q.entries i).prev = none then
      Function.update q.heads (l, (q.entries i).slot) (q.entries i).next else q.heads) := by
    rw [e]
    split <;> exact f5.trans b5
  refine ⟨?_, ?_, ?_, ?_, hh, ?_⟩
  · rw [e]
    split <;> exact f1.trans b1
  · rw [e]
    split <;> exact f2.trans b2
  · rw [e]
    split <;> exact f3.trans b3
  · rw [e]
    split <;> exact f4.trans b4
  · have hcond : (((q.bypassBack (q.entries i) l).bypassFront (q.entries i)).clearLinks i).heads =
        (q.Unlink i).heads := by
      rw [hh]
      exact f5.trans b5
    rw [← hcond, e]
    split
    next h =>
      unfold Impl.MarkEmpty Impl.setOcc
      have : (((q.bypassBack (q.entries i) l).bypassFront (q.entries i)).clearLinks i).occ =
          q.occ := f6.trans b6
      simp only [this]
    next h => exact f6.trans b6

/-- The neighbours of a linked entry are other entries of its list. -/
lemma Shape.neighbours (sh : Shape q held) {a b : List Nat} (hc : held (.cell c) = a ++ i :: b) :
    (q.entries i).prev = a.getLast? ∧ (q.entries i).next = b.head? ∧ i ∉ a ++ b := by
  have dl := sh.lists c
  have nd := sh.custody.nodup (.cell c)
  rw [hc] at dl nd
  have hp := dl.prev_eq
  refine ⟨?_, dl.next_eq, ?_⟩
  · rw [hp]
    cases a with
    | nil => rfl
    | cons x a => rfl
  · exact (List.nodup_cons.1 (List.perm_middle.nodup_iff.1 nd)).1

/-- An entry is not its own neighbour. -/
lemma Shape.neighbours_ne (sh : Shape q held) {a b : List Nat}
    (hc : held (.cell c) = a ++ i :: b) :
    (q.entries i).prev ≠ some i ∧ (q.entries i).next ≠ some i := by
  obtain ⟨hp, hn, out⟩ := sh.neighbours hc
  constructor
  · intro e
    rw [hp] at e
    exact out (List.mem_append_left _ (List.mem_of_getLast? e))
  · intro e
    rw [hn] at e
    exact out (List.mem_append_right _ (List.mem_of_mem_head? e))

/-- Unlinking an entry of a slot leaves the rest. -/
lemma Shape.unlink_kept (sh : Shape q held) (hi : i ∈ held (.cell c)) : Kept q (q.Unlink i) := by
  obtain ⟨a, b, hab⟩ := List.append_of_mem hi
  obtain ⟨hp, hn⟩ := sh.neighbours_ne hab
  have hl := (sh.cell hi).1
  obtain ⟨h1, h2, h3, h4, -, -⟩ := Unlink_rest hl
  refine ⟨h1, h2, h3, h4, fun k => ?_, fun k => ?_, fun k => ?_, fun k => ?_⟩
  all_goals
    rw [Unlink_entries hl hp hn]
    by_cases hk : k = i
    · simp [hk]
    · simp [hk]

/-- `Unlink` takes an entry out of its slot's list. -/
lemma Shape.unlink (sh : Shape q held) {a b : List Nat} (hc : held (.cell c) = a ++ i :: b) :
    Shape (q.Unlink i) (Timer.relocate held (.cell c) (a ++ b) .loose (i :: held .loose)) := by
  have hi : i ∈ held (.cell c) := by simp [hc]
  obtain ⟨hprev, hnext, out⟩ := sh.neighbours hc
  obtain ⟨hpi, hni⟩ := sh.neighbours_ne hc
  obtain ⟨hl, hslot⟩ := sh.cell hi
  have ent := Unlink_entries hl hpi hni
  have kept := sh.unlink_kept hi
  obtain ⟨hs, hf, -, -, hh, ho⟩ := Unlink_rest hl
  rw [hslot] at hh ho
  have cne : Spot.cell c ≠ .loose := by simp
  obtain ⟨cus, cov⟩ := sh.relocate (q.Unlink i) (a ++ b) (i :: held .loose) cne (by
    rw [hc]
    simpa using List.perm_middle.append_left a) hs
  -- an entry of another list is not a neighbour
  have far : ∀ {p k}, p ≠ Spot.cell c → k ∈ held p → k ≠ i ∧ (q.entries i).prev ≠ some k ∧
      (q.entries i).next ≠ some k := by
    intro p k ne hk
    refine ⟨sh.apart ne hk hi, fun e => ?_, fun e => ?_⟩
    · rw [hprev] at e
      have : k ∈ held (.cell c) := by
        rw [hc]
        exact List.mem_append_left _ (List.mem_of_getLast? e)
      exact sh.apart ne hk this rfl
    · rw [hnext] at e
      have : k ∈ held (.cell c) := by
        rw [hc]
        exact List.mem_append_right _ (List.mem_cons_of_mem _ (List.mem_of_mem_head? e))
      exact sh.apart ne hk this rfl
  have hhead : (q.Unlink i).heads c = (a ++ b).head? := by
    have start := (sh.lists c).start_eq
    rw [hh, hprev]
    cases a with
    | nil => simp [hnext]
    | cons x a =>
      rw [if_neg (by simp), start, hc]
      rfl
  refine ⟨cus, cov, fun c' => ?_, ?_, fun {c' j} hj => ?_, fun {c' j} hj => ?_, fun c' => ?_⟩
  · by_cases hcc : c' = c
    · subst hcc
      rw [relocate_fst cne]
      have dl := sh.lists c'
      have nd := sh.custody.nodup (.cell c')
      rw [hc] at dl nd
      have rem : DList (fun k => ((q.Unlink i).entries k).prev)
          (fun k => ((q.Unlink i).entries k).next) none _ (a ++ b) := dl.remove nd (by simp)
        (fun k hk => by
          have : k ≠ i := fun e => out (e ▸ hk)
          simp [ent, this])
        (fun k hk => by
          have : k ≠ i := fun e => out (e ▸ hk)
          simp [ent, this])
      have e := rem.start_eq
      rw [hhead, ← e]
      exact rem
    · rw [relocate_other (by simpa using hcc) (by simp)]
      have hheads : (q.Unlink i).heads c' = q.heads c' := by
        rw [hh]
        split
        · exact Function.update_of_ne hcc _ _
        · rfl
      rw [hheads]
      refine (sh.lists c').frame (fun k hk => ?_) fun k hk => ?_
      · obtain ⟨h1, h2, h3⟩ := far (by simpa using hcc) hk
        simp [ent, h1, h3]
      · obtain ⟨h1, h2, h3⟩ := far (by simpa using hcc) hk
        simp [ent, h1, h2]
  · rw [relocate_other (by simp) (by simp), hf]
    refine sh.free.frame fun k hk => ?_
    rw [kept.nextFree]
  · by_cases hcc : c' = c
    · subst hcc
      rw [relocate_fst cne] at hj
      have hji : j ≠ i := fun e => out (e ▸ hj)
      have hj' : j ∈ held (.cell c') := by
        rw [hc]
        rcases List.mem_append.1 hj with h | h
        · exact List.mem_append_left _ h
        · exact List.mem_append_right _ (List.mem_cons_of_mem _ h)
      simp only [ent, hji, if_false]
      exact sh.cell hj'
    · rw [relocate_other (by simpa using hcc) (by simp)] at hj
      obtain ⟨h1, -, -⟩ := far (by simpa using hcc) hj
      simp only [ent, h1, if_false]
      exact sh.cell hj
  · by_cases hcc : c' = c
    · rw [hcc]
      exact sh.bounds hi
    · rw [relocate_other (by simpa using hcc) (by simp)] at hj
      exact sh.bounds hj
  · have occ_eq : (q.Unlink i).Occupied c'.1 c'.2 ↔
        ¬(c' = c ∧ a ++ b = []) ∧ q.Occupied c'.1 c'.2 := by
      unfold Impl.Occupied
      rw [ho, hhead]
      cases hab : a ++ b with
      | nil =>
        have : (q.MarkEmpty c.1 c.2).Occupied c'.1 c'.2 ↔ _ := Impl.MarkEmpty_iff
        unfold Impl.Occupied at this
        rw [if_pos (by rfl), this]
        simp [Prod.ext_iff]
      | cons x xs => simp
    rw [occ_eq, sh.occ c']
    by_cases hcc : c' = c
    · subst hcc
      rw [relocate_fst cne, hc]
      simp
    · rw [relocate_other (by simpa using hcc) (by simp)]
      simp [hcc]

/-! ## Detaching a whole list -/

/-- The first two lines of `Cascade` make the entries of a slot loose. -/
lemma Shape.detach (sh : Shape q held) (hX : held .loose = []) :
    Shape ((q.setHead c.1 c.2 none).MarkEmpty c.1 c.2)
      (Timer.relocate held (.cell c) [] .loose (held (.cell c))) := by
  have cne : Spot.cell c ≠ .loose := by simp
  obtain ⟨cus, cov⟩ := sh.relocate ((q.setHead c.1 c.2 none).MarkEmpty c.1 c.2)
    [] (held (.cell c)) cne (by simp [hX]) rfl
  refine ⟨cus, cov, fun c' => ?_, ?_, fun {c' j} hj => ?_, fun {c' j} hj => ?_, fun c' => ?_⟩
  · by_cases hcc : c' = c
    · subst hcc
      have : ((q.setHead c'.1 c'.2 none).MarkEmpty c'.1 c'.2).heads c' = none := by
        simp [Impl.setHead, Impl.MarkEmpty, Impl.setOcc]
      rw [relocate_fst cne, this]
      exact .nil
    · have : ((q.setHead c.1 c.2 none).MarkEmpty c.1 c.2).heads c' = q.heads c' := by
        simp [Impl.setHead, Impl.MarkEmpty, Impl.setOcc, hcc]
      rw [relocate_other (by simpa using hcc) (by simp), this]
      exact sh.lists c'
  · rw [relocate_other (by simp) (by simp)]
    exact sh.free
  · by_cases hcc : c' = c
    · subst hcc
      rw [relocate_fst cne] at hj
      cases hj
    · rw [relocate_other (by simpa using hcc) (by simp)] at hj
      exact sh.cell hj
  · by_cases hcc : c' = c
    · subst hcc
      rw [relocate_fst cne] at hj
      cases hj
    · rw [relocate_other (by simpa using hcc) (by simp)] at hj
      exact sh.bounds hj
  · rw [Impl.MarkEmpty_iff]
    have same : (q.setHead c.1 c.2 none).Occupied c'.1 c'.2 ↔ q.Occupied c'.1 c'.2 := Iff.rfl
    rw [same, sh.occ c']
    by_cases hcc : c' = c
    · subst hcc
      simp [relocate_fst cne]
    · have : ¬(c'.1 = c.1 ∧ c'.2 = c.2) := fun h => hcc (Prod.ext h.1 h.2)
      rw [relocate_other (by simpa using hcc) (by simp)]
      simp [this]

/-! ## The free list -/

/-- `ReleaseEntry` moves a loose entry to the front of the free list. -/
lemma Shape.release (sh : Shape q held) (hX : held .loose = i :: X) :
    Shape (q.ReleaseEntry i) (Timer.relocate held .free (i :: held .free) .loose X) := by
  have hi : i ∈ held .loose := by simp [hX]
  have fne : Spot.free ≠ .loose := by simp
  have same : ∀ {p j}, p ≠ Spot.loose → j ∈ held p →
      (q.ReleaseEntry i).entries j = q.entries j := by
    intro p j ne hj
    have : j ≠ i := sh.apart ne hj hi
    simp [Impl.ReleaseEntry, Impl.setEntry, this]
  obtain ⟨cus, cov⟩ := sh.relocate (q.ReleaseEntry i) (i :: held .free) X fne (by
    rw [hX]
    exact List.perm_middle.symm) rfl
  refine ⟨cus, cov, fun c => ?_, ?_, fun {c j} hj => ?_, fun {c j} hj => ?_, fun c => ?_⟩
  · rw [relocate_other (by simp) (by simp)]
    refine (sh.lists c).frame (fun k hk => ?_) fun k hk => ?_
    · rw [same (by simp) hk]
    · rw [same (by simp) hk]
  · rw [relocate_fst fne]
    have h1 : freeRef (q.ReleaseEntry i).freeHead = some i := by
      simp [freeRef, Impl.ReleaseEntry]
    have h2 : ((q.ReleaseEntry i).entries i).nextFree = q.freeHead := by
      simp [Impl.ReleaseEntry, Impl.setEntry]
    rw [h1]
    apply SList.cons
    rw [h2]
    refine sh.free.frame fun k hk => ?_
    rw [same fne hk]
  · rw [relocate_other (by simp) (by simp)] at hj
    rw [same (by simp) hj]
    exact sh.cell hj
  · rw [relocate_other (by simp) (by simp)] at hj
    exact sh.bounds hj
  · rw [relocate_other (by simp) (by simp)]
    exact sh.occ c

/-- `AcquireEntry` makes the first free entry, or a new one, loose. -/
lemma Shape.acquire (sh : Shape q held) :
    ∃ F, Shape q.AcquireEntry.1
        (Timer.relocate held .free F .loose (q.AcquireEntry.2 :: held .loose)) ∧
      (q.AcquireEntry.2 ∈ held .free ∨ q.AcquireEntry.2 = q.size) ∧
      ∀ k, k ∈ held .free → k = q.AcquireEntry.2 ∨ k ∈ F := by
  have fne : Spot.free ≠ .loose := by simp
  unfold Impl.AcquireEntry
  by_cases h : q.freeHead = 0
  · -- the table grows
    simp only [h, ne_eq, not_true_eq_false, if_false]
    have new : ∀ p, q.size ∉ held p := by
      intro p hp
      have := (sh.covers q.size).2 ⟨p, hp⟩
      omega
    have same : ∀ {p j}, j ∈ held p → (q.setEntry q.size {}).entries j = q.entries j := by
      intro p j hj
      have : j ≠ q.size := by
        rintro rfl
        exact new p hj
      simp [Impl.setEntry, this]
    refine ⟨held .free, ⟨?_, fun i => ?_, fun c => ?_, ?_, fun {c j} hj => ?_, fun {c j} hj => ?_,
      fun c => ?_⟩, .inr trivial, fun k hk => .inr hk⟩
    · refine sh.custody.put (p := .loose) new (fun r hr => ?_) ?_
      · by_cases hf : r = .free
        · rw [hf, relocate_fst fne]
        · exact relocate_other hf hr
      · rw [relocate_snd]
    · show i < q.size + 1 ↔ _
      constructor
      · intro hi
        by_cases e : i = q.size
        · exact ⟨.loose, by simp [relocate_snd, e]⟩
        · obtain ⟨p, hp⟩ := (sh.covers i).1 (by omega)
          refine ⟨p, ?_⟩
          cases p with
          | free => rwa [relocate_fst fne]
          | loose =>
            rw [relocate_snd]
            exact List.mem_cons_of_mem _ hp
          | cell c => rwa [relocate_other (by simp) (by simp)]
      · rintro ⟨p, hp⟩
        have : i = q.size ∨ ∃ p, i ∈ held p := by
          cases p with
          | free =>
            rw [relocate_fst fne] at hp
            exact .inr ⟨_, hp⟩
          | loose =>
            rw [relocate_snd] at hp
            rcases List.mem_cons.1 hp with e | hp
            · exact .inl e
            · exact .inr ⟨_, hp⟩
          | cell c =>
            rw [relocate_other (by simp) (by simp)] at hp
            exact .inr ⟨_, hp⟩
        rcases this with rfl | hp
        · omega
        · have := (sh.covers i).2 hp
          omega
    · rw [relocate_other (by simp) (by simp)]
      refine (sh.lists c).frame (fun k hk => ?_) fun k hk => ?_
      · exact congrArg Entry.prev (same hk)
      · exact congrArg Entry.next (same hk)
    · rw [relocate_fst fne]
      exact sh.free.frame fun k hk => congrArg (fun e => freeRef (Entry.nextFree e)) (same hk)
    · rw [relocate_other (by simp) (by simp)] at hj
      show ((q.setEntry q.size {}).entries j).level = _ ∧
        ((q.setEntry q.size {}).entries j).slot = _
      rw [same hj]
      exact sh.cell hj
    · rw [relocate_other (by simp) (by simp)] at hj
      exact sh.bounds hj
    · rw [relocate_other (by simp) (by simp)]
      exact sh.occ c
  · -- the first of the free list
    simp only [h, ne_eq, not_false_iff, if_true]
    have fr := sh.free
    have e : freeRef q.freeHead = some (q.freeHead - 1) := by simp [freeRef, h]
    rw [e] at fr
    generalize hF : held .free = F' at fr
    cases fr with
    | @cons _ F fr =>
      obtain ⟨cus, cov⟩ := sh.relocate
        { q with freeHead := (q.entries (q.freeHead - 1)).nextFree }
        F ((q.freeHead - 1) :: held .loose) fne (by
          rw [hF]
          exact List.perm_middle) rfl
      refine ⟨F, ⟨cus, cov, fun c => ?_, ?_, fun {c j} hj => ?_, fun {c j} hj => ?_, fun c => ?_⟩,
        .inl List.mem_cons_self, fun k hk => List.mem_cons.1 hk⟩
      · rw [relocate_other (by simp) (by simp)]
        exact sh.lists c
      · rw [relocate_fst fne]
        exact fr
      · rw [relocate_other (by simp) (by simp)] at hj
        exact sh.cell hj
      · rw [relocate_other (by simp) (by simp)] at hj
        exact sh.bounds hj
      · rw [relocate_other (by simp) (by simp)]
        exact sh.occ c

end JLib.Timer
