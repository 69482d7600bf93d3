import JLib.Timer.Wheel
import Mathlib.Data.Finset.Card

/-!
# The timer table

`Table q held` is the representation invariant: the shape, nothing loose, an entry is linked exactly when
its generation is odd, and the counter is the number of those. `Arm`, `Disarm`, moves of the wheel and
the firing loop keep it; each comes with what it does to the armed entries.
-/

namespace JLib.Timer
open LTS Links Bits Impl

variable {q q' : Impl} {held held' : Spot → List Nat} {c d t : Int} {i k n : Nat} {cl : Nat × Nat}

def Armed (q : Impl) (i : Nat) : Prop := (q.entries i).generation % 2 = 1

instance (q : Impl) (i : Nat) : Decidable (Armed q i) := by
  unfold Armed
  infer_instance

/-- The entries whose generation is odd. -/
def armed (q : Impl) : Finset Nat := (Finset.range q.size).filter (Armed q)

/-- An entry is armed when it is of the table and its generation is odd. -/
lemma mem_armed : i ∈ armed q ↔ i < q.size ∧ Armed q i := by
  simp [armed]

structure Table (q : Impl) (held : Spot → List Nat) : Prop where
  shape : Shape q held
  loose : held .loose = []
  parity : ∀ i < q.size, Armed q i ↔ ∃ cl, i ∈ held (.cell cl)
  count : q.armedCount = (armed q).card

/-- The armed entries are those in the slots. -/
lemma Table.mem_armed (tb : Table q held) : i ∈ armed q ↔ ∃ cl, i ∈ held (.cell cl) := by
  rw [Timer.mem_armed]
  constructor
  · rintro ⟨lt, ha⟩
    exact (tb.parity i lt).1 ha
  · rintro ⟨cl, hi⟩
    have lt := (tb.shape.covers i).2 ⟨_, hi⟩
    exact ⟨lt, (tb.parity i lt).2 ⟨cl, hi⟩⟩

/-- A move inside the wheel. -/
lemma Table.move (tb : Table q held) (mv : Moved q held q' held') : Table q' held' := by
  have same : ∀ i, Armed q' i ↔ Armed q i := by
    intro i
    unfold Armed
    rw [mv.kept.generation]
  refine ⟨mv.shape, mv.loose, fun i lt => ?_, ?_⟩
  · rw [mv.kept.size] at lt
    rw [same, tb.parity i lt]
    have somewhere : ∀ {h : Spot → List Nat} {qq : Impl}, Shape qq h → h .loose = [] →
        h .free = held .free → qq.size = q.size → ((∃ cl, i ∈ h (.cell cl)) ↔ i ∉ held .free) := by
      intro h qq sh hl hf hs
      constructor
      · rintro ⟨cl, hi⟩ hfree
        rw [← hf] at hfree
        cases sh.custody.unique hi hfree
      · intro out
        obtain ⟨p, hp⟩ := (sh.covers i).1 (hs ▸ lt)
        cases p with
        | free => exact absurd (hf ▸ hp) out
        | loose =>
          rw [hl] at hp
          cases hp
        | cell cl => exact ⟨cl, hp⟩
    rw [somewhere tb.shape tb.loose rfl rfl, somewhere mv.shape mv.loose mv.free mv.kept.size]
  · rw [mv.kept.armedCount, tb.count]
    congr 1
    ext i
    rw [Timer.mem_armed, Timer.mem_armed, mv.kept.size, same]

/-- The tick alone. -/
lemma Table.setTick (tb : Table q held) (t : Int) : Table { q with currentTick := t } held := by
  have sh := tb.shape
  exact ⟨⟨sh.custody, sh.covers, sh.lists, sh.free, sh.cell, sh.bounds, sh.occ⟩, tb.loose,
    tb.parity, tb.count⟩

/-- A move of the wheel places its entries anew and leaves a table. -/
lemma Table.advance (tb : Table q held) (ht : q.currentTick ≤ t) :
    ∃ held', Table (q.AdvanceTo t) held' ∧ Moved { q with currentTick := t } held (q.AdvanceTo t) held' ∧
      Origin t q held held' fun cl => cl.1 ≠ 0 → t < eventAt q.currentTick cl.1 cl.2 := by
  obtain ⟨held', mv, o⟩ := AdvanceTo_spec tb.shape tb.loose ht
  exact ⟨held', (tb.setTick t).move mv, mv, o⟩

/-! ## Retiring an entry -/

/-- What retiring entry `i` does to the fields of the table. -/
structure Retired (q q' : Impl) (i : Nat) : Prop where
  size : q'.size = q.size
  currentTick : q'.currentTick = q.currentTick
  generation : (q'.entries i).generation = ((q.entries i).generation + 1) % 2 ^ 32
  others : ∀ k ≠ i, (q'.entries k).deadlineTick = (q.entries k).deadlineTick ∧
    (q'.entries k).generation = (q.entries k).generation ∧
    (q'.entries k).action = (q.entries k).action

/-- What retiring does to the fields, for an entry of a slot. -/
lemma retire_fields (sh : Shape q held) (hi : i ∈ held (.cell cl)) :
    Retired q (q.retire i) i := by
  have kept := sh.unlink_kept hi
  refine ⟨kept.size, kept.currentTick, ?_, fun k hk => ?_⟩
  · simp [retire, bumpGeneration, ReleaseEntry, setEntry, kept.generation]
  · simp [retire, bumpGeneration, ReleaseEntry, setEntry, hk, kept.deadlineTick, kept.generation,
      kept.action]

/-- The entry that is retired is armed no more, and the others are. -/
lemma Retired.armed_eq (r : Retired q q' i) (hi : i ∈ armed q) : armed q' = (armed q).erase i := by
  ext k
  rw [Finset.mem_erase, mem_armed, mem_armed, r.size]
  by_cases e : k = i
  · subst e
    have : Armed q k := (mem_armed.1 hi).2
    unfold Armed at this ⊢
    rw [r.generation]
    simp only [ne_eq, not_true_eq_false, false_and, iff_false, not_and]
    intro _
    omega
  · unfold Armed
    rw [(r.others k e).2.1]
    simp [e]

/-- Retiring a linked entry moves it to the free list. -/
lemma Table.retire (tb : Table q held) {a b : List Nat} (hc : held (.cell cl) = a ++ i :: b) :
    ∃ held', Table (q.retire i) held' ∧ held' (.cell cl) = a ++ b ∧
      (∀ cl' ≠ cl, held' (.cell cl') = held (.cell cl')) ∧
      ∀ k ∈ b, ((q.retire i).entries k).next = (q.entries k).next := by
  have hi : i ∈ held (.cell cl) := by simp [hc]
  have cne : ∀ {cl}, Spot.cell cl ≠ .loose := by simp
  have cnf : ∀ {cl}, Spot.cell cl ≠ .free := by simp
  have fields := retire_fields tb.shape hi
  have hia : i ∈ armed q := tb.mem_armed.2 ⟨cl, hi⟩
  have sh1 := tb.shape.unlink hc
  have sh2 := sh1.setLoose (i := i) (by simp [relocate_snd])
    { (q.Unlink i).entries i with
      generation := (((q.Unlink i).entries i).generation + 1) % 2 ^ 32 }
  have sh3 : Shape (((q.Unlink i).bumpGeneration i).ReleaseEntry i) _ :=
    sh2.release (X := held .loose) relocate_snd
  have sh4 : Shape (q.retire i) _ := ⟨sh3.custody, sh3.covers, sh3.lists, sh3.free, sh3.cell,
    sh3.bounds, sh3.occ⟩
  generalize hh : Timer.relocate (Timer.relocate held (.cell cl) (a ++ b) .loose (i :: held .loose))
    .free _ .loose (held .loose) = held' at sh4
  have at_cl : held' (.cell cl) = a ++ b := by
    rw [← hh, relocate_other cnf cne, relocate_fst cne]
  have at_other : ∀ cl' ≠ cl, held' (.cell cl') = held (.cell cl') := by
    intro cl' ne
    rw [← hh, relocate_other cnf cne, relocate_other (by simpa using ne) cne]
  have hx : held' .loose = [] := by
    rw [← hh, relocate_snd]
    exact tb.loose
  have cells : ∀ k, (∃ cl', k ∈ held' (.cell cl')) ↔ k ≠ i ∧ ∃ cl', k ∈ held (.cell cl') := by
    intro k
    have out := (tb.shape.neighbours hc).2.2
    constructor
    · rintro ⟨cl', hk⟩
      by_cases e : cl' = cl
      · subst e
        rw [at_cl] at hk
        refine ⟨fun e => out (e ▸ hk), cl', ?_⟩
        rw [hc]
        rcases List.mem_append.1 hk with h | h
        · exact List.mem_append_left _ h
        · exact List.mem_append_right _ (List.mem_cons_of_mem _ h)
      · rw [at_other cl' e] at hk
        exact ⟨tb.shape.apart (by simpa using e) hk hi, cl', hk⟩
    · rintro ⟨ne, cl', hk⟩
      refine ⟨cl', ?_⟩
      by_cases e : cl' = cl
      · subst e
        rw [at_cl]
        rw [hc] at hk
        rcases List.mem_append.1 hk with h | h
        · exact List.mem_append_left _ h
        · rcases List.mem_cons.1 h with h | h
          · exact absurd h ne
          · exact List.mem_append_right _ h
      · rwa [at_other cl' e]
  have arm := fields.armed_eq hia
  refine ⟨held', ⟨sh4, hx, fun k lt => ?_, ?_⟩, at_cl, at_other, fun k hk => ?_⟩
  · have : Armed (q.retire i) k ↔ k ∈ armed (q.retire i) := by
      rw [Timer.mem_armed]
      exact ⟨fun h => ⟨lt, h⟩, And.right⟩
    rw [this, arm, Finset.mem_erase, tb.mem_armed, cells]
  · have e : (q.retire i).armedCount = q.armedCount - 1 := by
      have := (tb.shape.unlink_kept hi).armedCount
      simp [Impl.retire, bumpGeneration, ReleaseEntry, setEntry, this]
    rw [e, arm, Finset.card_erase_of_mem hia, tb.count]
  · have nd := tb.shape.custody.nodup (.cell cl)
    obtain ⟨hprev, -, out⟩ := tb.shape.neighbours hc
    obtain ⟨hpi, hni⟩ := tb.shape.neighbours_ne hc
    have hki : k ≠ i := fun e => out (e ▸ List.mem_append_right _ hk)
    have hp : (q.entries i).prev ≠ some k := by
      rw [hprev]
      intro e
      rw [hc] at nd
      exact (List.nodup_append.1 nd).2.2 k (List.mem_of_getLast? e) k
        (List.mem_cons_of_mem _ hk) rfl
    have : ((q.Unlink i).entries k).next = (q.entries k).next := by
      rw [Unlink_entries (tb.shape.cell hi).1 hpi hni]
      simp [hki, hp]
    simp [Impl.retire, bumpGeneration, ReleaseEntry, setEntry, hki, this]

/-! ## The firing loop -/

/-- What the firing loop does that has retired the entries `Y`. -/
structure Fired (q : Impl) (held : Spot → List Nat) (q' : Impl) (held' : Spot → List Nat)
    (Y : List Nat) : Prop where
  table : Table q' held'
  size : q'.size = q.size
  currentTick : q'.currentTick = q.currentTick
  due : ∀ k ∈ Y, (q.entries k).deadlineTick ≤ q.currentTick
  cells : ∀ cl k, k ∈ held' (.cell cl) ↔ k ∈ held (.cell cl) ∧ k ∉ Y
  others : ∀ k ∉ Y, (q'.entries k).deadlineTick = (q.entries k).deadlineTick ∧
    (q'.entries k).generation = (q.entries k).generation ∧
    (q'.entries k).action = (q.entries k).action

/-- The loop has fired nothing yet. -/
lemma Fired.refl (tb : Table q held) : Fired q held q held [] :=
  ⟨tb, rfl, rfl, by simp, by simp, fun _ _ => ⟨rfl, rfl, rfl⟩⟩

/-- The loop over the rest `X` of a slot's list retires the due entries of it, in order, and stops only
at the end of the list or when the batch is full. -/
lemma fireFrom_spec (fuel : Nat) {idx : Option Nat} {A X : List Nat} (tb : Table q held)
    (hc : held (.cell cl) = A ++ X) (sl : SList (fun k => (q.entries k).next) idx X)
    (len : X.length ≤ fuel) :
    ∃ held' Y, Fired q held (fireFrom fuel q idx n).1 held' Y ∧ Y.Sublist X ∧
      (fireFrom fuel q idx n).2 = Y.map q.due ∧ Y.length ≤ kBatch - n ∧
      (Y.length < kBatch - n → ∀ k ∈ X, k ∉ Y → q.currentTick < (q.entries k).deadlineTick) := by
  induction fuel generalizing q held idx A X n with
  | zero =>
    have : X = [] := List.length_eq_zero_iff.1 (by omega)
    subst this
    exact ⟨held, [], .refl tb, List.Sublist.refl _, rfl, by simp, by simp⟩
  | succ fuel ih =>
    cases sl with
    | nil => exact ⟨held, [], .refl tb, List.Sublist.refl _, rfl, by simp, by simp⟩
    | @cons i X sl =>
      have hi : i ∈ held (.cell cl) := by simp [hc]
      unfold fireFrom
      split
      next full =>
        split
        next hd =>
          -- the entry is due: it is retired and the loop goes on behind it
          obtain ⟨held1, tb1, at_cl, at_other, next1⟩ := tb.retire hc
          have fields := retire_fields tb.shape hi
          have nd : (i :: X).Nodup := by
            have nd := tb.shape.custody.nodup (.cell cl)
            rw [hc] at nd
            exact (List.nodup_append.1 nd).2.1
          have hiX := (List.nodup_cons.1 nd).1
          obtain ⟨held', Y, f, sub, he, hl, stop⟩ :=
            ih (n := n + 1) tb1 at_cl (sl.frame next1) (by simpa using len)
          have hiY : i ∉ Y := fun h => hiX (sub.subset h)
          refine ⟨held', i :: Y, ⟨f.table, f.size.trans fields.size,
            f.currentTick.trans fields.currentTick, fun k hk => ?_, fun cl' k => ?_,
            fun k hk => ?_⟩, sub.cons_cons i, ?_, ?_, fun lt k hk hkY => ?_⟩
          · rcases List.mem_cons.1 hk with rfl | hk
            · exact hd
            · have hki : k ≠ i := fun e => hiY (e ▸ hk)
              have := f.due k hk
              rwa [(fields.others k hki).1, fields.currentTick] at this
          · rw [f.cells]
            by_cases e : cl' = cl
            · subst e
              rw [at_cl, hc]
              have out := (tb.shape.neighbours hc).2.2
              by_cases hki : k = i
              · subst hki
                simp [out]
              · simp [hki]
            · rw [at_other cl' e]
              constructor
              · rintro ⟨hk, hkY⟩
                refine ⟨hk, List.not_mem_cons_of_ne_of_not_mem ?_ hkY⟩
                exact tb.shape.apart (by simpa using e) hk hi
              · rintro ⟨hk, hkY⟩
                exact ⟨hk, fun h => hkY (List.mem_cons_of_mem _ h)⟩
          · obtain ⟨hki, hkY⟩ := List.ne_and_not_mem_of_not_mem_cons hk
            obtain ⟨h1, h2, h3⟩ := f.others k hkY
            obtain ⟨h4, h5, h6⟩ := fields.others k hki
            exact ⟨h1.trans h4, h2.trans h5, h3.trans h6⟩
          · simp only [he, List.map_cons, List.cons.injEq, true_and]
            apply List.map_congr_left
            intro k hk
            have hki : k ≠ i := fun e => hiY (e ▸ hk)
            obtain ⟨h1, h2, h3⟩ := fields.others k hki
            unfold Impl.due
            rw [h1, h2, h3]
          · simp only [List.length_cons]
            omega
          · simp only [List.length_cons] at lt
            obtain ⟨hki, hkY⟩ := List.ne_and_not_mem_of_not_mem_cons hkY
            have hk : k ∈ X := (List.mem_cons.1 hk).resolve_left hki
            have := stop (by omega) k hk hkY
            rwa [fields.currentTick, (fields.others k hki).1] at this
        next hd =>
          obtain ⟨held', Y, f, sub, he, hl, stop⟩ :=
            ih (A := A ++ [i]) (n := n) tb (by simpa using hc) sl (by simpa using len)
          refine ⟨held', Y, f, sub.cons i, he, hl, fun lt k hk hkY => ?_⟩
          rcases List.mem_cons.1 hk with rfl | hk
          · omega
          · exact stop lt k hk hkY
      next full =>
        refine ⟨held, [], .refl tb, List.nil_sublist _, rfl, by simp, fun lt => ?_⟩
        simp only [List.length_nil] at lt
        omega

/-! ## Arm and Disarm -/

/-- What arming does: entry `i` is new among the armed ones and holds the deadline. -/
structure ArmedNow (q q' : Impl) (i : Nat) (d : Int) (a : Action) : Prop where
  currentTick : q'.currentTick = q.currentTick
  fresh : i ∉ armed q
  armed : armed q' = insert i (armed q)
  deadlineTick : (q'.entries i).deadlineTick = d
  action : (q'.entries i).action = some a
  others : ∀ k ≠ i, k < q.size → (q'.entries k).deadlineTick = (q.entries k).deadlineTick ∧
    (q'.entries k).generation = (q.entries k).generation ∧
    (q'.entries k).action = (q.entries k).action

/-- The entry `AcquireEntry` hands out, and what it leaves alone. -/
lemma AcquireEntry_fields (tb : Table q held) :
    q.AcquireEntry.1.currentTick = q.currentTick ∧ q.AcquireEntry.1.armedCount = q.armedCount ∧
    (q.AcquireEntry.1.entries q.AcquireEntry.2).generation % 2 = 0 ∧
    q.AcquireEntry.1.size = max q.size (q.AcquireEntry.2 + 1) ∧
    ∀ k < q.size, k ≠ q.AcquireEntry.2 → q.AcquireEntry.1.entries k = q.entries k := by
  obtain ⟨F, sh, whence, -⟩ := tb.shape.acquire
  unfold AcquireEntry at *
  by_cases h : q.freeHead = 0
  · simp only [h, ne_eq, not_true_eq_false, if_false] at *
    refine ⟨rfl, rfl, by simp [setEntry], by simp, fun k lt hk => ?_⟩
    simp [setEntry, hk]
  · simp only [h, ne_eq, not_false_iff, if_true] at *
    have free : q.freeHead - 1 ∈ held .free := by
      rcases whence with h' | h'
      · exact h'
      · -- the head of the free list is an entry of the table
        have := (sh.covers (q.freeHead - 1)).2 ⟨.loose, by simp [relocate_snd]⟩
        simp only at this
        omega
    have lt := (tb.shape.covers _).2 ⟨_, free⟩
    refine ⟨trivial, trivial, ?_, by omega, fun _ _ _ => trivial⟩
    have : ¬Armed q (q.freeHead - 1) := by
      rw [tb.parity _ lt]
      rintro ⟨cl, hi⟩
      cases tb.shape.custody.unique hi free
    unfold Armed at this
    omega

/-- `Arm`, once the wheel stands at the present. -/
lemma Table.arm (tb : Table q held) (d : Int) (a : Action) :
    ∃ held', Table (q.armEntry d a).1 held' ∧
      ArmedNow q (q.armEntry d a).1 (q.armEntry d a).2 d a ∧
      (q.armEntry d a).2 ∈ held' (.cell (placeOf q.currentTick d)) ∧
      ∀ cl k, k ≠ (q.armEntry d a).2 → (k ∈ held' (.cell cl) ↔ k ∈ held (.cell cl)) := by
  obtain ⟨F, sh1, whence, rest⟩ := tb.shape.acquire
  obtain ⟨htick, hcount, heven, hsize, hsame⟩ := AcquireEntry_fields tb
  generalize hq1 : q.AcquireEntry.1 = q1 at *
  generalize hi1 : q.AcquireEntry.2 = i at *
  rw [tb.loose] at sh1
  have cne : ∀ {cl}, Spot.cell cl ≠ .loose := by simp
  have cnf : ∀ {cl}, Spot.cell cl ≠ .free := by simp
  -- the entry is filled while it is loose, and then linked
  have hi : i ∈ Timer.relocate held .free F .loose [i] .loose := by simp [relocate_snd]
  have sh2 : Shape (q1.bumpGeneration i) _ := sh1.setLoose hi _
  have sh3 : Shape ((q1.bumpGeneration i).setEntry i
      { (q1.bumpGeneration i).entries i with deadlineTick := d, action := some a }) _ :=
    sh2.setLoose hi _
  generalize hq3 : (q1.bumpGeneration i).setEntry i
      { (q1.bumpGeneration i).entries i with deadlineTick := d, action := some a } = q3 at sh3
  have tick3 : q3.currentTick = q.currentTick := by
    rw [← hq3]
    exact htick
  have ne := sh3.head_ne (c := placeOf q3.currentTick d) hi
  have sh4 := sh3.link relocate_snd (placeOf_bounds q3.currentTick d)
  have kept := Link_kept ne
  generalize hh : Timer.relocate (Timer.relocate held .free F .loose [i]) _ _ .loose [] = held'
    at sh4
  have earm : q.armEntry d a = ({ q3.Link i (placeOf q3.currentTick d).1
      (placeOf q3.currentTick d).2 with
        armedCount := (q3.Link i (placeOf q3.currentTick d).1
          (placeOf q3.currentTick d).2).armedCount + 1 }, i) := by
    rw [← hq3, ← hi1, ← hq1]
    rfl
  have ent3 : ∀ k, q3.entries k = if k = i then
      { q1.entries i with
        generation := ((q1.entries i).generation + 1) % 2 ^ 32
        deadlineTick := d
        action := some a } else q1.entries k := by
    intro k
    rw [← hq3]
    by_cases e : k = i
    · subst e
      simp [setEntry, bumpGeneration]
    · simp [setEntry, bumpGeneration, e]
  have hnew : i ∉ armed q := by
    rw [tb.mem_armed]
    rintro ⟨cl, hi⟩
    rcases whence with h | h
    · cases tb.shape.custody.unique hi h
    · have := (tb.shape.covers i).2 ⟨_, hi⟩
      omega
  rw [earm]
  generalize hq4 : q3.Link i (placeOf q3.currentTick d).1 (placeOf q3.currentTick d).2 = q4 at *
  have size4 : q4.size = max q.size (i + 1) := by
    rw [kept.size, ← hq3]
    exact hsize
  have arm4 : armed { q4 with armedCount := q4.armedCount + 1 } = insert i (armed q) := by
    ext k
    rw [Finset.mem_insert, Timer.mem_armed, Timer.mem_armed]
    show k < q4.size ∧ (q4.entries k).generation % 2 = 1 ↔ _
    rw [kept.generation, ent3, size4]
    by_cases e : k = i
    · subst e
      simp only [if_true, true_or, iff_true]
      refine ⟨by omega, ?_⟩
      omega
    · simp only [e, if_false, false_or]
      constructor
      · rintro ⟨lt, h⟩
        -- an entry below the new size is an old one
        have lt' : k < q.size := by
          rcases whence with h' | h'
          · have := (tb.shape.covers i).2 ⟨_, h'⟩
            omega
          · omega
        rw [hsame k lt' e] at h
        exact ⟨lt', h⟩
      · rintro ⟨lt, h⟩
        rw [hsame k lt e]
        exact ⟨by omega, h⟩
  have cells : ∀ cl k, k ≠ i → (k ∈ held' (.cell cl) ↔ k ∈ held (.cell cl)) := by
    intro cl k hk
    rw [← hh]
    by_cases e : cl = placeOf q3.currentTick d
    · subst e
      rw [relocate_fst cne, relocate_other cnf cne, List.mem_cons]
      simp [hk]
    · rw [relocate_other (by simpa using e) cne, relocate_other cnf cne]
  have placed : i ∈ held' (.cell (placeOf q.currentTick d)) := by
    rw [← hh, ← tick3, relocate_fst cne]
    exact List.mem_cons_self
  have hloose : held' .loose = [] := by
    rw [← hh, relocate_snd]
  refine ⟨held', ⟨⟨sh4.custody, sh4.covers, sh4.lists, sh4.free, sh4.cell, sh4.bounds, sh4.occ⟩,
    hloose, fun k lt => ?_, ?_⟩, ⟨?_, hnew, arm4, ?_, ?_, fun k hk lt => ?_⟩, placed, cells⟩
  · have mem : Armed { q4 with armedCount := q4.armedCount + 1 } k ↔ k ∈ insert i (armed q) := by
      rw [← arm4, Timer.mem_armed]
      exact ⟨fun h => ⟨lt, h⟩, And.right⟩
    rw [mem, Finset.mem_insert, tb.mem_armed]
    by_cases e : k = i
    · subst e
      simp only [true_or, true_iff]
      exact ⟨_, placed⟩
    · simp only [e, false_or]
      constructor
      · rintro ⟨cl, h⟩
        exact ⟨cl, (cells cl k e).2 h⟩
      · rintro ⟨cl, h⟩
        exact ⟨cl, (cells cl k e).1 h⟩
  · show q4.armedCount + 1 = _
    have : q4.armedCount = q.armedCount := by
      rw [kept.armedCount, ← hq3]
      exact hcount
    rw [arm4, Finset.card_insert_of_notMem hnew, this, tb.count]
  · exact kept.currentTick.trans tick3
  · show (q4.entries i).deadlineTick = d
    rw [kept.deadlineTick, ent3]
    simp
  · show (q4.entries i).action = some a
    rw [kept.action, ent3]
    simp
  · show (q4.entries k).deadlineTick = _ ∧ (q4.entries k).generation = _ ∧
      (q4.entries k).action = _
    rw [kept.deadlineTick, kept.generation, kept.action, ent3]
    simp only [hk, if_false]
    rw [hsame k lt hk]
    exact ⟨rfl, rfl, rfl⟩

/-- `Disarm` leaves the table alone or retires the entry the handle names. -/
lemma Table.disarm (tb : Table q held) (h : TimerHandle) :
    ((q.Disarm h) = (q, false)) ∨
    ∃ held', q.Disarm h = (q.retire h.idx, true) ∧ h.idx ∈ Timer.armed q ∧
      (q.entries h.idx).generation = h.generation ∧ Table (q.retire h.idx) held' ∧
      Retired q (q.retire h.idx) h.idx ∧
      ∀ cl k, k ∈ held' (.cell cl) ↔ k ∈ held (.cell cl) ∧ k ≠ h.idx := by
  unfold Disarm
  split
  next => exact .inl rfl
  next hlt =>
    split
    next => exact .inl rfl
    next hg =>
      right
      have hgen : (q.entries h.idx).generation = h.generation := by
        by_contra ne
        exact hg (.inl ne)
      have arm : h.idx ∈ Timer.armed q := by
        rw [Timer.mem_armed]
        refine ⟨by omega, ?_⟩
        unfold Armed
        rw [hgen]
        have : ¬h.generation % 2 = 0 := fun e => hg (.inr e)
        omega
      obtain ⟨cl, hi⟩ := tb.mem_armed.1 arm
      obtain ⟨a, b, hab⟩ := List.append_of_mem hi
      obtain ⟨held', tb', at_cl, at_other, -⟩ := tb.retire hab
      refine ⟨held', rfl, arm, hgen, tb', retire_fields tb.shape hi, fun cl' k => ?_⟩
      have out := (tb.shape.neighbours hab).2.2
      by_cases e : cl' = cl
      · subst e
        rw [at_cl, hab]
        by_cases hk : k = h.idx
        · subst hk
          simp [out]
        · simp [hk]
      · rw [at_other cl' e]
        constructor
        · intro hk
          exact ⟨hk, tb.shape.apart (by simpa using e) hk hi⟩
        · exact And.left

end JLib.Timer
