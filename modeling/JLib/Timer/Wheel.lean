import JLib.Timer.Shape
import JLib.Timer.Events

/-!
# Placement and cascading

`InTime c d cl`: an entry with deadline `d` that is in cell `cl` comes up in time on a wheel that stands
at `c`. On level 0 it comes up exactly when it is due; above, its window opens no later than it is due.
`Place` puts an entry in time, a move of the wheel keeps every entry in time whose slot it does not step
over, and it puts the others in place again.
-/

namespace JLib.Timer
open LTS Links Bits Impl

variable {q : Impl} {held : Spot → List Nat} {c d t src : Int} {i l s : Nat} {cl : Nat × Nat}

def InTime (c d : Int) (cl : Nat × Nat) : Prop :=
  if cl.1 = 0 then eventAt c 0 cl.2 = max c d else eventAt c cl.1 cl.2 ≤ d

/-- A timer in time comes up by its deadline, or now if that is past. -/
lemma InTime.eventAt_le (h : InTime c d cl) : eventAt c cl.1 cl.2 ≤ max c d := by
  unfold InTime at h
  split at h
  next e =>
    rw [e]
    exact h.le
  next => exact h.trans (le_max_right c d)

/-! ## Placement -/

/-- The place by the distance of the deadline. -/
lemma placeOf_eq (c d : Int) :
    placeOf c d =
      if d - c ≤ 0 then (0, slotAt c 0)
      else if d - c < LevelGranularity 1 then (0, slotAt d 0)
      else if d - c < LevelGranularity 2 then (1, slotAt d 1)
      else if d - c < LevelGranularity 3 then (2, slotAt d 2)
      else if d - c < LevelGranularity 4 then (3, slotAt d 3)
      else (3, slotAt (c + kMaxTicks - 1) 3) := by
  unfold placeOf
  simp only [kLevels, List.range, List.range.loop, List.find?, Nat.reduceAdd]
  by_cases h0 : d - c ≤ 0
  · simp only [h0, if_true]
  simp only [h0, if_false]
  by_cases h1 : d - c < LevelGranularity 1
  · simp only [h1, decide_true, if_true]
  simp only [h1, decide_false, if_false]
  by_cases h2 : d - c < LevelGranularity 2
  · simp only [h2, decide_true, if_true]
  simp only [h2, decide_false, if_false]
  by_cases h3 : d - c < LevelGranularity 3
  · simp only [h3, decide_true, if_true]
  simp only [h3, decide_false, if_false]
  by_cases h4 : d - c < LevelGranularity 4
  · simp only [h4, decide_true, if_true]
  · simp only [h4, decide_false, if_false]

/-- The place is on the wheel. -/
lemma placeOf_bounds (c d : Int) : (placeOf c d).1 < 4 ∧ (placeOf c d).2 < 256 := by
  have h : ∀ t l, slotAt t l < 256 := fun _ _ => slotAt_lt
  rw [placeOf_eq]
  split_ifs <;> exact ⟨by simp, h _ _⟩

/-- A slot named by the bits of a tick within a turn comes up when that tick's window opens. -/
lemma eventAt_slotAt (hl : l ≠ 0) (h1 : c / LevelGranularity l < t / LevelGranularity l)
    (h2 : t / LevelGranularity l ≤ c / LevelGranularity l + 256) :
    eventAt c l (slotAt t l) = t / LevelGranularity l * LevelGranularity l := by
  have e : nextAt 256 (c / LevelGranularity l + 1) (slotAt t l) = t / LevelGranularity l := by
    apply nextAt_unique (by omega) (by omega)
    unfold slotAt kSlots
    omega
  unfold eventAt
  rw [if_neg hl, e]

/-- The window of a deadline that is between one granularity and a whole turn away. -/
lemma window_bounds {g : Int} (hg : 0 < g) (h1 : g ≤ t - c) (h2 : t - c ≤ 256 * g) :
    c / g < t / g ∧ t / g ≤ c / g + 256 := by
  constructor
  · have : c + g * 1 ≤ t := by omega
    have := Int.ediv_le_ediv hg this
    rw [Int.add_mul_ediv_left _ _ hg.ne'] at this
    omega
  · have : t ≤ c + g * 256 := by
      rw [mul_comm]
      omega
    have := Int.ediv_le_ediv hg this
    rw [Int.add_mul_ediv_left _ _ hg.ne'] at this
    omega

/-- `Place` chooses a cell in which the entry comes up in time. -/
lemma placeOf_inTime (c d : Int) : InTime c d (placeOf c d) := by
  have g0 : LevelGranularity 0 = 1 := rfl
  have g1 : LevelGranularity 1 = 256 := rfl
  have g2 : LevelGranularity 2 = 65536 := rfl
  have g3 : LevelGranularity 3 = 16777216 := rfl
  have g4 : LevelGranularity 4 = 4294967296 := rfl
  -- above level 0 the deadline is at least one granularity away and less than a turn
  have above : ∀ {l}, l ≠ 0 → LevelGranularity l ≤ d - c → d - c ≤ 256 * LevelGranularity l →
      InTime c d (l, slotAt d l) := by
    intro l hl h1 h2
    obtain ⟨h3, h4⟩ := window_bounds (LevelGranularity_pos l) h1 h2
    unfold InTime
    rw [if_neg hl, eventAt_slotAt hl h3 h4]
    exact Int.ediv_mul_le d (LevelGranularity_pos l).ne'
  rw [placeOf_eq]
  split
  next h =>
    have e : nextAt 256 c (slotAt c 0) = c := by
      apply nextAt_unique (by omega) (by omega)
      unfold slotAt kSlots
      rw [g0]
      omega
    unfold InTime eventAt
    simp only [if_true]
    rw [e]
    omega
  next h =>
    split
    next h1 =>
      have e : nextAt 256 c (slotAt d 0) = d := by
        apply nextAt_unique (by omega) (by omega)
        unfold slotAt kSlots
        rw [g0]
        omega
      unfold InTime eventAt
      simp only [if_true]
      rw [e]
      omega
    next h1 =>
      split
      next h2 => exact above (by decide) (by omega) (by omega)
      next h2 =>
        split
        next h3 => exact above (by decide) (by omega) (by omega)
        next h3 =>
          split
          next h4 => exact above (by decide) (by omega) (by omega)
          next h4 =>
            -- past the wheel: the far edge is before the deadline
            have far : kMaxTicks = 4294967296 := rfl
            have g3' := LevelGranularity_pos 3
            obtain ⟨h5, h6⟩ := window_bounds (c := c) (t := c + kMaxTicks - 1) g3'
              (by omega) (by omega)
            have le := Int.ediv_mul_le (c + kMaxTicks - 1) g3'.ne'
            unfold InTime
            rw [if_neg (by simp), eventAt_slotAt (by decide) h5 h6]
            omega

/-- A deadline that opens a window of the level it is placed on comes up exactly when it is due. -/
lemma eventAt_placeOf (far : d - c < kMaxTicks)
    (h : d % LevelGranularity (placeOf c d).1 = 0) :
    d ≤ eventAt c (placeOf c d).1 (placeOf c d).2 := by
  have g1 : LevelGranularity 1 = 256 := rfl
  have g2 : LevelGranularity 2 = 65536 := rfl
  have g3 : LevelGranularity 3 = 16777216 := rfl
  have g4 : LevelGranularity 4 = kMaxTicks := rfl
  have k4 : kMaxTicks = 4294967296 := rfl
  have hin := placeOf_inTime c d
  have above : ∀ l, l ≠ 0 → LevelGranularity l ≤ d - c → d - c ≤ 256 * LevelGranularity l →
      d % LevelGranularity l = 0 → d ≤ eventAt c l (slotAt d l) := by
    intro l hl h1 h2 e
    obtain ⟨h3, h4⟩ := window_bounds (LevelGranularity_pos l) h1 h2
    rw [eventAt_slotAt hl h3 h4, Int.ediv_mul_cancel (Int.dvd_of_emod_eq_zero e)]
  by_cases hl : (placeOf c d).1 = 0
  · unfold InTime at hin
    rw [if_pos hl] at hin
    rw [hl]
    omega
  · clear hin
    rw [placeOf_eq] at h hl ⊢
    split_ifs at h hl ⊢ with h0 h1 h2 h3 h4
    · exact absurd rfl hl
    · exact absurd rfl hl
    · exact above 1 (by decide) (by omega) (by omega) h
    · exact above 2 (by decide) (by omega) (by omega) h
    · exact above 3 (by decide) (by omega) (by omega) h
    · omega

/-! ## Cascading -/

/-- What a move of entries inside the wheel leaves alone: nothing is loose, nothing is freed. -/
structure Moved (q : Impl) (held : Spot → List Nat) (q' : Impl) (held' : Spot → List Nat) :
    Prop where
  shape : Shape q' held'
  loose : held' .loose = []
  free : held' .free = held .free
  kept : Kept q q'

/-- The forward link of an entry that `Link` does not place is as before. -/
lemma Link_next (ne : q.heads cl ≠ some i) {k : Nat} (hk : k ≠ i) :
    ((q.Link i cl.1 cl.2).entries k).next = (q.entries k).next := by
  rw [Link_entries ne]
  simp only [hk, if_false]
  split <;> rfl

/-- The loop of `Cascade` places every loose entry again. -/
lemma cascadeFrom_spec (fuel : Nat) {idx : Option Nat} {X : List Nat} (sh : Shape q held)
    (hX : held .loose = X) (sl : SList (fun k => (q.entries k).next) idx X)
    (len : X.length ≤ fuel) :
    ∃ held', Moved q held (cascadeFrom fuel q idx) held' ∧
      (∀ k ∈ X, k ∈ held' (.cell (placeOf q.currentTick (q.entries k).deadlineTick))) ∧
      ∀ cl k, k ∈ held (.cell cl) → k ∈ held' (.cell cl) := by
  induction fuel generalizing q held idx X with
  | zero =>
    have : X = [] := List.length_eq_zero_iff.1 (by omega)
    subst this
    exact ⟨held, ⟨sh, hX, rfl, Kept.refl q⟩, by simp, fun _ _ h => h⟩
  | succ fuel ih =>
    cases sl with
    | nil => exact ⟨held, ⟨sh, hX, rfl, Kept.refl q⟩, by simp, fun _ _ h => h⟩
    | @cons i X sl =>
      have hi : i ∈ held .loose := by simp [hX]
      have sh1 : Shape (q.clearLinks i) held := sh.setLoose hi _
      have ne : (q.clearLinks i).heads (placeOf q.currentTick (q.entries i).deadlineTick) ≠
          some i := sh1.head_ne hi
      have sh2 := sh1.link hX (placeOf_bounds q.currentTick (q.entries i).deadlineTick)
      have kept2 := clearLinks_kept.trans (Link_kept ne)
      have hd : ((q.clearLinks i).entries i).deadlineTick = (q.entries i).deadlineTick :=
        clearLinks_kept.deadlineTick i
      have cne : ∀ {cl}, Spot.cell cl ≠ .loose := by simp
      have nd : (i :: X).Nodup := hX ▸ sh.custody.nodup .loose
      have next2 : ∀ k ∈ X, (((q.clearLinks i).Link i
          (placeOf q.currentTick (q.entries i).deadlineTick).1
          (placeOf q.currentTick (q.entries i).deadlineTick).2).entries k).next =
          (q.entries k).next := by
        intro k hk
        have hki : k ≠ i := by
          rintro rfl
          exact (List.nodup_cons.1 nd).1 hk
        rw [Link_next ne hki, clearLinks_entries, if_neg hki]
      obtain ⟨held', mv, placed, stay⟩ := ih sh2 relocate_snd (sl.frame next2) (by simpa using len)
      have step : cascadeFrom (fuel + 1) q (some i) = cascadeFrom fuel
          ((q.clearLinks i).Link i (placeOf q.currentTick (q.entries i).deadlineTick).1
            (placeOf q.currentTick (q.entries i).deadlineTick).2) (q.entries i).next := by
        rw [cascadeFrom]
        simp only [Place, hd]
        rfl
      rw [step]
      refine ⟨held', ⟨mv.shape, mv.loose, ?_, kept2.trans mv.kept⟩, fun k hk => ?_,
        fun cl k hk => stay cl k ?_⟩
      · rw [mv.free, relocate_other (by simp) (by simp)]
      · rcases List.mem_cons.1 hk with rfl | hk
        · apply stay
          rw [relocate_fst cne]
          exact List.mem_cons_self
        · have := placed k hk
          rwa [kept2.currentTick, kept2.deadlineTick k] at this
      · by_cases e : cl = placeOf q.currentTick (q.entries i).deadlineTick
        · rw [e, relocate_fst cne]
          exact List.mem_cons_of_mem _ (e ▸ hk)
        · rwa [relocate_other (by simpa using e) cne]

/-- No list is longer than the table. -/
lemma Shape.length_le (sh : Shape q held) (p : Spot) : (held p).length ≤ q.size := by
  have sub : held p ⊆ List.range q.size := fun k hk =>
    List.mem_range.2 ((sh.covers k).2 ⟨p, hk⟩)
  have := ((sh.custody.nodup p).subperm sub).length_le
  simpa using this

/-- `Cascade` places the entries of one slot again and leaves the others where they are. -/
lemma Cascade_spec (sh : Shape q held) (hX : held .loose = []) (cl : Nat × Nat) :
    ∃ held', Moved q held (q.Cascade cl.1 cl.2) held' ∧
      (∀ k ∈ held (.cell cl),
        k ∈ held' (.cell (placeOf q.currentTick (q.entries k).deadlineTick))) ∧
      ∀ cl' k, cl' ≠ cl → k ∈ held (.cell cl') → k ∈ held' (.cell cl') := by
  have sh1 : Shape ((q.setHead cl.1 cl.2 none).MarkEmpty cl.1 cl.2) _ := sh.detach hX
  have sl : SList (fun k => (q.entries k).next) (q.heads cl) (held (.cell cl)) :=
    (sh.lists cl).toSList
  obtain ⟨held', mv, placed, stay⟩ :=
    cascadeFrom_spec q.size sh1 relocate_snd sl (sh.length_le _)
  refine ⟨held', ⟨mv.shape, mv.loose, ?_, ?_⟩, placed, fun cl' k ne hk => stay cl' k ?_⟩
  · rw [mv.free, relocate_other (by simp) (by simp)]
  · exact ⟨mv.kept.size, mv.kept.freeHead, mv.kept.currentTick, mv.kept.armedCount,
      mv.kept.deadlineTick, mv.kept.action, mv.kept.generation, mv.kept.nextFree⟩
  · rwa [relocate_other (by simpa using ne) (by simp)]

/-! ## Moving the wheel -/

/-- Nothing is moved. -/
lemma Moved.refl (sh : Shape q held) (hX : held .loose = []) : Moved q held q held :=
  ⟨sh, hX, rfl, Kept.refl q⟩

/-- One move after the other. -/
lemma Moved.trans {q q' q'' : Impl} {held held' held'' : Spot → List Nat}
    (m : Moved q held q' held') (m' : Moved q' held' q'' held'') : Moved q held q'' held'' :=
  ⟨m'.shape, m'.loose, m'.free.trans m.free, m.kept.trans m'.kept⟩

/-- Where the entries of a wheel come from that was moved to `t`: an entry was placed anew, or is where
it was and `stays` says that it could stay. -/
def Origin (t : Int) (q : Impl) (held held' : Spot → List Nat) (stays : Nat × Nat → Prop) : Prop :=
  ∀ cl k, k ∈ held' (.cell cl) →
    cl = placeOf t (q.entries k).deadlineTick ∨ (k ∈ held (.cell cl) ∧ stays cl)

/-- Cascading one slot. -/
lemma cascadeSlot_spec (sh : Shape q held) (hX : held .loose = []) (l s : Nat) :
    ∃ held', Moved q held (cascadeSlot l q s) held' ∧
      Origin q.currentTick q held held' fun cl => cl ≠ (l, s) := by
  unfold cascadeSlot
  split
  next h =>
    refine ⟨held, .refl sh hX, fun cl k hk => .inr ⟨hk, ?_⟩⟩
    rintro rfl
    have := (sh.lists (l, s)).start_eq
    rw [h] at this
    rw [List.head?_eq_none_iff.1 this.symm] at hk
    cases hk
  next h =>
    obtain ⟨held', mv, placed, stay⟩ := Cascade_spec sh hX (l, s)
    refine ⟨held', mv, fun cl k hk => ?_⟩
    have hlt : k < q.size := by
      rw [← mv.kept.size]
      exact (mv.shape.covers k).2 ⟨_, hk⟩
    obtain ⟨p, hp⟩ := (sh.covers k).1 hlt
    cases p with
    | free =>
      rw [← mv.free] at hp
      cases mv.shape.custody.unique hk hp
    | loose =>
      rw [hX] at hp
      cases hp
    | cell cl' =>
      by_cases e : cl' = (l, s)
      · subst e
        have := mv.shape.custody.unique hk (placed k hp)
        exact .inl (by injection this)
      · have := mv.shape.custody.unique hk (stay cl' k e hp)
        injection this with this
        subst this
        exact .inr ⟨hp, e⟩

/-- One move after another. -/
lemma Origin.trans {q' : Impl} {held' held'' : Spot → List Nat} {stays stays' : Nat × Nat → Prop}
    (kept : Kept q q') (o : Origin t q held held' stays) (o' : Origin t q' held' held'' stays') :
    Origin t q held held'' fun cl => stays cl ∧ stays' cl := by
  intro cl k hk
  rcases o' cl k hk with h | ⟨h, h'⟩
  · rw [kept.deadlineTick] at h
    exact .inl h
  · rcases o cl k h with h | ⟨h, hs⟩
    · exact .inl h
    · exact .inr ⟨h, hs, h'⟩

/-- An entry may stay where it might. -/
lemma Origin.mono {held' : Spot → List Nat} {stays stays' : Nat × Nat → Prop}
    (o : Origin t q held held' stays) (h : ∀ cl k, k ∈ held (.cell cl) → stays cl → stays' cl) :
    Origin t q held held' stays' := by
  intro cl k hk
  rcases o cl k hk with h' | ⟨hk', h'⟩
  · exact .inl h'
  · exact .inr ⟨hk', h cl k hk' h'⟩

/-- Cascading a list of slots of one level. -/
lemma cascadeSlots_spec (ss : List Nat) (sh : Shape q held) (hX : held .loose = []) (l : Nat) :
    ∃ held', Moved q held (ss.foldl (cascadeSlot l) q) held' ∧
      Origin q.currentTick q held held' fun cl => ∀ s ∈ ss, cl ≠ (l, s) := by
  induction ss generalizing q held with
  | nil => exact ⟨held, .refl sh hX, fun cl k hk => .inr ⟨hk, by simp⟩⟩
  | cons s ss ih =>
    obtain ⟨held1, mv1, o1⟩ := cascadeSlot_spec sh hX l s
    obtain ⟨held', mv, o⟩ := ih mv1.shape mv1.loose
    rw [mv1.kept.currentTick] at o
    refine ⟨held', mv1.trans mv, (o1.trans mv1.kept o).mono fun cl k _ h s' hs' => ?_⟩
    rcases List.mem_cons.1 hs' with rfl | hs'
    · exact h.1
    · exact h.2 s' hs'

/-- A slot that the move does not pass comes up after it. -/
lemma lt_eventAt_of_not_passed (hl : l ≠ 0) (hs : s < 256) (h : s ∉ passedSlots src t l) :
    t < eventAt src l s := by
  have hg := LevelGranularity_pos l
  unfold passedSlots at h
  unfold eventAt
  rw [if_neg hl]
  generalize hx : src / LevelGranularity l = x at *
  generalize hy : t / LevelGranularity l = y at *
  have h1 : x + 1 ≤ nextAt 256 (x + 1) s := le_nextAt (by decide)
  have h2 : nextAt 256 (x + 1) s % 256 = s % 256 := nextAt_emod
  generalize nextAt 256 (x + 1) s = z at *
  have lt : y < z := by
    by_contra le
    simp only at h
    split at h
    next hk => exact h (List.mem_range.2 hs)
    next hk =>
      apply h
      rw [List.mem_map]
      refine ⟨(z - x - 1).toNat, List.mem_range.2 (by omega), ?_⟩
      unfold kSlots
      omega
  have h3 := Int.lt_ediv_add_one_mul_self t hg
  rw [hy] at h3
  have h4 : (y + 1) * LevelGranularity l ≤ z * LevelGranularity l :=
    Int.mul_le_mul_of_nonneg_right (by omega) hg.le
  omega

/-- Coarser levels than one that did not move did not move either. -/
lemma eventAt_eq_of_same {l' : Nat} (hl : l ≠ 0) (hll : l ≤ l')
    (h : src / LevelGranularity l = t / LevelGranularity l) : eventAt src l' s = eventAt t l' s := by
  have hg : LevelGranularity l' = LevelGranularity l * 2 ^ (kSlotBits * (l' - l)) := by
    unfold LevelGranularity
    rw [← pow_add, ← Nat.mul_add]
    congr 2
    omega
  have hpos := (LevelGranularity_pos l).le
  have e : src / LevelGranularity l' = t / LevelGranularity l' := by
    rw [hg, ← Int.ediv_ediv_of_nonneg hpos, ← Int.ediv_ediv_of_nonneg hpos, h]
  unfold eventAt
  rw [if_neg (by omega), if_neg (by omega), e]

/-- The loop of `AdvanceTo`, from level `l` on. -/
lemma advanceLevels_spec (n : Nat) (hl : l ≠ 0) (hn : l + n = 4) (ht : q.currentTick = t)
    (sh : Shape q held) (hX : held .loose = []) :
    ∃ held', Moved q held (advanceLevels src t (List.range' l n) q) held' ∧
      Origin t q held held' fun cl => l ≤ cl.1 → t < eventAt src cl.1 cl.2 := by
  induction n generalizing l q held with
  | zero =>
    refine ⟨held, .refl sh hX, fun cl k hk => .inr ⟨hk, fun h => ?_⟩⟩
    have := (sh.bounds hk).1
    omega
  | succ n ih =>
    rw [List.range'_succ]
    unfold advanceLevels
    split
    next e =>
      refine ⟨held, .refl sh hX, fun cl k hk => .inr ⟨hk, fun h => ?_⟩⟩
      rw [eventAt_eq_of_same hl h e]
      exact lt_eventAt (by omega)
    next =>
      obtain ⟨held1, mv1, o1⟩ := cascadeSlots_spec (passedSlots src t l) sh hX l
      rw [ht] at o1
      obtain ⟨held', mv, o⟩ := ih (l := l + 1) (by omega) (by omega)
        (mv1.kept.currentTick.trans ht) mv1.shape mv1.loose
      refine ⟨held', mv1.trans mv, (o1.trans mv1.kept o).mono fun cl k hk h hle => ?_⟩
      by_cases e : cl.1 = l
      · rw [e]
        refine lt_eventAt_of_not_passed hl (sh.bounds hk).2 fun hp => h.1 cl.2 hp ?_
        rw [← e]
      · exact h.2 (by omega)

/-- A move of the wheel: an entry is placed anew, or its slot is not stepped over. -/
lemma AdvanceTo_spec (sh : Shape q held) (hX : held .loose = []) (ht : q.currentTick ≤ t) :
    ∃ held', Moved { q with currentTick := t } held (q.AdvanceTo t) held' ∧
      Origin t q held held' fun cl => cl.1 ≠ 0 → t < eventAt q.currentTick cl.1 cl.2 := by
  unfold AdvanceTo
  split
  next h =>
    have e : t = q.currentTick := by omega
    subst e
    exact ⟨held, .refl sh hX, fun cl k hk => .inr ⟨hk, fun hne => lt_eventAt hne⟩⟩
  next h =>
    have sh' : Shape { q with currentTick := t } held :=
      ⟨sh.custody, sh.covers, sh.lists, sh.free, sh.cell, sh.bounds, sh.occ⟩
    have levels : ∃ held', Moved { q with currentTick := t } held
        (advanceLevels q.currentTick t (List.range' 1 3) { q with currentTick := t }) held' ∧
        Origin t { q with currentTick := t } held held' fun cl =>
          1 ≤ cl.1 → t < eventAt q.currentTick cl.1 cl.2 :=
      advanceLevels_spec 3 (by decide) rfl rfl sh' hX
    obtain ⟨held', mv, o⟩ := levels
    refine ⟨held', mv, fun cl k hk => ?_⟩
    rcases o cl k hk with h' | ⟨hk', h'⟩
    · exact .inl h'
    · exact .inr ⟨hk', fun hne => h' (by omega)⟩

/-- Every entry of the wheel comes up in time. -/
def AllInTime (q : Impl) (held : Spot → List Nat) : Prop :=
  ∀ cl k, k ∈ held (.cell cl) → InTime q.currentTick (q.entries k).deadlineTick cl

/-- A move keeps every entry in time if it does so on level 0, where nothing is cascaded. -/
lemma AllInTime.advance {q' : Impl} {held' : Spot → List Nat} (all : AllInTime q held)
    (ht : q.currentTick ≤ t) (mv : Moved { q with currentTick := t } held q' held')
    (o : Origin t q held held' fun cl => cl.1 ≠ 0 → t < eventAt q.currentTick cl.1 cl.2)
    (level0 : ∀ s k, k ∈ held (.cell (0, s)) → InTime t (q.entries k).deadlineTick (0, s)) :
    AllInTime q' held' := by
  intro cl k hk
  rw [mv.kept.currentTick, mv.kept.deadlineTick]
  show InTime t (q.entries k).deadlineTick cl
  rcases o cl k hk with rfl | ⟨hk, h⟩
  · exact placeOf_inTime _ _
  by_cases hne : cl.1 = 0
  · have e : cl = (0, cl.2) := by
      rw [← hne]
    rw [e] at hk ⊢
    exact level0 _ k hk
  · have hin := all cl k hk
    unfold InTime at hin ⊢
    rw [if_neg hne] at hin ⊢
    rw [eventAt_stable ht (by rw [if_neg hne]; exact h hne)]
    exact hin

end JLib.Timer
