import JLib.Timer.Queue

/-!
# Generations

What the operations of the wheel do to the generations of its entries: links do not touch them, retiring
an entry and arming it add one each. With that, what a pass of `Run` does on any wheel, also on one that
has stepped over a timer: it takes out entries whose deadline has come, each with its generation raised,
and the other timers stay as they are.
-/

namespace JLib.Timer
open LTS Links Bits Impl

variable {q q' : Impl} {held held' : Spot → List Nat} {t now d : Int} {i k l s : Nat} {a : Action}

/-- Unlinking leaves the generations. -/
lemma Unlink_generation (q : Impl) (i k : Nat) :
    ((q.Unlink i).entries k).generation = (q.entries k).generation := by
  unfold Unlink
  simp only
  split
  next => rfl
  next l _ =>
    have links : ((((q.bypassBack (q.entries i) l).bypassFront (q.entries i)).clearLinks i).entries
        k).generation = (q.entries k).generation := by
      rw [clearLinks_kept.generation, bypassFront_entries]
      have back : ((q.bypassBack (q.entries i) l).entries k).generation =
          (q.entries k).generation := by
        rw [bypassBack_entries]
        split
        · rfl
        · rfl
      split
      · exact back
      · exact back
    split
    · exact links
    · exact links

/-- Linking leaves the generations. -/
lemma Link_generation (q : Impl) (i l s k : Nat) :
    ((q.Link i l s).entries k).generation = (q.entries k).generation := by
  have fill : ∀ next, ((q.setEntry i { q.entries i with
      level := some l, slot := s, prev := none, next := next }).entries k).generation =
        (q.entries k).generation := by
    intro next
    unfold setEntry
    simp only [Function.update_apply]
    split
    next e => rw [e]
    next => rfl
  unfold Link
  simp only
  cases q.heads (l, s) with
  | none => exact fill none
  | some n =>
    refine Eq.trans ?_ (fill (some n))
    simp only [MarkOccupied, setOcc, setHead, setEntry]
    rw [Function.update_apply]
    split
    next e => rw [e]
    next => rfl

/-- Retiring counts the generation of the entry up, and no other. -/
lemma retire_generation (q : Impl) (i k : Nat) :
    ((q.retire i).entries k).generation =
      if k = i then ((q.entries i).generation + 1) % 2 ^ 32 else (q.entries k).generation := by
  unfold retire bumpGeneration ReleaseEntry setEntry
  simp only [Function.update_apply]
  split
  · simp only [Unlink_generation, if_true]
  · rw [Unlink_generation]

/-- The firing loop raises the generations of what it collects, once if it collects it once. -/
lemma fireFrom_generation (fuel : Nat) (q : Impl) (idx : Option Nat) (n k : Nat)
    (once : ((fireFrom fuel q idx n).2.map Due.idx).Nodup) :
    ((fireFrom fuel q idx n).1.entries k).generation =
      if k ∈ (fireFrom fuel q idx n).2.map Due.idx then ((q.entries k).generation + 1) % 2 ^ 32
      else (q.entries k).generation := by
  induction fuel generalizing q idx n with
  | zero => rfl
  | succ fuel ih =>
    cases idx with
    | none => rfl
    | some i =>
      unfold fireFrom at once ⊢
      split at once
      next full =>
        rw [if_pos full]
        split at once
        next hd =>
          rw [if_pos hd]
          simp only [List.map_cons, List.nodup_cons] at once
          obtain ⟨out, once⟩ := once
          rw [ih _ _ _ once]
          simp only [List.map_cons, List.mem_cons]
          rw [retire_generation]
          by_cases e : k = i
          · subst e
            have out' : k ∉ (fireFrom fuel (q.retire k) (q.entries k).next (n + 1)).2.map Due.idx := out
            rw [if_neg out', if_pos rfl, if_pos (.inl rfl)]
          · have ne : k ≠ (q.due i).idx := e
            simp only [if_neg e, ne, false_or]
        next hd =>
          rw [if_neg hd]
          exact ih _ _ _ once
      next full =>
        rw [if_neg full]
        rfl

/-! ## Arming -/

/-- An entry is taken from the free list as it is, or is new with generation zero. -/
lemma AcquireEntry_generation (tb : Table q held) :
    (q.AcquireEntry.2 < q.size ∧
      (q.AcquireEntry.1.entries q.AcquireEntry.2).generation =
        (q.entries q.AcquireEntry.2).generation) ∨
    q.AcquireEntry.2 = q.size ∧
      (q.AcquireEntry.1.entries q.AcquireEntry.2).generation = 0 := by
  unfold AcquireEntry
  by_cases h : q.freeHead = 0
  · rw [if_neg (by simpa using h)]
    exact .inr ⟨rfl, by simp [setEntry]⟩
  · rw [if_pos h]
    refine .inl ⟨?_, rfl⟩
    -- the head of the free list is an entry of the table
    obtain ⟨F, sh, whence, -⟩ := tb.shape.acquire
    unfold AcquireEntry at sh whence
    rw [if_pos h] at sh
    have := (sh.covers (q.freeHead - 1)).2 ⟨.loose, by simp [relocate_snd]⟩
    exact this

/-- Arming counts the generation of the entry that was acquired up once more. -/
lemma armEntry_generation (q : Impl) (d : Int) (a : Action) :
    ((q.armEntry d a).1.entries (q.armEntry d a).2).generation =
      ((q.AcquireEntry.1.entries q.AcquireEntry.2).generation + 1) % 2 ^ 32 := by
  unfold armEntry Place
  simp only
  rw [Link_generation]
  simp [bumpGeneration, setEntry]

/-- Past the acquisition the table does not grow. -/
lemma armEntry_size (q : Impl) (d : Int) (a : Action) :
    (q.armEntry d a).1.size = q.AcquireEntry.1.size := by
  unfold armEntry Place
  simp only
  rw [Link_rest.1]
  rfl

/-! ## A move of the wheel to the clock -/

/-- A timer is the same as itself. -/
lemma SameTimer.rfl : SameTimer q q k := ⟨Eq.refl _, Eq.refl _, Eq.refl _⟩

/-- What a move of the wheel leaves as it is. -/
lemma Table.moveTo (tb : Table q held) (t : Int) :
    ∃ held', Table (q.AdvanceTo t) held' ∧ armed (q.AdvanceTo t) = armed q ∧
      (q.AdvanceTo t).size = q.size ∧ (q.AdvanceTo t).currentTick = max q.currentTick t ∧
      ∀ k, SameTimer q (q.AdvanceTo t) k := by
  by_cases h : q.currentTick ≤ t
  · obtain ⟨held', tb', mv, -⟩ := tb.advance h
    refine ⟨held', tb', ?_, mv.kept.size, ?_, fun k =>
      ⟨mv.kept.deadlineTick k, mv.kept.generation k, mv.kept.action k⟩⟩
    · ext k
      rw [Timer.mem_armed, Timer.mem_armed]
      unfold Armed
      rw [mv.kept.generation, mv.kept.size]
    · rw [mv.kept.currentTick]
      exact (max_eq_right h).symm
  · have e : q.AdvanceTo t = q := by
      unfold AdvanceTo
      rw [if_pos (by omega)]
    rw [e]
    exact ⟨held, tb, Eq.refl _, Eq.refl _, by omega, fun k => .rfl⟩

/-! ## A pass on any wheel -/

/-- What the pass collected to be fired. -/
def Impl.Pass.batch : Pass → List Due
  | .fire _ batch => batch
  | _ => []

/-- What a pass at `now` does that has fired the entries `Y`. -/
structure Passed (q q' : Impl) (now : Int) (Y : List Nat) : Prop where
  nodup : Y.Nodup
  due : ∀ k ∈ Y, k ∈ armed q ∧ (q.entries k).deadlineTick ≤ now
  armed : armed q' = armed q \ Y.toFinset
  size : q'.size = q.size
  fired : ∀ k ∈ Y, (q'.entries k).generation = ((q.entries k).generation + 1) % 2 ^ 32
  others : ∀ k ∉ Y, SameTimer q q' k

/-- What a pass collects is what stood in the entries it fired. -/
lemma Table.passed (tb : Table q held) (h0 : 0 ≤ q.currentTick) (now : Int) :
    ∃ Y, (q.RunPass now).2.batch = Y.map q.due ∧ Passed q (q.RunPass now).1 now Y := by
  have idle : ∀ {q' : Impl}, armed q' = armed q → q'.size = q.size → (∀ k, SameTimer q q' k) →
      Passed q q' now [] := by
    intro q' arm size same
    refine ⟨List.nodup_nil, nofun, ?_, size, nofun, fun k _ => same k⟩
    rw [arm, List.toFinset_nil, Finset.sdiff_empty]
  unfold RunPass
  simp only
  split
  · exact ⟨[], Eq.refl _, idle (Eq.refl _) (Eq.refl _) fun k => .rfl⟩
  split
  · exact ⟨[], Eq.refl _, idle (Eq.refl _) (Eq.refl _) fun k => .rfl⟩
  next pos hnow =>
  have le : max q.currentTick q.NextEventTick ≤ now := by
    rcases tb.nextEvent h0 with ⟨e, -⟩ | ⟨⟨cl, k, -, e⟩, -, -⟩
    · omega
    · have : q.currentTick ≤ q.NextEventTick := by
        rw [e]
        exact le_eventAt
      omega
  obtain ⟨held1, tb1, arm1, size1, tick1, same1⟩ := tb.moveTo q.NextEventTick
  generalize q.AdvanceTo q.NextEventTick = q1 at *
  have dueq : q1.due = q.due := by
    funext k
    obtain ⟨h1, h2, h3⟩ := same1 k
    unfold Impl.due
    rw [h1, h2, h3]
  obtain ⟨held2, Y, f, sub, he, -⟩ := tb1.fireSlot
  have idxs : (fireFrom q1.size q1 (q1.heads (0, slotAt q1.currentTick 0)) 0).2.map Due.idx = Y := by
    rw [he, List.map_map]
    exact List.map_id _
  have nodup := sub.nodup (tb1.shape.custody.nodup _)
  have gens := fireFrom_generation q1.size q1 (q1.heads (0, slotAt q1.currentTick 0)) 0
  simp only [idxs, nodup, forall_const] at gens
  generalize fireFrom q1.size q1 (q1.heads (0, slotAt q1.currentTick 0)) 0 = res at *
  have arm2 : armed res.1 = armed q \ Y.toFinset := by
    rw [← arm1]
    refine armed_eq_of_cells tb1 f.table fun k => ?_
    simp only [f.cells, exists_and_right]
  have same2 : ∀ k ∉ Y, SameTimer q res.1 k := by
    intro k hk
    obtain ⟨h1, h2, h3⟩ := f.others k hk
    obtain ⟨h4, h5, h6⟩ := same1 k
    exact ⟨h1.trans h4, h2.trans h5, h3.trans h6⟩
  split
  next nothing =>
    have none : Y = [] := by
      rw [he] at nothing
      simpa using nothing
    subst none
    rw [List.toFinset_nil, Finset.sdiff_empty] at arm2
    exact ⟨[], Eq.refl _, idle arm2 (f.size.trans size1) fun k => same2 k (List.not_mem_nil)⟩
  next =>
    rw [dueq] at he
    refine ⟨Y, he, nodup, fun k hk => ⟨?_, ?_⟩, arm2, f.size.trans size1, fun k hk => ?_, same2⟩
    · rw [← arm1]
      exact tb1.mem_armed.2 ⟨_, sub.subset hk⟩
    · have hd := f.due k hk
      rw [(same1 k).1, tick1] at hd
      exact hd.trans le
    · rw [gens k, if_pos hk, (same1 k).2.1]

end JLib.Timer
