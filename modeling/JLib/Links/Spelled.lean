import JLib.Links.Chain

/-!
# Lists and the places of their elements

Elements that go from one intrusive list to another, of which each element has one link. `Spells next place h pl`
says that the links from `h` spell, without repetition, the elements that are at `pl`. An element that is at no
list is free to have its link written.
-/

namespace Links

variable {K P : Type*}

/-- The links from `h` spell what is at `pl`. -/
def Spells (next : K → Option K) (place : K → P) (h : Option K) (pl : P) : Prop :=
  ∃ l, SList next h l ∧ l.Nodup ∧ ∀ k, k ∈ l ↔ place k = pl

namespace Spells
variable {next next' : K → Option K} {place place' : K → P} {h x : Option K} {pl q : P} {i : K}

/-- Nothing is at `pl`. -/
lemma empty (no : ∀ k, place k ≠ pl) : Spells next place none pl :=
  ⟨[], .nil, List.nodup_nil, fun k => ⟨fun h => absurd h List.not_mem_nil, fun h => absurd h (no k)⟩⟩

/-- A list without a start holds nothing. -/
lemma none_at (sp : Spells next place none pl) (k : K) : place k ≠ pl := by
  obtain ⟨l, sl, -, mem⟩ := sp
  cases sl
  intro e
  cases (mem k).2 e

/-- The start is in the list. -/
lemma start_at (sp : Spells next place (some i) pl) : place i = pl := by
  obtain ⟨l, sl, -, mem⟩ := sp
  cases sl
  exact (mem i).1 List.mem_cons_self

/-- The whole list changes its place. -/
lemma relabel (sp : Spells next place h pl) (same : ∀ k, place' k = q ↔ place k = pl) : Spells next place' h q := by
  obtain ⟨l, sl, nd, mem⟩ := sp
  refine ⟨l, sl, nd, fun k => ?_⟩
  rw [mem k, same k]

/-- The list holds what is placed in it. -/
lemma mem_iff (sp : Spells next place h pl) (k : K) : (∃ l, SList next h l ∧ k ∈ l) ↔ place k = pl := by
  obtain ⟨l, sl, -, mem⟩ := sp
  rw [← mem k]
  constructor
  · rintro ⟨l', sl', h⟩
    rwa [sl.unique sl']
  · exact fun h => ⟨l, sl, h⟩

variable [DecidableEq K]

/-- What happens to an element at other places does not matter. -/
lemma frame (sp : Spells next place h pl) (away : place i ≠ pl) (out : q ≠ pl) :
    Spells (Function.update next i x) (Function.update place i q) h pl := by
  obtain ⟨l, sl, nd, mem⟩ := sp
  have no : i ∉ l := fun hi => away ((mem i).1 hi)
  refine ⟨l, sl.frame fun k hk => ?_, nd, fun k => ?_⟩
  · have ne : k ≠ i := by
      rintro rfl
      exact no hk
    exact Function.update_of_ne ne ..
  · by_cases e : k = i
    · subst e
      rw [Function.update_self]
      exact ⟨fun hk => absurd hk no, fun e => absurd e out⟩
    · rw [Function.update_of_ne e]
      exact mem k

/-- The first element leaves. -/
lemma pop (sp : Spells next place (some i) pl) (out : q ≠ pl) :
    Spells (Function.update next i x) (Function.update place i q) (next i) pl := by
  obtain ⟨l, sl, nd, mem⟩ := sp
  cases sl with
  | @cons _ l sl =>
    obtain ⟨no, nd⟩ := List.nodup_cons.1 nd
    refine ⟨l, sl.frame fun k hk => ?_, nd, fun k => ?_⟩
    · have ne : k ≠ i := by
        rintro rfl
        exact no hk
      exact Function.update_of_ne ne ..
    · by_cases e : k = i
      · subst e
        rw [Function.update_self]
        exact ⟨fun hk => absurd hk no, fun e => absurd e out⟩
      · rw [Function.update_of_ne e, ← mem k, List.mem_cons]
        exact ⟨.inr, fun hk => hk.resolve_left e⟩

/-- An element whose link is the start becomes the start. -/
lemma push (sp : Spells next place h pl) (away : place i ≠ pl) (link : next i = h) :
    Spells next (Function.update place i pl) (some i) pl := by
  obtain ⟨l, sl, nd, mem⟩ := sp
  have no : i ∉ l := fun hi => away ((mem i).1 hi)
  refine ⟨i :: l, ?_, List.nodup_cons.2 ⟨no, nd⟩, fun k => ?_⟩
  · apply SList.cons
    rw [link]
    exact sl
  · rw [List.mem_cons]
    by_cases e : k = i
    · subst e
      rw [Function.update_self]
      exact ⟨fun _ => rfl, fun _ => .inl rfl⟩
    · rw [Function.update_of_ne e, mem k]
      exact ⟨fun hk => hk.resolve_left e, .inr⟩

end Spells
end Links
