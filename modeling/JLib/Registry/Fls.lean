import JLib.LTS.Custody
import JLib.LTS.Runs
import Mathlib.Algebra.Order.Ring.Nat
import Mathlib.Data.List.Pairwise

/-!
# Fiber-local slots

`FiberRegistry::FlsAlloc` of `src/FiberRegistry.cpp`: a `fetch_add` on a 16-bit counter that every call makes, and a
test of what it returned. A call begins, draws its number and returns in three steps. The number of the draw and
whether `kNoSlot` had been returned when the call began are read by no step.
-/

namespace JLib.Registry.Fls
open LTS

/-- `Fiber::kLocalSlots`. -/
def kLocalSlots : Nat := 8

def kNoSlot : Nat := 0xFFFF

/-- What a call returns that has fetched `s`. -/
def slotOf (s : Nat) : Nat := if s ≥ kLocalSlots then kNoSlot else s

inductive Pc where
  | idle
  | called (late : Bool)
  | fetched (late : Bool) (s draw : Nat)

structure Result where
  slot : Nat
  late : Bool
  draw : Nat

structure State (τ : Type) where
  g_nextFlsSlot : Nat := 0
  pc : τ → Pc := fun _ => .idle
  results : List Result := []
  draws : Nat := 0

variable {τ : Type} [DecidableEq τ]

namespace State

def goto (s : State τ) (t : τ) (c : Pc) : State τ := { s with pc := Function.update s.pc t c }

/-- A call has returned `kNoSlot`. -/
def refused (s : State τ) : Bool := s.results.any fun r => r.slot == kNoSlot

end State

inductive Label (τ : Type) where
  | call (t : τ)
  | fetch (t : τ)
  | ret (t : τ)

inductive Step : State τ → Label τ → State τ → Prop where
  | call {s : State τ} {t} :
    s.pc t = .idle →
    Step s (.call t) (s.goto t (.called s.refused))
  | fetch {s : State τ} {t late} :
    s.pc t = .called late →
    Step s (.fetch t)
      ({ s with g_nextFlsSlot := (s.g_nextFlsSlot + 1) % 2 ^ 16, draws := s.draws + 1 }.goto t
        (.fetched late s.g_nextFlsSlot s.draws))
  | ret {s : State τ} {t late v n} :
    s.pc t = .fetched late v n →
    Step s (.ret t) ({ s with results := ⟨slotOf v, late, n⟩ :: s.results }.goto t .idle)

/-- Results other than `kNoSlot` are distinct and below `kLocalSlots`, and once it has been returned, a call that
begins returns it. -/
structure Unique (s : State τ) : Prop where
  distinct : s.results.Pairwise fun r r' => r.slot ≠ kNoSlot → r.slot ≠ r'.slot
  below : ∀ r ∈ s.results, r.slot ≠ kNoSlot → r.slot < kLocalSlots
  last : ∀ r ∈ s.results, r.late = true → r.slot = kNoSlot

/-! ## The draws -/

/-- The draw of a call that has not returned. -/
def Pc.drawn : Pc → List Nat
  | fetched _ _ n => [n]
  | _ => []

/-- The draws of the calls that returned, and that of each thread. -/
def State.held (s : State τ) : Option τ → List Nat
  | none => s.results.map Result.draw
  | some t => (s.pc t).drawn

/-- A call with a smaller draw has returned `kNoSlot`. -/
def State.After (s : State τ) (n : Nat) : Prop := ∃ r ∈ s.results, r.slot = kNoSlot ∧ r.draw < n

/-- Where a call can be: it has fetched its draw modulo 2^16, and if it began late, a smaller draw was refused. -/
inductive Fine (s : State τ) : Pc → Prop where
  | idle : Fine s .idle
  | called {late} :
    (late = true → s.After s.draws) →
    Fine s (.called late)
  | fetched {late n} :
    (late = true → s.After n) →
    Fine s (.fetched late (n % 2 ^ 16) n)

/-- Every draw is with one call, which has fetched its number modulo 2^16. -/
structure Sound (s : State τ) : Prop where
  counter : s.g_nextFlsSlot = s.draws % 2 ^ 16
  custody : Custody s.held
  covers : ∀ n, n < s.draws ↔ ∃ p, n ∈ s.held p
  calls : ∀ t, Fine s (s.pc t)
  slot : ∀ r ∈ s.results, r.slot = slotOf (r.draw % 2 ^ 16)
  late : ∀ r ∈ s.results, r.late = true → s.After r.draw

variable {s u : State τ} {a : Label τ} {t : τ} {c : Pc}

omit [DecidableEq τ] in
/-- A refusal stays in the past. -/
lemma State.After.mono {n m : Nat} (af : s.After n) (sub : s.results ⊆ u.results) (le : n ≤ m) : u.After m := by
  obtain ⟨r, mem, last, lt⟩ := af
  exact ⟨r, sub mem, last, Nat.lt_of_lt_of_le lt le⟩

omit [DecidableEq τ] in
/-- A call stays where it can be. -/
lemma Fine.mono (fine : Fine s c) (sub : s.results ⊆ u.results) (le : s.draws ≤ u.draws) : Fine u c := by
  cases fine with
  | idle => exact .idle
  | called af => exact .called fun e => (af e).mono sub le
  | fetched af => exact .fetched fun e => (af e).mono sub (Nat.le_refl _)

omit [DecidableEq τ] in
/-- Nothing was drawn yet. -/
lemma Sound.init : Sound ({} : State τ) := by
  refine ⟨rfl, .empty ?_, ?_, fun t => .idle, nofun, nofun⟩
  · rintro (_ | t)
    · rfl
    · rfl
  · intro n
    constructor
    · intro lt
      exact absurd lt (Nat.not_lt_zero n)
    · rintro ⟨_ | t, mem⟩
      · cases mem
      · cases mem

omit [DecidableEq τ] in
/-- A refusal is among the results. -/
lemma State.refused_iff : s.refused = true ↔ ∃ r ∈ s.results, r.slot = kNoSlot := by
  simp only [refused, List.any_eq_true, beq_iff_eq]

/-- The draws of the others are left. -/
lemma held_goto_other {p : Option τ} (ne : p ≠ some t) (ne' : p ≠ none) (e : u.pc = s.pc) :
    (u.goto t c).held p = s.held p := by
  cases p with
  | none => exact absurd rfl ne'
  | some t' =>
    have other : t' ≠ t := fun e => ne (e ▸ rfl)
    show (Function.update u.pc t c t').drawn = _
    rw [Function.update_of_ne other, e]
    rfl

/-- The draw of the thread that steps. -/
lemma held_goto_self : (u.goto t c).held (some t) = c.drawn := by
  show (Function.update u.pc t c t).drawn = _
  rw [Function.update_self]

/-- What holds of all threads holds after one of them has moved. -/
lemma goto_pc {P : Pc → Prop} (all : ∀ t, P (u.pc t)) (new : P c) (t' : τ) : P ((u.goto t c).pc t') := by
  show P (Function.update u.pc t c t')
  by_cases e : t' = t
  · subst e
    rwa [Function.update_self]
  · rw [Function.update_of_ne e]
    exact all t'

omit [DecidableEq τ] in
/-- A call has returned a draw that was made before. -/
lemma Sound.drawn (so : Sound s) {r : Result} (mem : r ∈ s.results) : r.draw < s.draws :=
  (so.covers _).2 ⟨none, List.mem_map_of_mem mem⟩

/-- A step keeps every draw with one call. -/
lemma Sound.step (so : Sound s) (st : Step s a u) : Sound u := by
  cases st with
  | @call t h =>
    have same : ∀ p, (s.goto t (.called s.refused)).held p = s.held p := by
      intro p
      by_cases e : p = some t
      · subst e
        rw [held_goto_self]
        show _ = (s.pc t).drawn
        rw [h]
        rfl
      · cases p with
        | none => rfl
        | some t' => exact held_goto_other e nofun rfl
    refine ⟨so.counter, so.custody.congr same, fun n => ?_, ?_, so.slot, so.late⟩
    · simp only [same]
      exact so.covers n
    · refine goto_pc (fun t' => (so.calls t').mono (List.Subset.refl _) (Nat.le_refl _)) (.called fun e => ?_)
      obtain ⟨r, mem, last⟩ := State.refused_iff.1 e
      exact ⟨r, mem, last, so.drawn mem⟩
  | @fetch t late h =>
    generalize hv : ({ s with g_nextFlsSlot := _, draws := _ } : State τ) = v
    have results : v.results = s.results := hv ▸ rfl
    have draws : v.draws = s.draws + 1 := hv ▸ rfl
    have pc : v.pc = s.pc := hv ▸ rfl
    have counter : v.g_nextFlsSlot = (s.g_nextFlsSlot + 1) % 2 ^ 16 := hv ▸ rfl
    have fine : ∀ {c}, Fine s c → Fine v c := fun h => h.mono (results ▸ List.Subset.refl _) (draws ▸ Nat.le_succ _)
    -- the draw is new, and with the thread
    have other : ∀ p, p ≠ some t → (v.goto t (.fetched late s.g_nextFlsSlot s.draws)).held p = s.held p := by
      intro p ne
      cases p with
      | none => exact congrArg (List.map Result.draw) results
      | some t' => exact held_goto_other ne nofun pc
    have none : s.held (some t) = [] := by
      show (s.pc t).drawn = []
      rw [h]
      rfl
    have new : ∀ p, s.draws ∉ s.held p := by
      intro p mem
      exact absurd ((so.covers _).2 ⟨p, mem⟩) (Nat.lt_irrefl _)
    refine ⟨?_, so.custody.put (p := some t) new other ?_, fun n => ?_, goto_pc ?_ ?_, ?_, ?_⟩
    · show v.g_nextFlsSlot = v.draws % 2 ^ 16
      rw [counter, draws, so.counter, Nat.mod_add_mod]
    · rw [held_goto_self, none]
      exact .refl _
    · show n < v.draws ↔ _
      rw [draws]
      constructor
      · intro lt
        rcases Nat.lt_succ_iff_lt_or_eq.1 lt with lt | rfl
        · obtain ⟨p, mem⟩ := (so.covers n).1 lt
          refine ⟨p, ?_⟩
          by_cases e : p = some t
          · subst e
            rw [none] at mem
            cases mem
          · rwa [other p e]
        · refine ⟨some t, ?_⟩
          rw [held_goto_self]
          exact List.mem_singleton_self _
      · rintro ⟨p, mem⟩
        by_cases e : p = some t
        · subst e
          rw [held_goto_self] at mem
          rw [List.mem_singleton.1 mem]
          exact Nat.lt_succ_self _
        · rw [other p e] at mem
          exact Nat.lt_succ_of_lt ((so.covers n).2 ⟨p, mem⟩)
    · intro t'
      rw [pc]
      exact (fine (so.calls t')).mono (List.Subset.refl _) (Nat.le_refl _)
    · have called := h ▸ so.calls t
      rw [so.counter]
      cases called with
      | called af => exact .fetched fun e => (af e).mono (results ▸ List.Subset.refl _) (Nat.le_refl _)
    · show ∀ r ∈ v.results, _
      rw [results]
      exact so.slot
    · show ∀ r ∈ v.results, _
      rw [results]
      exact fun r mem e => (so.late r mem e).mono (results ▸ List.Subset.refl _) (Nat.le_refl _)
  | @ret t late v n h =>
    have called := h ▸ so.calls t
    cases called with
    | @fetched _ _ af =>
    generalize hr : (⟨slotOf (n % 2 ^ 16), late, n⟩ : Result) = r
    generalize hv : ({ s with results := r :: s.results } : State τ) = v
    have results : v.results = r :: s.results := hv ▸ rfl
    have draws : v.draws = s.draws := hv ▸ rfl
    have pc : v.pc = s.pc := hv ▸ rfl
    have more : s.results ⊆ v.results := results ▸ List.subset_cons_self _ _
    -- the draw goes from the thread to the results
    have first : (v.goto t .idle).held none = n :: s.held none := by
      show v.results.map Result.draw = _
      rw [results, ← hr]
      rfl
    have mine : s.held (some t) = [n] := by
      show (s.pc t).drawn = [n]
      rw [h]
      rfl
    have perm : ((v.goto t .idle).held none ++ (v.goto t .idle).held (some t)).Perm
      (s.held none ++ s.held (some t)) := by
      rw [first, held_goto_self, mine]
      show (n :: s.held none ++ []).Perm _
      rw [List.append_nil]
      exact (List.perm_append_singleton n _).symm
    have frame : ∀ p, p ≠ none → p ≠ some t → (v.goto t .idle).held p = s.held p :=
      fun p ne' ne => held_goto_other ne ne' pc
    have all : ∀ r' ∈ v.results, r' = r ∨ r' ∈ s.results := fun r' mem => List.mem_cons.1 (results ▸ mem)
    refine ⟨?_, so.custody.move (Option.some_ne_none t).symm frame (List.Perm.subperm perm), fun n => ?_,
      goto_pc ?_ .idle, ?_, ?_⟩
    · rw [← hv]
      exact so.counter
    · show n < v.draws ↔ _
      rw [draws, Custody.mem_move frame perm]
      exact so.covers n
    · intro t'
      rw [pc]
      exact (so.calls t').mono more (Nat.le_of_eq draws.symm)
    · intro r' mem
      rcases all r' mem with rfl | mem
      · rw [← hr]
      · exact so.slot r' mem
    · intro r' mem e
      rcases all r' mem with rfl | mem
      · rw [← hr] at e ⊢
        exact (af e).mono more (Nat.le_refl _)
      · exact (so.late r' mem e).mono more (Nat.le_refl _)

/-- In every state every draw is with one call. -/
lemma Sound.reached (rn : Reaches Step {} s) : Sound s :=
  rn.invariant Sound.init fun so _ st => so.step st

/-! ## Until the counter wraps -/

/-- Before the counter wraps a refusal comes after all the slots. -/
lemma slotOf_eq_kNoSlot {n : Nat} (last : slotOf (n % 2 ^ 16) = kNoSlot) (lt : n < 2 ^ 16) : kLocalSlots ≤ n := by
  unfold slotOf kNoSlot kLocalSlots at *
  split at last
  · omega
  · omega

/-- What is not refused is the draw itself. -/
lemma slotOf_ne_kNoSlot {n : Nat} (ne : slotOf n ≠ kNoSlot) : slotOf n = n ∧ n < kLocalSlots := by
  unfold slotOf at *
  split at ne
  · exact absurd rfl ne
  next lt => exact ⟨if_neg lt, Nat.lt_of_not_le lt⟩

omit [DecidableEq τ] in
/-- With at most 2^16 draws the slots are distinct. -/
lemma Sound.unique (so : Sound s) (few : s.draws ≤ 2 ^ 16) : Unique s := by
  have small : ∀ {r}, r ∈ s.results → r.draw % 2 ^ 16 = r.draw := fun mem =>
    Nat.mod_eq_of_lt (Nat.lt_of_lt_of_le (so.drawn mem) few)
  have slot : ∀ {r}, r ∈ s.results → r.slot = slotOf r.draw := by
    intro r mem
    rw [so.slot r mem, small mem]
  refine ⟨?_, fun r mem ne => ?_, fun r mem late => ?_⟩
  · have nodup : (s.results.map Result.draw).Pairwise (· ≠ ·) := so.custody.nodup none
    refine (List.pairwise_map.1 nodup).imp_of_mem ?_
    intro r r' mem mem' differ ne same
    have one := slotOf_ne_kNoSlot (slot mem ▸ ne)
    have other := slotOf_ne_kNoSlot (slot mem' ▸ same ▸ ne)
    apply differ
    rw [← one.1, ← other.1, ← slot mem, ← slot mem', same]
  · have one := slotOf_ne_kNoSlot (slot mem ▸ ne)
    rw [slot mem, one.1]
    exact one.2
  · obtain ⟨r', mem', last, lt⟩ := so.late r mem late
    rw [so.slot r' mem'] at last
    have past := slotOf_eq_kNoSlot last (Nat.lt_of_lt_of_le (so.drawn mem') few)
    rw [slot mem, slotOf, if_pos (Nat.le_of_lt (Nat.lt_of_le_of_lt past lt))]

omit [DecidableEq τ] in
/-- The first slot is handed out again. -/
lemma Sound.wraps (so : Sound s) (quiet : ∀ t, s.pc t = .idle) (many : 2 ^ 16 < s.draws) : ¬Unique s := by
  have back : ∀ n < s.draws, n % 2 ^ 16 = 0 → ∃ r ∈ s.results, r.draw = n ∧ r.slot = 0 := by
    intro n lt zero
    obtain ⟨p, mem⟩ := (so.covers n).1 lt
    cases p with
    | none =>
      obtain ⟨r, here, rfl⟩ := List.mem_map.1 mem
      refine ⟨r, here, rfl, ?_⟩
      rw [so.slot r here, zero]
      rfl
    | some t =>
      have idle : s.held (some t) = [] := by
        show (s.pc t).drawn = []
        rw [quiet t]
        rfl
      rw [idle] at mem
      cases mem
  obtain ⟨r, mem, first, zero⟩ := back 0 (by omega) rfl
  obtain ⟨r', mem', again, zero'⟩ := back (2 ^ 16) many rfl
  intro un
  have differ : r ≠ r' := by
    intro e
    rw [e, again] at first
    cases first
  have apart : s.results.Pairwise fun r r' => ¬(r.slot = 0 ∧ r'.slot = 0) := by
    refine un.distinct.imp ?_
    rintro x y ne ⟨hx, hy⟩
    rw [hx, hy] at ne
    exact ne (by decide) rfl
  have symm : Std.Symm fun r r' : Result => ¬(r.slot = 0 ∧ r'.slot = 0) := ⟨fun _ _ h h' => h h'.symm⟩
  exact apart.forall mem mem' differ ⟨zero, zero'⟩

/-! ## Any number of calls -/

/-- In every run the slots are unique if at most 2^16 calls have fetched a number, and, when no call is under way,
only then. -/
theorem slots_unique (rn : Reaches Step {} s) :
    (s.draws ≤ 2 ^ 16 → Unique s) ∧ ((∀ t, s.pc t = .idle) → (Unique s ↔ s.draws ≤ 2 ^ 16)) := by
  have so := Sound.reached rn
  refine ⟨so.unique, fun quiet => ⟨fun un => ?_, so.unique⟩⟩
  by_contra many
  exact so.wraps quiet (Nat.lt_of_not_le many) un

/-- A thread makes so many calls. -/
lemma calls_reached (t : τ) (n : Nat) :
    ∃ s : State τ, Reaches Step {} s ∧ s.draws = n ∧ ∀ t, s.pc t = .idle := by
  induction n with
  | zero => exact ⟨{}, .refl, rfl, fun _ => rfl⟩
  | succ n ih =>
    obtain ⟨s, rn, draws, quiet⟩ := ih
    have r1 := rn.next (.call t) trivial (.call (quiet t))
    have r2 := r1.next (.fetch t) trivial (.fetch (Function.update_self _ _ _))
    have r3 := r2.next (.ret t) trivial (.ret (Function.update_self _ _ _))
    refine ⟨_, r3, congrArg (· + 1) draws, ?_⟩
    simp only [State.goto, Function.update_idem]
    intro t'
    by_cases e : t' = t
    · subst e
      exact Function.update_self _ _ _
    · rw [Function.update_of_ne e]
      exact quiet t'

/-- Nine calls of one thread. -/
theorem slots_unique_nine : ∃ s : State Unit, Reaches Step {} s ∧ s.draws = 9 ∧ Unique s := by
  obtain ⟨s, rn, draws, -⟩ := calls_reached () 9
  exact ⟨s, rn, draws, (slots_unique rn).1 (by rw [draws]; decide)⟩

/-- After 2^16 calls the next one is given the first slot again. -/
theorem slot_again : ∃ s : State Unit, Reaches Step {} s ∧ s.draws = 65537 ∧ ¬Unique s := by
  obtain ⟨s, rn, draws, quiet⟩ := calls_reached () 65537
  exact ⟨s, rn, draws, (Sound.reached rn).wraps quiet (by rw [draws]; decide)⟩

end JLib.Registry.Fls
