import JLib.ParallelFor.Once

/-!
# The calls of a `ParallelFor`

Where the length of the range is an `int`, no index gets two calls, and when `ParallelFor` returns, every index has
had one and every call is over. The fall-back with the shared cursor needs room above the range as well: a lane
that finds nothing left has moved the cursor all the same.
-/

namespace JLib.ParallelFor
open LTS Intervals

variable {cfg : Config} {begin stop grain : Int} {s : State}

/-- The calls of the caller and of an activity that are not in the past. -/
def Pc.called (begin stop : Int) : Pc → List (Int × Int)
  | probing p => [(begin + p.probed, begin + p.probed + p.take (Probe.probeCap (int (stop - begin))))]
  | serial lo => [(lo, stop)]
  | _ => []

def Act.called : Act → List (Int × Int)
  | leaf lo hi => [(lo, hi)]
  | slice lo hi => [(lo, hi)]
  | finished r => r.toList
  | _ => []

/-- The calls of `func` so far. -/
def State.calls (begin stop : Int) (s : State) : List (Int × Int) :=
  s.sh.past ++ (s.pc.called begin stop ++ s.acts.flatMap Act.called)

/-- The calls of an activity are of its own parts. -/
lemma Act.called_sublist (a : Act) : a.called.Sublist a.spans := by
  cases a with
  | split lo hi => exact List.nil_sublist _
  | counted lo mid hi => exact List.nil_sublist _
  | leaf lo hi => exact .refl _
  | lane => exact .refl _
  | slice lo hi => exact .refl _
  | finished r => exact .refl _

/-- The calls of the activities are of their own parts. -/
lemma Act.flatMap_called_sublist (acts : List Act) : (acts.flatMap Act.called).Sublist (acts.flatMap Act.spans) := by
  induction acts with
  | nil => exact .refl _
  | cons a acts ih =>
    rw [List.flatMap_cons, List.flatMap_cons]
    exact a.called_sublist.append ih

/-- An activity owes one task at most. -/
lemma Act.sum_owed_le (acts : List Act) : (acts.map Act.owed).sum ≤ acts.length := by
  induction acts with
  | nil => exact Nat.le_refl 0
  | cons a acts ih =>
    have one : a.owed ≤ 1 := by
      cases a <;> exact Nat.le_of_ble_eq_true rfl
    rw [List.map_cons, List.sum_cons, List.length_cons]
    omega

/-- A long activity has one part. -/
lemma Act.length_flatMap_spans {acts : List Act} (long : ∀ a ∈ acts, a.Long) :
    (acts.flatMap Act.spans).length = acts.length := by
  induction acts with
  | nil => rfl
  | cons a acts ih =>
    obtain ⟨r, e, -⟩ := long a List.mem_cons_self
    rw [List.flatMap_cons, List.length_append, ih fun b hb => long b (List.mem_cons_of_mem _ hb), e, List.length_cons]
    exact Nat.add_comm 1 _

/-- The call has not begun. -/
lemma Sound.init (lt : begin < stop) : Sound cfg begin stop {} := by
  refine ⟨?_, rfl, rfl, rfl, rfl⟩
  exact Tiles.one lt

/-- In a run in range every state is sound. -/
lemma Sound.of_runs (lt : begin < stop) (hb : InInt begin) (hs : InInt stop)
    (rn : Runs (Step cfg begin stop grain) (InRange cfg begin stop) {} s) : Sound cfg begin stop s :=
  rn.invariant (I := Sound cfg begin stop) (.init lt) fun so ok st => st.sound lt hb hs ok so

namespace Sound

/-- The calls are among the parts. -/
lemma calls_sublist (so : Sound cfg begin stop s) (lt : begin < stop) :
    (s.calls begin stop).Sublist (s.parts begin stop) := by
  have called : (s.pc.called begin stop).Sublist (s.pc.own begin stop) := by
    have ph := so.phase
    obtain ⟨sh, pc, tasks⟩ := s
    cases pc with
    | probing p =>
      obtain ⟨-, bd, -⟩ := ph
      unfold Pc.called Pc.own
      rw [bd.int_len lt]
      exact .cons_cons _ (List.nil_sublist _)
    | serial lo => exact .refl _
    | _ => exact List.nil_sublist _
  unfold State.calls State.parts
  exact (List.sublist_append_left _ _).append (called.append (Act.flatMap_called_sublist _))

/-- The tasks are few enough for the count to keep clear of the waiter bit. -/
lemma count_lt_of_teamed (so : Sound cfg begin stop s) (own : s.pc.own begin stop = [])
    (tm : s.Teamed cfg begin stop) : s.tasks.length ≤ s.sh.count ∧ s.sh.count < WAITER_BIT := by
  obtain ⟨bd, tm⟩ := tm
  have count := tm.count
  refine ⟨by omega, ?_⟩
  cases cursor : s.sh.cursor with
  | some c =>
    have few := tm.few (by rw [cursor]; rfl)
    exact Nat.lt_of_le_of_lt few bd.workers
  | none =>
    obtain ⟨left, long⟩ := tm.long cursor
    have t := so.tiles
    rw [State.parts_team own] at t
    unfold State.acts at t count
    rw [List.flatMap_append, ← List.append_assoc] at t
    have t := t.perm List.perm_append_comm
    have length := t.length_le (n := 8) fun r hr => by
      obtain ⟨a, ha, mem⟩ := List.mem_flatMap.1 hr
      obtain ⟨r', e, le⟩ := long a ha
      rw [e] at mem
      rw [List.mem_singleton.1 mem]
      exact le
    rw [Act.length_flatMap_spans long] at length
    have owed := Act.sum_owed_le (s.pc.acts ++ s.tasks)
    have alone : s.pc.acts.length ≤ 1 := by
      unfold Pc.acts
      split
      · exact Nat.le_refl 1
      · exact Nat.zero_le 1
    have short := bd.len
    rw [List.length_append] at owed
    unfold INT_MAX at short
    unfold WAITER_BIT
    omega

/-- The counter has not run into the bit. -/
lemma count_lt (so : Sound cfg begin stop s) : s.tasks.length ≤ s.sh.count ∧ s.sh.count < WAITER_BIT := by
  have early : s.Early → s.tasks.length ≤ s.sh.count ∧ s.sh.count < WAITER_BIT := by
    rintro ⟨tasks, -, zero⟩
    rw [tasks, zero]
    decide
  have ph := so.phase
  unfold State.Phase at ph
  split at ph
  case h_1 => exact early ph
  case h_2 => exact early ph.1
  case h_3 => exact early ph.1
  case h_4 => exact early ph.1
  case h_5 => exact early ph
  case h_6 => exact early ph.1
  case h_7 => exact early ph.1
  case h_8 pc => exact so.count_lt_of_teamed (by rw [pc]; rfl) ph.1
  case h_9 pc => exact so.count_lt_of_teamed (by rw [pc]; rfl) ph.1
  case h_10 pc => exact so.count_lt_of_teamed (by rw [pc]; rfl) ph.1
  case h_11 =>
    obtain ⟨tasks, -, zero⟩ := ph
    rw [tasks, zero]
    decide

end Sound

/-- In a run in range nothing overflows, no index is in two calls or tasks at any time, and all are in one when the
call returns. -/
theorem indices_once {g : Option Int} (lt : begin < stop) (hb : InInt begin) (hs : InInt stop)
    (rn : Runs (Step cfg begin stop (cfg.grain begin stop g)) (InRange cfg begin stop) {} s) :
    (s.sh.overflow = false ∧ s.tasks.length ≤ s.sh.count ∧ s.sh.count < WAITER_BIT) ∧
      (∀ r ∈ s.calls begin stop, r.1 < r.2) ∧
      (∀ i, cover (s.calls begin stop) i ≤ if begin ≤ i ∧ i < stop then 1 else 0) ∧
      (s.pc = .returned →
        s.tasks = [] ∧ ∀ i, cover s.sh.past i = if begin ≤ i ∧ i < stop then 1 else 0) := by
  have so := Sound.of_runs lt hb hs rn
  have sub := so.calls_sublist lt
  refine ⟨⟨so.overflow, so.count_lt⟩, fun r hr => so.tiles.pos r (sub.subset hr), fun i => ?_, fun pc => ?_⟩
  · rw [← so.tiles.once i]
    exact sub.countP_le
  · obtain ⟨tasks, rest, -⟩ := so.phase_of pc
    refine ⟨tasks, fun i => ?_⟩
    rw [← so.tiles.once i, State.parts_team (by rw [pc]; rfl)]
    unfold State.acts
    change s.sh.rest stop = [] at rest
    change s.tasks = [] at tasks
    rw [rest, tasks, pc]
    change _ = cover (s.sh.past ++ [] ++ []) i
    rw [List.append_nil, List.append_nil]

/-- Two workers, forty items, one split. -/
theorem indices_once_split : ∃ (cfg : Config) (s : State),
    Runs (Step cfg 0 40 (cfg.grain 0 40 (some 1))) (InRange cfg 0 40) {} s ∧ s.pc = .returned ∧
      s.sh.past = [(20, 40), (0, 20)] ∧ ∀ i, cover s.sh.past i = if 0 ≤ i ∧ i < 40 then 1 else 0 := by
  refine ⟨⟨false, true, 2, false, false, 1, 1, Nat.one_pos⟩, ?_⟩
  generalize h : (⟨false, true, 2, false, false, 1, 1, Nat.one_pos⟩ : Config) = cfg
  have r : Runs (Step cfg 0 40 1) (InRange cfg 0 40) {} {} := .refl
  have bd : Bounded cfg 0 40 := by
    subst h
    exact ⟨by decide, by decide, fun _ => by decide, by decide⟩
  have r := r.next .enter bd
    (.enterUnmeasured rfl (by decide) (by subst h; rintro (⟨⟨⟩⟩ | ⟨⟨⟩⟩ | ⟨⟨⟩⟩)) (by subst h; rfl))
  rw [if_neg (by subst h; decide)] at r
  have r := r.next .other trivial (.fan true rfl)
  rw [show splitGrain cfg 1 (int (40 - 0)) cfg.workers = 20 by subst h; decide] at r
  have r := r.next .other trivial (.act rfl (.split (show (40 : Int) > 20 by decide)))
  have r := r.next .other trivial (.act rfl .push)
  have r := r.next .other trivial (.act rfl .leaf)
  have r := r.next .other trivial (.task (show _ = [] ++ _ :: _ from rfl) .leaf)
  have r := r.next .other trivial (.task (show _ = [] ++ _ :: _ from rfl) .ret)
  have r := r.next .other trivial (.complete (show _ = [] ++ _ :: _ from rfl))
  have r := r.next .other trivial (.act rfl .ret)
  have r := r.next .other trivial (.finish rfl)
  have r := r.next .other trivial (.return rfl rfl)
  exact ⟨_, r, rfl, rfl, ((indices_once (g := some 1) (by decide) (by decide) (by decide) r).2.2.2 rfl).2⟩

/-- Every value of an `int` but the last. -/
theorem range_too_long : ∃ (cfg : Config) (s : State),
    Reaches (Step cfg (-2147483648) 2147483647 1) {} s ∧ s.pc = .returned ∧
      s.calls (-2147483648) 2147483647 = [] := by
  have cfg : Config := ⟨false, true, 2, false, false, 1, 1, Nat.one_pos⟩
  have r : Reaches (Step cfg (-2147483648) 2147483647 1) {} {} := .refl
  have r := r.next .enter trivial (.enterEmpty rfl (by decide))
  exact ⟨cfg, _, r, rfl, rfl⟩

end JLib.ParallelFor
