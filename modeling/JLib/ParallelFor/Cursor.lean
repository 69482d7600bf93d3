import JLib.ParallelFor.Calls
import Mathlib.Tactic.Linarith

/-!
# The shared cursor on its own

`RunCursorRange` from its call to its return, for any grain and any lanes that are made. The range is `slices`
slices long, and a participant that finds nothing left has moved the cursor all the same: the caller and the
lanes pull `slices + lanes + 1` times at most, and what they read is a slice, or the end, as long as the last
they read has not passed `INT_MAX`.
-/

namespace JLib.ParallelFor
open LTS Intervals

/-- So many slices make up the range. -/
structure Cut (start stop g : Int) (slices : Nat) : Prop where
  grain : 0 < g
  below : start + (slices - 1) * g < stop
  above : stop ≤ start + slices * g

/-- How many steps an activity of the cursor still has, apart from its pulls. -/
def Act.rank : Act → Nat
  | lane => 2
  | slice _ _ => 3
  | finished none => 1
  | _ => 0

def Act.unfinished : Act → Bool
  | finished none => false
  | _ => true

variable {start stop g : Int} {slices lanes f left : Nat} {sh sh' : Shared} {X Y new : List Act} {a a' : Act}
  {l : Label}

namespace Cut

/-- The cursor is inside the range for as many pulls as there are slices. -/
lemma lt_iff (cut : Cut start stop g slices) : start + f * g < stop ↔ f < slices := by
  obtain ⟨grain, below, above⟩ := cut
  constructor
  · intro lt
    by_contra ge
    have le : (slices : Int) * g ≤ f * g := Int.mul_le_mul_of_nonneg_right (by omega) (by omega)
    omega
  · intro lt
    have le : (f : Int) * g ≤ (slices - 1) * g := Int.mul_le_mul_of_nonneg_right (by omega) (by omega)
    omega

/-- The number of slices that the source computes. -/
lemma of_tdiv (grain : 0 < g) (lt : start < stop) :
    Cut start stop g ((stop - start + g - 1).tdiv g).toNat := by
  have e : (stop - start + g - 1).tdiv g = (stop - start + g - 1) / g :=
    Int.tdiv_eq_ediv_of_nonneg (by omega)
  have nonneg : 0 ≤ (stop - start + g - 1) / g := Int.ediv_nonneg (by omega) (by omega)
  have upper := Int.lt_ediv_add_one_mul_self (stop - start + g - 1) grain
  have lower := Int.ediv_mul_le (stop - start + g - 1) (by omega : g ≠ 0)
  rw [e]
  generalize (stop - start + g - 1) / g = q at *
  rw [Int.add_mul] at upper
  refine ⟨grain, ?_, ?_⟩
  · rw [Int.toNat_of_nonneg nonneg, Int.sub_mul]
    omega
  · rw [Int.toNat_of_nonneg nonneg]
    omega

end Cut

/-- The cursor has been pulled `f` times. What has been handed out and what is behind the cursor make up the
range, and nobody has found its end more than once. -/
structure Pull (start stop g : Int) (slices lanes : Nat) (sh : Shared) (acts : List Act) (left f : Nat) : Prop where
  grain : sh.grain = g
  cursor : sh.cursor = some (int (start + f * g))
  lane : ∀ a ∈ acts, a.Lane
  tiles : Tiles (sh.past ++ acts.flatMap Act.spans ++ piece (start + f * g) stop) start stop
  most : f - slices + acts.countP Act.unfinished + left ≤ lanes + 1
  ended : Act.finished none ∈ acts → slices < f

/-- The cursor after one pull more. -/
lemma next_mul (start g : Int) (k : Nat) : start + ((k + 1 : Nat) : Int) * g = start + k * g + g := by
  rw [Int.natCast_add, Int.natCast_one, Int.add_mul, Int.one_mul, Int.add_assoc]

/-- The room for one lane more. -/
lemma add_succ_mul (a g : Int) (k : Nat) : (a + (k + 1 : Nat)) * g = (a + k) * g + g := by
  rw [Int.natCast_add, Int.natCast_one, ← Int.add_assoc, Int.add_mul _ 1, Int.one_mul]

/-- What is in a list with one element taken out of the middle. -/
lemma mem_mid {α : Type} {X Y : List α} {a b : α} : a ∈ X ++ b :: Y ↔ a = b ∨ a ∈ X ++ Y :=
  List.perm_middle.mem_iff.trans List.mem_cons

namespace Pull

/-- A slice is cut off what is left. -/
lemma tiles_fetch {l : List (Int × Int)} {c : Int} (t : Tiles (l ++ piece c stop) start stop) (lt : c < stop)
    (grain : 0 < g) :
    Tiles (l ++ [(c, if c + g > stop then stop else c + g)] ++ piece (c + g) stop) start stop := by
  refine t.congr (fun r mem => ?_) fun i => ?_
  · rcases List.mem_append.1 mem with mem | mem
    · rcases List.mem_append.1 mem with mem | mem
      · exact t.pos r (List.mem_append_left _ mem)
      · rw [List.mem_singleton.1 mem]
        dsimp only
        split <;> omega
    · exact mem_piece mem
  · rw [cover_append, cover_append, cover_append, cover_piece, cover_piece, cover_single]
    dsimp only
    by_cases ended : c + g > stop
    · rw [if_pos ended]
      split <;> split <;> omega
    · rw [if_neg ended]
      split <;> split <;> split <;> omega

/-- Whoever pulls reads a value that has not wrapped around. -/
lemma read (pu : Pull start stop g slices lanes sh (X ++ a :: Y) left f) (cut : Cut start stop g slices)
    (room : start + (slices + lanes) * g ≤ INT_MAX) (lo : InInt start) (un : a.unfinished = true) :
    f ≤ slices + lanes ∧ sh.cursor = some (start + f * g) ∧ start + f * g ≤ INT_MAX := by
  have grain := cut.grain
  have most := pu.most
  rw [List.countP_append, List.countP_cons_of_pos un] at most
  have le : f ≤ slices + lanes := by omega
  have up : (f : Int) * g ≤ (slices + lanes) * g := Int.mul_le_mul_of_nonneg_right (by omega) (by omega)
  have nonneg : 0 ≤ (f : Int) * g := Int.mul_nonneg (by omega) (by omega)
  have fits : InInt (start + f * g) := ⟨by have := lo.1; omega, by omega⟩
  refine ⟨le, ?_, fits.2⟩
  rw [pu.cursor, int_eq fits]

/-- A step of a participant. -/
lemma step (pu : Pull start stop g slices lanes sh (X ++ a :: Y) left f) (cut : Cut start stop g slices)
    (room : start + (slices + lanes) * g ≤ INT_MAX) (lo : InInt start)
    (st : Act.Step stop sh a l sh' a' new) : new = [] ∧ sh'.count = sh.count ∧ ∃ f', f ≤ f' ∧
      Pull start stop g slices lanes sh' (X ++ a' :: Y) left f' ∧
        2 * (slices + lanes + 1 - f') + a'.rank < 2 * (slices + lanes + 1 - f) + a.rank := by
  have lane := pu.lane a (List.mem_append_right _ List.mem_cons_self)
  have grain := cut.grain
  have next := next_mul start g f
  have others : ∀ b : Act, b.Lane → ∀ c ∈ X ++ b :: Y, c.Lane := by
    intro b hb c mem
    rcases mem_mid.1 mem with rfl | mem
    · exact hb
    · exact pu.lane c (mem_mid.2 (.inr mem))
  have ended : ∀ {b : Act}, b ≠ .finished none → Act.finished none ∈ X ++ b :: Y → slices < f := by
    intro b ne mem
    rcases mem_mid.1 mem with e | mem
    · exact absurd e.symm ne
    · exact pu.ended (mem_mid.2 (.inr mem))
  cases st with
  | @fetch c cur lt =>
    obtain ⟨le, read, top⟩ := pu.read cut room lo rfl
    rw [read] at cur
    cases cur
    have few : f < slices := cut.lt_iff.1 lt
    have last : start + f * g + g ≤ start + (slices + lanes) * g := by
      rw [← next]
      have := Int.mul_le_mul_of_nonneg_right (a := ((f + 1 : Nat) : Int)) (b := slices + lanes) (c := g) (by omega)
        (by omega)
      omega
    have fits : InInt (start + f * g + g) := by
      have nonneg : 0 ≤ (f : Int) * g := Int.mul_nonneg (by omega) (by omega)
      exact ⟨by have := lo.1; omega, by omega⟩
    have same : int (start + f * g + sh.grain) = start + f * g + g := by
      rw [pu.grain, int_eq fits]
    refine ⟨rfl, rfl, f + 1, Nat.le_succ f, ⟨pu.grain, ?_, others _ trivial, ?_, ?_, ?_⟩, ?_⟩
    · rw [next, ← pu.grain]
      rfl
    · have t := tiles_fetch pu.tiles lt grain
      rw [same, next]
      refine t.perm (List.Perm.append_right _ ?_)
      show (sh.past ++ (X ++ Act.lane :: Y).flatMap Act.spans ++ _).Perm
        (sh.past ++ (X ++ Act.slice _ _ :: Y).flatMap Act.spans)
      rw [List.append_assoc]
      refine List.Perm.append_left _ ?_
      rw [List.flatMap_append, List.flatMap_append, List.flatMap_cons, List.flatMap_cons, List.append_assoc]
      exact List.perm_append_comm.append_left _
    · have most := pu.most
      rw [List.countP_append, List.countP_cons_of_pos rfl] at most ⊢
      omega
    · exact fun mem => Nat.lt_succ_of_lt (ended (by rintro ⟨⟩) mem)
    · show 2 * (slices + lanes + 1 - (f + 1)) + 3 < 2 * (slices + lanes + 1 - f) + 2
      omega
  | @fetchOver c cur ge =>
    obtain ⟨le, read, top⟩ := pu.read cut room lo rfl
    rw [read] at cur
    cases cur
    have many : slices ≤ f := by
      have no := mt cut.lt_iff.2 (Int.not_lt.2 ge)
      omega
    refine ⟨rfl, rfl, f + 1, Nat.le_succ f, ⟨pu.grain, ?_, others _ trivial, ?_, ?_, ?_⟩, ?_⟩
    · rw [next, ← pu.grain]
      rfl
    · have t := pu.tiles
      rw [piece_nil ge] at t
      rw [piece_nil (by rw [next]; omega)]
      rw [List.flatMap_append, List.flatMap_cons] at t ⊢
      exact t
    · have most := pu.most
      rw [List.countP_append, List.countP_cons_of_pos rfl] at most
      rw [List.countP_append, List.countP_cons_of_neg (by rintro ⟨⟩)]
      omega
    · exact fun _ => Nat.lt_succ_of_le many
    · show 2 * (slices + lanes + 1 - (f + 1)) + 1 < 2 * (slices + lanes + 1 - f) + 2
      omega
  | @sliceRet c hi =>
    refine ⟨rfl, rfl, f, Nat.le_refl f, ⟨pu.grain, pu.cursor, others _ trivial, ?_, ?_, ?_⟩, ?_⟩
    · refine pu.tiles.perm (List.Perm.append_right _ ?_)
      show (sh.past ++ (X ++ Act.slice c hi :: Y).flatMap Act.spans).Perm
        (sh.past ++ [(c, hi)] ++ (X ++ Act.lane :: Y).flatMap Act.spans)
      rw [List.append_assoc]
      refine List.Perm.append_left _ ?_
      rw [List.flatMap_append, List.flatMap_append, List.flatMap_cons, List.flatMap_cons, ← List.append_assoc,
        ← List.append_assoc]
      exact List.perm_append_comm.append_right _
    · have most := pu.most
      rw [List.countP_append, List.countP_cons_of_pos rfl] at most ⊢
      exact most
    · exact ended (by rintro ⟨⟩)
    · exact Nat.lt_succ_self _
  | split | push | full | leaf | ret => exact lane.elim

/-- A participant joins. -/
lemma join (pu : Pull start stop g slices lanes sh (X ++ Y) (left + 1) f) :
    Pull start stop g slices lanes sh (X ++ Act.lane :: Y) left f := by
  refine ⟨pu.grain, pu.cursor, fun a mem => ?_, ?_, ?_, fun mem => pu.ended ?_⟩
  · rcases mem_mid.1 mem with rfl | mem
    · trivial
    · exact pu.lane a mem
  · have t := pu.tiles
    rw [List.flatMap_append] at t
    rw [List.flatMap_append, List.flatMap_cons]
    exact t
  · have most := pu.most
    rw [List.countP_append] at most
    rw [List.countP_append, List.countP_cons_of_pos rfl]
    omega
  · rcases mem_mid.1 mem with e | mem
    · cases e
    · exact mem

/-- One that was to join does not. -/
lemma fewer {n : Nat} (pu : Pull start stop g slices lanes sh X (left + 1) f) :
    Pull start stop g slices lanes { sh with count := n } X left f :=
  ⟨pu.grain, pu.cursor, pu.lane, pu.tiles, Nat.le_of_succ_le pu.most, pu.ended⟩

/-- A participant that found the end leaves. -/
lemma leave {n : Nat} {r : Option (Int × Int)}
    (pu : Pull start stop g slices lanes sh (X ++ Act.finished r :: Y) left f) : slices < f ∧ r = none ∧
      Pull start stop g slices lanes { sh with count := n, past := sh.past ++ r.toList } (X ++ Y) left f := by
  have mine := pu.lane (.finished r) (List.mem_append_right _ List.mem_cons_self)
  have none : r = none := by
    cases r with
    | none => rfl
    | some r => exact mine.elim
  subst none
  refine ⟨pu.ended (List.mem_append_right _ List.mem_cons_self), rfl, pu.grain, pu.cursor,
    fun a mem => pu.lane a (mem_mid.2 (.inr mem)), ?_, ?_, fun mem => pu.ended (mem_mid.2 (.inr mem))⟩
  · have t := pu.tiles
    rw [List.flatMap_append, List.flatMap_cons] at t
    rw [List.flatMap_append]
    show Tiles (sh.past ++ [] ++ _ ++ _) start stop
    rw [List.append_nil]
    exact t
  · have most := pu.most
    rw [List.countP_append, List.countP_cons_of_neg (by rintro ⟨⟩)] at most
    rw [List.countP_append]
    exact most

end Pull

/-- The caller is a participant too, once it has made the lanes. -/
def Pc.joining : Pc → Nat
  | spawn w => w + 1
  | _ => 0

def Pc.rank : Pc → Nat
  | spawn w => 3 * w + 8
  | act _ => 5
  | wait => 3
  | _ => 0

/-- The end of the range has been found before the caller waits, and nobody is left when it returns. -/
def Pc.Phase (slices f : Nat) (tasks : List Act) : Pc → Prop
  | spawn _ => True
  | act _ => True
  | wait => slices < f
  | returned => slices < f ∧ tasks = []
  | _ => False

/-- A task goes on. -/
lemma Pc.Phase.mono {pc : Pc} {f' : Nat} {tasks tasks' : List Act} (ph : pc.Phase slices f tasks)
    (some : tasks ≠ []) (le : f ≤ f') : pc.Phase slices f' tasks' := by
  cases pc with
  | spawn | act => trivial
  | wait => exact Nat.lt_of_lt_of_le ph le
  | returned => exact absurd ph.2 some
  | _ => exact ph.elim

/-- The call is under way, with `n` steps to go at most. -/
structure Lanes (start stop g : Int) (slices lanes : Nat) (f n : Nat) (s : State) : Prop where
  pull : Pull start stop g slices lanes s.sh s.acts s.pc.joining f
  count : s.sh.count = s.tasks.length + s.pc.left
  few : s.sh.count ≤ lanes
  phase : s.pc.Phase slices f s.tasks
  rank : 2 * (slices + lanes + 1 - f) + (s.acts.map Act.rank).sum + s.pc.rank = n

variable {cfg : Config} {s u : State} {grain : Int} {n : Nat}

/-- The ranks add up in any order. -/
lemma sum_rank : ((X ++ a :: Y).map Act.rank).sum = ((X ++ Y).map Act.rank).sum + a.rank := by
  rw [List.map_append, List.map_append, List.map_cons, List.sum_append, List.sum_append, List.sum_cons]
  omega

/-- A step with room above the range goes on with fewer steps to go. -/
lemma Lanes.step (la : Lanes start stop g slices lanes f n s) (cut : Cut start stop g slices)
    (room : start + (slices + lanes) * g ≤ INT_MAX) (lo : InInt start)
    (st : Step cfg start stop grain s l u) : ∃ m, m < n ∧ ∃ f', Lanes start stop g slices lanes f' m u := by
  obtain ⟨pull, count, few, phase, rank⟩ := la
  have acts : s.acts = s.pc.acts ++ s.tasks := rfl
  cases st with
  | enterEmpty hpc _ | enterSerial hpc _ _ | enterRemembered k hpc _ _ _ _ _ | enterProbe t hpc _ _ _
  | enterUnmeasured hpc _ _ _ | probe hpc _ | probeOver hpc _ | probing t hpc | probedAll hpc _
  | probedCheap hpc _ _ | probed k hpc _ _ _ | serial hpc | fan lane hpc | cursor hot hpc =>
    rw [hpc] at phase
    exact phase.elim
  | @spawn w hpc =>
    rw [acts, hpc] at pull rank
    rw [hpc] at count
    have alike : Pull start stop g slices lanes s.sh (s.tasks ++ []) (w + 1 + 1) f := by
      rw [List.append_nil]
      exact pull
    have pu := alike.join
    refine ⟨_, ?_, f, pu, ?_, few, trivial, rfl⟩
    · rw [← rank]
      show _ + ((s.tasks ++ Act.lane :: []).map Act.rank).sum + (3 * w + 8) <
        _ + (([] ++ s.tasks).map Act.rank).sum + (3 * (w + 1) + 8)
      rw [sum_rank, List.append_nil, List.nil_append]
      show _ + (_ + 2) + _ < _
      omega
    · show s.sh.count = (s.tasks ++ [Act.lane]).length + w
      rw [List.length_append, count]
      show _ + (w + 1) = _ + 1 + w
      omega
  | @spawnFails w hpc =>
    rw [acts, hpc] at pull rank
    rw [hpc] at count
    refine ⟨_, ?_, f, pull.fewer, ?_, (Nat.sub_le _ _).trans few, trivial, rfl⟩
    · rw [← rank]
      show _ + (s.tasks.map Act.rank).sum + (3 * w + 8) <
        _ + (([] ++ s.tasks).map Act.rank).sum + (3 * (w + 1) + 8)
      rw [List.nil_append]
      omega
    · show s.sh.count - 1 = s.tasks.length + w
      rw [count]
      rfl
  | @spawned hpc =>
    rw [acts, hpc] at pull rank
    rw [hpc] at count
    have pu := Pull.join (X := []) (Y := s.tasks) pull
    refine ⟨_, ?_, f, pu, count, few, trivial, rfl⟩
    rw [← rank]
    show _ + (([] ++ Act.lane :: s.tasks).map Act.rank).sum + 5 < _ + (([] ++ s.tasks).map Act.rank).sum + 8
    rw [sum_rank]
    show _ + (_ + 2) + 5 < _
    omega
  | @act a l sh a' new hpc st =>
    rw [acts, hpc] at pull rank
    rw [hpc] at count
    obtain ⟨rfl, same, f', le, pu, lt⟩ := Pull.step (X := []) pull cut room lo st
    refine ⟨_, ?_, f', ?_, ?_, same ▸ few, trivial, rfl⟩
    · rw [← rank]
      show _ + (([] ++ a' :: (s.tasks ++ [])).map Act.rank).sum + 5 < _ + (([] ++ a :: s.tasks).map Act.rank).sum + 5
      rw [List.append_nil, sum_rank, sum_rank]
      omega
    · show Pull start stop g slices lanes sh ([] ++ a' :: (s.tasks ++ [])) 0 f'
      rw [List.append_nil]
      exact pu
    · show sh.count = (s.tasks ++ []).length + 0
      rw [List.append_nil, same]
      exact count
  | @finish r hpc =>
    rw [acts, hpc] at pull rank
    rw [hpc] at count
    obtain ⟨past, rfl, pu⟩ := Pull.leave (X := []) (n := s.sh.count) pull
    refine ⟨_, ?_, f, pu, count, few, past, rfl⟩
    rw [← rank]
    show _ + (([] ++ s.tasks).map Act.rank).sum + 3 < _ + (([] ++ Act.finished none :: s.tasks).map Act.rank).sum + 5
    rw [sum_rank]
    omega
  | @«return» hpc zero =>
    rw [acts, hpc] at pull rank
    rw [hpc] at count phase
    have none : s.tasks = [] := List.eq_nil_of_length_eq_zero (by
      change s.sh.count = s.tasks.length + 0 at count
      omega)
    refine ⟨_, ?_, f, pull, count, few, ⟨phase, none⟩, rfl⟩
    rw [← rank]
    exact Nat.lt_add_of_pos_right (by decide)
  | @task as bs a l sh a' new tasks st =>
    have split : s.acts = s.pc.acts ++ as ++ a :: bs := by rw [acts, tasks, List.append_assoc]
    rw [split] at pull rank
    obtain ⟨rfl, same, f', le, pu, lt⟩ := pull.step cut room lo st
    have acts' : State.acts { s with sh := sh, tasks := as ++ a' :: bs ++ [] } = s.pc.acts ++ as ++ a' :: bs := by
      show s.pc.acts ++ (as ++ a' :: bs ++ []) = _
      rw [List.append_nil, List.append_assoc]
    refine ⟨_, ?_, f', ?_, ?_, same ▸ few, ?_, rfl⟩
    · rw [← rank, acts', sum_rank, sum_rank]
      show _ + (_ + _) + s.pc.rank < _
      omega
    · rw [acts']
      exact pu
    · show sh.count = (as ++ a' :: bs ++ []).length + s.pc.left
      rw [same, count, tasks, List.append_nil, List.length_append, List.length_append]
      rfl
    · refine phase.mono ?_ le
      rw [tasks]
      exact List.append_ne_nil_of_right_ne_nil _ (List.cons_ne_nil _ _)
  | @complete as bs r tasks =>
    have split : s.acts = s.pc.acts ++ as ++ Act.finished r :: bs := by rw [acts, tasks, List.append_assoc]
    rw [split] at pull rank
    obtain ⟨_, rfl, pu⟩ := pull.leave (n := s.sh.count - 1)
    have acts' : ∀ sh, State.acts { s with sh := sh, tasks := as ++ bs } = s.pc.acts ++ as ++ bs :=
      fun _ => (List.append_assoc ..).symm
    refine ⟨_, ?_, f, ?_, ?_, (Nat.sub_le _ _).trans few, ?_, rfl⟩
    · rw [← rank, acts', sum_rank]
      show _ + _ + s.pc.rank < _ + (_ + 1) + _
      omega
    · rw [acts']
      exact pu
    · show s.sh.count - 1 = (as ++ bs).length + s.pc.left
      rw [count, tasks, List.length_append, List.length_append, List.length_cons]
      omega
    · refine phase.mono ?_ (Nat.le_refl f)
      rw [tasks]
      exact List.append_ne_nil_of_right_ne_nil _ (List.cons_ne_nil _ _)

/-- An activity that has not found the end goes on. -/
lemma Pull.goes (pu : Pull start stop g slices lanes sh (X ++ a :: Y) left f) :
    (∃ r, a = .finished r) ∨ ∃ l sh' a', l ≠ .enter ∧ (∀ h, l ≠ .cursor h) ∧ Act.Step stop sh a l sh' a' [] := by
  have mine := pu.lane a (List.mem_append_right _ List.mem_cons_self)
  cases a with
  | lane =>
    right
    by_cases lt : int (start + f * g) < stop
    · exact ⟨_, _, _, by rintro ⟨⟩, by rintro _ ⟨⟩, .fetch pu.cursor lt⟩
    · exact ⟨_, _, _, by rintro ⟨⟩, by rintro _ ⟨⟩, .fetchOver pu.cursor (Int.not_lt.1 lt)⟩
  | slice lo hi => exact .inr ⟨_, _, _, by rintro ⟨⟩, by rintro _ ⟨⟩, .sliceRet⟩
  | finished r => exact .inl ⟨r, rfl⟩
  | split | counted | leaf => exact mine.elim

/-- So many of the workers are hot when the call asks. -/
def Hot (hot : Nat) (_ : State) : Label → Prop
  | .cursor h => h = hot
  | _ => True

/-- Only the call that reads the hot workers is restricted. -/
lemma Hot.of_ne {hot : Nat} (ne : ∀ h, l ≠ .cursor h) : Hot hot s l := by
  cases l with
  | cursor h => exact absurd rfl (ne h)
  | _ => trivial

/-- The next states of a call. -/
def Next (cfg : Config) (start stop grain : Int) (hot : Nat) (u s : State) : Prop :=
  ∃ l, Hot hot s l ∧ Step cfg start stop grain s l u

/-- A call that has not returned goes on. -/
lemma Lanes.goes {hot : Nat} (la : Lanes start stop g slices lanes f n s) (ne : s.pc ≠ .returned) :
    ∃ u, Next cfg start stop grain hot u s := by
  obtain ⟨pull, count, few, phase, rank⟩ := la
  have acts : s.acts = s.pc.acts ++ s.tasks := rfl
  cases hpc : s.pc with
  | spawn w =>
    cases w with
    | zero => exact ⟨_, .other, trivial, .spawned hpc⟩
    | succ w => exact ⟨_, .other, trivial, .spawn hpc⟩
  | act a =>
    rw [acts, hpc] at pull
    rcases Pull.goes (X := []) pull with ⟨r, rfl⟩ | ⟨l, sh', a', _, ok, st⟩
    · exact ⟨_, .other, trivial, .finish hpc⟩
    · exact ⟨_, l, .of_ne ok, .act hpc st⟩
  | wait =>
    cases tasks : s.tasks with
    | nil =>
      rw [tasks, hpc] at count
      exact ⟨_, .other, trivial, .return hpc count⟩
    | cons a bs =>
      rw [acts, hpc, tasks] at pull
      rcases Pull.goes (X := []) pull with ⟨r, rfl⟩ | ⟨l, sh', a', _, ok, st⟩
      · exact ⟨_, .other, trivial, .complete (show _ = [] ++ _ :: _ from tasks)⟩
      · exact ⟨_, l, .of_ne ok, .task (show _ = [] ++ _ :: _ from tasks) st⟩
  | returned => exact absurd hpc ne
  | enter | probe p | probing p | probed p | serial lo | fan lo k | cursor lo =>
    rw [hpc] at phase
    exact phase.elim

/-- The calls are parts of the range. -/
lemma Lanes.calls (la : Lanes start stop g slices lanes f n s) :
    (s.calls start stop).Sublist (s.sh.past ++ s.acts.flatMap Act.spans ++ piece (start + f * g) stop) := by
  have none : s.pc.called start stop = [] := by
    have phase := la.phase
    cases hpc : s.pc with
    | spawn | act | wait | returned => rfl
    | _ =>
      rw [hpc] at phase
      exact phase.elim
  unfold State.calls
  rw [none, List.nil_append]
  exact (List.Sublist.append_left (Act.flatMap_called_sublist s.acts) _).trans (List.sublist_append_left _ _)

/-- When the call returns the whole range is in the past. -/
lemma Lanes.whole (la : Lanes start stop g slices lanes f n s) (cut : Cut start stop g slices)
    (hpc : s.pc = .returned) : s.tasks = [] ∧ Tiles s.sh.past start stop := by
  obtain ⟨pull, count, few, phase, rank⟩ := la
  rw [hpc] at phase
  obtain ⟨found, none⟩ := phase
  have t := pull.tiles
  have acts : s.acts = [] := by
    show s.pc.acts ++ s.tasks = []
    rw [hpc, none]
    rfl
  have past : stop ≤ start + f * g := by
    have no := mt cut.lt_iff.1 (by omega : ¬f < slices)
    omega
  rw [acts, piece_nil past, List.append_nil] at t
  exact ⟨none, (List.append_nil s.sh.past) ▸ t⟩

/-! ## The call -/

/-- `RunCursorRange` is called. -/
def atCursor (start grain : Int) : State := { sh := { grain := grain }, pc := .cursor start }

/-- It is about to make its lanes. -/
def atSpawn (start g : Int) (lanes : Nat) : State :=
  { sh := { grain := g, cursor := some start, count := lanes }, pc := .spawn lanes }

/-- The workers that are not hot. -/
def Config.W (cfg : Config) (hot : Nat) : Int := int (cfg.workers - hot)

/-- The range gets disjoint calls, its whole and nothing else when the call returns; and the call does
return, with no call of `func` under way. The count of its `WaitGroup` is no more than its workers. -/
structure Exact (cfg : Config) (start stop grain : Int) (hot : Nat) (s : State) : Prop where
  inside : ∀ r ∈ s.calls start stop, start ≤ r.1 ∧ r.1 < r.2 ∧ r.2 ≤ stop
  once : ∀ i, cover (s.calls start stop) i ≤ 1
  ends : Acc (Next cfg start stop grain hot) s
  goes : s.pc ≠ .returned → ∃ u, Next cfg start stop grain hot u s
  count : (s.sh.count : Int) ≤ cfg.W hot
  whole : s.pc = .returned → s.tasks = [] ∧ Tiles s.sh.past start stop

def sliceCount (g total : Int) : Int := (total + g - 1).tdiv g

variable {hot : Nat}

/-- There is a lane. -/
lemma cursorLanes_pos {total W : Int} (pos : 1 ≤ W) : 1 ≤ cursorLanes g total W :=
  le_min pos (le_max_left _ _)

/-- The lanes have been counted and the cursor is at the start. -/
lemma Lanes.init (lt : start < stop) (lo : InInt start) :
    Lanes start stop g slices lanes 0 (2 * (slices + lanes + 1) + (3 * lanes + 8)) (atSpawn start g lanes) := by
  have same : start + ((0 : Nat) : Int) * g = start := by omega
  refine ⟨⟨rfl, ?_, by rintro _ ⟨⟩, ?_, ?_, by rintro ⟨⟩⟩, ?_, Nat.le_refl _, trivial, rfl⟩
  · rw [same, int_eq lo]
    rfl
  · rw [same, piece_pos lt]
    exact .one lt
  · show 0 - _ + 0 + (_ + 1) ≤ _ + 1
    omega
  · exact (Nat.zero_add _).symm

/-- The first step of the call. -/
lemma Step.of_atCursor (st : Step cfg start stop grain (atCursor start grain) l u) (ok : Hot hot s l)
    (eg : g = cursorGrain grain (stop - start) (cfg.W hot)) :
    u = atSpawn start g (cursorLanes g (stop - start) (cfg.W hot)).toNat := by
  generalize hs : atCursor start grain = s' at st
  have hpc : s'.pc = .cursor start := by
    rw [← hs]
    rfl
  have none : s'.tasks = [] := by
    rw [← hs]
    rfl
  cases st with
  | @cursor lo h here =>
    rw [hpc] at here
    cases here
    rw [show h = hot from ok]
    subst hs eg
    rfl
  | enterEmpty no _ | enterSerial no _ _ | enterRemembered k no _ _ _ _ _ | enterProbe t no _ _ _
  | enterUnmeasured no _ _ _ | probe no _ | probeOver no _ | probing t no | probedAll no _
  | probedCheap no _ _ | probed k no _ _ _ | serial no | fan lane no | spawn no | spawnFails no
  | spawned no | act no _ | finish no | «return» no _ =>
    rw [hpc] at no
    cases no
  | @task as bs a l sh a' new tasks _ =>
    rw [none] at tasks
    exact absurd tasks.symm (List.append_ne_nil_of_right_ne_nil _ (List.cons_ne_nil _ _))
  | @complete as bs r tasks =>
    rw [none] at tasks
    exact absurd tasks.symm (List.append_ne_nil_of_right_ne_nil _ (List.cons_ne_nil _ _))

/-- With room above the range the cursor is exact. -/
lemma exact_of_room (lt : start < stop) (lo : InInt start) (pos : 1 ≤ cfg.W hot)
    (eg : g = cursorGrain grain (stop - start) (cfg.W hot))
    (room : start + (sliceCount g (stop - start) + cursorLanes g (stop - start) (cfg.W hot)) * g ≤ INT_MAX)
    (rn : Runs (Step cfg start stop grain) (Hot hot) (atCursor start grain) s) :
    Exact cfg start stop grain hot s := by
  have grain64 : 0 < g := by
    rw [eg]
    exact Int.lt_of_lt_of_le (by decide) (cursorGrain_ge ..)
  have cut : Cut start stop g (sliceCount g (stop - start)).toNat := .of_tdiv grain64 lt
  have some : 0 ≤ sliceCount g (stop - start) := by
    unfold sliceCount
    rw [Int.tdiv_eq_ediv_of_nonneg (by omega)]
    exact Int.ediv_nonneg (by omega) (by omega)
  have lanes : 0 ≤ cursorLanes g (stop - start) (cfg.W hot) := Int.le_of_lt (cursorLanes_pos pos)
  have most : ((cursorLanes g (stop - start) (cfg.W hot)).toNat : Int) ≤ cfg.W hot := by
    rw [Int.toNat_of_nonneg lanes]
    exact min_le_left _ _
  rw [← Int.toNat_of_nonneg some, ← Int.toNat_of_nonneg lanes] at room
  have first : ∀ {l u}, Hot hot (atCursor start grain) l → Step cfg start stop grain (atCursor start grain) l u →
      u = atSpawn start g (cursorLanes g (stop - start) (cfg.W hot)).toNat := fun ok st => st.of_atCursor ok eg
  generalize (sliceCount g (stop - start)).toNat = slices at *
  generalize (cursorLanes g (stop - start) (cfg.W hot)).toNat = lanes' at *
  let m := 2 * (slices + lanes' + 1) + (3 * lanes' + 8)
  let I (n : Nat) (s : State) : Prop :=
    (∃ f, Lanes start stop g slices lanes' f n s) ∨ s = atCursor start grain ∧ n = m + 1
  have desc : ∀ {n t l u}, I n t → Hot hot t l → Step cfg start stop grain t l u → ∃ k, k < n ∧ I k u := by
    rintro n t l u (⟨f, la⟩ | ⟨rfl, rfl⟩) ok st
    · obtain ⟨k, lt, f', la'⟩ := la.step cut room lo st
      exact ⟨k, lt, .inl ⟨f', la'⟩⟩
    · rw [first ok st]
      exact ⟨m, Nat.lt_succ_self m, .inl ⟨0, .init lt lo⟩⟩
  obtain ⟨n, inv⟩ : ∃ n, I n s := by
    refine rn.invariant (I := fun s => ∃ n, I n s) ⟨m + 1, .inr ⟨rfl, rfl⟩⟩ ?_
    rintro t l u ⟨n, inv⟩ ok st
    obtain ⟨k, _, inv'⟩ := desc inv ok st
    exact ⟨k, inv'⟩
  have ends : Acc (Next cfg start stop grain hot) s := acc_of_descent desc inv
  rcases inv with ⟨f, la⟩ | ⟨rfl, _⟩
  · refine ⟨fun r mem => ?_, fun i => ?_, ends, la.goes, ?_, la.whole cut⟩
    · have here := la.calls.subset mem
      exact ⟨(la.pull.tiles.within here).1, la.pull.tiles.pos r here, (la.pull.tiles.within here).2⟩
    · refine la.calls.countP_le.trans ?_
      rw [← cover, la.pull.tiles.once i]
      split <;> omega
    · exact (Int.ofNat_le.2 la.few).trans most
  · refine ⟨by rintro _ ⟨⟩, fun i => Nat.zero_le _, ends, fun _ => ?_, Int.le_of_lt pos, by rintro ⟨⟩⟩
    exact ⟨_, .cursor hot, rfl, .cursor hot rfl⟩

/-! ## The wrap-around -/

/-- The caller has done `k` slices; every lane has been made and none has begun. -/
structure Alone (start stop g : Int) (lanes k : Nat) (s : State) : Prop where
  grain : s.sh.grain = g
  cursor : s.sh.cursor = some (start + k * g)
  pc : s.pc = .act .lane
  tasks : s.tasks = List.replicate lanes .lane
  tiles : Tiles (s.sh.past ++ piece (start + k * g) stop) start stop

/-- The caller has done every slice, and `k` of the lanes have found the end. -/
structure Over (start stop g : Int) (slices lanes k : Nat) (s : State) : Prop where
  grain : s.sh.grain = g
  cursor : s.sh.cursor = some (start + (slices + k) * g)
  pc : s.pc = .act .lane
  tasks : s.tasks = List.replicate k (.finished none) ++ List.replicate (lanes - k) .lane
  tiles : Tiles s.sh.past start stop

/-- A value above the largest `int` by less than that wraps once. -/
lemma wrapped {x : Int} (above : INT_MAX < x) (below : x ≤ 2 * INT_MAX) : int x = x - 4294967296 := by
  unfold INT_MAX at above below
  unfold int
  omega

/-- The grain is an `int`. -/
lemma cursorGrain_le {total W : Int} (hg : InInt grain) : cursorGrain grain total W ≤ INT_MAX := by
  refine max_le (max_le hg.2 ?_) (by decide)
  unfold int INT_MAX
  omega

/-- Every lane is made. -/
lemma spawn_all (w k : Nat) (hpc : s.pc = .spawn w) (tasks : s.tasks = List.replicate k .lane) :
    ∃ u, Runs (Step cfg start stop grain) (Hot hot) s u ∧ u.sh = s.sh ∧ u.pc = .act .lane ∧
      u.tasks = List.replicate (k + w) .lane := by
  induction w generalizing s k with
  | zero => exact ⟨_, Runs.refl.next .other trivial (.spawned hpc), rfl, rfl, tasks⟩
  | succ w ih =>
    have more : s.tasks ++ [Act.lane] = List.replicate (k + 1) .lane := by rw [tasks, List.replicate_succ']
    obtain ⟨u, rn, sh, pc, all⟩ := ih (s := { s with pc := .spawn w, tasks := s.tasks ++ [.lane] }) (k + 1) rfl more
    refine ⟨u, (Runs.refl.next .other trivial (.spawn hpc)).trans rn, sh, pc, ?_⟩
    rw [all, Nat.add_assoc, Nat.add_comm 1 w]

/-- The caller does a slice. -/
lemma Alone.next {k : Nat} (al : Alone start stop g lanes k s) (grain0 : 0 < g) (lo : InInt start)
    (lt : start + k * g < stop) (top : start + ((k + 1 : Nat) : Int) * g ≤ INT_MAX) :
    ∃ u, Runs (Step cfg start stop grain) (Hot hot) s u ∧ Alone start stop g lanes (k + 1) u := by
  obtain ⟨own, cursor, pc, tasks, tiles⟩ := al
  rw [next_mul] at top
  have nonneg : 0 ≤ (k : Int) * g := Int.mul_nonneg (by omega) (by omega)
  have same : int (start + k * g + s.sh.grain) = start + k * g + g := by
    rw [own]
    refine int_eq ⟨?_, top⟩
    have := lo.1
    omega
  have run : Runs (Step cfg start stop grain) (Hot hot) s _ :=
    (Runs.refl.next .fetch trivial (.act pc (.fetch cursor lt))).next .other trivial (.act rfl .sliceRet)
  refine ⟨_, run, own, ?_, rfl, ?_, ?_⟩
  · rw [next_mul, ← same]
    rfl
  · rw [← tasks]
    show s.tasks ++ [] ++ [] = s.tasks
    rw [List.append_nil, List.append_nil]
  · rw [next_mul]
    have t := Pull.tiles_fetch tiles lt grain0
    rw [← same] at t
    rw [same] at t ⊢
    exact t

/-- The caller can do any number of slices by itself. -/
lemma Alone.all {k : Nat} (al : Alone start stop g lanes 0 s) (cut : Cut start stop g slices) (lo : InInt start)
    (le : k ≤ slices) (top : start + k * g ≤ INT_MAX) :
    ∃ u, Runs (Step cfg start stop grain) (Hot hot) s u ∧ Alone start stop g lanes k u := by
  induction k with
  | zero => exact ⟨s, .refl, al⟩
  | succ k ih =>
    have grain0 := cut.grain
    rw [next_mul] at top
    obtain ⟨t, rn, al'⟩ := ih (Nat.le_of_succ_le le) (by omega)
    have next : ∃ u, Runs (Step cfg start stop grain) (Hot hot) t u ∧ Alone start stop g lanes (k + 1) u :=
      al'.next grain0 lo (cut.lt_iff.2 le) (by rw [next_mul]; exact top)
    obtain ⟨u, rn', al''⟩ := next
    exact ⟨u, rn.trans rn', al''⟩

/-- A lane finds the end. -/
lemma Over.find {k : Nat} (ov : Over start stop g slices lanes k s) (cut : Cut start stop g slices) (lt : k < lanes) :
    ∃ u, Runs (Step cfg start stop grain) (Hot hot) s u ∧ u.sh.grain = g ∧
      u.sh.cursor = some (int (start + (slices + (k + 1 : Nat)) * g)) ∧ u.pc = .act .lane ∧
      u.tasks = List.replicate (k + 1) (.finished none) ++ List.replicate (lanes - (k + 1)) .lane ∧
      u.sh.past = s.sh.past := by
  obtain ⟨own, cursor, pc, tasks, tiles⟩ := ov
  have first : s.tasks = List.replicate k (.finished none) ++ .lane :: List.replicate (lanes - (k + 1)) .lane := by
    rw [tasks, ← List.replicate_succ]
    congr 2
    omega
  have ge : stop ≤ start + (slices + k) * g := by
    have no := mt (cut.lt_iff (f := slices + k)).1 (by omega)
    rw [Int.natCast_add] at no
    omega
  refine ⟨_, Runs.refl.next .fetch trivial (.task first (.fetchOver cursor ge)), own, ?_, pc, ?_, rfl⟩
  · show some (int (start + (slices + k) * g + s.sh.grain)) = _
    rw [own, add_succ_mul, ← Int.add_assoc]
  · show List.replicate k (Act.finished none) ++ Act.finished none :: _ ++ [] = _
    rw [List.append_nil, List.replicate_succ', List.append_assoc]
    rfl

/-- Any number of lanes can find the end one after the other. -/
lemma Over.all {k : Nat} (ov : Over start stop g slices lanes 0 s) (cut : Cut start stop g slices) (lo : InInt start)
    (le : k ≤ lanes) (top : start + (slices + k) * g ≤ INT_MAX) :
    ∃ u, Runs (Step cfg start stop grain) (Hot hot) s u ∧ Over start stop g slices lanes k u := by
  induction k with
  | zero => exact ⟨s, .refl, ov⟩
  | succ k ih =>
    have grain0 := cut.grain
    have more := add_succ_mul slices g k
    have nonneg : 0 ≤ ((slices : Int) + k) * g := Int.mul_nonneg (by omega) (by omega)
    obtain ⟨t, rn, ov'⟩ := ih (Nat.le_of_succ_le le) (by omega)
    have found : ∃ u, Runs (Step cfg start stop grain) (Hot hot) t u ∧ _ := ov'.find cut le
    obtain ⟨u, rn', own, cursor, pc, tasks, past⟩ := found
    refine ⟨u, rn.trans rn', own, ?_, pc, tasks, past ▸ ov'.tiles⟩
    rw [cursor, int_eq]
    have := lo.1
    exact ⟨by omega, top⟩

/-- A value that has just wrapped around is below the end. -/
lemma wrapped_lt {k : Nat} (cut : Cut start stop g slices) (lo : InInt start) (le : g ≤ INT_MAX)
    (few : lanes ≤ slices) (lt : k < lanes) (top : start + (slices + k) * g ≤ INT_MAX) :
    start + (slices + (k + 1 : Nat)) * g - 4294967296 < stop := by
  obtain ⟨grain0, below, above⟩ := cut
  by_contra no
  have more := add_succ_mul slices g k
  have low := lo.1
  unfold INT_MAX at *
  have short : ((slices : Int) - 1) * g < 1 * g := by omega
  have one : (slices : Int) - 1 < 1 := Int.lt_of_mul_lt_mul_right short (Int.le_of_lt grain0)
  have e : slices = 1 := by omega
  have e' : k = 0 := by omega
  subst e e'
  omega

/-- The last number for which something holds. -/
lemma exists_last {P : Nat → Prop} {n : Nat} (zero : P 0) (no : ¬P n) : ∃ k, k < n ∧ P k ∧ ¬P (k + 1) := by
  induction n with
  | zero => exact absurd zero no
  | succ n ih =>
    by_cases here : P n
    · exact ⟨n, Nat.lt_succ_self n, here, no⟩
    · obtain ⟨k, lt, yes, no'⟩ := ih here
      exact ⟨k, Nat.lt_succ_of_lt lt, yes, no'⟩

/-- The end of the last slice wraps around. -/
lemma Alone.breaks {k : Nat} (al : Alone start stop g lanes k s) (cut : Cut start stop g slices) (le : g ≤ INT_MAX)
    (hi : InInt stop) (lt : start + k * g < stop) (top : INT_MAX < start + ((k + 1 : Nat) : Int) * g) :
    ∃ u, Runs (Step cfg start stop grain) (Hot hot) s u ∧ ¬Exact cfg start stop grain hot u := by
  obtain ⟨own, cursor, pc, tasks, tiles⟩ := al
  have grain0 := cut.grain
  have upper := hi.2
  rw [next_mul] at top
  have same : int (start + k * g + s.sh.grain) = start + k * g + g - 4294967296 := by
    rw [own]
    exact wrapped top (by omega)
  refine ⟨_, Runs.refl.next .fetch trivial (.act pc (.fetch cursor lt)), fun ex => ?_⟩
  unfold INT_MAX at le upper
  rw [same, if_neg (by omega)] at ex
  have bad := ex.inside (start + k * g, start + k * g + g - 4294967296) ?_
  · obtain ⟨_, bad, _⟩ := bad
    change start + k * g < start + k * g + g - 4294967296 at bad
    omega
  · exact List.mem_append_right _ List.mem_cons_self

/-- A value behind the end wraps around. -/
lemma Over.breaks {k : Nat} (ov : Over start stop g slices lanes k s) (cut : Cut start stop g slices)
    (lo : InInt start) (le : g ≤ INT_MAX) (few : lanes ≤ slices) (lt : k < lanes)
    (below : start + (slices + k) * g ≤ INT_MAX) (top : INT_MAX < start + (slices + (k + 1 : Nat)) * g) :
    ∃ u, Runs (Step cfg start stop grain) (Hot hot) s u ∧ ¬Exact cfg start stop grain hot u := by
  have found : ∃ u, Runs (Step cfg start stop grain) (Hot hot) s u ∧ _ := ov.find cut lt
  obtain ⟨u, rn, own, cursor, pc, tasks, past⟩ := found
  have more := add_succ_mul slices g k
  rw [wrapped top (by omega)] at cursor
  refine ⟨_, rn.next .fetch trivial (.act pc (.fetch cursor (wrapped_lt cut lo le few lt below))), fun ex => ?_⟩
  generalize start + (slices + (k + 1 : Nat)) * g - 4294967296 = v at *
  have inside := ex.inside (v, if int (v + u.sh.grain) > stop then stop else int (v + u.sh.grain)) ?_
  · obtain ⟨le, pos, upto⟩ := inside
    have once := ex.once v
    have here := ov.tiles.once v
    rw [if_pos ⟨le, Int.lt_of_lt_of_le pos upto⟩, ← past] at here
    change cover (u.sh.past ++ ([] ++ ([(v, _)] ++ _))) v ≤ 1 at once
    rw [cover_append, List.nil_append, cover_append, cover_single, if_pos ⟨Int.le_refl v, pos⟩, here] at once
    omega
  · exact List.mem_append_right _ List.mem_cons_self

/-- Without the room some run overflows. -/
lemma exists_breaks (lt : start < stop) (lo : InInt start) (hi : InInt stop) (hg : InInt grain)
    (pos : 1 ≤ cfg.W hot) (eg : g = cursorGrain grain (stop - start) (cfg.W hot))
    (no : ¬start + (sliceCount g (stop - start) + cursorLanes g (stop - start) (cfg.W hot)) * g ≤ INT_MAX) :
    ∃ s, Runs (Step cfg start stop grain) (Hot hot) (atCursor start grain) s ∧
      ¬Exact cfg start stop grain hot s := by
  have grain64 : 64 ≤ g := by
    rw [eg]
    exact le_max_right _ _
  have le : g ≤ INT_MAX := by
    rw [eg]
    exact cursorGrain_le hg
  have cut : Cut start stop g (sliceCount g (stop - start)).toNat := .of_tdiv (by omega) lt
  have some : 1 ≤ sliceCount g (stop - start) := by
    have above := cut.above
    by_contra none
    rw [Int.toNat_of_nonpos (by omega)] at above
    omega
  have few : cursorLanes g (stop - start) (cfg.W hot) ≤ sliceCount g (stop - start) :=
    (min_le_right _ _).trans (max_le some (Int.le_refl _))
  have lanes : 1 ≤ cursorLanes g (stop - start) (cfg.W hot) := cursorLanes_pos pos
  rw [← Int.toNat_of_nonneg (Int.le_of_lt some), ← Int.toNat_of_nonneg (Int.le_of_lt lanes)] at no
  have begun : Step cfg start stop grain (atCursor start grain) (.cursor hot)
      (atSpawn start g (cursorLanes g (stop - start) (cfg.W hot)).toNat) := by
    subst eg
    exact .cursor hot rfl
  have first : Runs (Step cfg start stop grain) (Hot hot) (atCursor start grain)
      (atSpawn start g (cursorLanes g (stop - start) (cfg.W hot)).toNat) := Runs.refl.next (.cursor hot) rfl begun
  have fewer : (cursorLanes g (stop - start) (cfg.W hot)).toNat ≤ (sliceCount g (stop - start)).toNat :=
    Int.toNat_le_toNat few
  have many : 1 ≤ (sliceCount g (stop - start)).toNat := Int.toNat_le_toNat some
  generalize (sliceCount g (stop - start)).toNat = slices at *
  generalize (cursorLanes g (stop - start) (cfg.W hot)).toNat = lanes' at *
  obtain ⟨t, rn, sh, pc, tasks⟩ : ∃ t, Runs (Step cfg start stop grain) (Hot hot) (atSpawn start g lanes') t ∧ _ :=
    spawn_all lanes' 0 rfl rfl
  rw [Nat.zero_add] at tasks
  have rn := first.trans rn
  have al : Alone start stop g lanes' 0 t := by
    have same : start + ((0 : Nat) : Int) * g = start := by omega
    refine ⟨by rw [sh]; rfl, by rw [sh, same]; rfl, pc, tasks, ?_⟩
    rw [sh, same, piece_pos lt]
    exact .one lt
  by_cases within : start + slices * g ≤ INT_MAX
  · obtain ⟨t', rn', al'⟩ : ∃ u, Runs (Step cfg start stop grain) (Hot hot) t u ∧ _ :=
      al.all cut lo (Nat.le_refl slices) within
    have ov : Over start stop g slices lanes' 0 t' := by
      refine ⟨al'.grain, ?_, al'.pc, al'.tasks, ?_⟩
      · rw [al'.cursor, Int.natCast_zero, Int.add_zero]
      · have tiles := al'.tiles
        rw [piece_nil cut.above, List.append_nil] at tiles
        exact tiles
    obtain ⟨k, lt', below, above⟩ := exists_last (P := fun k => start + ((slices : Int) + (k : Nat)) * g ≤ INT_MAX)
      (by simpa using within) no
    obtain ⟨t'', rn'', ov'⟩ : ∃ u, Runs (Step cfg start stop grain) (Hot hot) t' u ∧ _ :=
      ov.all cut lo (Nat.le_of_lt lt') below
    obtain ⟨u, last, bad⟩ : ∃ u, Runs (Step cfg start stop grain) (Hot hot) t'' u ∧ _ :=
      ov'.breaks cut lo le fewer lt' below (Int.not_le.1 above)
    exact ⟨u, ((rn.trans rn').trans rn'').trans last, bad⟩
  · obtain ⟨k, e⟩ : ∃ k, slices = k + 1 := ⟨slices - 1, by omega⟩
    have lt' : start + (k : Int) * g < stop := cut.lt_iff.2 (by omega)
    have upper := hi.2
    obtain ⟨t', rn', al'⟩ : ∃ u, Runs (Step cfg start stop grain) (Hot hot) t u ∧ _ :=
      al.all cut lo (k := k) (by omega) (by omega)
    obtain ⟨u, last, bad⟩ : ∃ u, Runs (Step cfg start stop grain) (Hot hot) t' u ∧ _ :=
      al'.breaks cut le hi lt' (by rw [← e]; omega)
    exact ⟨u, (rn.trans rn').trans last, bad⟩

/-- The range gets its calls whatever the order of the steps, exactly if the last value that the cursor can be
read at is an `int`. -/
theorem cursor_range_exact (lt : start < stop) (lo : InInt start) (hi : InInt stop) (hg : InInt grain)
    (pos : 1 ≤ cfg.W hot) :
    (∀ s, Runs (Step cfg start stop grain) (Hot hot) (atCursor start grain) s →
      Exact cfg start stop grain hot s) ↔
    start + (sliceCount (cursorGrain grain (stop - start) (cfg.W hot)) (stop - start) +
      cursorLanes (cursorGrain grain (stop - start) (cfg.W hot)) (stop - start) (cfg.W hot)) *
        cursorGrain grain (stop - start) (cfg.W hot) ≤ INT_MAX := by
  constructor
  · intro all
    by_contra no
    obtain ⟨s, rn, bad⟩ := exists_breaks lt lo hi hg pos rfl no
    exact bad (all s rn)
  · exact fun room s rn => exact_of_room lt lo pos rfl room rn

/-- A range at the bottom of its type, two workers. -/
theorem cursor_range_exact_low :
    Exact ⟨false, true, 2, false, false, 1, 1, Nat.one_pos⟩ (-2147483648) (-2147483448) 1 0
      (atCursor (-2147483648) 1) :=
  (cursor_range_exact (by decide) (by decide) (by decide) (by decide) (by decide)).2 (by decide) _ .refl

/-- A hundred items below `INT_MAX` and one worker: the second slice ends where the type begins. -/
theorem cursor_wraps : ∃ (cfg : Config) (s : State), 1 ≤ cfg.W 0 ∧
    Runs (Step cfg 2147483547 2147483647 64) (Hot 0) (atCursor 2147483547 64) s ∧
      (2147483611, -2147483621) ∈ s.calls 2147483547 2147483647 := by
  refine ⟨⟨false, true, 1, false, false, 1, 1, Nat.one_pos⟩, ?_⟩
  generalize h : (⟨false, true, 1, false, false, 1, 1, Nat.one_pos⟩ : Config) = cfg
  have r : Runs (Step cfg 2147483547 2147483647 64) (Hot 0) (atCursor 2147483547 64) (atCursor 2147483547 64) := .refl
  have begun : Step cfg 2147483547 2147483647 64 (atCursor 2147483547 64) (.cursor 0) (atSpawn 2147483547 64 1) := by
    subst h
    exact .cursor (s := atCursor 2147483547 64) 0 rfl
  have r := r.next (.cursor 0) rfl begun
  have r := r.next .other trivial (.spawnFails rfl)
  have r := r.next .other trivial (.spawned rfl)
  have r := r.next .fetch trivial (.act rfl (.fetch rfl (by decide)))
  have r := r.next .other trivial (.act rfl .sliceRet)
  have r := r.next .fetch trivial (.act rfl (.fetch rfl (by decide)))
  exact ⟨_, by subst h; decide, r, List.mem_append_right _ List.mem_cons_self⟩

end JLib.ParallelFor
