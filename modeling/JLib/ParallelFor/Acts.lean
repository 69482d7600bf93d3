import JLib.Intervals.Tiling
import JLib.ParallelFor.Model

/-!
# The parts of a range

Every activity has a part of the range, or none, and what is behind the cursor belongs to nobody yet. A step
divides a part or hands it on: what it covers stays the same.
-/

namespace JLib.ParallelFor
open LTS Intervals

variable {stop : Int} {sh sh' : Shared} {a a' : Act} {l : Label} {new : List Act}

/-- A value that fits is not wrapped. -/
lemma int_eq {x : Int} (h : InInt x) : int x = x := by
  unfold InInt INT_MAX at h
  unfold int
  omega

namespace Shared

/-- What the cursor has not handed out. -/
def rest (stop : Int) (sh : Shared) : List (Int × Int) :=
  match sh.cursor with
  | none => []
  | some c => piece c stop

/-- Nothing is left to claim before the cursor is set. -/
lemma rest_none (h : sh.cursor = none) : sh.rest stop = [] := by
  unfold rest
  rw [h]

/-- Values that fit note no overflow. -/
lemma note_overflow {xs : List Int} (h : sh.overflow = false) (fits : ∀ x ∈ xs, InInt x) :
    (sh.note xs).overflow = false := by
  unfold note
  rw [Bool.or_eq_false_iff]
  refine ⟨h, List.any_eq_false.2 fun x hx => ?_⟩
  rw [decide_eq_true (fits x hx)]
  exact Bool.false_ne_true

end Shared

namespace Act

/-- The part of the range the activity has. -/
def spans : Act → List (Int × Int)
  | split lo hi => [(lo, hi)]
  | counted lo _ hi => [(lo, hi)]
  | leaf lo hi => [(lo, hi)]
  | lane => []
  | slice lo hi => [(lo, hi)]
  | finished r => r.toList

/-- It is a lane of the cursor. -/
def Lane : Act → Prop
  | lane => True
  | slice _ _ => True
  | finished none => True
  | _ => False

/-- It has counted a task that it has not published. -/
def owed : Act → Nat
  | counted _ _ _ => 1
  | _ => 0

/-- The halves are long. -/
def Halved : Act → Prop
  | counted lo mid hi => lo + 8 ≤ mid ∧ mid + 8 ≤ hi
  | _ => True

/-- The activity has one part, and a long one. -/
def Long (a : Act) : Prop := ∃ r, a.spans = [r] ∧ 8 ≤ r.2 - r.1

/-- What a step may assume: the grain, the part in hand and the room above the cursor. -/
structure Ready (stop : Int) (sh : Shared) (l : Label) (a : Act) : Prop where
  grain : 16 ≤ sh.grain
  stop_le : stop ≤ INT_MAX
  part : ∀ r ∈ a.spans, InInt r.1 ∧ r.1 < r.2 ∧ r.2 ≤ stop ∧ r.2 - r.1 ≤ INT_MAX
  halved : a.Halved
  cursor : ∀ lo, sh.cursor = some lo → -2147483648 ≤ lo ∧ (l = .fetch → lo + sh.grain ≤ INT_MAX)
  owed : a.owed ≤ sh.count
  mode : a.Lane → sh.cursor.isSome = true

/-- What a step of an activity does: the parts cover what they did, the counter goes with the tasks, nothing
overflows. -/
structure Moved (stop : Int) (sh : Shared) (a : Act) (sh' : Shared) (a' : Act) (new : List Act) : Prop where
  grain : sh'.grain = sh.grain
  past : ∀ r ∈ sh'.past, r ∈ sh.past ∨ r ∈ a.spans
  pos : ∀ r ∈ a'.spans ++ new.flatMap spans, r.1 < r.2
  covers : ∀ i, cover sh'.past i + cover (sh'.rest stop) i + cover a'.spans i + cover (new.flatMap spans) i =
    cover sh.past i + cover (sh.rest stop) i + cover a.spans i
  overflow : sh.overflow = false → sh'.overflow = false
  cursor : sh'.cursor.isSome = sh.cursor.isSome
  above : ∀ lo, sh.cursor = some lo → ∃ lo', sh'.cursor = some lo' ∧ lo ≤ lo'
  halved : a'.Halved ∧ ∀ b ∈ new, b.Halved
  kind : (a'.Lane ↔ a.Lane) ∧ ∀ b ∈ new, b.Lane ↔ a.Lane
  long : ¬a.Lane → a.Long → a'.Long
  new_long : ∀ b ∈ new, b.Long ∧ b.owed = 0
  count : sh'.count + a.owed = sh.count + new.length + a'.owed
  count_le : a.Lane → sh'.count = sh.count ∧ new = []
  ended : a' = finished none → sh'.rest stop = []

end Act

namespace Act

/-- The shared state stays, but for the counter. -/
lemma Moved.of_parts {n : Nat} (parts : ∀ r ∈ a'.spans ++ new.flatMap spans, r.1 < r.2)
    (covers : ∀ i, cover a'.spans i + cover (new.flatMap spans) i = cover a.spans i)
    (halved : a'.Halved ∧ ∀ b ∈ new, b.Halved) (kind : ¬a'.Lane ∧ ¬a.Lane ∧ ∀ b ∈ new, ¬b.Lane)
    (long : a.Long → a'.Long) (new_long : ∀ b ∈ new, b.Long ∧ b.owed = 0)
    (count : n + a.owed = sh.count + new.length + a'.owed) :
    Moved stop sh a { sh with count := n } a' new where
  grain := rfl
  past r h := .inl h
  pos := parts
  covers i := by
    rw [← covers i]
    change cover sh.past i + cover (sh.rest stop) i + _ + _ = _
    omega
  overflow := id
  cursor := rfl
  above lo h := ⟨lo, h, Int.le_refl lo⟩
  halved := halved
  kind := ⟨⟨fun h => absurd h kind.1, fun h => absurd h kind.2.1⟩,
    fun b hb => ⟨fun h => absurd h (kind.2.2 b hb), fun h => absurd h kind.2.1⟩⟩
  long _ := long
  new_long := new_long
  count := count
  count_le h := absurd h kind.2.1
  ended e := by
    subst e
    exact absurd trivial kind.1

/-- A step of a lane. -/
lemma Moved.of_lane {c c' : Int} {p : List (Int × Int)} (cur : sh.cursor = some c)
    (past : ∀ r ∈ p, r ∈ sh.past ∨ r ∈ a.spans) (above : c ≤ c') (parts : ∀ r ∈ a'.spans, r.1 < r.2)
    (covers : ∀ i, cover p i + cover (piece c' stop) i + cover a'.spans i =
      cover sh.past i + cover (piece c stop) i + cover a.spans i)
    (halved : a'.Halved) (kind : a.Lane) (kind' : a'.Lane) (owed : a.owed = 0) (owed' : a'.owed = 0)
    (ended : a' = finished none → piece c' stop = []) :
    Moved stop sh a { sh with cursor := some c', past := p } a' [] where
  grain := rfl
  past := past
  pos r h := parts r ((List.mem_append.1 h).resolve_right List.not_mem_nil)
  covers i := by
    have now := covers i
    unfold Shared.rest
    rw [cur]
    exact now
  overflow := id
  cursor := by
    rw [cur]
    rfl
  above lo h := by
    rw [cur] at h
    cases h
    exact ⟨c', rfl, above⟩
  halved := ⟨halved, by rintro _ ⟨⟩⟩
  kind := ⟨⟨fun _ => kind, fun _ => kind'⟩, by rintro _ ⟨⟩⟩
  long no := absurd kind no
  new_long := by rintro _ ⟨⟩
  count := by rw [owed, owed']; rfl
  count_le _ := ⟨rfl, rfl⟩
  ended := ended

/-- A step does not take the cursor away. -/
lemma Moved.cursor_none (mv : Moved stop sh a sh' a' new) (h : sh'.cursor = none) : sh.cursor = none := by
  refine Option.not_isSome_iff_eq_none.1 ?_
  rw [← mv.cursor, h]
  exact Bool.false_ne_true

end Act

/-- A note changes nothing that a step is about. -/
lemma Act.Moved.note {xs : List Int} (mv : Act.Moved stop sh a sh' a' new) (fits : ∀ x ∈ xs, InInt x) :
    Act.Moved stop sh a (sh'.note xs) a' new :=
  { mv with overflow := fun h => Shared.note_overflow (mv.overflow h) fits }

/-- A step of an activity that is ready moves its parts. -/
lemma Act.Step.moved (st : Act.Step stop sh a l sh' a' new) (rd : a.Ready stop sh l) :
    Act.Moved stop sh a sh' a' new := by
  cases st with
  | @split lo hi big =>
    obtain ⟨ilo, lt, le, len⟩ := rd.part (lo, hi) (List.mem_singleton_self _)
    have room := rd.grain
    have top := rd.stop_le
    unfold InInt INT_MAX at *
    dsimp only at ilo lt le len
    have e : int (hi - lo) = hi - lo := int_eq (by unfold InInt INT_MAX; omega)
    rw [e] at big ⊢
    have half : (hi - lo).tdiv 2 = (hi - lo) / 2 := Int.tdiv_eq_ediv_of_nonneg (by omega)
    rw [half]
    have e' : int (lo + (hi - lo) / 2) = lo + (hi - lo) / 2 := int_eq (by unfold InInt INT_MAX; omega)
    rw [e']
    refine Act.Moved.note ?_ ?_
    · refine .of_parts ?_ ?_ ⟨?_, ?_⟩ ⟨id, id, ?_⟩ ?_ ?_ rfl
      · intro r hr
        rw [List.mem_singleton.1 hr]
        exact lt
      · exact fun i => rfl
      · constructor <;> omega
      · rintro _ ⟨⟩
      · rintro _ ⟨⟩
      · exact id
      · rintro _ ⟨⟩
    · intro x hx
      unfold InInt INT_MAX
      rcases List.mem_cons.1 hx with rfl | hx
      · omega
      · rw [List.mem_singleton.1 hx]
        omega
  | @push lo mid hi =>
    obtain ⟨h₁, h₂⟩ : lo + 8 ≤ mid ∧ mid + 8 ≤ hi := rd.halved
    refine Act.Moved.of_parts (n := sh.count) ?_ ?_ ⟨trivial, ?_⟩ ⟨id, id, ?_⟩ ?_ ?_ rfl
    · intro r hr
      rcases List.mem_cons.1 hr with rfl | hr
      · exact Int.lt_of_lt_of_le (by omega) h₁
      · rw [List.mem_singleton.1 hr]
        exact Int.lt_of_lt_of_le (by omega) h₂
    · intro i
      change cover [(lo, mid)] i + cover [(mid, hi)] i = cover [(lo, hi)] i
      rw [cover_single, cover_single, cover_single]
      dsimp only
      split <;> split <;> split <;> omega
    · intro b hb
      rw [List.mem_singleton.1 hb]
      trivial
    · intro b hb
      rw [List.mem_singleton.1 hb]
      exact id
    · exact fun _ => ⟨_, rfl, by dsimp only; omega⟩
    · intro b hb
      rw [List.mem_singleton.1 hb]
      exact ⟨⟨_, rfl, by dsimp only; omega⟩, rfl⟩
  | @full lo mid hi =>
    have owed : 1 ≤ sh.count := rd.owed
    obtain ⟨-, lt, -⟩ := rd.part (lo, hi) (List.mem_singleton_self _)
    refine .of_parts ?_ (fun i => rfl) ⟨trivial, ?_⟩ ⟨id, id, ?_⟩ id ?_ ?_
    · intro r hr
      rw [List.mem_singleton.1 hr]
      exact lt
    · rintro _ ⟨⟩
    · rintro _ ⟨⟩
    · rintro _ ⟨⟩
    · change sh.count - 1 + 1 = sh.count + 0 + 0
      omega
  | @leaf lo hi =>
    obtain ⟨ilo, lt, le, len⟩ := rd.part (lo, hi) (List.mem_singleton_self _)
    refine Act.Moved.note (.of_parts ?_ (fun i => rfl) ⟨trivial, ?_⟩ ⟨id, id, ?_⟩ id ?_ rfl) ?_
    · intro r hr
      rw [List.mem_singleton.1 hr]
      exact lt
    · rintro _ ⟨⟩
    · rintro _ ⟨⟩
    · rintro _ ⟨⟩
    · intro x hx
      rw [List.mem_singleton.1 hx]
      unfold InInt INT_MAX at *
      dsimp only at lt len
      omega
  | @ret lo hi =>
    obtain ⟨-, lt, -⟩ := rd.part (lo, hi) (List.mem_singleton_self _)
    refine .of_parts (n := sh.count) ?_ (fun i => rfl) ⟨trivial, ?_⟩ ⟨id, id, ?_⟩ id ?_ rfl
    · intro r hr
      rw [List.mem_singleton.1 hr]
      exact lt
    · rintro _ ⟨⟩
    · rintro _ ⟨⟩
    · rintro _ ⟨⟩
  | @fetch lo cur lt =>
    obtain ⟨ge, le⟩ := rd.cursor lo cur
    have le := le rfl
    have room := rd.grain
    unfold INT_MAX at le
    have fits : InInt (lo + sh.grain) := by
      unfold InInt INT_MAX
      omega
    rw [int_eq fits]
    refine Act.Moved.note (Act.Moved.of_lane cur (fun r hr => .inl hr) (by omega) (fun r hr => ?_) (fun i => ?_) trivial
      trivial trivial rfl rfl (by rintro ⟨⟩)) ?_
    · rw [List.mem_singleton.1 hr]
      dsimp only
      split <;> omega
    · change cover sh.past i + cover (piece (lo + sh.grain) stop) i + cover [(lo, _)] i = cover sh.past i + _ + 0
      rw [cover_piece, cover_piece, cover_single]
      dsimp only
      by_cases ended : lo + sh.grain > stop
      · rw [if_pos ended]
        split <;> split <;> omega
      · rw [if_neg ended]
        split <;> split <;> split <;> omega
    · intro x hx
      rw [List.mem_singleton.1 hx]
      exact fits
  | @fetchOver lo cur le =>
    obtain ⟨ge, le'⟩ := rd.cursor lo cur
    have le' := le' rfl
    have room := rd.grain
    unfold INT_MAX at le'
    have fits : InInt (lo + sh.grain) := by
      unfold InInt INT_MAX
      omega
    rw [int_eq fits]
    refine Act.Moved.note (Act.Moved.of_lane cur (fun r hr => .inl hr) (by omega) (by rintro _ ⟨⟩) (fun i => ?_) trivial
      trivial trivial rfl rfl fun _ => if_neg (by omega)) ?_
    · change cover sh.past i + cover (piece (lo + sh.grain) stop) i + 0 = cover sh.past i + _ + 0
      rw [cover_piece, cover_piece]
      split <;> split <;> omega
    · intro x hx
      rw [List.mem_singleton.1 hx]
      exact fits
  | @sliceRet lo hi =>
    obtain ⟨c, cur⟩ := Option.isSome_iff_exists.1 (rd.mode trivial)
    have same : ({ sh with past := sh.past ++ [(lo, hi)] } : Shared) =
        { sh with cursor := some c, past := sh.past ++ [(lo, hi)] } := by
      rw [← cur]
    rw [same]
    have idle : ∀ r ∈ lane.spans, r.1 < r.2 := by rintro _ ⟨⟩
    refine Act.Moved.of_lane cur (fun r hr => ?_) (Int.le_refl c) idle (fun i => ?_) trivial trivial trivial rfl rfl
      (by rintro ⟨⟩)
    · exact List.mem_append.1 hr
    · change cover (sh.past ++ [(lo, hi)]) i + _ + 0 = _ + _ + cover [(lo, hi)] i
      rw [cover_append]
      omega

end JLib.ParallelFor
