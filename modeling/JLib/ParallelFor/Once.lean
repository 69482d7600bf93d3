import JLib.ParallelFor.Acts

/-!
# Every index once

The calls of `func`, what the caller has in front of it, the parts of the activities and what is behind the cursor
tile the range, and the count of the `WaitGroup` is the number of the tasks and of what is about to be one.
-/

namespace JLib.ParallelFor
open LTS Intervals

variable {cfg : Config} {begin stop grain : Int} {s s' : State} {sh sh' : Shared} {a a' : Act} {l : Label}
  {new X Y tasks tasks' : List Act} {w : Nat}

namespace Pc

/-- What the caller has in front of it before it shares the range. -/
def own (begin stop : Int) : Pc → List (Int × Int)
  | enter => [(begin, stop)]
  | probe p => piece (begin + p.probed) stop
  | probing p =>
    (begin + p.probed, begin + p.probed + p.take (Probe.probeCap (stop - begin))) ::
      piece (begin + p.probed + p.take (Probe.probeCap (stop - begin))) stop
  | probed p => piece (begin + p.probed) stop
  | serial lo => [(lo, stop)]
  | fan lo _ => [(lo, stop)]
  | cursor lo => [(lo, stop)]
  | _ => []

def acts : Pc → List Act
  | act a => [a]
  | _ => []

/-- The lanes that are counted and not made yet. -/
def left : Pc → Nat
  | spawn lanes => lanes
  | _ => 0

end Pc

namespace State

def acts (s : State) : List Act := s.pc.acts ++ s.tasks

/-- The parts of the range. -/
def parts (begin stop : Int) (s : State) : List (Int × Int) :=
  s.sh.past ++ s.sh.rest stop ++ (s.pc.own begin stop ++ s.acts.flatMap Act.spans)

/-- The range is not shared yet. -/
def Early (s : State) : Prop := s.tasks = [] ∧ s.sh.cursor = none ∧ s.sh.count = 0

end State

/-- The arguments and the settings are such that nothing overflows on the way in. -/
structure Bounded (cfg : Config) (begin stop : Int) : Prop where
  len : stop - begin ≤ INT_MAX
  workers : cfg.workers < WAITER_BIT
  minIters : cfg.measuredWidth = false → (cfg.workers : Int) * cfg.minItersPerWorker ≤ INT_MAX
  leaves : cfg.workers * cfg.leavesPerWorker + 2147483648 < 18446744073709551616

/-- The activities of a shared range, those of the tasks among them. -/
structure Team (cfg : Config) (begin : Int) (sh : Shared) (acts tasks : List Act) (left : Nat) : Prop where
  grain : 16 ≤ sh.grain
  halved : ∀ a ∈ acts, a.Halved
  kind : ∀ a ∈ acts, (a.Lane ↔ sh.cursor.isSome = true)
  long : sh.cursor = none → left = 0 ∧ ∀ a ∈ tasks, a.Long
  count : sh.count = tasks.length + (acts.map Act.owed).sum + left
  few : sh.cursor.isSome = true → sh.count ≤ cfg.workers
  cursor : ∀ lo, sh.cursor = some lo → begin ≤ lo

/-- What an activity has is in the range. -/
lemma Team.ready (tm : Team cfg begin sh (X ++ a :: Y) tasks w) (bd : Bounded cfg begin stop)
    (hb : InInt begin) (hs : InInt stop) (ok : l = .fetch → ∀ lo, sh.cursor = some lo → lo + sh.grain ≤ INT_MAX)
    (t : Tiles (sh.past ++ sh.rest stop ++ (X ++ a :: Y).flatMap Act.spans) begin stop) : a.Ready stop sh l where
  grain := tm.grain
  stop_le := hs.2
  part r hr := by
    have mem : r ∈ sh.past ++ sh.rest stop ++ (X ++ a :: Y).flatMap Act.spans := by
      apply List.mem_append_right
      exact List.mem_flatMap.2 ⟨a, List.mem_append_right _ List.mem_cons_self, hr⟩
    obtain ⟨h₁, h₂⟩ := t.within mem
    have h₃ := t.pos r mem
    have h₄ := bd.len
    unfold InInt INT_MAX at *
    omega
  halved := tm.halved a (List.mem_append_right _ List.mem_cons_self)
  cursor lo h := by
    have := tm.cursor lo h
    unfold InInt at hb
    exact ⟨by omega, fun e => ok e lo h⟩
  owed := by
    have sum : ((X ++ a :: Y).map Act.owed).sum = (X.map Act.owed).sum + (a.owed + (Y.map Act.owed).sum) := by
      rw [List.map_append, List.sum_append, List.map_cons, List.sum_cons]
    have := tm.count
    omega
  mode := (tm.kind a (List.mem_append_right _ List.mem_cons_self)).1

/-- The caller alone, at the head of the splitter. -/
lemma Team.split {lo hi : Int} (grain : 16 ≤ sh.grain) (cursor : sh.cursor = none) (count : sh.count = 0) :
    Team cfg begin sh ([.split lo hi] ++ []) [] 0 where
  grain := grain
  halved a h := by
    rw [List.mem_singleton.1 h]
    trivial
  kind a h := by
    rw [List.mem_singleton.1 h, cursor]
    exact ⟨False.elim, by rintro ⟨⟩⟩
  long _ := ⟨rfl, by rintro _ ⟨⟩⟩
  count := count
  few some := by
    rw [cursor] at some
    cases some
  cursor c h := by
    rw [cursor] at h
    cases h

/-- Nobody, with the lanes to be made. -/
lemma Team.lanes {c : Int} (grain : 16 ≤ sh.grain) (cursor : sh.cursor = some c) (ge : begin ≤ c)
    (count : sh.count = w) (few : w ≤ cfg.workers) : Team cfg begin sh [] [] w where
  grain := grain
  halved := by rintro _ ⟨⟩
  kind := by rintro _ ⟨⟩
  long none := by
    rw [cursor] at none
    cases none
  count := count.trans (Nat.zero_add w).symm
  few _ := count.trans_le few
  cursor c' h := by
    rw [cursor] at h
    cases h
    exact ge

/-- One more lane at the cursor. -/
lemma Team.add {tasks'' : List Act} {w' : Nat} (tm : Team cfg begin sh (X ++ Y) tasks w)
    (some : sh.cursor.isSome = true) (count : tasks''.length + w' = tasks.length + w) :
    Team cfg begin sh (X ++ .lane :: Y) tasks'' w' where
  grain := tm.grain
  halved b hb := by
    rcases List.mem_append.1 hb with h | h
    · exact tm.halved b (List.mem_append_left _ h)
    · rcases List.mem_cons.1 h with rfl | h
      · trivial
      · exact tm.halved b (List.mem_append_right _ h)
  kind b hb := by
    rcases List.mem_append.1 hb with h | h
    · exact tm.kind b (List.mem_append_left _ h)
    · rcases List.mem_cons.1 h with rfl | h
      · exact ⟨fun _ => some, fun _ => trivial⟩
      · exact tm.kind b (List.mem_append_right _ h)
  long none := by
    rw [none] at some
    cases some
  count := by
    have before := tm.count
    simp only [List.map_append, List.sum_append, List.map_cons, List.sum_cons] at before ⊢
    change _ = _ + (_ + (0 + _)) + _
    omega
  few := tm.few
  cursor := tm.cursor

/-- A lane is not made. -/
lemma Team.drop (tm : Team cfg begin sh X tasks (w + 1)) (some : sh.cursor.isSome = true) :
    Team cfg begin { sh with count := sh.count - 1 } X tasks w where
  grain := tm.grain
  halved := tm.halved
  kind := tm.kind
  long none := by
    change sh.cursor = .none at none
    rw [none] at some
    cases some
  count := by
    have before := tm.count
    change sh.count - 1 = _
    omega
  few _ := Nat.le_trans (Nat.sub_le _ _) (tm.few some)
  cursor := tm.cursor

/-- An activity is over. -/
lemma Team.finish {n : Nat} {p : List (Int × Int)} {r : Option (Int × Int)}
    (tm : Team cfg begin sh (X ++ .finished r :: Y) tasks w) (sub : ∀ b ∈ tasks', b ∈ tasks)
    (count : n + tasks.length = sh.count + tasks'.length) (le : n ≤ sh.count) :
    Team cfg begin { sh with count := n, past := p } (X ++ Y) tasks' w where
  grain := tm.grain
  halved b hb := tm.halved b ((List.Sublist.append_left (List.sublist_cons_self _ _) X).subset hb)
  kind b hb := tm.kind b ((List.Sublist.append_left (List.sublist_cons_self _ _) X).subset hb)
  long none := ⟨(tm.long none).1, fun b hb => (tm.long none).2 b (sub b hb)⟩
  count := by
    have before := tm.count
    simp only [List.map_append, List.sum_append, List.map_cons, List.sum_cons] at before ⊢
    change _ = _ + (_ + (0 + _)) + _ at before
    omega
  few some := Nat.le_trans le (tm.few some)
  cursor := tm.cursor

/-- A step of an activity. -/
lemma Team.move (tm : Team cfg begin sh (X ++ a :: Y) tasks w) (mv : Act.Moved stop sh a sh' a' new)
    (sub : ∀ b ∈ tasks', b ∈ tasks ∨ b = a' ∧ a ∈ tasks ∨ b ∈ new) (len : tasks'.length = tasks.length + new.length) :
    Team cfg begin sh' (X ++ a' :: Y ++ new) tasks' w := by
  have mem : ∀ b ∈ X ++ a' :: Y ++ new, b ∈ X ++ a :: Y ∨ b = a' ∨ b ∈ new := by
    intro b hb
    simp only [List.mem_append, List.mem_cons] at hb ⊢
    grind
  have kind := tm.kind a (List.mem_append_right _ List.mem_cons_self)
  refine ⟨?_, fun b hb => ?_, fun b hb => ?_, fun none => ⟨?_, fun b hb => ?_⟩, ?_, fun some => ?_, fun lo h => ?_⟩
  · rw [mv.grain]
    exact tm.grain
  · rcases mem b hb with h | rfl | h
    · exact tm.halved b h
    · exact mv.halved.1
    · exact mv.halved.2 b h
  · rw [mv.cursor]
    rcases mem b hb with h | rfl | h
    · exact tm.kind b h
    · exact mv.kind.1.trans kind
    · exact (mv.kind.2 b h).trans kind
  · exact (tm.long (mv.cursor_none none)).1
  · have old := tm.long (mv.cursor_none none)
    rcases sub b hb with h | ⟨rfl, h⟩ | h
    · exact old.2 b h
    · refine mv.long (fun lane => ?_) (old.2 a h)
      have some := kind.1 lane
      rw [mv.cursor_none none] at some
      cases some
    · exact (mv.new_long b h).1
  · have owes : (new.map Act.owed).sum = 0 := by
      refine List.sum_eq_zero fun x hx => ?_
      obtain ⟨b, hb, rfl⟩ := List.mem_map.1 hx
      exact (mv.new_long b hb).2
    have before := tm.count
    have moved := mv.count
    simp only [List.map_append, List.sum_append, List.map_cons, List.sum_cons] at before ⊢
    omega
  · rw [mv.cursor] at some
    rw [(mv.count_le (kind.2 some)).1]
    exact tm.few some
  · have some : sh.cursor.isSome = true := by
      rw [← mv.cursor, h]
      rfl
    obtain ⟨c, hc⟩ := Option.isSome_iff_exists.1 some
    obtain ⟨c', hc', le⟩ := mv.above c hc
    rw [h] at hc'
    cases hc'
    exact Int.le_trans (tm.cursor c hc) le

/-- The parts after a step of an activity. -/
lemma Act.Moved.tiles (mv : Act.Moved stop sh a sh' a' new)
    (t : Tiles (sh.past ++ sh.rest stop ++ (X ++ a :: Y).flatMap Act.spans) begin stop) :
    Tiles (sh'.past ++ sh'.rest stop ++ (X ++ a' :: Y ++ new).flatMap Act.spans) begin stop := by
  refine t.congr (fun r hr => ?_) fun i => ?_
  · have old := t.pos r
    simp only [List.flatMap_append, List.flatMap_cons, List.mem_append] at hr old
    rcases hr with (h | h) | (h | h | h) | h
    · rcases mv.past r h with h | h
      · exact old (.inl (.inl h))
      · exact old (.inr (.inr (.inl h)))
    · unfold Shared.rest at h
      split at h
      · cases h
      · exact mem_piece h
    · exact old (.inr (.inl h))
    · exact mv.pos r (List.mem_append_left _ h)
    · exact old (.inr (.inr (.inr h)))
    · exact mv.pos r (List.mem_append_right _ h)
  · have now := mv.covers i
    simp only [List.flatMap_append, List.flatMap_cons, cover_append]
    omega

/-- What an activity that is over had goes to the past. -/
lemma Act.tiles_over {past rest : List (Int × Int)} {r : Option (Int × Int)}
    (t : Tiles (past ++ rest ++ (X ++ .finished r :: Y).flatMap Act.spans) begin stop) :
    Tiles (past ++ r.toList ++ rest ++ (X ++ Y).flatMap Act.spans) begin stop := by
  refine t.congr (fun x hx => t.pos x ?_) fun i => ?_
  · simp only [List.flatMap_append, List.flatMap_cons, List.mem_append, Act.spans] at hx ⊢
    grind
  · simp only [List.flatMap_append, List.flatMap_cons, cover_append, Act.spans]
    omega

/-- The cursor only goes up. -/
lemma Act.Moved.rest_nil (mv : Act.Moved stop sh a sh' a' new) (h : sh.rest stop = []) : sh'.rest stop = [] := by
  unfold Shared.rest at *
  cases hc : sh.cursor with
  | none =>
    cases hc' : sh'.cursor with
    | none => rfl
    | some c' =>
      have some := mv.cursor
      rw [hc, hc'] at some
      cases some
  | some c =>
    obtain ⟨c', hc', le⟩ := mv.above c hc
    rw [hc] at h
    rw [hc']
    change piece c stop = [] at h
    change piece c' stop = []
    unfold piece at *
    refine if_neg fun lt => ?_
    rw [if_pos (Int.lt_of_le_of_lt le lt)] at h
    cases h

/-- The items of the probe, at most. -/
def cap (begin stop : Int) : Int := Probe.probeCap (stop - begin)

def State.Teamed (cfg : Config) (begin stop : Int) (s : State) : Prop :=
  Bounded cfg begin stop ∧ Team cfg begin s.sh s.acts s.tasks s.pc.left

/-- What is known at every point of the caller. -/
def State.Phase (cfg : Config) (begin stop : Int) (s : State) : Prop :=
  match s.pc with
  | .enter => s.Early
  | .probe p => s.Early ∧ Bounded cfg begin stop ∧ 0 ≤ p.probed ∧ p.probed ≤ cap begin stop ∧ 1 ≤ p.chunk
  | .probing p => s.Early ∧ Bounded cfg begin stop ∧ 0 ≤ p.probed ∧ p.probed < cap begin stop ∧ 1 ≤ p.chunk
  | .probed p => s.Early ∧ Bounded cfg begin stop ∧ 0 ≤ p.probed ∧ p.probed ≤ cap begin stop
  | .serial _ => s.Early
  | .fan _ _ => s.Early ∧ Bounded cfg begin stop
  | .cursor _ => s.Early ∧ Bounded cfg begin stop ∧ 16 ≤ s.sh.grain
  | .spawn _ => s.Teamed cfg begin stop ∧ s.sh.cursor.isSome = true
  | .act a => s.Teamed cfg begin stop ∧ (a = .finished none → s.sh.rest stop = [])
  | .wait => s.Teamed cfg begin stop ∧ s.sh.rest stop = []
  | .returned => s.tasks = [] ∧ s.sh.rest stop = [] ∧ s.sh.count = 0

structure Sound (cfg : Config) (begin stop : Int) (s : State) : Prop where
  tiles : Tiles (s.parts begin stop) begin stop
  overflow : s.sh.overflow = false
  phase : s.Phase cfg begin stop

/-- The arguments and the settings fit, a worker is left beside the reserved ones, and the cursor has room for one
more grain. -/
def InRange (cfg : Config) (begin stop : Int) (s : State) : Label → Prop
  | .enter => Bounded cfg begin stop
  | .cursor hot => hot < cfg.workers
  | .fetch => ∀ lo, s.sh.cursor = some lo → lo + s.sh.grain ≤ INT_MAX
  | .other => True

/-- Before the range is shared its parts are those of the caller. -/
lemma State.Early.parts (e : s.Early) (h : s.pc.acts = []) : s.parts begin stop = s.sh.past ++ s.pc.own begin stop := by
  obtain ⟨tasks, cursor, -⟩ := e
  unfold State.parts State.acts Shared.rest
  rw [tasks, cursor, h]
  simp

/-- Before the range is shared the cursor has nothing. -/
lemma State.Early.rest_nil (e : s.Early) : s.sh.rest stop = [] := by
  unfold Shared.rest
  rw [e.2.1]

/-- The parts of a range that is shared. -/
lemma State.parts_team (own : s.pc.own begin stop = []) :
    s.parts begin stop = s.sh.past ++ s.sh.rest stop ++ s.acts.flatMap Act.spans := by
  unfold State.parts
  rw [own, List.nil_append]

/-- There are tasks only while the range is shared, whatever becomes of the shared state. -/
lemma Sound.teamed (so : Sound cfg begin stop s) (some : s.tasks ≠ []) :
    s.Teamed cfg begin stop ∧ s.pc.own begin stop = [] ∧
      ∀ s' : State, s'.pc = s.pc → s'.Teamed cfg begin stop → s'.sh.cursor.isSome = s.sh.cursor.isSome →
        (s.sh.rest stop = [] → s'.sh.rest stop = []) → s'.Phase cfg begin stop := by
  have ph := so.phase
  obtain ⟨sh, pc, tasks⟩ := s
  cases pc with
  | spawn w =>
    refine ⟨ph.1, rfl, fun s' pc' tm cursor rest => ?_⟩
    unfold State.Phase
    rw [pc']
    exact ⟨tm, cursor.trans ph.2⟩
  | act a =>
    refine ⟨ph.1, rfl, fun s' pc' tm cursor rest => ?_⟩
    unfold State.Phase
    rw [pc']
    exact ⟨tm, fun e => rest (ph.2 e)⟩
  | wait =>
    refine ⟨ph.1, rfl, fun s' pc' tm cursor rest => ?_⟩
    unfold State.Phase
    rw [pc']
    exact ⟨tm, rest ph.2⟩
  | returned => exact absurd ph.1 some
  | enter => exact absurd ph.1 some
  | serial lo => exact absurd ph.1 some
  | probe p => exact absurd ph.1.1 some
  | probing p => exact absurd ph.1.1 some
  | probed p => exact absurd ph.1.1 some
  | fan lo w => exact absurd ph.1.1 some
  | cursor lo => exact absurd ph.1.1 some

/-- The caller goes on while the range is shared, and the activities have what they had. -/
lemma Sound.shared_tiles (so : Sound cfg begin stop s) (own : s.pc.own begin stop = [])
    (own' : s'.pc.own begin stop = []) (past : s'.sh.past = s.sh.past) (rest : s'.sh.rest stop = s.sh.rest stop)
    (spans : s'.acts.flatMap Act.spans = s.acts.flatMap Act.spans) : Tiles (s'.parts begin stop) begin stop := by
  have t := so.tiles
  rw [State.parts_team own] at t
  rw [State.parts_team own', past, rest, spans]
  exact t

/-- The caller goes on before it shares the range. -/
lemma Sound.early {pc : Pc} (so : Sound cfg begin stop s) (e : s.Early) (acts : s.pc.acts = []) (acts' : pc.acts = [])
    (tiles : Tiles (s.sh.past ++ s.pc.own begin stop) begin stop → Tiles (sh.past ++ pc.own begin stop) begin stop)
    (overflow : sh.overflow = false) (cursor : sh.cursor = s.sh.cursor) (count : sh.count = s.sh.count)
    (phase : State.Early { s with sh := sh, pc := pc } → State.Phase cfg begin stop { s with sh := sh, pc := pc }) :
    Sound cfg begin stop { s with sh := sh, pc := pc } := by
  have e' : State.Early { s with sh := sh, pc := pc } := by
    obtain ⟨tasks, none, zero⟩ := e
    exact ⟨tasks, cursor.trans none, count.trans zero⟩
  refine ⟨?_, overflow, phase e'⟩
  rw [e'.parts acts']
  refine tiles ?_
  rw [← e.parts acts]
  exact so.tiles

section
variable (lt : begin < stop) (hb : InInt begin) (hs : InInt stop)

include lt in
/-- The probe takes one item at least and no more than there are. -/
lemma one_le_cap : 1 ≤ cap begin stop ∧ cap begin stop ≤ stop - begin := by
  have div : (stop - begin).tdiv 32 = (stop - begin) / 32 := Int.tdiv_eq_ediv_of_nonneg (by omega)
  unfold cap Probe.probeCap
  rw [div]
  split <;> omega

/-- The next chunk of the probe. -/
lemma Probe.one_le_take {p : Probe} {c : Int} (h : p.probed < c) (chunk : 1 ≤ p.chunk) :
    1 ≤ p.take c ∧ p.probed + p.take c ≤ c := by
  unfold Probe.take
  split <;> omega

/-- A probe that goes on takes one item at least. -/
lemma Probe.one_le_chunk {p : Probe} {c t : Int} (h : p.probed < c) (chunk : 1 ≤ p.chunk) (one : 1 ≤ c) :
    1 ≤ (p.read c t).chunk := by
  have take := (Probe.one_le_take h chunk).1
  unfold Probe.read
  dsimp only
  generalize (if t > p.tPrev then t - p.tPrev else 1) = d
  generalize (p.take c * kProbeFloorNs).tdiv d = want
  split <;> split <;> omega

/-- One computation, which does not overflow. -/
lemma Shared.note_one {x : Int} (h : sh.overflow = false) (fits : InInt x) : (sh.note [x]).overflow = false := by
  refine Shared.note_overflow h fun y hy => ?_
  rw [List.mem_singleton.1 hy]
  exact fits

/-- What is known at the caller's point. -/
lemma Sound.phase_of {pc : Pc} (so : Sound cfg begin stop s) (h : s.pc = pc) :
    State.Phase cfg begin stop { s with pc := pc } := by
  have ph := so.phase
  obtain ⟨sh, c, tasks⟩ := s
  cases h
  exact ph

/-- A piece that is not empty. -/
lemma piece_pos {a b : Int} (h : a < b) : piece a b = [(a, b)] := if_pos h

/-- A piece that is empty. -/
lemma piece_nil {a b : Int} (h : b ≤ a) : piece a b = [] := if_neg (Int.not_lt.2 h)

/-- What the caller has in front of it lies in the range. -/
lemma Sound.own_within {r : Int × Int} (so : Sound cfg begin stop s) (e : s.Early) (acts : s.pc.acts = [])
    (h : r ∈ s.pc.own begin stop) : begin ≤ r.1 ∧ r.1 < r.2 ∧ r.2 ≤ stop := by
  have t := so.tiles
  rw [e.parts acts] at t
  obtain ⟨h₁, h₂⟩ := t.within (List.mem_append_right _ h)
  exact ⟨h₁, t.pos r (List.mem_append_right _ h), h₂⟩

include lt in
/-- The length of the range is an `int`. -/
lemma Bounded.lenFits (bd : Bounded cfg begin stop) : InInt (stop - begin) := by
  have := bd.len
  unfold InInt INT_MAX at *
  omega

include lt in
/-- The length of the range is not wrapped. -/
lemma Bounded.int_len (bd : Bounded cfg begin stop) : int (stop - begin) = stop - begin := int_eq (bd.lenFits lt)

include lt in
/-- Out of the entry with the whole range. -/
lemma Sound.enter {pc : Pc} {X : List Int} (so : Sound cfg begin stop s) (bd : Bounded cfg begin stop)
    (h : s.pc = .enter) (acts : pc.acts = []) (own : pc.own begin stop = [(begin, stop)]) (fits : ∀ x ∈ X, InInt x)
    (phase : State.Early { s with sh := s.sh.note ((stop - begin) :: X), pc := pc } →
      State.Phase cfg begin stop { s with sh := s.sh.note ((stop - begin) :: X), pc := pc }) :
    Sound cfg begin stop { s with sh := s.sh.note ((stop - begin) :: X), pc := pc } := by
  have ph : s.Early := so.phase_of h
  refine so.early ph (by rw [h]; rfl) acts ?_ (Shared.note_overflow so.overflow fun x hx => ?_) rfl rfl phase
  · rw [h, own]
    exact id
  · rcases List.mem_cons.1 hx with rfl | hx
    · exact bd.lenFits lt
    · exact fits x hx

/-- The product of the unmeasured gate. -/
lemma Bounded.gate (bd : Bounded cfg begin stop) (un : cfg.measuredWidth = false) (some : ¬cfg.Serial) :
    InInt (int cfg.workers * int cfg.minItersPerWorker) := by
  have le := bd.minIters un
  have few := bd.workers
  have pos : 0 < cfg.workers := by
    apply Nat.pos_of_ne_zero
    exact fun e => some (.inr (.inr e))
  have iters : cfg.minItersPerWorker ≤ cfg.workers * cfg.minItersPerWorker := Nat.le_mul_of_pos_left _ pos
  rw [← Int.natCast_mul] at le
  unfold INT_MAX WAITER_BIT at *
  rw [int_eq (by unfold InInt INT_MAX; omega), int_eq (by unfold InInt INT_MAX; omega), ← Int.natCast_mul]
  unfold InInt INT_MAX
  omega

include lt hb hs in
/-- What the probe has done fits. -/
lemma probed_fits {p : Probe} (bd : Bounded cfg begin stop) (nonneg : 0 ≤ p.probed) (le : p.probed ≤ cap begin stop) :
    InInt (begin + p.probed) := by
  have short := (one_le_cap lt).2
  have len := bd.len
  unfold InInt INT_MAX at *
  omega

/-- A grain of a split is 16 at least. -/
lemma splitGrain_ge (cfg : Config) (grain len : Int) (fanWidth : Nat) : 16 ≤ splitGrain cfg grain len fanWidth := by
  unfold splitGrain kMinGrain
  exact Int.le_max_right _ _

/-- The caller splits, or goes on to the cursor. -/
lemma Sound.fan {lo g : Int} {fanWidth : Nat} {lane : Bool} (so : Sound cfg begin stop s) (pc : s.pc = .fan lo fanWidth)
    (coarse : 16 ≤ g) :
    Sound cfg begin stop
      { s with
        sh := { s.sh with grain := g }.note [stop - lo]
        pc := if lane then .act (.split lo stop) else .cursor lo } := by
  obtain ⟨e, bd⟩ := so.phase_of pc
  have e : s.Early := e
  have mine : (lo, stop) ∈ s.pc.own begin stop := by
    rw [pc]
    exact List.mem_singleton_self (lo, stop)
  obtain ⟨ge, less, -⟩ := so.own_within e (by rw [pc]; rfl) mine
  have fits : InInt (stop - lo) := by
    have short := bd.len
    dsimp only at ge less
    unfold InInt INT_MAX at *
    omega
  cases lane with
  | false =>
    refine so.early e (by rw [pc]; rfl) rfl ?_ (Shared.note_one so.overflow fits) rfl rfl fun e => ⟨e, bd, coarse⟩
    rw [pc]
    exact id
  | true =>
    have t := so.tiles
    rw [e.parts (by rw [pc]; rfl), pc] at t
    obtain ⟨tasks, cursor, zero⟩ := e
    refine ⟨t.perm (.of_eq ?_), Shared.note_one so.overflow fits, ⟨bd, ?_⟩, by rintro ⟨⟩⟩
    · have none : Shared.rest stop ({ s.sh with grain := g }.note [stop - lo]) = [] := Shared.rest_none cursor
      unfold State.parts State.acts
      rw [tasks, none, List.append_nil]
      rfl
    · change Team cfg begin ({ s.sh with grain := g }.note [stop - lo]) ([.split lo stop] ++ s.tasks) s.tasks 0
      rw [tasks]
      exact .split coarse cursor zero

/-- A grain of the cursor is 16 at least. -/
lemma cursorGrain_ge (grain total W : Int) : 16 ≤ cursorGrain grain total W :=
  Int.le_trans (by decide) (Int.le_max_right _ _)

/-- There are as many lanes as workers beside the reserved ones, at most. -/
lemma cursorLanes_le {hot : Nat} {grain total : Int} (bd : Bounded cfg begin stop) (ok : hot < cfg.workers) :
    (cursorLanes grain total (int (cfg.workers - hot))).toNat ≤ cfg.workers := by
  have few := bd.workers
  unfold WAITER_BIT at few
  rw [int_eq (by unfold InInt INT_MAX; omega)]
  have le : cursorLanes grain total (cfg.workers - hot) ≤ cfg.workers - hot := Int.min_le_left _ _
  omega

/-- The cursor is set. -/
lemma Sound.cursor {lo g : Int} {w : Nat} (so : Sound cfg begin stop s) (pc : s.pc = .cursor lo)
    (coarse : 16 ≤ g) (few : w ≤ cfg.workers) :
    Sound cfg begin stop
      { s with sh := { s.sh with grain := g, cursor := some lo, count := w }, pc := .spawn w } := by
  obtain ⟨e, bd, -⟩ := so.phase_of pc
  have e : s.Early := e
  have mine : (lo, stop) ∈ s.pc.own begin stop := by
    rw [pc]
    exact List.mem_singleton_self (lo, stop)
  obtain ⟨ge, less, -⟩ := so.own_within e (by rw [pc]; rfl) mine
  have t := so.tiles
  rw [e.parts (by rw [pc]; rfl), pc] at t
  obtain ⟨tasks, cursor, zero⟩ := e
  refine ⟨t.perm (.of_eq ?_), so.overflow, ⟨bd, ?_⟩, rfl⟩
  · unfold State.parts State.acts
    rw [tasks]
    change _ = s.sh.past ++ piece lo stop ++ []
    rw [piece_pos less, List.append_nil]
    rfl
  · change Team cfg begin _ ([] ++ s.tasks) s.tasks w
    rw [tasks]
    exact .lanes coarse rfl ge rfl few

include lt hb hs in
/-- A step in range keeps every state sound. -/
lemma Step.sound (st : Step cfg begin stop grain s l s') (ok : InRange cfg begin stop s l)
    (so : Sound cfg begin stop s) : Sound cfg begin stop s' := by
  have bounds : InInt begin ∧ InInt stop := ⟨hb, hs⟩
  unfold InInt INT_MAX at bounds
  have none : ∀ x ∈ ([] : List Int), InInt x := by rintro _ ⟨⟩
  cases st with
  | enterEmpty pc le =>
    rw [Bounded.int_len lt ok] at le
    omega
  | enterSerial pc pos serial => exact so.enter lt ok pc rfl rfl none id
  | enterRemembered k pc pos no measured remembered le =>
    split
    · exact so.enter lt ok pc rfl rfl none id
    · exact so.enter lt ok pc rfl rfl none fun e => ⟨e, ok⟩
  | enterProbe t pc pos no measured =>
    have own : Pc.own begin stop (.probe { tPrev := t }) = [(begin, stop)] := by
      change piece (begin + 0) stop = _
      rw [Int.add_zero, piece_pos lt]
    have one := (one_le_cap lt).1
    exact so.enter lt ok pc rfl own none fun e => ⟨e, ok, Int.le_refl 0, by dsimp only; omega, Int.le_refl 1⟩
  | enterUnmeasured pc pos no measured =>
    have fits : ∀ x ∈ [int cfg.workers * int cfg.minItersPerWorker], InInt x := by
      intro x hx
      rw [List.mem_singleton.1 hx]
      exact Bounded.gate ok measured no
    split
    · exact so.enter lt ok pc rfl rfl fits id
    · exact so.enter lt ok pc rfl rfl fits fun e => ⟨e, ok⟩
  | @probe p pc more =>
    obtain ⟨e, bd, nonneg, le, chunk⟩ := so.phase_of pc
    rw [bd.int_len lt] at more
    obtain ⟨one, cap_le⟩ := one_le_cap lt
    unfold cap at one cap_le
    obtain ⟨take, room⟩ := Probe.one_le_take more chunk
    refine so.early e (by rw [pc]; rfl) rfl (fun t => ?_) (Shared.note_overflow so.overflow fun x hx => ?_) rfl rfl
      fun e => ⟨e, bd, nonneg, more, chunk⟩
    · rw [pc] at t
      change Tiles (_ ++ piece (begin + p.probed) stop) begin stop at t
      rw [piece_pos (by omega)] at t
      change Tiles (s.sh.past ++ (begin + p.probed, begin + p.probed + p.take (Probe.probeCap (stop - begin))) ::
        piece (begin + p.probed + p.take (Probe.probeCap (stop - begin))) stop) begin stop
      refine t.congr (fun r hr => ?_) fun i => ?_
      · rcases List.mem_append.1 hr with hr | hr
        · exact t.pos r (List.mem_append_left _ hr)
        · rcases List.mem_cons.1 hr with rfl | hr
          · dsimp only
            omega
          · exact mem_piece hr
      · rw [cover_append, cover_append, cover_cons, cover_piece, cover_single]
        dsimp only
        split <;> split <;> split <;> omega
    · rw [bd.int_len lt] at hx
      unfold InInt INT_MAX
      rcases List.mem_cons.1 hx with rfl | hx
      · omega
      · rw [List.mem_singleton.1 hx]
        omega
  | @probeOver p pc ended =>
    obtain ⟨e, bd, nonneg, le, chunk⟩ := so.phase_of pc
    refine so.early e (by rw [pc]; rfl) rfl ?_ so.overflow rfl rfl fun e => ⟨e, bd, nonneg, le⟩
    rw [pc]
    exact id
  | @probing p tNow pc =>
    obtain ⟨e, bd, nonneg, more, chunk⟩ := so.phase_of pc
    rw [bd.int_len lt]
    obtain ⟨one, cap_le⟩ := one_le_cap lt
    unfold cap at one cap_le more
    obtain ⟨take, room⟩ := Probe.one_le_take more chunk
    have chunk' := Probe.one_le_chunk (t := tNow) more chunk one
    have tiles : Tiles (s.sh.past ++ s.pc.own begin stop) begin stop →
        Tiles (s.sh.past ++ [(begin + p.probed, begin + p.probed + p.take (Probe.probeCap (stop - begin)))] ++
          piece (begin + (p.probed + p.take (Probe.probeCap (stop - begin)))) stop) begin stop := by
      rw [pc, List.append_assoc, ← Int.add_assoc]
      exact id
    have fits : InInt (p.probed + p.take (Probe.probeCap (stop - begin))) := by
      have short := bd.len
      unfold InInt INT_MAX at *
      omega
    dsimp only
    split
    · exact so.early e (by rw [pc]; rfl) rfl tiles (Shared.note_one so.overflow fits) rfl rfl
        fun e => ⟨e, bd, Int.add_nonneg nonneg (by omega), room⟩
    · exact so.early e (by rw [pc]; rfl) rfl tiles (Shared.note_one so.overflow fits) rfl rfl
        fun e => ⟨e, bd, Int.add_nonneg nonneg (by omega), room, chunk'⟩
  | @probedAll p pc all =>
    obtain ⟨e, bd, nonneg, le⟩ := so.phase_of pc
    have fits := probed_fits lt hb hs bd nonneg le
    rw [int_eq fits] at all
    refine so.early e (by rw [pc]; rfl) rfl ?_ (Shared.note_one so.overflow fits) rfl rfl
      fun e => ⟨e.1, e.rest_nil, e.2.2⟩
    rw [pc]
    change Tiles (_ ++ piece (begin + p.probed) stop) _ _ → _
    rw [piece_nil all]
    exact id
  | @probedCheap p pc more cheap =>
    obtain ⟨e, bd, nonneg, le⟩ := so.phase_of pc
    have fits := probed_fits lt hb hs bd nonneg le
    rw [int_eq fits] at more ⊢
    refine so.early e (by rw [pc]; rfl) rfl ?_ (Shared.note_one so.overflow fits) rfl rfl id
    rw [pc]
    change Tiles (_ ++ piece (begin + p.probed) stop) _ _ → _
    rw [piece_pos more]
    exact id
  | @probed p k pc more cheap le =>
    obtain ⟨e, bd, nonneg, le⟩ := so.phase_of pc
    have fits := probed_fits lt hb hs bd nonneg le
    rw [int_eq fits] at more ⊢
    have tiles : Tiles (s.sh.past ++ s.pc.own begin stop) begin stop →
        Tiles (s.sh.past ++ [(begin + p.probed, stop)]) begin stop := by
      rw [pc]
      change Tiles (_ ++ piece (begin + p.probed) stop) _ _ → _
      rw [piece_pos more]
      exact id
    have ended := Shared.note_one so.overflow fits
    split
    · exact so.early e (by rw [pc]; rfl) rfl tiles ended rfl rfl id
    · exact so.early e (by rw [pc]; rfl) rfl tiles ended rfl rfl fun e => ⟨e, bd⟩
  | @serial lo pc =>
    have e := so.phase_of pc
    refine so.early e (by rw [pc]; rfl) rfl ?_ so.overflow rfl rfl fun e => ⟨e.1, e.rest_nil, e.2.2⟩
    rw [pc]
    change Tiles (s.sh.past ++ [(lo, stop)]) begin stop → Tiles (s.sh.past ++ [(lo, stop)] ++ []) begin stop
    rw [List.append_nil]
    exact id
  | @fan lo fanWidth lane pc => exact so.fan pc (splitGrain_ge ..)
  | @cursor lo hot pc =>
    obtain ⟨-, bd, -⟩ := so.phase_of pc
    exact so.cursor pc (cursorGrain_ge ..) (cursorLanes_le bd ok)
  | @spawn w pc =>
    obtain ⟨⟨bd, tm⟩, some⟩ := so.phase_of pc
    refine ⟨so.shared_tiles (by rw [pc]; rfl) rfl rfl rfl ?_, so.overflow, ⟨bd, ?_⟩, some⟩
    · unfold State.acts
      rw [pc]
      simp [Pc.acts, Act.spans]
    · have tm : Team cfg begin s.sh (s.tasks ++ []) s.tasks (w + 1) := by
        rw [List.append_nil]
        exact tm
      refine tm.add some ?_
      rw [List.length_append]
      change s.tasks.length + 1 + w = _
      omega
  | @spawnFails w pc =>
    obtain ⟨⟨bd, tm⟩, some⟩ := so.phase_of pc
    refine ⟨so.shared_tiles (by rw [pc]; rfl) rfl rfl rfl ?_, so.overflow, ⟨bd, tm.drop some⟩, some⟩
    unfold State.acts
    rw [pc]
    rfl
  | @spawned pc =>
    obtain ⟨⟨bd, tm⟩, some⟩ := so.phase_of pc
    refine ⟨so.shared_tiles (by rw [pc]; rfl) rfl rfl rfl ?_, so.overflow, ⟨bd, ?_⟩, by rintro ⟨⟩⟩
    · unfold State.acts
      rw [pc]
      rfl
    · exact tm.add (X := []) some rfl
  | @act a l sh a' new pc st =>
    obtain ⟨⟨bd, tm⟩, ended⟩ := so.phase_of pc
    have t := so.tiles
    rw [State.parts_team (by rw [pc]; rfl)] at t
    have acts : s.acts = [] ++ a :: s.tasks := by
      unfold State.acts
      rw [pc]
      rfl
    rw [acts] at t
    have rd := Team.ready tm bd hb hs (l := l) (X := []) ?_ t
    · have mv := st.moved rd
      refine ⟨?_, mv.overflow so.overflow, ⟨bd, ?_⟩, mv.ended⟩
      · rw [State.parts_team rfl]
        exact mv.tiles t
      · refine tm.move (X := []) mv (fun b hb => ?_) List.length_append
        exact (List.mem_append.1 hb).imp_right .inr
    · rintro rfl
      exact ok
  | @finish r pc =>
    obtain ⟨⟨bd, tm⟩, ended⟩ := so.phase_of pc
    have t := so.tiles
    rw [State.parts_team (by rw [pc]; rfl)] at t
    have acts : s.acts = [] ++ .finished r :: s.tasks := by
      unfold State.acts
      rw [pc]
      rfl
    rw [acts] at t
    refine ⟨?_, so.overflow, ⟨bd, tm.finish (X := []) (fun b hb => hb) rfl (Nat.le_refl _)⟩, ?_⟩
    · rw [State.parts_team rfl]
      exact Act.tiles_over t
    · cases r with
      | none => exact ended rfl
      | some r =>
        have no := tm.kind (.finished (some r)) List.mem_cons_self
        have cursor : s.sh.cursor = .none := Option.not_isSome_iff_eq_none.1 fun some => no.2 some
        change s.sh.rest stop = []
        unfold Shared.rest
        rw [cursor]
  | «return» pc zero =>
    obtain ⟨⟨bd, tm⟩, ended⟩ := so.phase_of pc
    refine ⟨so.shared_tiles (by rw [pc]; rfl) rfl rfl rfl ?_, so.overflow, ?_, ended, zero⟩
    · unfold State.acts
      rw [pc]
      rfl
    · have count : s.sh.count = s.tasks.length + _ + _ := tm.count
      exact List.eq_nil_of_length_eq_zero (by change s.tasks.length = 0; omega)
  | @task as bs a l sh a' new tasks st =>
    have busy : s.tasks ≠ [] := by
      rw [tasks]
      exact List.append_ne_nil_of_right_ne_nil _ (List.cons_ne_nil _ _)
    obtain ⟨⟨bd, tm⟩, own, phase⟩ := so.teamed busy
    have t := so.tiles
    rw [State.parts_team own] at t
    have acts : s.acts = s.pc.acts ++ as ++ a :: bs := by
      unfold State.acts
      rw [tasks, List.append_assoc]
    rw [acts] at t tm
    have rd := tm.ready bd hb hs (l := l) ?_ t
    · have mv := st.moved rd
      have acts' : State.acts { s with sh := sh, tasks := as ++ a' :: bs ++ new } =
          s.pc.acts ++ as ++ a' :: bs ++ new := by
        unfold State.acts
        simp only [List.append_assoc]
      refine ⟨?_, mv.overflow so.overflow, phase _ rfl ⟨bd, ?_⟩ mv.cursor mv.rest_nil⟩
      · rw [State.parts_team (s := { s with sh := sh, tasks := as ++ a' :: bs ++ new }) own, acts']
        exact mv.tiles t
      · rw [acts']
        refine tm.move mv (fun b hb => ?_) ?_
        · rw [tasks]
          simp only [List.mem_append, List.mem_cons] at hb ⊢
          grind
        · rw [tasks]
          simp only [List.length_append, List.length_cons]
    · rintro rfl
      exact ok
  | @complete as bs r tasks =>
    have busy : s.tasks ≠ [] := by
      rw [tasks]
      exact List.append_ne_nil_of_right_ne_nil _ (List.cons_ne_nil _ _)
    obtain ⟨⟨bd, tm⟩, own, phase⟩ := so.teamed busy
    have t := so.tiles
    rw [State.parts_team own] at t
    have acts : s.acts = s.pc.acts ++ as ++ .finished r :: bs := by
      unfold State.acts
      rw [tasks, List.append_assoc]
    rw [acts] at t tm
    have some : 1 ≤ s.sh.count := by
      have count := tm.count
      rw [tasks, List.length_append, List.length_cons] at count
      omega
    have acts' : ∀ sh, State.acts { s with sh := sh, tasks := as ++ bs } = s.pc.acts ++ as ++ bs :=
      fun _ => (List.append_assoc ..).symm
    refine ⟨?_, so.overflow, phase _ rfl ⟨bd, ?_⟩ rfl id⟩
    · rw [State.parts_team (s := { s with sh := _, tasks := as ++ bs }) own, acts']
      exact Act.tiles_over t
    · rw [acts']
      refine tm.finish (fun b hb => ?_) ?_ (Nat.sub_le _ _)
      · rw [tasks]
        refine (List.mem_append.1 hb).elim (List.mem_append_left _) fun h => ?_
        exact List.mem_append_right _ (List.mem_cons_of_mem _ h)
      · rw [tasks, List.length_append, List.length_append, List.length_cons]
        omega

end

end JLib.ParallelFor
