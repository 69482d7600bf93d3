import JLib.Timer.Generation
import JLib.Timer.Order

/-!
# What became of the timers

The queue together with what its callers can tell of it: the clock in nanoseconds, which call of `Arm`
filled each entry last, and a log of the accepted calls of `Arm`, of the calls of `Disarm` that returned
true, and of the timers that passes of `Run` took out to be fired. The queue runs as in `Timer/Queue.lean`;
the rest only records, newest first.

A timer counts as fired when the pass takes it out of the wheel: its callback is on the stack of the timer
thread then, which calls it next whatever the other threads do.
-/

namespace JLib.Timer
open LTS Impl

deriving instance Repr, DecidableEq for Call

/-- An accepted call of `Arm`: what it returned, how often the entry had been filled before, what the
clock read, and what it was called with. -/
structure Arming where
  handle : TimerHandle := ⟨0, 0⟩
  nth : Nat := 0
  ns : Int := 0
  call : Call := { delayNs := 0, action := ⟨0, none, none⟩ }
  deriving Repr, DecidableEq

/-- The deadline `Arm` computes from the clock and the delay. -/
def Arming.deadlineTick (x : Arming) : Int := x.ns / tickNs + delayTicks x.call.delayNs

inductive Note where
  | armed (x : Arming)
  | disarmed (x : Arming)
  | fired (x : Arming) (ns : Int)
  deriving Repr, DecidableEq

namespace Note

/-- The note of a call of `Arm` that filled entry `i`. -/
def fills (i : Nat) : Note → Bool
  | armed x => x.handle.idx = i
  | _ => false

def fires (x : Arming) : Note → Bool
  | fired y _ => y = x
  | _ => false

/-- The note that says what became of the timer of `x`. -/
def resolves (x : Arming) : Note → Bool
  | armed _ => false
  | disarmed y => y = x
  | fired y _ => y = x

end Note

structure History where
  queue : Queue := {}
  -- the clock, since the queue's epoch
  ns : Int := 0
  -- the call that filled an entry last
  owner : Nat → Arming := fun _ => {}
  log : List Note := []

namespace History

/-- How often entry `i` was filled. -/
def fills (s : History) (i : Nat) : Nat := s.log.countP (Note.fills i)

def firings (s : History) (x : Arming) : Nat := s.log.countP (Note.fires x)

def disarms (s : History) (x : Arming) : Nat := s.log.count (.disarmed x)

/-- The timer of `x` is in the wheel. -/
def Holds (s : History) (x : Arming) : Prop :=
  x.handle.idx ∈ armed s.queue.impl ∧ s.owner x.handle.idx = x

instance (s : History) (x : Arming) : Decidable (s.Holds x) := by
  unfold Holds
  infer_instance

/-- What is recorded when the queue goes on to `q`. -/
def record (s : History) (a : Label) (q : Queue) : History :=
  match a with
  | .tick ns => { s with queue := q, ns := ns }
  | .arm call =>
    if s.queue.accepts call then
      let h := (s.queue.impl.Arm s.queue.clock call.delayNs call.action).2.1
      let x : Arming := ⟨h, s.fills h.idx, s.ns, call⟩
      { s with queue := q, owner := Function.update s.owner h.idx x, log := .armed x :: s.log }
    else { s with queue := q }
  | .disarm h =>
    if (s.queue.impl.Disarm h).2 then
      { s with queue := q, log := .disarmed (s.owner h.idx) :: s.log }
    else { s with queue := q }
  | .run =>
    { s with
      queue := q
      log := ((s.queue.impl.RunPass s.queue.clock).2.batch.map fun d =>
        .fired (s.owner d.idx) s.ns) ++ s.log }
  | .wake | .exit | .stop | .start => { s with queue := q }

end History

/-- The queue reads the clock in ticks. -/
def Label.inTicks : Label → Label
  | .tick ns => .tick (ns / tickNs)
  | a => a

inductive Recorded : History → Label → History → Prop where
  | mk {s a q} :
    (∀ ns, a = .tick ns → s.ns ≤ ns) →
    Step s.queue a.inTicks q →
    Recorded s a (s.record a q)

variable {s u : History} {a : Label} {held : Spot → List Nat} {x y : Arming} {i k : Nat}

/-- Recording leaves the queue as the step made it. -/
lemma History.record_queue (s : History) (a : Label) (q : Queue) : (s.record a q).queue = q := by
  cases a with
  | tick _ => rfl
  | arm _ =>
    unfold History.record
    simp only
    split <;> rfl
  | disarm _ =>
    unfold History.record
    simp only
    split <;> rfl
  | run => rfl
  | wake => rfl
  | exit => rfl
  | stop => rfl
  | start => rfl

/-- What is recorded is a step of the queue. -/
lemma Recorded.queue (rc : Recorded s a u) : Step s.queue a.inTicks u.queue := by
  cases rc with
  | mk _ st => rwa [History.record_queue]

/-- Recording changes nothing about the runs of the queue. -/
lemma recorded_reaches (rn : Reaches Recorded {} s) : Reaches Step {} s.queue := by
  induction rn with
  | refl => exact .refl
  | tail _ _ rc ih => exact ih.tail trivial rc.queue

/-! ## What one step records -/

/-- A timer enters the wheel. -/
structure Enters (s u : History) (x : Arming) : Prop where
  log : u.log = .armed x :: s.log
  owner : u.owner = Function.update s.owner x.handle.idx x
  nth : x.nth = s.fills x.handle.idx
  now : x.ns = s.ns
  free : x.handle.idx ∉ armed s.queue.impl
  armed : armed u.queue.impl = insert x.handle.idx (armed s.queue.impl)
  currentTick : u.queue.impl.currentTick = max s.queue.impl.currentTick s.queue.clock
  size : u.queue.impl.size = max s.queue.impl.size (x.handle.idx + 1)
  generation : (x.handle.idx < s.queue.impl.size ∧ x.handle.generation =
      ((s.queue.impl.entries x.handle.idx).generation + 1) % 2 ^ 32) ∨
    x.handle.idx = s.queue.impl.size ∧ x.handle.generation = 1
  entry : (u.queue.impl.entries x.handle.idx).generation = x.handle.generation
  deadlineTick : (u.queue.impl.entries x.handle.idx).deadlineTick =
    s.queue.clock + delayTicks x.call.delayNs
  action : (u.queue.impl.entries x.handle.idx).action = some x.call.action
  others : ∀ k ≠ x.handle.idx, k < s.queue.impl.size → SameTimer s.queue.impl u.queue.impl k

/-- The timers in the entries `Y` leave the wheel, and `note` is what is said of them. -/
structure Leaves (s u : History) (note : Arming → Note) (Y : List Nat) : Prop where
  log : u.log = (Y.map fun k => note (s.owner k)) ++ s.log
  owner : u.owner = s.owner
  nodup : Y.Nodup
  sub : ∀ k ∈ Y, k ∈ armed s.queue.impl
  armed : armed u.queue.impl = armed s.queue.impl \ Y.toFinset
  size : u.queue.impl.size = s.queue.impl.size
  generation : ∀ k ∈ Y, (u.queue.impl.entries k).generation =
    ((s.queue.impl.entries k).generation + 1) % 2 ^ 32
  others : ∀ k ∉ Y, SameTimer s.queue.impl u.queue.impl k
  how : note = .disarmed ∨ (note = fun x => .fired x s.ns) ∧
    ∀ k ∈ Y, (s.queue.impl.entries k).deadlineTick ≤ s.queue.clock

/-- Nothing happens to the timers. -/
lemma Leaves.nothing (hq : u.queue.impl = s.queue.impl) (ho : u.owner = s.owner)
    (hl : u.log = s.log) : Leaves s u .disarmed [] := by
  refine ⟨hl, ho, List.nodup_nil, nofun, ?_, by rw [hq], nofun, fun k _ => ?_, .inl rfl⟩
  · rw [hq, List.toFinset_nil, Finset.sdiff_empty]
  · rw [hq]
    exact .rfl

/-- An accepted `Arm` puts one timer into the wheel. -/
lemma Table.enters (tb : Table s.queue.impl held) {call : Call}
    (acc : s.queue.accepts call = true) :
    ∃ x, x.call = call ∧ Enters s (s.record (.arm call) (s.queue.Arm call)) x := by
  obtain ⟨held1, tb1, arm1, size1, tick1, same1⟩ := tb.moveTo s.queue.clock
  obtain ⟨held2, tb2, an, -⟩ := tb1.arm (s.queue.clock + delayTicks call.delayNs) call.action
  have gen := armEntry_generation (s.queue.impl.AdvanceTo s.queue.clock)
    (s.queue.clock + delayTicks call.delayNs) call.action
  have size := armEntry_size (s.queue.impl.AdvanceTo s.queue.clock)
    (s.queue.clock + delayTicks call.delayNs) call.action
  have whence := AcquireEntry_generation tb1
  have grown := (AcquireEntry_fields tb1).2.2.2.1
  rw [size1] at whence grown
  rw [Queue.Arm_eq acc]
  simp only [History.record, acc, if_true]
  refine ⟨⟨⟨((s.queue.impl.AdvanceTo s.queue.clock).armEntry
    (s.queue.clock + delayTicks call.delayNs) call.action).2, _⟩, _, s.ns, call⟩, rfl, rfl, rfl, rfl,
    rfl, ?_, ?_, an.currentTick.trans tick1, size.trans grown, ?_, rfl, an.deadlineTick, an.action, fun k ne lt => ?_⟩
  · have free := an.fresh
    rwa [arm1] at free
  · have filled := an.armed
    rwa [arm1] at filled
  · rcases whence with ⟨lt, e⟩ | ⟨new, e⟩
    · rw [e, (same1 _).2.1] at gen
      exact .inl ⟨lt, gen⟩
    · rw [e] at gen
      exact .inr ⟨new, gen⟩
  · obtain ⟨h1, h2, h3⟩ := an.others k ne (size1 ▸ lt)
    obtain ⟨h4, h5, h6⟩ := same1 k
    exact ⟨h1.trans h4, h2.trans h5, h3.trans h6⟩

/-- `Disarm` takes the timers it finds out of the wheel, one or none. -/
lemma Table.leaves_disarm (tb : Table s.queue.impl held) (h : TimerHandle) :
    ∃ Y, Leaves s (s.record (.disarm h) (s.queue.Disarm h)) .disarmed Y := by
  rcases tb.disarm h with e | ⟨_, e, live, -, -, re, -⟩
  · have hq : (s.queue.Disarm h).impl = s.queue.impl := by
      unfold Queue.Disarm
      rw [e]
    unfold History.record
    simp only [e, Bool.false_eq_true, if_false]
    exact ⟨[], .nothing hq rfl rfl⟩
  · have hq : (s.queue.Disarm h).impl = s.queue.impl.retire h.idx := by
      unfold Queue.Disarm
      rw [e]
    unfold History.record
    simp only [e, if_true]
    refine ⟨[h.idx], rfl, rfl, List.nodup_singleton _, fun k hk => ?_, ?_, ?_, fun k hk => ?_,
      fun k hk => ?_, .inl rfl⟩
    · rw [List.mem_singleton.1 hk]
      exact live
    · rw [hq, re.armed_eq live, List.toFinset_cons, List.toFinset_nil, insert_empty_eq,
        Finset.sdiff_singleton_eq_erase]
    · rw [hq, re.size]
    · rw [hq, List.mem_singleton.1 hk, re.generation]
    · rw [hq]
      exact re.same fun e => hk (List.mem_singleton.2 e)

/-- A pass takes out of the wheel what it fires. -/
lemma Table.leaves_run (tb : Table s.queue.impl held) (h0 : 0 ≤ s.queue.impl.currentTick) :
    ∃ Y, Leaves s (s.record .run s.queue.Run) (fun x => .fired x s.ns) Y := by
  obtain ⟨Y, he, pd⟩ := tb.passed h0 s.queue.clock
  refine ⟨Y, ?_, rfl, pd.nodup, fun k hk => (pd.due k hk).1, ?_, ?_, ?_, ?_,
    .inr ⟨rfl, fun k hk => (pd.due k hk).2⟩⟩
  · unfold History.record
    simp only [he, List.map_map]
    rfl
  · rw [History.record_queue, Queue.Run_impl]
    exact pd.armed
  · rw [History.record_queue, Queue.Run_impl]
    exact pd.size
  · rw [History.record_queue, Queue.Run_impl]
    exact pd.fired
  · rw [History.record_queue, Queue.Run_impl]
    exact pd.others

/-- A step lets one timer into the wheel, or takes some out. -/
lemma Recorded.turn (rc : Recorded s a u) (tb : Table s.queue.impl held)
    (h0 : 0 ≤ s.queue.impl.currentTick) :
    (∃ x, Enters s u x) ∨ ∃ note Y, Leaves s u note Y := by
  obtain ⟨-, st⟩ := rc
  cases a with
  | tick ns =>
    cases st
    exact .inr ⟨_, _, .nothing rfl rfl rfl⟩
  | arm call =>
    cases st
    by_cases acc : s.queue.accepts call = true
    · obtain ⟨x, -, en⟩ := tb.enters acc
      exact .inl ⟨x, en⟩
    · refine .inr ⟨_, _, .nothing ?_ ?_ ?_⟩
      · rw [History.record_queue]
        unfold Queue.Arm
        rw [if_neg acc]
      · simp [History.record, acc]
      · simp [History.record, acc]
  | disarm h =>
    cases st
    exact .inr ⟨_, tb.leaves_disarm h⟩
  | run =>
    cases st
    exact .inr ⟨_, tb.leaves_run h0⟩
  | wake =>
    cases st
    exact .inr ⟨_, _, .nothing rfl rfl rfl⟩
  | exit =>
    cases st
    exact .inr ⟨_, _, .nothing rfl rfl rfl⟩
  | stop =>
    cases st
    refine .inr ⟨_, _, .nothing ?_ rfl rfl⟩
    show s.queue.Stop.impl = _
    unfold Queue.Stop
    split <;> rfl
  | start =>
    cases st
    exact .inr ⟨_, _, .nothing rfl rfl rfl⟩

/-! ## What holds of every history -/

/-- What the log and the wheel have to do with each other. -/
structure Told (s : History) : Prop where
  -- an entry that was filled `m` times is on generation `2 * m` when it is free
  unfilled : ∀ i, s.queue.impl.size ≤ i → s.fills i = 0
  free : ∀ i < s.queue.impl.size, i ∉ armed s.queue.impl →
    (s.queue.impl.entries i).generation = 2 * s.fills i % 2 ^ 32
  handle : ∀ i ∈ armed s.queue.impl,
    (s.owner i).handle = ⟨i, (s.queue.impl.entries i).generation⟩
  last : ∀ i ∈ armed s.queue.impl, (s.owner i).nth + 1 = s.fills i
  deadlineTick : ∀ i ∈ armed s.queue.impl,
    (s.queue.impl.entries i).deadlineTick = (s.owner i).deadlineTick
  action : ∀ i ∈ armed s.queue.impl,
    (s.queue.impl.entries i).action = some (s.owner i).call.action
  -- what `Arm` returned, and that the calls for one entry are told apart by their number
  nth : ∀ x, .armed x ∈ s.log →
    x.nth < s.fills x.handle.idx ∧ x.handle.generation = (2 * x.nth + 1) % 2 ^ 32
  apart : ∀ x y, .armed x ∈ s.log → .armed y ∈ s.log →
    x.handle.idx = y.handle.idx → x.nth = y.nth → x = y
  once : ∀ x, s.log.count (.armed x) ≤ 1
  -- every timer is in the wheel or was resolved, and not both
  resolved : ∀ x, s.log.countP (Note.resolves x) + (if s.Holds x then 1 else 0) =
    s.log.count (.armed x)
  clock : s.queue.clock = s.ns / tickNs
  fired : ∀ x ns, .fired x ns ∈ s.log → x.deadlineTick ≤ ns / tickNs

/-- The call that filled an armed entry is in the log. -/
lemma Told.owner_armed (td : Told s) (hi : i ∈ armed s.queue.impl) : .armed (s.owner i) ∈ s.log := by
  have idx : (s.owner i).handle.idx = i := by rw [td.handle i hi]
  have holds : s.Holds (s.owner i) := by
    unfold History.Holds
    rw [idx]
    exact ⟨hi, rfl⟩
  have count := td.resolved (s.owner i)
  rw [if_pos holds] at count
  exact List.count_pos_iff.1 (by omega)

/-- Nothing is told of the empty queue. -/
lemma Told.init : Told {} := by
  have none : ∀ i, i ∉ armed ({} : History).queue.impl := fun _ hi =>
    Nat.not_lt_zero _ (mem_armed.1 hi).1
  constructor
  · intro i _
    rfl
  · intro i lt
    exact absurd lt (Nat.not_lt_zero i)
  · exact fun i hi => absurd hi (none i)
  · exact fun i hi => absurd hi (none i)
  · exact fun i hi => absurd hi (none i)
  · exact fun i hi => absurd hi (none i)
  · intro x hx
    cases hx
  · intro x y hx
    cases hx
  · intro x
    exact Nat.zero_le _
  · intro x
    rw [if_neg fun h : History.Holds {} x => none _ h.1]
    rfl
  · rw [Int.zero_ediv]
  · intro x ns hx
    cases hx

/-- The entry of the new timer was filled once more. -/
lemma Enters.fills (en : Enters s u x) (i : Nat) :
    u.fills i = s.fills i + if x.handle.idx = i then 1 else 0 := by
  unfold History.fills
  rw [en.log, List.countP_cons]
  simp [Note.fills]

/-- The new call of `Arm` is told apart from those before it. -/
lemma Told.enters (td : Told s) (en : Enters s u x) (clock : u.queue.clock = u.ns / tickNs) :
    Told u := by
  have fills := en.fills
  have self : u.owner x.handle.idx = x := by
    rw [en.owner, Function.update_self]
  have other : ∀ i ≠ x.handle.idx, u.owner i = s.owner i := by
    intro i ne
    rw [en.owner, Function.update_of_ne ne]
  have old : ∀ i ∈ armed u.queue.impl, i ≠ x.handle.idx → i ∈ armed s.queue.impl := by
    intro i hi ne
    rw [en.armed, Finset.mem_insert] at hi
    exact hi.resolve_left ne
  have same : ∀ i ∈ armed s.queue.impl, i ≠ x.handle.idx →
      SameTimer s.queue.impl u.queue.impl i := by
    intro i hi ne
    exact en.others i ne (mem_armed.1 hi).1
  have new : .armed x ∉ s.log := by
    intro hx
    have lt := (td.nth x hx).1
    have e := en.nth
    omega
  have generation : x.handle.generation = (2 * x.nth + 1) % 2 ^ 32 := by
    rw [en.nth]
    rcases en.generation with ⟨lt, e⟩ | ⟨grown, e⟩
    · rw [e, td.free _ lt en.free]
      omega
    · rw [e, td.unfilled _ (by omega)]
      rfl
  constructor
  · intro i le
    rw [en.size] at le
    rw [fills, td.unfilled i (by omega), if_neg (by omega)]
  · intro i lt out
    have ne : i ≠ x.handle.idx := by
      rintro rfl
      apply out
      rw [en.armed]
      exact Finset.mem_insert_self _ _
    have lt' : i < s.queue.impl.size := by
      rw [en.size] at lt
      rcases en.generation with ⟨_, _⟩ | ⟨_, _⟩
      · omega
      · omega
    have out' : i ∉ armed s.queue.impl := by
      rw [en.armed] at out
      exact fun h => out (Finset.mem_insert_of_mem h)
    rw [(en.others i ne lt').2.1, fills, if_neg (Ne.symm ne), td.free i lt' out']
    rfl
  · intro i hi
    by_cases e : i = x.handle.idx
    · subst e
      rw [self, en.entry]
    · have hi' := old i hi e
      rw [other i e, td.handle i hi', (same i hi' e).2.1]
  · intro i hi
    by_cases e : i = x.handle.idx
    · subst e
      rw [self, fills, if_pos rfl, en.nth]
    · rw [other i e, fills, if_neg (Ne.symm e), td.last i (old i hi e)]
      rfl
  · intro i hi
    by_cases e : i = x.handle.idx
    · subst e
      rw [self, en.deadlineTick, td.clock, ← en.now]
      rfl
    · have hi' := old i hi e
      rw [other i e, (same i hi' e).1, td.deadlineTick i hi']
  · intro i hi
    by_cases e : i = x.handle.idx
    · subst e
      rw [self, en.action]
    · have hi' := old i hi e
      rw [other i e, (same i hi' e).2.2, td.action i hi']
  · intro y hy
    rw [en.log] at hy
    rcases List.mem_cons.1 hy with e | hy
    · cases e
      rw [fills, if_pos rfl]
      exact ⟨by rw [en.nth]; omega, generation⟩
    · obtain ⟨lt, e⟩ := td.nth y hy
      rw [fills]
      exact ⟨by omega, e⟩
  · intro y z hy hz idx nth
    rw [en.log] at hy hz
    rcases List.mem_cons.1 hy with e | hy
    · cases e
      rcases List.mem_cons.1 hz with e | hz
      · cases e
        rfl
      · have lt := (td.nth z hz).1
        rw [← idx, ← nth, en.nth] at lt
        omega
    · rcases List.mem_cons.1 hz with e | hz
      · cases e
        have lt := (td.nth y hy).1
        rw [idx, nth, en.nth] at lt
        omega
      · exact td.apart y z hy hz idx nth
  · intro y
    rw [en.log]
    by_cases e : y = x
    · subst e
      rw [List.count_cons_self, List.count_eq_zero_of_not_mem new]
    · rw [List.count_cons_of_ne fun h => e (by cases h; rfl)]
      exact td.once y
  · intro y
    have count := td.resolved y
    rw [en.log, List.countP_cons]
    by_cases e : y = x
    · subst e
      have holds : u.Holds y := by
        refine ⟨?_, self⟩
        rw [en.armed]
        exact Finset.mem_insert_self _ _
      have before : ¬s.Holds y := fun h => en.free h.1
      rw [if_pos holds, List.count_cons_self]
      rw [if_neg before] at count
      simpa [Note.resolves] using count
    · have holds : u.Holds y ↔ s.Holds y := by
        unfold History.Holds
        by_cases ei : y.handle.idx = x.handle.idx
        · rw [ei, self]
          exact ⟨fun h => absurd h.2.symm e, fun h => absurd h.1 en.free⟩
        · rw [other _ ei, en.armed, Finset.mem_insert]
          simp [ei]
      rw [List.count_cons_of_ne fun h => e (by cases h; rfl), ← count]
      simp [Note.resolves, holds]
  · exact clock
  · intro y ns hy
    rw [en.log] at hy
    rcases List.mem_cons.1 hy with e | hy
    · cases e
    · exact td.fired y ns hy

/-- A note on a timer that leaves resolves that timer and no other. -/
lemma Leaves.resolves {note : Arming → Note} {Y : List Nat} (lv : Leaves s u note Y) (x y : Arming) :
    (note y).resolves x = decide (y = x) := by
  rcases lv.how with e | ⟨e, -⟩
  · subst e
    rfl
  · subst e
    rfl

/-- What is said of a timer that leaves is not that it was armed. -/
lemma Leaves.not_armed {note : Arming → Note} {Y : List Nat} (lv : Leaves s u note Y) (x y : Arming) :
    note y ≠ .armed x := by
  rcases lv.how with e | ⟨e, -⟩
  · subst e
    nofun
  · subst e
    nofun

/-- The timers that were armed are as before. -/
lemma Leaves.mem_armed {note : Arming → Note} {Y : List Nat} (lv : Leaves s u note Y) :
    .armed x ∈ u.log ↔ .armed x ∈ s.log := by
  rw [lv.log, List.mem_append]
  refine ⟨fun h => h.resolve_left fun h => ?_, .inr⟩
  obtain ⟨k, -, e⟩ := List.mem_map.1 h
  exact lv.not_armed _ _ e

/-- No timer was armed once more. -/
lemma Leaves.count {note : Arming → Note} {Y : List Nat} (lv : Leaves s u note Y) (x : Arming) :
    u.log.count (.armed x) = s.log.count (.armed x) := by
  rw [lv.log, List.count_append, List.count_eq_zero_of_not_mem, Nat.zero_add]
  intro h
  obtain ⟨k, -, e⟩ := List.mem_map.1 h
  exact lv.not_armed _ _ e

/-- No entry was filled once more. -/
lemma Leaves.fills {note : Arming → Note} {Y : List Nat} (lv : Leaves s u note Y) (i : Nat) :
    u.fills i = s.fills i := by
  have none : (Y.map fun k => note (s.owner k)).countP (Note.fills i) = 0 := by
    rw [List.countP_eq_zero]
    intro n hn
    obtain ⟨k, -, rfl⟩ := List.mem_map.1 hn
    rcases lv.how with e | ⟨e, -⟩
    · subst e
      exact Bool.false_ne_true
    · subst e
      exact Bool.false_ne_true
  unfold History.fills
  rw [lv.log, List.countP_append, none, Nat.zero_add]

/-- The timers that leave are those of the entries, each of them once. -/
lemma Told.leave_count (td : Told s) {note : Arming → Note} {Y : List Nat} (lv : Leaves s u note Y)
    (x : Arming) : (Y.map fun k => note (s.owner k)).countP (Note.resolves x) =
      if x.handle.idx ∈ Y ∧ s.owner x.handle.idx = x then 1 else 0 := by
  have idx : ∀ k ∈ Y, (s.owner k).handle.idx = k := by
    intro k hk
    rw [td.handle k (lv.sub k hk)]
  rw [List.countP_map]
  split
  next h =>
    obtain ⟨hx, own⟩ := h
    have one : Y.count x.handle.idx = 1 := List.count_eq_one_of_mem lv.nodup hx
    rw [← one, List.count_eq_countP]
    refine List.countP_congr fun k hk => ?_
    simp only [Function.comp_apply, lv.resolves, decide_eq_true_eq, beq_iff_eq]
    constructor
    · rintro rfl
      exact (idx k hk).symm
    · rintro rfl
      exact own
  next h =>
    rw [List.countP_eq_zero]
    intro k hk hn
    simp only [Function.comp_apply, lv.resolves, decide_eq_true_eq] at hn
    subst hn
    rw [idx k hk] at h
    exact h ⟨hk, rfl⟩

/-- Timers that leave the wheel are told of. -/
lemma Told.leaves (td : Told s) {note : Arming → Note} {Y : List Nat} (lv : Leaves s u note Y)
    (clock : u.queue.clock = u.ns / tickNs) : Told u := by
  have mem : ∀ i, i ∈ armed u.queue.impl ↔ i ∈ armed s.queue.impl ∧ i ∉ Y := by
    intro i
    rw [lv.armed, Finset.mem_sdiff, List.mem_toFinset]
  constructor
  · intro i le
    rw [lv.size] at le
    rw [lv.fills, td.unfilled i le]
  · intro i lt out
    rw [lv.size] at lt
    rw [lv.fills]
    by_cases hY : i ∈ Y
    · -- the entry is free from now on
      have hi := lv.sub i hY
      have gen := (td.nth _ (td.owner_armed hi)).2
      have last := td.last i hi
      rw [td.handle i hi] at gen
      rw [lv.generation i hY]
      simp only at gen
      omega
    · rw [(lv.others i hY).2.1]
      exact td.free i lt fun hi => out ((mem i).2 ⟨hi, hY⟩)
  · intro i hi
    obtain ⟨hi, hY⟩ := (mem i).1 hi
    rw [lv.owner, td.handle i hi, (lv.others i hY).2.1]
  · intro i hi
    rw [lv.owner, lv.fills, td.last i ((mem i).1 hi).1]
  · intro i hi
    obtain ⟨hi, hY⟩ := (mem i).1 hi
    rw [lv.owner, (lv.others i hY).1, td.deadlineTick i hi]
  · intro i hi
    obtain ⟨hi, hY⟩ := (mem i).1 hi
    rw [lv.owner, (lv.others i hY).2.2, td.action i hi]
  · intro x hx
    rw [lv.fills]
    exact td.nth x (lv.mem_armed.1 hx)
  · intro x y hx hy
    exact td.apart x y (lv.mem_armed.1 hx) (lv.mem_armed.1 hy)
  · intro x
    rw [lv.count]
    exact td.once x
  · intro x
    have count := td.resolved x
    rw [lv.count, lv.log, List.countP_append, td.leave_count lv, ← count]
    have holds : u.Holds x ↔ s.Holds x ∧ ¬(x.handle.idx ∈ Y ∧ s.owner x.handle.idx = x) := by
      unfold History.Holds
      rw [mem, lv.owner]
      constructor
      · rintro ⟨⟨hi, hY⟩, own⟩
        exact ⟨⟨hi, own⟩, fun h => hY h.1⟩
      · rintro ⟨⟨hi, own⟩, h⟩
        exact ⟨⟨hi, fun hY => h ⟨hY, own⟩⟩, own⟩
    by_cases h : x.handle.idx ∈ Y ∧ s.owner x.handle.idx = x
    · have now : s.Holds x := ⟨lv.sub _ h.1, h.2⟩
      rw [if_pos h, if_pos now, if_neg fun hu => (holds.1 hu).2 h]
      omega
    · simp only [holds, h, not_false_iff, and_true, if_false]
      omega
  · exact clock
  · intro x ns hx
    rw [lv.log, List.mem_append] at hx
    rcases hx with hx | hx
    · obtain ⟨k, hk, e⟩ := List.mem_map.1 hx
      rcases lv.how with hn | ⟨hn, due⟩
      · subst hn
        cases e
      · subst hn
        cases e
        have le := due k hk
        rwa [td.deadlineTick k (lv.sub k hk), td.clock] at le
    · exact td.fired x ns hx

/-- The clock of the queue is that of the record, in ticks. -/
lemma Recorded.clock (rc : Recorded s a u) (now : s.queue.clock = s.ns / tickNs) :
    u.queue.clock = u.ns / tickNs := by
  obtain ⟨-, st⟩ := rc
  cases a with
  | tick ns =>
    cases st
    rfl
  | arm call =>
    cases st
    rw [History.record_queue]
    unfold Queue.Arm History.record
    simp only
    split
    · exact now
    · exact now
  | disarm h =>
    cases st
    rw [History.record_queue]
    unfold History.record
    simp only
    split
    · exact now
    · exact now
  | run =>
    cases st
    rw [History.record_queue]
    unfold Queue.Run
    simp only
    split
    · exact now
    · exact now
    · exact now
    · exact now
  | wake =>
    cases st
    exact now
  | exit =>
    cases st
    exact now
  | stop =>
    cases st
    rw [History.record_queue]
    unfold Queue.Stop
    split
    · exact now
    · exact now
  | start =>
    cases st
    exact now

/-- The log tells of every timer in every state that is reached. -/
lemma Told.reached (rn : Reaches Recorded {} s) : Told s := by
  induction rn with
  | refl => exact .init
  | @tail s a u rn _ rc td =>
    obtain ⟨⟨held, tb⟩, h0, -⟩ := reaches_table (recorded_reaches rn)
    have clock := rc.clock td.clock
    rcases rc.turn tb h0 with ⟨x, en⟩ | ⟨note, Y, lv⟩
    · exact td.enters en clock
    · exact td.leaves lv clock

end JLib.Timer
