import JLib.Timer.History

/-!
# Handles

A handle names an entry and a generation. As long as no generation comes round again, `Disarm` takes out
the timer its handle was returned for, if that is still in the wheel, and otherwise nothing. Generations
are 32-bit counters that go up by two each time an entry is filled.
-/

namespace JLib.Timer
open LTS Impl

variable {s u v : History} {a : Label} {held : Spot → List Nat} {x y : Arming} {h : TimerHandle}

/-- The log only grows. -/
lemma Recorded.log_grows (rc : Recorded s a u) : ∃ new, u.log = new ++ s.log := by
  obtain ⟨-, -⟩ := rc
  cases a with
  | arm call =>
    unfold History.record
    simp only
    split
    · exact ⟨[_], rfl⟩
    · exact ⟨[], rfl⟩
  | disarm h =>
    unfold History.record
    simp only
    split
    · exact ⟨[_], rfl⟩
    · exact ⟨[], rfl⟩
  | run => exact ⟨_, rfl⟩
  | tick _ => exact ⟨[], rfl⟩
  | wake => exact ⟨[], rfl⟩
  | exit => exact ⟨[], rfl⟩
  | stop => exact ⟨[], rfl⟩
  | start => exact ⟨[], rfl⟩

/-- The log only grows. -/
lemma log_suffix (rn : Reaches Recorded s u) : ∃ new, u.log = new ++ s.log := by
  induction rn with
  | refl => exact ⟨[], rfl⟩
  | tail _ _ rc ih =>
    obtain ⟨new, e⟩ := ih
    obtain ⟨new', e'⟩ := rc.log_grows
    exact ⟨new' ++ new, by rw [e', e, List.append_assoc]⟩

/-- What became of a timer is that it fired or that it was disarmed. -/
lemma resolves_split (x : Arming) (log : List Note) :
    log.countP (Note.resolves x) = log.countP (Note.fires x) + log.count (.disarmed x) := by
  induction log with
  | nil => rfl
  | cons n log ih =>
    rw [List.countP_cons, List.countP_cons, List.count_cons, ih]
    cases n with
    | armed y => simp [Note.resolves, Note.fires]
    | disarmed y =>
      simp [Note.resolves, Note.fires]
      omega
    | fired y ns =>
      simp [Note.resolves, Note.fires]
      omega

/-- Every timer that was armed has fired, was disarmed or is in the wheel. -/
lemma Told.balance (td : Told s) (hx : .armed x ∈ s.log) :
    s.firings x + s.disarms x + (if s.Holds x then 1 else 0) = 1 := by
  have count := td.resolved x
  have one : s.log.count (.armed x) = 1 :=
    Nat.le_antisymm (td.once x) (List.count_pos_iff.2 hx)
  rwa [resolves_split, one] at count

/-- No two timers were given one handle. -/
lemma Told.handle_unique (td : Told s) (few : ∀ i, s.fills i ≤ 2 ^ 31) (hx : .armed x ∈ s.log)
    (hy : .armed y ∈ s.log) (e : x.handle = y.handle) : x = y := by
  obtain ⟨ltx, ex⟩ := td.nth x hx
  obtain ⟨lty, ey⟩ := td.nth y hy
  refine td.apart x y hx hy (by rw [e]) ?_
  rw [e] at ltx ex
  have := few y.handle.idx
  omega

/-- Disarming a timer that is in the wheel succeeds. -/
lemma Told.disarm_holds (td : Told s) (hx : s.Holds x) : (s.queue.impl.Disarm x.handle).2 = true := by
  obtain ⟨live, own⟩ := hx
  have eh := td.handle _ live
  rw [own] at eh
  obtain ⟨lt, odd⟩ := mem_armed.1 live
  unfold Armed at odd
  have gen : (s.queue.impl.entries x.handle.idx).generation = x.handle.generation := by rw [eh]
  unfold Disarm
  rw [if_neg (by omega), if_neg (by omega)]

/-- `q'` is `q` without the timer of entry `i`. -/
structure Without (q : Impl) (i : Nat) (q' : Impl) : Prop where
  mem : i ∈ armed q
  armed : armed q' = (armed q).erase i
  others : ∀ k ≠ i, SameTimer q q' k

/-- `Disarm` that returns true has found the timer of a call that returned the handle. -/
lemma Told.disarm_true (td : Told s) (tb : Table s.queue.impl held)
    (ht : (s.queue.impl.Disarm h).2 = true) :
    .armed (s.owner h.idx) ∈ s.log ∧ (s.owner h.idx).handle = h ∧
      Without s.queue.impl h.idx (s.queue.impl.Disarm h).1 := by
  rcases tb.disarm h with e | ⟨_, e, live, gen, -, re, -⟩
  · rw [e] at ht
    cases ht
  · refine ⟨td.owner_armed live, by rw [td.handle _ live, gen], live, ?_, fun k ne => ?_⟩
    · rw [e, re.armed_eq live]
    · rw [e]
      exact re.same ne

/-- Once it is disarmed a timer never fires. -/
lemma disarmed_never_fires (rn : Reaches Recorded {} s) (hx : .armed x ∈ s.log)
    (hd : .disarmed x ∈ s.log) : s.firings x = 0 := by
  have balance := (Told.reached rn).balance hx
  have pos : 0 < s.disarms x := List.count_pos_iff.2 hd
  omega

/-- In every run in which no entry is filled more than `2 ^ 31` times, `Disarm` returns true for the
handle of a timer exactly if that has neither fired nor been disarmed. Then that timer is taken out, the
others stay, and it never fires; where `Disarm` returns false, also for a handle that no call returned, the
wheel is left as it is. A timer fires at most once or is disarmed at most once, not both, and is in the
wheel as long as neither has happened. -/
theorem handles_exact (rn : Reaches Recorded {} s) (few : ∀ i, s.fills i ≤ 2 ^ 31) :
    (∀ x, .armed x ∈ s.log →
      ((s.queue.impl.Disarm x.handle).2 = true ↔ s.firings x = 0 ∧ s.disarms x = 0)) ∧
    (∀ x, .armed x ∈ s.log → (s.queue.impl.Disarm x.handle).2 = true →
      s.owner x.handle.idx = x ∧
      Without s.queue.impl x.handle.idx (s.queue.impl.Disarm x.handle).1 ∧
      ∀ v, Reaches Recorded (s.record (.disarm x.handle) (s.queue.Disarm x.handle)) v →
        v.firings x = 0) ∧
    (∀ h, (s.queue.impl.Disarm h).2 = true → ∃ x, .armed x ∈ s.log ∧ x.handle = h) ∧
    (∀ h, (s.queue.impl.Disarm h).2 = false → (s.queue.impl.Disarm h).1 = s.queue.impl) ∧
    ∀ x, .armed x ∈ s.log →
      s.firings x + s.disarms x + (if s.Holds x then 1 else 0) = 1 := by
  have td := Told.reached rn
  obtain ⟨⟨held, tb⟩, -, -⟩ := reaches_table (recorded_reaches rn)
  have found : ∀ x, .armed x ∈ s.log → (s.queue.impl.Disarm x.handle).2 = true →
      s.owner x.handle.idx = x := by
    intro x hx ht
    obtain ⟨ho, eh, -⟩ := td.disarm_true tb ht
    exact td.handle_unique few ho hx eh
  refine ⟨fun x hx => ?_, fun x hx ht => ⟨found x hx ht, ?_, fun v rv => ?_⟩, fun h ht => ?_,
    fun h hf => ?_, fun x hx => td.balance hx⟩
  · have balance := td.balance hx
    constructor
    · intro ht
      obtain ⟨-, -, wo⟩ := td.disarm_true tb ht
      rw [if_pos ⟨wo.mem, found x hx ht⟩] at balance
      omega
    · rintro ⟨unfired, undisarmed⟩
      apply td.disarm_holds
      by_contra out
      rw [if_neg out] at balance
      omega
  · exact (td.disarm_true tb ht).2.2
  · have st : Recorded s (.disarm x.handle) (s.record (.disarm x.handle) (s.queue.Disarm x.handle)) :=
      .mk nofun .disarm
    obtain ⟨new, e⟩ := log_suffix rv
    have noted : (s.record (.disarm x.handle) (s.queue.Disarm x.handle)).log =
        .disarmed x :: s.log := by
      simp [History.record, ht, found x hx ht]
    rw [noted] at e
    refine disarmed_never_fires ((rn.tail trivial st).trans rv) ?_ ?_
    · rw [e]
      exact List.mem_append_right _ (List.mem_cons_of_mem _ hx)
    · rw [e]
      exact List.mem_append_right _ List.mem_cons_self
  · obtain ⟨ho, eh, -⟩ := td.disarm_true tb ht
    exact ⟨_, ho, eh⟩
  · rcases tb.disarm h with e | ⟨_, e, -⟩
    · rw [e]
    · rw [e] at hf
      cases hf

/-- One entry is filled twice: the first handle is stale, the second takes the timer out. -/
theorem handles_exact_reused :
    ∃ s x y, Reaches Recorded {} s ∧ x.handle = ⟨0, 1⟩ ∧ y.handle = ⟨0, 3⟩ ∧
      ((s.queue.impl.Disarm x.handle).2 = true ↔ s.firings x = 0 ∧ s.disarms x = 0) ∧
      s.disarms x = 1 ∧ (s.queue.impl.Disarm y.handle).2 = true ∧ s.owner 0 = y := by
  have r1 := (Runs.refl : Reaches Recorded {} {}).next
    (.arm ⟨5000000, ⟨1, none, none⟩, true, false⟩) trivial (.mk nofun .arm)
  have r2 := r1.next (.disarm ⟨0, 1⟩) trivial (.mk nofun .disarm)
  have r3 := r2.next (.arm ⟨2000000, ⟨2, none, none⟩, true, false⟩) trivial (.mk nofun .arm)
  have exact := handles_exact r3 fun i => List.countP_le_length.trans (by decide +kernel)
  refine ⟨_, ⟨⟨0, 1⟩, 0, 0, ⟨5000000, ⟨1, none, none⟩, true, false⟩⟩,
    ⟨⟨0, 3⟩, 1, 0, ⟨2000000, ⟨2, none, none⟩, true, false⟩⟩, r3, rfl, rfl,
    exact.1 _ (by decide +kernel), by decide +kernel, by decide +kernel, by decide +kernel⟩

end JLib.Timer
