import JLib.Event.Once

/-!
# Nobody is passed over

Who clears the bit of a slot has won it and exchanges the slot later, so a task in a slot is always in
somebody's sight: its bit is set, or its fiber is about to set it, or who won the bit is about to exchange
the slot. A `SignalAll` loads every word, so what was registered before it began is won by itself or by
somebody else when it ends.
-/

set_option maxRecDepth 4000

namespace JLib.Event
open LTS

variable {θ τ : Type} {n i k : Nat}

namespace State
variable {s s' : State θ τ} {t : θ} {c : Pc τ}

/-- Somebody has won the bit of the slot and is to exchange the slot. -/
def Won (s : State θ τ) (i : Nat) : Prop :=
  s.fiber i = .cleared ∨ ∃ t, (s.thread t).Claims i

/-- The registration is in its slot. -/
def Pending (s : State θ τ) (i k : Nat) : Prop := ∃ r, s.slots i = some r ∧ r.serial = k

/-- The registration was taken, or who won its bit is to exchange its slot. -/
def Claimed (s : State θ τ) (i k : Nat) : Prop :=
  s.takers (i, k) ≠ [] ∨ (s.Pending i k ∧ s.Won i)

/-- A slot is found by its word and the bit in it. -/
lemma slot_of_word {w b : Nat} (hb : b < 64) : i = w * 64 + b ↔ i / 64 = w ∧ i % 64 = b := by omega

/-- `fetch_or` marks one slot. -/
lemma marked_fetchOr (s : State θ τ) (i j : Nat) :
    (s.fetchOr (i / 64) (i % 64)).marked j = (s.marked j || decide (j = i)) := by
  unfold marked fetchOr
  dsimp only
  have hi : i % 64 < 64 := Nat.mod_lt _ (by omega)
  have hj : j % 64 < 64 := Nat.mod_lt _ (by omega)
  by_cases e : j / 64 = i / 64
  · rw [e, Function.update_self, BitVec.getLsbD_or, BitVec.getLsbD_twoPow]
    congr 1
    have : j = i ↔ i % 64 = j % 64 := by omega
    simp [hi, this]
  · have ne : j ≠ i := by
      rintro rfl
      exact e rfl
    rw [Function.update_of_ne e, decide_eq_false ne, Bool.or_false]

/-- `fetch_and` clears the mark of one slot. -/
lemma marked_fetchAnd (s : State θ τ) {w b : Nat} (hb : b < 64) (j : Nat) :
    (s.fetchAnd w b).marked j = (s.marked j && decide (j ≠ w * 64 + b)) := by
  unfold marked fetchAnd
  dsimp only
  have hj : j % 64 < 64 := Nat.mod_lt _ (by omega)
  by_cases e : j / 64 = w
  · rw [e, Function.update_self, BitVec.getLsbD_and, BitVec.getLsbD_not, BitVec.getLsbD_twoPow]
    congr 1
    have : j = w * 64 + b ↔ b = j % 64 := by omega
    simp [hb, hj, this]
  · have ne : j ≠ w * 64 + b := by omega
    rw [Function.update_of_ne e, decide_eq_true ne, Bool.and_true]

/-- A bit stays won when the thread that moves on keeps its claim. -/
lemma Won.setThread [DecidableEq θ] (h : s.Won i) (hf : s'.fiber = s.fiber) (ht : s'.thread = s.thread)
    (hc : (s.thread t).Claims i → c.Claims i) : (s'.setThread t c).Won i := by
  rcases h with h | ⟨t', h⟩
  · exact .inl (hf ▸ h)
  · refine .inr ⟨t', ?_⟩
    change (Function.update s'.thread t c t').Claims i
    by_cases e : t' = t
    · rw [e, Function.update_self]
      exact hc (e ▸ h)
    · rwa [Function.update_of_ne e, ht]

/-- A bit stays won when a fiber moves on that has not cleared its own. -/
lemma Won.setFiber {j : Nat} {f : Fiber} (h : s.Won i) (hf : s'.fiber = s.fiber)
    (ht : s'.thread = s.thread) (ne : s.fiber j ≠ .cleared) : (s'.setFiber j f).Won i := by
  rcases h with h | ⟨t', h⟩
  · refine .inl ?_
    change Function.update s'.fiber j f i = .cleared
    rw [Function.update_of_ne, hf, h]
    rintro rfl
    exact ne h
  · refine .inr ⟨t', ?_⟩
    change (s'.thread t').Claims i
    rwa [ht]

/-- An exchange empties one slot. -/
lemma takeSlot_slots (s : State θ τ) (p : Party θ) (j : Nat) :
    (s.takeSlot p j).slots = Function.update s.slots j none := by
  unfold takeSlot
  split
  · rename_i h
    exact (Function.update_eq_self_iff.2 h.symm).symm
  · rfl

/-- An exchange leaves the fibers alone. -/
lemma takeSlot_fiber (s : State θ τ) (p : Party θ) (j : Nat) : (s.takeSlot p j).fiber = s.fiber := by
  unfold takeSlot
  split <;> rfl

/-- An exchange leaves the threads alone. -/
lemma takeSlot_thread (s : State θ τ) (p : Party θ) (j : Nat) : (s.takeSlot p j).thread = s.thread := by
  unfold takeSlot
  split <;> rfl

/-- An exchange leaves the bitmap alone. -/
lemma takeSlot_marked (s : State θ τ) (p : Party θ) (i j : Nat) :
    (s.takeSlot p j).marked i = s.marked i := by
  unfold takeSlot
  split <;> rfl

/-- Cancelling a token touches neither slots nor fibers, threads or marks. -/
lemma markCancelled_eq [DecidableEq τ] (s : State θ τ) (one : Bool) (x : τ) :
    (s.markCancelled one x).slots = s.slots ∧ (s.markCancelled one x).fiber = s.fiber ∧
      (s.markCancelled one x).thread = s.thread ∧ ∀ i, (s.markCancelled one x).marked i = s.marked i := by
  cases one <;> exact ⟨rfl, rfl, rfl, fun _ => rfl⟩

end State

variable [DecidableEq θ] [DecidableEq τ]

/-- Of the bits that were won, those above the lowest are still to come. -/
lemma claims_clearLowest {w : Nat} {bits : BitVec 64} (h : i / 64 = w ∧ bits.getLsbD (i % 64) = true)
    (ne : i ≠ w * 64 + bits.ctz.toNat) :
    i / 64 = w ∧ (Bits.clearLowest bits).getLsbD (i % 64) = true := by
  obtain ⟨hw, hb⟩ := h
  refine ⟨hw, ?_⟩
  rw [Bits.getLsbD_clearLowest, hb, Bool.true_and, decide_eq_true_eq]
  omega

open State

/-- Who has won a bit keeps it until the slot is exchanged. -/
lemma Step.won {s s' : State θ τ} {l : Label θ} (st : Step n s l s') (won : s.Won i)
    (full : s'.slots i ≠ none) : s'.Won i := by
  cases st with
  | reserve => exact won
  | store h => exact won.setFiber rfl rfl (by rw [h]; rintro ⟨⟩)
  | publish h => exact won.setFiber rfl rfl (by rw [h]; rintro ⟨⟩)
  | withdraw h => exact won.setFiber rfl rfl (by rw [h]; rintro ⟨⟩)
  | @selfTake j h =>
    change (s.takeSlot .self j).slots i ≠ none at full
    rw [takeSlot_slots] at full
    have ne : i ≠ j := by
      rintro rfl
      exact full (Function.update_self ..)
    rcases won with won | ⟨t, won⟩
    · refine .inl ?_
      change Function.update (s.takeSlot .self j).fiber j _ i = .cleared
      rw [Function.update_of_ne ne, takeSlot_fiber, won]
    · refine .inr ⟨t, ?_⟩
      change ((s.takeSlot .self j).thread t).Claims i
      rwa [takeSlot_thread]
  | leave h => exact won.setFiber rfl rfl (by rw [h]; rintro ⟨⟩)
  | park h => exact won.setFiber rfl rfl (by rcases h with h | h <;> rw [h] <;> rintro ⟨⟩)
  | unpark h => exact won.setFiber rfl rfl (by rw [h]; rintro ⟨⟩)
  | beginEmpty => exact won
  | drainMiss h _ hs =>
    refine won.setThread rfl rfl fun claims => ?_
    rw [h] at claims
    exact claims_clearLowest claims fun e => full (e ▸ hs)
  | drainTake h _ hs =>
    refine won.setThread (takeSlot_fiber ..) (takeSlot_thread ..) fun claims => ?_
    rw [h] at claims
    refine claims_clearLowest claims fun e => full ?_
    change (s.takeSlot _ _).slots i = none
    rw [takeSlot_slots, ← e, Function.update_self]
  | @take t one w bits b r h hs =>
    obtain ⟨h1, h2, h3, -⟩ := markCancelled_eq (s.takeSlot (.thread t) (w * 64 + b)) one r.task
    refine won.setThread (h2.trans (takeSlot_fiber ..)) (h3.trans (takeSlot_thread ..)) fun claims => ?_
    rw [h] at claims
    refine absurd ?_ full
    change (State.markCancelled _ one r.task).slots i = none
    rw [h1, takeSlot_slots, ← (claims : i = w * 64 + b), Function.update_self]
  | drainWake h => exact won.setThread rfl rfl (by rw [h]; exact id)
  | drainEnd h => exact won.setThread rfl rfl (by rw [h]; simp [Pc.Claims])
  | takeMiss h hs =>
    refine won.setThread rfl rfl fun claims => ?_
    rw [h] at claims
    exact absurd ((congrArg s.slots claims).trans hs) full
  | beginAll h => exact won.setThread rfl rfl (by rw [h]; exact False.elim)
  | loadEmpty h => exact won.setThread rfl rfl (by rw [h]; exact False.elim)
  | load h => exact won.setThread rfl rfl (by rw [h]; exact False.elim)
  | swap h => exact won.setThread rfl rfl (by rw [h]; exact False.elim)
  | endAll h => exact won.setThread rfl rfl (by rw [h]; exact False.elim)
  | beginCancel h => exact won.setThread rfl rfl (by rw [h]; exact False.elim)
  | beginOne h => exact won.setThread rfl rfl (by rw [h]; exact False.elim)
  | scan h => exact won.setThread rfl rfl (by rw [h]; exact False.elim)
  | pickLost h => exact won.setThread rfl rfl (by rw [h]; exact False.elim)
  | pick h => exact won.setThread rfl rfl (by rw [h]; exact False.elim)
  | wakeCancelled h => exact won.setThread rfl rfl (by rw [h]; exact False.elim)
  | wakeOne h => exact won.setThread rfl rfl (by rw [h]; exact False.elim)
  | pickEnd h => exact won.setThread rfl rfl (by rw [h]; exact False.elim)
  | endCancel h => exact won.setThread rfl rfl (by rw [h]; exact False.elim)
  | endOne h => exact won.setThread rfl rfl (by rw [h]; exact False.elim)

/-- Who clears a bit has won it. -/
lemma Step.marked {s s' : State θ τ} {l : Label θ} (st : Step n s l s') (h : s.marked i = true) :
    s'.marked i = true ∨ s'.Won i := by
  cases st with
  | publish =>
    refine .inl ?_
    change (s.fetchOr _ _).marked i = true
    rw [marked_fetchOr, h, Bool.true_or]
  | @withdraw j =>
    by_cases e : i = j
    · subst e
      exact .inr (.inl (Function.update_self ..))
    · refine .inl ?_
      change (s.fetchAnd _ _).marked i = true
      rw [marked_fetchAnd s (Nat.mod_lt _ (by omega)), h, Bool.true_and, decide_eq_true_eq]
      omega
  | @swap t w ht =>
    by_cases e : i / 64 = w
    · refine .inr (.inr ⟨t, ?_⟩)
      change (Function.update s.thread t _ t).Claims i
      rw [Function.update_self]
      exact ⟨e, e ▸ h⟩
    · refine .inl ?_
      change (Function.update s.occupied w 0 (i / 64)).getLsbD _ = true
      rw [Function.update_of_ne e]
      exact h
  | @pickLost t one w bits ht nz lost =>
    refine .inl ?_
    change (s.fetchAnd _ _).marked i = true
    have hb := BitVec.lt_of_getLsbD (BitVec.getLsbD_true_ctz_of_ne_zero nz)
    rw [marked_fetchAnd s hb, h, Bool.true_and, decide_eq_true_eq]
    intro e
    obtain ⟨rfl, low⟩ := (slot_of_word hb).1 e
    rw [← low] at lost
    exact absurd (h.symm.trans lost) (by simp)
  | @pick t one w bits ht nz =>
    have hb := BitVec.lt_of_getLsbD (BitVec.getLsbD_true_ctz_of_ne_zero nz)
    by_cases e : i = w * 64 + bits.ctz.toNat
    · refine .inr (.inr ⟨t, ?_⟩)
      change (Function.update s.thread t _ t).Claims i
      rw [Function.update_self]
      exact e
    · refine .inl ?_
      change (s.fetchAnd _ _).marked i = true
      rw [marked_fetchAnd s hb, h, Bool.true_and, decide_eq_true_eq]
      exact e
  | selfTake =>
    refine .inl ?_
    change (s.takeSlot _ _).marked i = true
    rwa [takeSlot_marked]
  | drainTake =>
    refine .inl ?_
    change (s.takeSlot _ _).marked i = true
    rwa [takeSlot_marked]
  | @take t one w bits b r =>
    refine .inl ?_
    change ((s.takeSlot (.thread t) (w * 64 + b)).markCancelled one r.task).marked i = true
    rw [(markCancelled_eq ..).2.2.2, takeSlot_marked, h]
  | _ => exact .inl h

/-- A task in a slot is in somebody's sight. -/
def State.Shown (s : State θ τ) : Prop :=
  ∀ i r, s.slots i = some r → s.marked i = true ∨ s.fiber i = .stored ∨ s.Won i

/-- A fiber that has stored its registration sets the bit next. -/
lemma Step.stored {s s' : State θ τ} {l : Label θ} (st : Step n s l s') (h : s.fiber i = .stored) :
    s'.fiber i = .stored ∨ s'.marked i = true := by
  have frame : ∀ {j f}, s.fiber j ≠ .stored → Function.update s.fiber j f i = .stored := by
    intro j f ne
    rw [Function.update_of_ne, h]
    rintro rfl
    exact ne h
  cases st with
  | @store j x hj => exact .inl (frame (by rw [hj]; rintro ⟨⟩))
  | @publish j hj =>
    by_cases e : i = j
    · subst e
      refine .inr ?_
      change (s.fetchOr _ _).marked i = true
      rw [marked_fetchOr, decide_eq_true rfl, Bool.or_true]
    · refine .inl ?_
      change Function.update s.fiber j _ i = .stored
      rw [Function.update_of_ne e, h]
  | withdraw hj => exact .inl (frame (by rw [hj]; rintro ⟨⟩))
  | selfTake hj =>
    refine .inl ?_
    change Function.update (s.takeSlot _ _).fiber _ _ i = .stored
    rw [takeSlot_fiber]
    exact frame (by rw [hj]; rintro ⟨⟩)
  | leave hj => exact .inl (frame (by rw [hj]; rintro ⟨⟩))
  | park hj => exact .inl (frame (by rcases hj with hj | hj <;> rw [hj] <;> rintro ⟨⟩))
  | unpark hj => exact .inl (frame (by rw [hj]; rintro ⟨⟩))
  | drainTake =>
    refine .inl ?_
    change (s.takeSlot _ _).fiber i = .stored
    rw [takeSlot_fiber, h]
  | @take t one w bits b r =>
    refine .inl ?_
    change ((s.takeSlot (.thread t) (w * 64 + b)).markCancelled one r.task).fiber i = .stored
    rw [(markCancelled_eq ..).2.1, takeSlot_fiber, h]
  | _ => exact .inl h

/-- A step keeps every task in sight. -/
lemma State.Shown.step {s s' : State θ τ} {l : Label θ} (sh : s.Shown) (st : Step n s l s') : s'.Shown := by
  intro i r full
  rcases st.book.slots full with was | new
  · rcases sh i r was with h | h | h
    · exact (st.marked h).imp_right .inr
    · rcases st.stored h with h | h
      · exact .inr (.inl h)
      · exact .inl h
    · refine .inr (.inr (st.won h ?_))
      rw [full]
      rintro ⟨⟩
  · exact .inr (.inl new)

/-- In every state of a run each task in a slot is in sight. -/
lemma shown_of_runs {s : State θ τ} (rn : Reaches (Step n) {} s) : s.Shown :=
  rn.invariant (I := State.Shown) (by rintro i r ⟨⟩) fun sh _ st => sh.step st

/-! ## A whole `SignalAll` -/

/-- A registration stays in its slot until it is taken. -/
lemma Step.pending {s s' : State θ τ} {l : Label θ} (st : Step n s l s') (once : s.book.Once)
    (h : s.Pending i k) : s'.Pending i k ∨ s'.takers (i, k) ≠ [] := by
  obtain ⟨r, h, rfl⟩ := h
  rcases st.book.kept once h with h' | h'
  · exact .inl ⟨r, h', rfl⟩
  · have := (once.of_slot h).1
    rw [Registration.key] at this
    rw [Registration.key, (Prod.mk.inj this).1] at h'
    exact .inr h'

/-- A claimed registration stays claimed. -/
lemma Step.claimed {s s' : State θ τ} {l : Label θ} (st : Step n s l s') (once : s.book.Once)
    (h : s.Claimed i k) : s'.Claimed i k := by
  rcases h with h | ⟨pend, won⟩
  · exact .inl (st.book.takers h)
  · rcases st.pending once pend with pend | h
    · refine .inr ⟨pend, st.won won ?_⟩
      obtain ⟨r, h, -⟩ := pend
      rw [h]
      rintro ⟨⟩
    · exact .inl h

/-- The thread is in a `SignalAll` and has not come to the word. -/
def Pc.Before (w : Nat) : Pc τ → Prop
  | load w' | swap w' => w' ≤ w
  | drain w' _ | drainWake w' _ _ => w' < w
  | _ => False

/-- The registration is claimed, or a `SignalAll` is still to come to it. -/
def State.Due (s : State θ τ) (t : θ) (i k : Nat) : Prop :=
  s.Claimed i k ∨ (s.Pending i k ∧ s.marked i = true ∧ (s.thread t).Before (i / 64))

/-- A thread in a `SignalAll` goes on to the next word only after it has seen or won what is in this. -/
lemma Step.before {s s' : State θ τ} {l : Label θ} {t : θ} (st : Step n s l s') (hi : i < n)
    (h : s.marked i = true) (h' : s'.marked i = true) (bef : (s.thread t).Before (i / 64)) :
    (s'.thread t).Before (i / 64) := by
  have frame : ∀ {t' c c'}, s.thread t' = c → (c.Before (i / 64) → c'.Before (i / 64)) →
      (Function.update s.thread t' c' t).Before (i / 64) := by
    intro t' c c' ht hc
    by_cases e : t = t'
    · subst e
      rw [Function.update_self]
      exact hc (ht ▸ bef)
    · rwa [Function.update_of_ne e]
  cases st with
  | reserve | store | publish | withdraw | leave | park | unpark | beginEmpty => exact bef
  | selfTake =>
    change ((s.takeSlot _ _).thread t).Before _
    rwa [takeSlot_thread]
  | loadEmpty ht _ zero =>
    refine frame ht fun (le : _ ≤ i / 64) => Nat.lt_of_le_of_ne le ?_
    rintro rfl
    rw [State.marked, zero] at h
    simp at h
  | load ht => exact frame ht id
  | @swap t' w ht =>
    refine frame ht fun (le : w ≤ i / 64) => Nat.lt_of_le_of_ne le ?_
    rintro rfl
    change (Function.update s.occupied (i / 64) 0 (i / 64)).getLsbD _ = true at h'
    rw [Function.update_self] at h'
    simp at h'
  | drainMiss ht => exact frame ht id
  | drainTake ht =>
    change (Function.update (s.takeSlot _ _).thread _ _ t).Before _
    rw [takeSlot_thread]
    exact frame ht id
  | drainWake ht => exact frame ht id
  | drainEnd ht => exact frame ht id
  | endAll ht out =>
    refine frame ht fun (le : _ ≤ i / 64) => out ?_
    unfold words
    omega
  | @take t' one w bits b r ht =>
    change (Function.update (State.markCancelled _ one r.task).thread _ _ t).Before _
    rw [(markCancelled_eq ..).2.2.1, takeSlot_thread]
    exact frame ht False.elim
  | beginAll ht => exact frame ht False.elim
  | beginCancel ht => exact frame ht False.elim
  | beginOne ht => exact frame ht False.elim
  | scan ht => exact frame ht False.elim
  | pickLost ht => exact frame ht False.elim
  | pick ht => exact frame ht False.elim
  | takeMiss ht => exact frame ht False.elim
  | wakeCancelled ht => exact frame ht False.elim
  | wakeOne ht => exact frame ht False.elim
  | pickEnd ht => exact frame ht False.elim
  | endCancel ht => exact frame ht False.elim
  | endOne ht => exact frame ht False.elim

/-- A registration stays due until it is claimed. -/
lemma Step.due {s s' : State θ τ} {l : Label θ} {t : θ} (st : Step n s l s') (once : s.book.Once)
    (hi : i < n) (due : s.Due t i k) : s'.Due t i k := by
  rcases due with h | ⟨pend, mark, bef⟩
  · exact .inl (st.claimed once h)
  · rcases st.pending once pend with pend | h
    · rcases st.marked mark with mark' | won
      · exact .inr ⟨pend, mark', st.before hi mark mark' bef⟩
      · exact .inl (.inr ⟨pend, won⟩)
    · exact .inl (.inl h)

/-- Who has registered is in the table, and the table is there. -/
def State.Tabled (n : Nat) (s : State θ τ) : Prop := ∀ i, 0 < s.serial i → i < n ∧ s.table = true

/-- In every state of a run whoever has registered is in the table. -/
lemma tabled_of_runs {s : State θ τ} (rn : Reaches (Step n) {} s) : s.Tabled n := by
  refine rn.invariant (I := State.Tabled n) (by rintro i ⟨⟩) fun {s l s'} tab _ st i pos => ?_
  cases st with
  | reserve => exact ⟨(tab i pos).1, rfl⟩
  | @store j x _ ht hj =>
    by_cases e : i = j
    · exact ⟨e ▸ hj, ht⟩
    · refine tab i ?_
      have : Function.update s.serial j (s.serial j + 1) i = s.serial i := Function.update_of_ne e ..
      exact this ▸ pos
  | selfTake =>
    unfold takeSlot at pos ⊢
    split at pos <;> exact tab i pos
  | drainTake =>
    unfold takeSlot at pos ⊢
    split at pos <;> exact tab i pos
  | @take t one =>
    cases one <;>
    · unfold takeSlot at pos ⊢
      split at pos <;> exact tab i pos
  | _ => exact tab i pos

namespace Book
variable {b : Book θ τ}

omit [DecidableEq θ] [DecidableEq τ] in
/-- A registration is in its slot and nobody has taken it, or it is not and one party has. -/
lemma Once.taken_or_pending (once : b.Once) (pos : 0 < k) (le : k ≤ b.serial i) :
    ((∃ r, b.slots i = some r ∧ r.serial = k) ∧ b.takers (i, k) = []) ∨
      ((¬∃ r, b.slots i = some r ∧ r.serial = k) ∧ ∃ p, b.takers (i, k) = [p]) := by
  have ended : b.Over (i, k) → ∃ p, b.takers (i, k) = [p] := by
    rintro (⟨h, -⟩ | ⟨t, h, -⟩)
    · exact ⟨_, h⟩
    · exact ⟨_, h⟩
  have empty : b.slots i = none → ¬∃ r, b.slots i = some r ∧ r.serial = k := by
    rintro h ⟨r, h', -⟩
    rw [h] at h'
    cases h'
  rcases Nat.lt_or_eq_of_le le with lt | rfl
  · refine .inr ⟨?_, ended (once.past pos lt)⟩
    rintro ⟨r, h, rfl⟩
    have := (once.of_slot h).1
    rw [Registration.key] at this
    exact absurd (Prod.mk.inj this).2 (Nat.ne_of_lt lt)
  · cases once.place i with
    | slot _ _ h2 _ h4 => exact .inl ⟨⟨_, h2, rfl⟩, h4⟩
    | none _ h2 _ h4 => exact .inr ⟨empty h2, ended (h4.resolve_left (Nat.ne_of_gt pos))⟩
    | hand _ h2 _ _ _ h6 => exact .inr ⟨empty h2, _, h6⟩
    | ready _ h2 _ h4 => exact .inr ⟨empty h2, _, h4⟩
    | back _ h2 _ h4 => exact .inr ⟨empty h2, _, h4⟩

omit [DecidableEq θ] [DecidableEq τ] in
/-- Who takes a registration from another fiber wakes the fiber once. -/
lemma Once.wakes_of_taken {t : θ} (once : b.Once) (h : b.takers (i, k) = [.thread t]) :
    b.wakes (i, k) = 1 ∨ (b.wakes (i, k) = 0 ∧ ∃ r, b.hand t = some r ∧ r.key = (i, k)) := by
  have ended : b.Over (i, k) → b.wakes (i, k) = 1 := by
    rintro (⟨h', -⟩ | ⟨_, -, h'⟩)
    · simp [h] at h'
    · exact h'
  have out : ¬(k = 0 ∨ b.serial i < k) := by
    intro out
    rw [(once.fresh out).1] at h
    cases h
  rcases Nat.lt_or_eq_of_le (show k ≤ b.serial i by omega) with lt | rfl
  · exact .inl (ended (once.past (by omega) lt))
  · cases once.place i with
    | hand _ _ _ h4 h5 h6 h7 =>
      rw [h] at h6
      cases h6
      exact .inr ⟨h7, _, h4, h5⟩
    | ready _ _ _ _ h5 => exact .inl h5
    | none _ _ _ h4 => exact .inl (ended (h4.resolve_left (by omega)))
    | slot _ _ _ _ h4 => simp [h] at h4
    | back _ _ _ h4 => simp [h] at h4

omit [DecidableEq θ] [DecidableEq τ] in
/-- A fiber that waits has its registration in its slot, in a hand, or is ready. -/
lemma Once.not_lost (once : b.Once) (h : (b.fiber i).waits = true) :
    (∃ r, b.slots i = some r ∧ r.serial = b.serial i) ∨
      (∃ t r, b.hand t = some r ∧ r.key = (i, b.serial i)) ∨ b.resumed i = true := by
  cases once.place i with
  | slot _ _ h2 => exact .inl ⟨_, h2, rfl⟩
  | hand _ _ _ h4 h5 => exact .inr (.inl ⟨_, _, h4, h5⟩)
  | ready _ _ h3 => exact .inr (.inr h3)
  | none h1 => simp [h1, Fiber.waits] at h
  | back h1 => simp [h1, Fiber.waits] at h

omit [DecidableEq θ] [DecidableEq τ] in
/-- `SelfRemove` returns whether the fiber took its own registration. -/
lemma Once.selfRemove {won : Bool} (once : b.Once) (h : b.fiber i = .removed won) :
    won = true ↔ b.takers (i, b.serial i) = [.self] := by
  cases won with
  | true =>
    cases once.place i with
    | back _ _ _ h4 => simp [h4]
    | none h1 => simp [h] at h1
    | slot h1 => simp [h, Fiber.posted] at h1
    | hand h1 => simp [h, Fiber.waits] at h1
    | ready h1 => simp [h, Fiber.waits] at h1
  | false =>
    cases once.place i with
    | hand _ _ _ _ _ h6 => simp [h6]
    | ready _ _ _ h4 => simp [h4]
    | none h1 => simp [h] at h1
    | slot h1 => simp [h, Fiber.posted] at h1
    | back h1 => simp [h] at h1

end Book

/-- When a `SignalAll` begins, what is registered is claimed already or is still before it. -/
lemma due_of_begin {s s1 : State θ τ} {t : θ} (once : s.book.Once) (sh : s.Shown) (tab : s.Tabled n)
    (pos : 0 < k) (le : k ≤ s.serial i) (done : k = s.serial i → s.fiber i ≠ .stored)
    (st : Step n s (.begin t .signalAll) s1) : s1.Due t i k := by
  rcases once.taken_or_pending pos le with ⟨pend, -⟩ | ⟨-, p, h⟩
  · obtain ⟨r, h, rfl⟩ := id pend
    have last : r.serial = s.serial i := (Prod.mk.inj (once.of_slot h).1).2
    have full : s1.slots i = some r := by
      cases st <;> exact h
    rcases sh i r h with mark | h' | won
    · refine .inr ?_
      cases st with
      | beginEmpty _ empty =>
        rw [(tab i (last ▸ pos)).2] at empty
        cases empty
      | beginAll =>
        refine ⟨pend, mark, ?_⟩
        change (Function.update s.thread t _ t).Before _
        rw [Function.update_self]
        exact Nat.zero_le _
    · exact absurd h' (done last)
    · exact .inl (.inr ⟨⟨r, full, rfl⟩, st.won won (by rw [full]; rintro ⟨⟩)⟩)
  · refine .inl (.inl (st.book.takers ?_))
    rw [show s.book.takers (i, k) = _ from h]
    exact List.cons_ne_nil _ _

/-- Waiters on an event are woken once and never lost: a registration is in its slot or was taken by one
party, and a thread that took one wakes the fiber once; a fiber that waits is not lost; `SelfRemove` returns
whether the fiber itself took it; a task in a slot has its bit set, or its fiber is about to set it, or who
won the bit is about to exchange the slot; and what was registered when a `SignalAll` began is claimed when
that call has ended. -/
theorem waiters_woken_once {s : State θ τ} (rn : Reaches (Step n) {} s) :
    (∀ i k, 0 < k → k ≤ s.serial i →
      (s.Pending i k ∧ s.takers (i, k) = []) ∨ (¬s.Pending i k ∧ ∃ p, s.takers (i, k) = [p])) ∧
    (∀ i k t, s.takers (i, k) = [.thread t] →
      s.wakes (i, k) = 1 ∨ (s.wakes (i, k) = 0 ∧ ∃ r, (s.thread t).hand = some r ∧ r.key = (i, k))) ∧
    (∀ i, (s.fiber i).waits = true → s.Pending i (s.serial i) ∨
      (∃ t r, (s.thread t).hand = some r ∧ r.key = (i, s.serial i)) ∨ s.resumed i = true) ∧
    (∀ i won, s.fiber i = .removed won → (won = true ↔ s.takers (i, s.serial i) = [.self])) ∧
    (∀ i r, s.slots i = some r → s.marked i = true ∨ s.fiber i = .stored ∨ s.Won i) ∧
    ∀ t i k s1 s2, 0 < k → k ≤ s.serial i → (k = s.serial i → s.fiber i ≠ .stored) →
      Step n s (.begin t .signalAll) s1 → Reaches (Step n) s1 s2 → s2.thread t = .idle →
      s2.Claimed i k := by
  have once := once_of_runs rn
  refine ⟨fun i k => once.taken_or_pending, fun i k t => once.wakes_of_taken, fun i => once.not_lost,
    fun i won => once.selfRemove, shown_of_runs rn, fun t i k s1 s2 pos le done st rn' idle => ?_⟩
  have tab := tabled_of_runs rn
  have hi : i < n := (tab i (by omega)).1
  have both : s2.book.Once ∧ s2.Due t i k := by
    refine rn'.invariant (I := fun s => s.book.Once ∧ s.Due t i k) ?_ fun ⟨once, due⟩ _ st =>
      ⟨once.step st.book, st.due once hi due⟩
    exact ⟨once.step st.book, due_of_begin once (shown_of_runs rn) tab pos le done st⟩
  rcases both.2 with h | ⟨-, -, bef⟩
  · exact h
  · rw [idle] at bef
    exact bef.elim

/-- The first fiber has registered. -/
def oneWaiter : State Unit Unit :=
  (((({ table := true } : State Unit Unit).store 0 ()).setFiber 0 .stored).fetchOr 0 0).setFiber 0 .added

/-- A fiber registers and a `SignalAll` runs from beginning to end. -/
theorem waiters_woken_once_signalled :
    Reaches (Step 1) {} oneWaiter ∧ ∃ s1, Step 1 oneWaiter (.begin () .signalAll) s1 ∧
      ∃ s2, Reaches (Step 1) s1 s2 ∧ s2.thread () = .idle ∧ s2.Claimed 0 1 := by
  have r1 : Reaches (Step (θ := Unit) (τ := Unit) 1) {} _ :=
    Runs.refl.next .reserve trivial (.reserve (by decide))
  have r2 := r1.next (.fiber 0) trivial (.store (i := 0) (x := ()) rfl rfl (by decide))
  have r3 : Reaches (Step 1) {} oneWaiter := r2.next (.fiber 0) trivial (.publish rfl)
  have st : Step 1 oneWaiter (.begin () .signalAll) _ := .beginAll rfl rfl
  have q1 : Reaches (Step 1) (oneWaiter.setThread () (.load 0)) _ :=
    Runs.refl.next (.thread ()) trivial (.load rfl (by decide) (by decide))
  have q2 := q1.next (.thread ()) trivial (.swap rfl)
  have low : 0 * 64 + (oneWaiter.occupied 0).ctz.toNat = 0 := by decide +kernel
  have full : oneWaiter.slots (0 * 64 + (oneWaiter.occupied 0).ctz.toNat) = some ⟨0, 1, ()⟩ := by
    rw [low]
    rfl
  have q3 := q2.next (.thread ()) trivial (.drainTake rfl (by decide) full)
  have q4 := q3.next (.thread ()) trivial (.drainWake rfl)
  have q5 := q4.next (.thread ()) trivial (.drainEnd (congrArg (Pc.drain 0) (by decide +kernel)))
  have q6 := q5.next (.ends ()) trivial (.endAll rfl (by decide))
  exact ⟨r3, _, st, _, q6, rfl, (waiters_woken_once r3).2.2.2.2.2 () 0 1 _ _ (by decide) (by decide)
    (fun _ => by rintro ⟨⟩) st q6 rfl⟩

end JLib.Event
