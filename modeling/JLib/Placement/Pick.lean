import JLib.Placement.Model

/-!
# Placement: the worker that is picked

For ordinary work `PickNextWorker` names an existing worker outside the reserved band, whichever of its
ways it takes: the bitmap select and its re-aim stay inside the masked words, the spill starts past the
floor, and the rotation skips the reserved workers. `whoseTurn` says in closed form where the rotation
ends up.
-/

namespace JLib.Placement
open Bands Bits

namespace Pool
variable {p : Pool} {x : Reads} {i j w : Nat}

/-- Not every worker is reserved. -/
lemma hot_lt (p : Pool) : p.GetHotWorkers < p.n := by
  have h := p.room
  have := p.two
  unfold GetHotWorkers
  omega

/-- The reserved workers are counted in a byte. -/
lemma hot_lt_byte (p : Pool) : p.GetHotWorkers < 256 := BandField_lt ..

/-- In a pool with room the clamp of `GetBands` does nothing to `K`. -/
lemma bands_k (p : Pool) : p.GetBands.k = p.GetHotWorkers := by
  have h := p.hot_lt
  have h2 := p.two
  unfold GetHotWorkers at h
  have e1 : p.n > 1 := by omega
  have e2 : ¬BandField p.word kBandK > p.n - 1 := by omega
  simp [GetBands, Bands.GetBands, GetHotWorkers, e1, e2]

/-- The bits below `d` are set, and no other. -/
lemma getLsbD_low {d : Nat} (hd : d < 64) (i : Nat) :
    ((1#64 <<< d) - 1#64).getLsbD i = decide (i < d) := by
  have hp : 2 ^ d < 2 ^ 64 := Nat.pow_lt_pow_right (by omega) hd
  have h1 : (1#64 <<< d).toNat = 2 ^ d := by
    rw [BitVec.toNat_shiftLeft, Nat.shiftLeft_eq]
    simpa using hp
  have e : ((1#64 <<< d) - 1#64).toNat = 2 ^ d - 1 := by
    have := Nat.two_pow_pos d
    rw [BitVec.toNat_sub, h1]
    simp only [BitVec.toNat_ofNat]
    omega
  rw [BitVec.getLsbD, e, Nat.testBit_two_pow_sub_one]

/-- The mask that starts at `b` keeps no bit below `b`. -/
lemma le_of_maskFrom {b : Nat} (h : (maskFrom b w).getLsbD i = true) : b ≤ w * 64 + i := by
  unfold maskFrom at h
  split at h
  · split at h
    · simp at h
    · next hb =>
      rw [BitVec.getLsbD_not, getLsbD_low (by omega)] at h
      simp only [Bool.and_eq_true, Bool.not_eq_true', decide_eq_false_iff_not] at h
      omega
  · omega

/-- The words of the select have no reserved worker. -/
lemma le_of_words {word : BitVec 64} (hw : (w, word) ∈ p.words x) (hi : word.getLsbD i = true) :
    p.GetHotWorkers ≤ w * 64 + i := by
  have awake : (p.awakeW x w).getLsbD i = true → p.GetHotWorkers ≤ w * 64 + i := by
    intro h
    rw [awakeW, BitVec.getLsbD_and, Bool.and_eq_true] at h
    rw [← p.bands_k]
    exact le_of_maskFrom h.2
  unfold words at hw
  dsimp only at hw
  split at hw
  · obtain ⟨v, -, e⟩ := List.mem_map.1 hw
    cases e
    rw [steerW, BitVec.getLsbD_and, Bool.and_eq_true] at hi
    exact awake hi.1
  · obtain ⟨v, -, e⟩ := List.mem_map.1 hw
    cases e
    exact awake hi

/-- The select stops in a word of its list, with a bit left that was set there. -/
lemma pickBit_spec {ws : List (Nat × BitVec 64)} {word : BitVec 64}
    (h : pickBit ws j = some (w, word)) :
    word ≠ 0#64 ∧ ∃ word', (w, word') ∈ ws ∧ ∀ i, word.getLsbD i = true → word'.getLsbD i = true := by
  induction ws generalizing j with
  | nil => cases h
  | cons e rest ih =>
    obtain ⟨v, u⟩ := e
    unfold pickBit at h
    split at h
    · obtain ⟨h0, u', hm, sub⟩ := ih h
      exact ⟨h0, u', List.mem_cons_of_mem _ hm, sub⟩
    · split at h
      · obtain ⟨h0, u', hm, sub⟩ := ih h
        exact ⟨h0, u', List.mem_cons_of_mem _ hm, sub⟩
      · next hj =>
        cases h
        exact ⟨clearLow_ne_zero (by omega), u, List.mem_cons_self, fun _ => of_clearLow⟩

/-- Whatever is aimed at is a bit of the word. -/
lemma reaim_spec {word : BitVec 64} (h : word ≠ 0#64) :
    ∃ i, word.getLsbD i = true ∧ p.reaim x w word = w * 64 + i := by
  unfold reaim
  dsimp only
  split
  · next hr =>
    have hc := BitVec.getLsbD_true_ctz_of_ne_zero hr.2.2.1
    rw [getLsbD_clearLowest, Bool.and_eq_true] at hc
    exact ⟨_, hc.1, rfl⟩
  · exact ⟨_, BitVec.getLsbD_true_ctz_of_ne_zero h, rfl⟩

/-- The spill of an ordinary worker is an ordinary worker. -/
lemma spill_spec (h : p.GetHotWorkers ≤ i ∧ i < p.n) :
    p.GetHotWorkers ≤ p.spill x i ∧ p.spill x i < p.n := by
  unfold spill
  dsimp only
  generalize (if x.nowNs - x.lastPushNs < kWaveGapNs then x.floorStreak + 1 else 1) = streak
  split
  · exact h
  · split
    · exact h
    · split
      · split
        · next ha => exact ⟨by omega, ha⟩
        · exact h
      · exact h

/-- A worker picked for being awake is an ordinary one. -/
lemma pickAwake_spec (h : p.pickAwake x = some i) : p.GetHotWorkers ≤ i ∧ i < p.n := by
  unfold pickAwake at h
  dsimp only at h
  split at h
  · cases h
  · next w word hb =>
    obtain ⟨h0, word', hm, sub⟩ := pickBit_spec hb
    obtain ⟨k, hk, e⟩ := reaim_spec (p := p) (x := x) (w := w) h0
    split at h
    · next hn =>
      have hidx : p.GetHotWorkers ≤ p.reaim x w word ∧ p.reaim x w word < p.n := by
        refine ⟨?_, hn⟩
        rw [e]
        exact le_of_words hm (sub k hk)
      cases h
      split
      · exact spill_spec hidx
      · exact hidx
    · cases h

/-- The worker at which the rotation ends up: the one the counter points at, or the first that is not
reserved. A counter about to wrap past `size_t` may run out of workers before it gets there. -/
def whoseTurn (p : Pool) (v : Nat) : Nat :=
  let u := v % p.n
  if p.GetHotWorkers ≤ u then u
  else if v + (p.GetHotWorkers - u) < 2 ^ 64 ∨ 2 ^ 64 - v + p.GetHotWorkers < p.n then
    p.GetHotWorkers
  else p.GetHotWorkers + v % (p.n - p.GetHotWorkers)

/-- The worker whose turn it is is an ordinary one. -/
lemma whoseTurn_spec (v : Nat) : p.GetHotWorkers ≤ p.whoseTurn v ∧ p.whoseTurn v < p.n := by
  have hk := p.hot_lt
  unfold whoseTurn
  dsimp only
  split
  · next h => exact ⟨h, Nat.mod_lt _ (by omega)⟩
  · split
    · exact ⟨Nat.le_refl _, hk⟩
    · have := Nat.mod_lt v (show 0 < p.n - p.GetHotWorkers by omega)
      omega

/-- The worker at turn `i` of the rotation. -/
def stop (p : Pool) (v i : Nat) : Nat := ((v + i) % 2 ^ 64) % p.n

/-- The loop stops at the first turn that is not reserved. -/
lemma turn_some {v m i : Nat} (hm : m ≤ p.n) (hi : p.n - m ≤ i) (hn : i < p.n)
    (h : p.GetHotWorkers ≤ p.stop v i)
    (first : ∀ k, p.n - m ≤ k → k < i → p.stop v k < p.GetHotWorkers) :
    p.turn v m = some (p.stop v i) := by
  induction m with
  | zero => omega
  | succ m ih =>
    unfold turn
    by_cases e : i = p.n - (m + 1)
    · subst e
      have : ¬p.stop v (p.n - (m + 1)) < p.GetHotWorkers := by omega
      simp only [stop] at this ⊢
      rw [if_neg this]
    · have := first (p.n - (m + 1)) (Nat.le_refl _) (by omega)
      simp only [stop] at this
      simp only [if_pos this]
      exact ih (by omega) (by omega) fun k hk hki => first k (by omega) hki

/-- The rotation finds nobody when every turn that is left stops at a reserved worker. -/
lemma turn_none {v m : Nat} (hm : m ≤ p.n)
    (all : ∀ k, p.n - m ≤ k → k < p.n → p.stop v k < p.GetHotWorkers) : p.turn v m = none := by
  induction m with
  | zero => rfl
  | succ m ih =>
    unfold turn
    have := all (p.n - (m + 1)) (Nat.le_refl _) (by omega)
    simp only [stop] at this
    simp only [if_pos this]
    exact ih (by omega) fun k hk hkn => all k (by omega) hkn

/-- The stops before the counter wraps. -/
lemma stop_before {v : Nat} (h : v + i < 2 ^ 64) (hu : v % p.n + i < p.n) :
    p.stop v i = v % p.n + i := by
  rw [stop, Nat.mod_eq_of_lt h, ← Nat.mod_add_mod, Nat.mod_eq_of_lt hu]

/-- The stops after the counter has wrapped. -/
lemma stop_after {v : Nat} (h : 2 ^ 64 ≤ v + i) (hi : v + i - 2 ^ 64 < 256)
    (hn : v + i - 2 ^ 64 < p.n) : p.stop v i = v + i - 2 ^ 64 := by
  have e : (v + i) % 2 ^ 64 = v + i - 2 ^ 64 := by
    rw [Nat.mod_eq_sub_mod h, Nat.mod_eq_of_lt (by omega)]
  rw [stop, e, Nat.mod_eq_of_lt hn]

/-- The rotation picks the worker whose turn it is. -/
lemma pickRotation_eq (p : Pool) (x : Reads) : p.pickRotation x = p.whoseTurn (toSize x.nextWorker) := by
  have hv : toSize x.nextWorker < 2 ^ 64 := by
    unfold toSize
    omega
  unfold pickRotation whoseTurn
  generalize toSize x.nextWorker = v at hv
  have hk := p.hot_lt
  have hb := p.hot_lt_byte
  have hu : v % p.n < p.n := Nat.mod_lt _ (by omega)
  dsimp only
  by_cases h1 : p.GetHotWorkers ≤ v % p.n
  · have e : p.stop v 0 = v % p.n := by
      rw [stop_before (by omega) (by omega), Nat.add_zero]
    rw [turn_some (i := 0) (Nat.le_refl _) (by omega) (by omega) (by omega) (by omega), if_pos h1]
    exact e
  · rw [if_neg h1]
    by_cases h2 : v + (p.GetHotWorkers - v % p.n) < 2 ^ 64
    · have c : v + (p.GetHotWorkers - v % p.n) < 2 ^ 64 ∨ 2 ^ 64 - v + p.GetHotWorkers < p.n := .inl h2
      rw [if_pos c]
      have e : p.stop v (p.GetHotWorkers - v % p.n) = p.GetHotWorkers := by
        rw [stop_before h2 (by omega)]
        omega
      rw [turn_some (i := p.GetHotWorkers - v % p.n) (Nat.le_refl _) (by omega) (by omega) (by omega)]
      · exact e
      · intro k _ hk'
        rw [stop_before (by omega) (by omega)]
        omega
    · -- before the counter wraps every turn is reserved
      have before : ∀ k, k < 2 ^ 64 - v → p.stop v k < p.GetHotWorkers := by
        intro k hk'
        rw [stop_before (by omega) (by omega)]
        omega
      by_cases h3 : 2 ^ 64 - v + p.GetHotWorkers < p.n
      · have c : v + (p.GetHotWorkers - v % p.n) < 2 ^ 64 ∨ 2 ^ 64 - v + p.GetHotWorkers < p.n :=
          .inr h3
        rw [if_pos c]
        have e : p.stop v (2 ^ 64 - v + p.GetHotWorkers) = p.GetHotWorkers := by
          rw [stop_after (by omega) (by omega) (by omega)]
          omega
        rw [turn_some (i := 2 ^ 64 - v + p.GetHotWorkers) (Nat.le_refl _) (by omega) h3 (by omega)]
        · exact e
        · intro k _ hk'
          by_cases hw : k < 2 ^ 64 - v
          · exact before k hw
          · rw [stop_after (by omega) (by omega) (by omega)]
            omega
      · have c : ¬(v + (p.GetHotWorkers - v % p.n) < 2 ^ 64 ∨ 2 ^ 64 - v + p.GetHotWorkers < p.n) :=
          fun h => h.elim h2 h3
        rw [turn_none (Nat.le_refl _), if_neg c]
        · exact if_pos hk
        intro k _ hk'
        by_cases hw : k < 2 ^ 64 - v
        · exact before k hw
        · rw [stop_after (by omega) (by omega) (by omega)]
          omega

/-- A reserved worker is picked from the band. -/
lemma pickHot_lt (h : p.GetHotWorkers > 0) : p.pickHot x < p.GetHotWorkers := by
  have hk := p.hot_lt
  unfold pickHot
  rw [Nat.min_eq_left (by omega)]
  exact Nat.mod_lt _ h

/-- A worker of the floor lane is a worker. -/
lemma pickFloorLane_lt (h : p.pickFloorLane x = some i) : i < p.n := by
  unfold pickFloorLane at h
  dsimp only at h
  split at h
  · generalize hs : (if p.GetBands.k + p.GetAwakeFloorBase ≤ p.n then p.GetAwakeFloorBase
      else p.n - p.GetBands.k) = span at h
    split at h
    · next hp =>
      cases h
      have := Nat.mod_lt x.nextHotWorker hp
      split at hs <;> omega
    · cases h
  · cases h

/-- Ordinary work goes to a worker outside the reserved band. -/
lemma pick_normal (p : Pool) (x : Reads) (pref : CorePref) :
    p.GetHotWorkers ≤ p.PickNextWorker x pref .Normal ∧ p.PickNextWorker x pref .Normal < p.n := by
  unfold PickNextWorker
  dsimp only
  rw [if_neg (by simp), if_neg (by simp), Option.none_or]
  split
  · cases h : p.pickAwake x with
    | none =>
      rw [Option.getD_none, pickRotation_eq]
      exact whoseTurn_spec _
    | some i => exact pickAwake_spec h
  · rw [Option.getD_none, pickRotation_eq]
    exact whoseTurn_spec _

/-- Past the bitmap the rotation decides. -/
lemma pick_wide (x : Reads) (pref : CorePref) (h : 256 < p.n) :
    p.PickNextWorker x pref .Normal = p.whoseTurn (toSize x.nextWorker) := by
  have hn : ¬(p.n ≤ kMaxHintQueues ∧ pref = .Default) := by
    rintro ⟨h', -⟩
    have : kMaxHintQueues = 256 := rfl
    omega
  unfold PickNextWorker
  dsimp only
  rw [if_neg (by simp), if_neg (by simp), Option.none_or, if_neg hn, Option.getD_none,
    pickRotation_eq]

/-- Every pick is a worker. -/
lemma pick_lt (p : Pool) (x : Reads) (pref : CorePref) (lane : Lane) :
    p.PickNextWorker x pref lane < p.n := by
  cases lane with
  | Normal => exact (p.pick_normal x pref).2
  | LowLatency =>
    have hk := p.hot_lt
    unfold PickNextWorker
    dsimp only
    split
    · next h =>
      have := pickHot_lt (p := p) (x := x) h.2
      omega
    · generalize hf : (if Lane.LowLatency = .LowLatency ∧ x.hiPriFloorLane = true
        then p.pickFloorLane x else none) = floor
      generalize ha : (if p.n ≤ kMaxHintQueues ∧ pref = .Default then p.pickAwake x else none) = awake
      cases floor with
      | some i =>
        split at hf
        · exact pickFloorLane_lt hf
        · cases hf
      | none =>
        cases awake with
        | some i =>
          split at ha
          · exact (pickAwake_spec ha).2
          · cases ha
        | none =>
          have := (whoseTurn_spec (p := p) (toSize x.nextWorker)).2
          rwa [← pickRotation_eq] at this

end Pool
end JLib.Placement
