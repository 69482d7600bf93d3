import JLib.TaskDAG.Announced
import JLib.TaskDAG.Held

/-!
# Reclamation of nodes

A node is retired at the end of its own walk and freed by a sweep whose scan found every announced epoch
later than the retirement. That protects it from the walks that were announced when it was retired and
stay so. A predecessor that has yet to begin its walk is not seen by any scan, and neither is one whose
announcement a nested guard has withdrawn. `Covered` excludes these two, and then a freed node has no
predecessor left that could read it.
-/

namespace JLib.TaskDAG
open LTS State

variable {ν θ κ : Type} [DecidableEq θ] {w : Setup ν θ κ}
  {s u x : State ν θ κ} {a : Label ν θ} {t : θ} {n m : ν} {c : κ} {e : Nat} {P : κ → Prop}

/-- The walk of `m` is in progress, and it is the only one on the slot `c`. -/
def Reads (w : Setup ν θ κ) (s : State ν θ κ) (m : ν) (c : κ) : Prop :=
  ∃ t began, w.slotOf t = c ∧ walks (s.stack t) = [(m, began)] ∧
    ∀ t', w.slotOf t' = c → t' ≠ t → walks (s.stack t') = []

/-- The condition on the steps. A guard is not constructed on the slot of a walk while a dependent of its
node awaits reclamation. When a node is retired, the walk of each of its predecessors is over, or is in
progress, announced and alone on its slot. -/
def Covered (w : Setup ν θ κ) (s : State ν θ κ) : Label ν θ → Prop
  | .exec t =>
    (∀ n outcome e fs, s.stack t = .announce n outcome e :: fs → ∀ m, Reads w s m (w.slotOf t) →
      ∀ d ∈ w.graph.dependents m, ∀ b e, (d, e) ∉ s.bag b) ∧
    ∀ n fs, s.stack t = .retire n :: fs → ∀ m, n ∈ w.graph.dependents m →
      s.walked m = true ∨ ∃ c, Reads w s m c ∧ s.slot c ≠ none
  | _ => True

/-- A walk that is over stays over. -/
lemma Effect.walked_mono [DecidableEq ν] [DecidableEq κ] (ef : Effect w s a u) (h : s.walked m = true) :
    u.walked m = true := by
  rcases ef with ⟨_, _, _, _, walked⟩ | ⟨_, _, _, _, _, _, _, _, _, _, walked⟩ |
    ⟨_, n, _, _, _, _, _, _, _, walked⟩
  · rwa [walked]
  · rwa [walked]
  · rw [walked, Function.update_apply]
    split
    · rfl
    · exact h

/-- A walk that is alone on its slot ends or stays as it is, unless a guard is constructed on the slot. -/
lemma Effect.reads [DecidableEq ν] [DecidableEq κ] (ef : Effect w s a u) (rd : Reads w s m c)
    (free : ∀ t n outcome e fs, a = .exec t → s.stack t = .announce n outcome e :: fs →
      w.slotOf t ≠ c) :
    u.walked m = true ∨ (Reads w u m c ∧ u.slot c = s.slot c) := by
  obtain ⟨t, began, hc, one, others⟩ := rd
  rcases ef with ⟨slot, _, same, _, _⟩ | ⟨t1, n1, outcome, e, fs, act, hs, slot, stack, _, _⟩ |
    ⟨t1, n1, outcome, b1, fs, hs, slot, stack, _, walked⟩
  · right
    refine ⟨⟨t, began, hc, by rw [same, one], fun t' h ne => ?_⟩, by rw [slot]⟩
    rw [same]
    exact others t' h ne
  · right
    have away := free t1 n1 outcome e fs act hs
    have stack_c : ∀ {t'}, w.slotOf t' = c → u.stack t' = s.stack t' := by
      intro t' h
      rw [stack, Function.update_of_ne]
      rintro rfl
      exact away h
    refine ⟨⟨t, began, hc, by rw [stack_c hc, one], fun t' h ne => ?_⟩, ?_⟩
    · rw [stack_c h]
      exact others t' h ne
    · rw [slot, Function.update_of_ne (Ne.symm away)]
  · have walks_t1 : walks (s.stack t1) = (n1, b1) :: walks fs := by
      rw [hs]
      rfl
    by_cases hc1 : w.slotOf t1 = c
    · -- the walk that ends is on the slot, so it is that of `m`
      left
      have ht : t1 = t := by
        by_contra ne
        have := others t1 hc1 ne
        rw [walks_t1] at this
        cases this
      rw [ht, one] at walks_t1
      have hm := (List.cons.inj walks_t1).1
      rw [walked, (Prod.mk.inj hm).1, Function.update_self]
    · right
      have stack_c : ∀ {t'}, w.slotOf t' = c → u.stack t' = s.stack t' := by
        intro t' h
        rw [stack, Function.update_of_ne]
        rintro rfl
        exact hc1 h
      refine ⟨⟨t, began, hc, by rw [stack_c hc, one], fun t' h ne => ?_⟩, ?_⟩
      · rw [stack_c h]
        exact others t' h ne
      · rw [slot, Function.update_of_ne (Ne.symm hc1)]

/-! ## The shelter of a retired node -/

/-- The walk of each predecessor of `n` is over, or is announced on a slot with `P` by an epoch that keeps
what was retired in `e`. -/
def Shelter (w : Setup ν θ κ) (s : State ν θ κ) (P : κ → Prop) (n : ν) (e : Nat) : Prop :=
  ∀ m, n ∈ w.graph.dependents m →
    s.walked m = true ∨ ∃ c e', Reads w s m c ∧ s.slot c = some e' ∧ e' ≤ e ∧ P c

omit [DecidableEq θ] in
/-- The slots may hold older epochs. -/
lemma Shelter.mono {Q : κ → Prop} (sh : Shelter w s P n e)
    (h : ∀ c e', s.slot c = some e' → e' ≤ e → P c → Q c) : Shelter w s Q n e := by
  intro m hm
  rcases sh m hm with ended | ⟨c, e', rd, slot, le, hc⟩
  · exact .inl ended
  · exact .inr ⟨c, e', rd, slot, le, h c e' slot le hc⟩

/-- A shelter lasts through a step that takes no guard away. -/
lemma Shelter.step [DecidableEq ν] [DecidableEq κ] (sh : Shelter w s P n e) (ef : Effect w s a u)
    (free : ∀ t n' outcome e fs, a = .exec t → s.stack t = .announce n' outcome e :: fs →
      ∀ m, Reads w s m (w.slotOf t) → n ∉ w.graph.dependents m) :
    Shelter w u P n e := by
  intro m hm
  rcases sh m hm with ended | ⟨c, e', rd, slot, le, hc⟩
  · exact .inl (ef.walked_mono ended)
  · have away : ∀ t n' outcome e fs, a = .exec t → s.stack t = .announce n' outcome e :: fs →
        w.slotOf t ≠ c := by
      intro t n' outcome e fs act hs hc
      exact free t n' outcome e fs act hs m (hc ▸ rd) hm
    rcases ef.reads rd away with ended | ⟨rd', same⟩
    · exact .inl ended
    · exact .inr ⟨c, e', rd', same ▸ slot, le, hc⟩

/-- What the bags, the scans and the freed nodes of `x` are to the walks of `s`. -/
structure Sheltered (w : Setup ν θ κ) (s x : State ν θ κ) : Prop where
  bag : ∀ {b n e}, (n, e) ∈ x.bag b → Shelter w s (fun _ => True) n e
  present : ∀ {t v cs}, x.scan t = some (v, cs) → v ≤ x.globalEpoch
  scan : ∀ {t v cs b n e}, x.scan t = some (v, cs) → (n, e) ∈ x.bag b → e < v →
    Shelter w s (· ∈ cs) n e
  freed : ∀ {n m}, x.freed n = true → n ∈ w.graph.dependents m → s.walked m = true

omit [DecidableEq θ] in
/-- Nothing is in a bag. -/
lemma Sheltered.init [DecidableEq ν] (w : Setup ν θ κ) : Sheltered w (init w) (init w) :=
  ⟨nofun, nofun, nofun, nofun⟩

/-- The walks move on. -/
lemma Sheltered.walks [DecidableEq ν] [DecidableEq κ] (sd : Sheltered w s s) (ef : Effect w s a u)
    (ok : Covered w s a) : Sheltered w u s := by
  have free : ∀ {b n e}, (n, e) ∈ s.bag b → ∀ t n' outcome e fs, a = .exec t →
      s.stack t = .announce n' outcome e :: fs →
      ∀ m, Reads w s m (w.slotOf t) → n ∉ w.graph.dependents m := by
    intro b n e hb t n' outcome e' fs act hs m rd hm
    subst act
    exact ok.1 n' outcome e' fs hs m rd n hm b e hb
  refine ⟨fun hb => ?_, sd.present, fun hv hb lt => ?_, fun hf hm => ?_⟩
  · exact (sd.bag hb).step ef (free hb)
  · exact (sd.scan hv hb lt).step ef (free hb)
  · exact ef.walked_mono (sd.freed hf hm)

omit [DecidableEq θ] in
/-- No bag is touched. -/
lemma Sheltered.same (sd : Sheltered w u s) (bag : u.bag = s.bag) (scan : u.scan = s.scan)
    (freed : u.freed = s.freed) (epoch : s.globalEpoch ≤ u.globalEpoch) : Sheltered w u u := by
  refine ⟨fun hb => ?_, fun hv => ?_, fun hv hb lt => ?_, fun hf hm => ?_⟩
  · rw [bag] at hb
    exact sd.bag hb
  · rw [scan] at hv
    exact (sd.present hv).trans epoch
  · rw [scan] at hv
    rw [bag] at hb
    exact sd.scan hv hb lt
  · rw [freed] at hf
    exact sd.freed hf hm

/-- A node is retired in the present epoch. -/
lemma Sheltered.retire (sd : Sheltered w u s) (new : Shelter w u (fun _ => True) n s.globalEpoch)
    (bag : u.bag = Function.update s.bag (some t) ((n, s.globalEpoch) :: s.bag (some t)))
    (scan : u.scan = s.scan) (freed : u.freed = s.freed) (epoch : u.globalEpoch = s.globalEpoch) :
    Sheltered w u u := by
  have back : ∀ {b m e}, (m, e) ∈ u.bag b → (m, e) ∈ s.bag b ∨ (m = n ∧ e = s.globalEpoch) := by
    intro b m e h
    rw [bag, Function.update_apply] at h
    split at h
    · rename_i hb
      rcases List.mem_cons.1 h with h | h
      · cases h
        exact .inr ⟨rfl, rfl⟩
      · exact .inl (hb ▸ h)
    · exact .inl h
  refine ⟨fun hb => ?_, fun hv => ?_, fun hv hb lt => ?_, fun hf hm => ?_⟩
  · rcases back hb with hb | ⟨rfl, rfl⟩
    · exact sd.bag hb
    · exact new
  · rw [scan] at hv
    rw [epoch]
    exact sd.present hv
  · rw [scan] at hv
    rcases back hb with hb | ⟨rfl, rfl⟩
    · exact sd.scan hv hb lt
    · -- no scan in progress has come past the present epoch
      have := sd.present hv
      omega
  · rw [freed] at hf
    exact sd.freed hf hm

/-- A scan begins with the present epoch and all the slots. -/
lemma Sheltered.begin (sd : Sheltered w u s) (bag : u.bag = s.bag)
    (scan : u.scan = Function.update s.scan t (some (s.globalEpoch, w.participants)))
    (freed : u.freed = s.freed) (epoch : u.globalEpoch = s.globalEpoch) : Sheltered w u u := by
  refine ⟨fun hb => ?_, fun hv => ?_, fun hv hb lt => ?_, fun hf hm => ?_⟩
  · rw [bag] at hb
    exact sd.bag hb
  · rw [scan, Function.update_apply] at hv
    rw [epoch]
    split at hv
    · cases hv
      exact le_rfl
    · exact sd.present hv
  · rw [scan, Function.update_apply] at hv
    rw [bag] at hb
    split at hv
    · cases hv
      exact (sd.bag hb).mono fun c _ _ _ _ => w.registered c
    · exact sd.scan hv hb lt
  · rw [freed] at hf
    exact sd.freed hf hm

/-- A scan comes past a slot. What it would still free is not sheltered there. -/
lemma Sheltered.look [DecidableEq κ] {v v' : Nat} {cs : List κ} (sd : Sheltered w u s)
    (hs : s.scan t = some (v, c :: cs)) (slot : u.slot = s.slot) (le : v' ≤ v)
    (seen : ∀ e, s.slot c = some e → v' ≤ e) (bag : u.bag = s.bag)
    (scan : u.scan = Function.update s.scan t (some (v', cs))) (freed : u.freed = s.freed)
    (epoch : u.globalEpoch = s.globalEpoch) : Sheltered w u u := by
  refine ⟨fun hb => ?_, fun hv => ?_, fun hv hb lt => ?_, fun hf hm => ?_⟩
  · rw [bag] at hb
    exact sd.bag hb
  · rw [scan, Function.update_apply] at hv
    rw [epoch]
    split at hv
    · cases hv
      exact le.trans (sd.present hs)
    · exact sd.present hv
  · rw [scan, Function.update_apply] at hv
    rw [bag] at hb
    split at hv
    · cases hv
      refine (sd.scan hs hb (lt.trans_le le)).mono fun c' e' hslot le' hc => ?_
      rcases List.mem_cons.1 hc with rfl | hc
      · -- the announced epoch is at most that of the retirement and at least the new minimum
        rw [slot] at hslot
        have := seen e' hslot
        omega
      · exact hc
    · exact sd.scan hv hb lt
  · rw [freed] at hf
    exact sd.freed hf hm

variable [DecidableEq ν]

/-- What is left after a sweep was there. -/
lemma bag_of_sweep {b : Option θ} {v : Nat} (h : (n, e) ∈ (s.sweep t v).bag b) : (n, e) ∈ s.bag b := by
  simp only [State.sweep] at h
  split at h
  · exact (List.mem_filter.1 h).1
  · exact h

/-- What a sweep frees was in a bag, retired before the minimum of the scan. -/
lemma freed_of_sweep {v : Nat} (h : (s.sweep t v).freed n = true) :
    s.freed n = true ∨ ∃ b e, (n, e) ∈ s.bag b ∧ e < v := by
  simp only [State.sweep, Bool.or_eq_true, List.any_eq_true] at h
  rcases h with h | ⟨⟨n', e⟩, hr, hn⟩
  · exact .inl h
  · obtain ⟨hr, lt⟩ := List.mem_filter.1 hr
    have hn : n' = n := of_decide_eq_true hn
    have lt : e < v := of_decide_eq_true lt
    subst hn
    exact .inr ((List.mem_append.1 hr).elim (fun h => ⟨_, e, h, lt⟩) fun h => ⟨_, e, h, lt⟩)

omit [DecidableEq ν] in
/-- What is in a bag after a thread has left was in one. -/
lemma bag_of_leave {b : Option θ} (h : (n, e) ∈ (s.leave t).bag b) : ∃ b', (n, e) ∈ s.bag b' := by
  simp only [State.leave, Function.update_apply] at h
  split at h
  · cases h
  · split at h
    · exact (List.mem_append.1 h).elim (fun h => ⟨_, h⟩) fun h => ⟨_, h⟩
    · exact ⟨b, h⟩

/-- A sweep frees what no slot shelters. -/
lemma Sheltered.sweep {v : Nat} (sd : Sheltered w (s.sweep t v) s) (hs : s.scan t = some (v, [])) :
    Sheltered w (s.sweep t v) (s.sweep t v) := by
  refine ⟨fun hb => sd.bag (bag_of_sweep hb), fun hv => ?_, fun hv hb lt => ?_, fun {n m} hf hm => ?_⟩
  · simp only [State.sweep, Function.update_apply] at hv
    split at hv
    · cases hv
    · exact sd.present hv
  · simp only [State.sweep, Function.update_apply] at hv
    split at hv
    · cases hv
    · exact sd.scan hv (bag_of_sweep hb) lt
  · rcases freed_of_sweep hf with hf | ⟨b, e, hb, lt⟩
    · exact sd.freed hf hm
    · rcases sd.scan hs hb lt m hm with ended | ⟨_, _, _, _, _, hc⟩
      · exact ended
      · cases hc

omit [DecidableEq ν] in
/-- A thread that ends leaves its bag. -/
lemma Sheltered.leave (sd : Sheltered w (s.leave t) s) : Sheltered w (s.leave t) (s.leave t) := by
  refine ⟨fun hb => ?_, fun hv => sd.present hv, fun hv hb lt => ?_, fun hf hm => sd.freed hf hm⟩
  · obtain ⟨b', hb'⟩ := bag_of_leave hb
    exact sd.bag hb'
  · obtain ⟨b', hb'⟩ := bag_of_leave hb
    exact sd.scan hv hb' lt

/-- The bags, the scans, the freed nodes and the epoch of two states agree. -/
structure SameBags (s u : State ν θ κ) : Prop where
  bag : u.bag = s.bag
  scan : u.scan = s.scan
  freed : u.freed = s.freed
  epoch : u.globalEpoch = s.globalEpoch

/-- Reading an edge leaves the bags. -/
lemma visit_bags {outcome : Outcome} {d : ν} {below : List (Frame ν)} :
    SameBags s (s.visit w t outcome d below) := by
  unfold State.visit
  cases outcome with
  | Cancelled => exact ⟨rfl, rfl, rfl, rfl⟩
  | Completed =>
    simp only
    split <;> exact ⟨rfl, rfl, rfl, rfl⟩

/-- Dispatching a node leaves the bags. -/
lemma dispatch_bags {outcome : Outcome} {below : List (Frame ν)} :
    SameBags s (s.dispatch w t n outcome below) := by
  unfold State.dispatch
  split
  · exact ⟨rfl, rfl, rfl, rfl⟩
  · split <;> exact ⟨rfl, rfl, rfl, rfl⟩

/-- Only a retirement adds to a bag. -/
lemma exec_bags [DecidableEq κ] (w : Setup ν θ κ) (s : State ν θ κ) (t : θ) :
    SameBags s (s.exec w t) ∨ ∃ n fs, s.stack t = .retire n :: fs := by
  unfold State.exec
  cases hs : s.stack t with
  | nil => exact .inl ⟨rfl, rfl, rfl, rfl⟩
  | cons f fs =>
    cases f with
    | fire n outcome =>
      left
      simp only
      split <;> exact ⟨rfl, rfl, rfl, rfl⟩
    | decide n outcome => exact .inl dispatch_bags
    | arm n => exact .inl ⟨rfl, rfl, rfl, rfl⟩
    | enter n outcome => exact .inl ⟨rfl, rfl, rfl, rfl⟩
    | announce n outcome e => exact .inl ⟨rfl, rfl, rfl, rfl⟩
    | walk n outcome rest began =>
      cases rest with
      | nil => exact .inl ⟨rfl, rfl, rfl, rfl⟩
      | cons d rest => exact .inl visit_bags
    | retire n => exact .inr ⟨n, fs, rfl⟩

omit [DecidableEq ν] [DecidableEq θ] in
/-- A node that is retired is sheltered by the walks of its predecessors. -/
lemma Covered.shelter {fs : List (Frame ν)} (ok : Covered w s (.exec t)) (bd : Bounded s)
    (hs : s.stack t = .retire n :: fs) : Shelter w s (fun _ => True) n s.globalEpoch := by
  intro m hm
  rcases ok.2 n fs hs m hm with ended | ⟨c, rd, announced⟩
  · exact .inl ended
  · obtain ⟨e, he⟩ := Option.ne_none_iff_exists'.1 announced
    exact .inr ⟨c, e, rd, he, bd.slot c e he, trivial⟩

variable [DecidableEq κ]

/-- One step of a thread under the condition. -/
lemma Sheltered.exec (sd : Sheltered w s s) (bd : Bounded s) (ok : Covered w s (.exec t)) :
    Sheltered w (s.exec w t) (s.exec w t) := by
  have ef := exec_effect w s t
  have sd' := sd.walks ef ok
  rcases exec_bags w s t with same | ⟨n, fs, hs⟩
  · exact sd'.same same.bag same.scan same.freed same.epoch.ge
  · have new : Shelter w (s.exec w t) (fun _ => True) n s.globalEpoch := by
      apply (ok.shelter bd hs).step ef
      intro t' n' outcome e fs' act hs'
      cases act
      rw [hs] at hs'
      cases hs'
    have exec : s.exec w t = { s.setStack t fs with
        bag := Function.update s.bag (some t) ((n, s.globalEpoch) :: s.bag (some t)) } := by
      simp only [State.exec, hs]
    apply sd'.retire new <;> rw [exec] <;> rfl

omit [DecidableEq ν] in
/-- The next slot of a scan, if there is one. -/
lemma Sheltered.looked (sd : Sheltered w s s) (sd' : Sheltered w (s.look t) s) :
    Sheltered w (s.look t) (s.look t) := by
  cases hs : s.scan t with
  | none =>
    have idle : s.look t = s := by simp only [State.look, hs]
    rw [idle]
    exact sd
  | some r =>
    obtain ⟨v, cs⟩ := r
    cases cs with
    | nil =>
      have idle : s.look t = s := by simp only [State.look, hs]
      rw [idle]
      exact sd
    | cons c cs =>
      cases hc : s.slot c with
      | none =>
        have look : s.look t = { s with scan := Function.update s.scan t (some (v, cs)) } := by
          simp only [State.look, hs, hc]
        rw [look] at sd' ⊢
        refine sd'.look hs rfl le_rfl (fun e he => ?_) rfl rfl rfl rfl
        rw [hc] at he
        cases he
      | some e =>
        have look : s.look t = { s with scan := Function.update s.scan t (some (min v e, cs)) } := by
          simp only [State.look, hs, hc]
        rw [look] at sd' ⊢
        refine sd'.look hs rfl (Nat.min_le_left _ _) (fun e' he => ?_) rfl rfl rfl rfl
        rw [hc] at he
        cases he
        exact Nat.min_le_right _ _

omit [DecidableEq κ] in
/-- A signal leaves the bags. -/
lemma signal_bags : SameBags s (s.signal t n) := by
  unfold State.signal
  split
  · exact ⟨rfl, rfl, rfl, rfl⟩
  · simp only
    split <;> exact ⟨rfl, rfl, rfl, rfl⟩

/-- A step under the condition frees nothing that a walk may reach. -/
lemma Sheltered.step (sd : Sheltered w s s) (bd : Bounded s) (ok : Covered w s a)
    (st : Step w s a u) : Sheltered w u u := by
  have sd' := sd.walks st.effect ok
  cases st with
  | submit _ => exact sd'.same rfl rfl rfl le_rfl
  | run _ => exact sd'.same rfl rfl rfl le_rfl
  | discard _ => exact sd'.same rfl rfl rfl le_rfl
  | workerDiscard _ => exact sd'.same rfl rfl rfl le_rfl
  | @signal t n _ =>
    have same : SameBags s (s.signal t n) := signal_bags
    exact sd'.same same.bag same.scan same.freed same.epoch.ge
  | cancel => exact sd'.same rfl rfl rfl le_rfl
  | exec => exact sd.exec bd ok
  | advance => exact sd'.same rfl rfl rfl (Nat.le_succ _)
  | scan _ => exact sd'.begin rfl rfl rfl rfl
  | look => exact sd.looked sd'
  | sweep hs => exact sd'.sweep hs
  | leave _ => exact sd'.leave

/-- In a run under the condition nothing that a walk may reach is freed. -/
lemma Sheltered.of_runs (rn : Runs (Step w) (Covered w) (TaskDAG.init w) s) : Sheltered w s s := by
  induction rn with
  | refl => exact .init w
  | tail rn ok st ih => exact ih.step (.of_runs rn) ok st

omit [DecidableEq ν] [DecidableEq θ] [DecidableEq κ] in
/-- A node whose walk is in progress is not finished. -/
lemma Held.not_walked {began : Nat} (hd : Held s) (h : (m, began) ∈ TaskDAG.walks (s.stack t)) :
    s.walked m = false := by
  obtain ⟨f, hf, hw⟩ := List.mem_filterMap.1 h
  refine hd.pending (p := .stack t) (List.mem_filterMap.2 ⟨f, hf, ?_⟩)
  split at hw
  · cases hw
    rfl
  · cases hw

/-- Where every retired node is covered, a freed node has no predecessor with an unfinished walk, and no
walk in progress has a freed dependent. -/
theorem freed_only_when_unreachable (rn : Runs (Step w) (Covered w) (init w) s) :
    (∀ n m, s.freed n = true → n ∈ w.graph.dependents m → s.walked m = true) ∧
      ∀ t m began, (m, began) ∈ walks (s.stack t) → ∀ n ∈ w.graph.dependents m,
        s.freed n = false := by
  have sd := Sheltered.of_runs rn
  refine ⟨fun n m hf hm => sd.freed hf hm, fun t m began walking n hm => ?_⟩
  apply Bool.eq_false_iff.2
  intro hf
  have := (Held.of_runs rn).not_walked walking
  rw [sd.freed hf hm] at this
  cases this

/-- The edge of the chain goes up. -/
lemma chain_acyclic : ∃ rank : Nat → Nat, ∀ m, ∀ n ∈ if m = 0 then [1] else [], rank m < rank n := by
  refine ⟨id, fun m n h => ?_⟩
  split at h
  · subst m
    rw [List.mem_singleton.1 h]
    exact Nat.one_pos
  · cases h

/-- Two tasks, the second after the first. -/
def chain : Setup Nat Unit Unit where
  graph :=
    { nodes := [0, 1]
      dependents := fun n => if n = 0 then [1] else []
      kind := fun _ => .task
      gateType := fun _ => .AND
      acyclic := chain_acyclic }
  slotOf := fun _ => ()
  participants := [()]
  registered := unit_registered

/-- The chain has one edge. -/
lemma chain_pred {m n : Nat} (h : n ∈ chain.graph.dependents m) : n = 1 ∧ m = 0 := by
  change n ∈ if m = 0 then [1] else [] at h
  split at h
  · exact ⟨List.mem_singleton.1 h, ‹_›⟩
  · cases h

/-- The second task of the chain is freed after the walk of the first. -/
theorem freed_only_when_unreachable_chain :
    ∃ s, Runs (Step chain) (Covered chain) (init chain) s ∧ s.freed 1 = true ∧ s.walked 0 = true := by
  have r : Runs (Step chain) (Covered chain) (init chain) _ := .refl
  have r1 := r.next (.submit ()) trivial (.submit rfl)
  have r2 := r1.next (.exec ()) ⟨nofun, nofun⟩ .exec
  have r3 := r2.next (.exec ()) ⟨nofun, nofun⟩ .exec
  have r4 := r3.next (.run () 0) trivial (.run rfl)
  have r5 := r4.next (.exec ()) ⟨nofun, nofun⟩ .exec
  have r6 := r5.next (.exec ()) ⟨fun _ _ _ _ _ _ _ _ _ _ _ => List.not_mem_nil, nofun⟩ .exec
  have r7 := r6.next (.exec ()) ⟨nofun, nofun⟩ .exec
  have r8 := r7.next (.exec ()) ⟨nofun, nofun⟩ .exec
  have r9 := r8.next (.exec ()) ⟨nofun, nofun⟩ .exec
  have r10 := r9.next (.exec ()) ⟨nofun, nofun⟩ .exec
  have r11 := r10.next (.exec ())
    ⟨nofun, fun n fs hs m hm => by cases hs; exact absurd (chain_pred hm).1 (by decide)⟩ .exec
  have r12 := r11.next (.run () 1) trivial (.run rfl)
  have r13 := r12.next (.exec ()) ⟨nofun, nofun⟩ .exec
  have r14 := r13.next (.exec ()) ⟨fun _ _ _ _ _ _ ⟨_, _, _, h, _⟩ => (nomatch h), nofun⟩ .exec
  have r15 := r14.next (.exec ()) ⟨nofun, nofun⟩ .exec
  have r16 := r15.next (.exec ())
    ⟨nofun, fun n fs hs m hm => by obtain ⟨_, rfl⟩ := chain_pred hm; exact .inl rfl⟩ .exec
  have r17 := r16.next .advance trivial .advance
  have r18 := r17.next (.scan ()) trivial (.scan rfl)
  have r19 := r18.next (.look ()) trivial .look
  have r20 := r19.next (.sweep ()) trivial (.sweep rfl)
  exact ⟨_, r20, rfl, (freed_only_when_unreachable r20).1 1 0 rfl (List.mem_singleton.2 rfl)⟩

/-- The edges of the example go up. -/
lemma either_acyclic : ∃ rank : Nat → Nat, ∀ m, ∀ n ∈ if m < 2 then [2] else [], rank m < rank n := by
  refine ⟨id, fun m n h => ?_⟩
  split at h
  · rw [List.mem_singleton.1 h]
    assumption
  · cases h

/-- Two tasks and an OR node on both. -/
def either : Setup Nat Unit Unit where
  graph :=
    { nodes := [0, 1, 2]
      dependents := fun n => if n < 2 then [2] else []
      kind := fun _ => .task
      gateType := fun n => if n = 2 then .OR else .AND
      acyclic := either_acyclic }
  slotOf := fun _ => ()
  participants := [()]
  registered := unit_registered

/-- Node 0 fires the OR node, which runs, is retired and freed. Node 1 has not begun its walk, and when
it does it reads the freed node. -/
theorem or_node_freed_before_its_predecessor :
    ∃ s, Reaches (Step either) (init either) s ∧ s.freed 2 = true ∧ 2 ∈ either.graph.dependents 1 ∧
      s.walked 1 = false ∧ s.stack () = [.walk 1 .Completed [2] 1] := by
  have r : Reaches (Step either) (init either) _ := .refl
  have r1 := r.next (.submit ()) trivial (.submit rfl)
  have r2 := r1.next (.exec ()) trivial .exec
  have r3 := r2.next (.exec ()) trivial .exec
  have r4 := r3.next (.submit ()) trivial (.submit rfl)
  have r5 := r4.next (.exec ()) trivial .exec
  have r6 := r5.next (.exec ()) trivial .exec
  -- node 0 runs and fires node 2
  have r7 := r6.next (.run () 0) trivial (.run rfl)
  have r8 := r7.next (.exec ()) trivial .exec
  have r9 := r8.next (.exec ()) trivial .exec
  have r10 := r9.next (.exec ()) trivial .exec
  have r11 := r10.next (.exec ()) trivial .exec
  have r12 := r11.next (.exec ()) trivial .exec
  have r13 := r12.next (.exec ()) trivial .exec
  have r14 := r13.next (.exec ()) trivial .exec
  -- node 2 runs and is retired
  have r15 := r14.next (.run () 2) trivial (.run rfl)
  have r16 := r15.next (.exec ()) trivial .exec
  have r17 := r16.next (.exec ()) trivial .exec
  have r18 := r17.next (.exec ()) trivial .exec
  have r19 := r18.next (.exec ()) trivial .exec
  -- a tick
  have r20 := r19.next .advance trivial .advance
  have r21 := r20.next (.scan ()) trivial (.scan rfl)
  have r22 := r21.next (.look ()) trivial .look
  have r23 := r22.next (.sweep ()) trivial (.sweep rfl)
  -- node 1 runs
  have r24 := r23.next (.run () 1) trivial (.run rfl)
  have r25 := r24.next (.exec ()) trivial .exec
  have r26 := r25.next (.exec ()) trivial .exec
  exact ⟨_, r26, rfl, List.mem_singleton.2 rfl, rfl, rfl⟩

end JLib.TaskDAG
