import JLib.Range.Model

/-!
# Lazy ranges: splits are counted

A split is on one deque or on one stack, and the counter of its range counts it from before it is
published until after it has run. So a range whose counter is zero has no split on any lane.
-/

namespace JLib.Range
open LTS

variable {T : Type} {n : Nat}

/-- The split a frame has. -/
def Frame.splits : Frame → List Split
  | counted _ _ _ k | hinted _ _ _ k | full _ _ _ k | exec k => [k]
  | _ => []

/-- The splits on a stack. -/
def splits (fs : List Frame) : List Split := fs.flatMap Frame.splits

/-- An empty stack has no split. -/
@[simp] lemma splits_nil : splits [] = [] := rfl

/-- The splits of a stack are those of its frames. -/
@[simp] lemma splits_cons (f : Frame) (fs : List Frame) : splits (f :: fs) = f.splits ++ splits fs :=
  List.flatMap_cons ..

/-- A split that starts is on the stack. -/
@[simp] lemma splits_start (k : Split) (runs : Bool) (fs : List Frame) :
    splits (start k runs fs) = k :: splits fs := by
  cases runs <;> rfl

/-- Where splits are: on the deques and on the stacks. -/
def St.held (s : St T n) : Lane n ⊕ T → List Split
  | .inl l => s.deques l
  | .inr t => splits (s.stack t)

/-- Every split that is out is counted. -/
def Counted (s : St T n) : Prop :=
  ∃ live, Ledger s.held Split.range s.count live ∧ ∀ k ∈ live, k.id < s.tasks

/-- Helping leaves the splits on the stack alone. -/
lemma Helps.splits_eq {kind : Kind} {fs gs : List Frame} (h : Helps kind fs gs) :
    splits gs = splits fs := by
  cases h <;> rfl

namespace Counted
variable {s s' : St T n} {pool : Pool T} {t : T} {fs gs : List Frame}

/-- No split is out. -/
lemma init : Counted ({} : St T n) := by
  refine ⟨[], ⟨Custody.empty ?_, List.nodup_nil, ?_, fun _ => rfl⟩, nofun⟩
  · rintro (l | t) <;> rfl
  · rintro (l | t) k hk <;> cases hk

/-- A range whose counter is zero has no split on a lane. -/
lemma range_ne (c : Counted s) {r : Nat} (h0 : s.count r = 0) {l : Lane n} {k : Split}
    (hk : k ∈ s.deques l) : k.range ≠ r := by
  obtain ⟨live, led, -⟩ := c
  exact led.group_ne h0 (show k ∈ s.held (.inl l) from hk)

variable [DecidableEq T]

/-- A context moves on with the same splits. -/
lemma move (c : Counted s) (hd : s'.deques = s.deques) (hc : s'.count = s.count)
    (ht : s'.tasks = s.tasks) (hs : s'.stack = Function.update s.stack t gs)
    (hg : splits gs = splits (s.stack t)) : Counted s' := by
  obtain ⟨live, led, ids⟩ := c
  refine ⟨live, ?_, by rw [ht]; exact ids⟩
  rw [hc]
  apply led.congr
  rintro (l | u)
  · exact congrFun hd l
  · by_cases e : u = t
    · subst e
      simp [St.held, hs, hg]
    · simp [St.held, hs, e]

/-- Splits change between a deque and a stack. -/
lemma transfer (c : Counted s) {l : Lane n} {ks : List Split}
    (perm : (ks ++ splits gs).Perm (s.deques l ++ splits (s.stack t))) :
    Counted ((s.withDeque l ks).put t gs) := by
  obtain ⟨live, led, ids⟩ := c
  refine ⟨live, led.move (p := .inl l) (q := .inr t) nofun ?_ ?_, ids⟩
  · rintro (m | u) hl ht
    · have ne : m ≠ l := fun e => hl (e ▸ rfl)
      simp [St.held, St.withDeque, St.put, ne]
    · have ne : u ≠ t := fun e => ht (e ▸ rfl)
      simp [St.held, St.withDeque, St.put, ne]
  · simpa [St.held, St.withDeque, St.put] using perm

/-- A split is made and counted. -/
lemma make (c : Counted s) {k : Split} (hk : k.id = s.tasks)
    (hg : splits gs = k :: splits (s.stack t)) :
    Counted (St.put { s.fetchAdd k.range with tasks := s.tasks + 1 } t gs) := by
  obtain ⟨live, led, ids⟩ := c
  have new : k ∉ live := by
    intro h
    have := ids k h
    omega
  refine ⟨k :: live, led.put (p := .inr t) new ?_ ?_, fun j hj => ?_⟩
  · rintro (m | u) ht
    · rfl
    · have ne : u ≠ t := fun e => ht (e ▸ rfl)
      simp [St.held, St.put, ne, St.fetchAdd]
  · simp [St.held, St.put, hg]
  · rcases List.mem_cons.1 hj with e | hj
    · rw [e, hk]
      exact Nat.lt_succ_self _
    · exact Nat.lt_succ_of_lt (ids j hj)

/-- A split is done and uncounted. -/
lemma done (c : Counted s) {k : Split} (hg : splits (s.stack t) = k :: splits gs) :
    Counted ((s.fetchSub k.range).put t gs) := by
  obtain ⟨live, led, ids⟩ := c
  refine ⟨live.erase k, led.done (p := .inr t) ?_ ?_, fun j hj => ids j (List.mem_of_mem_erase hj)⟩
  · rintro (m | u) ht
    · rfl
    · have ne : u ≠ t := fun e => ht (e ▸ rfl)
      simp [St.held, St.put, ne, St.fetchSub]
  · simp [St.held, St.put, hg]

/-- A step keeps every split counted. -/
lemma step (c : Counted s) (st : Next pool s t s') : Counted s' := by
  cases st with
  | enter e | ret e | again e | full e | leaf e | test e | popEmpty l e _ _ | join e _ | release e =>
    exact c.move rfl rfl rfl rfl (by simp [e, Frame.splits])
  | claim g lo hi e _ _ | parallelFor g lo hi e _ | parallelForFiber g lo hi e _ =>
    exact c.move rfl rfl rfl rfl (by simp [e, Frame.splits])
  | other e h => exact c.move rfl rfl rfl rfl (by simp [e, Frame.splits, h.splits_eq])
  | @split fs r lo hi l e _ _ _ =>
    refine c.make (k := ⟨s.tasks, r, lo + (hi - lo) / 2, hi⟩) rfl ?_
    simp [e, Frame.splits]
  | hint l e _ | clear l e _ | out l e _ =>
    exact c.move rfl rfl rfl rfl (by simp [e, Frame.splits])
  | push l e _ => exact c.transfer (by simpa [e, Frame.splits] using List.perm_middle.symm)
  | unwind e | complete e => exact c.done (by simp [e, Frame.splits])
  | steal l runs e h hk =>
    refine c.transfer ?_
    rw [hk, splits_start, h.splits_eq, e]
    simp
  | take w runs e _ hk =>
    refine c.transfer ?_
    rw [hk, splits_start, e]
    simp
  | pop l runs e _ hk =>
    refine c.transfer ?_
    rw [hk, splits_start, e]
    exact List.perm_middle
  | pass w e _ =>
    exact c.move (t := t) rfl rfl rfl (Function.update_eq_self t s.stack).symm rfl

end Counted
end JLib.Range
