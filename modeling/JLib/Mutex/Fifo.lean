import JLib.Mutex.Ownership

/-!
# Mutex: the order of the grants

Every push gives its waiter the next ticket. The queue is sorted by ticket, an `Unlock` takes the front
of it, and since the one party that carries the lock is the only one to pop, a waiter is decided on
before the next one is looked at. So the tickets are chosen in increasing order, and whoever has a
smaller ticket than a chosen one was chosen before it or was found cancelled.
-/

namespace JLib.Mutex
open LTS

variable {T : Type}

/-- Where each ticket is, and that the chosen ones come first. -/
structure Fifo (m : Mtx T) (th : T → Thread T) : Prop where
  sorted : m.waiters.Pairwise fun v w => v.ticket < w.ticket
  fresh : ∀ w ∈ m.waiters, w.ticket < m.pushes
  order : m.grants.Pairwise (· < ·)
  granted : ∀ g ∈ m.grants, g < m.pushes
  behind : ∀ g ∈ m.grants, ∀ w ∈ m.waiters, g < w.ticket
  test : ∀ i w, (th i).pc = .unlTest w →
    w.ticket < m.pushes ∧ (∀ g ∈ m.grants, g < w.ticket) ∧ ∀ v ∈ m.waiters, w.ticket < v.ticket
  cover : ∀ k < m.pushes, k ∈ m.grants ∨ k ∈ m.gone ∨ (∃ w ∈ m.waiters, w.ticket = k) ∨
    ∃ i w, (th i).pc = .unlTest w ∧ w.ticket = k

/-- Only one waiter is being tested: the tester carries the lock. -/
lemma Owned.one_test {s : St T} {i t : T} {v w : Waiter T} (od : Owned s)
    (hi : (s.th i).pc = .unlTest v) (ht : (s.th t).pc = .unlTest w) : i = t := by
  have ei := od.own.carries i (by simp [Thread.carries, hi])
  have et := od.own.carries t (by simp [Thread.carries, ht])
  exact Option.some.inj (ei.symm.trans et)

/-- A `CancelWaiters` chooses nobody. -/
lemma Pc.canNext_ne_unlTest (tok : CancelToken) (f : Bool) (ws : List (Waiter T)) (w : Waiter T) :
    Pc.canNext tok f ws ≠ .unlTest w := by
  cases ws with
  | nil => cases f <;> simp [Pc.canNext]
  | cons v ws => simp [Pc.canNext]

variable [DecidableEq T]

namespace Fifo
variable {m m' : Mtx T} {th th' : T → Thread T} {t : T} {h : Thread T} {w : Waiter T}

omit [DecidableEq T] in
/-- The steps that are about other things. -/
lemma congr (ff : Fifo m th) (hw : m'.waiters = m.waiters) (hp : m'.pushes = m.pushes)
    (hg : m'.grants = m.grants) (ho : m'.gone = m.gone)
    (ht : ∀ i w, (th' i).pc = .unlTest w ↔ (th i).pc = .unlTest w) : Fifo m' th' := by
  constructor
  · rw [hw]
    exact ff.sorted
  · rw [hw, hp]
    exact ff.fresh
  · rw [hg]
    exact ff.order
  · rw [hg, hp]
    exact ff.granted
  · rw [hw, hg]
    exact ff.behind
  · intro i w hi
    rw [hw, hp, hg]
    exact ff.test i w ((ht i w).1 hi)
  · intro k hk
    rw [hw, hg, ho]
    rcases ff.cover k (hp ▸ hk) with hc | hc | hc | ⟨i, w, hi, e⟩
    · exact .inl hc
    · exact .inr (.inl hc)
    · exact .inr (.inr (.inl hc))
    · exact .inr (.inr (.inr ⟨i, w, (ht i w).2 hi, e⟩))

/-- A step of a party that chooses nobody leaves who is chosen. -/
lemma test_update (h0 : ∀ w, (th t).pc ≠ .unlTest w) (h1 : ∀ w, h.pc ≠ .unlTest w) (i : T)
    (w : Waiter T) :
    (Function.update th t h i).pc = .unlTest w ↔ (th i).pc = .unlTest w := by
  by_cases e : i = t
  · subst e
    rw [Function.update_self]
    exact ⟨fun hw => absurd hw (h1 w), fun hw => absurd hw (h0 w)⟩
  · rw [Function.update_of_ne e]

/-- A party that is not testing a waiter moves on. -/
lemma move (ff : Fifo m th) (hw : m'.waiters = m.waiters) (hp : m'.pushes = m.pushes)
    (hg : m'.grants = m.grants) (ho : m'.gone = m.gone) (h0 : ∀ w, (th t).pc ≠ .unlTest w)
    (h1 : ∀ w, h.pc ≠ .unlTest w) : Fifo m' (Function.update th t h) :=
  ff.congr hw hp hg ho (test_update h0 h1)

/-- A waiter queues behind the others with the next ticket. -/
lemma push (ff : Fifo m th) {kind : WaiterKind} {sl : Bool} {tok : CancelToken}
    (h0 : ∀ w, (th t).pc ≠ .unlTest w) (h1 : ∀ w, h.pc ≠ .unlTest w) :
    Fifo (m.push t kind sl tok) (Function.update th t h) := by
  constructor
  · apply List.pairwise_append.2
    refine ⟨ff.sorted, List.pairwise_singleton _ _, fun v hv w hw => ?_⟩
    rw [List.mem_singleton.1 hw]
    exact ff.fresh v hv
  · intro w hw
    rcases List.mem_append.1 hw with hw | hw
    · exact Nat.lt_succ_of_lt (ff.fresh w hw)
    · rw [List.mem_singleton.1 hw]
      exact Nat.lt_succ_self _
  · exact ff.order
  · exact fun g hg => Nat.lt_succ_of_lt (ff.granted g hg)
  · intro g hg w hw
    rcases List.mem_append.1 hw with hw | hw
    · exact ff.behind g hg w hw
    · rw [List.mem_singleton.1 hw]
      exact ff.granted g hg
  · intro i w hi
    obtain ⟨hp, hg, hv⟩ := ff.test i w ((test_update h0 h1 i w).1 hi)
    refine ⟨Nat.lt_succ_of_lt hp, hg, fun v hm => ?_⟩
    rcases List.mem_append.1 hm with hm | hm
    · exact hv v hm
    · rw [List.mem_singleton.1 hm]
      exact hp
  · intro k hk
    rcases Nat.lt_succ_iff_lt_or_eq.1 hk with hk | rfl
    · rcases ff.cover k hk with hc | hc | ⟨w, hw, e⟩ | ⟨i, w, hi, e⟩
      · exact .inl hc
      · exact .inr (.inl hc)
      · exact .inr (.inr (.inl ⟨w, List.mem_append_left _ hw, e⟩))
      · exact .inr (.inr (.inr ⟨i, w, (test_update h0 h1 i w).2 hi, e⟩))
    · exact .inr (.inr (.inl ⟨_, List.mem_append_right _ (List.mem_singleton_self _), rfl⟩))

/-- An `Unlock` takes the first waiter. -/
lemma pop (ff : Fifo m th) {ws : List (Waiter T)} (hq : m.waiters = w :: ws)
    (h0 : ∀ w, (th t).pc ≠ .unlTest w) (h1 : h.pc = .unlTest w) :
    Fifo { m with waiters := ws } (Function.update th t h) := by
  have hs := ff.sorted
  rw [hq] at hs
  obtain ⟨hw, hs⟩ := List.pairwise_cons.1 hs
  have sub : ∀ v ∈ ws, v ∈ m.waiters := fun v hv => hq ▸ List.mem_cons_of_mem w hv
  have mem : w ∈ m.waiters := hq ▸ List.mem_cons_self
  constructor
  · exact hs
  · exact fun v hv => ff.fresh v (sub v hv)
  · exact ff.order
  · exact ff.granted
  · exact fun g hg v hv => ff.behind g hg v (sub v hv)
  · intro i v hi
    by_cases e : i = t
    · subst e
      rw [Function.update_self, h1] at hi
      cases hi
      exact ⟨ff.fresh w mem, fun g hg => ff.behind g hg w mem, hw⟩
    · rw [Function.update_of_ne e] at hi
      obtain ⟨a, b, d⟩ := ff.test i v hi
      exact ⟨a, b, fun u hu => d u (sub u hu)⟩
  · intro k hk
    rcases ff.cover k hk with hc | hc | ⟨v, hv, e⟩ | ⟨i, v, hi, e⟩
    · exact .inl hc
    · exact .inr (.inl hc)
    · rw [hq] at hv
      rcases List.mem_cons.1 hv with rfl | hv
      · exact .inr (.inr (.inr ⟨t, v, by rw [Function.update_self, h1], e⟩))
      · exact .inr (.inr (.inl ⟨v, hv, e⟩))
    · have ne : i ≠ t := fun e => h0 v (e ▸ hi)
      exact .inr (.inr (.inr ⟨i, v, by rw [Function.update_of_ne ne, hi], e⟩))

/-- The tested waiter is passed over or chosen; `one` says that no other test is going on. -/
lemma decide (ff : Fifo m th) (h0 : (th t).pc = .unlTest w) (h1 : ∀ w, h.pc ≠ .unlTest w)
    (one : ∀ i v, (th i).pc = .unlTest v → i = t) (hw : m'.waiters = m.waiters)
    (hp : m'.pushes = m.pushes)
    (hd : (m'.grants = m.grants ++ [w.ticket] ∧ m'.gone = m.gone) ∨
      (m'.grants = m.grants ∧ m'.gone = m.gone ++ [w.ticket])) :
    Fifo m' (Function.update th t h) := by
  obtain ⟨tp, tg, tv⟩ := ff.test t w h0
  have none : ∀ i v, (Function.update th t h i).pc ≠ .unlTest v := by
    intro i v hi
    by_cases e : i = t
    · subst e
      rw [Function.update_self] at hi
      exact h1 v hi
    · rw [Function.update_of_ne e] at hi
      exact e (one i v hi)
  have mem : ∀ g ∈ m'.grants, g ∈ m.grants ∨ g = w.ticket := by
    intro g hg
    rcases hd with ⟨e, -⟩ | ⟨e, -⟩
    · rw [e] at hg
      rcases List.mem_append.1 hg with hg | hg
      · exact .inl hg
      · exact .inr (List.mem_singleton.1 hg)
    · exact .inl (e ▸ hg)
  constructor
  · rw [hw]
    exact ff.sorted
  · rw [hw, hp]
    exact ff.fresh
  · rcases hd with ⟨e, -⟩ | ⟨e, -⟩
    · rw [e]
      apply List.pairwise_append.2
      refine ⟨ff.order, List.pairwise_singleton _ _, fun g hg k hk => ?_⟩
      rw [List.mem_singleton.1 hk]
      exact tg g hg
    · rw [e]
      exact ff.order
  · intro g hg
    rw [hp]
    rcases mem g hg with hg | rfl
    · exact ff.granted g hg
    · exact tp
  · intro g hg v hv
    rw [hw] at hv
    rcases mem g hg with hg | rfl
    · exact ff.behind g hg v hv
    · exact tv v hv
  · exact fun i v hi => absurd hi (none i v)
  · intro k hk
    rw [hp] at hk
    have keep : k ∈ m.grants ∨ k ∈ m.gone ∨ k = w.ticket → k ∈ m'.grants ∨ k ∈ m'.gone := by
      intro hm
      rcases hd with ⟨e1, e2⟩ | ⟨e1, e2⟩
      · rw [e1, e2, List.mem_append, List.mem_singleton]
        tauto
      · rw [e1, e2, List.mem_append, List.mem_singleton]
        tauto
    rcases ff.cover k hk with hc | hc | hc | ⟨i, v, hi, e⟩
    · rcases keep (.inl hc) with hc | hc
      · exact .inl hc
      · exact .inr (.inl hc)
    · rcases keep (.inr (.inl hc)) with hc | hc
      · exact .inl hc
      · exact .inr (.inl hc)
    · exact .inr (.inr (.inl (hw ▸ hc)))
    · have ei := one i v hi
      rw [ei, h0] at hi
      cases hi
      rcases keep (.inr (.inr e.symm)) with hc | hc
      · exact .inl hc
      · exact .inr (.inl hc)

/-- A pass of `CancelWaiters` keeps the order of the others. -/
lemma pass (ff : Fifo m th) {c : World T} {tok : CancelToken} (h0 : ∀ w, (th t).pc ≠ .unlTest w)
    (h1 : ∀ w, h.pc ≠ .unlTest w) :
    Fifo (m.cancelPass c tok).2 (Function.update th t h) := by
  have sub : (m.cancelPass c tok).2.waiters.Sublist m.waiters := eject_keep_sublist _ _ _
  have perm : ((m.cancelPass c tok).1 ++ (m.cancelPass c tok).2.waiters).Perm m.waiters :=
    m.cancelPass_perm c tok
  constructor
  · exact ff.sorted.sublist sub
  · exact fun w hw => ff.fresh w (sub.subset hw)
  · exact ff.order
  · exact ff.granted
  · exact fun g hg w hw => ff.behind g hg w (sub.subset hw)
  · intro i w hi
    obtain ⟨a, b, d⟩ := ff.test i w ((test_update h0 h1 i w).1 hi)
    exact ⟨a, b, fun v hv => d v (sub.subset hv)⟩
  · intro k hk
    rcases ff.cover k hk with hc | hc | ⟨w, hw, e⟩ | ⟨i, w, hi, e⟩
    · exact .inl hc
    · exact .inr (.inl (List.mem_append_left _ hc))
    · rcases List.mem_append.1 (perm.symm.subset hw) with hw | hw
      · exact .inr (.inl (List.mem_append_right _ (e ▸ List.mem_map_of_mem hw)))
      · exact .inr (.inr (.inl ⟨w, hw, e⟩))
    · exact .inr (.inr (.inr ⟨i, w, (test_update h0 h1 i w).2 hi, e⟩))

omit [DecidableEq T] in
/-- Whoever came before a chosen waiter was chosen too, or was cancelled. -/
lemma settled (ff : Fifo m th) {g k : Nat} (hg : g ∈ m.grants) (hk : k < g) :
    k ∈ m.grants ∨ k ∈ m.gone := by
  rcases ff.cover k (Nat.lt_trans hk (ff.granted g hg)) with hc | hc | ⟨w, hw, rfl⟩ | ⟨i, w, hi, rfl⟩
  · exact .inl hc
  · exact .inr hc
  · exact absurd (ff.behind g hg w hw) (by omega)
  · exact absurd ((ff.test i w hi).2.1 g hg) (by omega)

omit [DecidableEq T] in
/-- There are no tickets yet. -/
lemma init : Fifo (Mutex.init T).mx (Mutex.init T).th := by
  constructor <;> simp [Mutex.init]

variable {s s' : St T} {c : World T}

/-- The steps of `Local`. -/
lemma here (ff : Fifo s.mx s.th) (od : Owned s) (lo : Local c t s.mx (s.th t) m h) :
    Fifo m (Function.update s.th t h) := by
  cases lo with
  | call op e =>
    refine ff.move rfl rfl rfl rfl (by simp [e]) ?_
    cases op <;> simp [Op.entry]
  | @checkPass b e _ => cases b <;> exact ff.move rfl rfl rfl rfl (by simp [e]) (by simp)
  | @awakeOk k sl e _ => cases k <;> exact ff.move rfl rfl rfl rfl (by simp [e]) (by simp)
  | bareAcquire e _ =>
    rcases e with e | e <;> exact ff.move rfl rfl rfl rfl (by simp [e]) (by simp)
  | enterPush e _ | asyncPush e _ => exact ff.push (by simp [e]) (by simp)
  | unlPop e hq => exact ff.pop hq (by simp [e]) rfl
  | unlTestSkip e _ =>
    exact ff.decide e (by simp) (fun i v hi => od.one_test hi e) rfl rfl (.inr ⟨rfl, rfl⟩)
  | unlTestChoose e _ =>
    exact ff.decide e (by simp) (fun i v hi => od.one_test hi e) rfl rfl (.inl ⟨rfl, rfl⟩)
  | canPass e => exact ff.pass (by simp [e]) fun w => Pc.canNext_ne_unlTest _ _ _ w
  | callUnlock e _ | done e | checkCancelled e _ | enterTake e _ | awakeCancelled e _ | record e
  | tryTake e _ | tryFail e _ | cancelTake e _ | cancelFail e _ | cancelCancelled e _
  | cancelAgain e _ | asyncTake e _ | asyncRecord e | asyncWrite e | lockTake e _
  | lockViolation e _ | lockFail e _ | bareRegister e | barePredTake e _ | barePredFail e _
  | bareSleep e | spuriousWake e | bareRecord e | bareRelease e | bareDeregister e | unlHolder e
  | unlFree e _ | unlRecord e | unlLoadZero e _ | unlLoadSome e _ | unlBareLock e _
  | unlBareUnlock e =>
    exact ff.move rfl rfl rfl rfl (by simp [e]) (by simp)

/-- Another party's record and the moving party's change, and neither is testing a waiter. -/
lemma both (ff : Fifo s.mx s.th) {u : T} {h' : Thread T} (hm : s'.mx = s.mx)
    (hth : s'.th = Function.update (Function.update s.th u h') t h) (ne : u ≠ t)
    (hu : ∀ w, (s.th u).pc ≠ .unlTest w) (hu' : ∀ w, h'.pc ≠ .unlTest w)
    (ht : ∀ w, (s.th t).pc ≠ .unlTest w) (ht' : ∀ w, h.pc ≠ .unlTest w) : Fifo s'.mx s'.th := by
  rw [hm, hth]
  apply (ff.move rfl rfl rfl rfl hu hu').move rfl rfl rfl rfl _ ht'
  rwa [Function.update_of_ne ne.symm]

/-- Every step keeps the order. -/
lemma step (ff : Fifo s.mx s.th) (inv : Inv s) (od : Owned s) (st : Step c s t s') :
    Fifo s'.mx s'.th := by
  cases st with
  | here lo => exact ff.here od lo
  | @unlSkip w e =>
    have hw : w ∈ Pc.hand (.unlSkip w) := List.mem_singleton_self w
    obtain ⟨⟨pk, -, -⟩, -⟩ := inv.knows e hw
    exact ff.both rfl (inv.writeSlot_goto e hw _ _) (inv.ne_of_hand e hw) (by simp [pk])
      (by simp [pk]) (by simp [e]) (by simp)
  | @unlSkipResume w e =>
    have hw : w ∈ Pc.hand (.unlSkipResume w) := List.mem_singleton_self w
    obtain ⟨⟨pk, -, -⟩, -⟩ := inv.knows e hw
    exact ff.both rfl (inv.resume_goto e hw _ _) (inv.ne_of_hand e hw) (by simp [pk]) (by simp)
      (by simp [e]) (by simp)
  | @unlWrite w e =>
    have hw : w ∈ Pc.hand (.unlWrite w) := List.mem_singleton_self w
    obtain ⟨pk, -, -⟩ := inv.knows e hw
    refine ff.both rfl (inv.writeSlot_goto e hw _ _) (inv.ne_of_hand e hw) (by simp [pk])
      (by simp [pk]) (by simp [e]) ?_
    split <;> simp
  | @unlResume w e =>
    have hw : w ∈ Pc.hand (.unlResume w) := List.mem_singleton_self w
    obtain ⟨pk, -, -⟩ := inv.knows e hw
    exact ff.both rfl (inv.resume_goto e hw _ _) (inv.ne_of_hand e hw) (by simp [pk]) (by simp)
      (by simp [e]) (by simp)
  | @notifyOne u e hu =>
    have ne : u ≠ t := ne_of_pc hu e (by simp)
    exact ff.both rfl (St.goto_goto ne _ _) ne (by simp [hu]) (by simp) (by simp [e]) (by simp)
  | notifyNone e _ => exact ff.move rfl rfl rfl rfl (by simp [e]) (by simp)
  | @canWrite tok w ws f e =>
    have hw : w ∈ Pc.hand (.canWrite tok w ws f) := List.mem_cons_self
    obtain ⟨⟨pk, -, -⟩, -⟩ := inv.knows e hw
    exact ff.both rfl (inv.writeSlot_goto e hw _ _) (inv.ne_of_hand e hw) (by simp [pk])
      (by simp [pk]) (by simp [e]) (by simp)
  | @canResume tok w ws f e =>
    have hw : w ∈ Pc.hand (.canResume tok w ws f) := List.mem_cons_self
    obtain ⟨⟨pk, -, -⟩, -⟩ := inv.knows e hw
    exact ff.both rfl (inv.resume_goto e hw _ _) (inv.ne_of_hand e hw) (by simp [pk]) (by simp)
      (by simp [e]) fun w => Pc.canNext_ne_unlTest _ _ _ w

end Fifo
end JLib.Mutex
