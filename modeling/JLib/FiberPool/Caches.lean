import JLib.FiberPool.Arena
import JLib.LTS.Conserved
import JLib.LTS.Runs
import Mathlib.Algebra.Order.Group.Multiset
import Mathlib.Tactic.Abel

/-!
# The caches of the workers

`ThreadLocalCache` of `include/ThreadLocalCache.h`, `ReturnBatch` and `StealInto` of `GlobalFiberPool`, and
`AcquireFiber` and `ReleaseFiber` of `Thread`, for any number of workers. A worker has a cache for each
stack class, which only it touches; a step of it on the queues of the pool takes or puts one fiber, and
the steps of the workers interleave. A queue gives out its fibers in any order, and may be found empty
when it is not. A cache is the list of its slots below `count`. While the top half of a cache is given
to the pool, a slot of it holds its fiber until that is in a queue.
-/

namespace JLib.FiberPool
open LTS

/-- The fibers of a pool, each made once, of one class. -/
structure Fibers (F : Type) where
  all : List F
  nodup : all.Nodup
  stackClass : F → StackClass

/-- `MaxCapacity`, the size of the array. -/
def MaxCapacity : Nat := 256

/-- The capacity that `Initialize` sets. -/
def Initialize (runtimeCapacity : Nat) : Nat :=
  let activeCapacity := if runtimeCapacity ≤ MaxCapacity then runtimeCapacity else MaxCapacity
  if activeCapacity < 2 then 2 else activeCapacity

section ReturnBatch

variable {F : Type}

/-- The loop of `ReturnBatch`: what is put in which queue, in this order. A group is put in its queue when
it is full, and the rest at the end. -/
def group (cls : F → StackClass) : List F → (StackClass → List F) → List (StackClass × F)
  | [], grouped => order.flatMap fun ci => (grouped ci).map fun f => (ci, f)
  | f :: fs, grouped =>
    let g := grouped (cls f) ++ [f]
    if g.length = 64 then (g.map fun h => (cls f, h)) ++ group cls fs (Function.update grouped (cls f) [])
    else group cls fs (Function.update grouped (cls f) g)

def ReturnBatch (cls : F → StackClass) (fibers : List F) : List (StackClass × F) :=
  group cls fibers fun _ => []

variable {cls : F → StackClass}

/-- A group is exchanged for another. -/
lemma flatMap_update (grouped : StackClass → List F) (c : StackClass) (l : List F) :
    (order.flatMap (Function.update grouped c l) ++ grouped c).Perm (order.flatMap grouped ++ l) := by
  rw [← Multiset.coe_eq_coe]
  unfold order
  simp only [List.flatMap_cons, List.flatMap_nil, List.append_nil, ← Multiset.coe_add]
  cases c with
  | Standard =>
    rw [Function.update_self, Function.update_of_ne (by rintro ⟨⟩), Function.update_of_ne (by rintro ⟨⟩)]
    abel
  | Tiny =>
    rw [Function.update_self, Function.update_of_ne (by rintro ⟨⟩), Function.update_of_ne (by rintro ⟨⟩)]
    abel
  | Deep =>
    rw [Function.update_self, Function.update_of_ne (by rintro ⟨⟩), Function.update_of_ne (by rintro ⟨⟩)]
    abel

/-- The loop neither loses nor adds a fiber. -/
lemma group_perm (l : List F) (grouped : StackClass → List F) :
    ((group cls l grouped).map Prod.snd).Perm (order.flatMap grouped ++ l) := by
  induction l generalizing grouped with
  | nil =>
    unfold group
    rw [List.map_flatMap, List.append_nil]
    simp only [List.map_map, Function.comp_def, List.map_id']
    exact .refl _
  | cons f l ih =>
    unfold group
    simp only
    split
    next =>
      rw [List.map_append, List.map_map]
      have none := flatMap_update grouped (cls f) []
      have rest := ih (Function.update grouped (cls f) [])
      rw [← Multiset.coe_eq_coe] at none rest ⊢
      simp only [← Multiset.coe_add, Function.comp_def, List.map_id', List.append_nil,
        ← List.singleton_append (l := l)] at none rest ⊢
      rw [rest, ← none]
      abel
    next =>
      have more := flatMap_update grouped (cls f) (grouped (cls f) ++ [f])
      have rest := ih (Function.update grouped (cls f) (grouped (cls f) ++ [f]))
      rw [← Multiset.coe_eq_coe] at more rest ⊢
      simp only [← Multiset.coe_add, ← List.singleton_append (l := l)] at more rest ⊢
      have grown : (↑(order.flatMap (Function.update grouped (cls f) (grouped (cls f) ++ [f]))) :
          Multiset F) = ↑(order.flatMap grouped) + ↑[f] := by
        apply add_right_cancel (b := (↑(grouped (cls f)) : Multiset F))
        rw [more]
        abel
      rw [rest, grown]
      abel

/-- A batch is neither shortened nor lengthened. -/
lemma ReturnBatch_perm (l : List F) : ((ReturnBatch cls l).map Prod.snd).Perm l := by
  have perm := @group_perm F cls l fun _ => []
  unfold order at perm
  exact perm

/-- The loop puts each fiber in the queue of its class. -/
lemma group_class (l : List F) (grouped : StackClass → List F)
    (own : ∀ ci, ∀ f ∈ grouped ci, cls f = ci) : ∀ p ∈ group cls l grouped, p.1 = cls p.2 := by
  induction l generalizing grouped with
  | nil =>
    intro p mem
    unfold group at mem
    obtain ⟨ci, _, mem⟩ := List.mem_flatMap.1 mem
    obtain ⟨f, here, rfl⟩ := List.mem_map.1 mem
    exact (own ci f here).symm
  | cons f l ih =>
    have own' : ∀ h ∈ grouped (cls f) ++ [f], cls h = cls f := by
      intro h mem
      rcases List.mem_append.1 mem with old | last
      · exact own _ h old
      · rw [List.mem_singleton.1 last]
    have kept : ∀ g : List F, (∀ h ∈ g, cls h = cls f) →
        ∀ ci, ∀ h ∈ Function.update grouped (cls f) g ci, cls h = ci := by
      intro g hg ci h mem
      by_cases e : ci = cls f
      · subst e
        rw [Function.update_self] at mem
        exact hg h mem
      · rw [Function.update_of_ne e] at mem
        exact own ci h mem
    intro p mem
    unfold group at mem
    simp only at mem
    split at mem
    next =>
      rcases List.mem_append.1 mem with now | later
      · obtain ⟨h, here, rfl⟩ := List.mem_map.1 now
        exact (own' h here).symm
      · exact ih _ (kept [] (by rintro _ ⟨⟩)) p later
    next => exact ih _ (kept _ own') p mem

/-- Each fiber of a batch is put in the queue of its class. -/
lemma ReturnBatch_class {l : List F} {p : StackClass × F} (mem : p ∈ ReturnBatch cls l) : p.1 = cls p.2 :=
  group_class l _ (by rintro _ _ ⟨⟩) p mem

end ReturnBatch

/-- Where a worker is. `again` is the second `Pop` of `AcquireFiber`. -/
inductive Pc (F : Type) where
  | idle
  -- in `StealInto`
  | refill (c : StackClass) (again : Bool)
  -- `Push`: at its head, and with this much of the batch to put in the queues
  | push (f : F)
  | spill (f : F) (batch : List (StackClass × F))
  -- `ReturnBatch` of a fiber that does not go to the cache
  | returning (batch : List (StackClass × F))

structure State (W F : Type) where
  inUse : List F := []
  availableFibers : StackClass → List F
  cache : W → StackClass → List F := fun _ _ => []
  activeCapacity : W → Nat
  pc : W → Pc F := fun _ => .idle

inductive Label (W F : Type) where
  | acquire (w : W) (c : StackClass)
  | release (w : W) (f : F)
  | returnToPool (w : W) (f : F)
  | worker (w : W)

variable {W F : Type} [DecidableEq W]

namespace State

def setCache (s : State W F) (w : W) (c : StackClass) (l : List F) : State W F :=
  { s with cache := Function.update s.cache w (Function.update (s.cache w) c l) }

def setPc (s : State W F) (w : W) (pc : Pc F) : State W F :=
  { s with pc := Function.update s.pc w pc }

def setQueue (s : State W F) (c : StackClass) (l : List F) : State W F :=
  { s with availableFibers := Function.update s.availableFibers c l }

/-- All the fibers are in the queues of their classes. -/
def init (fs : Fibers F) (runtimeCapacity : W → Nat) : State W F where
  availableFibers c := fs.all.filter fun f => fs.stackClass f = c
  activeCapacity w := Initialize (runtimeCapacity w)

end State

inductive Step (fs : Fibers F) : State W F → Label W F → State W F → Prop where
  | pop {s : State W F} {w c l f} :
    s.pc w = .idle →
    s.cache w c = l ++ [f] →
    Step fs s (.acquire w c) { s.setCache w c l with inUse := f :: s.inUse }
  | refill {s : State W F} {w c} :
    s.pc w = .idle →
    s.cache w c = [] →
    Step fs s (.acquire w c) (s.setPc w (.refill c false))
  | dequeue {s : State W F} {w c again l f r} :
    s.pc w = .refill c again →
    (s.cache w c).length < s.activeCapacity w →
    s.availableFibers c = l ++ f :: r →
    Step fs s (.worker w) ((s.setQueue c (l ++ r)).setCache w c (s.cache w c ++ [f]))
  -- `count` is set to what `StealInto` got
  | refilled {s : State W F} {w c again l f} :
    s.pc w = .refill c again →
    s.cache w c = l ++ [f] →
    Step fs s (.worker w) { (s.setCache w c l).setPc w .idle with inUse := f :: s.inUse }
  | retry {s : State W F} {w c} :
    s.pc w = .refill c false →
    s.cache w c = [] →
    Step fs s (.worker w) (s.setPc w (.refill c true))
  | exhausted {s : State W F} {w c} :
    s.pc w = .refill c true →
    s.cache w c = [] →
    Step fs s (.worker w) (s.setPc w .idle)
  -- by the class of the fiber, not of the task
  | release {s : State W F} {w l f r} :
    s.pc w = .idle →
    s.inUse = l ++ f :: r →
    Step fs s (.release w f) { s.setPc w (.push f) with inUse := l ++ r }
  | store {s : State W F} {w f} :
    s.pc w = .push f →
    (s.cache w (fs.stackClass f)).length < s.activeCapacity w →
    Step fs s (.worker w)
      ((s.setCache w (fs.stackClass f) (s.cache w (fs.stackClass f) ++ [f])).setPc w .idle)
  | full {s : State W F} {w f} :
    s.pc w = .push f →
    s.activeCapacity w ≤ (s.cache w (fs.stackClass f)).length →
    Step fs s (.worker w)
      (s.setPc w (.spill f (ReturnBatch fs.stackClass ((s.cache w (fs.stackClass f)).drop
        ((s.cache w (fs.stackClass f)).length - s.activeCapacity w / 2)))))
  | spill {s : State W F} {w f c g batch} :
    s.pc w = .spill f ((c, g) :: batch) →
    Step fs s (.worker w)
      ((s.setQueue c (s.availableFibers c ++ [g])).setPc w (.spill f batch))
  -- `count -= half`, and the fiber is stored
  | spilled {s : State W F} {w f} :
    s.pc w = .spill f [] →
    Step fs s (.worker w)
      ((s.setCache w (fs.stackClass f) ((s.cache w (fs.stackClass f)).take
        ((s.cache w (fs.stackClass f)).length - s.activeCapacity w / 2) ++ [f])).setPc w .idle)
  | returnToPool {s : State W F} {w l f r} :
    s.pc w = .idle →
    s.inUse = l ++ f :: r →
    Step fs s (.returnToPool w f)
      { s.setPc w (.returning (ReturnBatch fs.stackClass [f])) with inUse := l ++ r }
  | returning {s : State W F} {w c g batch} :
    s.pc w = .returning ((c, g) :: batch) →
    Step fs s (.worker w)
      ((s.setQueue c (s.availableFibers c ++ [g])).setPc w (.returning batch))
  | returned {s : State W F} {w} :
    s.pc w = .returning [] →
    Step fs s (.worker w) (s.setPc w .idle)

/-! ## Where the fibers are -/

/-- A fiber that a worker gives back is in its hand; it is in use still. -/
inductive Place (W : Type) where
  | inUse
  | hand (w : W)
  | cache (w : W) (c : StackClass)
  | queue (c : StackClass)

def Pc.hand : Pc F → List F
  | .push f => [f]
  | .spill f _ => [f]
  | .returning batch => batch.map Prod.snd
  | _ => []

/-- What the slots of a cache hold. -/
def Pc.slots (fs : Fibers F) (half : Nat) (c : StackClass) (l : List F) : Pc F → List F
  | .spill f batch => if c = fs.stackClass f then l.take (l.length - half) ++ batch.map Prod.snd else l
  | _ => l

def State.held (fs : Fibers F) (s : State W F) : Place W → List F
  | .inUse => s.inUse
  | .hand w => (s.pc w).hand
  | .cache w c => (s.pc w).slots fs (s.activeCapacity w / 2) c (s.cache w c)
  | .queue c => s.availableFibers c

omit [DecidableEq W] in
/-- What the slots of a cache hold. -/
lemma held_cache {fs : Fibers F} {s : State W F} {w : W} {c : StackClass} : s.held fs (.cache w c) =
    (s.pc w).slots fs (s.activeCapacity w / 2) c (s.cache w c) := rfl

/-- While a cache is spilled its top half is what is still to be put in the queues. -/
lemma slots_spill {fs : Fibers F} {half : Nat} {f : F} {l : List F} {batch : List (StackClass × F)} :
    (Pc.spill f batch).slots fs half (fs.stackClass f) l = l.take (l.length - half) ++ batch.map Prod.snd :=
  if_pos rfl

/-- What a worker has to put in the queues goes in those of its classes. -/
def Pc.Routed (fs : Fibers F) : Pc F → Prop
  | .spill f batch => ∀ p ∈ batch, p.1 = fs.stackClass p.2 ∧ fs.stackClass p.2 = fs.stackClass f
  | .returning batch => ∀ p ∈ batch, p.1 = fs.stackClass p.2
  | _ => True

structure Inv (fs : Fibers F) (s : State W F) : Prop where
  conserved : Conserved (s.held fs) fs.all
  queue : ∀ c, ∀ f ∈ s.availableFibers c, fs.stackClass f = c
  cache : ∀ w c, ∀ f ∈ s.cache w c, fs.stackClass f = c
  full : ∀ w c, (s.cache w c).length ≤ s.activeCapacity w
  bounds : ∀ w, 2 ≤ s.activeCapacity w ∧ s.activeCapacity w ≤ MaxCapacity
  routed : ∀ w, (s.pc w).Routed fs

variable {fs : Fibers F} {s u : State W F} {a : Label W F} {w : W} {c d : StackClass} {f g : F} {pc : Pc F}
  {l r : List F}

/-- No cache but that of class `c` is being spilled. -/
def Pc.Spills (fs : Fibers F) (c : StackClass) : Pc F → Prop
  | .spill f _ => fs.stackClass f = c
  | _ => True

/-- The caches that are not spilled hold what they list. -/
lemma Pc.Spills.slots {half : Nat} {d : StackClass} (h : pc.Spills fs c) (ne : d ≠ c) :
    pc.slots fs half d l = l := by
  cases pc with
  | spill f batch => exact if_neg fun e => ne (e.trans h)
  | _ => rfl

/-- Nothing is in its hand, and none of its caches is being spilled. -/
def Pc.Quiet : Pc F → Prop
  | .idle | .refill .. => True
  | .returning batch => batch = []
  | _ => False

/-- A quiet worker spills no cache. -/
lemma Pc.Quiet.spills (h : pc.Quiet) : pc.Spills fs c := by
  cases pc with
  | spill f batch => exact h.elim
  | _ => trivial

/-- A quiet worker has nothing in hand. -/
lemma Pc.Quiet.hand (h : pc.Quiet) : pc.hand = [] := by
  cases pc with
  | idle | refill => rfl
  | returning batch => exact congrArg (List.map Prod.snd) h
  | _ => exact h.elim

/-- A quiet worker has nothing to put in the queues. -/
lemma Pc.Quiet.routed (h : pc.Quiet) : pc.Routed fs := by
  cases pc with
  | idle | refill => trivial
  | returning batch =>
    rw [show batch = [] from h]
    rintro _ ⟨⟩
  | _ => exact h.elim

/-- The caches of a quiet worker hold what they list. -/
lemma Pc.Quiet.slots {half : Nat} (h : pc.Quiet) : pc.slots fs half c l = l := by
  cases pc with
  | spill f batch => exact h.elim
  | _ => rfl

/-- A worker changes its place and one of its caches. -/
structure Worker (fs : Fibers F) (w : W) (c : StackClass) (s u : State W F) : Prop where
  pc : ∀ v, v ≠ w → u.pc v = s.pc v
  cache : ∀ v d, v ≠ w ∨ d ≠ c → u.cache v d = s.cache v d
  capacity : u.activeCapacity = s.activeCapacity
  before : (s.pc w).Spills fs c
  after : (u.pc w).Spills fs c

/-- The other places are as they were. -/
lemma Worker.frame (wk : Worker fs w c s u) {p : Place W}
    (inUse : p = .inUse → u.inUse = s.inUse) (hand : p = .hand w → (u.pc w).hand = (s.pc w).hand)
    (here : p ≠ .cache w c) (queue : ∀ d, p = .queue d → u.availableFibers d = s.availableFibers d) :
    u.held fs p = s.held fs p := by
  cases p with
  | inUse => exact inUse rfl
  | hand v =>
    by_cases e : v = w
    · subst e
      exact hand rfl
    · exact congrArg Pc.hand (wk.pc v e)
  | cache v d =>
    show (u.pc v).slots fs _ d (u.cache v d) = (s.pc v).slots fs _ d (s.cache v d)
    by_cases e : v = w
    · subst e
      have other : d ≠ c := fun e => here (e ▸ rfl)
      rw [wk.after.slots other, wk.before.slots other, wk.cache v d (.inr other)]
    · rw [wk.pc v e, wk.cache v d (.inl e), wk.capacity]
  | queue d => exact queue d rfl

/-- A step of a worker that moves fibers between two places. -/
lemma Inv.move (inv : Inv fs s) (wk : Worker fs w c s u) {p q : Place W} (ne : p ≠ q)
    (perm : (u.held fs p ++ u.held fs q).Perm (s.held fs p ++ s.held fs q))
    (inUse : p ≠ .inUse → q ≠ .inUse → u.inUse = s.inUse)
    (hand : p ≠ .hand w → q ≠ .hand w → (u.pc w).hand = (s.pc w).hand)
    (slots : p ≠ .cache w c → q ≠ .cache w c → u.held fs (.cache w c) = s.held fs (.cache w c))
    (others : ∀ d, p ≠ .queue d → q ≠ .queue d → u.availableFibers d = s.availableFibers d)
    (queue : ∀ d, ∀ f ∈ u.availableFibers d, fs.stackClass f = d)
    (cache : ∀ f ∈ u.cache w c, fs.stackClass f = c)
    (full : (u.cache w c).length ≤ s.activeCapacity w)
    (routed : (u.pc w).Routed fs) : Inv fs u := by
  refine ⟨inv.conserved.move ne (fun x hp hq => ?_) perm, queue, fun v d => ?_, fun v d => ?_, ?_,
    fun v => ?_⟩
  · by_cases e : x = .cache w c
    · subst e
      exact slots (Ne.symm hp) (Ne.symm hq)
    · apply wk.frame _ _ e
      · rintro d rfl
        exact others d (Ne.symm hp) (Ne.symm hq)
      · rintro rfl
        exact inUse (Ne.symm hp) (Ne.symm hq)
      · rintro rfl
        exact hand (Ne.symm hp) (Ne.symm hq)
  · by_cases e : v = w ∧ d = c
    · obtain ⟨rfl, rfl⟩ := e
      exact cache
    · rw [wk.cache v d (not_and_or.1 e)]
      exact inv.cache v d
  · rw [wk.capacity]
    by_cases e : v = w ∧ d = c
    · obtain ⟨rfl, rfl⟩ := e
      exact full
    · rw [wk.cache v d (not_and_or.1 e)]
      exact inv.full v d
  · rw [wk.capacity]
    exact inv.bounds
  · by_cases e : v = w
    · subst e
      exact routed
    · rw [wk.pc v e]
      exact inv.routed v

/-! ## The steps -/

/-- A step that sets the place and one cache of a worker. -/
lemma Worker.set (hpc : u.pc = Function.update s.pc w pc)
    (hcache : u.cache = Function.update s.cache w (Function.update (s.cache w) c l))
    (capacity : u.activeCapacity = s.activeCapacity) (before : (s.pc w).Spills fs c)
    (after : pc.Spills fs c) : Worker fs w c s u := by
  refine ⟨fun v ne => ?_, fun v d other => ?_, capacity, before, ?_⟩
  · rw [hpc, Function.update_of_ne ne]
  · rw [hcache]
    by_cases e : v = w
    · subst e
      rw [Function.update_self, Function.update_of_ne (other.resolve_left fun ne => ne rfl)]
    · rw [Function.update_of_ne e]
  · rw [hpc, Function.update_self]
    exact after

/-- Its cache is left alone. -/
lemma same_cache (s : State W F) (w : W) (c : StackClass) :
    s.cache = Function.update s.cache w (Function.update (s.cache w) c (s.cache w c)) := by
  rw [Function.update_eq_self, Function.update_eq_self]

/-- Setting a place to what it was. -/
lemma same_pc (s : State W F) (w : W) : s.pc = Function.update s.pc w (s.pc w) :=
  (Function.update_eq_self w s.pc).symm

/-- The cache is as it was set. -/
lemma setCache_own : (s.setCache w c l).cache w c = l := by
  show Function.update s.cache w _ w c = l
  rw [Function.update_self, Function.update_self]

/-- The worker is where it was put. -/
lemma setPc_own : (s.setPc w pc).pc w = pc := Function.update_self ..

omit [DecidableEq W] in
/-- The fibers of a queue after one is put or taken. -/
lemma Inv.queue_set (inv : Inv fs s) (own : ∀ f ∈ l, fs.stackClass f = c) :
    ∀ d, ∀ f ∈ (s.setQueue c l).availableFibers d, fs.stackClass f = d := by
  intro d f mem
  by_cases e : d = c
  · subst e
    have here : (s.setQueue d l).availableFibers d = l := Function.update_self ..
    rw [here] at mem
    exact own f mem
  · have there : (s.setQueue c l).availableFibers d = s.availableFibers d := Function.update_of_ne e ..
    rw [there] at mem
    exact inv.queue d f mem

omit [DecidableEq W] in
/-- The queue is as it was set. -/
lemma setQueue_own : (s.setQueue c l).availableFibers c = l := Function.update_self ..

omit [DecidableEq W] in
/-- The other queues are as they were. -/
lemma setQueue_other {d : StackClass} (ne : d ≠ c) :
    (s.setQueue c l).availableFibers d = s.availableFibers d := Function.update_of_ne ne ..

/-- The top of a cache is handed out. -/
lemma Inv.handOut (inv : Inv fs s) (quiet : (s.pc w).Quiet) (top : s.cache w c = l ++ [f]) :
    Inv fs { (s.setCache w c l).setPc w .idle with inUse := f :: s.inUse } := by
  have wk : Worker fs w c s { (s.setCache w c l).setPc w .idle with inUse := f :: s.inUse } :=
    .set rfl rfl rfl quiet.spills trivial
  have idle : ({ (s.setCache w c l).setPc w .idle with inUse := f :: s.inUse } : State W F).pc w = .idle :=
    setPc_own
  have rest : ({ (s.setCache w c l).setPc w .idle with inUse := f :: s.inUse } : State W F).cache w c = l :=
    setCache_own
  have kept : ({ (s.setCache w c l).setPc w .idle with inUse := f :: s.inUse } : State W F).held fs
      (.cache w c) = l := by
    rw [held_cache, idle, rest]
    rfl
  refine inv.move wk (p := .cache w c) (q := .inUse) (by rintro ⟨⟩) ?_ ?_ ?_ ?_ (fun _ _ _ => rfl)
    inv.queue ?_ ?_ ?_
  · rw [kept, held_cache, quiet.slots, top, List.append_assoc]
    exact .refl _
  · exact fun _ no => absurd rfl no
  · intro _ _
    rw [idle, quiet.hand]
    rfl
  · exact fun no => absurd rfl no
  · rw [rest]
    intro g mem
    exact inv.cache w c g (top ▸ List.mem_append_left _ mem)
  · rw [rest]
    have full := inv.full w c
    rw [top, List.length_append] at full
    exact (Nat.le_add_right _ _).trans full
  · rw [idle]
    trivial

/-- Nothing moves. -/
lemma Inv.turn (inv : Inv fs s) (before : (s.pc w).Spills fs c) (after : pc.Spills fs c)
    (hand : pc.hand = (s.pc w).hand)
    (slots : (pc.slots fs (s.activeCapacity w / 2) c (s.cache w c)).Perm (s.held fs (.cache w c)))
    (routed : pc.Routed fs) : Inv fs (s.setPc w pc) := by
  have wk : Worker fs w c s (s.setPc w pc) := .set rfl (same_cache s w c) rfl before after
  have own : (s.setPc w pc).pc w = pc := setPc_own
  refine inv.move wk (p := .cache w c) (q := .inUse) (by rintro ⟨⟩) ?_ (fun _ _ => rfl) ?_ ?_
    (fun _ _ _ => rfl) inv.queue (inv.cache w c) (inv.full w c) ?_
  · have now : (s.setPc w pc).held fs (.cache w c) =
        pc.slots fs (s.activeCapacity w / 2) c (s.cache w c) := by
      rw [held_cache, own]
      rfl
    rw [now]
    exact slots.append_right _
  · intro _ _
    rw [own, hand]
  · exact fun no => absurd rfl no
  · rw [own]
    exact routed

/-- A worker turns from one quiet place to another. -/
lemma Inv.turned (inv : Inv fs s) (quiet : (s.pc w).Quiet) (quiet' : pc.Quiet) : Inv fs (s.setPc w pc) := by
  refine inv.turn (c := .Standard) quiet.spills quiet'.spills (quiet'.hand.trans quiet.hand.symm) ?_
    quiet'.routed
  rw [held_cache, quiet.slots, quiet'.slots]

/-- A fiber comes out of the queue into the next slot. -/
lemma Inv.dequeue {again : Bool} (inv : Inv fs s) (hpc : s.pc w = .refill c again)
    (room : (s.cache w c).length < s.activeCapacity w) (found : s.availableFibers c = l ++ f :: r) :
    Inv fs ((s.setQueue c (l ++ r)).setCache w c (s.cache w c ++ [f])) := by
  generalize hu : (s.setQueue c (l ++ r)).setCache w c (s.cache w c ++ [f]) = u
  have upc : u.pc = s.pc := by rw [← hu]; rfl
  have slots : u.cache w c = s.cache w c ++ [f] := by
    rw [← hu]
    exact setCache_own
  have left : u.availableFibers = (s.setQueue c (l ++ r)).availableFibers := by rw [← hu]; rfl
  have spills : (s.pc w).Spills fs c := by
    rw [hpc]
    trivial
  have ucache : u.cache =
      Function.update s.cache w (Function.update (s.cache w) c (s.cache w c ++ [f])) := by
    rw [← hu]
    rfl
  have capacity : u.activeCapacity = s.activeCapacity := by rw [← hu]; rfl
  have wk : Worker fs w c s u := .set (upc.trans (same_pc s w)) ucache capacity spills spills
  have own : ∀ g ∈ l ++ r, fs.stackClass g = c := by
    intro g mem
    apply inv.queue c g
    rw [found]
    exact (List.Sublist.append_left (List.sublist_cons_self f r) l).subset mem
  have held : s.held fs (.cache w c) = s.cache w c := by
    rw [held_cache, hpc]
    rfl
  have held' : u.held fs (.cache w c) = s.cache w c ++ [f] := by
    rw [held_cache, upc, hpc, slots]
    rfl
  refine inv.move wk (p := .queue c) (q := .cache w c) (by rintro ⟨⟩) ?_ ?_ ?_ ?_ ?_ ?_ ?_ ?_ ?_
  · show (u.availableFibers c ++ u.held fs (.cache w c)).Perm (s.availableFibers c ++ _)
    rw [held', held, left, setQueue_own, found, ← Multiset.coe_eq_coe]
    simp only [← Multiset.coe_add, ← List.singleton_append (l := r)]
    abel
  · intro _ _
    rw [← hu]
    rfl
  · intro _ _
    rw [upc]
  · exact fun _ no => absurd rfl no
  · intro d ne _
    rw [left]
    exact setQueue_other fun e => ne (e ▸ rfl)
  · rw [left]
    exact inv.queue_set own
  · rw [slots]
    intro g mem
    rcases List.mem_append.1 mem with old | last
    · exact inv.cache w c g old
    · apply inv.queue c g
      rw [List.mem_singleton.1 last, found]
      exact List.mem_append_right _ List.mem_cons_self
  · rw [slots, List.length_append]
    exact room
  · rw [upc]
    exact inv.routed w

/-- A fiber of a batch is put in the queue of its class, out of a slot or of the hand. -/
lemma Inv.enqueue {p : Place W} (inv : Inv fs s) (spills : (s.pc w).Spills fs c)
    (spills' : pc.Spills fs c) (hp : p = .cache w c ∨ p = .hand w) (own : fs.stackClass g = d)
    (out : ((s.setPc w pc).held fs p ++ [g]).Perm (s.held fs p))
    (hand : p = .hand w ∨ pc.hand = (s.pc w).hand)
    (slots : p = .cache w c ∨ (s.setPc w pc).held fs (.cache w c) = s.held fs (.cache w c))
    (routed : pc.Routed fs) :
    Inv fs ((s.setQueue d (s.availableFibers d ++ [g])).setPc w pc) := by
  generalize hu : (s.setQueue d (s.availableFibers d ++ [g])).setPc w pc = u
  have upc : u.pc w = pc := by
    rw [← hu]
    exact setPc_own
  have ucache : u.cache = s.cache := by rw [← hu]; rfl
  have left : u.availableFibers = (s.setQueue d (s.availableFibers d ++ [g])).availableFibers := by
    rw [← hu]
    rfl
  have same : u.held fs p = (s.setPc w pc).held fs p := by
    rw [← hu]
    rcases hp with rfl | rfl
    · rfl
    · rfl
  have upcs : u.pc = Function.update s.pc w pc := by rw [← hu]; rfl
  have capacity : u.activeCapacity = s.activeCapacity := by rw [← hu]; rfl
  have wk : Worker fs w c s u := .set upcs (ucache.trans (same_cache s w c)) capacity spills spills'
  refine inv.move wk (p := p) (q := .queue d) ?_ ?_ ?_ ?_ ?_ ?_ ?_ ?_ ?_ ?_
  · rcases hp with rfl | rfl
    · rintro ⟨⟩
    · rintro ⟨⟩
  · show (u.held fs p ++ u.availableFibers d).Perm (s.held fs p ++ s.availableFibers d)
    rw [same, left, setQueue_own]
    rw [← Multiset.coe_eq_coe] at out ⊢
    simp only [← Multiset.coe_add] at out ⊢
    rw [← out]
    abel
  · intro _ _
    rw [← hu]
    rfl
  · intro no _
    rw [upc]
    exact hand.resolve_left no
  · intro no _
    have here := slots.resolve_left no
    rw [held_cache, setPc_own] at here
    rw [held_cache, upc, ucache, wk.capacity]
    exact here
  · intro e _ ne
    rw [left]
    exact setQueue_other fun eq => ne (eq ▸ rfl)
  · rw [left]
    apply inv.queue_set
    intro h mem
    rcases List.mem_append.1 mem with old | last
    · exact inv.queue d h old
    · rw [List.mem_singleton.1 last, own]
  · rw [ucache]
    exact inv.cache w c
  · rw [ucache]
    exact inv.full w c
  · rw [upc]
    exact routed

/-- A worker is given a fiber back. -/
lemma Inv.takeBack (inv : Inv fs s) (hpc : s.pc w = .idle) (found : s.inUse = l ++ f :: r)
    (spills : pc.Spills fs c) (hand : pc.hand = [f])
    (slots : ∀ half l, pc.slots fs half c l = l)
    (routed : pc.Routed fs) :
    Inv fs { s.setPc w pc with inUse := l ++ r } := by
  generalize hu : ({ s.setPc w pc with inUse := l ++ r } : State W F) = u
  have upc : u.pc w = pc := by
    rw [← hu]
    exact setPc_own
  have upcs : u.pc = Function.update s.pc w pc := by rw [← hu]; rfl
  have ucache : u.cache = s.cache := by rw [← hu]; rfl
  have capacity : u.activeCapacity = s.activeCapacity := by rw [← hu]; rfl
  have idle : (s.pc w).Spills fs c := by
    rw [hpc]
    trivial
  have wk : Worker fs w c s u := .set upcs (ucache.trans (same_cache s w c)) capacity idle spills
  refine inv.move wk (p := .inUse) (q := .hand w) (by rintro ⟨⟩) ?_ ?_ ?_ ?_ ?_ ?_ ?_ ?_ ?_
  · show (u.inUse ++ (u.pc w).hand).Perm (s.inUse ++ (s.pc w).hand)
    have rest : u.inUse = l ++ r := by rw [← hu]
    rw [rest, upc, hand, hpc, found, ← Multiset.coe_eq_coe]
    simp only [← Multiset.coe_add, ← List.singleton_append (l := r), Pc.hand, List.append_nil]
    abel
  · exact fun no => absurd rfl no
  · exact fun _ no => absurd rfl no
  · intro _ _
    rw [held_cache, held_cache, upc, ucache, slots, hpc]
    rfl
  · intro _ _ _
    rw [← hu]
    rfl
  · rw [← hu]
    exact inv.queue
  · rw [ucache]
    exact inv.cache w c
  · rw [ucache]
    exact inv.full w c
  · rw [upc]
    exact routed

/-- The fiber in the hand goes to the next slot of a cache of its class. -/
lemma Inv.stored (inv : Inv fs s) (spills : (s.pc w).Spills fs (fs.stackClass f)) (hand : (s.pc w).hand = [f])
    (sub : l.Sublist (s.cache w (fs.stackClass f)))
    (held : s.held fs (.cache w (fs.stackClass f)) = l) (room : l.length < s.activeCapacity w) :
    Inv fs ((s.setCache w (fs.stackClass f) (l ++ [f])).setPc w .idle) := by
  generalize hu : (s.setCache w (fs.stackClass f) (l ++ [f])).setPc w .idle = u
  have upc : u.pc w = .idle := by
    rw [← hu]
    exact setPc_own
  have upcs : u.pc = Function.update s.pc w .idle := by rw [← hu]; rfl
  have own : u.cache w (fs.stackClass f) = l ++ [f] := by
    rw [← hu]
    exact setCache_own
  have ucache : u.cache = Function.update s.cache w
      (Function.update (s.cache w) (fs.stackClass f) (l ++ [f])) := by
    rw [← hu]
    rfl
  have capacity : u.activeCapacity = s.activeCapacity := by rw [← hu]; rfl
  have wk : Worker fs w (fs.stackClass f) s u := .set upcs ucache capacity spills trivial
  refine inv.move wk (p := .hand w) (q := .cache w (fs.stackClass f)) (by rintro ⟨⟩) ?_ ?_ ?_ ?_ ?_ ?_ ?_
    ?_ ?_
  · show ((u.pc w).hand ++ u.held fs (.cache w (fs.stackClass f))).Perm ((s.pc w).hand ++ _)
    rw [held_cache, upc, own, hand, held]
    exact List.perm_append_singleton ..
  · intro _ _
    rw [← hu]
    rfl
  · exact fun no => absurd rfl no
  · exact fun _ no => absurd rfl no
  · intro _ _ _
    rw [← hu]
    rfl
  · rw [← hu]
    exact inv.queue
  · rw [own]
    intro g mem
    rcases List.mem_append.1 mem with old | last
    · exact inv.cache w _ g (sub.subset old)
    · rw [List.mem_singleton.1 last]
  · rw [own, List.length_append]
    exact room
  · rw [upc]
    trivial

omit [DecidableEq W] in
/-- What is left of a cache that is spilled has room for a fiber. -/
lemma Inv.half (inv : Inv fs s) (w : W) (c : StackClass) :
    ((s.cache w c).take ((s.cache w c).length - s.activeCapacity w / 2)).length < s.activeCapacity w := by
  have full := inv.full w c
  have bounds := inv.bounds w
  rw [List.length_take]
  omega

/-- A step neither loses nor adds a fiber. -/
lemma Inv.step (inv : Inv fs s) (st : Step fs s a u) : Inv fs u := by
  cases st with
  | @pop w c l f hpc top =>
    have same : s.setCache w c l = (s.setCache w c l).setPc w .idle := by
      rw [← hpc]
      exact congrArg (fun pc => { s.setCache w c l with pc := pc }) (same_pc s w)
    rw [same]
    exact inv.handOut (hpc ▸ trivial) top
  | refill hpc _ => exact inv.turned (hpc ▸ trivial) trivial
  | dequeue hpc room found => exact inv.dequeue hpc room found
  | refilled hpc top => exact inv.handOut (hpc ▸ trivial) top
  | retry hpc _ => exact inv.turned (hpc ▸ trivial) trivial
  | exhausted hpc _ => exact inv.turned (hpc ▸ trivial) trivial
  | @release w l f r hpc found =>
    exact inv.takeBack (c := fs.stackClass f) hpc found trivial rfl (fun _ _ => rfl) trivial
  | @store w f hpc room =>
    refine inv.stored ?_ ?_ (.refl _) ?_ room
    · rw [hpc]
      trivial
    · rw [hpc]
      rfl
    · rw [held_cache, hpc]
      rfl
  | @full w f hpc _ =>
    refine inv.turn (c := fs.stackClass f) ?_ rfl ?_ ?_ fun p mem => ⟨ReturnBatch_class mem, ?_⟩
    · rw [hpc]
      trivial
    · rw [hpc]
      rfl
    · rw [held_cache, hpc, slots_spill]
      refine ((ReturnBatch_perm _).append_left _).trans ?_
      rw [List.take_append_drop]
      exact .refl _
    · apply inv.cache w
      apply List.mem_of_mem_drop
      exact (ReturnBatch_perm _).mem_iff.1 (List.mem_map_of_mem mem)
  | @spill w f c g batch hpc =>
    have routed := inv.routed w
    rw [hpc] at routed
    have own : c = fs.stackClass g := (routed (c, g) List.mem_cons_self).1
    refine inv.enqueue (c := fs.stackClass f) (p := .cache w (fs.stackClass f)) ?_ rfl (.inl rfl) own.symm ?_
      (.inr ?_) (.inl rfl) fun x mem => routed x (List.mem_cons_of_mem _ mem)
    · rw [hpc]
      rfl
    · rw [held_cache, held_cache, setPc_own, hpc, slots_spill, slots_spill, List.append_assoc]
      exact (List.perm_append_singleton ..).append_left _
    · rw [hpc]
      rfl
  | @spilled w f hpc =>
    refine inv.stored ?_ ?_ (List.take_sublist ..) ?_ (inv.half w _)
    · rw [hpc]
      rfl
    · rw [hpc]
      rfl
    · rw [held_cache, hpc, slots_spill]
      exact List.append_nil _
  | @returnToPool w l f r hpc found =>
    exact inv.takeBack (c := fs.stackClass f) hpc found trivial
      (List.perm_singleton.1 (ReturnBatch_perm [f])) (fun _ _ => rfl) fun p mem => ReturnBatch_class mem
  | @returning w c g batch hpc =>
    have routed := inv.routed w
    rw [hpc] at routed
    have own : c = fs.stackClass g := routed (c, g) List.mem_cons_self
    refine inv.enqueue (c := c) (p := .hand w) ?_ trivial (.inr rfl) own.symm ?_
      (.inl rfl) (.inr ?_) fun x mem => routed x (List.mem_cons_of_mem _ mem)
    · rw [hpc]
      trivial
    · show (((s.setPc w _).pc w).hand ++ [g]).Perm (s.pc w).hand
      rw [setPc_own, hpc]
      exact List.perm_append_singleton ..
    · rw [held_cache, held_cache, setPc_own, hpc]
      rfl
  | @returned w hpc =>
    refine inv.turned ?_ trivial
    rw [hpc]
    rfl

omit [DecidableEq W] in
/-- All the fibers are in the queues. -/
lemma Inv.init {runtimeCapacity : W → Nat} : Inv fs (.init fs runtimeCapacity) := by
  refine ⟨⟨⟨fun p => ?_, fun {p q f} hp hq => ?_⟩, fun f => ⟨?_, fun mem => ?_⟩⟩, fun c f mem => ?_, ?_,
    fun w c => Nat.zero_le _, fun w => ?_, fun w => trivial⟩
  · cases p with
    | queue c => exact fs.nodup.filter _
    | _ => exact List.nodup_nil
  · cases p with
    | queue c =>
      cases q with
      | queue d =>
        have hc := (List.mem_filter.1 hp).2
        have hd := (List.mem_filter.1 hq).2
        rw [decide_eq_true_eq] at hc hd
        rw [← hc, ← hd]
      | _ => cases hq
    | _ => cases hp
  · rintro ⟨p, mem⟩
    cases p with
    | queue c => exact List.mem_of_mem_filter mem
    | _ => cases mem
  · exact ⟨.queue (fs.stackClass f), List.mem_filter.2 ⟨mem, decide_eq_true rfl⟩⟩
  · exact of_decide_eq_true (List.mem_filter.1 mem).2
  · rintro w c _ ⟨⟩
  · show 2 ≤ Initialize (runtimeCapacity w) ∧ Initialize (runtimeCapacity w) ≤ MaxCapacity
    unfold Initialize MaxCapacity
    simp only
    split <;> split <;> omega

/-- In every state of a run every fiber is at one place. -/
lemma Inv.of_runs {runtimeCapacity : W → Nat} (rn : Reaches (Step fs) (.init fs runtimeCapacity) s) :
    Inv fs s :=
  rn.invariant .init fun inv _ st => inv.step st

omit [DecidableEq W] in
/-- The slots of a cache hold fibers of its class. -/
lemma Inv.slots_class (inv : Inv fs s) (mem : f ∈ s.held fs (.cache w c)) : fs.stackClass f = c := by
  have routed := inv.routed w
  rw [held_cache] at mem
  cases hpc : s.pc w with
  | spill g batch =>
    rw [hpc] at mem routed
    by_cases e : c = fs.stackClass g
    · subst e
      rw [slots_spill] at mem
      rcases List.mem_append.1 mem with kept | given
      · exact inv.cache w _ f (List.mem_of_mem_take kept)
      · obtain ⟨p, here, rfl⟩ := List.mem_map.1 given
        exact (routed p here).2
    · have whole : (Pc.spill g batch).slots fs (s.activeCapacity w / 2) c (s.cache w c) = s.cache w c :=
        if_neg e
      rw [whole] at mem
      exact inv.cache w c f mem
  | _ =>
    rw [hpc] at mem
    exact inv.cache w c f mem

/-- Whatever the workers do, each fiber is at one place and in one slot or queue entry of it; the slots of a
cache and the entries of a queue hold fibers of its class, and a cache keeps to its capacity. -/
theorem fibers_conserved {runtimeCapacity : W → Nat} (rn : Reaches (Step fs) (.init fs runtimeCapacity) s) :
    (∀ f ∈ fs.all, ∃! p, f ∈ s.held fs p) ∧
    (∀ p, (s.held fs p).Nodup ∧ ∀ f ∈ s.held fs p, f ∈ fs.all) ∧
    (∀ c, ∀ f ∈ s.held fs (.queue c), fs.stackClass f = c) ∧
    (∀ w c, ∀ f ∈ s.held fs (.cache w c) ++ s.cache w c, fs.stackClass f = c) ∧
    (∀ w c, (s.pc w).Quiet → s.held fs (.cache w c) = s.cache w c) ∧
    (∀ w c, (s.cache w c).length ≤ s.activeCapacity w) ∧
    (∀ w, s.activeCapacity w = Initialize (runtimeCapacity w) ∧ s.activeCapacity w ≤ MaxCapacity) := by
  have inv := Inv.of_runs rn
  have capacity : s.activeCapacity = fun w => Initialize (runtimeCapacity w) := by
    refine rn.invariant (I := fun s => s.activeCapacity = fun w => Initialize (runtimeCapacity w)) rfl ?_
    intro t a u same _ st
    cases st <;> exact same
  refine ⟨fun f mem => inv.conserved.one_place mem, fun p => ?_, inv.queue, fun w c f mem => ?_,
    fun w c quiet => quiet.slots, inv.full, fun w => ⟨congrFun capacity w, (inv.bounds w).2⟩⟩
  · exact ⟨inv.conserved.custody.nodup p, fun f mem => (inv.conserved.cover f).1 ⟨p, mem⟩⟩
  · rcases List.mem_append.1 mem with slot | stored
    · exact inv.slots_class slot
    · exact inv.cache w c f stored

def threeTiny : Fibers Nat where
  all := [1, 2, 3]
  nodup := by decide
  stackClass _ := .Tiny

/-- Two workers acquire a fiber each, and the second releases both. Its cache is full at the second of them, so
half of it goes to the pool. -/
theorem fibers_conserved_spilled : ∃ s : State Bool Nat,
    Reaches (Step threeTiny) (.init threeTiny fun _ => 0) s ∧ s.cache true .Tiny = [2, 1] ∧
      s.availableFibers .Tiny = [3] ∧ ∀ f ∈ threeTiny.all, ∃! p, f ∈ s.held threeTiny p := by
  have r : Reaches (Step threeTiny) (.init threeTiny fun _ : Bool => 0) _ := .refl
  have r := r.next (.acquire false .Tiny) trivial (.refill rfl rfl)
  have r := r.next (.worker false) trivial (.dequeue (l := []) (f := 1) (r := [2, 3]) rfl (by decide) rfl)
  have r := r.next (.worker false) trivial (.refilled (l := []) (f := 1) rfl rfl)
  have r := r.next (.acquire true .Tiny) trivial (.refill rfl rfl)
  have r := r.next (.worker true) trivial (.dequeue (l := []) (f := 2) (r := [3]) rfl (by decide) rfl)
  have r := r.next (.worker true) trivial (.dequeue (l := []) (f := 3) (r := []) rfl (by decide) rfl)
  have r := r.next (.worker true) trivial (.refilled (l := [2]) (f := 3) rfl rfl)
  have r := r.next (.release true 3) trivial (.release (l := []) (r := [1]) rfl rfl)
  have r := r.next (.worker true) trivial (.store rfl (by decide))
  have r := r.next (.release true 1) trivial (.release (l := []) (r := []) rfl rfl)
  have r := r.next (.worker true) trivial (.full rfl (by decide))
  have r := r.next (.worker true) trivial (.spill (c := .Tiny) (g := 3) rfl)
  have r := r.next (.worker true) trivial (.spilled rfl)
  exact ⟨_, r, rfl, rfl, (fibers_conserved r).1⟩

end JLib.FiberPool
