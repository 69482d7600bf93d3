import JLib.Cancel.Table

/-!
# The walk to the root

`Cancelled` follows the parents of a handle. At each level it loads the state of a slot and then its parent.
The state says whether the handle is of the scope that has the slot. The parent is loaded afterwards: where
another scope has taken the slot in between, it is the parent of that scope, and the walk goes on among
scopes that have nothing to do with the handle.
-/

namespace JLib.Scopes
open LTS Links CancelToken

variable {σ χ ρ : Type} {s u : State σ χ ρ}
  {a : Label σ χ ρ} {x y z : σ} {i n : Nat} {l : Life} {free : List Nat}

/-- `y` is `x` or a scope that `x` was constructed in, at any level. -/
inductive Within (s : State σ χ ρ) (x : σ) : σ → Prop where
  | self :
    Within s x x
  | up {y z : σ} :
    Within s x y →
    s.enclosing y = some z →
    Within s x z

/-- The condition on the steps: besides the bounds, a handle is not followed 65536 uses of its slot later,
and the parent of a slot is loaded before another scope takes the slot. -/
def Followed (s : State σ χ ρ) : Label σ χ ρ → Prop
  | .walk r x =>
    (∀ raw depth, s.walk r = .state x raw depth → ∀ y i n, s.home y = some (i, n) → s.raw y = raw →
      s.uses i < n + 65536) ∧
    ∀ raw depth tenant, s.walk r = .parent x raw depth tenant → s.tenant (raw % 65536) = tenant
  | a => Bounded s a

/-- The condition contains the bounds. -/
lemma Followed.bounded (h : Followed s a) : Bounded s a := by
  cases a <;> first | exact h | exact trivial

/-! ## Parents -/

/-- The scope has not looked up its parent. -/
def Life.unlinked : Life → Bool
  | .unborn => true
  | .acquire _ _ => true
  | .next _ _ _ => true
  | .owned _ => true
  | _ => false

/-- Not between the parent that the constructor has chosen and the handle. -/
def Life.plain : Life → Bool
  | .link _ _ => false
  | .linked _ => false
  | _ => true

/-- The handle is the parent that the scope was constructed with, or none. -/
def State.Parent (s : State σ χ ρ) (x : σ) (raw : Nat) : Prop :=
  raw = kNone.raw ∨ ∃ y, s.enclosing x = some y ∧ raw = s.raw y

/-- What the parents have to do with the slots. -/
structure Linked (s : State σ χ ρ) : Prop where
  tenant : ∀ {x i}, (s.life x).slot = some i → s.tenant i = some x
  unlinked : ∀ {x}, (s.life x).unlinked = true → s.enclosing x = none
  issued : ∀ {x y}, s.enclosing x = some y → s.home y ≠ none
  link : ∀ {x i p}, s.life x = .link i p → s.Parent x p
  linked : ∀ {x i}, s.life x = .linked i → s.Parent x (s.slots i).parent
  stored : ∀ {x i n}, s.home x = some (i, n) → s.tenant i = some x → s.Parent x (s.slots i).parent

/-- There are no scopes yet. -/
lemma Linked.init : Linked ({} : State σ χ ρ) :=
  ⟨nofun, fun _ => rfl, nofun, nofun, nofun, nofun⟩

/-- A parent stays what it is while handles are only added. -/
lemma State.Parent.mono {raw : Nat} (h : s.Parent x raw) (enclosing : u.enclosing x = s.enclosing x)
    (keep : ∀ y, s.home y ≠ none → u.raw y = s.raw y) (issued : ∀ y, s.enclosing x = some y → s.home y ≠ none) :
    u.Parent x raw := by
  rcases h with h | ⟨y, hy, eq⟩
  · exact .inl h
  · refine .inr ⟨y, enclosing.trans hy, ?_⟩
    rw [keep y (issued y hy)]
    exact eq

/-- Neither handles nor parents change, and one scope goes on. -/
lemma Linked.go [DecidableEq σ] {l : Life} (lk : Linked s) (life : u.life = Function.update s.life x l)
    (slot : l.slot = none ∨ l.slot = (s.life x).slot)
    (unlinked : l.unlinked = false ∨ (s.life x).unlinked = true) (plain : l.plain = true) (tenant : u.tenant = s.tenant)
    (enclosing : u.enclosing = s.enclosing) (home : u.home = s.home) (raw : u.raw = s.raw)
    (parent : ∀ i, (u.slots i).parent = (s.slots i).parent) : Linked u := by
  have same : ∀ {z p}, s.Parent z p → u.Parent z p := by
    intro z p h
    exact h.mono (by rw [enclosing]) (fun y _ => by rw [raw]) fun y hy => lk.issued hy
  refine ⟨fun {z i} h => ?_, fun {z} h => ?_, ?_, fun {z i p} h => ?_, fun {z i} h => ?_,
    fun {z i n} h ht => ?_⟩
  · rw [life, Function.update_apply] at h
    rw [tenant]
    split at h
    · rename_i e
      rw [e]
      rcases slot with none | same
      · rw [none] at h
        cases h
      · exact lk.tenant (same ▸ h)
    · exact lk.tenant h
  · rw [life, Function.update_apply] at h
    rw [enclosing]
    split at h
    · rename_i e
      rw [e]
      rcases unlinked with linked | unlinked
      · rw [linked] at h
        cases h
      · exact lk.unlinked unlinked
    · exact lk.unlinked h
  · rw [enclosing, home]
    exact lk.issued
  · rw [life, Function.update_apply] at h
    split at h
    · rw [h] at plain
      cases plain
    · exact same (lk.link h)
  · rw [life, Function.update_apply] at h
    split at h
    · rw [h] at plain
      cases plain
    · rw [parent]
      exact same (lk.linked h)
  · rw [home] at h
    rw [tenant] at ht
    rw [parent]
    exact same (lk.stored h ht)

/-- A step that leaves the parents and who has the slots. -/
lemma Linked.quiet (lk : Linked s) (life : u.life = s.life) (tenant : u.tenant = s.tenant)
    (enclosing : u.enclosing = s.enclosing) (home : u.home = s.home) (raw : u.raw = s.raw)
    (parent : ∀ i, (u.slots i).parent = (s.slots i).parent) : Linked u := by
  have same : ∀ {z p}, s.Parent z p → u.Parent z p := by
    intro z p h
    exact h.mono (by rw [enclosing]) (fun y _ => by rw [raw]) fun y hy => lk.issued hy
  refine ⟨?_, ?_, ?_, fun {z i p} h => ?_, fun {z i} h => ?_, fun {z i n} h ht => ?_⟩
  · rw [life, tenant]
    exact lk.tenant
  · rw [life, enclosing]
    exact lk.unlinked
  · rw [enclosing, home]
    exact lk.issued
  · rw [life] at h
    exact same (lk.link h)
  · rw [life] at h
    rw [parent]
    exact same (lk.linked h)
  · rw [home] at h
    rw [tenant] at ht
    rw [parent]
    exact same (lk.stored h ht)

/-- A scope takes a slot that nobody has. -/
lemma Linked.pop [DecidableEq σ] {h : FreeHead} {m k : Nat} (lk : Linked s) (hm : Homes s) (hs : s.life x = .next h m k)
    (out : ∀ z, (s.life z).slot ≠ some i) (life : u.life = Function.update s.life x (.owned i))
    (tenant : u.tenant = Function.update s.tenant i (some x)) (enclosing : u.enclosing = s.enclosing)
    (home : u.home = s.home) (raw : u.raw = s.raw) (slots : u.slots = s.slots) : Linked u := by
  have unborn : s.home x = none := hm.early (by rw [hs]; rfl)
  have same : ∀ {z p}, s.Parent z p → u.Parent z p := by
    intro z p h
    exact h.mono (by rw [enclosing]) (fun y _ => by rw [raw]) fun y hy => lk.issued hy
  refine ⟨fun {z j} e => ?_, fun {z} e => ?_, ?_, fun {z j p} e => ?_, fun {z j} e => ?_,
    fun {z j n} e ht => ?_⟩
  · rw [life, Function.update_apply] at e
    rw [tenant, Function.update_apply]
    split at e
    · rename_i eq
      cases e
      rw [if_pos rfl, eq]
    · have ne : j ≠ i := by
        rintro rfl
        exact out z e
      rw [if_neg ne]
      exact lk.tenant e
  · rw [life, Function.update_apply] at e
    rw [enclosing]
    split at e
    · rename_i eq
      rw [eq]
      exact lk.unlinked (by rw [hs]; rfl)
    · exact lk.unlinked e
  · rw [enclosing, home]
    exact lk.issued
  · rw [life, Function.update_apply] at e
    split at e
    · cases e
    · exact same (lk.link e)
  · rw [life, Function.update_apply] at e
    rw [slots]
    split at e
    · cases e
    · exact same (lk.linked e)
  · rw [home] at e
    rw [tenant, Function.update_apply] at ht
    rw [slots]
    split at ht
    · cases ht
      rw [unborn] at e
      cases e
    · exact same (lk.stored e ht)

/-- A handle that resolves was issued. -/
lemma Homes.issued_of_resolves (hm : Homes s) (h : s.resolves (s.raw y) = true) : s.home y ≠ none := by
  intro none
  rw [hm.unset none, State.resolves, Bool.and_eq_true] at h
  exact absurd (of_decide_eq_true h.1) (by decide)

/-- A scope looks up its parent. -/
lemma Linked.resolve [DecidableEq σ] (lk : Linked s) (hm : Homes s) (hs : s.life x = .owned i) :
    Linked { s with
      life := Function.update s.life x (.link i ((s.resolvedParent x).elim kNone.raw s.raw))
      enclosing := Function.update s.enclosing x (s.resolvedParent x) } := by
  have unborn : s.home x = none := hm.early (by rw [hs]; rfl)
  have other : ∀ {z p}, z ≠ x → s.Parent z p → State.Parent
      { s with
        life := Function.update s.life x (.link i ((s.resolvedParent x).elim kNone.raw s.raw))
        enclosing := Function.update s.enclosing x (s.resolvedParent x) } z p := by
    intro z p ne h
    exact h.mono (Function.update_of_ne ne ..) (fun _ _ => rfl) fun y hy => lk.issued hy
  refine ⟨fun {z j} e => ?_, fun {z} e => ?_, fun {z y} e => ?_, fun {z j p} e => ?_, fun {z j} e => ?_,
    fun {z j n} e ht => ?_⟩
  · simp only [Function.update_apply] at e
    split at e
    · rename_i eq
      rw [eq]
      apply lk.tenant
      rw [hs]
      exact e
    · exact lk.tenant e
  · simp only [Function.update_apply] at e ⊢
    split at e
    · cases e
    · rename_i ne
      rw [if_neg ne]
      exact lk.unlinked e
  · simp only [Function.update_apply] at e
    split at e
    · exact hm.issued_of_resolves (Option.filter_eq_some_iff.1 e).2
    · exact lk.issued e
  · simp only [Function.update_apply] at e
    split at e
    · rename_i eq
      subst eq
      cases e
      cases hp : s.resolvedParent z with
      | none => exact .inl rfl
      | some y =>
        right
        refine ⟨y, ?_, rfl⟩
        simp only [Function.update_self]
    · rename_i ne
      exact other ne (lk.link e)
  · simp only [Function.update_apply] at e
    split at e
    · cases e
    · rename_i ne
      exact other ne (lk.linked e)
  · have ne : z ≠ x := by
      rintro rfl
      simp only [unborn] at e
      cases e
    exact other ne (lk.stored e ht)

/-- The scope that has a slot stores a parent in it. -/
lemma Linked.store [DecidableEq σ] {p : Nat} {l : Life} (lk : Linked s) (tb : Table s free)
    (mine : (s.life x).slot = some i) (good : s.Parent x p) (slot : l.slot = some i) (linked : l.unlinked = false)
    (link : ∀ j p, l ≠ .link j p) (life : u.life = Function.update s.life x l)
    (slots : u.slots = Function.update s.slots i { s.slots i with parent := p }) (tenant : u.tenant = s.tenant)
    (enclosing : u.enclosing = s.enclosing) (home : u.home = s.home) (raw : u.raw = s.raw) : Linked u := by
  have same : ∀ {z p}, s.Parent z p → u.Parent z p := by
    intro z p h
    exact h.mono (by rw [enclosing]) (fun y _ => by rw [raw]) fun y hy => lk.issued hy
  have here : (u.slots i).parent = p := by rw [slots, Function.update_self]
  have there : ∀ {j}, j ≠ i → (u.slots j).parent = (s.slots j).parent := by
    intro j ne
    rw [slots, Function.update_of_ne ne]
  refine ⟨fun {z j} e => ?_, fun {z} e => ?_, ?_, fun {z j p} e => ?_, fun {z j} e => ?_,
    fun {z j n} e ht => ?_⟩
  · rw [life, Function.update_apply] at e
    rw [tenant]
    split at e
    · rename_i eq
      rw [slot] at e
      cases e
      rw [eq]
      exact lk.tenant mine
    · exact lk.tenant e
  · rw [life, Function.update_apply] at e
    rw [enclosing]
    split at e
    · rw [linked] at e
      cases e
    · exact lk.unlinked e
  · rw [enclosing, home]
    exact lk.issued
  · rw [life, Function.update_apply] at e
    split at e
    · exact absurd e (link j p)
    · exact same (lk.link e)
  · rw [life, Function.update_apply] at e
    split at e
    · rename_i eq
      rw [e] at slot
      cases slot
      rw [here, eq]
      exact same good
    · rename_i ne
      have other : j ≠ i := by
        rintro rfl
        exact ne (tb.owner (by rw [e]; rfl) mine)
      rw [there other]
      exact same (lk.linked e)
  · rw [home] at e
    rw [tenant] at ht
    by_cases eq : j = i
    · subst eq
      rw [lk.tenant mine] at ht
      cases ht
      rw [here]
      exact same good
    · rw [there eq]
      exact same (lk.stored e ht)

/-- A scope gets its handle. -/
lemma Linked.birth [DecidableEq σ] (lk : Linked s) (hm : Homes s) (hs : s.life x = .linked i) :
    Linked { s with
      life := Function.update s.life x (.alive i)
      raw := Function.update s.raw x (handle i (s.slots i).gen)
      home := Function.update s.home x (some (i, s.uses i)) } := by
  have unborn : s.home x = none := hm.early (by rw [hs]; rfl)
  have same : ∀ {z p}, s.Parent z p → State.Parent
      { s with
        life := Function.update s.life x (.alive i)
        raw := Function.update s.raw x (handle i (s.slots i).gen)
        home := Function.update s.home x (some (i, s.uses i)) } z p := by
    intro z p h
    refine h.mono rfl (fun y hy => ?_) fun y hy => lk.issued hy
    apply Function.update_of_ne
    rintro rfl
    exact hy unborn
  refine ⟨fun {z j} e => ?_, fun {z} e => ?_, fun {z y} e => ?_, fun {z j p} e => ?_, fun {z j} e => ?_,
    fun {z j n} e ht => ?_⟩
  · simp only [Function.update_apply] at e
    split at e
    · rename_i eq
      rw [eq]
      apply lk.tenant
      rw [hs]
      exact e
    · exact lk.tenant e
  · simp only [Function.update_apply] at e
    split at e
    · cases e
    · exact lk.unlinked e
  · simp only [Function.update_apply]
    split
    · nofun
    · exact lk.issued e
  · simp only [Function.update_apply] at e
    split at e
    · cases e
    · exact same (lk.link e)
  · simp only [Function.update_apply] at e
    split at e
    · cases e
    · exact same (lk.linked e)
  · simp only [Function.update_apply] at e
    split at e
    · rename_i eq
      cases e
      rw [eq]
      exact same (lk.linked hs)
    · exact same (lk.stored e ht)

/-- A step keeps the parents with their slots. -/
lemma Linked.step [DecidableEq σ] [DecidableEq χ] [DecidableEq ρ] (lk : Linked s) (tb : Table s free) (ld : Loaded s)
    (hm : Homes s) (st : Step s a u) : Linked u := by
  have flag : ∀ {i : Nat} (j : Nat),
      (Function.update s.slots i { s.slots i with cancelled := true } j).parent = (s.slots j).parent := by
    intro i j
    rw [Function.update_apply]
    split
    · rename_i e
      rw [e]
    · rfl
  cases st with
  | @construct x p hs =>
    exact lk.go (x := x) rfl (.inl rfl) (.inr (by rw [hs]; rfl)) rfl rfl rfl rfl rfl fun _ => rfl
  | @exhausted x h n hs _ => exact lk.go (x := x) rfl (.inl rfl) (.inl rfl) rfl rfl rfl rfl rfl fun _ => rfl
  | @next x h n hs _ =>
    exact lk.go (x := x) rfl (.inl rfl) (.inr (by rw [hs]; rfl)) rfl rfl rfl rfl rfl fun _ => rfl
  | @popFail x h n k hs =>
    exact lk.go (x := x) rfl (.inl rfl) (.inr (by rw [hs]; rfl)) rfl rfl rfl rfl rfl fun _ => rfl
  | @pop x h n k hs same =>
    -- the slot is the first of the free list
    have first : h.index - 1 ∈ free := by
      have start := tb.list.start_eq
      rw [same, idx, if_neg (ld.next hs).1] at start
      exact List.mem_of_mem_head? start.symm
    exact lk.pop hm hs (fun z hz => tb.not_free hz first) rfl rfl rfl rfl rfl rfl
  | resolve hs => exact lk.resolve hm hs
  | @link x i p hs =>
    refine lk.store (x := x) (l := .linked i) tb (by rw [hs]; rfl) (lk.link hs) rfl rfl ?_ rfl rfl rfl rfl rfl
      rfl
    rintro _ _ ⟨⟩
  | birth hs => exact lk.birth hm hs
  | cancel _ => exact lk.quiet rfl rfl rfl rfl rfl flag
  | destroyInvalid _ => exact lk.go rfl (.inl rfl) (.inl rfl) rfl rfl rfl rfl rfl fun _ => rfl
  | @destroy x i hs =>
    exact lk.go (x := x) rfl (.inr (by rw [hs]; rfl)) (.inl rfl) rfl rfl rfl rfl rfl fun _ => rfl
  | @bumpFail x i st hs =>
    exact lk.go (x := x) rfl (.inr (by rw [hs]; rfl)) (.inl rfl) rfl rfl rfl rfl rfl fun _ => rfl
  | @bump x i st hs _ =>
    refine lk.go (x := x) rfl (.inr (by rw [hs]; rfl)) (.inl rfl) rfl rfl rfl rfl rfl fun j => ?_
    simp only [Function.update_apply]
    split
    · rename_i e
      rw [e]
    · rfl
  | @unlink x i hs =>
    refine lk.store (x := x) (l := .release i) tb (by rw [hs]; rfl) (.inl rfl) rfl rfl ?_ rfl rfl rfl rfl rfl rfl
    rintro _ _ ⟨⟩
  | @load x i hs =>
    exact lk.go (x := x) rfl (.inr (by rw [hs]; rfl)) (.inl rfl) rfl rfl rfl rfl rfl fun _ => rfl
  | @write x i h n hs =>
    exact lk.go (x := x) rfl (.inr (by rw [hs]; rfl)) (.inl rfl) rfl rfl rfl rfl rfl fun _ => rfl
  | @pushFail x i h n hs =>
    exact lk.go (x := x) rfl (.inr (by rw [hs]; rfl)) (.inl rfl) rfl rfl rfl rfl rfl fun _ => rfl
  | push _ _ => exact lk.go rfl (.inl rfl) (.inl rfl) rfl rfl rfl rfl rfl fun _ => rfl
  | viaSet _ _ => exact lk.quiet rfl rfl rfl rfl rfl flag
  | _ => exact lk.quiet rfl rfl rfl rfl rfl fun _ => rfl

/-! ## Walks -/

/-- What no step takes back. -/
structure Keeps (s u : State σ χ ρ) : Prop where
  enclosing : ∀ {y z}, s.enclosing y = some z → u.enclosing y = some z
  home : ∀ {y p}, s.home y = some p → u.home y = some p
  raw : ∀ {y p}, s.home y = some p → u.raw y = s.raw y
  hit : ∀ {y}, s.hit y = true → u.hit y = true

/-- No step takes these back. -/
lemma Step.keeps [DecidableEq σ] [DecidableEq χ] [DecidableEq ρ] (lk : Linked s) (hm : Homes s) (st : Step s a u) :
    Keeps s u := by
  have hit : ∀ {i x y}, s.hit y = true → (s.setCancelled i x).hit y = true := by
    intro i x y h
    simp only [State.setCancelled, Function.update_apply, h, ite_self]
  cases st with
  | @resolve x i hs =>
    refine ⟨fun {y z} h => ?_, id, fun _ => rfl, id⟩
    simp only [Function.update_apply]
    split
    · rename_i e
      rw [e, lk.unlinked (by rw [hs]; rfl)] at h
      cases h
    · exact h
  | @birth x i hs =>
    have other : ∀ {y p}, s.home y = some p → y ≠ x := by
      rintro y p h rfl
      rw [hm.early (by rw [hs]; rfl)] at h
      cases h
    refine ⟨id, fun h => ?_, fun h => ?_, id⟩
    · simp only [Function.update_of_ne (other h)]
      exact h
    · simp only [Function.update_of_ne (other h)]
  | cancel _ => exact ⟨id, id, fun _ => rfl, hit⟩
  | @viaSet c x st _ _ => exact ⟨id, id, fun _ => rfl, hit (i := s.raw x % 65536)⟩
  | _ => exact ⟨id, id, fun _ => rfl, id⟩

/-- A scope stays within those it was constructed in. -/
lemma Within.mono (kp : Keeps s u) (h : Within s x y) : Within u x y := by
  induction h with
  | self => exact .self
  | up _ e ih => exact ih.up (kp.enclosing e)

/-- A root is in no other scope. -/
lemma Within.root (h : Within s x y) (root : s.enclosing x = none) : y = x := by
  induction h with
  | self => rfl
  | up _ e ih =>
    rw [ih, root] at e
    cases e

/-- A handle of the scope or of one that it was constructed in. -/
def State.Handle (s : State σ χ ρ) (x : σ) (raw : Nat) : Prop :=
  raw = kNone.raw ∨ ∃ y p, Within s x y ∧ s.home y = some p ∧ raw = s.raw y

/-- What the walks have to do with the scopes. -/
structure Walks (s : State σ χ ρ) : Prop where
  state : ∀ {r x raw d}, s.walk r = .state x raw d → s.Handle x raw
  parent : ∀ {r x raw d t}, s.walk r = .parent x raw d t →
    ∃ y n, Within s x y ∧ s.home y = some (raw % 65536, n) ∧ t = some y
  done : ∀ {r x}, s.walk r = .done x true → ∃ y, Within s x y ∧ s.hit y = true

/-- Nobody walks yet. -/
lemma Walks.init : Walks ({} : State σ χ ρ) :=
  ⟨nofun, nofun, nofun⟩

/-- A handle stays one of its scope. -/
lemma State.Handle.mono {raw : Nat} (kp : Keeps s u) (h : s.Handle x raw) : u.Handle x raw := by
  rcases h with h | ⟨y, p, wi, hy, eq⟩
  · exact .inl h
  · exact .inr ⟨y, p, wi.mono kp, kp.home hy, by rw [kp.raw hy, eq]⟩

/-- One walk goes on. -/
lemma Walks.go [DecidableEq ρ] {r : ρ} {w : Walk σ} (wk : Walks s) (kp : Keeps s u)
    (walk : u.walk = Function.update s.walk r w) (state : ∀ {x raw d}, w = .state x raw d → s.Handle x raw)
    (parent : ∀ {x raw d t}, w = .parent x raw d t →
      ∃ y n, Within s x y ∧ s.home y = some (raw % 65536, n) ∧ t = some y)
    (done : ∀ {x}, w = .done x true → ∃ y, Within s x y ∧ s.hit y = true) : Walks u := by
  refine ⟨fun {r' x raw d} h => ?_, fun {r' x raw d t} h => ?_, fun {r' x} h => ?_⟩
  all_goals
    rw [walk, Function.update_apply] at h
    split at h
  · exact (state h).mono kp
  · exact (wk.state h).mono kp
  · obtain ⟨y, n, wi, hy, e⟩ := parent h
    exact ⟨y, n, wi.mono kp, kp.home hy, e⟩
  · obtain ⟨y, n, wi, hy, e⟩ := wk.parent h
    exact ⟨y, n, wi.mono kp, kp.home hy, e⟩
  · obtain ⟨y, wi, hit⟩ := done h
    exact ⟨y, wi.mono kp, kp.hit hit⟩
  · obtain ⟨y, wi, hit⟩ := wk.done h
    exact ⟨y, wi.mono kp, kp.hit hit⟩

/-- A step that leaves the walks. -/
lemma Walks.quiet (wk : Walks s) (kp : Keeps s u) (walk : u.walk = s.walk) : Walks u := by
  refine ⟨fun h => ?_, fun h => ?_, fun h => ?_⟩
  all_goals rw [walk] at h
  · exact (wk.state h).mono kp
  · obtain ⟨y, n, wi, hy, e⟩ := wk.parent h
    exact ⟨y, n, wi.mono kp, kp.home hy, e⟩
  · obtain ⟨y, wi, hit⟩ := wk.done h
    exact ⟨y, wi.mono kp, kp.hit hit⟩

variable [DecidableEq σ] [DecidableEq χ] [DecidableEq ρ]

/-- A step under the condition keeps every walk on the scopes above its start. -/
lemma Walks.step (wk : Walks s) (lk : Linked s) (hm : Homes s) (ok : Followed s a) (st : Step s a u) :
    Walks u := by
  have kp := st.keeps lk hm
  cases st with
  | @walk r x hs =>
    refine wk.go (r := r) kp rfl ?_ nofun nofun
    rintro x' raw d ⟨⟩
    cases hx : s.home x with
    | none => exact .inl (hm.unset hx)
    | some p => exact .inr ⟨x, p, .self, hx, rfl⟩
  | walkNone _ _ => exact wk.go kp rfl nofun nofun nofun
  | walkStale _ _ _ _ => exact wk.go kp rfl nofun nofun nofun
  | @walkState r x raw d hs ne lt gen =>
    -- the handle is of the scope that has the slot
    obtain ⟨y, ⟨j, m⟩, wi, hy, eq⟩ := (wk.state hs).resolve_left ne
    subst eq
    have now := hm.current ne (fun i n h => ok.1 _ _ hs y i n h rfl) gen
    refine wk.go (r := r) kp rfl ?_ ?_ ?_
    · intro x' raw' d' e
      split at e <;> cases e
    · intro x' raw' d' t e
      split at e
      · cases e
      · cases e
        exact ⟨y, _, wi, now, lk.tenant (Life.slot_of_live (hm.now now))⟩
    · intro x' e
      split at e
      · rename_i flag
        cases e
        obtain ⟨z, hz, hit⟩ := hm.flag flag
        exact ⟨y, wi, hm.one hz now ▸ hit⟩
      · cases e
  | @walkParent r x raw d t hs =>
    obtain ⟨y, n, wi, hy, e⟩ := wk.parent hs
    refine wk.go (r := r) kp rfl ?_ nofun nofun
    rintro x' raw' d' ⟨⟩
    -- the slot has not been taken by another scope, so the parent is that of the handle's
    rcases lk.stored hy ((ok.2 _ _ _ hs).trans e) with h | ⟨z, hz, h⟩
    · exact .inl h
    · right
      cases hh : s.home z with
      | none => exact absurd hh (lk.issued hz)
      | some p => exact ⟨z, p, wi.up hz, hh, h⟩
  | walkReturn _ => exact wk.go kp rfl nofun nofun nofun
  | _ => exact wk.quiet kp rfl

/-- In every run in which no other scope takes a slot between the two loads of a walk at it, and that meets
the bounds: if `Cancelled` of a token returns true, the scope that issued the token or one that it was
constructed in was cancelled. -/
theorem cancelled_only_within (rn : Runs Step Followed ({} : State σ χ ρ) s) {r : ρ} {x : σ}
    (result : s.walk r = .done x true) : ∃ y, Within s x y ∧ s.hit y = true := by
  have inv : Inv s ∧ Linked s ∧ Walks s := by
    refine rn.invariant (I := fun s => Inv s ∧ Linked s ∧ Walks s) ⟨.init, .init, .init⟩ ?_
    rintro s a u ⟨inv, lk, wk⟩ ok st
    obtain ⟨free, tb⟩ := inv.table
    exact ⟨inv.step ok.bounded st, lk.step tb inv.loaded inv.homes st, wk.step lk inv.homes ok st⟩
  exact inv.2.2.done result

/-- A scope is cancelled, and the walk of one that was constructed in it finds that. -/
theorem cancelled_only_within_nested :
    ∃ s : State Nat Unit Unit, Runs Step Followed {} s ∧ s.walk () = .done 1 true ∧ s.hit 1 = false ∧
      ∃ y, Within s 1 y ∧ s.hit y = true := by
  have r : Runs Step Followed ({} : State Nat Unit Unit) _ := .refl
  have r1 := r.next (.construct 0 none) trivial (.construct rfl)
  have r2 := r1.next (.acquire 0) (by rintro _ _ _ ⟨⟩) (.next rfl (by decide))
  have r3 := r2.next (.acquire 0) (by rintro _ _ _ ⟨⟩; decide) (.pop rfl rfl)
  have r4 := r3.next (.link 0) trivial (.resolve rfl)
  have r5 := r4.next (.link 0) trivial (.link rfl)
  have r6 := r5.next (.birth 0) trivial (.birth rfl)
  have r7 := r6.next (.construct 1 (some 0)) trivial (.construct rfl)
  have r8 := r7.next (.acquire 1) (by rintro _ _ _ ⟨⟩) (.next rfl (by decide))
  have r9 := r8.next (.acquire 1) (by rintro _ _ _ ⟨⟩; decide) (.pop rfl rfl)
  have r10 := r9.next (.link 1) trivial (.resolve rfl)
  have r11 := r10.next (.link 1) trivial (.link rfl)
  have r12 := r11.next (.birth 1) trivial (.birth rfl)
  have r13 := r12.next (.cancel 0) trivial (.cancel rfl)
  have r14 := r13.next (.walk () 1) ⟨nofun, nofun⟩ (.walk rfl)
  have r15 := r14.next (.walk () 1) ⟨fun _ _ _ _ _ _ _ _ => Nat.succ_pos _, nofun⟩
    (.walkState rfl (by decide) (by decide) rfl)
  have r16 := r15.next (.walk () 1) ⟨nofun, by rintro _ _ _ ⟨⟩; rfl⟩ (.walkParent rfl)
  have r17 := r16.next (.walk () 1) ⟨fun _ _ _ _ _ _ _ _ => Nat.succ_pos _, nofun⟩
    (.walkState rfl (by decide) (by decide) rfl)
  exact ⟨_, r17, rfl, rfl, cancelled_only_within r17 (r := ()) rfl⟩

/-- The walk has loaded the state of scope 0, which is a root. Then scope 0 ends, and scope 2, which is
constructed in the cancelled scope 1, gets its slot: the walk goes on with the parent of scope 2. -/
theorem cancelled_by_stranger :
    ∃ s : State Nat Unit Unit, Reaches Step {} s ∧ s.walk () = .done 0 true ∧
      (∀ i, s.uses i < 65536) ∧ ∀ y, Within s 0 y → s.hit y = false := by
  have r : Reaches Step ({} : State Nat Unit Unit) _ := .refl
  have r1 := r.next (.construct 0 none) trivial (.construct rfl)
  have r2 := r1.next (.acquire 0) trivial (.next rfl (by decide))
  have r3 := r2.next (.acquire 0) trivial (.pop rfl rfl)
  have r4 := r3.next (.link 0) trivial (.resolve rfl)
  have r5 := r4.next (.link 0) trivial (.link rfl)
  have r6 := r5.next (.birth 0) trivial (.birth rfl)
  have r7 := r6.next (.construct 1 none) trivial (.construct rfl)
  have r8 := r7.next (.acquire 1) trivial (.next rfl (by decide))
  have r9 := r8.next (.acquire 1) trivial (.pop rfl rfl)
  have r10 := r9.next (.link 1) trivial (.resolve rfl)
  have r11 := r10.next (.link 1) trivial (.link rfl)
  have r12 := r11.next (.birth 1) trivial (.birth rfl)
  have r13 := r12.next (.cancel 1) trivial (.cancel rfl)
  have r14 := r13.next (.walk () 0) trivial (.walk rfl)
  have r15 := r14.next (.walk () 0) trivial (.walkState rfl (by decide) (by decide) rfl)
  have r16 := r15.next (.destroy 0) trivial (.destroy rfl)
  have r17 := r16.next (.destroy 0) trivial (.bump rfl rfl)
  have r18 := r17.next (.destroy 0) trivial (.unlink rfl)
  have r19 := r18.next (.release 0) trivial (.load rfl)
  have r20 := r19.next (.release 0) trivial (.write rfl)
  have r21 := r20.next (.release 0) trivial (.push rfl rfl)
  have r22 := r21.next (.construct 2 (some 1)) trivial (.construct rfl)
  have r23 := r22.next (.acquire 2) trivial (.next rfl (by decide))
  have r24 := r23.next (.acquire 2) trivial (.pop rfl rfl)
  have r25 := r24.next (.link 2) trivial (.resolve rfl)
  have r26 := r25.next (.link 2) trivial (.link rfl)
  have r27 := r26.next (.walk () 0) trivial (.walkParent rfl)
  have r28 := r27.next (.walk () 0) trivial (.walkState rfl (by decide) (by decide) rfl)
  refine ⟨_, r28, rfl, fun i => ?_, fun y wi => ?_⟩
  · have once : Function.update (fun _ : Nat => 0) 0 1 i < 65536 := by
      rw [Function.update_apply]
      split <;> decide
    exact once
  · rw [wi.root rfl]
    rfl

end JLib.Scopes
