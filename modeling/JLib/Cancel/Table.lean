import JLib.Cancel.Scopes
import JLib.Links.Chain
import JLib.LTS.Custody

/-!
# Slots, generations and handles

The free list and the scopes under construction or destruction share the slots out among them. The tag of
the head counts the operations on the list modulo 2^32, so a thread that finds the head as it loaded it,
and fewer than 2^32 operations later, knows that there was none. A slot that is not free belongs to one
scope, which alone writes its parent and raises its generation; a handle with the generation of the slot,
used fewer than 65536 generations later, is of the scope that has the slot.
-/

namespace JLib.Scopes
open LTS Links CancelToken

variable {σ χ ρ : Type} {s u : State σ χ ρ}
  {a : Label σ χ ρ} {x y : σ} {i n k : Nat} {h : FreeHead} {l : Life} {free : List Nat}

/-! ## Phases -/

/-- The slot that a scope has. -/
def Life.slot : Life → Option Nat
  | .owned i => some i
  | .link i _ => some i
  | .linked i => some i
  | .alive i => some i
  | .dying i _ => some i
  | .bumped i => some i
  | .release i => some i
  | .push i _ _ => some i
  | .pushed i _ _ => some i
  | _ => none

/-- The slot of a scope whose handle is issued and whose generation is not raised. -/
def Life.live : Life → Option Nat
  | .alive i => some i
  | .dying i _ => some i
  | _ => none

/-- The head that a thread has loaded, and when. -/
def Life.snapshot : Life → Option (FreeHead × Nat)
  | .acquire h n => some (h, n)
  | .next h n _ => some (h, n)
  | .push _ h n => some (h, n)
  | .pushed _ h n => some (h, n)
  | _ => none

/-- No handle is issued. -/
def Life.early : Life → Bool
  | .unborn => true
  | .acquire _ _ => true
  | .next _ _ _ => true
  | .owned _ => true
  | .link _ _ => true
  | .linked _ => true
  | _ => false

/-- A scope with an issued handle has its slot. -/
lemma Life.slot_of_live (h : l.live = some i) : l.slot = some i := by
  cases l <;> first | exact h | cases h

/-! ## The free list -/

/-- A one-based index, 0 for none. -/
def idx (n : Nat) : Option Nat := if n = 0 then none else some (n - 1)

/-- The links of the free slots. -/
def State.link (s : State σ χ ρ) (i : Nat) : Option Nat := idx (s.nextFree i)

inductive Place (σ : Type) where
  | free
  | scope (x : σ)
  deriving DecidableEq

/-- The slots on the free list and with the scopes. -/
def State.held (s : State σ χ ρ) (free : List Nat) : Place σ → List Nat
  | .free => free
  | .scope x => (s.life x).slot.toList

/-- The free list and the scopes have all slots, each of them once. -/
structure Table (s : State σ χ ρ) (free : List Nat) : Prop where
  list : SList s.link (idx s.head.index) free
  custody : Custody (s.held free)
  all : ∀ i, (∃ q, i ∈ s.held free q) ↔ i < kCancelSlots
  tag : s.head.tag = s.ops % 2 ^ 32

/-- What the threads have loaded from the list. -/
structure Loaded (s : State σ χ ρ) : Prop where
  snapshot : ∀ {x h n}, (s.life x).snapshot = some (h, n) →
    n ≤ s.ops ∧ h.tag = n % 2 ^ 32 ∧ (n = s.ops → h = s.head)
  next : ∀ {x h n k}, s.life x = .next h n k → h.index ≠ 0 ∧ (n = s.ops → s.nextFree (h.index - 1) = k)
  pushed : ∀ {x i h n}, s.life x = .pushed i h n → s.nextFree i = h.index

/-- The list from a slot on, as the table is initialised. -/
lemma init_list (m k : Nat) (le : k + m = kCancelSlots) :
    SList ({} : State σ χ ρ).link (idx (if m = 0 then 0 else k + 1)) (List.range' k m) := by
  induction m generalizing k with
  | zero => exact .nil
  | succ m ih =>
    rw [List.range'_succ]
    have start : idx (if m + 1 = 0 then 0 else k + 1) = some k := rfl
    rw [start]
    apply SList.cons
    have next : ({} : State σ χ ρ).link k = idx (if m = 0 then 0 else k + 1 + 1) := by
      rw [State.link]
      congr 1
      simp only
      split <;> split <;> omega
    rw [next]
    exact ih (k + 1) (by omega)

/-- All slots are free. -/
lemma Table.init : Table ({} : State σ χ ρ) (List.range' 0 kCancelSlots) := by
  have scope : ∀ x, ({} : State σ χ ρ).held (List.range' 0 kCancelSlots) (.scope x) = [] := fun _ => rfl
  refine ⟨init_list kCancelSlots 0 (Nat.zero_add _), ⟨fun p => ?_, fun {p q i} hp hq => ?_⟩, fun i => ?_, rfl⟩
  · cases p with
    | free => exact List.nodup_range'
    | scope x =>
      rw [scope]
      exact List.nodup_nil
  · cases p with
    | free =>
      cases q with
      | free => rfl
      | scope x =>
        rw [scope] at hq
        cases hq
    | scope x =>
      rw [scope] at hp
      cases hp
  · constructor
    · rintro ⟨q, hq⟩
      cases q with
      | free =>
        rw [State.held, List.mem_range'] at hq
        omega
      | scope x =>
        rw [scope] at hq
        cases hq
    · intro lt
      exact ⟨.free, List.mem_range'.2 ⟨i, lt, by omega⟩⟩

/-- No thread has loaded anything. -/
lemma Loaded.init : Loaded ({} : State σ χ ρ) :=
  ⟨nofun, nofun, nofun⟩

/-- Two scopes never have the same slot. -/
lemma Table.owner (tb : Table s free) (hx : (s.life x).slot = some i) (hy : (s.life y).slot = some i) :
    x = y := by
  have mem : ∀ {z}, (s.life z).slot = some i → i ∈ s.held free (.scope z) := by
    intro z hz
    rw [State.held, hz]
    exact List.mem_singleton.2 rfl
  exact Place.scope.inj (tb.custody.unique (mem hx) (mem hy))

/-- A scope's slot is one of the table. -/
lemma Table.lt (tb : Table s free) (hx : (s.life x).slot = some i) : i < kCancelSlots := by
  apply (tb.all i).1
  refine ⟨.scope x, ?_⟩
  rw [State.held, hx]
  exact List.mem_singleton.2 rfl

/-- A scope's slot is not free. -/
lemma Table.not_free (tb : Table s free) (hx : (s.life x).slot = some i) : i ∉ free := by
  intro hi
  have mem : i ∈ s.held free (.scope x) := by
    rw [State.held, hx]
    exact List.mem_singleton.2 rfl
  have := tb.custody.unique (p := .free) hi mem
  cases this

/-- Nothing happens to the list or to the slots of the scopes. -/
lemma Table.frame (tb : Table s free) (head : u.head = s.head) (nextFree : u.nextFree = s.nextFree)
    (ops : u.ops = s.ops) (slot : ∀ z, (u.life z).slot = (s.life z).slot) : Table u free := by
  have held : u.held free = s.held free := by
    funext q
    cases q with
    | free => rfl
    | scope z => rw [State.held, State.held, slot]
  have link : u.link = s.link := by
    funext j
    rw [State.link, State.link, nextFree]
  refine ⟨?_, ?_, ?_, ?_⟩
  · rw [link, head]
    exact tb.list
  · rw [held]
    exact tb.custody
  · rw [held]
    exact tb.all
  · rw [head, ops]
    exact tb.tag

/-- A head that is found as it was loaded, in time, was not changed in between. -/
lemma Loaded.unchanged (ld : Loaded s) (tb : Table s free) (hs : (s.life x).snapshot = some (h, n))
    (same : s.head = h) (soon : s.ops < n + 2 ^ 32) : n = s.ops := by
  obtain ⟨le, tag, _⟩ := ld.snapshot hs
  have eq : s.ops % 2 ^ 32 = n % 2 ^ 32 := by rw [← tb.tag, same, tag]
  omega

variable [DecidableEq σ]

/-- What a step does to the list. -/
inductive Effect (s : State σ χ ρ) (a : Label σ χ ρ) (u : State σ χ ρ) : Prop where
  | quiet :
    u.head = s.head →
    u.ops = s.ops →
    u.nextFree = s.nextFree →
    u.life = s.life →
    Effect s a u
  -- a scope goes on with the slot it has or does not have
  | go {x : σ} {l : Life} :
    u.head = s.head →
    u.ops = s.ops →
    u.nextFree = s.nextFree →
    u.life = Function.update s.life x l →
    l.slot = (s.life x).slot →
    (∀ h n, l.snapshot = some (h, n) → h = s.head ∧ n = s.ops ∨ (s.life x).snapshot = some (h, n)) →
    (∀ h n k, l = .next h n k → h.index ≠ 0 ∧ s.nextFree (h.index - 1) = k) →
    (∀ i h n, l ≠ .pushed i h n) →
    Effect s a u
  | write {x : σ} {i : Nat} {h : FreeHead} {n : Nat} :
    s.life x = .push i h n →
    u.head = s.head →
    u.ops = s.ops →
    u.nextFree = Function.update s.nextFree i h.index →
    u.life = Function.update s.life x (.pushed i h n) →
    Effect s a u
  | pop {x : σ} {h : FreeHead} {n k : Nat} :
    s.life x = .next h n k →
    s.head = h →
    a = .acquire x →
    u.head = { tag := (h.tag + 1) % 2 ^ 32, index := k } →
    u.ops = s.ops + 1 →
    u.nextFree = s.nextFree →
    u.life = Function.update s.life x (.owned (h.index - 1)) →
    Effect s a u
  | push {x : σ} {i : Nat} {h : FreeHead} {n : Nat} :
    s.life x = .pushed i h n →
    s.head = h →
    a = .release x →
    u.head = { tag := (h.tag + 1) % 2 ^ 32, index := i + 1 } →
    u.ops = s.ops + 1 →
    u.nextFree = s.nextFree →
    u.life = Function.update s.life x .dead →
    Effect s a u

/-- A scope goes on outside the list operations. -/
lemma Effect.plain {x : σ} {l : Life} (head : u.head = s.head) (ops : u.ops = s.ops)
    (nextFree : u.nextFree = s.nextFree) (life : u.life = Function.update s.life x l)
    (slot : l.slot = (s.life x).slot) (none : l.snapshot = none) : Effect s a u := by
  refine .go head ops nextFree life slot ?_ ?_ ?_
  · intro h n e
    rw [none] at e
    cases e
  · rintro h n k rfl
    cases none
  · rintro i h n rfl
    cases none

/-- A scope loads the head. -/
lemma Effect.load {x : σ} {l : Life} (head : u.head = s.head) (ops : u.ops = s.ops)
    (nextFree : u.nextFree = s.nextFree) (life : u.life = Function.update s.life x l)
    (slot : l.slot = (s.life x).slot) (snap : l.snapshot = some (s.head, s.ops))
    (kind : (∀ h n k, l ≠ .next h n k) ∧ ∀ i h n, l ≠ .pushed i h n) : Effect s a u := by
  refine .go head ops nextFree life slot ?_ ?_ kind.2
  · intro h n e
    rw [snap] at e
    cases e
    exact .inl ⟨rfl, rfl⟩
  · intro h n k e
    exact absurd e (kind.1 h n k)

/-- What any step does to the list. -/
lemma Step.effect [DecidableEq χ] [DecidableEq ρ] (st : Step s a u) : Effect s a u := by
  cases st with
  | @construct x p hs => exact .load (x := x) rfl rfl rfl rfl (by rw [hs]; rfl) rfl ⟨nofun, nofun⟩
  | @exhausted x h n hs _ => exact .plain (x := x) rfl rfl rfl rfl (by rw [hs]; rfl) rfl
  | @next x h n hs pos =>
    refine .go (x := x) rfl rfl rfl rfl (by rw [hs]; rfl) ?_ ?_ nofun
    · intro h' n' e
      right
      rw [hs]
      exact e
    · rintro h' n' k ⟨⟩
      exact ⟨pos, rfl⟩
  | @popFail x h n k hs => exact .load (x := x) rfl rfl rfl rfl (by rw [hs]; rfl) rfl ⟨nofun, nofun⟩
  | pop hs same => exact .pop hs same rfl rfl rfl rfl rfl
  | @resolve x i hs => exact .plain (x := x) rfl rfl rfl rfl (by rw [hs]; rfl) rfl
  | @link x i p hs => exact .plain (x := x) rfl rfl rfl rfl (by rw [hs]; rfl) rfl
  | @birth x i hs => exact .plain (x := x) rfl rfl rfl rfl (by rw [hs]; rfl) rfl
  | cancel _ => exact .quiet rfl rfl rfl rfl
  | @destroyInvalid x hs => exact .plain (x := x) rfl rfl rfl rfl (by rw [hs]; rfl) rfl
  | @destroy x i hs => exact .plain (x := x) rfl rfl rfl rfl (by rw [hs]; rfl) rfl
  | @bumpFail x i st hs => exact .plain (x := x) rfl rfl rfl rfl (by rw [hs]; rfl) rfl
  | @bump x i st hs _ => exact .plain (x := x) rfl rfl rfl rfl (by rw [hs]; rfl) rfl
  | @unlink x i hs => exact .plain (x := x) rfl rfl rfl rfl (by rw [hs]; rfl) rfl
  | @load x i hs => exact .load (x := x) rfl rfl rfl rfl (by rw [hs]; rfl) rfl ⟨nofun, nofun⟩
  | write hs => exact .write hs rfl rfl rfl rfl
  | @pushFail x i h n hs => exact .load (x := x) rfl rfl rfl rfl (by rw [hs]; rfl) rfl ⟨nofun, nofun⟩
  | push hs same => exact .push hs same rfl rfl rfl rfl rfl
  | _ => exact .quiet rfl rfl rfl rfl

/-- The conditions on the steps: fewer than 2^32 operations on the list are completed while one is under way,
and fewer than 65536 uses of the slot separate a token from a call of `CancelVia` with it. -/
def Bounded (s : State σ χ ρ) : Label σ χ ρ → Prop
  | .acquire x => ∀ h n k, s.life x = .next h n k → s.ops < n + 2 ^ 32
  | .release x => ∀ i h n, s.life x = .pushed i h n → s.ops < n + 2 ^ 32
  | .via _ x => ∀ i n, s.home x = some (i, n) → s.uses i < n + 65536
  | _ => True

/-- The slots that a scope has after a step of another one. -/
lemma slot_of_update {l : Life} (slot : l.slot = (s.life x).slot) (z : σ) :
    (Function.update s.life x l z).slot = (s.life z).slot := by
  rw [Function.update_apply]
  split
  · rename_i e
    rw [e, slot]
  · rfl

/-- A slot goes from the list to a scope, or back. -/
lemma handed {free' : List Nat} {l : Life} (life : u.life = Function.update s.life x l)
    (perm : (u.held free' (.scope x) ++ u.held free' .free).Perm (s.held free (.scope x) ++ s.held free .free)) :
    Custody.Moved (s.held free) (u.held free') := by
  refine ⟨.scope x, .free, nofun, fun r ne ne' => ?_, perm⟩
  cases r with
  | free => exact absurd rfl ne'
  | scope z =>
    have ne : z ≠ x := fun e => ne (e ▸ rfl)
    rw [State.held, State.held, life, Function.update_of_ne ne]

/-- A slot is taken from the list. -/
lemma Table.pop (tb : Table s free) (ld : Loaded s) (hs : s.life x = .next h n k)
    (same : s.head = h) (soon : s.ops < n + 2 ^ 32) (head : u.head = { tag := (h.tag + 1) % 2 ^ 32, index := k })
    (ops : u.ops = s.ops + 1) (nextFree : u.nextFree = s.nextFree)
    (life : u.life = Function.update s.life x (.owned (h.index - 1))) : ∃ free', Table u free' := by
  have now := ld.unchanged tb (by rw [hs]; rfl) same soon
  obtain ⟨pos, next⟩ := ld.next hs
  have sl := tb.list
  have start : idx s.head.index = some (h.index - 1) := by
    rw [same, idx, if_neg pos]
  rw [start] at sl
  cases sl with
  | @cons _ rest sl =>
    have link : u.link = s.link := by
      funext j
      rw [State.link, State.link, nextFree]
    have here : s.held ((h.index - 1) :: rest) (.scope x) = [] := by
      rw [State.held, hs]
      rfl
    have here' : u.held rest (.scope x) = [h.index - 1] := by
      rw [State.held, life, Function.update_self]
      rfl
    have mv : Custody.Moved (s.held ((h.index - 1) :: rest)) (u.held rest) := by
      refine handed life ?_
      rw [here, here']
      exact .refl _
    refine ⟨rest, ?_, ?_, fun i => ?_, ?_⟩
    · rw [link, head, ← next now]
      exact sl
    · obtain ⟨p, q, ne, frame, perm⟩ := mv
      exact tb.custody.move ne frame perm.subperm
    · rw [mv.mem]
      exact tb.all i
    · rw [head, ops, ← same, tb.tag]
      simp only
      omega

/-- A slot is put back. -/
lemma Table.push (tb : Table s free) (ld : Loaded s) (hs : s.life x = .pushed i h n) (same : s.head = h)
    (head : u.head = { tag := (h.tag + 1) % 2 ^ 32, index := i + 1 }) (ops : u.ops = s.ops + 1)
    (nextFree : u.nextFree = s.nextFree) (life : u.life = Function.update s.life x .dead) :
    ∃ free', Table u free' := by
  have link : u.link = s.link := by
    funext j
    rw [State.link, State.link, nextFree]
  have here : s.held free (.scope x) = [i] := by
    rw [State.held, hs]
    rfl
  have here' : u.held (i :: free) (.scope x) = [] := by
    rw [State.held, life, Function.update_self]
    rfl
  have mv : Custody.Moved (s.held free) (u.held (i :: free)) := by
    refine handed life ?_
    rw [here, here']
    exact .refl _
  refine ⟨i :: free, ?_, ?_, fun j => ?_, ?_⟩
  · rw [link, head]
    have start : idx (i + 1) = some i := rfl
    rw [start]
    apply SList.cons
    rw [State.link, ld.pushed hs, ← same]
    exact tb.list
  · obtain ⟨p, q, ne, frame, perm⟩ := mv
    exact tb.custody.move ne frame perm.subperm
  · rw [mv.mem]
    exact tb.all j
  · rw [head, ops, ← same, tb.tag]
    simp only
    omega

/-- A step within the bounds keeps every slot at one place. -/
lemma Table.step [DecidableEq χ] [DecidableEq ρ] (tb : Table s free) (ld : Loaded s) (ok : Bounded s a)
    (st : Step s a u) : ∃ free', Table u free' := by
  cases st.effect with
  | quiet head ops nextFree life => exact ⟨free, tb.frame head nextFree ops fun z => by rw [life]⟩
  | go head ops nextFree life slot _ _ _ =>
    refine ⟨free, tb.frame head nextFree ops fun z => ?_⟩
    rw [life]
    exact slot_of_update slot z
  | @write x i h n hs head ops nextFree life =>
    have mine : (s.life x).slot = some i := by rw [hs]; rfl
    -- the slot is not on the list yet
    have list : SList u.link (idx s.head.index) free := by
      apply tb.list.frame
      intro j hj
      rw [State.link, State.link, nextFree, Function.update_of_ne]
      rintro rfl
      exact tb.not_free mine hj
    have held : u.held free = s.held free := by
      funext q
      cases q with
      | free => rfl
      | scope z =>
        rw [State.held, State.held, life, slot_of_update]
        rw [hs]
        rfl
    refine ⟨free, ?_, ?_, ?_, ?_⟩
    · rw [head]
      exact list
    · rw [held]
      exact tb.custody
    · rw [held]
      exact tb.all
    · rw [head, ops]
      exact tb.tag
  | pop hs same e head ops nextFree life =>
    subst e
    exact tb.pop ld hs same (ok _ _ _ hs) head ops nextFree life
  | push hs same _ head ops nextFree life => exact tb.push ld hs same head ops nextFree life

/-- An operation on the list is completed: what the other threads have loaded is of the past. -/
lemma Loaded.past {l : Life} (ld : Loaded s) (ops : u.ops = s.ops + 1) (nextFree : u.nextFree = s.nextFree)
    (life : u.life = Function.update s.life x l) (none : l.snapshot = none) : Loaded u := by
  have other : ∀ {z h n}, (u.life z).snapshot = some (h, n) → s.life z = u.life z := by
    intro z h n e
    rw [life, Function.update_apply] at e ⊢
    split at e
    · rw [none] at e
      cases e
    · rename_i ne
      rw [if_neg ne]
  refine ⟨fun {z h n} e => ?_, fun {z h n k} e => ?_, fun {z i h n} e => ?_⟩
  · have same := other e
    rw [← same] at e
    obtain ⟨le, tag, _⟩ := ld.snapshot e
    exact ⟨by omega, tag, fun eq => by omega⟩
  · have same := other (h := h) (n := n) (by rw [e]; rfl)
    rw [← same] at e
    obtain ⟨le, _⟩ := ld.snapshot (x := z) (h := h) (n := n) (by rw [e]; rfl)
    exact ⟨(ld.next e).1, fun eq => by omega⟩
  · have same := other (h := h) (n := n) (by rw [e]; rfl)
    rw [← same] at e
    rw [nextFree]
    exact ld.pushed e

/-- A step keeps what the threads have loaded. -/
lemma Loaded.step [DecidableEq χ] [DecidableEq ρ] (ld : Loaded s) (tb : Table s free) (st : Step s a u) : Loaded u := by
  cases st.effect with
  | quiet head ops nextFree life =>
    refine ⟨?_, ?_, ?_⟩
    · rw [head, ops, life]
      exact ld.snapshot
    · rw [ops, nextFree, life]
      exact ld.next
    · rw [nextFree, life]
      exact ld.pushed
  | @go x l head ops nextFree life _ snap next pushed =>
    refine ⟨fun {z h n} e => ?_, fun {z h n k} e => ?_, fun {z i h n} e => ?_⟩
    all_goals rw [life, Function.update_apply] at e
    · rw [head, ops]
      split at e
      · rcases snap h n e with ⟨rfl, rfl⟩ | old
        · exact ⟨Nat.le_refl _, tb.tag, fun _ => rfl⟩
        · exact ld.snapshot old
      · exact ld.snapshot e
    · rw [ops, nextFree]
      split at e
      · obtain ⟨pos, eq⟩ := next h n k e
        exact ⟨pos, fun _ => eq⟩
      · exact ld.next e
    · rw [nextFree]
      split at e
      · exact absurd e (pushed i h n)
      · exact ld.pushed e
  | @write x i h n hs head ops nextFree life =>
    have mine : (s.life x).slot = some i := by rw [hs]; rfl
    refine ⟨fun {z h' n'} e => ?_, fun {z h' n' k} e => ?_, fun {z i' h' n'} e => ?_⟩
    all_goals rw [life, Function.update_apply] at e
    · rw [head, ops]
      split at e
      · cases e
        exact ld.snapshot (x := x) (by rw [hs]; rfl)
      · exact ld.snapshot e
    · rw [ops, nextFree]
      split at e
      · cases e
      · obtain ⟨pos, eq⟩ := ld.next e
        refine ⟨pos, fun now => ?_⟩
        -- the slot at the head is free, so it is not the one that is written
        obtain ⟨_, _, same⟩ := ld.snapshot (x := z) (h := h') (n := n') (by rw [e]; rfl)
        have first : h'.index - 1 ∈ free := by
          have start := tb.list.start_eq
          rw [← same now, idx, if_neg pos] at start
          exact List.mem_of_mem_head? start.symm
        rw [Function.update_of_ne]
        · exact eq now
        · rintro eq
          exact tb.not_free mine (eq ▸ first)
    · rw [nextFree]
      split at e
      · cases e
        exact Function.update_self ..
      · rename_i ne
        rw [Function.update_of_ne]
        · exact ld.pushed e
        · rintro rfl
          exact ne (tb.owner (by rw [e]; rfl) mine)
  | pop _ _ _ _ ops nextFree life => exact ld.past ops nextFree life rfl
  | push _ _ _ _ ops nextFree life => exact ld.past ops nextFree life rfl

/-! ## Generations and handles -/

/-- The low half of a handle is its slot. -/
lemma handle_index (lt : i < kCancelSlots) : handle i n % 65536 = i := by
  have : i < 65536 := Nat.lt_of_lt_of_le lt (by decide)
  unfold handle
  omega

/-- The high half of a handle is its generation modulo 2^16. -/
lemma handle_gen (lt : i < kCancelSlots) : handle i n / 65536 = n % 65536 := by
  have : i < 65536 := Nat.lt_of_lt_of_le lt (by decide)
  unfold handle
  omega

/-- The last index would make the absent token. -/
lemma handle_ne_none (lt : i < kCancelSlots) : handle i n ≠ kNone.raw := by
  intro e
  have := congrArg (· % 65536) e
  simp only [handle_index lt] at this
  rw [this] at lt
  revert lt
  decide

/-- The generation of a word, counted in full or modulo 2^32. -/
lemma genOf_mod (n : Nat) (b : Bool) : genOf (n % 2 ^ 32, b) = n % 65536 := by
  unfold genOf
  simp only
  omega

/-- A generation counts modulo 2^32 in a handle as well. -/
lemma handle_mod (n : Nat) : handle i (n % 2 ^ 32) = handle i n := by
  unfold handle
  congr 2
  omega

/-- What the handles have to do with the slots. -/
structure Homes (s : State σ χ ρ) : Prop where
  gen : ∀ i, (s.slots i).gen = s.uses i % 2 ^ 32
  past : ∀ {x i n}, s.home x = some (i, n) → n ≤ s.uses i ∧ i < kCancelSlots ∧ s.raw x = handle i n
  now : ∀ {x i}, s.home x = some (i, s.uses i) → (s.life x).live = some i
  live : ∀ {x i}, (s.life x).live = some i → s.home x = some (i, s.uses i)
  one : ∀ {x y p}, s.home x = some p → s.home y = some p → x = y
  unset : ∀ {x}, s.home x = none → s.raw x = kNone.raw
  early : ∀ {x}, (s.life x).early = true → s.home x = none
  flag : ∀ {i}, (s.slots i).cancelled = true → ∃ x, s.home x = some (i, s.uses i) ∧ s.hit x = true
  cas : ∀ {c x st}, s.via c = .cas x st → s.raw x ≠ kNone.raw ∧ genOf st = s.raw x / 65536

omit [DecidableEq σ] in
/-- There are no handles yet. -/
lemma Homes.init : Homes ({} : State σ χ ρ) :=
  ⟨fun _ => rfl, nofun, nofun, nofun, nofun, fun _ => rfl, fun _ => rfl, nofun, nofun⟩

omit [DecidableEq σ] in
/-- Handles are issued by no step but one and generations are raised by no step but one. -/
lemma Homes.frame (hm : Homes s)
    (slots : ∀ i, (u.slots i).gen = (s.slots i).gen ∧ (u.slots i).cancelled = (s.slots i).cancelled)
    (uses : u.uses = s.uses) (home : u.home = s.home) (raw : u.raw = s.raw) (hit : u.hit = s.hit)
    (live : ∀ z, (u.life z).live = (s.life z).live)
    (early : ∀ z, (u.life z).early = true → (s.life z).early = true)
    (cas : ∀ {c x st}, u.via c = .cas x st → s.raw x ≠ kNone.raw ∧ genOf st = s.raw x / 65536) : Homes u := by
  refine ⟨fun i => ?_, ?_, fun h => ?_, fun h => ?_, ?_, ?_, fun h => ?_, fun {i} h => ?_, fun h => ?_⟩
  · rw [(slots i).1, uses]
    exact hm.gen i
  · rw [home, uses, raw]
    exact hm.past
  · rw [home, uses] at h
    rw [live]
    exact hm.now h
  · rw [live] at h
    rw [home, uses]
    exact hm.live h
  · rw [home]
    exact hm.one
  · rw [home, raw]
    exact hm.unset
  · rw [home]
    exact hm.early (early _ h)
  · rw [(slots i).2] at h
    rw [home, uses, hit]
    exact hm.flag h
  · rw [raw]
    exact cas h

/-- One scope goes on, its handle issued or not as before. -/
lemma Homes.go {l : Life} (hm : Homes s)
    (slots : ∀ i, (u.slots i).gen = (s.slots i).gen ∧ (u.slots i).cancelled = (s.slots i).cancelled)
    (uses : u.uses = s.uses) (home : u.home = s.home) (raw : u.raw = s.raw) (hit : u.hit = s.hit)
    (via : u.via = s.via) (life : u.life = Function.update s.life x l) (live : l.live = (s.life x).live)
    (early : l.early = true → (s.life x).early = true) : Homes u := by
  refine hm.frame slots uses home raw hit (fun z => ?_) (fun z e => ?_) fun h => hm.cas (via ▸ h)
  · rw [life, Function.update_apply]
    split
    · rename_i e
      rw [e, live]
    · rfl
  · rw [life, Function.update_apply] at e
    split at e
    · rename_i e'
      rw [e']
      exact early e
    · exact e

omit [DecidableEq σ] in
/-- A parent is stored: nothing else of the slot changes. -/
lemma slots_of_parent {p : Nat} (j : Nat) :
    (Function.update s.slots i { s.slots i with parent := p } j).gen = (s.slots j).gen ∧
      (Function.update s.slots i { s.slots i with parent := p } j).cancelled = (s.slots j).cancelled := by
  rw [Function.update_apply]
  split
  · rename_i e
    rw [e]
    exact ⟨rfl, rfl⟩
  · exact ⟨rfl, rfl⟩

/-- The handle of a scope is issued, and no earlier one is the same in the same use of the slot. -/
lemma Homes.birth (hm : Homes s) (tb : Table s free) (hs : s.life x = .linked i) :
    Homes { s with
      life := Function.update s.life x (.alive i)
      raw := Function.update s.raw x (handle i (s.slots i).gen)
      home := Function.update s.home x (some (i, s.uses i)) } := by
  have mine : (s.life x).slot = some i := by rw [hs]; rfl
  -- a scope with the present use of the slot would have the slot
  have fresh : ∀ {z}, z ≠ x → s.home z ≠ some (i, s.uses i) := by
    intro z ne e
    exact ne (tb.owner (Life.slot_of_live (hm.now e)) mine)
  have unborn : s.home x = none := hm.early (by rw [hs]; rfl)
  refine ⟨hm.gen, fun {z j n} e => ?_, fun {z j} e => ?_, fun {z j} e => ?_, fun {y z p} e e' => ?_,
    fun {z} e => ?_, fun {z} e => ?_, fun {j} e => ?_, fun {c z st} e => ?_⟩
  all_goals simp only [Function.update_apply] at *
  · split at e
    · cases e
      rename_i eq
      refine ⟨Nat.le_refl _, tb.lt mine, ?_⟩
      rw [if_pos eq, hm.gen, handle_mod]
    · rename_i ne
      rw [if_neg ne]
      exact hm.past e
  · split at e
    · cases e
      rename_i eq
      rw [if_pos eq]
      rfl
    · rename_i ne
      rw [if_neg ne]
      exact hm.now e
  · split at e
    · cases e
      rename_i eq
      rw [if_pos eq]
    · rename_i ne
      rw [if_neg ne]
      exact hm.live e
  · split at e
    · rename_i eq
      split at e'
      · rename_i eq'
        rw [eq, eq']
      · rename_i ne
        cases e
        exact absurd e' (fresh ne)
    · rename_i ne
      split at e'
      · cases e'
        exact absurd e (fresh ne)
      · exact hm.one e e'
  · split at e
    · cases e
    · rename_i ne
      rw [if_neg ne]
      exact hm.unset e
  · split at e
    · cases e
    · rename_i ne
      rw [if_neg ne]
      exact hm.early e
  · obtain ⟨z, hz, hit⟩ := hm.flag e
    refine ⟨z, ?_, hit⟩
    split
    · rename_i eq
      rw [eq, unborn] at hz
      cases hz
    · exact hz
  · obtain ⟨ne, gen⟩ := hm.cas e
    have other : z ≠ x := by
      rintro rfl
      exact ne (hm.unset unborn)
    rw [if_neg other]
    exact ⟨ne, gen⟩

/-- The generation is raised, and no handle is of the new one. -/
lemma Homes.bump {st : Word} (hm : Homes s) (tb : Table s free) (hs : s.life x = .dying i st)
    (same : wordOf (s.slots i) = st) :
    Homes { s with
      slots := Function.update s.slots i { s.slots i with gen := (st.1 + 1) % 2 ^ 32, cancelled := false }
      uses := Function.update s.uses i (s.uses i + 1)
      life := Function.update s.life x (.bumped i) } := by
  have mine : (s.life x).slot = some i := by rw [hs]; rfl
  have only : ∀ {z}, (s.life z).live = some i → z = x := fun h => tb.owner (Life.slot_of_live h) mine
  refine ⟨fun j => ?_, fun {z j n} e => ?_, fun {z j} e => ?_, fun {z j} e => ?_, hm.one, hm.unset,
    fun {z} e => ?_, fun {j} e => ?_, hm.cas⟩
  all_goals simp only [Function.update_apply] at *
  · split
    · have gen : st.1 = s.uses i % 2 ^ 32 := by rw [← same, wordOf, hm.gen]
      simp only [gen]
      omega
    · exact hm.gen j
  · obtain ⟨le, rest⟩ := hm.past e
    refine ⟨?_, rest⟩
    split
    · rename_i eq
      rw [← eq]
      exact Nat.le_succ_of_le le
    · exact le
  · have le := (hm.past e).1
    split at e
    · rename_i eq
      rw [← eq, if_pos rfl] at le
      omega
    · rename_i ne
      have live := hm.now e
      have other : z ≠ x := by
        rintro rfl
        rw [hs] at live
        exact ne (Option.some.inj live).symm
      rw [if_neg other]
      exact live
  · split at e
    · cases e
    · rename_i other
      have ne : j ≠ i := by
        rintro rfl
        exact other (only e)
      rw [if_neg ne]
      exact hm.live e
  · split at e
    · cases e
    · exact hm.early e
  · split at e
    · cases e
    · rename_i ne
      rw [if_neg ne]
      exact hm.flag e

/-- The flag of a slot is set for the scope that has it. -/
lemma Homes.setCancelled (hm : Homes s) (here : s.home x = some (i, s.uses i)) : Homes (s.setCancelled i x) := by
  refine ⟨fun j => ?_, hm.past, hm.now, hm.live, hm.one, hm.unset, hm.early, fun {j} e => ?_, hm.cas⟩
  all_goals simp only [State.setCancelled, Function.update_apply] at *
  · split
    · rename_i eq
      rw [eq]
      exact hm.gen i
    · exact hm.gen j
  · split at e
    · rename_i eq
      rw [eq]
      exact ⟨x, here, if_pos rfl⟩
    · obtain ⟨z, hz, hit⟩ := hm.flag e
      refine ⟨z, hz, ?_⟩
      rw [hit, ite_self]

omit [DecidableEq σ] in
/-- A handle that has the generation of its slot, and is not too old, is of the scope that has the slot. -/
lemma Homes.current (hm : Homes s) (ne : s.raw x ≠ kNone.raw)
    (soon : ∀ i n, s.home x = some (i, n) → s.uses i < n + 65536)
    (gen : genOf (wordOf (s.slots (s.raw x % 65536))) = s.raw x / 65536) :
    s.home x = some (s.raw x % 65536, s.uses (s.raw x % 65536)) := by
  cases hx : s.home x with
  | none => exact absurd (hm.unset hx) ne
  | some p =>
    obtain ⟨i, n⟩ := p
    obtain ⟨le, lt, raw⟩ := hm.past hx
    have lt' := soon i n hx
    rw [raw, handle_index lt, handle_gen lt, wordOf, hm.gen, genOf_mod] at gen
    have eq : n = s.uses i := by omega
    rw [raw, handle_index lt, ← eq]

omit [DecidableEq σ] in
/-- What `CancelVia` has loaded is of the generation in its handle. -/
lemma viaLoaded_cas {z : σ} {st : Word} (h : s.viaLoaded x = .cas z st) :
    z = x ∧ genOf st = s.raw x / 65536 := by
  unfold State.viaLoaded at h
  dsimp only at h
  split at h
  · cases h
  · split at h
    · cases h
    · rename_i gen _
      cases h
      exact ⟨rfl, not_not.1 gen⟩

/-- A step within the bounds keeps the handles with their slots. -/
lemma Homes.step [DecidableEq χ] [DecidableEq ρ] (hm : Homes s) (tb : Table s free) (ok : Bounded s a)
    (st : Step s a u) : Homes u := by
  have same : ∀ i, (s.slots i).gen = (s.slots i).gen ∧ (s.slots i).cancelled = (s.slots i).cancelled :=
    fun _ => ⟨rfl, rfl⟩
  have quiet : ∀ {v : State σ χ ρ}, v.slots = s.slots → v.uses = s.uses → v.home = s.home → v.raw = s.raw →
      v.hit = s.hit → v.life = s.life → v.via = s.via → Homes v := by
    intro v slots uses home raw hit life via
    refine hm.frame (fun i => by rw [slots]; exact same i) uses home raw hit (fun z => by rw [life])
      (fun z => by rw [life]; exact id) fun h => hm.cas (via ▸ h)
  cases st with
  | @construct x p hs =>
    exact hm.go (x := x) same rfl rfl rfl rfl rfl rfl (by rw [hs]; rfl) (by rw [hs]; exact fun _ => rfl)
  | @exhausted x h n hs _ =>
    exact hm.go (x := x) same rfl rfl rfl rfl rfl rfl (by rw [hs]; rfl) (by rw [hs]; exact fun _ => rfl)
  | @next x h n hs _ =>
    exact hm.go (x := x) same rfl rfl rfl rfl rfl rfl (by rw [hs]; rfl) (by rw [hs]; exact fun _ => rfl)
  | @popFail x h n k hs =>
    exact hm.go (x := x) same rfl rfl rfl rfl rfl rfl (by rw [hs]; rfl) (by rw [hs]; exact fun _ => rfl)
  | @pop x h n k hs _ =>
    exact hm.go (x := x) same rfl rfl rfl rfl rfl rfl (by rw [hs]; rfl) (by rw [hs]; exact fun _ => rfl)
  | @resolve x i hs =>
    exact hm.go (x := x) same rfl rfl rfl rfl rfl rfl (by rw [hs]; rfl) (by rw [hs]; exact fun _ => rfl)
  | @link x i p hs =>
    exact hm.go (x := x) slots_of_parent rfl rfl rfl rfl rfl rfl (by rw [hs]; rfl)
      (by rw [hs]; exact fun _ => rfl)
  | birth hs => exact hm.birth tb hs
  | @cancel x i hs => exact hm.setCancelled (hm.live (by rw [hs]; rfl))
  | @destroyInvalid x hs => exact hm.go (x := x) same rfl rfl rfl rfl rfl rfl (by rw [hs]; rfl) nofun
  | @destroy x i hs => exact hm.go (x := x) same rfl rfl rfl rfl rfl rfl (by rw [hs]; rfl) nofun
  | @bumpFail x i st hs => exact hm.go (x := x) same rfl rfl rfl rfl rfl rfl (by rw [hs]; rfl) nofun
  | bump hs eq => exact hm.bump tb hs eq
  | @unlink x i hs => exact hm.go (x := x) slots_of_parent rfl rfl rfl rfl rfl rfl (by rw [hs]; rfl) nofun
  | @load x i hs => exact hm.go (x := x) same rfl rfl rfl rfl rfl rfl (by rw [hs]; rfl) nofun
  | @write x i h n hs => exact hm.go (x := x) same rfl rfl rfl rfl rfl rfl (by rw [hs]; rfl) nofun
  | @pushFail x i h n hs => exact hm.go (x := x) same rfl rfl rfl rfl rfl rfl (by rw [hs]; rfl) nofun
  | @push x i h n hs _ => exact hm.go (x := x) same rfl rfl rfl rfl rfl rfl (by rw [hs]; rfl) nofun
  | @viaNone c x _ _ =>
    refine hm.frame same rfl rfl rfl rfl (fun _ => rfl) (fun _ => id) fun {c' z st} h => ?_
    simp only [Function.update_apply] at h
    split at h
    · cases h
    · exact hm.cas h
  | @viaLoad c x _ ne _ =>
    refine hm.frame same rfl rfl rfl rfl (fun _ => rfl) (fun _ => id) fun {c' z st} h => ?_
    simp only [Function.update_apply] at h
    split at h
    · obtain ⟨rfl, gen⟩ := viaLoaded_cas h
      exact ⟨ne, gen⟩
    · exact hm.cas h
  | @viaFail c x st hs =>
    refine hm.frame same rfl rfl rfl rfl (fun _ => rfl) (fun _ => id) fun {c' z st'} h => ?_
    simp only [Function.update_apply] at h
    split at h
    · obtain ⟨rfl, gen⟩ := viaLoaded_cas h
      exact ⟨(hm.cas hs).1, gen⟩
    · exact hm.cas h
  | @viaSet c x st hs eq =>
    obtain ⟨ne, gen⟩ := hm.cas hs
    have hm' := hm.setCancelled (hm.current ne ok (eq ▸ gen))
    refine hm'.frame (fun _ => ⟨rfl, rfl⟩) rfl rfl rfl rfl (fun _ => rfl) (fun _ => id) fun {c' z st'} h => ?_
    simp only [Function.update_apply] at h
    split at h
    · cases h
    · exact hm.cas h
  | @viaReturn c x b _ =>
    refine hm.frame same rfl rfl rfl rfl (fun _ => rfl) (fun _ => id) fun {c' z st'} h => ?_
    simp only [Function.update_apply] at h
    split at h
    · cases h
    · exact hm.cas h
  | _ => exact quiet rfl rfl rfl rfl rfl rfl rfl

/-- What holds of the table in every state of a run. -/
structure Inv (s : State σ χ ρ) : Prop where
  table : ∃ free, Table s free
  loaded : Loaded s
  homes : Homes s

omit [DecidableEq σ] in
/-- It holds at first. -/
lemma Inv.init : Inv ({} : State σ χ ρ) :=
  ⟨⟨_, .init⟩, .init, .init⟩

variable [DecidableEq χ] [DecidableEq ρ]

/-- A step within the bounds keeps it. -/
lemma Inv.step (inv : Inv s) (ok : Bounded s a) (st : Step s a u) : Inv u := by
  obtain ⟨free, tb⟩ := inv.table
  exact ⟨tb.step inv.loaded ok st, inv.loaded.step tb st, inv.homes.step tb ok st⟩

/-- It holds in every state of a run within the bounds. -/
lemma inv_of_runs (rn : Runs Step Bounded ({} : State σ χ ρ) s) : Inv s :=
  rn.invariant .init fun inv ok st => inv.step ok st

/-- In every state of a run that meets the bounds: two scopes have different slots; the free list and the
scopes have exactly the slots of the table; a scope is born with its flag clear, and with a token that no
earlier scope was given fewer than 65536 uses of the slot before; and a step of `CancelVia` returns true or
writes to a slot only if the scope that issued the token has the slot in that step. -/
theorem scope_table_safe (rn : Runs Step Bounded ({} : State σ χ ρ) s) :
    (∀ x y i, (s.life x).slot = some i → (s.life y).slot = some i → x = y) ∧
    (∃ free : List Nat, SList s.link (idx s.head.index) free ∧ free.Nodup ∧
      (∀ i, i < kCancelSlots ↔ i ∈ free ∨ ∃ x, (s.life x).slot = some i) ∧
      ∀ i x, i ∈ free → (s.life x).slot ≠ some i) ∧
    (∀ x u, Step s (.birth x) u → ∃ i, (u.life x).live = some i ∧ (u.slots i).cancelled = false ∧
      u.raw x ≠ kNone.raw ∧ ∀ y j n, y ≠ x → s.home y = some (j, n) → u.raw y = u.raw x →
        j = i ∧ n + 65536 ≤ s.uses i) ∧
    ∀ c x u, Bounded s (.via c x) → Step s (.via c x) u →
      (u.via c = .done x true → ∃ i, (s.life x).live = some i) ∧
      ∀ j, u.slots j ≠ s.slots j → (s.life x).live = some j := by
  obtain ⟨⟨free, tb⟩, ld, hm⟩ := inv_of_runs rn
  refine ⟨fun x y i hx hy => tb.owner hx hy, ⟨free, tb.list, tb.custody.nodup .free, fun i => ?_, ?_⟩, ?_, ?_⟩
  · rw [← tb.all i]
    constructor
    · rintro ⟨q, hq⟩
      cases q with
      | free => exact .inl hq
      | scope x =>
        right
        refine ⟨x, ?_⟩
        exact Option.mem_toList.1 hq
    · rintro (h | ⟨x, h⟩)
      · exact ⟨.free, h⟩
      · exact ⟨.scope x, Option.mem_toList.2 h⟩
  · intro i x hi hx
    exact tb.not_free hx hi
  · intro x u st
    cases st with
    | @birth _ i hs =>
      have mine : (s.life x).slot = some i := by rw [hs]; rfl
      have lt := tb.lt mine
      refine ⟨i, by simp only [Function.update_self]; rfl, ?_, ?_, fun y j n ne hy eq => ?_⟩
      · apply Bool.eq_false_iff.2
        intro flag
        obtain ⟨y, hy, _⟩ := hm.flag flag
        have live := hm.now hy
        rw [tb.owner (Life.slot_of_live live) mine, hs] at live
        cases live
      · simp only [Function.update_self]
        exact handle_ne_none lt
      · simp only [Function.update_self, Function.update_of_ne ne] at eq
        obtain ⟨le, lt', raw⟩ := hm.past hy
        rw [raw, hm.gen, handle_mod] at eq
        have index := congrArg (· % 65536) eq
        have gen := congrArg (· / 65536) eq
        simp only [handle_index lt, handle_index lt', handle_gen lt, handle_gen lt'] at index gen
        subst index
        refine ⟨rfl, ?_⟩
        have older : n ≠ s.uses j := by
          rintro rfl
          exact ne (tb.owner (Life.slot_of_live (hm.now hy)) mine)
        omega
  · intro c x u ok st
    have loaded : s.raw x ≠ kNone.raw → s.viaLoaded x = .done x true → ∃ i, (s.life x).live = some i := by
      intro ne h
      unfold State.viaLoaded at h
      dsimp only at h
      split at h
      · cases h
      · rename_i gen
        exact ⟨_, hm.now (hm.current ne ok (not_not.1 gen))⟩
    cases st with
    | viaNone _ _ =>
      refine ⟨fun h => ?_, fun j ne => absurd rfl ne⟩
      simp only [Function.update_self] at h
      cases h
    | viaLoad _ ne _ =>
      refine ⟨fun h => ?_, fun j ne => absurd rfl ne⟩
      simp only [Function.update_self] at h
      exact loaded ne h
    | viaFail hs =>
      refine ⟨fun h => ?_, fun j ne => absurd rfl ne⟩
      simp only [Function.update_self] at h
      exact loaded (hm.cas hs).1 h
    | viaSet hs eq =>
      obtain ⟨ne, gen⟩ := hm.cas hs
      have live := hm.now (hm.current ne ok (eq ▸ gen))
      refine ⟨fun _ => ⟨_, live⟩, fun j changed => ?_⟩
      have here : j = s.raw x % 65536 := by
        by_contra other
        apply changed
        simp only [State.setCancelled, Function.update_of_ne other]
      rw [here]
      exact live
    | viaReturn _ =>
      refine ⟨fun h => ?_, fun j ne => absurd rfl ne⟩
      simp only [Function.update_self] at h
      cases h

/-- Scope 0 ends and scope 1 gets its slot: the tokens differ, and `CancelVia` with that of scope 0 does not
write to the slot. -/
theorem scope_table_safe_reuse :
    ∃ s : State Nat Unit Unit, Runs Step Bounded {} s ∧ s.life 1 = .alive 0 ∧ s.raw 0 = handle 0 0 ∧
      s.raw 1 = handle 0 1 ∧ ∀ u, Step s (.via () 0) u → ∀ j, u.slots j = s.slots j := by
  have r : Runs Step Bounded ({} : State Nat Unit Unit) _ := .refl
  have r1 := r.next (.construct 0 none) trivial (.construct rfl)
  have r2 := r1.next (.acquire 0) (by rintro _ _ _ ⟨⟩) (.next rfl (by decide))
  have r3 := r2.next (.acquire 0) (by rintro _ _ _ ⟨⟩; decide) (.pop rfl rfl)
  have r4 := r3.next (.link 0) trivial (.resolve rfl)
  have r5 := r4.next (.link 0) trivial (.link rfl)
  have r6 := r5.next (.birth 0) trivial (.birth rfl)
  have r7 := r6.next (.destroy 0) trivial (.destroy rfl)
  have r8 := r7.next (.destroy 0) trivial (.bump rfl rfl)
  have r9 := r8.next (.destroy 0) trivial (.unlink rfl)
  have r10 := r9.next (.release 0) (by rintro _ _ _ ⟨⟩) (.load rfl)
  have r11 := r10.next (.release 0) (by rintro _ _ _ ⟨⟩) (.write rfl)
  have r12 := r11.next (.release 0) (by rintro _ _ _ ⟨⟩; decide) (.push rfl rfl)
  have r13 := r12.next (.construct 1 none) trivial (.construct rfl)
  have r14 := r13.next (.acquire 1) (by rintro _ _ _ ⟨⟩) (.next rfl (by decide))
  have r15 := r14.next (.acquire 1) (by rintro _ _ _ ⟨⟩; decide) (.pop rfl rfl)
  have r16 := r15.next (.link 1) trivial (.resolve rfl)
  have r17 := r16.next (.link 1) trivial (.link rfl)
  have r18 := r17.next (.birth 1) trivial (.birth rfl)
  refine ⟨_, r18, rfl, rfl, rfl, fun u st j => ?_⟩
  by_contra changed
  have live := ((scope_table_safe r18).2.2.2 () 0 u (by rintro _ _ ⟨⟩; decide) st).2 j changed
  cases live

end JLib.Scopes
