import JLib.Links.Chain
import JLib.Primitives.Model

/-!
# What the drain loop calls into

The chain is at all times a doubly linked list of the primitives that were registered, have not left and were not
drained. Its members have not begun to be destroyed, so that the one the drain loop unlinks is alive then; the call
comes after the mutex was released.
-/

namespace JLib.Primitives
open LTS Links

variable {ν : Type} [DecidableEq ν] {s s' : State ν} {a : Label ν} {l front back : List ν} {p k : ν}
  {f g : ν → Option ν} {q v : Option ν}

/-- A store changes one link. -/
lemma store_apply : store f q v k = if q = some k then v else f k := by
  cases q with
  | none => rfl
  | some j =>
    rw [store, Function.update_apply]
    by_cases e : k = j
    · rw [if_pos e, if_pos (by rw [e])]
    · rw [if_neg e, if_neg fun e' => e (Option.some.inj e').symm]

/-! ## The chain -/

/-- The chain holds the list, and who is not in it has no links. -/
structure Chain (s : State ν) (l : List ν) : Prop where
  spelled : DList s.prevPrimitive s.nextPrimitive none s.primitivesHead l
  nodup : l.Nodup
  off : ∀ {k}, k ∉ l → s.nextPrimitive k = none ∧ s.prevPrimitive k = none

namespace Chain

omit [DecidableEq ν] in
/-- The head is the first of the chain. -/
lemma head_eq (ch : Chain s l) : s.primitivesHead = l.head? := ch.spelled.start_eq

/-- The test of `LeaveRegistry` finds out whether a primitive is linked. -/
lemma linked_iff (ch : Chain s l) :
    p ∈ l ↔ ¬(s.nextPrimitive p = none ∧ s.prevPrimitive p = none ∧ s.primitivesHead ≠ some p) := by
  constructor
  · rintro mem ⟨-, prev, head⟩
    obtain ⟨front, back, rfl⟩ := List.append_of_mem mem
    have before := ch.spelled.prev_eq
    cases front with
    | nil => exact head ch.head_eq
    | cons j front =>
      rw [prev, if_neg (List.cons_ne_nil j front)] at before
      exact absurd before.symm (List.getLast?_eq_none_iff.not.2 (List.cons_ne_nil j front))
  · intro not
    by_contra out
    obtain ⟨next, prev⟩ := ch.off out
    refine not ⟨next, prev, fun head => ?_⟩
    rw [ch.head_eq] at head
    exact out (List.mem_of_head? head)

/-- A primitive is put at the front. -/
lemma enter (ch : Chain s l) (out : p ∉ l) : Chain (s.enter p) (p :: l) := by
  refine ⟨?_, List.nodup_cons.2 ⟨out, ch.nodup⟩, fun {k} off => ?_⟩
  · apply ch.spelled.pushFront ch.nodup
    · refine (store_apply.trans (if_neg ?_)).trans (ch.off out).2
      rw [ch.head_eq]
      exact fun head => out (List.mem_of_head? head)
    · exact Function.update_self ..
    · intro k mem
      exact store_apply
    · rintro k mem
      refine Function.update_of_ne ?_ _ _
      rintro rfl
      exact out mem
  · obtain ⟨ne, out'⟩ := not_or.1 (List.mem_cons.not.1 off)
    obtain ⟨next, prev⟩ := ch.off out'
    constructor
    · exact (Function.update_of_ne ne _ _).trans next
    · refine (store_apply.trans (if_neg ?_)).trans prev
      rw [ch.head_eq]
      exact fun head => out' (List.mem_of_head? head)

/-- A primitive in the chain is taken out, whoever writes the links. -/
lemma unlink (ch : Chain s (front ++ p :: back))
    (head : s'.primitivesHead = if front = [] then s.nextPrimitive p else s.primitivesHead)
    (next : s'.nextPrimitive =
      Function.update (store s.nextPrimitive (s.prevPrimitive p) (s.nextPrimitive p)) p none)
    (prev : s'.prevPrimitive =
      Function.update (store s.prevPrimitive (s.nextPrimitive p) (s.prevPrimitive p)) p none) :
    Chain s' (front ++ back) := by
  have nd := List.nodup_middle.1 ch.nodup
  have here : p ∉ front ++ back := (List.nodup_cons.1 nd).1
  have ne : ∀ {k}, k ∈ front ++ back → k ≠ p := by
    rintro k mem rfl
    exact here mem
  refine ⟨?_, (List.nodup_cons.1 nd).2, fun {k} off => ?_⟩
  · rw [head]
    apply ch.spelled.remove ch.nodup
    · rintro k - ⟨⟩
    · intro k mem
      rw [next, Function.update_of_ne (ne mem)]
      exact store_apply
    · intro k mem
      rw [prev, Function.update_of_ne (ne mem)]
      exact store_apply
  · rw [next, prev]
    by_cases e : k = p
    · rw [e, Function.update_self, Function.update_self]
      exact ⟨rfl, rfl⟩
    · have out : k ∉ front ++ p :: back := by
        rw [List.mem_append, List.mem_cons]
        rw [List.mem_append] at off
        rintro (mem | rfl | mem)
        · exact off (.inl mem)
        · exact e rfl
        · exact off (.inr mem)
      -- the neighbours are in the chain, and `k` is not
      have next_ne : s.nextPrimitive p ≠ some k := by
        rw [ch.spelled.next_eq]
        intro head
        refine out (List.mem_append_right _ (List.mem_cons_of_mem _ ?_))
        exact List.mem_of_head? head
      have prev_ne : s.prevPrimitive p ≠ some k := by
        rw [ch.spelled.prev_eq]
        split
        · rintro ⟨⟩
        · intro last
          exact out (List.mem_append_left _ (List.mem_of_getLast? last))
      rw [Function.update_of_ne e, Function.update_of_ne e, store_apply, store_apply, if_neg next_ne, if_neg prev_ne]
      exact ch.off out

/-- Leaving takes one out of the chain. -/
lemma LeaveRegistry (ch : Chain s (front ++ p :: back)) (init : s.initialized = true) :
    Chain (s.LeaveRegistry p) (front ++ back) := by
  have mem : p ∈ front ++ p :: back := List.mem_append_right _ List.mem_cons_self
  have prev := ch.spelled.prev_eq
  have on : ¬s.initialized = false := by
    rw [init]
    exact Bool.noConfusion
  rw [State.LeaveRegistry, if_neg on, if_neg (ch.linked_iff.1 mem)]
  refine ch.unlink ?_ rfl rfl
  cases front with
  | nil =>
    have head : s.primitivesHead = some p := ch.head_eq
    simp [prev, head]
  | cons j front =>
    rw [if_neg (List.cons_ne_nil j front)] at prev
    change (if _ then _ else _) = _
    rw [if_neg (List.cons_ne_nil j front), if_pos]
    rw [prev, List.getLast?_isSome]
    exact List.cons_ne_nil j front

/-- Who is not in the chain leaves it as it is. -/
lemma LeaveRegistry_off (ch : Chain s l) (out : p ∉ l) : s.LeaveRegistry p = s := by
  rw [State.LeaveRegistry]
  split
  · rfl
  · exact if_pos (not_not.1 (ch.linked_iff.not.1 out))

/-- A pop takes the first off the chain. -/
lemma pop (ch : Chain s (p :: back)) : Chain (s.pop p) back := by
  have ch : Chain s ([] ++ p :: back) := ch
  have prev : s.prevPrimitive p = none := ch.spelled.prev_eq
  refine ch.unlink rfl ?_ ?_
  · rw [prev]
    rfl
  · rw [prev]
    rfl

omit [DecidableEq ν] in
/-- The chain is in the head and the links. -/
lemma congr (ch : Chain s l) (head : s'.primitivesHead = s.primitivesHead)
    (next : s'.nextPrimitive = s.nextPrimitive) (prev : s'.prevPrimitive = s.prevPrimitive) : Chain s' l := by
  obtain ⟨spelled, nodup, off⟩ := ch
  rw [← head, ← next, ← prev] at spelled
  rw [← next, ← prev] at off
  exact ⟨spelled, nodup, off⟩

end Chain

/-- What leaving does not touch. -/
lemma State.LeaveRegistry_fields (s : State ν) (p : ν) :
    (s.LeaveRegistry p).initialized = s.initialized ∧ (s.LeaveRegistry p).life = s.life ∧
      (s.LeaveRegistry p).drained = s.drained ∧ (s.LeaveRegistry p).join = s.join := by
  rw [State.LeaveRegistry]
  split
  · exact ⟨rfl, rfl, rfl, rfl⟩
  · split <;> exact ⟨rfl, rfl, rfl, rfl⟩

/-! ## The invariant -/

/-- What the registry is to hold. -/
def State.member (s : State ν) (p : ν) : Prop := s.life p = .registered ∧ s.drained p = false

structure Sound (s : State ν) : Prop where
  chain : ∃ l, Chain s l ∧ ∀ p, p ∈ l ↔ s.member p
  init : ∀ {p}, s.life p = .registered → s.initialized = true
  born : ∀ {p}, s.drained p = true → s.life p ≠ .unborn
  unlinked : ∀ {p}, s.join = .unlinked p → s.drained p = true

namespace Sound

omit [DecidableEq ν] in
/-- The registry is empty. -/
lemma initial : Sound ({} : State ν) := by
  refine ⟨⟨[], ⟨.nil, List.nodup_nil, fun _ => ⟨rfl, rfl⟩⟩, fun p => ?_⟩, ?_, ?_, ?_⟩
  · constructor
    · rintro ⟨⟩
    · rintro ⟨⟨⟩, -⟩
  · rintro p ⟨⟩
  · rintro p ⟨⟩
  · rintro p ⟨⟩

/-- The fields other than the life of one primitive do not change. -/
lemma live (snd : Sound s) {x : Life} (chain : ∃ l, Chain s' l ∧ ∀ k, k ∈ l ↔ (s'.setLife p x).member k)
    (init : s'.initialized = s.initialized) (life : s'.life = s.life) (drained : s'.drained = s.drained)
    (join : s'.join = s.join) (on : x = .registered → s.initialized = true) (born : x ≠ .unborn) :
    Sound (s'.setLife p x) := by
  obtain ⟨l, ch, mem⟩ := chain
  refine ⟨⟨l, ch.congr rfl rfl rfl, mem⟩, fun {k} reg => ?_, fun {k} dr => ?_, fun {k} at_k => ?_⟩
  · change Function.update s'.life p x k = .registered at reg
    change s'.initialized = true
    rw [init]
    rw [Function.update_apply, life] at reg
    split at reg
    · exact on reg
    · exact snd.init reg
  · change s'.drained k = true at dr
    change Function.update s'.life p x k ≠ .unborn
    rw [drained] at dr
    rw [Function.update_apply, life]
    split
    · exact born
    · exact snd.born dr
  · change s'.join = .unlinked k at at_k
    change s'.drained k = true
    rw [join] at at_k
    rw [drained]
    exact snd.unlinked at_k

omit [DecidableEq ν] in
/-- Only the drain loop goes on. -/
lemma loop (snd : Sound s) {j : Join ν} (next : ∀ p, j = .unlinked p → s.drained p = true) :
    Sound { s with join := j } := by
  obtain ⟨l, ch, mem⟩ := snd.chain
  exact ⟨⟨l, ch.congr rfl rfl rfl, mem⟩, snd.init, snd.born, fun {p} => next p⟩

/-- The others stay members. -/
lemma member_setLife {x : Life} (other : k ≠ p) : (s.setLife p x).member k ↔ s.member k := by
  change Function.update s.life p x k = .registered ∧ s.drained k = false ↔ _
  rw [Function.update_of_ne other]
  exact Iff.rfl

/-- Who is not registered is no member. -/
lemma not_member_setLife {x : Life} (x_ne : x ≠ .registered) : ¬(s.setLife p x).member p := by
  rintro ⟨reg, -⟩
  change Function.update s.life p x p = .registered at reg
  rw [Function.update_self] at reg
  exact x_ne reg

/-- A primitive leaves the registry, whether it was in it or not. -/
lemma leave (snd : Sound s) {x : Life} (x_ne : x ≠ .registered) (born : x ≠ .unborn) :
    Sound ((s.LeaveRegistry p).setLife p x) := by
  obtain ⟨l, ch, mem⟩ := snd.chain
  by_cases here : p ∈ l
  · have on := snd.init ((mem p).1 here).1
    obtain ⟨front, back, rfl⟩ := List.append_of_mem here
    have out := (List.nodup_cons.1 (List.nodup_middle.1 ch.nodup)).1
    obtain ⟨init, life, drained, join⟩ := s.LeaveRegistry_fields p
    refine snd.live ⟨front ++ back, ch.LeaveRegistry on, fun k => ?_⟩ init life drained join
      (fun e => absurd e x_ne) born
    by_cases e : k = p
    · subst e
      exact ⟨fun mem => absurd mem out, fun mem => absurd mem (not_member_setLife x_ne)⟩
    · rw [member_setLife e, State.member, life, drained, ← State.member, ← mem k]
      simp [e]
  · rw [ch.LeaveRegistry_off here]
    refine snd.live ⟨l, ch, fun k => ?_⟩ rfl rfl rfl rfl (fun e => absurd e x_ne) born
    by_cases e : k = p
    · subst e
      exact ⟨fun mem => absurd mem here, fun mem => absurd mem (not_member_setLife x_ne)⟩
    · rw [member_setLife e]
      exact mem k

/-- A step keeps the registry. -/
lemma step (snd : Sound s) (st : Step s a s') : Sound s' := by
  cases st with
  | Init off =>
    obtain ⟨l, ch, mem⟩ := snd.chain
    exact ⟨⟨l, ch.congr rfl rfl rfl, mem⟩, fun _ => rfl, snd.born, snd.unlinked⟩
  | @construct p unborn on =>
    obtain ⟨l, ch, mem⟩ := snd.chain
    have out : p ∉ l := by
      rw [mem p]
      rintro ⟨reg, -⟩
      rw [unborn] at reg
      cases reg
    have fresh : s.drained p = false := by
      apply Bool.eq_false_iff.2
      intro dr
      exact snd.born dr unborn
    refine snd.live ⟨p :: l, ch.enter out, fun k => ?_⟩ rfl rfl rfl rfl (fun _ => on) (by rintro ⟨⟩)
    by_cases e : k = p
    · subst e
      exact ⟨fun _ => ⟨Function.update_self .., fresh⟩, fun _ => List.mem_cons_self⟩
    · rw [member_setLife e, List.mem_cons, or_iff_right e]
      exact mem k
  | @constructEarly p unborn off =>
    obtain ⟨l, ch, mem⟩ := snd.chain
    refine snd.live ⟨l, ch, fun k => ?_⟩ rfl rfl rfl rfl (by rintro ⟨⟩) (by rintro ⟨⟩)
    by_cases e : k = p
    · subst e
      refine ⟨fun here => ?_, fun mem => absurd mem (not_member_setLife (by rintro ⟨⟩))⟩
      have reg := ((mem k).1 here).1
      rw [unborn] at reg
      cases reg
    · rw [member_setLife e]
      exact mem k
  | destroy => exact snd.leave (by rintro ⟨⟩) (by rintro ⟨⟩)
  | destroyed => exact snd.leave (by rintro ⟨⟩) (by rintro ⟨⟩)
  | Join => exact snd.loop (by rintro p ⟨⟩)
  | @pop p at_loop head =>
    obtain ⟨l, ch, mem⟩ := snd.chain
    cases l with
    | nil =>
      rw [ch.head_eq] at head
      cases head
    | cons j back =>
      rw [ch.head_eq] at head
      cases head
      have out := (List.nodup_cons.1 ch.nodup).1
      have reg := ((mem p).1 List.mem_cons_self).1
      refine ⟨⟨back, ch.pop, fun k => ?_⟩, snd.init, fun {k} dr => ?_, ?_⟩
      · by_cases e : k = p
        · subst e
          refine ⟨fun here => absurd here out, ?_⟩
          rintro ⟨-, dr⟩
          change Function.update s.drained k true k = false at dr
          rw [Function.update_self] at dr
          cases dr
        · have same : (s.pop p).member k ↔ s.member k := by
            change s.life k = .registered ∧ Function.update s.drained p true k = false ↔ _
            rw [Function.update_of_ne e]
            exact Iff.rfl
          rw [same, ← mem k, List.mem_cons, or_iff_right e]
      · change Function.update s.drained p true k = true at dr
        rw [Function.update_apply] at dr
        split at dr
        · rename_i e
          change s.life k ≠ .unborn
          rw [e, reg]
          rintro ⟨⟩
        · exact snd.born dr
      · rintro k ⟨⟩
        exact Function.update_self ..
  | empty => exact snd.loop (by rintro p ⟨⟩)
  | DrainForShutdown => exact snd.loop (by rintro p ⟨⟩)
  | drained => exact snd.loop (by rintro p ⟨⟩)

/-- The account holds in every state of a run. -/
lemma of_runs {ok : State ν → Label ν → Prop} (rn : Runs Step ok {} s) : Sound s :=
  rn.invariant initial fun snd _ st => snd.step st

end Sound

/-! ## Calls of the drain loop -/

/-- No destructor ends between the unlinking of its object and the call. -/
def Kept (s : State ν) : Label ν → Prop
  | .destroyed p => s.join ≠ .unlinked p
  | _ => True

/-- The primitive that the drain loop is about to call into. -/
def State.Ahead (s : State ν) : Prop := ∀ p, s.join = .unlinked p → s.life p ≠ .destroyed

/-- The one ahead stays alive unless it is destroyed itself. -/
lemma State.Ahead.setLife (ahead : s.Ahead) (join : s'.join = s.join) (life : s'.life = s.life) {x : Life}
    (still : x = .destroyed → s.join ≠ .unlinked p) : (s'.setLife p x).Ahead := by
  intro k at_k
  change s'.join = .unlinked k at at_k
  change Function.update s'.life p x k ≠ .destroyed
  rw [join] at at_k
  rw [life, Function.update_apply]
  split
  · rename_i e
    subst e
    exact fun dead => still dead at_k
  · exact ahead k at_k

/-- A step under the condition keeps the one ahead alive. -/
lemma ahead_step (snd : Sound s) (ahead : s.Ahead) (kept : Kept s a) (st : Step s a s') : s'.Ahead := by
  cases st with
  | Init off => exact ahead
  | construct => exact ahead.setLife rfl rfl (by rintro ⟨⟩)
  | constructEarly => exact ahead.setLife rfl rfl (by rintro ⟨⟩)
  | @destroy p =>
    obtain ⟨-, life, -, join⟩ := s.LeaveRegistry_fields p
    exact ahead.setLife join life (by rintro ⟨⟩)
  | @destroyed p =>
    obtain ⟨-, life, -, join⟩ := s.LeaveRegistry_fields p
    exact ahead.setLife join life fun _ => kept
  | Join => rintro k ⟨⟩
  | @pop p at_loop head =>
    obtain ⟨l, ch, mem⟩ := snd.chain
    rintro k ⟨⟩
    have here : p ∈ l := by
      rw [ch.head_eq] at head
      exact List.mem_of_head? head
    change s.life p ≠ .destroyed
    rw [((mem p).1 here).1]
    rintro ⟨⟩
  | empty => rintro k ⟨⟩
  | DrainForShutdown => rintro k ⟨⟩
  | drained => rintro k ⟨⟩

/-- The registry is at all times a doubly linked list of the primitives that were registered, have not left and were
not drained. If no destructor ends between the unlinking of its object and the call of `DrainForShutdown`, the call
is never on an object that was destroyed; where one does, the next step of the loop is such a call. -/
theorem drain_alive :
    (∀ s, Reaches Step ({} : State ν) s →
      ∃ l, DList s.prevPrimitive s.nextPrimitive none s.primitivesHead l ∧ l.Nodup ∧
        ∀ p, p ∈ l ↔ s.life p = .registered ∧ s.drained p = false) ∧
    ∀ s, Runs Step Kept ({} : State ν) s →
      (∀ p s', Step s (.DrainForShutdown p) s' → s.life p ≠ .destroyed) ∧
      ∀ p s', s.join = .unlinked p → Step s (.destroyed p) s' →
        ∃ s'', Step s' (.DrainForShutdown p) s'' ∧ s'.life p = .destroyed := by
  constructor
  · intro s rn
    obtain ⟨l, ch, mem⟩ := (Sound.of_runs rn).chain
    exact ⟨l, ch.spelled, ch.nodup, mem⟩
  · intro s rn
    have both : Sound s ∧ s.Ahead := by
      refine rn.invariant (I := fun s => Sound s ∧ s.Ahead) ⟨.initial, ?_⟩ fun ⟨snd, ahead⟩ kept st => ?_
      · rintro k ⟨⟩
      · exact ⟨snd.step st, ahead_step snd ahead kept st⟩
    refine ⟨fun p s' st => ?_, fun p s' at_p st => ?_⟩
    · cases st with
      | DrainForShutdown at_p => exact both.2 p at_p
    · cases st with
      | destroyed =>
        obtain ⟨-, -, -, join⟩ := s.LeaveRegistry_fields p
        exact ⟨_, .DrainForShutdown (join.trans at_p), Function.update_self ..⟩

/-- Of two primitives one leaves before the loop starts and one is drained while its destructor has begun. -/
theorem drain_alive_two : ∃ s : State Bool, Runs Step Kept {} s ∧ s.join = .unlinked true ∧
    s.life true = .destroying ∧ ∀ p s', Step s (.DrainForShutdown p) s' → s.life p ≠ .destroyed := by
  have r : Runs Step Kept ({} : State Bool) {} := .refl
  have r := r.next .Init trivial (.Init rfl)
  have r := r.next (.construct false) trivial (.construct rfl rfl)
  have r := r.next (.construct true) trivial (.construct rfl rfl)
  have r := r.next (.destroy false) trivial (.destroy (.inl rfl))
  have r := r.next (.destroyed false) (by rintro ⟨⟩) (.destroyed rfl)
  have r := r.next .Join trivial (.Join rfl rfl)
  have r := r.next .pop trivial (.pop rfl rfl)
  have r := r.next (.destroy true) trivial (.destroy (.inl rfl))
  exact ⟨_, r, rfl, rfl, (drain_alive.2 _ r).1⟩

/-- The loop unlinks a primitive and releases the mutex; its owner destroys it, which finds it unlinked; the loop
calls into it. -/
theorem drained_dead : ∃ s s' : State Unit, Reaches Step {} s ∧ s.life () = .destroyed ∧
    Step s (.DrainForShutdown ()) s' := by
  have r : Reaches Step ({} : State Unit) {} := .refl
  have r := r.next .Init trivial (.Init rfl)
  have r := r.next (.construct ()) trivial (.construct rfl rfl)
  have r := r.next .Join trivial (.Join rfl rfl)
  have r := r.next .pop trivial (.pop rfl rfl)
  have r := r.next (.destroy ()) trivial (.destroy (.inl rfl))
  have r := r.next (.destroyed ()) trivial (.destroyed rfl)
  exact ⟨_, _, r, rfl, .DrainForShutdown rfl⟩

end JLib.Primitives
