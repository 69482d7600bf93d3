import JLib.Links.Spelled
import JLib.Registry.Model

/-!
# Where the fibers are

A fiber in cleanup is linked in the chain of one holder, or in the list that a thread has taken and walks, or it
is the one fiber that a thread has in hand; the links spell these lists.
-/

namespace JLib.Registry
open LTS Links

variable {φ θ δ : Type} [DecidableEq θ] {size : Nat} {s s' : State φ θ δ} {l : Label φ θ δ}
  {t : θ} {f : φ}

namespace Pc

/-- The fiber the thread has in hand. -/
def hand : Pc φ → Option φ
  | idle => none
  | walk _ _ => none
  | discharge _ f _ => some f
  | advance f _ => some f
  | deliver _ f _ => some f
  | link _ f _ _ => some f
  | cas _ f _ _ => some f
  | restore _ f _ => some f
  | recycle f _ => some f
  | returned f _ => some f

def backTo : Pc φ → Back φ
  | idle => none
  | walk h p => some (h, p)
  | discharge h _ nxt => some (h, nxt)
  | advance _ k => k
  | deliver _ _ k => k
  | link _ _ _ k => k
  | cas _ _ _ k => k
  | restore _ _ k => k
  | recycle _ k => k
  | returned _ k => k

/-- What is left of the list the thread walks. -/
def rest (c : Pc φ) : Option φ := c.backTo.bind (·.2)

/-- The link of the fiber is what the exchange expects. -/
def Linked (next : φ → Option φ) : Pc φ → Prop
  | cas _ f head _ => next f = head
  | _ => True

/-- Links other than that of the fiber do not matter. -/
lemma Linked.frame {next next' : φ → Option φ} {c : Pc φ} (lk : c.Linked next)
    (same : ∀ f, c.hand = some f → next' f = next f) : c.Linked next' := by
  cases c with
  | cas h f head k => exact (same f rfl).trans lk
  | _ => trivial

/-- A thread that is back has nothing to link. -/
lemma linked_back (next : φ → Option φ) (k : Back φ) : (back k).Linked next := by
  cases k <;> trivial

/-- A thread that is back has nothing in hand. -/
@[simp] lemma hand_back (k : Back φ) : (back k).hand = none := by
  cases k <;> rfl

/-- A thread that is back goes on where it was called. -/
@[simp] lemma backTo_back (k : Back φ) : (back k).backTo = k := by
  cases k <;> rfl

end Pc

/-- The links spell the chains and the lists in hand. -/
structure Chained (s : State φ θ δ) : Prop where
  chain : ∀ h, Spells s.cleanupNext s.place (s.inbound h) (.chain h)
  list : ∀ t, Spells s.cleanupNext s.place (s.thread t).rest (.list t)
  hand : ∀ t f, (s.thread t).hand = some f ↔ s.place f = .hand t
  linked : ∀ t, (s.thread t).Linked s.cleanupNext
  pool : ∀ f, s.pool f = if s.place f = .pool then 1 else 0

/-- The place is one of the lists. -/
def Place.Listed : Place θ → Prop
  | list _ => True
  | chain _ => True
  | _ => False

/-- Thread `t`, at `c`, has the fiber in hand, or has none and nobody has the fiber, which is at `q`. -/
def Has (c : Pc φ) (q : Place θ) (t : θ) (f : φ) : Prop :=
  c.hand = some f ∧ q = .hand t ∨ c.hand = none ∧ ∀ t', q ≠ .hand t'

omit [DecidableEq θ] in
/-- Who has the fiber is read off its place. -/
lemma Has.iff {c : Pc φ} {q : Place θ} (hs : Has c q t f) (t' : θ) : q = .hand t' ↔ t' = t ∧ c.hand = some f := by
  rcases hs with ⟨hc, rfl⟩ | ⟨hc, no⟩
  · constructor
    · intro e
      cases e
      exact ⟨rfl, hc⟩
    · rintro ⟨rfl, -⟩
      rfl
  · constructor
    · intro e
      exact absurd e (no t')
    · rintro ⟨-, h⟩
      rw [hc] at h
      cases h

omit [DecidableEq θ] in
/-- The thread has this fiber in hand and no other. -/
lemma Has.eq {c : Pc φ} {q : Place θ} {f' : φ} (hs : Has c q t f) (h : c.hand = some f') : f' = f := by
  rcases hs with ⟨hc, -⟩ | ⟨hc, -⟩
  · rw [hc] at h
    exact (Option.some.inj h).symm
  · rw [hc] at h
    cases h

variable [DecidableEq φ]

namespace Chained

omit [DecidableEq φ] in
/-- What is in hand is placed there. -/
lemma has (ch : Chained s) (h : (s.thread t).hand = some f) : Has (s.thread t) (s.place f) t f :=
  .inl ⟨h, (ch.hand t f).1 h⟩

/-- What the step does to the fiber it is about and to the thread that does it. -/
lemma hand_update {c : Pc φ} {q : Place θ} (ch : Chained s) (before : Has (s.thread t) (s.place f) t f)
    (after : Has c q t f) (t' : θ) (f' : φ) :
    (Function.update s.thread t c t').hand = some f' ↔ Function.update s.place f q f' = .hand t' := by
  rw [Function.update_apply, Function.update_apply]
  by_cases ef : f' = f
  · subst ef
    rw [if_pos rfl, after.iff t']
    split
    · rename_i e
      exact ⟨fun h => ⟨e, h⟩, fun h => h.2⟩
    · rename_i e
      exact ⟨fun h => absurd ((before.iff t').1 ((ch.hand t' f').1 h)).1 e, fun h => absurd h.1 e⟩
  · rw [if_neg ef]
    split
    · rename_i e
      subst e
      exact ⟨fun h => absurd (after.eq h) ef, fun h => absurd (before.eq ((ch.hand t' f').2 h)) ef⟩
    · exact ch.hand t' f'

/-- Nobody else has the fiber whose link is written. -/
lemma linked_update {c : Pc φ} {x : Option φ} (ch : Chained s) (before : Has (s.thread t) (s.place f) t f)
    (after : c.Linked (Function.update s.cleanupNext f x)) (t' : θ) :
    (Function.update s.thread t c t').Linked (Function.update s.cleanupNext f x) := by
  rw [Function.update_apply]
  split
  · exact after
  · rename_i e
    refine (ch.linked t').frame fun f' h => Function.update_of_ne ?_ ..
    rintro rfl
    exact e ((before.iff t').1 ((ch.hand t' f').1 h)).1

omit [DecidableEq φ] in
/-- The walk of every thread is where it was. -/
lemma rest_update {c : Pc φ} (h : c.rest = (s.thread t).rest) (t' : θ) :
    (Function.update s.thread t c t').rest = (s.thread t').rest := by
  rw [Function.update_apply]
  split
  · rename_i e
    rw [e]
    exact h
  · rfl

/-- The pool has the fiber once if it is placed there. -/
lemma pool_update {q : Place θ} (ch : Chained s) (f' : φ) :
    Function.update s.pool f (if q = .pool then 1 else 0) f' =
      if Function.update s.place f q f' = .pool then 1 else 0 := by
  rw [Function.update_apply, Function.update_apply]
  split
  · rfl
  · exact ch.pool f'

/-- The pool is as before when a fiber goes from one place outside it to another. -/
lemma pool_same {q : Place θ} (ch : Chained s) (out : s.place f ≠ .pool) (out' : q ≠ .pool) :
    s.pool = Function.update s.pool f (if q = .pool then 1 else 0) := by
  rw [if_neg out', ← (ch.pool f).trans (if_neg out), Function.update_eq_self]

/-- A fiber in no list goes to a place that is none; its link may be written. -/
lemma put {c : Pc φ} {x : Option φ} {q : Place θ} (ch : Chained s) (before : Has (s.thread t) (s.place f) t f)
    (after : Has c q t f) (away : ¬(s.place f).Listed) (out : ¬q.Listed) (hr : c.rest = (s.thread t).rest)
    (lk : c.Linked (Function.update s.cleanupNext f x))
    (hn : s'.cleanupNext = Function.update s.cleanupNext f x) (hp : s'.place = Function.update s.place f q)
    (hl : s'.pool = Function.update s.pool f (if q = .pool then 1 else 0))
    (ht : s'.thread = Function.update s.thread t c) (hi : s'.inbound = s.inbound) : Chained s' := by
  refine ⟨fun h => ?_, fun t' => ?_, fun t' f' => ?_, fun t' => ?_, fun f' => ?_⟩
  · rw [hn, hp, hi]
    exact (ch.chain h).frame (fun e => away (e ▸ trivial)) fun e => out (e ▸ trivial)
  · rw [hn, hp, ht, rest_update hr]
    exact (ch.list t').frame (fun e => away (e ▸ trivial)) fun e => out (e ▸ trivial)
  · rw [ht, hp]
    exact ch.hand_update before after t' f'
  · rw [hn, ht]
    exact ch.linked_update before lk t'
  · rw [hl, hp]
    exact ch.pool_update f'

omit [DecidableEq φ] in
/-- What is in hand is not in the pool. -/
lemma not_pool (ch : Chained s) (h : (s.thread t).hand = some f) : s.place f ≠ .pool := by
  rw [(ch.hand t f).1 h]
  rintro ⟨⟩

omit [DecidableEq φ] in
/-- What is in hand is in no list. -/
lemma not_listed (ch : Chained s) (h : (s.thread t).hand = some f) : ¬(s.place f).Listed := by
  rw [(ch.hand t f).1 h]
  exact id

/-- The fiber in hand is kept; its link may be written. -/
lemma keep {c : Pc φ} {x : Option φ} (ch : Chained s) (h : (s.thread t).hand = some f) (hc : c.hand = some f)
    (hr : c.rest = (s.thread t).rest) (lk : c.Linked (Function.update s.cleanupNext f x))
    (hn : s'.cleanupNext = Function.update s.cleanupNext f x) (hp : s'.place = s.place) (hl : s'.pool = s.pool)
    (ht : s'.thread = Function.update s.thread t c)
    (hi : s'.inbound = s.inbound) : Chained s' := by
  have here := (ch.hand t f).1 h
  refine ch.put (q := .hand t) (ch.has h) (.inl ⟨hc, rfl⟩) (ch.not_listed h) id hr lk hn ?_ ?_ ht hi
  · rw [hp, ← here, Function.update_eq_self]
  · rw [hl]
    exact ch.pool_same (ch.not_pool h) (by rintro ⟨⟩)

/-- The fiber in hand goes to a place that is no list. -/
lemma drop {k : Back φ} {q : Place θ} (ch : Chained s) (h : (s.thread t).hand = some f)
    (hk : (s.thread t).backTo = k) (out : ¬q.Listed) (no : ∀ t', q ≠ .hand t')
    (hn : s'.cleanupNext = s.cleanupNext) (hp : s'.place = Function.update s.place f q)
    (hl : s'.pool = Function.update s.pool f (if q = .pool then 1 else 0))
    (ht : s'.thread = Function.update s.thread t (.back k)) (hi : s'.inbound = s.inbound) : Chained s' := by
  refine ch.put (x := s.cleanupNext f) (ch.has h) (.inr ⟨Pc.hand_back k, no⟩) (ch.not_listed h) out ?_
    (Pc.linked_back ..) ?_ hp hl ht hi
  · unfold Pc.rest
    rw [Pc.backTo_back, hk]
  · rw [hn, Function.update_eq_self]

omit [DecidableEq φ] in
/-- A thread with no list takes the whole chain of a holder. -/
lemma takeAll {h : Nat} (ch : Chained s) (idle : s.thread t = .idle) :
    Chained
      ({ s with
        inbound := Function.update s.inbound h none
        place := fun f => if s.place f = Place.chain h then .list t else s.place f }.goto t
          (.walk h (s.inbound h))) := by
  have bare : ∀ f, s.place f ≠ .list t := by
    have sp := ch.list t
    rw [idle] at sp
    exact sp.none_at
  have other : ∀ {pl : Place θ} (f : φ), pl ≠ .chain h → pl ≠ .list t →
      ((if s.place f = Place.chain h then Place.list t else s.place f) = pl ↔ s.place f = pl) := by
    intro pl f no no'
    split
    · rename_i e
      rw [e]
      exact ⟨fun e => absurd e.symm no', fun e => absurd e.symm no⟩
    · rfl
  refine ⟨fun h' => ?_, fun t' => ?_, fun t' f => ?_, fun t' => ?_, fun f => ?_⟩
  · change Spells _ _ (Function.update s.inbound h none h') _
    rw [Function.update_apply]
    split
    · rename_i e
      subst e
      refine .empty fun f => ?_
      change (if _ then _ else _) ≠ _
      split
      · rintro ⟨⟩
      · assumption
    · rename_i ne
      exact (ch.chain h').relabel fun f => other f (fun e => ne (Place.chain.inj e)) (by rintro ⟨⟩)
  · change Spells _ _ (Function.update s.thread t (.walk h (s.inbound h)) t').rest _
    rw [Function.update_apply]
    split
    · rename_i e
      subst e
      refine (ch.chain h).relabel fun f => ?_
      change (if _ then _ else _) = _ ↔ _
      split
      · rename_i e
        exact ⟨fun _ => e, fun _ => rfl⟩
      · rename_i ne
        exact ⟨fun e => absurd e (bare f), fun e => absurd e ne⟩
    · rename_i ne
      exact (ch.list t').relabel fun f => other f (by rintro ⟨⟩) fun e => ne (Place.list.inj e)
  · refine .trans ?_ (other f (by rintro ⟨⟩) (by rintro ⟨⟩)).symm
    rw [← ch.hand t' f]
    change (Function.update s.thread t (.walk h (s.inbound h)) t').hand = _ ↔ _
    rw [Function.update_apply]
    split
    · rename_i e
      rw [e, idle]
      rfl
    · rfl
  · change (Function.update s.thread t (.walk h (s.inbound h)) t').Linked _
    rw [Function.update_apply]
    split
    · trivial
    · exact ch.linked t'
  · refine (ch.pool f).trans (if_congr (other f ?_ ?_).symm rfl rfl)
    · rintro ⟨⟩
    · rintro ⟨⟩

/-- A thread takes the next fiber of its list in hand. -/
lemma next {h : Nat} (ch : Chained s) (e : s.thread t = .walk h (some f)) :
    Chained
      (({ s with cleanupNext := Function.update s.cleanupNext f none }.put f (.hand t)).goto t
        (.discharge h f (s.cleanupNext f))) := by
  have sp : Spells s.cleanupNext s.place (some f) (.list t) := by
    have sp := ch.list t
    rw [e] at sp
    exact sp
  have before : Has (s.thread t) (s.place f) t f := by
    refine .inr ⟨by rw [e]; rfl, fun t' => ?_⟩
    rw [sp.start_at]
    rintro ⟨⟩
  refine ⟨fun h' => ?_, fun t' => ?_, ch.hand_update before (.inl ⟨rfl, rfl⟩), ch.linked_update before trivial, ?_⟩
  · refine (ch.chain h').frame ?_ (by rintro ⟨⟩)
    rw [sp.start_at]
    rintro ⟨⟩
  · change Spells _ _ (Function.update s.thread t (.discharge h f (s.cleanupNext f)) t').rest _
    rw [Function.update_apply]
    split
    · rename_i et
      subst et
      exact sp.pop (by rintro ⟨⟩)
    · rename_i ne
      refine (ch.list t').frame ?_ (by rintro ⟨⟩)
      rw [sp.start_at]
      exact fun e => ne (Place.list.inj e).symm
  · intro f'
    have eq := ch.pool_same (f := f) (q := .hand t) (by rw [sp.start_at]; rintro ⟨⟩) (by rintro ⟨⟩)
    exact (congrFun eq f').trans (ch.pool_update f')

/-- The fiber in hand becomes the head of a chain. -/
lemma link {h : Nat} {head : Option φ} {k : Back φ} (ch : Chained s) (e : s.thread t = .cas h f head k)
    (same : s.inbound h = head) :
    Chained (({ s with inbound := Function.update s.inbound h (some f) }.put f (.chain h)).goto t (.back k)) := by
  have mine : (s.thread t).hand = some f := by
    rw [e]
    rfl
  have here := (ch.hand t f).1 mine
  have lk : s.cleanupNext f = s.inbound h := by
    have lk := ch.linked t
    rw [e] at lk
    exact Eq.trans lk same.symm
  have frame : ∀ {p : Option φ} {pl : Place θ}, .hand t ≠ pl → .chain h ≠ pl → Spells s.cleanupNext s.place p pl →
      Spells s.cleanupNext (Function.update s.place f (.chain h)) p pl := by
    intro p pl away out sp
    have sp := sp.frame (i := f) (x := s.cleanupNext f) (here.trans_ne away) out
    rwa [Function.update_eq_self] at sp
  have after : Has (Pc.back k) (.chain h) t f := .inr ⟨Pc.hand_back k, by rintro _ ⟨⟩⟩
  refine ⟨fun h' => ?_, fun t' => ?_, ch.hand_update (ch.has mine) after, fun t' => ?_, fun f' => ?_⟩
  · change Spells s.cleanupNext (Function.update s.place f (.chain h)) (Function.update s.inbound h (some f) h') _
    rw [Function.update_apply]
    split
    · rename_i e
      subst e
      refine (ch.chain h').push ?_ lk
      rw [here]
      rintro ⟨⟩
    · rename_i ne
      exact frame (by rintro ⟨⟩) (fun e => ne (Place.chain.inj e).symm) (ch.chain h')
  · change Spells _ _ (Function.update s.thread t (.back k) t').rest _
    rw [rest_update]
    · exact frame (by rintro ⟨⟩) (by rintro ⟨⟩) (ch.list t')
    · unfold Pc.rest
      rw [Pc.backTo_back, e]
      rfl
  · have lk := ch.linked_update (x := s.cleanupNext f) (ch.has mine) (Pc.linked_back _ k) t'
    rwa [Function.update_eq_self] at lk
  · have eq := ch.pool_same (f := f) (q := .chain h) (ch.not_pool mine) (by rintro ⟨⟩)
    exact (congrFun eq f').trans (ch.pool_update f')

omit [DecidableEq φ] in
/-- All fibers are in the pool. -/
lemma init : Chained ({} : State φ θ δ) := by
  refine ⟨fun h => .empty ?_, fun t => .empty ?_, fun t f => ⟨by rintro ⟨⟩, by rintro ⟨⟩⟩, fun t => trivial,
    fun f => rfl⟩
  · rintro _ ⟨⟩
  · rintro _ ⟨⟩

end Chained

/-- A step keeps the chains spelled. -/
lemma Step.chained (st : Step size s l s') (ch : Chained s) : Chained s' := by
  cases st with
  | @acquire f n h =>
    have pooled : s.place f = .pool := by
      by_contra no
      rw [ch.pool f, if_neg no] at h
      cases h
    rw [ch.pool f, if_pos pooled] at h
    cases h
    have frame : ∀ {h : Option φ} {pl : Place θ}, .pool ≠ pl → .use ≠ pl → Spells s.cleanupNext s.place h pl →
        Spells s.cleanupNext (Function.update s.place f .use) h pl := by
      intro h pl away out sp
      have sp := sp.frame (i := f) (x := s.cleanupNext f) (q := .use) (pooled.trans_ne away) out
      rwa [Function.update_eq_self] at sp
    refine ⟨fun h => ?_, fun t => ?_, fun t f' => ?_, ch.linked, ch.pool_update (f := f) (q := .use)⟩
    · exact frame (by rintro ⟨⟩) (by rintro ⟨⟩) (ch.chain h)
    · exact frame (by rintro ⟨⟩) (by rintro ⟨⟩) (ch.list t)
    · change (s.thread t).hand = some f' ↔ Function.update s.place f .use f' = _
      rw [ch.hand t f', Function.update_apply]
      split
      · rename_i e
        rw [e, pooled]
        exact ⟨by rintro ⟨⟩, by rintro ⟨⟩⟩
      · rfl
  | @die t f creditors debts h use =>
    refine ch.put (x := s.cleanupNext f) (q := .hand t) (c := .advance f none) ?_ ?_ ?_ id ?_ trivial ?_ rfl ?_ rfl rfl
    · refine .inr ⟨?_, fun t' => ?_⟩
      · rw [h]
        rfl
      · rw [use]
        rintro ⟨⟩
    · exact .inl ⟨rfl, rfl⟩
    · rw [use]
      exact id
    · rw [h]
      rfl
    · exact (Function.update_eq_self ..).symm
    · exact ch.pool_same (by rw [use]; rintro ⟨⟩) (by rintro ⟨⟩)
  | @drain t h idle => exact ch.takeAll idle
  | @walkEnd t h e =>
    refine ⟨ch.chain, fun t' => ?_, fun t' f' => ?_, fun t' => ?_, ch.pool⟩
    · change Spells _ _ (Function.update s.thread t .idle t').rest _
      rw [Chained.rest_update (by rw [e]; rfl)]
      exact ch.list t'
    · refine .trans ?_ (ch.hand t' f')
      change (Function.update s.thread t .idle t').hand = _ ↔ _
      rw [Function.update_apply]
      split
      · rename_i et
        rw [et, e]
        rfl
      · rfl
    · change (Function.update s.thread t .idle t').Linked _
      rw [Function.update_apply]
      split
      · trivial
      · exact ch.linked t'
  | @walkNext t h f e => exact ch.next e
  | @discharge t h f nxt e =>
    exact ch.keep (f := f) (by rw [e]; rfl) rfl (by rw [e]; rfl) (by trivial) (Function.update_eq_self ..).symm rfl rfl
      rfl rfl
  | @take t f k h e | @takeNone t f k e | @deliverFails t h f k e | @deliver t h f k e | @recycle t f k e =>
    exact ch.keep (f := f) (by rw [e]; rfl) rfl (by rw [e]; rfl) (by trivial) (Function.update_eq_self ..).symm rfl rfl
      rfl rfl
  | @casFails t h f head k e =>
    exact ch.keep (f := f) (by rw [e]; rfl) rfl (by rw [e]; rfl) (by trivial) (Function.update_eq_self ..).symm rfl rfl
      rfl rfl
  | @link t h f head k e =>
    exact ch.keep (f := f) (by rw [e]; rfl) rfl (by rw [e]; rfl) (by exact Function.update_self ..) rfl rfl rfl rfl rfl
  | @cas t h f head k e same => exact ch.link e same
  | @restore t h f k e | @recycleFails t f k e =>
    have mine : (s.thread t).hand = some f := by
      rw [e]
      rfl
    exact ch.drop mine (by rw [e]; rfl) id (by rintro _ ⟨⟩) rfl rfl (ch.pool_same (ch.not_pool mine) (by rintro ⟨⟩)) rfl
      rfl
  | @returned t f k e =>
    have mine : (s.thread t).hand = some f := by
      rw [e]
      rfl
    refine ch.drop mine (by rw [e]; rfl) id (by rintro _ ⟨⟩) rfl rfl ?_ rfl rfl
    change Function.update s.pool f (s.pool f + 1) = _
    rw [ch.pool f, if_neg (ch.not_pool mine)]
    rfl

end JLib.Registry
