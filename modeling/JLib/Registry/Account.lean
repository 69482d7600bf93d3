import JLib.Registry.Chain

/-!
# The account of a fiber in cleanup

Of the creditors recorded when a fiber dies, each is still in the set, or is the one to whose chain the fiber
goes, or has discharged it, once and of everything it held. A creditor without a chain would break that: the
fiber cannot be delivered to it, and is dropped.
-/

namespace JLib.Registry
open LTS Links

variable {φ θ δ : Type}

namespace Book

/-- Every recorded creditor is accounted for, and those that have been visited have released what they held. -/
structure Exact (b : Book δ) : Prop where
  known : ∀ h, b.recorded h = true ↔ h ∈ b.visits ∨ b.creditors h = true ∨ b.due = some h
  fresh : ∀ h, b.creditors h = true ∨ b.due = some h → h ∉ b.visits
  away : ∀ h, b.due = some h → b.creditors h = false
  once : b.visits.Nodup
  paid : ∀ h, b.paid.filter (·.1 = h) = if h ∈ b.visits then b.owed.filter (·.1 = h) else []

/-- What is left of the debts is owed to holders that have not been visited. -/
def Open (b : Book δ) : Prop := b.debts = b.owed.filter (·.1 ∉ b.visits)

variable {b : Book δ} {h : Nat} {creditors : Nat → Bool} {debts : List (Nat × δ)}

/-- A fiber that never died owes nothing. -/
lemma Exact.init : ({} : Book δ).Exact := by
  refine ⟨fun h => ⟨by rintro ⟨⟩, ?_⟩, fun h _ => List.not_mem_nil, by rintro _ ⟨⟩, List.nodup_nil, fun h => rfl⟩
  rintro (⟨⟨⟩⟩ | ⟨⟨⟩⟩ | ⟨⟨⟩⟩)

/-- At its death a fiber owes everything. -/
lemma Exact.die : (die creditors debts).Exact := by
  refine ⟨fun h => ⟨fun e => .inr (.inl e), ?_⟩, fun h _ => List.not_mem_nil, by rintro _ ⟨⟩, List.nodup_nil,
    fun h => rfl⟩
  rintro (⟨⟨⟩⟩ | e | ⟨⟨⟩⟩)
  exact e

/-- At its death nothing is released. -/
lemma Open.die : (die creditors debts).Open := by
  unfold Open Book.die
  simp

/-- A creditor is taken to be visited. -/
lemma Exact.take (ex : b.Exact) (none : b.due = none) (owes : b.creditors h = true) : (b.take h).Exact := by
  have same : ∀ h', Function.update b.creditors h false h' = true ∨ some h = some h' ↔ b.creditors h' = true := by
    intro h'
    rw [Function.update_apply]
    split
    · rename_i e
      subst e
      exact ⟨fun _ => owes, fun _ => .inr rfl⟩
    · rename_i ne
      exact ⟨fun o => o.resolve_right fun e => ne (Option.some.inj e).symm, .inl⟩
  refine ⟨fun h' => ?_, fun h' o => ?_, ?_, ex.once, ex.paid⟩
  · rw [show (b.take h).recorded h' = b.recorded h' from rfl, ex.known h', none]
    change _ ↔ h' ∈ b.visits ∨ Function.update b.creditors h false h' = true ∨ some h = some h'
    rw [same h']
    exact or_congr_right ⟨fun o => o.resolve_right (by rintro ⟨⟩), .inl⟩
  · exact ex.fresh h' (.inl ((same h').1 o))
  · rintro _ ⟨⟩
    exact Function.update_self ..

/-- A holder that has not been visited still holds all that was owed to it. -/
lemma Open.due (op : b.Open) (new : h ∉ b.visits) : b.debts.filter (·.1 = h) = b.owed.filter (·.1 = h) := by
  rw [op, List.filter_filter]
  refine List.filter_congr fun d _ => ?_
  rw [← Bool.decide_and]
  refine decide_eq_decide.2 (and_iff_left_of_imp ?_)
  rintro rfl
  exact new

/-- A holder is visited. -/
lemma Exact.discharge (ex : b.Exact) (op : b.Open) (due : b.due = some h) : (b.discharge h).Exact := by
  have new : h ∉ b.visits := ex.fresh h (.inr due)
  refine ⟨fun h' => ?_, fun h' o => ?_, by rintro _ ⟨⟩, ?_, fun h' => ?_⟩
  · rw [show (b.discharge h).recorded h' = b.recorded h' from rfl, ex.known h', due]
    change _ ↔ h' ∈ b.visits ++ [h] ∨ b.creditors h' = true ∨ none = some h'
    rw [List.mem_append, List.mem_singleton, Option.some_inj]
    simp only [reduceCtorEq, or_false]
    grind
  · have owed : b.creditors h' = true := o.resolve_right (by rintro ⟨⟩)
    change h' ∉ b.visits ++ [h]
    rw [List.mem_append, List.mem_singleton, not_or]
    refine ⟨ex.fresh h' (.inl owed), ?_⟩
    rintro rfl
    rw [ex.away h' due] at owed
    cases owed
  · refine List.nodup_append.2 ⟨ex.once, List.nodup_singleton h, ?_⟩
    rintro h' mem _ one rfl
    rw [List.mem_singleton] at one
    exact new (one ▸ mem)
  · change (b.paid ++ b.debts.filter (·.1 = h)).filter (·.1 = h') = if h' ∈ b.visits ++ [h] then _ else []
    rw [List.filter_append, ex.paid h', op.due new, List.filter_filter]
    by_cases e : h' = h
    · subst e
      rw [if_neg new, if_pos (List.mem_append_right _ (List.mem_singleton_self h')), List.nil_append]
      exact List.filter_congr fun d _ => Bool.and_self _
    · have no : b.owed.filter (fun d => decide (d.1 = h') && decide (d.1 = h)) = [] := by
        refine List.filter_eq_nil_iff.2 fun d _ => ?_
        rw [← Bool.decide_and, decide_eq_true_iff]
        rintro ⟨rfl, e'⟩
        exact e e'
      rw [no, List.append_nil]
      refine if_congr ?_ rfl rfl
      rw [List.mem_append, List.mem_singleton]
      exact ⟨.inl, fun o => o.resolve_right e⟩

/-- What is left is owed to the other holders. -/
lemma Open.discharge (op : b.Open) : (b.discharge h).Open := by
  change b.debts.filter (·.1 ≠ h) = b.owed.filter (·.1 ∉ b.visits ++ [h])
  rw [op, List.filter_filter]
  refine List.filter_congr fun d _ => ?_
  rw [← Bool.decide_and]
  refine decide_eq_decide.2 ?_
  rw [List.mem_append, List.mem_singleton, not_or]
  exact and_comm

/-- The fiber goes to the pool with nothing left. -/
lemma Exact.reset (ex : b.Exact) (none : ∀ h, b.creditors h = false) : b.reset.Exact := by
  have same : b.reset.creditors = b.creditors := funext fun h => (none h).symm
  exact ⟨fun h => same ▸ ex.known h, fun h => same ▸ ex.fresh h, fun h _ => rfl, ex.once, ex.paid⟩

end Book

namespace Pc

/-- The creditor to which the fiber in hand is on its way, or whose holder has it. -/
def due : Pc φ → Option Nat
  | discharge h _ _ => some h
  | deliver h _ _ => some h
  | link h _ _ _ => some h
  | cas h _ _ _ => some h
  | restore h _ _ => some h
  | _ => none

/-- The holder whose chain the thread walks. -/
def drains (c : Pc φ) : Option Nat := c.backTo.map (·.1)

/-- `DEAD` is given up only to return the fiber. -/
def dead : Pc φ → Bool
  | returned _ _ => false
  | _ => true

/-- No delivery has failed, and a fiber goes to the pool only with no creditor left. -/
def Fits (b : Book δ) : Pc φ → Prop
  | restore _ _ _ => False
  | recycle _ _ => ∀ h, b.creditors h = false
  | returned _ _ => ∀ h, b.creditors h = false
  | _ => True

end Pc

/-- What the account says of a fiber that is at the place. -/
def Owes (thread : θ → Pc φ) (b : Book δ) (dead : Bool) : Place θ → Prop
  | .pool => b.due = none ∧ ∀ h, b.creditors h = false
  | .use => True
  | .hand t => b.due = (thread t).due ∧ b.Open ∧ dead = (thread t).dead ∧ (thread t).Fits b
  | .list t => b.due = (thread t).drains ∧ b.Open ∧ dead = true
  | .chain h => b.due = some h ∧ b.Open ∧ dead = true
  | .lost => False

structure Accounted (size : Nat) (s : State φ θ δ) : Prop where
  exact : ∀ f, (s.book f).Exact
  owes : ∀ f, Owes s.thread (s.book f) (s.dead f) (s.place f)
  lt : ∀ f h, (s.book f).recorded h = true → h < size

/-- Every creditor has a chain. -/
def Addressed (size : Nat) (_ : State φ θ δ) : Label φ θ δ → Prop
  | .die _ _ creditors _ => ∀ h, creditors h = true → h < size
  | _ => True

variable [DecidableEq θ] {size : Nat} {s s' : State φ θ δ} {l : Label φ θ δ} {t : θ} {f : φ}

/-- A thread does not matter to the fibers that it has neither in hand nor in its list, nor does it to its list as
long as it drains the same holder. -/
lemma Owes.frame {c : Pc φ} {b : Book δ} {d : Bool} {p : Place θ} (ow : Owes s.thread b d p) (hand : p ≠ .hand t)
    (list : p = .list t → c.drains = (s.thread t).drains) : Owes (Function.update s.thread t c) b d p := by
  cases p with
  | hand t' =>
    have ne : t' ≠ t := by
      rintro rfl
      exact hand rfl
    change b.due = (Function.update s.thread t c t').due ∧ b.Open ∧ d = (Function.update s.thread t c t').dead ∧
      (Function.update s.thread t c t').Fits b
    rw [Function.update_of_ne ne]
    exact ow
  | list t' =>
    change b.due = (Function.update s.thread t c t').drains ∧ b.Open ∧ d = true
    rw [Function.update_apply]
    split
    · rename_i e
      subst e
      rw [list rfl]
      exact ow
    · exact ow
  | pool => exact ow
  | use => exact ow
  | chain h => exact ow
  | lost => exact ow

/-- The fiber that a thread has in hand. -/
lemma Owes.hand {c : Pc φ} {b : Book δ} {d : Bool} (due : b.due = c.due) (op : b.Open) (dead : d = c.dead)
    (fits : c.Fits b) : Owes (Function.update s.thread t c) b d (.hand t) := by
  have here : Function.update s.thread t c t = c := Function.update_self ..
  exact ⟨due.trans (by rw [here]), op, dead.trans (by rw [here]), by rw [here]; exact fits⟩

namespace Accounted

omit [DecidableEq θ] in
/-- No fiber has died yet. -/
lemma init : Accounted size ({} : State φ θ δ) :=
  ⟨fun _ => .init, fun _ => ⟨rfl, fun _ => rfl⟩, by rintro _ _ ⟨⟩⟩

/-- What the account says of a fiber in hand. -/
lemma mine (ac : Accounted size s) (ch : Chained s) {c : Pc φ} (e : s.thread t = c) (h : c.hand = some f) :
    (s.book f).due = c.due ∧ (s.book f).Open ∧ s.dead f = c.dead ∧ c.Fits (s.book f) := by
  subst e
  have ow := ac.owes f
  rw [(ch.hand t f).1 h] at ow
  exact ow

/-- A step of a thread about one fiber. -/
lemma update [DecidableEq φ] {c : Pc φ} {b : Book δ} {d : Bool} {q : Place θ} (ac : Accounted size s) (ch : Chained s)
    (before : Has (s.thread t) (s.place f) t f) (hd : c.drains = (s.thread t).drains) (ex : b.Exact)
    (lt : ∀ h, b.recorded h = true → h < size) (ow : Owes (Function.update s.thread t c) b d q)
    (hb : s'.book = Function.update s.book f b) (hdead : s'.dead = Function.update s.dead f d)
    (hp : s'.place = Function.update s.place f q) (ht : s'.thread = Function.update s.thread t c) :
    Accounted size s' := by
  refine ⟨fun f' => ?_, fun f' => ?_, fun f' => ?_⟩
  · rw [hb, Function.update_apply]
    split
    · exact ex
    · exact ac.exact f'
  · rw [hb, hdead, hp, ht]
    by_cases e : f' = f
    · subst e
      rw [Function.update_self, Function.update_self, Function.update_self]
      exact ow
    · rw [Function.update_of_ne e, Function.update_of_ne e, Function.update_of_ne e]
      refine (ac.owes f').frame (fun h => ?_) fun _ => hd
      exact e (before.eq ((ch.hand t f').2 h))
  · rw [hb, Function.update_apply]
    split
    · exact lt
    · exact ac.lt f'

end Accounted

namespace Accounted

/-- The fiber in hand is kept, and its account changes. -/
lemma keep [DecidableEq φ] {c : Pc φ} {b : Book δ} {d : Bool} (ac : Accounted size s) (ch : Chained s)
    (h : (s.thread t).hand = some f) (hd : c.drains = (s.thread t).drains) (ex : b.Exact)
    (known : b.recorded = (s.book f).recorded) (due : b.due = c.due) (op : b.Open) (dead : d = c.dead)
    (fits : c.Fits b) (hb : s'.book = Function.update s.book f b) (hdead : s'.dead = Function.update s.dead f d)
    (hp : s'.place = s.place) (ht : s'.thread = Function.update s.thread t c) : Accounted size s' := by
  refine ac.update ch (ch.has h) hd ex (known ▸ ac.lt f) (.hand due op dead fits) hb hdead ?_ ht
  rw [hp, ← (ch.hand t f).1 h, Function.update_eq_self]

/-- The fiber in hand is kept, with its account. -/
lemma stay [DecidableEq φ] {c : Pc φ} (ac : Accounted size s) (ch : Chained s) (h : (s.thread t).hand = some f)
    (hd : c.drains = (s.thread t).drains) (due : c.due = (s.thread t).due) (dead : c.dead = (s.thread t).dead)
    (fits : c.Fits (s.book f)) (hb : s'.book = s.book) (hdead : s'.dead = s.dead) (hp : s'.place = s.place)
    (ht : s'.thread = Function.update s.thread t c) : Accounted size s' := by
  obtain ⟨due', op, dead', -⟩ := ac.mine ch rfl h
  refine ac.keep ch h hd (ac.exact f) rfl (due'.trans due.symm) op (dead'.trans dead.symm) fits ?_ ?_ hp ht
  · rw [hb, Function.update_eq_self]
  · rw [hdead, Function.update_eq_self]

omit [DecidableEq θ] in
/-- The creditor to which a fiber is sent has a chain. -/
lemma due_lt {h : Nat} (ac : Accounted size s) (due : (s.book f).due = some h) : h < size :=
  ac.lt f h (((ac.exact f).known h).2 (.inr (.inr due)))

end Accounted

/-- A thread that is back goes on with its chain. -/
lemma Pc.drains_back (k : Back φ) : (back k).drains = k.map (·.1) := by
  unfold drains
  rw [backTo_back]

/-- A step under the condition keeps the account. -/
lemma Step.accounted [DecidableEq φ] (st : Step size s l s') (ok : Addressed size s l) (ch : Chained s)
    (ac : Accounted size s) : Accounted size s' := by
  cases st with
  | @acquire f n h =>
    refine ⟨ac.exact, fun f' => ?_, ac.lt⟩
    change Owes _ _ _ (Function.update s.place f .use f')
    rw [Function.update_apply]
    split
    · trivial
    · exact ac.owes f'
  | @die t f creditors debts h use =>
    refine ac.update (f := f) (q := .hand t) (c := .advance f none) ch ?_ (by rw [h]; rfl) .die ok
      (.hand rfl .die rfl trivial) rfl rfl rfl rfl
    refine .inr ⟨by rw [h]; rfl, fun t' => ?_⟩
    rw [use]
    rintro ⟨⟩
  | @drain t h idle =>
    have bare : ∀ f, s.place f ≠ .list t := by
      have sp := ch.list t
      rw [idle] at sp
      exact sp.none_at
    refine ⟨ac.exact, fun f => ?_, ac.lt⟩
    change Owes (Function.update s.thread t (.walk h (s.inbound h))) _ _
      (if s.place f = Place.chain h then .list t else s.place f)
    have ow := ac.owes f
    split
    · rename_i e
      rw [e] at ow
      obtain ⟨due, rest⟩ := ow
      refine ⟨due.trans ?_, rest⟩
      rw [Function.update_self]
      rfl
    · refine ow.frame (fun e => ?_) fun e => absurd e (bare f)
      have no := (ch.hand t f).2 e
      rw [idle] at no
      cases no
  | @walkEnd t h e =>
    refine ⟨ac.exact, fun f => (ac.owes f).frame (fun at' => ?_) fun at' => ?_, ac.lt⟩
    · have no := (ch.hand t f).2 at'
      rw [e] at no
      cases no
    · have sp := ch.list t
      rw [e] at sp
      exact absurd at' (sp.none_at f)
  | @walkNext t h f e =>
    have sp := ch.list t
    rw [e] at sp
    have ow := ac.owes f
    rw [sp.start_at] at ow
    obtain ⟨due, op, dead⟩ := ow
    refine ac.update (q := .hand t) (c := .discharge h f (s.cleanupNext f)) ch ?_ (by rw [e]; rfl) (ac.exact f)
      (ac.lt f) (.hand (due.trans (by rw [e]; rfl)) op dead trivial) (Function.update_eq_self ..).symm
      (Function.update_eq_self ..).symm rfl rfl
    refine .inr ⟨by rw [e]; rfl, fun t' => ?_⟩
    rw [sp.start_at]
    rintro ⟨⟩
  | @discharge t h f nxt e =>
    obtain ⟨due, op, dead, -⟩ := ac.mine (f := f) ch e rfl
    exact ac.keep (c := .advance f _) ch (by rw [e]; rfl) (by rw [e]; rfl) ((ac.exact f).discharge op due) rfl rfl
      op.discharge
      dead trivial rfl (Function.update_eq_self ..).symm rfl rfl
  | @take t f k h e owes =>
    obtain ⟨due, op, dead, -⟩ := ac.mine (f := f) ch e rfl
    exact ac.keep (c := .deliver h f k) ch (by rw [e]; rfl) (by rw [e]; rfl) ((ac.exact f).take due owes) rfl rfl op
      dead trivial rfl (Function.update_eq_self ..).symm rfl rfl
  | @takeNone t f k e none =>
    exact ac.stay (f := f) ch (by rw [e]; rfl) (by rw [e]; rfl) (by rw [e]; rfl) (by rw [e]; rfl) (by exact none) rfl
      rfl rfl rfl
  | @deliverFails t h f k e ge =>
    obtain ⟨due, -⟩ := ac.mine (f := f) ch e rfl
    exact absurd (ac.due_lt due) (Nat.not_lt.2 ge)
  | @deliver t h f k e | @link t h f head k e =>
    exact ac.stay (f := f) ch (by rw [e]; rfl) (by rw [e]; rfl) (by rw [e]; rfl) (by rw [e]; rfl) (by trivial) rfl rfl
      rfl rfl
  | @casFails t h f head k e =>
    exact ac.stay (f := f) ch (by rw [e]; rfl) (by rw [e]; rfl) (by rw [e]; rfl) (by rw [e]; rfl) (by trivial) rfl rfl
      rfl rfl
  | @cas t h f head k e same =>
    obtain ⟨due, op, dead, -⟩ := ac.mine (f := f) ch e rfl
    exact ac.update (q := .chain h) ch (ch.has (by rw [e]; rfl)) (by rw [e]; exact Pc.drains_back k) (ac.exact f)
      (ac.lt f) ⟨due, op, dead⟩ (Function.update_eq_self ..).symm (Function.update_eq_self ..).symm rfl rfl
  | @restore t h f k e =>
    obtain ⟨-, -, -, no⟩ := ac.mine (f := f) ch e rfl
    exact no.elim
  | @recycle t f k e d =>
    obtain ⟨due, op, dead, none⟩ := ac.mine (f := f) ch e rfl
    exact ac.keep (c := .returned f k) ch (by rw [e]; rfl) (by rw [e]; rfl) (ac.exact f) rfl due op rfl none
      (Function.update_eq_self ..).symm rfl rfl rfl
  | @recycleFails t f k e d =>
    obtain ⟨-, -, dead, -⟩ := ac.mine (f := f) ch e rfl
    rw [d] at dead
    cases dead
  | @returned t f k e =>
    obtain ⟨due, op, dead, none⟩ := ac.mine (f := f) ch e rfl
    exact ac.update (q := .pool) ch (ch.has (by rw [e]; rfl)) (by rw [e]; exact Pc.drains_back k)
      ((ac.exact f).reset none) (ac.lt f) ⟨due, fun _ => rfl⟩ rfl (Function.update_eq_self ..).symm rfl rfl

end JLib.Registry
