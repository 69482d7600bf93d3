import JLib.MPSCQueue.Model
import JLib.Links.Adjacent
import Mathlib.Data.List.ReduceOption

/-!
# The list in the queue

The nodes from `tail_` to `head_` are a list `Q`. Of two neighbours in it the first is linked to the
second, or its link is null and there is an append that has exchanged `head_` and is about to store it.
`Chained` says this and what is known of the chains that are not yet in; each action is described by what
it does to `Q`.
-/

namespace JLib.MPSCQueue
open LTS Links Queue

variable {α ι : Type} [DecidableEq α] {s : Queue α ι} {Q l : List α} {a : Option ι}
  {x y z : α}

structure Chained (s : Queue α ι) (Q : List α) : Prop where
  nodup : Q.Nodup
  first : Q.head? = some s.tail
  last : Q.getLast? = some s.head
  ends : s.next s.head = none
  linked : ∀ {x y}, Adj Q x y → s.next x = some y ∨ s.next x = none ∧ ∃ a, s.call a = .swapped x y
  gap : ∀ {a x y}, s.call a = .swapped x y → Adj Q x y ∧ s.next x = none
  one : ∀ {a b x y z}, s.call a = .swapped x y → s.call b = .swapped x z → a = b
  chain : ∀ {a l}, s.call a = .ended l → l ≠ [] ∧ l.Nodup ∧ (∀ x ∈ l, x ∉ Q) ∧
    (∀ {x y}, Adj l x y → s.next x = some y) ∧ ∀ {z}, l.getLast? = some z → s.next z = none
  apart : ∀ {a b l m x}, s.call a = .ended l → s.call b = .ended m → x ∈ l → x ∈ m → a = b
  tasks : ∀ {a l}, s.call a = .ended l → (s.stub ∈ l ↔ a = none) ∧ (a = none → l = [s.stub])
  order : s.order = s.popped ++ Q.filter (· ≠ s.stub)

/-! ## The links of a chain -/

/-- The links of a chain are those of its members. -/
lemma linkChain_notMem {next : α → Option α} (h : x ∉ l) : linkChain next l x = next x := by
  fun_induction linkChain next l with
  | case1 => rfl
  | case2 b => rw [Function.update_of_ne (by simpa using h)]
  | case3 b c l ih =>
    rw [List.mem_cons, not_or] at h
    rw [Function.update_of_ne h.1, ih h.2]

/-- Neighbours of a chain are linked. -/
lemma linkChain_adj {next : α → Option α} (nd : l.Nodup) (h : Adj l x y) :
    linkChain next l x = some y := by
  fun_induction linkChain next l with
  | case1 => exact h.elim
  | case2 b => exact h.elim
  | case3 b c l ih =>
    obtain ⟨out, nd⟩ := List.nodup_cons.1 nd
    rcases h with ⟨rfl, rfl⟩ | h
    · rw [Function.update_self]
    · have ne : x ≠ b := by
        rintro rfl
        exact out h.mem.1
      rw [Function.update_of_ne ne, ih nd h]

/-- The last of a chain has no link. -/
lemma linkChain_last {next : α → Option α} (nd : l.Nodup) (h : l.getLast? = some z) :
    linkChain next l z = none := by
  fun_induction linkChain next l with
  | case1 => cases h
  | case2 b =>
    rw [List.getLast?_singleton, Option.some.injEq] at h
    rw [h, Function.update_self]
  | case3 b c l ih =>
    obtain ⟨out, nd⟩ := List.nodup_cons.1 nd
    rw [List.getLast?_cons_cons] at h
    have ne : z ≠ b := by
      rintro rfl
      exact out (List.mem_of_getLast? h)
    rw [Function.update_of_ne ne, ih nd h]

/-! ## What is known of a queue -/

namespace Chained

/-- The consumer has before it what is chained, without the stub. -/
lemma rest_eq (ch : Chained s Q) : s.rest = Q.filter (· ≠ s.stub) := by
  unfold Queue.rest
  rw [ch.order, List.drop_left]

/-- A free node is not in the chain. -/
lemma notMem_of_free (ch : Chained s Q) (h : s.free x) : x ∉ Q := by
  intro hx
  apply h.2.1
  rw [ch.rest_eq, List.mem_filter]
  exact ⟨hx, by simpa using h.1⟩

/-- The front node and what its link leads to. -/
lemma front (ch : Chained s Q) : ∃ R, Q = s.tail :: R ∧
    (∀ {n}, s.next s.tail = some n → R.head? = some n) ∧
    (s.next s.tail = none → R = [] ∨ ∃ a y, s.call a = .swapped s.tail y) := by
  obtain _ | ⟨t, R⟩ := Q
  · cases ch.first
  cases ch.first
  refine ⟨R, rfl, fun hn => ?_, fun hn => ?_⟩
  · cases R with
    | nil =>
      have e : s.tail = s.head := by simpa using ch.last
      have := ch.ends
      rw [← e, hn] at this
      cases this
    | cons r R =>
      rcases ch.linked (x := s.tail) (y := r) (.inl ⟨rfl, rfl⟩) with e | ⟨e, -⟩
      · rw [hn] at e
        exact e.symm
      · rw [hn] at e
        cases e
  · cases R with
    | nil => exact .inl rfl
    | cons r R =>
      rcases ch.linked (x := s.tail) (y := r) (.inl ⟨rfl, rfl⟩) with e | ⟨-, a, ha⟩
      · rw [hn] at e
        cases e
      · exact .inr ⟨a, r, ha⟩

/-- Nodes that are in no chain and not in the queue may be linked otherwise. -/
lemma frame (ch : Chained s Q) {next' : α → Option α}
    (h : ∀ x, next' x ≠ s.next x → x ∉ Q ∧ ∀ a l, s.call a = .ended l → x ∉ l) :
    Chained { s with next := next' } Q := by
  have same : ∀ {x}, x ∈ Q → next' x = s.next x := by
    intro x hx
    by_contra ne
    exact (h x ne).1 hx
  refine ⟨ch.nodup, ch.first, ch.last, ?_, fun adj => ?_, fun ha => ?_, ch.one, fun {a l} ha => ?_,
    ch.apart, ch.tasks, ch.order⟩
  · show next' s.head = none
    rw [same (List.mem_of_getLast? ch.last)]
    exact ch.ends
  · show next' _ = _ ∨ next' _ = _ ∧ _
    rw [same adj.mem.1]
    exact ch.linked adj
  · obtain ⟨adj, e⟩ := ch.gap ha
    refine ⟨adj, ?_⟩
    show next' _ = none
    rw [same adj.mem.1, e]
  · have same' : ∀ {x}, x ∈ l → next' x = s.next x := by
      intro x hx
      by_contra ne
      exact (h x ne).2 a l ha hx
    obtain ⟨ne, nd, out, adj, last⟩ := ch.chain ha
    refine ⟨ne, nd, out, fun h => ?_, fun h => ?_⟩
    · show next' _ = _
      rw [same' h.mem.1, adj h]
    · show next' _ = _
      rw [same' (List.mem_of_getLast? h), last h]

end Chained

variable [DecidableEq ι]

/-- The caller has a chain to exchange. -/
lemma begin_call_self : (s.begin a l).call a = .ended l := Function.update_self ..

/-- The others are where they were. -/
lemma begin_call_ne {b : Option ι} (h : b ≠ a) : (s.begin a l).call b = s.call b :=
  Function.update_of_ne h ..

namespace Chained

/-- A chain is linked and ended. -/
lemma begin (ch : Chained s Q) (idle : s.call a = .idle) (ne : l ≠ []) (nd : l.Nodup)
    (out : ∀ x ∈ l, x ∉ Q ∧ ∀ b m, s.call b = .ended m → x ∉ m)
    (own : (s.stub ∈ l ↔ a = none) ∧ (a = none → l = [s.stub])) : Chained (s.begin a l) Q := by
  have ch' : Chained { s with next := linkChain s.next l } Q := by
    apply ch.frame
    intro x hx
    apply out x
    by_contra h
    exact hx (linkChain_notMem h)
  have call_a := begin_call_self (s := s) (a := a) (l := l)
  have call_ne : ∀ {b}, b ≠ a → (s.begin a l).call b = s.call b := begin_call_ne
  have old : ∀ {b c}, (s.begin a l).call b = c → c ≠ .ended l → s.call b = c := by
    intro b c hb hc
    by_cases e : b = a
    · rw [e, call_a] at hb
      exact absurd hb.symm hc
    · rwa [call_ne e] at hb
  have swapped : ∀ {b x y}, (s.begin a l).call b = .swapped x y ↔ s.call b = .swapped x y := by
    intro b x y
    refine ⟨fun h => old h nofun, fun h => ?_⟩
    rw [call_ne, h]
    rintro rfl
    rw [idle] at h
    cases h
  refine ⟨ch'.nodup, ch'.first, ch'.last, ch'.ends, fun adj => ?_, fun hb => ?_, fun hb hc => ?_,
    fun {b m} hb => ?_, fun {b c m n x} hb hc hm hn => ?_, fun {b m} hb => ?_, ch'.order⟩
  · obtain e | ⟨e, b, hb⟩ := ch'.linked adj
    · exact .inl e
    · exact .inr ⟨e, b, swapped.2 hb⟩
  · exact ch'.gap (swapped.1 hb)
  · exact ch'.one (swapped.1 hb) (swapped.1 hc)
  · by_cases e : b = a
    · rw [e, call_a] at hb
      cases hb
      exact ⟨ne, nd, fun x hx => (out x hx).1, fun h => linkChain_adj nd h,
        fun h => linkChain_last nd h⟩
    · rw [call_ne e] at hb
      exact ch'.chain hb
  · by_cases eb : b = a
    · by_cases ec : c = a
      · rw [eb, ec]
      · rw [eb, call_a] at hb
        rw [call_ne ec] at hc
        cases hb
        exact absurd hn ((out x hm).2 c n hc)
    · by_cases ec : c = a
      · rw [ec, call_a] at hc
        rw [call_ne eb] at hb
        cases hc
        exact absurd hm ((out x hn).2 b m hb)
      · rw [call_ne eb] at hb
        rw [call_ne ec] at hc
        exact ch.apart hb hc hm hn
  · by_cases e : b = a
    · rw [e, call_a] at hb
      cases hb
      rw [e]
      exact own
    · rw [call_ne e] at hb
      exact ch.tasks hb

/-- The exchange puts the chain at the end; it is not yet linked to what was the last node. -/
lemma exchange (ch : Chained s Q) (ended : s.call a = .ended l) : Chained (s.exchange a) (Q ++ l) := by
  obtain ⟨ne, nd, out, adj, last⟩ := ch.chain ended
  obtain _ | ⟨x, l⟩ := l
  · exact absurd rfl ne
  have hQ : Q ≠ [] := by
    rintro rfl
    cases ch.first
  have e : s.exchange a = { s.setCall a (.swapped s.head x) with
      head := (x :: l).getLast (by simp)
      order := if a = none then s.order else s.order ++ x :: l } := by
    unfold Queue.exchange
    rw [ended]
  have getLast : (x :: l).getLast? = some ((x :: l).getLast (by simp)) := List.getLast?_eq_some_getLast _
  have call_a : (s.exchange a).call a = .swapped s.head x := by
    rw [e]
    exact Function.update_self ..
  have call_ne : ∀ {b}, b ≠ a → (s.exchange a).call b = s.call b := by
    rw [e]
    exact fun h => Function.update_of_ne h ..
  have ended' : ∀ {b m}, (s.exchange a).call b = .ended m → b ≠ a ∧ s.call b = .ended m := by
    intro b m hb
    have h : b ≠ a := by
      rintro rfl
      rw [call_a] at hb
      cases hb
    exact ⟨h, call_ne h ▸ hb⟩
  have next : (s.exchange a).next = s.next := by rw [e]; rfl
  have stub : (s.exchange a).stub = s.stub := by rw [e]; rfl
  have popped : (s.exchange a).popped = s.popped := by rw [e]; rfl
  have order : (s.exchange a).order = if a = none then s.order else s.order ++ x :: l := by rw [e]
  have swapped : ∀ {b y z}, s.call b = .swapped y z → (s.exchange a).call b = .swapped y z := by
    intro b y z hb
    rw [call_ne, hb]
    rintro rfl
    rw [ended] at hb
    cases hb
  refine ⟨?_, ?_, ?_, ?_, fun {y z} h => ?_, fun {b y z} hb => ?_, fun {b c y z z'} hb hc => ?_,
    fun {b m} hb => ?_, fun hb hc => ?_, fun hb => ?_, ?_⟩
  · exact List.nodup_append.2 ⟨ch.nodup, nd, fun y hy z hz e => out z hz (e ▸ hy)⟩
  · rw [List.head?_append_of_ne_nil _ hQ, e]
    exact ch.first
  · rw [List.getLast?_append, getLast, e]
    rfl
  · rw [e]
    exact last getLast
  · rw [next]
    rcases (adj_append (x := y) (y := z) (a := Q) rfl).1 h with h | ⟨h', rfl⟩ | h
    · obtain e | ⟨e, b, hb⟩ := ch.linked h
      · exact .inl e
      · exact .inr ⟨e, b, swapped hb⟩
    · rw [ch.last, Option.some.injEq] at h'
      subst h'
      exact .inr ⟨ch.ends, a, call_a⟩
    · exact .inl (adj h)
  · rw [next, adj_append rfl]
    by_cases h : b = a
    · rw [h, call_a] at hb
      cases hb
      exact ⟨.inr (.inl ⟨ch.last, rfl⟩), ch.ends⟩
    · rw [call_ne h] at hb
      exact ⟨.inl (ch.gap hb).1, (ch.gap hb).2⟩
  · -- the node `head_` named is the last of `Q`, so no other append got it
    have fresh : ∀ {b z}, b ≠ a → (s.exchange a).call b ≠ .swapped s.head z := by
      intro b z h hb
      rw [call_ne h] at hb
      exact (ch.gap hb).1.ne_last ch.nodup ch.last
    by_cases eb : b = a
    · by_cases ec : c = a
      · rw [eb, ec]
      · rw [eb, call_a] at hb
        cases hb
        exact absurd hc (fresh ec)
    · by_cases ec : c = a
      · rw [ec, call_a] at hc
        cases hc
        exact absurd hb (fresh eb)
      · rw [call_ne eb] at hb
        rw [call_ne ec] at hc
        exact ch.one hb hc
  · obtain ⟨h, hb⟩ := ended' hb
    obtain ⟨ne', nd', out', adj', last'⟩ := ch.chain hb
    rw [next]
    refine ⟨ne', nd', fun y hy => ?_, adj', last'⟩
    rw [List.mem_append, not_or]
    exact ⟨out' y hy, fun hx => h (ch.apart hb ended hy hx)⟩
  · exact ch.apart (ended' hb).2 (ended' hc).2
  · rw [stub]
    exact ch.tasks (ended' hb).2
  · rw [popped, stub, List.filter_append, ← List.append_assoc, ← ch.order, order]
    obtain ⟨own, own'⟩ := ch.tasks ended
    by_cases h : a = none
    · rw [own' h, if_pos h]
      simp
    · have : (x :: l).filter (· ≠ s.stub) = x :: l := by
        rw [List.filter_eq_self]
        intro y hy
        have : y ≠ s.stub := by
          rintro rfl
          exact h (own.1 hy)
        simpa using this
      rw [this, if_neg h]

/-- The store of the link. -/
lemma link (ch : Chained s Q) (swapped : s.call a = .swapped x y) : Chained (s.link a) Q := by
  obtain ⟨adj, null⟩ := ch.gap swapped
  have e : s.link a =
      { s.setCall a .idle with next := Function.update s.next x (some y) } := by
    unfold Queue.link
    rw [swapped]
  have call_a : (s.link a).call a = .idle := by
    rw [e]
    exact Function.update_self ..
  have call_ne : ∀ {b}, b ≠ a → (s.link a).call b = s.call b := by
    rw [e]
    exact fun h => Function.update_of_ne h ..
  have other : ∀ {b c}, (s.link a).call b = c → c ≠ .idle → b ≠ a ∧ s.call b = c := by
    intro b c hb hc
    have h : b ≠ a := by
      rintro rfl
      rw [call_a] at hb
      exact hc hb.symm
    exact ⟨h, call_ne h ▸ hb⟩
  have next_x : (s.link a).next x = some y := by
    rw [e]
    exact Function.update_self ..
  have next_ne : ∀ {z}, z ≠ x → (s.link a).next z = s.next z := by
    rw [e]
    exact fun h => Function.update_of_ne h ..
  have hx := adj.mem.1
  refine ⟨ch.nodup, ?_, ?_, ?_, fun {u v} h => ?_, fun {b u v} hb => ?_, fun hb hc => ?_,
    fun {b m} hb => ?_, fun hb hc => ?_, fun hb => ?_, ?_⟩
  · rw [e]
    exact ch.first
  · rw [e]
    exact ch.last
  · have ne : s.head ≠ x := by
      rintro rfl
      exact adj.ne_last ch.nodup ch.last
    have head : (s.link a).head = s.head := by rw [e]; rfl
    rw [head, next_ne ne]
    exact ch.ends
  · by_cases eu : u = x
    · subst eu
      rw [next_x, adj.unique ch.nodup h]
      exact .inl rfl
    · rw [next_ne eu]
      obtain e | ⟨e, b, hb⟩ := ch.linked h
      · exact .inl e
      · refine .inr ⟨e, b, ?_⟩
        rw [call_ne, hb]
        rintro rfl
        rw [swapped] at hb
        cases hb
        exact eu rfl
  · obtain ⟨h, hb⟩ := other hb nofun
    have ne : u ≠ x := by
      rintro rfl
      exact h (ch.one hb swapped)
    rw [next_ne ne]
    exact ch.gap hb
  · exact ch.one (other hb nofun).2 (other hc nofun).2
  · obtain ⟨-, hb⟩ := other hb nofun
    obtain ⟨ne', nd', out', adj', last'⟩ := ch.chain hb
    have next_m : ∀ {z}, z ∈ m → (s.link a).next z = s.next z := by
      intro z hz
      apply next_ne
      rintro rfl
      exact out' z hz hx
    refine ⟨ne', nd', out', fun h => ?_, fun h => ?_⟩
    · rw [next_m h.mem.1, adj' h]
    · rw [next_m (List.mem_of_getLast? h), last' h]
  · exact ch.apart (other hb nofun).2 (other hc nofun).2
  · have stub : (s.link a).stub = s.stub := by rw [e]; rfl
    rw [stub]
    exact ch.tasks (other hb nofun).2
  · rw [e]
    exact ch.order

end Chained

end JLib.MPSCQueue
