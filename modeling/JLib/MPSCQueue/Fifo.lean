import JLib.MPSCQueue.Chain
import Mathlib.Logic.Function.Iterate

/-!
# First in, first out

What `pop` does to the list in the queue, and from it that the tasks come out in the order of the
exchanges. `pop` may return false while there are tasks, if an append has not stored its link; with none
in progress it returns all of them first.
-/

namespace JLib.MPSCQueue
open LTS Links Queue

variable {α ι : Type} [DecidableEq α] {s u : Queue α ι} {Q R l : List α}
  {a : Option ι} {b : Label α ι} {n t : α}

/-- What is known at each point of `pop`. -/
def At (s : Queue α ι) (Q : List α) : Prop :=
  match s.pc with
  | .idle => s.call none = .idle
  | .pastStub t | .atEnd t | .appended t => s.tail = t ∧ t ≠ s.stub ∧ s.call none = .idle
  | .drained t => s.tail = t ∧ t ≠ s.stub ∧ s.call none = .idle ∧ s.stub ∉ Q
  | .appending t => s.tail = t ∧ t ≠ s.stub ∧ s.call none ≠ .idle

/-- The consumer moves past the front node. -/
lemma Chained.advance (ch : Chained s (s.tail :: R)) (hn : s.next s.tail = some n) {pc : Pc α}
    {res : List (Option α)}
    (hres : res.reduceOption = s.popped ++ if s.tail = s.stub then [] else [s.tail]) :
    Chained { s with tail := n, pc := pc, results := res } R := by
  obtain ⟨R', e, next, -⟩ := ch.front
  cases e
  have first := next hn
  have hR : R ≠ [] := by
    rintro rfl
    cases first
  refine ⟨(List.nodup_cons.1 ch.nodup).2, first, ?_, ch.ends, fun h => ch.linked (h.cons _),
    fun ha => ?_, ch.one, fun ha => ?_, ch.apart, ch.tasks, ?_⟩
  · rw [← ch.last, List.getLast?_cons_of_ne_nil hR]
  · obtain ⟨adj, null⟩ := ch.gap ha
    refine ⟨adj.tail ?_, null⟩
    rintro rfl
    rw [hn] at null
    cases null
  · obtain ⟨ne, nd, out, adj, last⟩ := ch.chain ha
    exact ⟨ne, nd, fun x hx h => out x hx (List.mem_cons_of_mem _ h), adj, last⟩
  · show s.order = res.reduceOption ++ _
    rw [hres, ch.order, List.append_assoc]
    congr 1
    by_cases h : s.tail = s.stub
    · simp [h]
    · simp [h]

omit [DecidableEq α] in
/-- A pop without a task adds nothing to what was popped. -/
lemma popped_none (s : Queue α ι) : (s.results ++ [none]).reduceOption = s.popped := by
  simp [Queue.popped, List.reduceOption_append]

omit [DecidableEq α] in
/-- A pop with a task adds it at the end. -/
lemma popped_some (s : Queue α ι) (t : α) :
    (s.results ++ [some t]).reduceOption = s.popped ++ [t] := by
  simp [Queue.popped, List.reduceOption_append]

/-- A pop without a task leaves the chain as it was. -/
lemma Chained.returnFalse (ch : Chained s Q) : Chained s.returnFalse Q := by
  refine ⟨ch.nodup, ch.first, ch.last, ch.ends, ch.linked, ch.gap, ch.one, ch.chain, ch.apart,
    ch.tasks, ?_⟩
  show s.order = (s.results ++ [none]).reduceOption ++ _
  rw [popped_none]
  exact ch.order

/-- The place of the consumer is no part of the chain. -/
lemma Chained.setPc (ch : Chained s Q) (pc : Pc α) : Chained { s with pc := pc } Q :=
  ⟨ch.nodup, ch.first, ch.last, ch.ends, ch.linked, ch.gap, ch.one, ch.chain, ch.apart, ch.tasks,
    ch.order⟩

/-- A pop with a task takes the first of the chain. -/
lemma Chained.returnTask (ch : Chained s (s.tail :: R)) (hn : s.next s.tail = some n)
    (task : s.tail ≠ s.stub) : Chained (s.returnTask s.tail n) R := by
  apply ch.advance hn
  rw [popped_some, if_neg task]

/-- The queue is down to one node if that is the first and the last. -/
lemma Chained.single (ch : Chained s Q) (h : s.tail = s.head) : Q = [s.tail] := by
  obtain ⟨R, rfl, -⟩ := ch.front
  cases R with
  | nil => rfl
  | cons r R =>
    have last := ch.last
    rw [List.getLast?_cons_cons, ← h] at last
    exact absurd (List.mem_of_getLast? last) (List.nodup_cons.1 ch.nodup).1

variable [DecidableEq ι]

/-- The consumer may push the stub once it is out of the chain. -/
lemma Chained.beginStub (ch : Chained s Q) (idle : s.call none = .idle) (out : s.stub ∉ Q) :
    Chained (s.begin none [s.stub]) Q := by
  apply ch.begin idle (by simp) (List.nodup_singleton _)
  · intro x hx
    rw [List.mem_singleton.1 hx]
    refine ⟨out, fun b m hb hm => ?_⟩
    rw [(ch.tasks hb).1.1 hm, idle] at hb
    cases hb
  · simp

omit [DecidableEq α] in
/-- What the exchange of a producer leaves alone. -/
lemma exchange_fields (ended : s.call a = .ended l) (ne : l ≠ []) :
    (s.exchange a).tail = s.tail ∧ (s.exchange a).stub = s.stub ∧ (s.exchange a).pc = s.pc ∧
    (s.exchange a).results = s.results ∧ (s.exchange a).call a ≠ .idle ∧
    ∀ b ≠ a, (s.exchange a).call b = s.call b := by
  obtain _ | ⟨x, l⟩ := l
  · exact absurd rfl ne
  unfold Queue.exchange
  rw [ended]
  refine ⟨rfl, rfl, rfl, rfl, ?_, fun b hb => Function.update_of_ne hb ..⟩
  show Function.update s.call a _ a ≠ _
  rw [Function.update_self]
  nofun

/-- What the linking of a producer leaves alone. -/
lemma link_fields {x y : α} (swapped : s.call a = .swapped x y) :
    (s.link a).tail = s.tail ∧ (s.link a).stub = s.stub ∧ (s.link a).pc = s.pc ∧
    (s.link a).results = s.results ∧ (s.link a).call a = .idle ∧
    ∀ b ≠ a, (s.link a).call b = s.call b := by
  unfold Queue.link
  rw [swapped]
  exact ⟨rfl, rfl, rfl, rfl, Function.update_self .., fun b hb => Function.update_of_ne hb ..⟩

/-- One action of `pop`. -/
lemma Chained.pop (ch : Chained s Q) (at' : At s Q) : ∃ Q', Chained s.pop Q' ∧ At s.pop Q' := by
  obtain ⟨R, rfl, front⟩ := ch.front
  unfold At at at'
  unfold Queue.pop
  cases hpc : s.pc with
  | idle =>
    rw [hpc] at at'
    cases hn : s.next s.tail with
    | some n =>
      by_cases h : s.tail = s.stub
      · have fresh : n ≠ s.stub := by
          have := front.1 hn
          rintro rfl
          exact (List.nodup_cons.1 ch.nodup).1 (h ▸ List.mem_of_head? this)
        simp only [h, if_true]
        refine ⟨R, ?_, rfl, fresh, at'⟩
        apply ch.advance hn
        rw [if_pos h, List.append_nil]
        rfl
      · simp only [h, if_false]
        exact ⟨R, ch.returnTask hn h, at'⟩
    | none =>
      by_cases h : s.tail = s.stub
      · simp only [h, if_true]
        exact ⟨_, ch.returnFalse, at'⟩
      · simp only [h, if_false]
        exact ⟨_, ch.setPc _, rfl, h, at'⟩
  | pastStub t =>
    rw [hpc] at at'
    obtain ⟨rfl, task, idle⟩ := at'
    simp only
    cases hn : s.next s.tail with
    | some n => exact ⟨R, ch.returnTask hn task, idle⟩
    | none => exact ⟨_, ch.setPc _, rfl, task, idle⟩
  | atEnd t =>
    rw [hpc] at at'
    obtain ⟨rfl, task, idle⟩ := at'
    simp only
    by_cases h : s.tail = s.head
    · rw [if_neg (not_not.2 h)]
      refine ⟨_, ch.setPc _, rfl, task, idle, ?_⟩
      rw [ch.single h, List.mem_singleton]
      exact fun e => task e.symm
    · rw [if_pos h]
      exact ⟨_, ch.returnFalse, idle⟩
  | drained t =>
    rw [hpc] at at'
    obtain ⟨rfl, task, idle, out⟩ := at'
    refine ⟨_, (ch.beginStub idle out).setPc _, rfl, task, ?_⟩
    show (s.begin none [s.stub]).call none ≠ _
    rw [begin_call_self]
    nofun
  | appending t =>
    rw [hpc] at at'
    obtain ⟨rfl, task, busy⟩ := at'
    simp only
    cases hc : s.call none with
    | idle => exact absurd hc busy
    | ended l =>
      obtain ⟨h1, h2, h3, -, h5, -⟩ := exchange_fields hc (ch.chain hc).1
      refine ⟨_, ch.exchange hc, ?_⟩
      unfold At
      simp only [h3, hpc, h1, h2]
      exact ⟨trivial, task, h5⟩
    | swapped x y =>
      obtain ⟨h1, h2, -, -, h5, -⟩ := link_fields hc
      refine ⟨_, (ch.link hc).setPc _, ?_⟩
      exact ⟨h1, h2 ▸ task, h5⟩
  | appended t =>
    rw [hpc] at at'
    obtain ⟨rfl, task, idle⟩ := at'
    simp only
    cases hn : s.next s.tail with
    | some n => exact ⟨R, ch.returnTask hn task, idle⟩
    | none => exact ⟨_, ch.returnFalse, idle⟩

omit [DecidableEq α] [DecidableEq ι] in
/-- A producer changes nothing `pop` goes by, except that it may append tasks. -/
lemma At.frame (at' : At s Q) (tail : u.tail = s.tail) (stub : u.stub = s.stub) (pc : u.pc = s.pc)
    (call : u.call none = s.call none) (list : R = Q ∨ ∃ l, R = Q ++ l ∧ s.stub ∉ l) : At u R := by
  unfold At at *
  rw [pc]
  cases hpc : s.pc with
  | drained t =>
    rw [hpc] at at'
    simp only [tail, stub, call] at at' ⊢
    obtain ⟨e, task, idle, out⟩ := at'
    refine ⟨e, task, idle, ?_⟩
    rcases list with rfl | ⟨l, rfl, hl⟩
    · exact out
    · rw [List.mem_append, not_or]
      exact ⟨out, hl⟩
  | _ =>
    rw [hpc] at at'
    simpa only [tail, stub, call] using at'

/-- Every step takes one chain to another. -/
lemma Chained.step (ch : Chained s Q) (at' : At s Q) (st : Step s b u) :
    ∃ Q', Chained u Q' ∧ At u Q' := by
  cases st with
  | @push p chain idle ne nd out =>
    refine ⟨Q, ch.begin idle ne nd (fun x hx => ?_) ?_, at'.frame rfl rfl rfl ?_ (.inl rfl)⟩
    · exact ⟨ch.notMem_of_free (out x hx), (out x hx).2.2⟩
    · have : s.stub ∉ chain := fun h => (out _ h).1 rfl
      simp [this]
    · exact begin_call_ne (Option.some_ne_none p).symm
  | @exchange p chain ended =>
    obtain ⟨h1, h2, h3, -, -, h6⟩ := exchange_fields ended (ch.chain ended).1
    refine ⟨_, ch.exchange ended, at'.frame h1 h2 h3 (h6 _ (by simp)) (.inr ⟨_, rfl, ?_⟩)⟩
    rw [(ch.tasks ended).1]
    nofun
  | link swapped =>
    obtain ⟨h1, h2, h3, -, -, h6⟩ := link_fields swapped
    exact ⟨_, ch.link swapped, at'.frame h1 h2 h3 (h6 _ (by simp)) (.inl rfl)⟩
  | @foreign x v free =>
    refine ⟨Q, ch.frame fun y hy => ?_, at'.frame rfl rfl rfl rfl (.inl rfl)⟩
    have e : y = x := by
      by_contra ne
      exact hy (Function.update_of_ne ne ..)
    rw [e]
    exact ⟨ch.notMem_of_free free, free.2.2⟩
  | pop => exact ch.pop at'

omit [DecidableEq ι] in
/-- A new queue has the stub in its chain. -/
lemma Chained.init (next : α → Option α) (stub : α) :
    Chained (Queue.init next stub : Queue α ι) [stub] := by
  refine ⟨List.nodup_singleton _, rfl, rfl, Function.update_self .., fun h => h.elim, nofun, nofun,
    nofun, nofun, nofun, ?_⟩
  simp [Queue.init, Queue.popped, List.reduceOption]

omit [DecidableEq α] in
/-- An exchange puts the tasks of a producer at the end of the order. -/
lemma Queue.exchange_order (s : Queue α ι) (a : Option ι) :
    (s.exchange a).stub = s.stub ∧
    ((s.exchange a).order = s.order ∨
      ∃ l, s.call a = .ended l ∧ a ≠ none ∧ (s.exchange a).order = s.order ++ l) := by
  unfold Queue.exchange
  split
  next x l h =>
    refine ⟨rfl, ?_⟩
    by_cases e : a = none
    · exact .inl (if_pos e)
    · exact .inr ⟨_, h, e, if_neg e⟩
  next => exact ⟨rfl, .inl rfl⟩

/-- A linking leaves the order alone. -/
lemma Queue.link_order (s : Queue α ι) (a : Option ι) :
    (s.link a).stub = s.stub ∧ (s.link a).order = s.order := by
  unfold Queue.link
  split
  · exact ⟨rfl, rfl⟩
  · exact ⟨rfl, rfl⟩

/-- A pop leaves the order alone. -/
lemma Queue.pop_order (s : Queue α ι) : s.pop.stub = s.stub ∧ s.pop.order = s.order := by
  unfold Queue.pop
  cases s.pc with
  | idle =>
    simp only
    split
    · split
      · exact ⟨rfl, rfl⟩
      · exact ⟨rfl, rfl⟩
    · split
      · exact ⟨rfl, rfl⟩
      · exact ⟨rfl, rfl⟩
  | pastStub t =>
    simp only
    split
    · exact ⟨rfl, rfl⟩
    · exact ⟨rfl, rfl⟩
  | atEnd t =>
    simp only
    split
    · exact ⟨rfl, rfl⟩
    · exact ⟨rfl, rfl⟩
  | drained t => exact ⟨rfl, rfl⟩
  | appending t =>
    simp only
    split
    · exact s.link_order none
    · obtain ⟨h, e | ⟨_, -, ne, -⟩⟩ := s.exchange_order none
      · exact ⟨h, e⟩
      · exact absurd rfl ne
  | appended t =>
    simp only
    split
    · exact ⟨rfl, rfl⟩
    · exact ⟨rfl, rfl⟩

/-- The stub is not among the tasks. -/
lemma Chained.step_order (ch : Chained s Q) (st : Step s b u) (out : s.stub ∉ s.order) :
    u.stub = s.stub ∧ s.stub ∉ u.order := by
  cases st with
  | push _ _ _ _ => exact ⟨rfl, out⟩
  | @exchange p chain _ =>
    obtain ⟨h, e | ⟨l, hl, -, e⟩⟩ := s.exchange_order (some p)
    · exact ⟨h, e ▸ out⟩
    · refine ⟨h, ?_⟩
      rw [e, List.mem_append, not_or, (ch.tasks hl).1]
      exact ⟨out, nofun⟩
  | link _ =>
    obtain ⟨h, e⟩ := s.link_order _
    exact ⟨h, e ▸ out⟩
  | foreign _ => exact ⟨rfl, out⟩
  | pop =>
    obtain ⟨h, e⟩ := s.pop_order
    exact ⟨h, e ▸ out⟩

/-- Every state reached has a chain, and the stub is in no order. -/
lemma chained_reached {next : α → Option α} {stub : α} (rn : Reaches Step (Queue.init next stub) s) :
    (∃ Q, Chained s Q ∧ At s Q) ∧ s.stub = stub ∧ s.stub ∉ s.order := by
  refine rn.invariant (I := fun s => (∃ Q, Chained s Q ∧ At s Q) ∧ s.stub = stub ∧ s.stub ∉ s.order)
    ⟨⟨_, Chained.init next stub, rfl⟩, rfl, by simp [Queue.init]⟩ ?_
  rintro t a u ⟨⟨Q, ch, at'⟩, e, out⟩ - st
  obtain ⟨e', out'⟩ := ch.step_order st out
  exact ⟨ch.step at' st, e'.trans e, e' ▸ out'⟩

/-! ## Draining -/

/-- No producer is at work, and there was none since `pop` last found a null link. -/
def Still (s : Queue α ι) (Q : List α) : Prop :=
  (∀ p, s.call (some p) = .idle) ∧
  match s.pc with
  | .idle | .pastStub _ => True
  | .atEnd t | .drained t => Q = [t]
  | .appending t => s.call none = .ended [s.stub] ∧ Q = [t] ∨
      s.call none = .swapped t s.stub ∧ Q = [t, s.stub]
  | .appended t => s.next t ≠ none

/-- How many actions `pop` takes at most from here. -/
def actionsLeft (s : Queue α ι) : Nat :=
  match s.pc with
  | .idle => 7
  | .pastStub _ => 6
  | .atEnd _ => 5
  | .drained _ => 4
  | .appending _ =>
    match s.call none with
    | .swapped _ _ => 2
    | _ => 3
  | .appended _ => 1

/-- What one action of `pop` gives while no producer is at work. -/
inductive Progress (s u : Queue α ι) : Prop where
  | empty :
    s.rest = [] →
    u.results = s.results ++ [none] →
    Progress s u
  | task (x : α) :
    s.rest = x :: u.rest →
    u.results = s.results ++ [some x] →
    Progress s u
  | action :
    u.rest = s.rest →
    u.results = s.results →
    actionsLeft u < actionsLeft s →
    Progress s u

omit [DecidableEq ι] in
/-- With all links stored the front node's link is null only if it is the last. -/
lemma Chained.still_front (ch : Chained s (s.tail :: R)) (idle : ∀ a, s.call a = .idle)
    (hn : s.next s.tail = none) : R = [] := by
  obtain ⟨R', e, -, front⟩ := ch.front
  cases e
  rcases front hn with h | ⟨a, y, ha⟩
  · exact h
  · rw [idle a] at ha
    cases ha

omit [DecidableEq ι] in
/-- A pop at a task returns it. -/
lemma Chained.task (ch : Chained s (s.tail :: R)) (hn : s.next s.tail = some n)
    (task : s.tail ≠ s.stub) : Progress s (s.returnTask s.tail n) := by
  refine .task s.tail ?_ rfl
  rw [ch.rest_eq, (ch.returnTask hn task).rest_eq, List.filter_cons_of_pos (by simpa using task)]
  rfl

/-- While no producer is at work, an action of `pop` keeps it so and makes progress. -/
lemma Chained.pop_still (ch : Chained s Q) (at' : At s Q) (st : Still s Q) :
    ∃ Q', Chained s.pop Q' ∧ At s.pop Q' ∧ Still s.pop Q' ∧ Progress s s.pop := by
  obtain ⟨R, rfl, front⟩ := ch.front
  obtain ⟨quiet, st⟩ := st
  have idle : s.call none = .idle → ∀ a, s.call a = .idle := by
    rintro h (_ | p)
    · exact h
    · exact quiet p
  have act : ∀ {u : Queue α ι}, u.order = s.order → u.results = s.results →
      actionsLeft u < actionsLeft s → Progress s u := by
    intro u ho hr lt
    refine .action ?_ hr lt
    unfold Queue.rest Queue.popped
    rw [ho, hr]
  unfold At at at'
  unfold Queue.pop
  unfold Still
  cases hpc : s.pc with
  | idle =>
    rw [hpc] at at' st
    cases hn : s.next s.tail with
    | some n =>
      by_cases h : s.tail = s.stub
      · simp only [h, if_true]
        have fresh : n ≠ s.stub := by
          have := front.1 hn
          rintro rfl
          exact (List.nodup_cons.1 ch.nodup).1 (h ▸ List.mem_of_head? this)
        refine ⟨R, ch.advance hn ?_, ⟨rfl, fresh, at'⟩, ⟨quiet, trivial⟩, act rfl rfl ?_⟩
        · rw [if_pos h, List.append_nil]
          rfl
        · simp [actionsLeft, hpc]
      · simp only [h, if_false]
        exact ⟨R, ch.returnTask hn h, at', ⟨quiet, trivial⟩, ch.task hn h⟩
    | none =>
      have last := ch.still_front (idle at') hn
      by_cases h : s.tail = s.stub
      · simp only [h, if_true]
        refine ⟨_, ch.returnFalse, at', ⟨quiet, trivial⟩, .empty ?_ rfl⟩
        rw [ch.rest_eq, last]
        simp [h]
      · simp only [h, if_false]
        refine ⟨_, ch.setPc _, ⟨rfl, h, at'⟩, ⟨quiet, ?_⟩, act rfl rfl ?_⟩
        · rw [last]
        · simp [actionsLeft, hpc]
  | pastStub t =>
    rw [hpc] at at'
    obtain ⟨rfl, task, hc⟩ := at'
    simp only
    cases hn : s.next s.tail with
    | some n => exact ⟨R, ch.returnTask hn task, hc, ⟨quiet, trivial⟩, ch.task hn task⟩
    | none =>
      refine ⟨_, ch.setPc _, ⟨rfl, task, hc⟩, ⟨quiet, ?_⟩, act rfl rfl ?_⟩
      · rw [ch.still_front (idle hc) hn]
      · simp [actionsLeft, hpc]
  | atEnd t =>
    rw [hpc] at at' st
    obtain ⟨rfl, task, hc⟩ := at'
    have h : s.tail = s.head := by
      have := ch.last
      rw [st] at this
      simpa using this
    simp only
    rw [if_neg (not_not.2 h)]
    refine ⟨_, ch.setPc _, ⟨rfl, task, hc, ?_⟩, ⟨quiet, st⟩, act rfl rfl ?_⟩
    · rw [st, List.mem_singleton]
      exact fun e => task e.symm
    · simp [actionsLeft, hpc]
  | drained t =>
    rw [hpc] at at' st
    obtain ⟨rfl, task, hc, out⟩ := at'
    have call := begin_call_self (s := s) (a := none) (l := [s.stub])
    refine ⟨_, (ch.beginStub hc out).setPc _, ⟨rfl, task, ?_⟩, ⟨fun p => ?_, .inl ⟨call, st⟩⟩,
      act rfl rfl ?_⟩
    · show (s.begin none [s.stub]).call none ≠ _
      rw [call]
      nofun
    · show (s.begin none [s.stub]).call (some p) = _
      rw [begin_call_ne (Option.some_ne_none p)]
      exact quiet p
    · show actionsLeft { s.begin none [s.stub] with pc := .appending s.tail } < _
      simp [actionsLeft, hpc, call]
  | appending t =>
    rw [hpc] at at' st
    obtain ⟨rfl, task, -⟩ := at'
    rcases st with ⟨hc, hQ⟩ | ⟨hc, hQ⟩
    · obtain ⟨h1, h2, h3, h4, -, h6⟩ := exchange_fields hc (by simp)
      have call : (s.exchange none).call none = .swapped s.tail s.stub := by
        have head : s.head = s.tail := by
          have := ch.last
          rw [hQ] at this
          simpa using this.symm
        simp only [Queue.exchange, hc, Queue.setCall, Function.update_self, head]
      simp only [hc]
      refine ⟨_, ch.exchange hc, ?_, ⟨fun p => ?_, ?_⟩, act ?_ h4 ?_⟩
      · unfold At
        simp only [h3, hpc, h1, h2, call]
        exact ⟨trivial, task, nofun⟩
      · rw [h6 _ (Option.some_ne_none p)]
        exact quiet p
      · simp only [h3, hpc, h2, call]
        exact .inr ⟨trivial, by rw [hQ]; rfl⟩
      · obtain ⟨-, e | ⟨_, -, ne, -⟩⟩ := s.exchange_order none
        · exact e
        · exact absurd rfl ne
      · simp [actionsLeft, h3, hpc, call, hc]
    · obtain ⟨h1, h2, -, h4, h5, h6⟩ := link_fields hc
      have linked : (s.link none).next s.tail = some s.stub := by
        unfold Queue.link
        rw [hc]
        exact Function.update_self ..
      simp only [hc]
      refine ⟨_, (ch.link hc).setPc _, ⟨h1, h2 ▸ task, h5⟩, ⟨fun p => ?_, ?_⟩,
        act (s.link_order none).2 h4 ?_⟩
      · show (s.link none).call (some p) = _
        rw [h6 _ (Option.some_ne_none p)]
        exact quiet p
      · show (s.link none).next s.tail ≠ none
        rw [linked]
        nofun
      · simp [actionsLeft, hpc, hc]
  | appended t =>
    rw [hpc] at at' st
    obtain ⟨rfl, task, hc⟩ := at'
    obtain ⟨n, hn⟩ := Option.ne_none_iff_exists'.1 st
    simp only [hn]
    exact ⟨R, ch.returnTask hn task, hc, ⟨quiet, trivial⟩, ch.task hn task⟩

/-- Enough actions of `pop` return all that is left, and then false. -/
lemma Chained.drain {s : Queue α ι} {Q : List α} (ch : Chained s Q) (at' : At s Q) (st : Still s Q) :
    ∃ k, (Queue.pop^[k] s).results = s.results ++ s.rest.map some ++ [none] := by
  obtain ⟨Q', ch', at'', st', pr⟩ := ch.pop_still at' st
  cases pr with
  | empty hr hres => exact ⟨1, by simpa [hr] using hres⟩
  | task t hr hres =>
    obtain ⟨k, hk⟩ := Chained.drain ch' at'' st'
    refine ⟨k + 1, ?_⟩
    rw [Function.iterate_succ_apply, hk, hres, hr]
    simp
  | action hr hres _ =>
    obtain ⟨k, hk⟩ := Chained.drain ch' at'' st'
    refine ⟨k + 1, ?_⟩
    rw [Function.iterate_succ_apply, hk, hres, hr]
termination_by (s.rest.length, actionsLeft s)
decreasing_by
  · rw [hr]
    exact Prod.Lex.left _ _ (Nat.lt_succ_self _)
  · rw [hr]
    exact Prod.Lex.right _ ‹_›

/-- The tasks popped are a prefix of the tasks in the order of the exchanges, and the stub is not one of
them; and when no append is in progress, repeated `pop` returns all that is left before it returns
false. -/
theorem pops_in_exchange_order {next : α → Option α} {stub : α}
    (rn : Reaches Step (Queue.init next stub) s) :
    s.popped <+: s.order ∧ stub ∉ s.popped ∧
    (s.pc = .idle → (∀ p, s.call (some p) = .idle) →
      ∃ k, (Queue.pop^[k] s).results =
        s.results ++ (s.order.drop s.popped.length).map some ++ [none]) := by
  obtain ⟨⟨Q, ch, at'⟩, e, out⟩ := chained_reached rn
  refine ⟨⟨_, ch.order.symm⟩, fun h => ?_, fun idle quiet => ?_⟩
  · apply out
    rw [ch.order, List.mem_append, e]
    exact .inl h
  · apply ch.drain at'
    refine ⟨quiet, ?_⟩
    rw [idle]
    trivial

/-- A batch of two is appended while the consumer looks, and fails, before the link is there. -/
theorem pops_in_exchange_order_batch :
    ∃ s : Queue Nat Unit, Reaches Step (Queue.init (fun _ => none) 0) s ∧ s.order = [1, 2] ∧
      s.results = [none] ∧ s.popped <+: s.order ∧ 0 ∉ s.popped ∧
      ∃ k, (Queue.pop^[k] s).results = [none] ++ [some 1, some 2] ++ [none] := by
  have r1 := (Runs.refl : Reaches Step (Queue.init (fun _ => none) 0 : Queue Nat Unit) _).next
    (.push () [1, 2]) trivial (.push rfl (by decide) (by decide) fun x hx => ⟨by
      rintro rfl
      simp [Queue.init] at hx, by simp [Queue.rest, Queue.init], nofun⟩)
  have r2 := r1.next (.exchange ()) trivial (.exchange rfl)
  have r3 := r2.next .pop trivial .pop
  have r4 := r3.next (.link ()) trivial (.link rfl)
  obtain ⟨h1, h2, h3⟩ := pops_in_exchange_order r4
  exact ⟨_, r4, rfl, rfl, h1, h2, h3 rfl fun _ => rfl⟩

end JLib.MPSCQueue
