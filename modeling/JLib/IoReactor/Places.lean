import JLib.IoReactor.Model
import JLib.LTS.Custody

/-!
# Where a request is

From `SubmitOp` to the push of its task a request is at one place: with the thread that submits it, in the
kernel, in the completion queue, with the completion thread, or among the collected tasks. So its task is
pushed once. A request that is in a shard is one whose completion is still to come.
-/

namespace JLib.IoReactor
open LTS Io

variable {θ ρ : Type} {w : Setup ρ} {s s' : State θ ρ} {t : θ} {r : ρ}

inductive Place (θ : Type) where
  | thread (t : θ)
  | ops
  | cq
  | loop
  | batch
  deriving DecidableEq

def Pc.requests : Pc ρ → List ρ
  | checked r => [r]
  | linked r => [r]
  | _ => []

def State.held (s : State θ ρ) : Place θ → List ρ
  | .thread t => (s.pc t).requests
  | .ops => Op.requests s.ops
  | .cq => Cqe.requests s.cq
  | .loop => s.loop.requests
  | .batch => s.batchHi ++ s.batchLo

/-- Every request in use is at one place at most, and its task was not pushed. -/
structure Placed (s : State θ ρ) : Prop where
  custody : Custody s.held
  live : ∀ {p r}, r ∈ s.held p → s.live r = true ∧ s.pushes r = 0

/-- A sentinel is no request. -/
@[simp] lemma Op.requests_sentinel (l : List (Op ρ)) : Op.requests (.sentinel :: l) = Op.requests l := rfl

/-- An operation is its request. -/
@[simp] lemma Op.requests_request (r : ρ) (l : List (Op ρ)) :
    Op.requests (.request r :: l) = r :: Op.requests l := rfl

/-- A sentinel is no request. -/
@[simp] lemma Cqe.requests_sentinel (l : List (Cqe ρ)) : Cqe.requests (.sentinel :: l) = Cqe.requests l := rfl

/-- A completion is that of its request. -/
@[simp] lemma Cqe.requests_request (r : ρ) (res : Int) (l : List (Cqe ρ)) :
    Cqe.requests (.request r res :: l) = r :: Cqe.requests l := rfl

/-- The requests of one list of completions and then of the other. -/
lemma Cqe.requests_append (l l' : List (Cqe ρ)) :
    Cqe.requests (l ++ l') = Cqe.requests l ++ Cqe.requests l' := List.filterMap_append ..

/-- The requests of the operations. -/
lemma Op.mem_requests {l : List (Op ρ)} : r ∈ Op.requests l ↔ .request r ∈ l := by
  unfold Op.requests
  rw [List.mem_filterMap]
  constructor
  · rintro ⟨x, hx, e⟩
    cases x with
    | request r' =>
      cases e
      exact hx
    | sentinel => cases e
  · intro h
    exact ⟨_, h, rfl⟩

/-- An operation goes, and its request with it. -/
lemma Op.requests_erase [DecidableEq ρ] (l : List (Op ρ)) :
    Op.requests (l.erase (.request r)) = (Op.requests l).erase r := by
  induction l with
  | nil => rfl
  | cons x l ih =>
    cases x with
    | sentinel =>
      rw [List.erase_cons_tail (by simp)]
      exact ih
    | request r' =>
      by_cases e : r' = r
      · subst e
        rw [List.erase_cons_head, requests_request, List.erase_cons_head]
      · rw [List.erase_cons_tail (by simpa using e), requests_request, requests_request,
          List.erase_cons_tail (by simpa using e), ih]

/-- A sentinel goes, and no request. -/
lemma Op.requests_erase_sentinel [DecidableEq ρ] (l : List (Op ρ)) :
    Op.requests (l.erase .sentinel) = Op.requests l := by
  induction l with
  | nil => rfl
  | cons x l ih =>
    cases x with
    | sentinel =>
      rw [List.erase_cons_head]
      rfl
    | request r' =>
      rw [List.erase_cons_tail (by simp), requests_request, requests_request, ih]

/-- One place after another. -/
lemma held_setPc [DecidableEq θ] (s : State θ ρ) (t : θ) (c : Pc ρ) :
    (s.setPc t c).held = Function.update s.held (.thread t) c.requests := by
  funext p
  cases p with
  | thread t' =>
    change (Function.update s.pc t c t').requests = _
    by_cases e : t' = t
    · rw [e, Function.update_self, Function.update_self]
    · rw [Function.update_of_ne e, Function.update_of_ne (by rintro ⟨⟩; exact e rfl)]
      rfl
  | ops | cq | loop | batch => rfl

namespace Placed

/-- No request moves. -/
lemma congr (pl : Placed s) (hh : ∀ p, s'.held p = s.held p) (hl : s'.live = s.live)
    (hu : s'.pushes = s.pushes) : Placed s' := by
  refine ⟨pl.custody.congr hh, fun {p r} h => ?_⟩
  rw [hh] at h
  rw [hl, hu]
  exact pl.live h

/-- Requests move between places. -/
lemma move (pl : Placed s) (mv : Custody.Moved s.held s'.held) (hl : s'.live = s.live)
    (hu : s'.pushes = s.pushes) : Placed s' := by
  obtain ⟨p, q, ne, frame, perm⟩ := id mv
  refine ⟨pl.custody.move ne frame perm.subperm, fun {p r} h => ?_⟩
  obtain ⟨p, h⟩ := mv.mem.1 ⟨p, h⟩
  rw [hl, hu]
  exact pl.live h

variable [DecidableEq θ]

/-- Requests of one place are not seen again. -/
lemma shrink {p : Place θ} (pl : Placed s) (frame : ∀ q, q ≠ p → s'.held q = s.held q)
    (sub : (s'.held p).Sublist (s.held p))
    (keep : ∀ {q r}, r ∈ s'.held q → s'.live r = s.live r ∧ s'.pushes r = s.pushes r) : Placed s' := by
  refine ⟨pl.custody.shrink frame sub.subperm, fun {q r} h => ?_⟩
  rw [(keep h).1, (keep h).2]
  by_cases e : q = p
  · subst e
    exact pl.live (sub.subset h)
  · rw [frame q e] at h
    exact pl.live h

/-- A request that leaves its place is nowhere. -/
lemma nowhere {p : Place θ} (pl : Placed s) (mine : r ∈ s.held p) (frame : ∀ q, q ≠ p → s'.held q = s.held q)
    (gone : r ∉ s'.held p) (q : Place θ) : r ∉ s'.held q := by
  intro h
  by_cases e : q = p
  · exact gone (e ▸ h)
  · rw [frame q e] at h
    exact e (pl.custody.unique h mine)

variable [DecidableEq ρ]

/-- A thread takes up a request that is not in use. -/
lemma put (pl : Placed s) (idle : s.pc t = .idle) (free : s.live r = false)
    (hh : s'.held = Function.update s.held (.thread t) [r]) (hl : s'.live = Function.update s.live r true)
    (hu : s'.pushes = Function.update s.pushes r 0) : Placed s' := by
  have none : ∀ p, r ∉ s.held p := by
    intro p h
    rw [(pl.live h).1] at free
    cases free
  have empty : s.held (.thread t) = [] := by
    change (s.pc t).requests = []
    rw [idle]
    rfl
  refine ⟨?_, fun {p r'} h => ?_⟩
  · rw [hh]
    refine pl.custody.put none (fun q hq => Function.update_of_ne hq ..) ?_
    rw [Function.update_self, empty]
  · rw [hl, hu, Function.update_apply, Function.update_apply]
    split
    · exact ⟨rfl, rfl⟩
    · rename_i ne
      rw [hh] at h
      by_cases e : p = .thread t
      · rw [e, Function.update_self] at h
        exact absurd (List.mem_singleton.1 h) ne
      · rw [Function.update_of_ne e] at h
        exact pl.live h

/-- The collected tasks are pushed. -/
lemma flush (pl : Placed s) : Placed s.flush := by
  have frame : ∀ q, q ≠ Place.batch → s.flush.held q = s.held q := by
    intro q ne
    cases q with
    | batch => exact absurd rfl ne
    | thread | ops | cq | loop => rfl
  refine pl.shrink (p := .batch) frame (List.nil_sublist _) fun {q r} h => ?_
  have out : r ∉ s.batchHi ++ s.batchLo := by
    intro mine
    exact pl.nowhere (p := .batch) mine frame List.not_mem_nil q h
  constructor
  · change (s.live r && _) = _
    rw [decide_eq_false out, Bool.not_false, Bool.and_true]
  · change s.pushes r + _ = _
    rw [List.count_eq_zero.2 out, Nat.add_zero]

/-- A flush of a full batch keeps every request at its place. -/
lemma flushFull (pl : Placed s) : Placed s.flushFull := by
  unfold State.flushFull
  split
  · exact pl.flush
  · exact pl

end Placed

variable [DecidableEq ρ]

/-- What delivery does before it flushes. -/
def State.hold (w : Setup ρ) (s : State θ ρ) (r : ρ) (res : IoResult) : State θ ρ :=
  ((s.unlink w r).answer r res).collect w r

/-- A flush leaves the completion thread where it is. -/
lemma State.flushFull_loop (s : State θ ρ) (l : Loop ρ) :
    { s.flushFull with loop := l } = { s with loop := l }.flushFull := by
  unfold flushFull
  by_cases full : s.batchHi.length = kBatch ∨ s.batchLo.length = kBatch
  · rw [if_pos full, if_pos full]
    rfl
  · rw [if_neg full, if_neg full]

omit [DecidableEq ρ] in
/-- Collecting a task leaves the completion thread where it is. -/
lemma State.collect_loop (s : State θ ρ) (l : Loop ρ) :
    { s.collect w r with loop := l } = { s with loop := l }.collect w r := by
  unfold collect
  cases w.lowLatency r <;> rfl

/-- Delivering leaves the completion thread where it is. -/
lemma State.deliver_loop (s : State θ ρ) (res : IoResult) (l : Loop ρ) :
    { s.deliver w r res with loop := l } = ({ s with loop := l }.hold w r res).flushFull := by
  unfold deliver
  rw [flushFull_loop, collect_loop]
  rfl

/-- A delivered request joins a batch. -/
lemma State.hold_batch (s : State θ ρ) (r : ρ) (res : IoResult) :
    ((s.hold w r res).batchHi ++ (s.hold w r res).batchLo).Perm (r :: (s.batchHi ++ s.batchLo)) := by
  unfold hold collect
  split
  · change (s.batchHi ++ [r] ++ s.batchLo).Perm _
    rw [List.append_assoc]
    exact List.perm_middle
  · change (s.batchHi ++ (s.batchLo ++ [r])).Perm _
    rw [← List.append_assoc]
    exact List.perm_append_singleton ..

/-- Delivery leaves everything but the shards, the result and the collected tasks. -/
lemma State.hold_frame (s : State θ ρ) (r : ρ) (res : IoResult) :
    (s.hold w r res).pc = s.pc ∧ (s.hold w r res).ops = s.ops ∧ (s.hold w r res).cq = s.cq ∧
      (s.hold w r res).loop = s.loop ∧ (s.hold w r res).live = s.live ∧
      (s.hold w r res).pushes = s.pushes ∧ (s.hold w r res).stopping = s.stopping ∧
      (s.hold w r res).called = s.called ∧ (s.hold w r res).shard = (s.unlink w r).shard ∧
      (s.hold w r res).out = Function.update s.out r (some res) := by
  unfold hold collect
  split <;> exact ⟨rfl, rfl, rfl, rfl, rfl, rfl, rfl, rfl, rfl, rfl⟩

/-- The completion thread collects the task of one of its requests. -/
lemma Placed.hold {l : Loop ρ} {res : IoResult} (pl : Placed s) (hl : s.loop.requests = r :: l.requests) :
    Placed ({ s with loop := l }.hold w r res) := by
  obtain ⟨h1, h2, h3, h4, h5, h6, -⟩ := State.hold_frame (w := w) { s with loop := l } r res
  refine pl.move ⟨.loop, .batch, by rintro ⟨⟩, fun p hp hq => ?_, ?_⟩ h5 h6
  · cases p with
    | thread t => exact congrArg (fun f => (f t).requests) h1
    | ops => exact congrArg Op.requests h2
    | cq => exact congrArg Cqe.requests h3
    | loop => exact absurd rfl hp
    | batch => exact absurd rfl hq
  · change (Loop.requests _ ++ (_ ++ _)).Perm (s.loop.requests ++ _)
    rw [h4, hl]
    exact ((State.hold_batch ..).append_left _).trans List.perm_middle

/-- A request goes from the completion thread into a batch, and on if that is full. -/
lemma Placed.deliver [DecidableEq θ] {l : Loop ρ} {res : IoResult} (pl : Placed s)
    (hl : s.loop.requests = r :: l.requests) : Placed { s.deliver w r res with loop := l } := by
  rw [State.deliver_loop]
  exact (pl.hold hl).flushFull

omit [DecidableEq ρ] in
/-- The completion thread goes on with some of its requests. -/
lemma Placed.setLoop [DecidableEq θ] {l : Loop ρ} (pl : Placed s) (sub : l.requests.Sublist s.loop.requests) :
    Placed { s with loop := l } := by
  refine pl.shrink (p := .loop) (fun q hq => ?_) sub fun _ => ⟨rfl, rfl⟩
  cases q with
  | loop => exact absurd rfl hq
  | thread | ops | cq | batch => rfl

omit [DecidableEq ρ] in
/-- A thread goes on with the same requests. -/
lemma Placed.stay [DecidableEq θ] {c : Pc ρ} (pl : Placed s) (hh : ∀ p, s'.held p = s.held p) (hl : s'.live = s.live)
    (hu : s'.pushes = s.pushes) (hr : c.requests = (s.pc t).requests) : Placed (s'.setPc t c) := by
  refine pl.congr (fun p => ?_) hl hu
  rw [held_setPc, hr]
  by_cases e : p = .thread t
  · rw [e, Function.update_self]
    rfl
  · rw [Function.update_of_ne e, hh]

/-- A step keeps every request at one place at most. -/
lemma Step.placed [DecidableEq θ] {l : Label θ ρ} (st : Step w s l s') (pl : Placed s) : Placed s' := by
  have same : ∀ p, s.held p = s.held p := fun _ => rfl
  cases st with
  | start h =>
    refine pl.congr (fun p => ?_) rfl rfl
    cases p with
    | loop =>
      change [] = s.loop.requests
      rw [h]
      rfl
    | thread | ops | cq | batch => rfl
  | submitCancelled | submitStopping | cancel => exact pl.congr (fun _ => rfl) rfl rfl
  | submit h free => exact pl.put h free (held_setPc ..) rfl rfl
  | link h => exact pl.stay (fun _ => rfl) rfl rfl (by rw [h]; rfl)
  | @publish t r h =>
    refine pl.move ⟨.thread t, .ops, by rintro ⟨⟩, fun p hp hq => ?_, ?_⟩ rfl rfl
    · rw [held_setPc, Function.update_of_ne hp]
      cases p with
      | ops => exact absurd rfl hq
      | thread | cq | loop | batch => rfl
    · rw [held_setPc, Function.update_self, Function.update_of_ne (by rintro ⟨⟩)]
      change ([] ++ (r :: Op.requests s.ops)).Perm ((s.pc t).requests ++ _)
      rw [h]
      exact .rfl
  | @publishFull t r e h =>
    have frame : ∀ q, q ≠ Place.thread t → _ = s.held q := fun q hq =>
      (congrFun (held_setPc { (s.unlink w r).answer r ⟨.failed, 0, e⟩ with
        live := Function.update s.live r false } t .idle) q).trans (Function.update_of_ne hq ..)
    have mine : r ∈ s.held (.thread t) := by
      change r ∈ (s.pc t).requests
      rw [h]
      exact List.mem_cons_self
    refine pl.shrink (p := .thread t) frame ?_ fun {q r'} hr => ⟨Function.update_of_ne ?_ .., rfl⟩
    · rw [held_setPc, Function.update_self]
      exact List.nil_sublist _
    · rintro rfl
      refine pl.nowhere mine frame ?_ q hr
      rw [held_setPc, Function.update_self]
      exact List.not_mem_nil
  | request h => exact pl.stay same rfl rfl (by rw [h]; rfl)
  | sweepShard h => exact pl.stay same rfl rfl (by rw [h]; rfl)
  | sweepAsk h => exact pl.stay (by rintro (_ | _) <;> rfl) rfl rfl (by rw [h]; rfl)
  | sweepBreak h => exact pl.stay same rfl rfl (by rw [h]; rfl)
  | sweepEnd h => exact pl.stay same rfl rfl (by rw [h]; rfl)
  | stopAgain h => exact pl.stay (by rintro (_ | _) <;> rfl) rfl rfl (by rw [h]; rfl)
  | stop h => exact pl.stay (by rintro (_ | _) <;> rfl) rfl rfl (by rw [h]; rfl)
  | stopSwept h => exact pl.stay same rfl rfl (by rw [h]; rfl)
  | wake h => exact pl.stay (by rintro (_ | _) <;> rfl) rfl rfl (by rw [h]; rfl)
  | wakeFull h => exact pl.stay (by rintro (_ | _) <;> rfl) rfl rfl (by rw [h]; rfl)
  | join h => exact pl.stay same rfl rfl (by rw [h]; rfl)
  | @post r res mem =>
    refine pl.move ⟨.ops, .cq, by rintro ⟨⟩, fun p hp hq => ?_, ?_⟩ rfl rfl
    · cases p with
      | ops => exact absurd rfl hp
      | cq => exact absurd rfl hq
      | thread | loop | batch => rfl
    · change (Op.requests (s.ops.erase (Op.request r)) ++ Cqe.requests (s.cq ++ [Cqe.request r res])).Perm
        (Op.requests s.ops ++ Cqe.requests s.cq)
      have mem := Op.mem_requests.2 mem
      rw [Op.requests_erase, Cqe.requests_append]
      refine List.Perm.trans ?_ ((List.perm_cons_erase mem).symm.append_right _)
      refine (List.Perm.append_left _ (List.perm_append_singleton ..)).trans List.perm_middle
  | postSentinel =>
    refine pl.congr (fun p => ?_) rfl rfl
    cases p with
    | ops => exact Op.requests_erase_sentinel s.ops
    | cq =>
      refine (Cqe.requests_append ..).trans ?_
      exact List.append_nil _
    | thread | loop | batch => rfl
  | reap h =>
    refine pl.move ⟨.cq, .loop, by rintro ⟨⟩, fun p hp hq => ?_, ?_⟩ rfl rfl
    · cases p with
      | cq => exact absurd rfl hp
      | loop => exact absurd rfl hq
      | thread | ops | batch => rfl
    · change (Cqe.requests (s.cq.drop kBatch) ++ Cqe.requests (s.cq.take kBatch)).Perm
        (Cqe.requests s.cq ++ s.loop.requests)
      have empty : s.loop.requests = [] := by
        rw [h]
        rfl
      rw [empty, List.append_nil]
      refine List.perm_append_comm.trans ?_
      rw [← Cqe.requests_append, List.take_append_drop]
  | emptyFlush => exact pl.flush
  | emptyExit => exact pl.setLoop (List.nil_sublist _)
  | sentinel h => exact (pl.setLoop (l := .handle _) (by rw [h]; exact .refl _)).flush
  | sentinelStop =>
    refine ((pl.setLoop (l := .exited) (List.nil_sublist _)).flush).congr (fun p => ?_) rfl rfl
    cases p <;> rfl
  | sentinelStopFull => exact (pl.setLoop (l := .exited) (List.nil_sublist _)).flush
  | @complete r res todo h =>
    have pl' : Placed (s.keepSocket w r res) := by
      unfold State.keepSocket
      split
      · exact pl.congr (by rintro (_ | _) <;> rfl) rfl rfl
      · exact pl
    refine pl'.deliver ?_
    unfold State.keepSocket
    split <;> (rw [h]; rfl)
  | @short r res todo h =>
    refine (pl.setLoop (l := .retry r todo) (by rw [h]; exact .refl _)).congr (fun p => ?_) rfl rfl
    cases p <;> rfl
  | retryCancelled h => exact pl.deliver (by rw [h]; rfl)
  | retryStopping h => exact pl.deliver (by rw [h]; rfl)
  | retry h => exact pl.setLoop (by rw [h]; exact .refl _)
  | @relink r todo h =>
    refine pl.move ⟨.loop, .ops, by rintro ⟨⟩, fun p hp hq => ?_, ?_⟩ rfl rfl
    · cases p with
      | loop => exact absurd rfl hp
      | ops => exact absurd rfl hq
      | thread | cq | batch => rfl
    · change (Cqe.requests todo ++ (r :: Op.requests s.ops)).Perm (s.loop.requests ++ Op.requests s.ops)
      rw [h]
      exact List.perm_middle
  | relinkFull h => exact pl.deliver (by rw [h]; rfl)
  | batchEnd h =>
    split
    · exact (pl.setLoop (l := .poll) (List.nil_sublist _)).flush
    · exact pl.setLoop (List.nil_sublist _)

/-- In every state of a run a request is at one place at most. -/
lemma placed_of_runs [DecidableEq θ] {ok : State θ ρ → Label θ ρ → Prop} (rn : Runs (Step w) ok {} s) : Placed s := by
  refine rn.invariant (I := Placed) ⟨.empty fun p => ?_, fun {p r} h => ?_⟩ fun pl _ st => st.placed pl
  · cases p <;> rfl
  · cases p <;> cases h

/-! ## The shards -/

/-- The request is in no shard: it is not in use, its task is collected, or it is on its way into one. -/
def State.Unlinked (s : State θ ρ) (r : ρ) : Prop :=
  s.live r = false ∨ r ∈ s.batchHi ++ s.batchLo ∨ (∃ t, s.pc t = .checked r) ∨
    ∃ todo, s.loop = .retry r todo ∨ s.loop = .relink r todo

/-- A request is once in its own shard or in none. -/
structure Shelved (w : Setup ρ) (s : State θ ρ) : Prop where
  nodup : ∀ i, (s.shard i).Nodup
  home : ∀ {i r}, r ∈ s.shard i → i = w.shardFor r
  out : ∀ {r}, s.Unlinked r → ∀ i, r ∉ s.shard i

namespace Shelved

omit [DecidableEq ρ] in
/-- The shards are left. -/
lemma keep (sh : Shelved w s) (hs : s'.shard = s.shard) (un : ∀ {r}, s'.Unlinked r → s.Unlinked r) :
    Shelved w s' := by
  refine ⟨fun i => ?_, fun {i r} h => ?_, fun {r} h i => ?_⟩
  · rw [hs]
    exact sh.nodup i
  · rw [hs] at h
    exact sh.home h
  · rw [hs]
    exact sh.out (un h) i

/-- A request is taken out of its shard. -/
lemma unlink (sh : Shelved w s) (hs : s'.shard = (s.unlink w r).shard)
    (un : ∀ {r'}, s'.Unlinked r' → r' = r ∨ s.Unlinked r') : Shelved w s' := by
  have sub : ∀ i, (s'.shard i).Sublist (s.shard i) := by
    intro i
    rw [hs]
    change (Function.update s.shard _ _ i).Sublist _
    by_cases e : i = w.shardFor r
    · rw [e, Function.update_self]
      exact List.erase_sublist
    · rw [Function.update_of_ne e]
  refine ⟨fun i => (sh.nodup i).sublist (sub i), fun h => sh.home ((sub _).subset h), fun {r'} h i mem => ?_⟩
  rcases un h with rfl | h
  · have home := sh.home ((sub i).subset mem)
    rw [hs, home] at mem
    change r' ∈ Function.update s.shard _ _ _ at mem
    rw [Function.update_self] at mem
    exact (sh.nodup _).not_mem_erase mem
  · exact sh.out h i ((sub i).subset mem)

omit [DecidableEq ρ] in
/-- A request is put into its shard. -/
lemma link (sh : Shelved w s) (hs : s'.shard = (s.link w r).shard) (was : s.Unlinked r)
    (now : ¬s'.Unlinked r) (un : ∀ {r'}, s'.Unlinked r' → s.Unlinked r') : Shelved w s' := by
  have mem : ∀ {i r'}, r' ∈ s'.shard i → (r' = r ∧ i = w.shardFor r) ∨ r' ∈ s.shard i := by
    intro i r' h
    rw [hs] at h
    change r' ∈ Function.update s.shard _ _ i at h
    by_cases e : i = w.shardFor r
    · rw [e, Function.update_self] at h
      rcases List.mem_cons.1 h with h | h
      · exact .inl ⟨h, e⟩
      · exact .inr (e ▸ h)
    · rw [Function.update_of_ne e] at h
      exact .inr h
  refine ⟨fun i => ?_, fun {i r'} h => ?_, fun {r'} h i hr => ?_⟩
  · rw [hs]
    change (Function.update s.shard _ _ i).Nodup
    by_cases e : i = w.shardFor r
    · rw [e, Function.update_self]
      exact List.nodup_cons.2 ⟨sh.out was _, sh.nodup _⟩
    · rw [Function.update_of_ne e]
      exact sh.nodup i
  · rcases mem h with ⟨rfl, e⟩ | h
    · exact e
    · exact sh.home h
  · rcases mem hr with ⟨rfl, -⟩ | hr
    · exact now h
    · exact sh.out (un h) i hr

/-- A flush leaves the shards. -/
lemma flush (sh : Shelved w s) : Shelved w s.flush := by
  refine sh.keep rfl fun {r} h => ?_
  rcases h with h | h | h
  · change (s.live r && !decide _) = false at h
    rw [Bool.and_eq_false_iff] at h
    rcases h with h | h
    · exact .inl h
    · rw [Bool.not_eq_false'] at h
      exact .inr (.inl (of_decide_eq_true h))
  · cases h
  · exact .inr (.inr h)

/-- A flush of a full batch leaves the shards. -/
lemma flushFull (sh : Shelved w s) : Shelved w s.flushFull := by
  unfold State.flushFull
  split
  · exact sh.flush
  · exact sh

omit [DecidableEq ρ] in
/-- The completion thread goes on. -/
lemma setLoop {l : Loop ρ} (sh : Shelved w s)
    (hl : ∀ r todo, l = .retry r todo ∨ l = .relink r todo → s.Unlinked r) : Shelved w { s with loop := l } := by
  refine sh.keep rfl fun {r} h => ?_
  rcases h with h | h | h | ⟨todo, h⟩
  · exact .inl h
  · exact .inr (.inl h)
  · exact .inr (.inr (.inl h))
  · exact hl r todo h

/-- Delivering takes the request out of its shard. -/
lemma deliver {l : Loop ρ} {res : IoResult} (sh : Shelved w s) (hl : ∀ r todo, l ≠ .retry r todo ∧ l ≠ .relink r todo) :
    Shelved w { s.deliver w r res with loop := l } := by
  rw [State.deliver_loop]
  apply Shelved.flushFull
  obtain ⟨h1, -, -, h4, h5, -, -, -, h9, -⟩ := State.hold_frame (w := w) { s with loop := l } r res
  refine sh.unlink h9 fun {r'} h => ?_
  rcases h with h | h | ⟨t, h⟩ | ⟨todo, h⟩
  · rw [h5] at h
    exact .inr (.inl h)
  · rcases List.mem_cons.1 ((State.hold_batch ..).subset h) with h | h
    · exact .inl h
    · exact .inr (.inr (.inl h))
  · rw [h1] at h
    exact .inr (.inr (.inr (.inl ⟨t, h⟩)))
  · rw [h4] at h
    rcases h with h | h
    · exact absurd h (hl r' todo).1
    · exact absurd h (hl r' todo).2

omit [DecidableEq ρ] in
/-- A thread goes on, and does not check a request. -/
lemma setPc [DecidableEq θ] {c : Pc ρ} (sh : Shelved w s) (hs : s'.shard = s.shard) (hl : s'.live = s.live)
    (hb : s'.batchHi ++ s'.batchLo = s.batchHi ++ s.batchLo) (ho : s'.loop = s.loop) (hp : s'.pc = s.pc)
    (hc : ∀ r, c ≠ .checked r) : Shelved w (s'.setPc t c) := by
  refine sh.keep hs fun {r} h => ?_
  rcases h with h | h | ⟨t', h⟩ | ⟨todo, h⟩
  · exact .inl (hl ▸ h)
  · exact .inr (.inl (hb ▸ h))
  · change Function.update s'.pc t c t' = _ at h
    by_cases e : t' = t
    · rw [e, Function.update_self] at h
      exact absurd h (hc r)
    · rw [Function.update_of_ne e, hp] at h
      exact .inr (.inr (.inl ⟨t', h⟩))
  · exact .inr (.inr (.inr ⟨todo, ho ▸ h⟩))

end Shelved

omit [DecidableEq ρ] in
/-- A request that was published or is about to be is in use, and is neither collected nor unlinked. -/
lemma Placed.not_unlinked {p : Place θ} (pl : Placed s) (mine : r ∈ s.held p)
    (hb : p ≠ .batch) (hl : p ≠ .loop) (hp : ∀ t, p = .thread t → s.pc t ≠ .checked r) : ¬s.Unlinked r := by
  rintro (h | h | ⟨t, h⟩ | ⟨todo, h⟩)
  · rw [(pl.live mine).1] at h
    cases h
  · exact hb (pl.custody.unique mine (q := .batch) h)
  · have there : r ∈ s.held (.thread t) := by
      change r ∈ (s.pc t).requests
      rw [h]
      exact List.mem_cons_self
    exact hp t (pl.custody.unique mine there) h
  · have there : r ∈ s.held .loop := by
      change r ∈ s.loop.requests
      rcases h with h | h <;> (rw [h]; exact List.mem_cons_self)
    exact hl (pl.custody.unique mine there)

/-- A step keeps every request once in its own shard or in none. -/
lemma Step.shelved [DecidableEq θ] {l : Label θ ρ} (st : Step w s l s') (pl : Placed s) (sh : Shelved w s) :
    Shelved w s' := by
  have pl' := st.placed pl
  cases st with
  | start h => exact (sh.setLoop (l := .poll) (by rintro r todo (h | h) <;> cases h)).keep rfl id
  | submitCancelled | submitStopping | cancel => exact sh.keep rfl id
  | @submit t r len ht free =>
    refine sh.keep rfl fun {r'} h => ?_
    rcases h with h | h | ⟨t', h⟩ | ⟨todo, h⟩
    · change Function.update s.live r true r' = false at h
      by_cases e : r' = r
      · rw [e, Function.update_self] at h
        cases h
      · rw [Function.update_of_ne e] at h
        exact .inl h
    · exact .inr (.inl h)
    · change Function.update s.pc t _ t' = _ at h
      by_cases e : t' = t
      · rw [e, Function.update_self] at h
        cases h
        exact .inl free
      · rw [Function.update_of_ne e] at h
        exact .inr (.inr (.inl ⟨t', h⟩))
    · exact .inr (.inr (.inr ⟨todo, h⟩))
  | @link t r ht =>
    refine sh.link (r := r) rfl (.inr (.inr (.inl ⟨t, ht⟩))) ?_ fun {r'} h => ?_
    · have now : ((s.link w r).setPc t (.linked r)).pc t = .linked r := Function.update_self ..
      refine pl'.not_unlinked (p := .thread t) ?_ (by rintro ⟨⟩) (by rintro ⟨⟩) ?_
      · change r ∈ (Pc.requests _)
        rw [now]
        exact List.mem_cons_self
      · rintro t' ⟨⟩
        rw [now]
        rintro ⟨⟩
    · rcases h with h | h | ⟨t', h⟩ | h
      · exact .inl h
      · exact .inr (.inl h)
      · change Function.update s.pc t _ t' = _ at h
        by_cases e : t' = t
        · rw [e, Function.update_self] at h
          cases h
        · rw [Function.update_of_ne e] at h
          exact .inr (.inr (.inl ⟨t', h⟩))
      · exact .inr (.inr (.inr h))
  | publish => exact sh.setPc rfl rfl rfl rfl rfl (by rintro r ⟨⟩)
  | @publishFull t r e ht =>
    refine sh.unlink (r := r) rfl fun {r'} h => ?_
    rcases h with h | h | ⟨t', h⟩ | h
    · change Function.update s.live r false r' = false at h
      by_cases e : r' = r
      · exact .inl e
      · rw [Function.update_of_ne e] at h
        exact .inr (.inl h)
    · exact .inr (.inr (.inl h))
    · change Function.update s.pc t _ t' = _ at h
      by_cases e : t' = t
      · rw [e, Function.update_self] at h
        cases h
      · rw [Function.update_of_ne e] at h
        exact .inr (.inr (.inr (.inl ⟨t', h⟩)))
    · exact .inr (.inr (.inr (.inr h)))
  | request | sweepShard | sweepAsk | sweepBreak | sweepEnd | stopAgain | stop | stopSwept | wake | wakeFull | join =>
    exact sh.setPc rfl rfl rfl rfl rfl (by rintro r ⟨⟩)
  | post | postSentinel => exact sh.keep rfl id
  | reap => exact (sh.setLoop (l := .handle _) (by rintro r todo (h | h) <;> cases h)).keep rfl id
  | emptyFlush => exact sh.flush
  | emptyExit => exact sh.setLoop (by rintro r todo (h | h) <;> cases h)
  | sentinel => exact (sh.setLoop (l := .handle _) (by rintro r todo (h | h) <;> cases h)).flush
  | sentinelStop =>
    exact ((sh.setLoop (l := .exited) (by rintro r todo (h | h) <;> cases h)).flush).keep rfl id
  | sentinelStopFull => exact (sh.setLoop (l := .exited) (by rintro r todo (h | h) <;> cases h)).flush
  | @complete r res todo h =>
    refine Shelved.deliver (sh.keep ?_ fun {r'} h => ?_) (fun r todo => ⟨by rintro ⟨⟩, by rintro ⟨⟩⟩)
    · unfold State.keepSocket
      split <;> rfl
    · unfold State.keepSocket at h
      split at h <;> exact h
  | @short r res todo h =>
    refine sh.unlink (r := r) rfl fun {r'} h' => ?_
    rcases h' with h' | h' | h' | ⟨todo', h'⟩
    · exact .inr (.inl h')
    · exact .inr (.inr (.inl h'))
    · exact .inr (.inr (.inr (.inl h')))
    · rcases h' with h' | h'
      · cases h'
        exact .inl rfl
      · cases h'
  | retryCancelled => exact sh.deliver fun r todo => ⟨by rintro ⟨⟩, by rintro ⟨⟩⟩
  | retryStopping => exact sh.deliver fun r todo => ⟨by rintro ⟨⟩, by rintro ⟨⟩⟩
  | @retry r todo h =>
    refine sh.setLoop ?_
    rintro r' todo' (h' | h')
    · cases h'
    · cases h'
      exact .inr (.inr (.inr ⟨todo, .inl h⟩))
  | @relink r todo h =>
    refine sh.link (r := r) rfl (.inr (.inr (.inr ⟨todo, .inr h⟩))) ?_ fun {r'} h' => ?_
    · exact pl'.not_unlinked (p := .ops) List.mem_cons_self (by rintro ⟨⟩) (by rintro ⟨⟩) (by rintro t ⟨⟩)
    · rcases h' with h' | h' | h' | ⟨todo', h' | h'⟩
      · exact .inl h'
      · exact .inr (.inl h')
      · exact .inr (.inr (.inl h'))
      · cases h'
      · cases h'
  | relinkFull => exact sh.deliver fun r todo => ⟨by rintro ⟨⟩, by rintro ⟨⟩⟩
  | batchEnd =>
    have sh := sh.setLoop (l := .poll) (by rintro r todo (h | h) <;> cases h)
    split
    · exact sh.flush
    · exact sh

omit [DecidableEq ρ] in
/-- The shards are empty. -/
lemma Shelved.init : Shelved w ({} : State θ ρ) :=
  ⟨fun _ => List.nodup_nil, fun h => absurd h List.not_mem_nil, fun _ _ => List.not_mem_nil⟩

/-- In every state of a run a request is once in its own shard or in none. -/
lemma Shelved.of_runs [DecidableEq θ] {ok : State θ ρ → Label θ ρ → Prop} (rn : Runs (Step w) ok {} s) :
    Shelved w s := by
  induction rn with
  | refl => exact .init
  | tail rn _ st ih => exact st.shelved (placed_of_runs rn) ih

end JLib.IoReactor
