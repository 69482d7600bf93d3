import JLib.IoReactor.Model
import JLib.IoReactor.ShortSend
import JLib.IoReactor.Targets
import JLib.LTS.Custody

/-!
# The requests in flight

`Impl::total` and the lists of the shards of `src/posix/IoReactor.cpp`, under the calls of `SubmitOp`, the other
entries of the ring and the completion thread. Steps are the critical sections of the shard locks and of
`submitMx`. The completion thread has one completion at a time; a short send is unlinked, submitted again through
`SubmitPrepared`, and when that answers at once it is delivered, which unlinks it.

`SubmitOp` may find a token cancelled, the reactor stopping, the ring full, or an enter that fails; an enter that
fails leaves its entry published. Of the state, `live` is read by no function of the source, and of an entry
`failed`.
-/

namespace JLib.IoReactor.Accounting
open LTS Rings
open Submission (Addr Shards Spelled Env shardFor)
open ShortSend (Request SubmitPrepared advance)

/-- What an entry asks for: its `user_data` is the request, or a sentinel for a cancel or a wake. -/
inductive Sqe where
  | op (r : Addr)
  | sentinel
  deriving DecidableEq

/-- An entry, and whether its enter failed. -/
structure Entry where
  sqe : Sqe
  failed : Bool
  deriving DecidableEq

/-- Where a thread is that submits. -/
inductive Pc where
  | idle
  -- in `SubmitOp`, before `submitMx`
  | linked (r : Addr)

/-- Where the completion thread is. -/
inductive Loop where
  | idle
  -- a short send: before it is unlinked, before `SubmitPrepared`, and in `SubmitOp` before `submitMx`
  | short (r : Addr)
  | retry (r : Addr)
  | relinked (r : Addr)
  | deliver (r : Addr)

structure State (θ : Type) where
  ringUp : Bool
  ring : Ring 32 Entry
  shards : Shards := {}
  total : BitVec 64 := 0
  kind : Addr → Kind := fun _ => .generic
  req : Addr → Request
  token : Addr → CancelToken := fun _ => .kNone
  pc : θ → Pc := fun _ => .idle
  loop : Loop := .idle
  -- what the kernel consumed and has not completed
  kernel : List Sqe := []
  -- the request is linked, or on its way to be linked again
  live : Addr → Bool := fun _ => false

variable {θ : Type}

namespace State

variable [DecidableEq θ]

def init (θ : Type) (ringUp : Bool) (bits : Nat) : State θ :=
  { ringUp, ring := .ofBits bits fun _ => ⟨.sentinel, false⟩, req := fun _ => ⟨fun _ => ⟨0, 0⟩, 0, 0, 0, 0⟩ }

def setPc (s : State θ) (t : θ) (c : Pc) : State θ :=
  { s with pc := Function.update s.pc t c }

def Link (s : State θ) (r : Addr) : State θ :=
  { s with shards := s.shards.Link r, total := s.total + 1 }

def UnlinkLocked (s : State θ) (r : Addr) : State θ :=
  { s with shards := s.shards.UnlinkLocked r, total := s.total - 1 }

/-- The request is the caller's again. -/
def release (s : State θ) (r : Addr) : State θ :=
  { s with live := Function.update s.live r false }

/-- `uring::Submit(ring, 0)` of an entry that is filled in; an enter that succeeds consumes the oldest entry. -/
def Submit (s : State θ) (x : Sqe) : Option Nat → State θ
  | some _ => { s with ring := s.ring.push ⟨x, true⟩ }
  | none =>
    { s with
      ring := (s.ring.push ⟨x, false⟩).pop
      kernel := (s.ring.push ⟨x, false⟩).front.sqe :: s.kernel }

/-- The checks of `SubmitOp` answer at once. -/
def Answers (s : State θ) (tok : CancelToken) (e : Env) : Prop :=
  tok.cancelled e.slots = true ∨ s.ringUp = false ∨ e.stopping = true

/-- A send that the socket took in part. -/
def Short (s : State θ) (r : Addr) (res : Int) : Prop :=
  s.kind r = .send ∧ ShortSend.Short (s.req r) res

end State

inductive Label (θ : Type) where
  | submit (t : θ) (r : Addr) (kind : Kind) (req : Request) (tok : CancelToken) (e : Env)
  | publish (t : θ) (errno : Option Nat)
  -- a cancel or a wake
  | ask (errno : Option Nat)
  | complete (x : Sqe) (res : Int)
  | loop (e : Env)

inductive Step [DecidableEq θ] : State θ → Label θ → State θ → Prop where
  -- SubmitOp, by a caller that has filled in the request
  | answered {s : State θ} {t r kind req tok e} :
    s.pc t = .idle →
    s.live r = false →
    s.Answers tok e →
    Step s (.submit t r kind req tok e)
      { s with
        kind := Function.update s.kind r kind
        req := Function.update s.req r req }
  | submit {s : State θ} {t r kind req tok e} :
    s.pc t = .idle →
    s.live r = false →
    r ≠ 0 →
    ¬s.Answers tok e →
    Step s (.submit t r kind req tok e)
      (({ s with
        kind := Function.update s.kind r kind
        req := Function.update s.req r req
        token := Function.update s.token r tok
        live := Function.update s.live r true }.Link r).setPc t (.linked r))
  | full {s : State θ} {t r errno} :
    s.pc t = .linked r →
    s.ring.full = true →
    Step s (.publish t errno) (((s.UnlinkLocked r).release r).setPc t .idle)
  | failed {s : State θ} {t r n} :
    s.pc t = .linked r →
    s.ring.full = false →
    Step s (.publish t (some n)) ((((s.Submit (.op r) (some n)).UnlinkLocked r).release r).setPc t .idle)
  | published {s : State θ} {t r} :
    s.pc t = .linked r →
    s.ring.full = false →
    Step s (.publish t none) ((s.Submit (.op r) none).setPc t .idle)
  -- RequestCancel and Stop
  | ask {s : State θ} {errno} :
    s.ring.full = false →
    Step s (.ask errno) (s.Submit .sentinel errno)
  -- CompletionLoopEntry
  | sentinel {s : State θ} {res} :
    s.loop = .idle →
    .sentinel ∈ s.kernel →
    Step s (.complete .sentinel res) { s with kernel := s.kernel.erase .sentinel }
  | complete {s : State θ} {r res} :
    s.loop = .idle →
    .op r ∈ s.kernel →
    ¬s.Short r res →
    Step s (.complete (.op r) res) { s with kernel := s.kernel.erase (.op r), loop := .deliver r }
  | short {s : State θ} {r res} :
    s.loop = .idle →
    .op r ∈ s.kernel →
    s.Short r res →
    Step s (.complete (.op r) res)
      { s with
        kernel := s.kernel.erase (.op r)
        req := Function.update s.req r (advance (s.req r) res)
        loop := .short r }
  | unlink {s : State θ} {r e} :
    s.loop = .short r →
    Step s (.loop e) { s.UnlinkLocked r with loop := .retry r }
  -- SubmitPrepared
  | nothing {s : State θ} {r e a} :
    s.loop = .retry r →
    SubmitPrepared (s.req r) = .error a →
    Step s (.loop e) { s with loop := .deliver r }
  | retryAnswered {s : State θ} {r e x} :
    s.loop = .retry r →
    SubmitPrepared (s.req r) = .ok x →
    s.Answers (s.token r) e →
    Step s (.loop e) { s with loop := .deliver r }
  | retry {s : State θ} {r e x} :
    s.loop = .retry r →
    SubmitPrepared (s.req r) = .ok x →
    ¬s.Answers (s.token r) e →
    Step s (.loop e) { s.Link r with loop := .relinked r }
  | relinkedFull {s : State θ} {r e} :
    s.loop = .relinked r →
    s.ring.full = true →
    Step s (.loop e) { s.UnlinkLocked r with loop := .deliver r }
  | relinkedFailed {s : State θ} {r e n} :
    s.loop = .relinked r →
    s.ring.full = false →
    e.errno = some n →
    Step s (.loop e) { (s.Submit (.op r) (some n)).UnlinkLocked r with loop := .deliver r }
  | relinkedPublished {s : State θ} {r e} :
    s.loop = .relinked r →
    s.ring.full = false →
    e.errno = none →
    Step s (.loop e) { s.Submit (.op r) none with loop := .idle }
  | deliver {s : State θ} {r e} :
    s.loop = .deliver r →
    Step s (.loop e) { (s.UnlinkLocked r).release r with loop := .idle }

/-! ## Where a request is -/

inductive Place (θ : Type) where
  | thread (t : θ)
  | ring
  | kernel
  | loop
  deriving DecidableEq

def Pc.requests : Pc → List Addr
  | idle => []
  | linked r => [r]

def Loop.requests : Loop → List Addr
  | idle => []
  | short r | retry r | relinked r | deliver r => [r]

def Sqe.request : Sqe → Option Addr
  | op r => some r
  | sentinel => none

def Sqe.requests (k : List Sqe) : List Addr := k.filterMap Sqe.request

/-- The requests of entries whose enter did not fail. -/
def Entry.requests (l : List Entry) : List Addr := Sqe.requests ((l.filter fun x => !x.failed).map Entry.sqe)

/-- The ring has the entries `m`. -/
def State.held (s : State θ) (m : List Entry) : Place θ → List Addr
  | .thread t => (s.pc t).requests
  | .ring => Entry.requests m
  | .kernel => Sqe.requests s.kernel
  | .loop => s.loop.requests

variable {s u : State θ} {a : Label θ} {t : θ} {r r' : Addr} {l : List Addr} {m m' : List Entry} {x : Entry}
  {held held' : Place θ → List Addr} {live live' : Addr → Bool} {bits : Nat}

/-- A thread's step changes what the thread has. -/
lemma held_setPc [DecidableEq θ] (s : State θ) (m : List Entry) (t : θ) (c : Pc) :
    (s.setPc t c).held m = Function.update (s.held m) (.thread t) c.requests := by
  funext p
  cases p with
  | thread t' =>
    show (Function.update s.pc t c t').requests = _
    rw [Function.update_apply, Function.update_apply]
    by_cases e : t' = t
    · rw [if_pos e, if_pos (congrArg _ e)]
    · rw [if_neg e, if_neg (fun h => e (Place.thread.inj h))]
      rfl
  | ring | kernel | loop => rfl

/-- A step of the completion thread changes what it has. -/
lemma held_loop [DecidableEq θ] (s : State θ) (m : List Entry) (c : Loop) :
    State.held { s with loop := c } m = Function.update (s.held m) (.loop : Place θ) c.requests := by
  funext p
  cases p with
  | loop =>
    rw [Function.update_self]
    rfl
  | thread | ring | kernel => rfl

/-- The entries of the ring are exchanged. -/
lemma held_ring [DecidableEq θ] (s : State θ) (m m' : List Entry) :
    s.held m' = Function.update (s.held m) (.ring : Place θ) (Entry.requests m') := by
  funext p
  cases p with
  | ring =>
    rw [Function.update_self]
    rfl
  | thread | kernel | loop => rfl

/-- The requests of one list of entries and then of the other. -/
lemma Entry.requests_append (m m' : List Entry) :
    Entry.requests (m ++ m') = Entry.requests m ++ Entry.requests m' := by
  unfold Entry.requests Sqe.requests
  rw [List.filter_append, List.map_append, List.filterMap_append]

/-- An entry of a failed enter, or of a sentinel, is of no request. -/
lemma held_append [DecidableEq θ] (s : State θ) (m : List Entry) (none : Entry.requests [x] = []) :
    s.held (m ++ [x]) = s.held m := by
  have same : Entry.requests (m ++ [x]) = Entry.requests m := by
    rw [Entry.requests_append, none, List.append_nil]
  rw [held_ring s m, same]
  exact Function.update_eq_self ..

/-- What the kernel has is exchanged. -/
lemma held_kernel [DecidableEq θ] (s : State θ) (m : List Entry) (k : List Sqe) :
    State.held { s with kernel := k } m = Function.update (s.held m) (.kernel : Place θ) (Sqe.requests k) := by
  funext p
  cases p with
  | kernel =>
    rw [Function.update_self]
    rfl
  | thread | ring | loop => rfl

/-- A completion takes its operation out of the kernel. -/
lemma Sqe.requests_erase {k : List Sqe} (mem : .op r ∈ k) :
    (Sqe.requests k).Perm (r :: Sqe.requests (k.erase (.op r))) :=
  (List.perm_cons_erase mem).filterMap Sqe.request

/-- A sentinel is no request. -/
lemma Sqe.requests_erase_sentinel (k : List Sqe) : (Sqe.requests (k.erase .sentinel)).Perm (Sqe.requests k) := by
  by_cases mem : Sqe.sentinel ∈ k
  · exact ((List.perm_cons_erase mem).filterMap Sqe.request).symm
  · rw [List.erase_of_not_mem mem]

/-- Every live request is at one place at most. -/
structure Placed (held : Place θ → List Addr) (live : Addr → Bool) : Prop where
  custody : Custody held
  live : ∀ {p r}, r ∈ held p → live r = true

namespace Placed

/-- Requests move between places. -/
lemma move (pl : Placed held live) (mv : Custody.Moved held held') : Placed held' live := by
  obtain ⟨p, q, ne, frame, perm⟩ := id mv
  refine ⟨pl.custody.move ne frame perm.subperm, fun {p r} here => ?_⟩
  obtain ⟨p, before⟩ := mv.mem.1 ⟨p, here⟩
  exact pl.live before

variable [DecidableEq θ]

/-- One place has the same requests, in any order. -/
lemma perm {p : Place θ} {k : List Addr} (pl : Placed held live) (same : k.Perm (held p)) :
    Placed (Function.update held p k) live := by
  have sub : (Function.update held p k p).Subperm (held p) := by
    rw [Function.update_self]
    exact same.subperm
  refine ⟨pl.custody.shrink (fun q ne => Function.update_of_ne ne ..) sub, fun {q r} here => ?_⟩
  rw [Function.update_apply] at here
  split at here
  next e =>
    subst e
    exact pl.live (same.subset here)
  next => exact pl.live here

/-- A request that is not live is put at a place that has none. -/
lemma put {p : Place θ} (pl : Placed held live) (free : live r = false) (empty : held p = []) :
    Placed (Function.update held p [r]) (Function.update live r true) := by
  have new : ∀ q, r ∉ held q := by
    intro q here
    rw [pl.live here] at free
    cases free
  refine ⟨pl.custody.put new (fun q ne => Function.update_of_ne ne ..) ?_, fun {q r'} here => ?_⟩
  · rw [Function.update_self, empty]
  · rw [Function.update_apply]
    split
    next => rfl
    next ne =>
      rw [Function.update_apply] at here
      split at here
      next => exact absurd (List.mem_singleton.1 here) ne
      next => exact pl.live here

/-- The only request of a place is released. -/
lemma drop {p : Place θ} (pl : Placed held live) (mine : held p = [r]) :
    Placed (Function.update held p []) (Function.update live r false) := by
  have sub : (Function.update held p [] p).Subperm (held p) := by
    rw [Function.update_self]
    exact List.nil_subperm
  refine ⟨pl.custody.shrink (fun q ne => Function.update_of_ne ne ..) sub, fun {q r'} here => ?_⟩
  rw [Function.update_apply] at here
  split at here
  next => cases here
  next ne =>
    have other : r' ≠ r := by
      rintro rfl
      apply ne
      apply pl.custody.unique here
      rw [mine]
      exact List.mem_singleton_self r'
    rw [Function.update_of_ne other]
    exact pl.live here

/-- The only request of one place goes to the end of another. -/
lemma pass {p q : Place θ} (pl : Placed held live) (ne : p ≠ q) (mine : held p = [r]) :
    Placed (Function.update (Function.update held p []) q (held q ++ [r])) live := by
  refine pl.move ⟨p, q, ne, fun p' np nq => ?_, ?_⟩
  · rw [Function.update_of_ne nq, Function.update_of_ne np]
  · rw [Function.update_of_ne ne, Function.update_self, Function.update_self, mine, List.nil_append]
    exact List.perm_append_comm

end Placed

/-! ## The lists -/

/-- The lists hold the live requests, but for one that is to be submitted again, and `total` counts them. -/
structure Listed (s : State θ) (l : List Addr) : Prop where
  spelled : Spelled s.shards l
  linked : ∀ r, r ∈ l ↔ s.live r = true ∧ s.loop ≠ .retry r
  total : s.total = .ofNat 64 l.length

namespace Listed

/-- `total` does not wrap: there are more addresses than requests. -/
lemma total_eq (ls : Listed s l) (null : (0 : Addr) ∉ l) : s.total.toNat = l.length := by
  have le := Submission.length_le_addresses (List.nodup_cons.2 ⟨null, ls.spelled.nodup⟩)
  rw [ls.total, BitVec.toNat_ofNat]
  exact Nat.mod_eq_of_lt le

/-- The lists are left. -/
lemma keep (ls : Listed s l) (shards : u.shards = s.shards) (total : u.total = s.total)
    (same : ∀ r, u.live r = true ∧ u.loop ≠ .retry r ↔ s.live r = true ∧ s.loop ≠ .retry r) : Listed u l :=
  ⟨shards ▸ ls.spelled, fun r => (ls.linked r).trans (same r).symm, total.trans ls.total⟩

/-- A request is linked and counted. -/
lemma link (ls : Listed s l) (new : r ∉ l) (shards : u.shards = s.shards.Link r)
    (total : u.total = s.total + 1)
    (same : ∀ k, u.live k = true ∧ u.loop ≠ .retry k ↔ k = r ∨ (s.live k = true ∧ s.loop ≠ .retry k)) :
    Listed u (r :: l) := by
  refine ⟨shards ▸ ls.spelled.link new, fun k => ?_, ?_⟩
  · rw [same, List.mem_cons, ls.linked]
  · rw [total, ls.total, List.length_cons, BitVec.ofNat_add]
    rfl

/-- A request is unlinked and counted out. -/
lemma unlink (ls : Listed s l) (mem : r ∈ l) (shards : u.shards = s.shards.UnlinkLocked r)
    (total : u.total = s.total - 1)
    (same : ∀ k, u.live k = true ∧ u.loop ≠ .retry k ↔ k ≠ r ∧ s.live k = true ∧ s.loop ≠ .retry k) :
    Listed u (l.erase r) := by
  refine ⟨shards ▸ ls.spelled.unlink mem, fun k => ?_, ?_⟩
  · rw [same, ls.spelled.nodup.mem_erase_iff, ls.linked]
  · obtain ⟨n, len⟩ := Nat.exists_eq_succ_of_ne_zero (List.length_pos_of_mem mem).ne'
    rw [total, ls.total, List.length_erase_of_mem mem, len, Nat.succ_sub_one, Nat.succ_eq_add_one, BitVec.ofNat_add]
    exact BitVec.add_sub_cancel ..

end Listed

/-! ## A run -/

/-- The oldest entry of the ring is not of a request whose enter failed. -/
def State.Fresh (s : State θ) : Prop := s.ring.head ≠ s.ring.tail → ∀ r, s.ring.front ≠ ⟨.op r, true⟩

/-- A short send is submitted again and not answered at once, and an enter that succeeds consumes no entry that
an enter of `SubmitOp` left when it failed. -/
def Resubmits (s : State θ) : Label θ → Prop
  | .publish _ errno => s.ring.full = false → errno = none → s.Fresh
  | .ask errno => errno = none → s.Fresh
  | .loop e =>
    (∀ r, s.loop = .retry r → (s.token r).cancelled e.slots = false ∧ e.stopping = false) ∧
    ∀ r, s.loop = .relinked r → s.ring.full = false ∧ e.errno = none ∧ s.Fresh
  | _ => True

structure Sound (bits : Nat) (s : State θ) (l : List Addr) (m : List Entry) : Prop where
  holds : Holds bits s.ring m
  placed : Placed (s.held m) s.live
  listed : Listed s l
  up : ∀ r, s.live r = true → s.ringUp = true ∧ r ≠ 0
  rest : ∀ r, s.loop = .short r ∨ s.loop = .retry r → (s.req r).bufCount ≠ 0

/-- An entry whose enter did not fail adds its request. -/
lemma Entry.requests_cons (fresh : ∀ r, x ≠ ⟨.op r, true⟩) :
    Entry.requests (x :: m) = Sqe.requests [x.sqe] ++ Entry.requests m := by
  obtain ⟨sqe, failed⟩ := x
  cases sqe with
  | op r =>
    cases failed with
    | true => exact absurd rfl (fresh r)
    | false => rfl
  | sentinel => cases failed <;> rfl

/-- An enter that succeeds: the requests of the ring and the kernel are the same. -/
lemma Placed.enter {e : Sqe} (pl : Placed (s.held (m ++ [⟨e, false⟩])) live) (holds : Holds bits s.ring m)
    (room : s.ring.full = false) (fresh : s.Fresh) :
    ∃ m', Holds bits (s.Submit e none).ring m' ∧ Placed ((s.Submit e none).held m') live := by
  have pushed : Holds bits (s.ring.push ⟨e, false⟩) (m ++ [⟨e, false⟩]) := holds.push (holds.room room)
  obtain ⟨x, m', eq, first⟩ : ∃ x m', m ++ [⟨e, false⟩] = x :: m' ∧ ∀ r, x ≠ ⟨.op r, true⟩ := by
    cases m with
    | nil => exact ⟨⟨e, false⟩, [], rfl, by rintro _ ⟨⟩⟩
    | cons x m =>
      refine ⟨x, m ++ [⟨e, false⟩], rfl, fun r h => ?_⟩
      have some : s.ring.head ≠ s.ring.tail := fun none => nomatch holds.empty_iff.1 none
      exact fresh some r (holds.front.trans h)
  rw [eq] at pushed pl
  refine ⟨m', pushed.pop, pl.move ⟨.ring, .kernel, by rintro ⟨⟩, fun p np nq => ?_, ?_⟩⟩
  · cases p with
    | ring => exact absurd rfl np
    | kernel => exact absurd rfl nq
    | thread | loop => rfl
  · show (Entry.requests m' ++ Sqe.requests ((s.ring.push ⟨e, false⟩).front.sqe :: s.kernel)).Perm
      (Entry.requests (x :: m') ++ Sqe.requests s.kernel)
    have cons : Sqe.requests (x.sqe :: s.kernel) = Sqe.requests [x.sqe] ++ Sqe.requests s.kernel :=
      List.filterMap_append (l := [x.sqe]) ..
    rw [pushed.front, cons, Entry.requests_cons first, ← List.append_assoc]
    exact List.perm_append_comm.append_right _

namespace Sound

/-- Nothing is submitted yet. -/
lemma init (θ : Type) (ringUp : Bool) (fits : bits < 32) :
    Sound bits (State.init θ ringUp bits) [] [] := by
  have none : ∀ p, (State.init θ ringUp bits).held [] p = [] := by
    intro p
    cases p with
    | thread | ring | kernel | loop => rfl
  refine ⟨.ofBits fits _, ⟨.empty none, fun {p r} here => ?_⟩, ?_, by rintro r ⟨⟩, fun r here => ?_⟩
  · rw [none] at here
    cases here
  · refine ⟨.empty, fun r => ⟨by rintro ⟨⟩, fun live => ?_⟩, rfl⟩
    cases live.1
  · rcases here with here | here <;> cases here

variable (sd : Sound bits s l m)

include sd

/-- A thread before `submitMx` has a request that is linked. -/
lemma mem_thread (here : s.pc t = .linked r) : r ∈ l := by
  have mine : r ∈ s.held m (.thread t) := by
    show r ∈ (s.pc t).requests
    rw [here]
    exact List.mem_singleton_self r
  refine (sd.listed.linked r).2 ⟨sd.placed.live mine, fun retry => ?_⟩
  have other : r ∈ s.held m .loop := by
    show r ∈ s.loop.requests
    rw [retry]
    exact List.mem_singleton_self r
  exact absurd (sd.placed.custody.unique mine other) (by rintro ⟨⟩)

/-- What the completion thread has is in use. -/
lemma loop_live (here : s.loop.requests = [r]) : s.live r = true := by
  apply sd.placed.live (p := .loop)
  show r ∈ s.loop.requests
  rw [here]
  exact List.mem_singleton_self r

/-- What the completion thread has, but for a request that is to be submitted again. -/
lemma mem_loop (here : s.loop.requests = [r]) (some : ∀ k, s.loop ≠ .retry k) : r ∈ l :=
  (sd.listed.linked r).2 ⟨sd.loop_live here, some r⟩

/-- A request that is not live is not the one to be submitted again. -/
lemma caller (free : s.live r = false) (req : Request) (r' : Addr) (here : s.loop = .short r' ∨ s.loop = .retry r') :
    (Function.update s.req r req r').bufCount ≠ 0 := by
  have live : s.live r' = true := by
    rcases here with here | here
    · exact sd.loop_live (by rw [here]; rfl)
    · exact sd.loop_live (by rw [here]; rfl)
  have other : r' ≠ r := by
    rintro rfl
    rw [live] at free
    cases free
  rw [Function.update_of_ne other]
  exact sd.rest r' here

/-- Nothing is linked or unlinked. -/
lemma keep (holds : Holds bits u.ring m') (placed : Placed (u.held m') s.live) (shards : u.shards = s.shards)
    (total : u.total = s.total) (live : u.live = s.live) (ringUp : u.ringUp = s.ringUp)
    (loop : ∀ k, u.loop = .retry k ↔ s.loop = .retry k)
    (rest : ∀ k, u.loop = .short k ∨ u.loop = .retry k → (u.req k).bufCount ≠ 0) : Sound bits u l m' := by
  refine ⟨holds, live ▸ placed, sd.listed.keep shards total fun r => ?_, ?_, rest⟩
  · rw [live, Ne, loop]
  · rw [live, ringUp]
    exact sd.up

/-- The only request of a place is unlinked and the caller's again. -/
lemma gives_back [DecidableEq θ] {p : Place θ} (mine : s.held m p = [r]) (mem : r ∈ l) (holds : Holds bits u.ring m')
    (held : u.held m' = Function.update (s.held m) p []) (shards : u.shards = s.shards.UnlinkLocked r)
    (total : u.total = s.total - 1) (live : u.live = Function.update s.live r false) (ringUp : u.ringUp = s.ringUp)
    (loop : ∀ k, u.loop = .retry k ↔ s.loop = .retry k)
    (rest : ∀ k, u.loop = .short k ∨ u.loop = .retry k → (u.req k).bufCount ≠ 0) : Sound bits u (l.erase r) m' := by
  refine ⟨holds, ?_, sd.listed.unlink mem shards total fun k => ?_, fun k h => ?_, rest⟩
  · rw [held, live]
    exact sd.placed.drop mine
  · rw [live, Function.update_apply, Ne, Ne, Ne, loop]
    split
    next e => simp only [e, not_true_eq_false, false_and, Bool.false_eq_true]
    next e => simp only [e, not_false_eq_true, true_and]
  · rw [live, Function.update_apply] at h
    rw [ringUp]
    split at h
    next => cases h
    next => exact sd.up k h

/-- The only request of a place goes through the ring. -/
lemma enters [DecidableEq θ] {p : Place θ} (mine : s.held m p = [r]) (ne : p ≠ .ring)
    (held : u.held (m ++ [⟨.op r, false⟩]) =
      Function.update (Function.update (s.held m) p []) .ring (Entry.requests m ++ [r]))
    (ring : u.ring = s.ring) (room : s.ring.full = false) (fresh : s.Fresh) :
    ∃ m', Holds bits (u.Submit (.op r) none).ring m' ∧ Placed ((u.Submit (.op r) none).held m') s.live := by
  have pl := sd.placed.pass ne mine
  apply Placed.enter (m := m)
  · rw [held]
    exact pl
  · exact ring ▸ sd.holds
  · exact ring ▸ room
  · unfold State.Fresh
    rw [ring]
    exact fresh

/-- A completion comes to the completion thread. -/
lemma completes (idle : s.loop = .idle) (mem : .op r ∈ s.kernel) {c : Loop} (here : c.requests = [r]) :
    Placed (State.held { s with kernel := s.kernel.erase (.op r), loop := c } m) s.live := by
  refine sd.placed.move ⟨.kernel, .loop, by rintro ⟨⟩, fun p np nq => ?_, ?_⟩
  · cases p with
    | kernel => exact absurd rfl np
    | loop => exact absurd rfl nq
    | thread | ring => rfl
  · show (Sqe.requests (s.kernel.erase (.op r)) ++ c.requests).Perm (Sqe.requests s.kernel ++ s.loop.requests)
    rw [here, idle]
    refine (List.perm_append_singleton ..).trans ((Sqe.requests_erase mem).symm.trans ?_)
    exact .of_eq (List.append_nil _).symm

/-- A step under the condition keeps the account. -/
lemma step [DecidableEq θ] (ok : Resubmits s a) (st : Step s a u) : ∃ l' m', Sound bits u l' m' := by
  cases st with
  | answered idle free _ =>
    exact ⟨l, m, sd.holds, sd.placed, sd.listed.keep rfl rfl fun _ => Iff.rfl, sd.up, sd.caller free _⟩
  | @submit t r kind req tok e idle free some passes =>
    have new : r ∉ l := by
      intro old
      rw [((sd.listed.linked r).1 old).1] at free
      cases free
    have empty : s.held m (.thread t) = [] := by
      show (s.pc t).requests = []
      rw [idle]
      rfl
    refine ⟨r :: l, m, sd.holds, ?_, sd.listed.link new rfl rfl fun k => ?_, fun k live => ⟨?_, ?_⟩, sd.caller free _⟩
    · rw [held_setPc]
      exact sd.placed.put free empty
    · show Function.update s.live r true k = true ∧ s.loop ≠ .retry k ↔ _
      rw [Function.update_apply]
      split
      next e =>
        subst e
        refine ⟨fun _ => .inl rfl, fun _ => ⟨rfl, fun retry => ?_⟩⟩
        have live : s.live k = true := sd.loop_live (by rw [retry]; rfl)
        rw [live] at free
        cases free
      next ne => exact ⟨.inr, fun h => h.resolve_left ne⟩
    · show s.ringUp = true
      by_contra down
      exact passes (.inr (.inl (Bool.eq_false_of_not_eq_true down)))
    · by_cases e : k = r
      · exact e ▸ some
      · have live : Function.update s.live r true k = true := live
        rw [Function.update_of_ne e] at live
        exact (sd.up k live).2
  | @full t r _ here _ =>
    have mine : s.held m (.thread t) = [r] := by
      show (s.pc t).requests = [r]
      rw [here]
      rfl
    exact ⟨_, m, sd.gives_back mine (sd.mem_thread here) sd.holds (held_setPc ..) rfl rfl rfl rfl
      (fun _ => Iff.rfl) sd.rest⟩
  | @failed t r n here room =>
    have mine : s.held m (.thread t) = [r] := by
      show (s.pc t).requests = [r]
      rw [here]
      rfl
    have held := held_setPc (((s.Submit (.op r) (some n)).UnlinkLocked r).release r) (m ++ [⟨.op r, true⟩]) t .idle
    have stale : State.held (((s.Submit (.op r) (some n)).UnlinkLocked r).release r) (m ++ [⟨.op r, true⟩]) =
      s.held m :=
      held_append s m rfl
    rw [stale] at held
    exact ⟨_, _, sd.gives_back mine (sd.mem_thread here) (sd.holds.push (sd.holds.room room)) held rfl rfl rfl rfl
      (fun _ => Iff.rfl) sd.rest⟩
  | @published t r here room =>
    have mine : s.held m (.thread t) = [r] := by
      show (s.pc t).requests = [r]
      rw [here]
      rfl
    have held : (s.setPc t .idle).held (m ++ [⟨.op r, false⟩]) =
        Function.update (Function.update (s.held m) (.thread t) []) .ring (Entry.requests m ++ [r]) := by
      rw [held_ring _ m, held_setPc, Entry.requests_append]
      rfl
    obtain ⟨m', holds, placed⟩ := sd.enters mine (by rintro ⟨⟩) held rfl room (ok room rfl)
    exact ⟨l, m', sd.keep holds placed rfl rfl rfl rfl (fun _ => Iff.rfl) sd.rest⟩
  | @ask errno room =>
    cases errno with
    | some n =>
      have placed : Placed ((s.Submit .sentinel (some n)).held (m ++ [⟨.sentinel, true⟩])) s.live := by
        have same : (s.Submit .sentinel (some n)).held (m ++ [⟨.sentinel, true⟩]) = s.held m := held_append s m rfl
        rw [same]
        exact sd.placed
      exact ⟨l, _, sd.keep (sd.holds.push (sd.holds.room room)) placed rfl rfl rfl rfl (fun _ => Iff.rfl) sd.rest⟩
    | none =>
      have placed : Placed (s.held (m ++ [⟨.sentinel, false⟩])) s.live := by
        rw [held_append s m rfl]
        exact sd.placed
      obtain ⟨m', holds, placed⟩ := placed.enter sd.holds room (ok rfl)
      exact ⟨l, m', sd.keep holds placed rfl rfl rfl rfl (fun _ => Iff.rfl) sd.rest⟩
  | sentinel idle mem =>
    have placed := sd.placed.perm (p := .kernel) (Sqe.requests_erase_sentinel s.kernel)
    rw [← held_kernel] at placed
    exact ⟨l, m, sd.keep sd.holds placed rfl rfl rfl rfl (fun _ => Iff.rfl) sd.rest⟩
  | @complete r _ idle mem _ =>
    have placed : Placed (State.held { s with kernel := s.kernel.erase (.op r), loop := .deliver r } m) s.live :=
      sd.completes idle mem rfl
    refine ⟨l, m, sd.keep sd.holds placed rfl rfl rfl rfl (fun k => ⟨by rintro ⟨⟩, fun retry => ?_⟩) fun k here => ?_⟩
    · rw [idle] at retry
      cases retry
    · rcases here with here | here <;> cases here
  | @short r res idle mem short =>
    have placed : Placed (State.held { s with kernel := s.kernel.erase (.op r), loop := .short r } m) s.live :=
      sd.completes idle mem rfl
    refine ⟨l, m, sd.keep sd.holds placed rfl rfl rfl rfl (fun k => ⟨by rintro ⟨⟩, fun retry => ?_⟩) fun k here => ?_⟩
    · rw [idle] at retry
      cases retry
    · have same : k = r := by
        rcases here with ⟨⟨⟩⟩ | ⟨⟨⟩⟩
        rfl
      subst same
      show (Function.update s.req k (advance (s.req k) res) k).bufCount ≠ 0
      rw [Function.update_self]
      exact short.2.rest
  | @unlink r _ here =>
    have mem : r ∈ l := sd.mem_loop (by rw [here]; rfl) (by rw [here]; rintro k ⟨⟩)
    have held : State.held { s.UnlinkLocked r with loop := .retry r } m = s.held m := by
      funext p
      cases p with
      | loop =>
        show [r] = s.loop.requests
        rw [here]
        rfl
      | thread | ring | kernel => rfl
    refine ⟨_, m, sd.holds, held ▸ sd.placed, sd.listed.unlink mem rfl rfl fun k => ?_, sd.up, fun k h => ?_⟩
    · show s.live k = true ∧ Loop.retry r ≠ .retry k ↔ _
      rw [here]
      constructor
      · exact fun h => ⟨fun e => h.2 (congrArg Loop.retry e.symm), h.1, by rintro ⟨⟩⟩
      · exact fun h => ⟨h.2.1, fun e => h.1 (Loop.retry.inj e).symm⟩
    · have same : r = k := by
        rcases h with h | h <;> cases h
        rfl
      exact same ▸ sd.rest r (.inl here)
  | @nothing r _ _ here none =>
    have some := sd.rest r (.inr here)
    unfold SubmitPrepared at none
    rw [if_neg some] at none
    split at none
    next => cases none
    next => cases none
  | @retryAnswered r _ _ here _ answers =>
    obtain ⟨live, going⟩ := ok.1 r here
    have up := (sd.up r (sd.loop_live (by rw [here]; rfl))).1
    rcases answers with cancelled | down | stopping
    · rw [live] at cancelled
      cases cancelled
    · rw [up] at down
      cases down
    · rw [going] at stopping
      cases stopping
  | @retry r _ _ here _ _ =>
    have new : r ∉ l := fun old => ((sd.listed.linked r).1 old).2 here
    have live : s.live r = true := sd.loop_live (by rw [here]; rfl)
    have held : State.held { s.Link r with loop := .relinked r } m = s.held m := by
      funext p
      cases p with
      | loop =>
        show [r] = s.loop.requests
        rw [here]
        rfl
      | thread | ring | kernel => rfl
    refine ⟨_, m, sd.holds, held ▸ sd.placed, sd.listed.link new rfl rfl fun k => ?_, sd.up, fun k h => ?_⟩
    · show s.live k = true ∧ Loop.relinked r ≠ .retry k ↔ _
      rw [here]
      constructor
      · rintro ⟨h, _⟩
        by_cases e : k = r
        · exact .inl e
        · exact .inr ⟨h, fun same => e (Loop.retry.inj same).symm⟩
      · rintro (rfl | ⟨h, _⟩)
        · exact ⟨live, by rintro ⟨⟩⟩
        · exact ⟨h, by rintro ⟨⟩⟩
    · rcases h with h | h <;> cases h
  | @relinkedFull r _ here full =>
    rw [(ok.2 r here).1] at full
    cases full
  | @relinkedFailed r _ _ here _ failed =>
    rw [(ok.2 r here).2.1] at failed
    cases failed
  | @relinkedPublished r _ here room _ =>
    have mine : s.held m .loop = [r] := by
      show s.loop.requests = [r]
      rw [here]
      rfl
    have held : State.held { s with loop := .idle } (m ++ [⟨.op r, false⟩]) =
        Function.update (Function.update (s.held m) .loop []) .ring (Entry.requests m ++ [r]) := by
      rw [held_ring _ m, held_loop, Entry.requests_append]
      rfl
    obtain ⟨m', holds, placed⟩ := sd.enters mine (by rintro ⟨⟩) held rfl room (ok.2 r here).2.2
    refine ⟨l, m', sd.keep holds placed rfl rfl rfl rfl (fun k => ⟨by rintro ⟨⟩, fun retry => ?_⟩) fun k h => ?_⟩
    · rw [here] at retry
      cases retry
    · rcases h with h | h <;> cases h
  | @deliver r _ here =>
    have mine : s.held m .loop = [r] := by
      show s.loop.requests = [r]
      rw [here]
      rfl
    have mem : r ∈ l := sd.mem_loop (by rw [here]; rfl) (by rw [here]; rintro k ⟨⟩)
    refine ⟨_, m, sd.gives_back mine mem sd.holds (held_loop ..) rfl rfl rfl rfl
      (fun k => ⟨by rintro ⟨⟩, fun retry => ?_⟩) fun k h => ?_⟩
    · rw [here] at retry
      cases retry
    · rcases h with h | h <;> cases h

end Sound

/-- The lists hold each request that is linked, once, in the list of its shard; `total` is their number; and what the
completion thread is about to unlink is linked. -/
structure Exact (s : State θ) (l : List Addr) : Prop where
  spelled : Spelled s.shards l
  total : s.total.toNat = l.length
  unlinks : ∀ r, s.loop = .short r ∨ s.loop = .relinked r ∨ s.loop = .deliver r → r ∈ l

/-- What the account says of the lists. -/
lemma Sound.exact (sd : Sound bits s l m) : Exact s l := by
  refine ⟨sd.listed.spelled, sd.listed.total_eq fun null => ?_, fun r here => ?_⟩
  · exact (sd.up 0 ((sd.listed.linked 0).1 null).1).2 rfl
  · rcases here with here | here | here
    · exact sd.mem_loop (by rw [here]; rfl) (by rw [here]; rintro k ⟨⟩)
    · exact sd.mem_loop (by rw [here]; rfl) (by rw [here]; rintro k ⟨⟩)
    · exact sd.mem_loop (by rw [here]; rfl) (by rw [here]; rintro k ⟨⟩)

/-- A send of three bytes. -/
def message : Request := ⟨fun _ => ⟨0, 3⟩, 1, 0, 5, 0⟩

/-- What a call finds where nothing is cancelled, `stopping` or not, and enters succeed. -/
def calm (stopping : Bool) : Env := ⟨fun _ => {}, stopping, none⟩

/-- The account of the requests in flight is exact in every run in which each short send is submitted again and
each enter that succeeds consumes the entry of no enter of `SubmitOp` that failed. -/
theorem total_exact [DecidableEq θ] {ringUp : Bool} (fits : bits < 32)
    (rn : Runs Step Resubmits (State.init θ ringUp bits) s) : ∃ l, Exact s l := by
  obtain ⟨l, m, sd⟩ : ∃ l m, Sound bits s l m := by
    apply rn.invariant (I := fun s => ∃ l m, Sound bits s l m)
    · exact ⟨[], [], Sound.init θ ringUp fits⟩
    · rintro t a u ⟨l, m, sd⟩ ok st
      exact sd.step ok st
  exact ⟨l, sd.exact⟩

/-- The socket takes one byte of three, and the rest is submitted. -/
theorem total_exact_short : ∃ s : State Unit, s.total = 1 ∧ s.kernel = [.op 64] ∧ ∃ l, Exact s l := by
  have start : Runs Step Resubmits (State.init Unit true 8) _ := .refl
  have r1 := start.next (.submit () 64 .send message .kNone (calm false)) trivial
    (.submit rfl rfl (by decide) (by rintro (⟨⟨⟩⟩ | ⟨⟨⟩⟩ | ⟨⟨⟩⟩)))
  have r2 := r1.next (.publish () none) (fun _ _ h => absurd rfl h) (.published rfl rfl)
  have r3 := r2.next (.complete (.op 64) 1) trivial
    (.short rfl List.mem_cons_self ⟨rfl, by decide, by decide, by decide⟩)
  have r4 := r3.next (.loop (calm false)) ⟨by rintro r ⟨⟩, by rintro r ⟨⟩⟩ (.unlink rfl)
  have r5 := r4.next (.loop (calm false)) ⟨by rintro r ⟨⟩; exact ⟨rfl, rfl⟩, by rintro r ⟨⟩⟩
    (.retry rfl rfl (by rintro (⟨⟨⟩⟩ | ⟨⟨⟩⟩ | ⟨⟨⟩⟩)))
  have r6 := r5.next (.loop (calm false)) ⟨by rintro r ⟨⟩, by rintro r ⟨⟩; exact ⟨rfl, rfl, fun h => absurd rfl h⟩⟩
    (.relinkedPublished rfl rfl rfl)
  exact ⟨_, rfl, rfl, total_exact (by decide) r6⟩

/-- The socket takes one byte of three while the reactor stops: the request is unlinked twice, and `total` is
2⁶⁴ - 1 although nothing is linked. -/
theorem total_wraps :
    ∃ s : State Unit, Reaches Step (State.init Unit true 8) s ∧ s.total = BitVec.ofNat 64 (2 ^ 64 - 1) ∧
      (∀ i, s.shards.head i = none) ∧ ¬∃ l, Exact s l := by
  have start : Reaches Step (State.init Unit true 8) _ := .refl
  have r1 := start.next (.submit () 64 .send message .kNone (calm false)) trivial
    (.submit rfl rfl (by decide) (by rintro (⟨⟨⟩⟩ | ⟨⟨⟩⟩ | ⟨⟨⟩⟩)))
  have r2 := r1.next (.publish () none) trivial (.published rfl rfl)
  have r3 := r2.next (.complete (.op 64) 1) trivial
    (.short rfl List.mem_cons_self ⟨rfl, by decide, by decide, by decide⟩)
  have r4 := r3.next (.loop (calm false)) trivial (.unlink rfl)
  have r5 := r4.next (.loop (calm true)) trivial (.retryAnswered rfl rfl (.inr (.inr rfl)))
  have r6 := r5.next (.loop (calm true)) trivial (.deliver rfl)
  have listed : Spelled ((({} : Shards).Link 64).UnlinkLocked 64) [] :=
    (Spelled.empty.link (List.not_mem_nil (a := 64))).unlink (List.mem_singleton_self 64)
  have once : ∀ i, ((({} : Shards).Link 64).UnlinkLocked 64).head i = none := fun i => (listed.lists i).start_eq
  have twice : ∀ i, (((({} : Shards).Link 64).UnlinkLocked 64).UnlinkLocked 64).head i = none := by
    intro i
    rw [Submission.UnlinkLocked_head, once i, once (shardFor 64), if_neg fun h => nomatch h.1.2]
  refine ⟨_, r6, rfl, twice, ?_⟩
  rintro ⟨l, spelled, total, _⟩
  have empty : l = [] := by
    apply List.eq_nil_iff_forall_not_mem.2
    intro r mem
    have here := (spelled.lists (shardFor r)).start_eq
    have none : l.filter (shardFor · = shardFor r) = [] := List.head?_eq_none_iff.1 (here.symm.trans (twice _))
    have mem := Submission.mem_shard.2 ⟨mem, rfl⟩
    rw [none] at mem
    cases mem
  rw [empty] at total
  exact absurd total (by decide)

end JLib.IoReactor.Accounting
