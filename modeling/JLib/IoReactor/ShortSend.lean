import JLib.Io.Result
import JLib.LTS.Runs
import Mathlib.Algebra.BigOperators.Group.List.Basic
import Mathlib.Algebra.Order.Ring.Nat
import Mathlib.Logic.Function.Basic

/-!
# Short sends

`FillBufs`, `AdvanceBufs` and `BufsRemaining` of `src/posix/IoReactor.cpp`, and one send from its submission to the
delivery of its result: `SubmitSend`, `SubmitSendV` or `IoStream::SubmitChained`, then the completions, of which a
short one goes round again through `SubmitPrepared`. The kernel takes the first bytes of what it was given; it may
fail, and `SubmitOp` may answer at once when the rest is submitted. An address is a number, and a segment does not
reach past the end of memory. Of the state, `taken` is read by no function of the source.
-/

namespace JLib.IoReactor.ShortSend
open LTS Io

structure IoBuffer where
  data : Nat
  len : Nat

structure Iovec where
  iov_base : Nat
  iov_len : Nat

/-- What a send has in its request. -/
structure Request where
  -- `Iov(r)`
  iov : Nat → Iovec
  bufCount : Nat
  xferred : Nat
  handle : Nat
  flags : Nat

/-! ## The descriptors -/

/-- `FillBufs`. -/
def FillBufs (v : Nat → Iovec) (bufs : List IoBuffer) : Option (Nat → Iovec) :=
  if bufs.length = 0 ∨ bufs.length > kMaxVectors then none
  else some fun i =>
    match bufs[i]? with
    | some b => ⟨b.data, b.len⟩
    | none => v i

/-- The loop of `AdvanceBufs` that consumes segments, with so many left from `i` on. A segment that is split ends
it. -/
def consume : Nat → (Nat → Iovec) → Nat → Nat → (Nat → Iovec) × Nat
  | 0, v, i, _ => (v, i)
  | left + 1, v, i, consumed =>
    if 0 < consumed then
      if consumed ≥ (v i).iov_len then consume left v (i + 1) (consumed - (v i).iov_len)
      else (Function.update v i ⟨(v i).iov_base + consumed, (v i).iov_len - consumed⟩, i)
    else (v, i)

/-- `v[k] = v[i + k]`, for so many `k`. -/
def compact (i : Nat) : Nat → (Nat → Iovec) → (Nat → Iovec)
  | 0, v => v
  | k + 1, v => Function.update (compact i k v) k (compact i k v (i + k))

/-- `AdvanceBufs`, with the new count. -/
def AdvanceBufs (v : Nat → Iovec) (n consumed : Nat) : (Nat → Iovec) × Nat :=
  let (v, i) := consume n v 0 consumed
  if i = 0 then (v, n) else (compact i (n - i) v, n - i)

def BufsRemaining (v : Nat → Iovec) : Nat → Nat
  | 0 => 0
  | n + 1 => BufsRemaining v n + (v n).iov_len

/-- The bytes of a segment. -/
def span (mem : Nat → UInt8) (base len : Nat) : List UInt8 := (List.range' base len).map mem

/-- The bytes of so many segments from `i` on. -/
def bytes (mem : Nat → UInt8) (v : Nat → Iovec) : Nat → Nat → List UInt8
  | _, 0 => []
  | i, n + 1 => span mem (v i).iov_base (v i).iov_len ++ bytes mem v (i + 1) n

/-- The data of the caller. -/
def data (mem : Nat → UInt8) (bufs : List IoBuffer) : List UInt8 := bufs.flatMap fun b => span mem b.data b.len

/-- The bytes that the caller asks for. -/
def total (bufs : List IoBuffer) : Nat := (bufs.map IoBuffer.len).sum

/-! ## The submissions -/

/-- The entry of a send: `SEND`, or `WRITEV` over so many descriptors. -/
inductive Sqe where
  | send (fd addr len flags : Nat)
  | writev (fd : Nat) (iov : Nat → Iovec) (len : Nat)

def Sqe.data (mem : Nat → UInt8) : Sqe → List UInt8
  | .send _ addr len _ => span mem addr len
  | .writev _ iov len => bytes mem iov 0 len

def einval : Nat := 22

def SubmitSend (req : Request) (s : Nat) (buf : IoBuffer) (flags : Nat) : Request × Sqe :=
  ⟨{ iov := Function.update req.iov 0 ⟨buf.data, buf.len⟩
     bufCount := 1
     xferred := 0
     handle := s
     flags },
    .send s buf.data buf.len flags⟩

/-- The flags are ignored. -/
def SubmitSendV (req : Request) (s : Nat) (bufs : List IoBuffer) : Except IoResult (Request × Sqe) :=
  match FillBufs req.iov bufs with
  | none => .error ⟨.failed, 0, kErrMsgSize⟩
  | some iov =>
    .ok ⟨{ req with iov, bufCount := bufs.length, xferred := 0, handle := s }, .writev s iov bufs.length⟩

/-- `SubmitPrepared` of a send. -/
def SubmitPrepared (req : Request) : Except IoResult Sqe :=
  if req.bufCount = 0 then .error ⟨.failed, 0, einval⟩
  else if req.bufCount = 1 then
    .ok (.send req.handle (req.iov 0).iov_base ((req.iov 0).iov_len % 2 ^ 32) req.flags)
  else .ok (.writev req.handle req.iov req.bufCount)

/-- `IoStream::SubmitChained` of a send, as it fills the request. -/
def SubmitChained (req : Request) (sock : Nat) (bufs : List IoBuffer) (flags : Nat) : Except IoResult Request :=
  match FillBufs req.iov bufs with
  | none => .error ⟨.failed, 0, kErrMsgSize⟩
  | some iov => .ok { iov, bufCount := bufs.length, xferred := 0, handle := sock, flags }

/-- The kernel has an entry of the send, or its result is delivered. -/
inductive Pc where
  | kernel (x : Sqe)
  | delivered (res : IoResult)

structure State where
  req : Request
  pc : Pc
  -- what the kernel took
  taken : List UInt8 := []

/-- A send of the caller's buffers is with the kernel, in a request of any history. -/
inductive Submitted (bufs : List IoBuffer) : State → Prop where
  | send {old req s b flags x} :
    bufs = [b] →
    SubmitSend old s b flags = (req, x) →
    Submitted bufs { req, pc := .kernel x }
  | sendV {old req s x} :
    SubmitSendV old s bufs = .ok (req, x) →
    Submitted bufs { req, pc := .kernel x }
  | chained {old req sock flags x} :
    SubmitChained old sock bufs flags = .ok req →
    SubmitPrepared req = .ok x →
    Submitted bufs { req, pc := .kernel x }

/-- The test of the completion thread for a short send. -/
def Short (req : Request) (res : Int) : Prop :=
  0 < req.bufCount ∧ 0 < res ∧ res.toNat < BufsRemaining req.iov req.bufCount

/-- The request of a short send, for the rest. -/
def advance (req : Request) (res : Int) : Request :=
  { req with
    xferred := (req.xferred + res.toNat) % 2 ^ 32
    iov := (AdvanceBufs req.iov req.bufCount res.toNat).1
    bufCount := (AdvanceBufs req.iov req.bufCount res.toNat).2 }

/-- A completed send reports the bytes of all its parts. -/
def deliver (req : Request) (res : IoResult) : IoResult :=
  if res.status = .completed then { res with bytes := (res.bytes + req.xferred) % 2 ^ 32 } else res

/-- An answer that `SubmitOp` gives at once. -/
def AtOnce (a : IoResult) : Prop := a = ⟨.cancelled, 0, 0⟩ ∨ ∃ e, a = ⟨.failed, 0, e⟩

/-- The completion of what the kernel has, and what `SubmitOp` answers at once if the rest is submitted. -/
structure Label where
  res : Int
  answer : Option IoResult

/-- No completion counts more than was submitted. -/
inductive Step (mem : Nat → UInt8) : State → Label → State → Prop where
  | short {s : State} {x} {res : Int} {y} :
    s.pc = .kernel x →
    res ≤ (x.data mem).length →
    Short s.req res →
    SubmitPrepared (advance s.req res) = .ok y →
    Step mem s ⟨res, none⟩
      { req := advance s.req res, pc := .kernel y, taken := s.taken ++ (x.data mem).take res.toNat }
  | refused {s : State} {x} {res : Int} {y a} :
    s.pc = .kernel x →
    res ≤ (x.data mem).length →
    Short s.req res →
    SubmitPrepared (advance s.req res) = .ok y →
    AtOnce a →
    Step mem s ⟨res, some a⟩
      { req := advance s.req res
        pc := .delivered (deliver (advance s.req res) a)
        taken := s.taken ++ (x.data mem).take res.toNat }
  | empty {s : State} {x} {res : Int} {answer a} :
    s.pc = .kernel x →
    res ≤ (x.data mem).length →
    Short s.req res →
    SubmitPrepared (advance s.req res) = .error a →
    Step mem s ⟨res, answer⟩
      { req := advance s.req res
        pc := .delivered (deliver (advance s.req res) a)
        taken := s.taken ++ (x.data mem).take res.toNat }
  | complete {s : State} {x} {res : Int} {answer} :
    s.pc = .kernel x →
    res ≤ (x.data mem).length →
    ¬Short s.req res →
    Step mem s ⟨res, answer⟩
      { s with
        pc := .delivered (deliver s.req (classify res))
        taken := s.taken ++ (x.data mem).take res.toNat }

/-- The kernel counts at least one byte, when there is one. -/
def Positive (mem : Nat → UInt8) (bufs : List IoBuffer) (_ : State) (a : Label) : Prop :=
  a.res = 0 → data mem bufs = []

/-! ## Bytes of descriptors -/

variable {mem : Nat → UInt8} {v v' : Nat → Iovec} {i n c k : Nat} {bufs : List IoBuffer}

/-- A segment has as many bytes as it says. -/
lemma length_span (base len : Nat) : (span mem base len).length = len := by
  unfold span
  rw [List.length_map, List.length_range']

/-- The end of a segment is a segment. -/
lemma span_drop (base len : Nat) : (span mem base len).drop c = span mem (base + c) (len - c) := by
  unfold span
  rw [← List.map_drop, List.drop_range', Nat.mul_one]

/-- The bytes of one segment more. -/
lemma bytes_succ (i n : Nat) :
    bytes mem v i (n + 1) = bytes mem v i n ++ span mem (v (i + n)).iov_base (v (i + n)).iov_len := by
  induction n generalizing i with
  | zero => exact List.append_nil _
  | succ n ih =>
    show span mem _ _ ++ bytes mem v (i + 1) (n + 1) = span mem _ _ ++ bytes mem v (i + 1) n ++ _
    rw [ih, List.append_assoc, Nat.add_assoc, Nat.add_comm 1 n]

/-- The bytes of the segments are as many as remain. -/
lemma length_bytes (mem : Nat → UInt8) (n : Nat) : (bytes mem v 0 n).length = BufsRemaining v n := by
  induction n with
  | zero => rfl
  | succ n ih =>
    rw [bytes_succ, List.length_append, length_span, ih, Nat.zero_add]
    rfl

/-- Segments that are the same are of the same bytes. -/
lemma bytes_congr {j : Nat} (h : ∀ d, d < n → v (i + d) = v' (j + d)) : bytes mem v i n = bytes mem v' j n := by
  induction n generalizing i j with
  | zero => rfl
  | succ n ih =>
    have first : v i = v' j := h 0 (Nat.succ_pos n)
    unfold bytes
    rw [first, ih fun d lt => ?_]
    have same := h (d + 1) (Nat.succ_lt_succ lt)
    rw [Nat.add_assoc, Nat.add_assoc, Nat.add_comm 1 d]
    exact same

/-- Bytes are dropped from the front. -/
lemma consume_bytes (left i c : Nat) (v : Nat → Iovec) (le : c ≤ (bytes mem v i left).length) :
    i ≤ (consume left v i c).2 ∧ (consume left v i c).2 ≤ i + left ∧
      bytes mem (consume left v i c).1 (consume left v i c).2 (i + left - (consume left v i c).2) =
        (bytes mem v i left).drop c := by
  induction left generalizing i c with
  | zero =>
    refine ⟨Nat.le_refl i, Nat.le_refl i, ?_⟩
    show bytes mem v i (i + 0 - i) = ([] : List UInt8).drop c
    rw [Nat.add_zero, Nat.sub_self, List.drop_nil]
    rfl
  | succ left ih =>
    unfold consume
    split
    next pos =>
      split
      next whole =>
        have rest : c - (v i).iov_len ≤ (bytes mem v (i + 1) left).length := by
          unfold bytes at le
          rw [List.length_append, length_span] at le
          omega
        obtain ⟨ge, top, same⟩ := ih (i + 1) (c - (v i).iov_len) rest
        refine ⟨Nat.le_of_succ_le ge, by omega, ?_⟩
        have none : (span mem (v i).iov_base (v i).iov_len).drop c = [] := by
          apply List.drop_of_length_le
          rw [length_span]
          exact whole
        have all : (bytes mem v i (left + 1)).drop c = (bytes mem v (i + 1) left).drop (c - (v i).iov_len) := by
          show (span mem _ _ ++ bytes mem v (i + 1) left).drop c = _
          rw [List.drop_append, length_span, none, List.nil_append]
        rw [show i + (left + 1) = i + 1 + left by omega, same, all]
      next part =>
        have lt : c < (v i).iov_len := Nat.lt_of_not_le part
        refine ⟨Nat.le_refl i, Nat.le_add_right _ _, ?_⟩
        rw [Nat.add_sub_cancel_left]
        dsimp only
        unfold bytes
        rw [Function.update_self, List.drop_append, length_span, Nat.sub_eq_zero_of_le (Nat.le_of_lt lt),
          List.drop_zero,
          span_drop]
        refine congrArg _ (bytes_congr fun d _ => ?_)
        exact Function.update_of_ne (by omega) ..
    next none =>
      have zero : c = 0 := Nat.eq_zero_of_not_pos none
      subst zero
      refine ⟨Nat.le_refl i, Nat.le_add_right _ _, ?_⟩
      rw [Nat.add_sub_cancel_left]
      rfl

/-- The segments that are left come to the front. -/
lemma compact_apply (pos : 0 < i) (n : Nat) : compact i n v k = if k < n then v (i + k) else v k := by
  induction n generalizing k with
  | zero => rfl
  | succ n ih =>
    unfold compact
    by_cases e : k = n
    · subst e
      rw [Function.update_self, ih, if_neg (by omega), if_pos (Nat.lt_succ_self k)]
    · rw [Function.update_of_ne e, ih]
      by_cases lt : k < n
      · rw [if_pos lt, if_pos (Nat.lt_succ_of_lt lt)]
      · rw [if_neg lt, if_neg (by omega)]

/-- `AdvanceBufs` drops what the kernel took. -/
lemma AdvanceBufs_bytes (mem : Nat → UInt8) (le : c ≤ BufsRemaining v n) :
    bytes mem (AdvanceBufs v n c).1 0 (AdvanceBufs v n c).2 = (bytes mem v 0 n).drop c := by
  rw [← length_bytes mem] at le
  obtain ⟨_, top, same⟩ := consume_bytes n 0 c v le
  rw [Nat.zero_add] at top same
  unfold AdvanceBufs
  generalize consume n v 0 c = p at *
  obtain ⟨v', i⟩ := p
  dsimp only at top same ⊢
  split
  next zero =>
    subst zero
    exact same
  next some =>
    rw [← same]
    apply bytes_congr
    intro d lt
    dsimp only at lt ⊢
    rw [Nat.zero_add, compact_apply (Nat.pos_of_ne_zero some), if_pos lt]

/-- Segments that are the buffers hold their bytes. -/
lemma bytes_bufs (h : ∀ d (b : IoBuffer), bufs[d]? = some b → v (i + d) = ⟨b.data, b.len⟩) :
    bytes mem v i bufs.length = data mem bufs := by
  induction bufs generalizing i with
  | nil => rfl
  | cons b bufs ih =>
    have first : v i = ⟨b.data, b.len⟩ := h 0 b rfl
    show span mem (v i).iov_base (v i).iov_len ++ bytes mem v (i + 1) bufs.length =
      span mem b.data b.len ++ data mem bufs
    rw [first, ih fun d b' here => ?_]
    rw [← h (d + 1) b' here, Nat.add_assoc, Nat.add_comm 1 d]

/-- The descriptors that were filled in give the data of the caller. -/
lemma bytes_fill (mem : Nat → UInt8) {filled : Nat → Iovec} (h : FillBufs v bufs = some filled) :
    bytes mem filled 0 bufs.length = data mem bufs := by
  unfold FillBufs at h
  split at h
  next => cases h
  next =>
    cases h
    apply bytes_bufs
    intro d b here
    rw [Nat.zero_add]
    simp only [here]

/-- The data of the caller are as long as the lengths say. -/
lemma length_data (mem : Nat → UInt8) : (data mem bufs).length = total bufs := by
  induction bufs with
  | nil => rfl
  | cons b bufs ih =>
    show (span mem b.data b.len ++ data mem bufs).length = b.len + total bufs
    rw [List.length_append, length_span, ih]

/-! ## A send -/

variable {req : Request} {s u : State} {a : Label} {x : Sqe} {res : Int}

/-- What is submitted again is all that the descriptors hold. -/
lemma SubmitPrepared_data (mem : Nat → UInt8) (fits : (bytes mem req.iov 0 req.bufCount).length < 2 ^ 32)
    (h : SubmitPrepared req = .ok x) : x.data mem = bytes mem req.iov 0 req.bufCount := by
  unfold SubmitPrepared at h
  split at h
  next => cases h
  next =>
    split at h
    next one =>
      cases h
      have whole : bytes mem req.iov 0 1 = span mem (req.iov 0).iov_base (req.iov 0).iov_len := List.append_nil _
      rw [one, whole, length_span] at fits
      show span mem _ _ = _
      rw [one, whole, Nat.mod_eq_of_lt fits]
    next =>
      cases h
      rfl

/-- Something is left of a short send. -/
lemma Short.rest (short : Short req res) : (advance req res).bufCount ≠ 0 := by
  intro none
  have mem : Nat → UInt8 := fun _ => 0
  have dropped := AdvanceBufs_bytes mem (Nat.le_of_lt short.2.2)
  have left : ((bytes mem req.iov 0 req.bufCount).drop res.toNat).length = 0 := by
    rw [← dropped]
    have none : (AdvanceBufs req.iov req.bufCount res.toNat).2 = 0 := none
    rw [none]
    rfl
  rw [List.length_drop, length_bytes] at left
  exact absurd short.2.2 (by omega)

/-- The rest of a short send is submitted. -/
lemma Short.prepared (short : Short req res) : ∃ y, SubmitPrepared (advance req res) = .ok y := by
  unfold SubmitPrepared
  rw [if_neg short.rest]
  split
  next => exact ⟨_, rfl⟩
  next => exact ⟨_, rfl⟩

/-- While the kernel has an entry, it is of what was not taken. -/
structure Sending (mem : Nat → UInt8) (bufs : List IoBuffer) (s : State) (x : Sqe) : Prop where
  entry : x.data mem = bytes mem s.req.iov 0 s.req.bufCount
  all : s.taken ++ x.data mem = data mem bufs
  count : s.req.xferred = s.taken.length

/-- What was delivered as completed was taken whole, and counted. -/
structure Sent (mem : Nat → UInt8) (bufs : List IoBuffer) (s : State) (res : IoResult) : Prop where
  part : s.taken <+: data mem bufs
  whole : res.status = .completed → s.taken = data mem bufs ∧ res.bytes = (data mem bufs).length

/-- A send, in every state it can be in. -/
def Exact (mem : Nat → UInt8) (bufs : List IoBuffer) (s : State) : Prop :=
  match s.pc with
  | .kernel x => Sending mem bufs s x
  | .delivered res => Sent mem bufs s res

/-- What was submitted first is all of the data. -/
lemma Submitted.sending (sub : Submitted bufs s) (mem : Nat → UInt8) (fits : (data mem bufs).length < 2 ^ 32) :
    ∃ x, s.pc = .kernel x ∧ Sending mem bufs s x := by
  cases sub with
  | @send old req fd b _ _ one h =>
    cases h
    subst one
    have here : data mem [b] = span mem b.data b.len := List.append_nil _
    have filled : Function.update old.iov 0 (⟨b.data, b.len⟩ : Iovec) 0 = ⟨b.data, b.len⟩ := Function.update_self ..
    refine ⟨_, rfl, ?_, ?_, rfl⟩
    · show span mem b.data b.len =
        span mem (Function.update old.iov 0 (⟨b.data, b.len⟩ : Iovec) 0).iov_base
          (Function.update old.iov 0 (⟨b.data, b.len⟩ : Iovec) 0).iov_len ++ []
      rw [List.append_nil, filled]
    · rw [here]
      rfl
  | sendV h =>
    unfold SubmitSendV at h
    split at h
    next => cases h
    next filled =>
      cases h
      exact ⟨_, rfl, rfl, bytes_fill mem filled, rfl⟩
  | chained h prepared =>
    unfold SubmitChained at h
    split at h
    next => cases h
    next filled =>
      cases h
      have same := bytes_fill mem filled
      have entry := SubmitPrepared_data mem (by rw [same]; exact fits) prepared
      exact ⟨_, rfl, entry, entry.trans same, rfl⟩

/-- What is delivered as completed is the kernel's count and the parts before it. -/
lemma deliver_completed (completed : (deliver req (classify res)).status = .completed) :
    0 ≤ res ∧ (deliver req (classify res)).bytes = (res.toNat + req.xferred) % 2 ^ 32 := by
  unfold deliver classify at completed ⊢
  by_cases ge : 0 ≤ res
  · rw [if_pos ge]
    exact ⟨ge, rfl⟩
  · rw [if_neg ge] at completed
    by_cases cancelled : res = -(ecanceled : Int)
    · rw [if_pos cancelled] at completed
      cases completed
    · rw [if_neg cancelled] at completed
      cases completed

namespace Sending

variable (sd : Sending mem bufs s x)

include sd

/-- A test of the descriptors is a test of the entry. -/
lemma remaining : BufsRemaining s.req.iov s.req.bufCount = (x.data mem).length := by
  rw [sd.entry, length_bytes]

/-- What was taken and what the entry counts do not pass what the caller asked for. -/
lemma total : s.taken.length + (x.data mem).length = (data mem bufs).length := by
  rw [← sd.all, List.length_append]

/-- The descriptors of the rest. -/
lemma advance_bytes (le : res ≤ (x.data mem).length) :
    bytes mem (advance s.req res).iov 0 (advance s.req res).bufCount = (x.data mem).drop res.toNat := by
  rw [sd.entry]
  apply AdvanceBufs_bytes
  rw [sd.remaining]
  exact Int.toNat_le.2 le

/-- The bytes are counted that were taken. -/
lemma advance_count (fits : (data mem bufs).length < 2 ^ 32) (le : res ≤ (x.data mem).length) :
    (advance s.req res).xferred = (s.taken ++ (x.data mem).take res.toNat).length := by
  have top := sd.total
  have short := Int.toNat_le.2 le
  show (s.req.xferred + res.toNat) % 2 ^ 32 = _
  rw [sd.count, List.length_append, List.length_take, Nat.min_eq_left short]
  exact Nat.mod_eq_of_lt (by omega)

/-- The kernel has the rest. -/
lemma short (fits : (data mem bufs).length < 2 ^ 32) (le : res ≤ (x.data mem).length) {y : Sqe}
    (prepared : SubmitPrepared (advance s.req res) = .ok y) :
    y.data mem = (x.data mem).drop res.toNat ∧
      Sending mem bufs
        { req := advance s.req res, pc := .kernel y, taken := s.taken ++ (x.data mem).take res.toNat } y := by
  have rest := sd.advance_bytes le
  have top := sd.total
  have entry := SubmitPrepared_data mem (by rw [rest, List.length_drop]; omega) prepared
  refine ⟨entry.trans rest, entry, ?_, sd.advance_count fits le⟩
  rw [entry, rest, List.append_assoc, List.take_append_drop]
  exact sd.all

/-- What the kernel took is of what it was given. -/
lemma part (res : Int) : s.taken ++ (x.data mem).take res.toNat <+: data mem bufs := by
  rw [← sd.all]
  exact (List.prefix_append_right_inj _).2 (List.take_prefix ..)

/-- A completion that is not short and counts something took all. -/
lemma took (le : res ≤ (x.data mem).length) (ge : 0 ≤ res) (long : ¬Short s.req res)
    (pos : res = 0 → data mem bufs = []) : res.toNat = (x.data mem).length := by
  have top := sd.total
  apply Nat.le_antisymm (Int.toNat_le.2 le)
  by_contra less
  by_cases zero : res = 0
  · rw [pos zero, List.length_nil] at top
    omega
  · apply long
    refine ⟨Nat.pos_of_ne_zero fun none => ?_, by omega, ?_⟩
    · have entry := sd.entry
      rw [none] at entry
      rw [entry] at less
      exact less (Nat.zero_le _)
    · rw [sd.remaining]
      exact Nat.lt_of_not_le less

/-- The completion that is delivered counts all. -/
lemma complete (fits : (data mem bufs).length < 2 ^ 32) (le : res ≤ (x.data mem).length) (long : ¬Short s.req res)
    (pos : res = 0 → data mem bufs = []) {pc : Pc} :
    Sent mem bufs { s with pc, taken := s.taken ++ (x.data mem).take res.toNat } (deliver s.req (classify res)) := by
  refine ⟨sd.part res, fun completed => ?_⟩
  obtain ⟨ge, bytes⟩ := deliver_completed completed
  have took := sd.took le ge long pos
  have whole : s.taken ++ (x.data mem).take res.toNat = data mem bufs := by
    rw [took, List.take_length]
    exact sd.all
  refine ⟨whole, ?_⟩
  have top := sd.total
  rw [bytes, took, sd.count, Nat.add_comm, top]
  exact Nat.mod_eq_of_lt fits

end Sending

/-- An answer at once is no completion. -/
lemma AtOnce.sent {b : IoResult} (h : AtOnce b) (part : s.taken <+: data mem bufs) :
    Sent mem bufs s (deliver req b) := by
  refine ⟨part, fun completed => ?_⟩
  rcases h with rfl | ⟨e, rfl⟩
  · cases completed
  · cases completed

/-- A completion keeps the send exact. -/
lemma Step.exact (fits : (data mem bufs).length < 2 ^ 32) (ex : Exact mem bufs s) (pos : Positive mem bufs s a)
    (st : Step mem s a u) : Exact mem bufs u := by
  cases st with
  | short here le _ prepared =>
    unfold Exact at ex
    rw [here] at ex
    exact (ex.short fits le prepared).2
  | refused here _ _ _ atOnce =>
    unfold Exact at ex
    rw [here] at ex
    exact atOnce.sent (ex.part _)
  | empty here _ short none =>
    unfold Exact at ex
    rw [here] at ex
    obtain ⟨y, some⟩ := short.prepared
    exact absurd (none.symm.trans some) (by rintro ⟨⟩)
  | complete here le long =>
    unfold Exact at ex
    rw [here] at ex
    exact ex.complete fits le long pos

/-- What the kernel is still to take, and the delivery. -/
def State.left (mem : Nat → UInt8) (s : State) : Nat :=
  match s.pc with
  | .kernel x => (x.data mem).length + 1
  | .delivered _ => 0

/-- A completion brings the delivery nearer. -/
lemma Step.left (fits : (data mem bufs).length < 2 ^ 32) (ex : Exact mem bufs s) (st : Step mem s a u) :
    u.left mem < s.left mem := by
  have kernel : ∃ x, s.pc = .kernel x := by
    cases st with
    | short here | refused here | empty here | complete here => exact ⟨_, here⟩
  obtain ⟨x, here⟩ := kernel
  have before : s.left mem = (x.data mem).length + 1 := by
    unfold State.left
    rw [here]
  rw [before]
  unfold Exact at ex
  rw [here] at ex
  cases st with
  | @short x' res y here' le short prepared =>
    cases here.symm.trans here'
    show (y.data mem).length + 1 < _
    rw [(ex.short fits le prepared).1, List.length_drop]
    have pos := short.2.1
    omega
  | refused | empty | complete => exact Nat.succ_pos _

/-- Each count is followed by a step. -/
lemma Step.exists (here : s.pc = .kernel x) (le : res ≤ (x.data mem).length) :
    ∃ u, Step mem s ⟨res, none⟩ u := by
  by_cases short : Short s.req res
  · obtain ⟨y, prepared⟩ := short.prepared
    exact ⟨_, .short here le short prepared⟩
  · exact ⟨_, .complete here le short⟩

/-- A count that is less than all, and no answer at once: the kernel has the rest. -/
lemma Sending.resubmits (sd : Sending mem bufs s x) (fits : (data mem bufs).length < 2 ^ 32) (here : s.pc = .kernel x)
    (pos : 0 < res) (less : res < (x.data mem).length) (st : Step mem s ⟨res, none⟩ u) :
    ∃ y, u.pc = .kernel y ∧ y.data mem = (x.data mem).drop res.toNat := by
  cases st with
  | @short x' _ y here' le _ prepared =>
    cases here.symm.trans here'
    exact ⟨y, rfl, (sd.short fits le prepared).1⟩
  | empty _ _ short none =>
    obtain ⟨y, some⟩ := short.prepared
    exact absurd (none.symm.trans some) (by rintro ⟨⟩)
  | complete here' le long =>
    cases here.symm.trans here'
    have took : res.toNat = (x.data mem).length := sd.took le (by omega) long (by omega)
    omega

/-- A count of all is delivered. -/
lemma Sending.completes (sd : Sending mem bufs s x) {answer : Option IoResult}
    (all : res = (x.data mem).length) (st : Step mem s ⟨res, answer⟩ u) :
    ∃ b, u.pc = .delivered b ∧ b.status = .completed := by
  have long : ¬Short s.req res := by
    rintro ⟨_, _, less⟩
    rw [sd.remaining, all] at less
    exact Nat.lt_irrefl _ less
  cases st with
  | short _ _ short => exact absurd short long
  | refused _ _ short => exact absurd short long
  | empty _ _ short => exact absurd short long
  | complete _ _ _ =>
    have ge : 0 ≤ res := by omega
    refine ⟨_, rfl, ?_⟩
    unfold deliver classify
    rw [if_pos ge]
    rfl

/-- What a send does from a state on. -/
structure SendsExactly (mem : Nat → UInt8) (bufs : List IoBuffer) (s : State) : Prop where
  -- nothing is repeated or skipped
  part : s.taken <+: data mem bufs
  rest : ∀ x, s.pc = .kernel x → s.taken ++ x.data mem = data mem bufs
  -- every count is followed; less than all is submitted again, all is delivered
  step : ∀ x (res : Int), s.pc = .kernel x → res ≤ (x.data mem).length → ∃ u, Step mem s ⟨res, none⟩ u
  resubmits : ∀ x (res : Int) u, s.pc = .kernel x → 0 < res → res < (x.data mem).length →
    Step mem s ⟨res, none⟩ u → ∃ y, u.pc = .kernel y ∧ y.data mem = (x.data mem).drop res.toNat
  completes : ∀ x answer u, s.pc = .kernel x → Step mem s ⟨(x.data mem).length, answer⟩ u →
    ∃ b, u.pc = .delivered b ∧ b.status = .completed
  -- completed is what was taken whole
  whole : ∀ b, s.pc = .delivered b → b.status = .completed → s.taken = data mem bufs ∧ b.bytes = total bufs
  -- the send ends
  ends : Acc (fun u t => ∃ a, Positive mem bufs t a ∧ Step mem t a u) s

/-- Two buffers with the kernel. -/
def greeted : State :=
  { req :=
      { iov := fun
          | 0 => ⟨0, 2⟩
          | 1 => ⟨100, 4⟩
          | _ => ⟨0, 0⟩
        bufCount := 2
        xferred := 0
        handle := 5
        flags := 0 }
    pc := .kernel
      (.writev 5
        (fun
          | 0 => ⟨0, 2⟩
          | 1 => ⟨100, 4⟩
          | _ => ⟨0, 0⟩)
        2) }

/-- `AdvanceBufs` drops from the bytes of the descriptors so many as it is told, and a send of up to
`kMaxVectors` buffers, of less than 2³² bytes together, sends their bytes: in every run in which the kernel counts
at least one byte, what it took is the data from its start and what it has is the rest; after finitely many
completions the result is delivered, and if it is completed, the kernel took all and the count is of all. -/
theorem short_sends_exact {init : State} (fits : total bufs < 2 ^ 32) (sub : Submitted bufs init)
    (rn : Runs (Step mem) (Positive mem bufs) init s) :
    (∀ v n c, c ≤ BufsRemaining v n →
      bytes mem (AdvanceBufs v n c).1 0 (AdvanceBufs v n c).2 = (bytes mem v 0 n).drop c) ∧
    SendsExactly mem bufs s := by
  rw [← length_data mem] at fits
  have ex : Exact mem bufs s := by
    apply rn.invariant (I := Exact mem bufs)
    · obtain ⟨x, here, sd⟩ := sub.sending mem fits
      unfold Exact
      rw [here]
      exact sd
    · exact fun ex pos st => st.exact fits ex pos
  have sending : ∀ x, s.pc = .kernel x → Sending mem bufs s x := by
    intro x here
    unfold Exact at ex
    rw [here] at ex
    exact ex
  refine ⟨fun v n c le => AdvanceBufs_bytes mem le, ?_, ?_, ?_, ?_, ?_, ?_, ?_⟩
  · unfold Exact at ex
    split at ex
    next x _ =>
      rw [← ex.all]
      exact List.prefix_append ..
    next => exact ex.part
  · exact fun x here => (sending x here).all
  · exact fun x res here le => Step.exists here le
  · exact fun x res u here pos less st => (sending x here).resubmits fits here pos less st
  · exact fun x answer u here st => (sending x here).completes rfl st
  · intro b here completed
    unfold Exact at ex
    rw [here] at ex
    rw [← length_data mem]
    exact ex.whole completed
  · refine acc_of_descent (I := fun n s => Exact mem bufs s ∧ s.left mem = n) ?_ ⟨ex, rfl⟩
    rintro n t a u ⟨ex, rfl⟩ pos st
    exact ⟨_, st.left fits ex, st.exact fits ex pos, rfl⟩

/-- The kernel takes three bytes, and then three. -/
theorem short_sends_exact_greeted :
    ∃ s, s.pc = .delivered ⟨.completed, 6, 0⟩ ∧ SendsExactly UInt8.ofNat [⟨0, 2⟩, ⟨100, 4⟩] s := by
  have sub : Submitted [⟨0, 2⟩, ⟨100, 4⟩] greeted := by
    have filled : FillBufs (fun _ => ⟨0, 0⟩) [⟨0, 2⟩, ⟨100, 4⟩] = some greeted.req.iov := by
      apply congrArg some
      funext i
      match i with
      | 0 | 1 | _ + 2 => rfl
    apply Submitted.sendV
    show SubmitSendV ⟨fun _ => ⟨0, 0⟩, 0, 7, 0, 0⟩ 5 _ = .ok _
    unfold SubmitSendV
    rw [filled]
    rfl
  have half : Step UInt8.ofNat greeted ⟨3, none⟩
      ⟨advance greeted.req 3, .kernel (.send 5 101 3 0), [0, 1, 100]⟩ :=
    .short (x := .writev 5 greeted.req.iov 2) rfl (by decide) ⟨by decide, by decide, by decide⟩ rfl
  have whole : Step UInt8.ofNat ⟨advance greeted.req 3, .kernel (.send 5 101 3 0), [0, 1, 100]⟩ ⟨3, none⟩
      ⟨advance greeted.req 3, .delivered ⟨.completed, 6, 0⟩, [0, 1, 100, 101, 102, 103]⟩ :=
    .complete (x := .send 5 101 3 0) rfl (by decide) fun short => absurd short.2.2 (by decide)
  have pos (s : State) : Positive UInt8.ofNat [⟨0, 2⟩, ⟨100, 4⟩] s ⟨3, none⟩ := by rintro ⟨⟩
  have rn := (Runs.refl.next _ (pos _) half).next _ (pos _) whole
  exact ⟨_, rfl, (short_sends_exact (by decide) sub rn).2⟩

end JLib.IoReactor.ShortSend
