import JLib.Bands.Word
import JLib.LTS.Runs
import Mathlib.Logic.Function.Basic

/-!
# The writers of the band word

Each writer is a loop: it computes the word to write from the word it has read, and exchanges the two if the word
is still the one it read (`include/TaskScheduler.h`). `BandsSetF` and `BandsSetK` clamp what they write by the
other fields; the rest write what they are given. A thread is at one load or one exchange; the exchange may fail
for no reason.
-/

namespace JLib.Bands
open LTS

/-- The queues that the steal hints know. -/
def kMaxHintQueues : Nat := 256

def BandsSetF (w : BitVec 64) (f n : Nat) : BitVec 64 :=
  let k := BandField w kBandK
  let fb := BandField w kBandFbase
  let want := if f < fb then fb else f
  let room := if n > k + 1 then n - k - 1 else 0
  BandPut w kBandF (if n ≥ 2 ∧ want > room then room else want)

def BandsCasF (w : BitVec 64) (expected desired : Nat) : Option (BitVec 64) :=
  if BandField w kBandF ≠ expected then none else some (BandPut w kBandF desired)

def BandsSetFb (w : BitVec 64) (fb : Nat) : BitVec 64 := BandPut w kBandFbase fb

def BandsSetKmax (w : BitVec 64) (km : Nat) : BitVec 64 := BandPut w kBandKmax km

def BandsSetKmin (w : BitVec 64) (km : Nat) : BitVec 64 := BandPut w kBandKmin km

/-- A call of a writer. -/
inductive Op where
  | setF (f : Nat)
  | setK (k : Nat)
  | casF (expected desired : Nat)
  | setFb (fb : Nat)
  | setKmax (km : Nat)
  | setKmin (km : Nat)
  deriving DecidableEq

namespace Op

/-- What the call exchanges for the word in a pool of `n`, if it does. -/
def next (n : Nat) (w : BitVec 64) : Op → Option (BitVec 64)
  | setF f => some (BandsSetF w f n)
  | setK k => some (BandsSetK w k n)
  | casF expected desired => BandsCasF w expected desired
  | setFb fb => some (BandsSetFb w fb)
  | setKmax km => some (BandsSetKmax w km)
  | setKmin km => some (BandsSetKmin w km)

/-- The field the call is about. -/
def field : Op → Nat
  | setF _ => kBandF
  | setK _ => kBandK
  | casF _ _ => kBandF
  | setFb _ => kBandFbase
  | setKmax _ => kBandKmax
  | setKmin _ => kBandKmin

/-- What the call means to write, in a pool of two or more, before it is cut to 8 bits. -/
def value (n : Nat) (w : BitVec 64) : Op → Nat
  | setF f => min (max f (BandField w kBandFbase)) (n - BandField w kBandK - 1)
  | setK k =>
    min (if BandField w kBandKmax = 0 then k else min k (BandField w kBandKmax)) (n - BandField w kBandF - 1)
  | casF _ desired => desired
  | setFb fb => fb
  | setKmax km => km
  | setKmin km => km

/-- The exchange of the floor goes through when the floor is the expected one. -/
lemma next_casF {n expected desired : Nat} {w : BitVec 64} (h : BandField w kBandF = expected) :
    (casF expected desired).next n w = some (BandPut w kBandF desired) :=
  if_neg (not_not_intro h)

/-- What a writer publishes differs in its own field only. -/
lemma next_eq {n : Nat} {w w' : BitVec 64} {op : Op} (two : 2 ≤ n) (h : op.next n w = some w') :
    w' = BandPut w op.field (op.value n w) := by
  cases op with
  | setF f =>
    cases h
    refine congrArg (BandPut w kBandF) ?_
    unfold value
    dsimp only
    grind
  | setK k =>
    cases h
    refine congrArg (BandPut w kBandK) ?_
    unfold value
    dsimp only
    grind
  | casF expected desired =>
    change BandsCasF w expected desired = some w' at h
    unfold BandsCasF at h
    split at h
    · cases h
    · cases h
      rfl
  | setFb fb =>
    cases h
    rfl
  | setKmax km =>
    cases h
    rfl
  | setKmin km =>
    cases h
    rfl

end Op

inductive Pc where
  | idle
  -- the writer has read `cur`
  | loop (op : Op) (cur : BitVec 64)

structure State (θ : Type) where
  word : BitVec 64
  thread : θ → Pc := fun _ => .idle

inductive Label (θ : Type) where
  | call (t : θ) (op : Op)
  | exchange (t : θ)
  | retry (t : θ)
  | refuse (t : θ)

variable {θ : Type} [DecidableEq θ]

inductive Step (n : Nat) : State θ → Label θ → State θ → Prop where
  | call {s : State θ} {t op} :
    s.thread t = .idle →
    Step n s (.call t op) { s with thread := Function.update s.thread t (.loop op s.word) }
  | exchange {s : State θ} {t op cur w} :
    s.thread t = .loop op cur →
    op.next n cur = some w →
    s.word = cur →
    Step n s (.exchange t) { word := w, thread := Function.update s.thread t .idle }
  | retry {s : State θ} {t op cur w} :
    s.thread t = .loop op cur →
    op.next n cur = some w →
    Step n s (.retry t) { s with thread := Function.update s.thread t (.loop op s.word) }
  -- `BandsCasF` returns false
  | refuse {s : State θ} {t op cur} :
    s.thread t = .loop op cur →
    op.next n cur = none →
    Step n s (.refuse t) { s with thread := Function.update s.thread t .idle }

end JLib.Bands
