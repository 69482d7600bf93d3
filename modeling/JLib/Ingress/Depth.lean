import JLib.Ingress.Model
import JLib.LTS.Balance
import JLib.LTS.Custody
import Mathlib.Data.Finset.Card
import Mathlib.Order.Interval.Finset.Nat

/-!
# What the ingress depth counts

At some places a task goes into an inbox or leaves one and `g_inboxDepth` is not told: `PushBatch`, the requeues
of the worker loop, `PushResume`, and every pop but those of the two drains. Where only the other places are
passed, the depth differs from the number of the tasks in the inboxes by what the calls under way have still to
add, so that the two agree when there is none.
-/

namespace JLib.Ingress
open LTS

/-! ## What a call has still to add -/

namespace Op
variable {n : Nat}

/-- What the operation adds to the depth, less what it adds to the inboxes. -/
def due : Op n → Int
  | push _ tasks => -tasks.length
  | NoteInboxPush k => k
  | NoteInboxDrain k => -k

end Op

def owed {n : Nat} (ops : List (Op n)) : Int := (ops.map Op.due).sum

/-- The place tells `g_inboxDepth`. -/
def Site.Noted {n : Nat} : Site n → Prop
  | .PushTarget .. | .Requeue .. | .RequeuePinned .. | .RedistributeToOverflow .. => True
  | .submitRun .. | .redistributeElsewhere .. | .noFiber .. | .wantsYield .. | .suspendSignaled ..
  | .PushResume .. => False

def Drain.Noted : Drain → Prop
  | .DrainOwnInboxesToDeques | .InboxDrain => True
  | .publish | .yieldedLastPass | .myLane | .TryTakeLaneTask | .myResumed => False

/-- A place that tells the depth owes nothing. -/
lemma Site.owed_program {n : Nat} {site : Site n} (noted : site.Noted) : owed site.program = 0 := by
  cases site with
  | PushTarget => rfl
  | Requeue => rfl
  | RequeuePinned => rfl
  | RedistributeToOverflow => rfl
  | _ => cases noted

/-- A drain that tells the depth takes off what it popped. -/
lemma Drain.owed_after {n : Nat} {d : Drain} (noted : d.Noted) (count : Nat) :
    owed (d.after count : List (Op n)) = -count := by
  cases d with
  | DrainOwnInboxesToDeques => exact add_zero _
  | InboxDrain => exact add_zero _
  | _ => cases noted

/-- A drain that popped nothing owes nothing. -/
lemma Drain.owed_after_zero {n : Nat} (d : Drain) : owed (d.after 0 : List (Op n)) = -(0 : Nat) := by
  cases d <;> rfl

namespace Pc
variable {n : Nat}

/-- What the thread has still to add to the depth, less what it has still to add to the inboxes. -/
def due : Pc n → Int
  | idle => 0
  | doing ops => owed ops
  | popping _ _ count => -count
  | shed _ _ none => 0
  | shed _ _ (some _) => -1

end Pc

/-! ## The invariant -/

variable {n : Nat} {θ : Type} [DecidableEq θ] {worker : θ → Option (Fin n)} {s s' : State n θ} {a : Label n θ}
  {limit : BitVec 64} {p : θ} {c : Pc n} {x y : Int}

namespace State

/-- The depth is right but for what the calls under way have still to add. -/
def Even (s : State n θ) : Prop :=
  ∃ b, Balance (fun p => (s.pc p).due) b ∧ s.inboxDepth = BitVec.ofInt 64 (s.queued - b)

omit [DecidableEq θ] in
/-- What is queued changes by what the one inbox changes. -/
lemma queued_setInbox (s : State n θ) (b : Box n) (l : List Task) :
    ((s.setInbox b l).queued : Int) = s.queued + (l.length - (s.inbox b).length) := by
  have before : Balance (fun b => ((s.inbox b).length : Int)) s.queued := by
    have sum := Balance.of_fintype fun b => ((s.inbox b).length : Int)
    rwa [← Nat.cast_sum] at sum
  have after : Balance (fun b' => (((s.setInbox b l).inbox b').length : Int)) (s.setInbox b l).queued := by
    have sum := Balance.of_fintype fun b' => (((s.setInbox b l).inbox b').length : Int)
    rwa [← Nat.cast_sum] at sum
  exact after.unique (before.step (w := fun l => (l.length : Int)) b l)

/-- One thread goes on: what it adds to the depth and has still to add is what it adds to the inboxes and had
to add. -/
lemma Even.step (even : s.Even) (pc : s'.pc = Function.update s.pc p c)
    (depth : s'.inboxDepth = s.inboxDepth + BitVec.ofInt 64 x) (queued : (s'.queued : Int) = s.queued + y)
    (eq : x + c.due = y + (s.pc p).due) : s'.Even := by
  obtain ⟨b, bal, here⟩ := even
  refine ⟨b + (c.due - (s.pc p).due), ?_, ?_⟩
  · rw [pc]
    exact bal.step p c
  · rw [depth, here, ← BitVec.ofInt_add, queued]
    congr 1
    omega

/-- A thread that goes on with the same debt keeps the account even. -/
lemma Even.setPc (even : s.Even) (eq : c.due = (s.pc p).due) : (s.setPc p c).Even := by
  refine even.step (x := 0) (y := 0) rfl ?_ (add_zero _).symm ?_
  · exact (BitVec.add_zero _).symm
  · rw [eq]

/-- An inbox that changes with the debt keeps the account even. -/
lemma Even.setInbox {b : Box n} {l : List Task} (even : s.Even)
    (eq : c.due = (l.length - (s.inbox b).length) + (s.pc p).due) : ((s.setInbox b l).setPc p c).Even := by
  refine even.step (x := 0) rfl ?_ (queued_setInbox s b l) ?_
  · exact (BitVec.add_zero _).symm
  · rw [eq, zero_add]

/-- A change of the depth that is off the debt keeps the account even. -/
lemma Even.note {d : BitVec 64} (even : s.Even) (depth : d = s.inboxDepth + BitVec.ofInt 64 x)
    (eq : x + c.due = (s.pc p).due) : (({ s with inboxDepth := d } : State n θ).setPc p c).Even := by
  refine even.step (y := 0) rfl depth (add_zero _).symm ?_
  rw [eq, zero_add]

end State

omit [DecidableEq θ] in
/-- Tasks are loose while the inboxes are empty. -/
lemma State.Loose.of_empty {tasks : List Task} (empty : ∀ b, s.inbox b = []) (nd : tasks.Nodup)
    (some : 0 ∉ tasks) : s.Loose tasks := by
  refine ⟨nd, fun t mem => ⟨fun zero => some (zero ▸ mem), fun b held => ?_⟩⟩
  rw [empty b] at held
  cases held

/-- Tasks pass only places that tell `g_inboxDepth`. -/
def Told (s : State n θ) : Label n θ → Prop
  | .call _ site => site.Noted
  | .pop p => ∀ d i count, s.pc p = .popping d i count → d.Noted
  | _ => True

structure Sound (limit : BitVec 64) (s : State n θ) : Prop where
  submitLimit : s.submitLimit = limit
  cus : Custody s.inbox
  ne_zero : ∀ {b t}, t ∈ s.inbox b → t ≠ 0
  -- a drain that tells nothing has taken nothing
  quiet : ∀ {p d i count}, s.pc p = .popping d i count → ¬d.Noted → count = 0
  even : s.Even

namespace Sound

omit [DecidableEq θ] in
/-- The inboxes are empty and the depth is zero. -/
lemma init : Sound limit ({ submitLimit := limit } : State n θ) := by
  refine ⟨rfl, .empty fun _ => rfl, fun {b t} mem => ?_, fun {p d i count} at_p => ?_, 0, .rest, ?_⟩
  · cases mem
  · cases at_p
  · have none : ({ submitLimit := limit } : State n θ).queued = 0 := Finset.sum_const_zero
    rw [none]
    rfl

/-- A thread goes on within a call. -/
lemma quiet_update (sound : Sound limit s)
    (now : ∀ d i count, c = .popping d i count → ¬d.Noted → count = 0) {q d i count}
    (here : Function.update s.pc p c q = .popping d i count) (silent : ¬d.Noted) : count = 0 := by
  by_cases e : q = p
  · subst e
    rw [Function.update_self] at here
    exact now d i count here silent
  · rw [Function.update_of_ne e] at here
    exact sound.quiet here silent

/-- A thread that goes on with the same debt keeps the account. -/
lemma setPc (sound : Sound limit s) (eq : c.due = (s.pc p).due)
    (now : ∀ d i count, c = .popping d i count → ¬d.Noted → count = 0) : Sound limit (s.setPc p c) :=
  ⟨sound.submitLimit, sound.cus, sound.ne_zero, sound.quiet_update now, sound.even.setPc eq⟩

/-- Tasks are linked at the end of an inbox. -/
lemma append (sound : Sound limit s) {b : Box n} {tasks : List Task} (loose : s.Loose tasks)
    (eq : c.due = tasks.length + (s.pc p).due)
    (now : ∀ d i count, c = .popping d i count → ¬d.Noted → count = 0) :
    Sound limit ((s.setInbox b (s.inbox b ++ tasks)).setPc p c) := by
  refine ⟨sound.submitLimit, ?_, fun {b' t} mem => ?_, sound.quiet_update now, sound.even.setInbox ?_⟩
  · exact sound.cus.puts loose.1 fun t mem => (loose.2 t mem).2
  · change t ∈ Function.update s.inbox b (s.inbox b ++ tasks) b' at mem
    by_cases e : b' = b
    · subst e
      rw [Function.update_self] at mem
      rcases List.mem_append.1 mem with old | new
      · exact sound.ne_zero old
      · exact (loose.2 t new).1
    · rw [Function.update_of_ne e] at mem
      exact sound.ne_zero mem
  · rw [eq, List.length_append]
    push_cast
    omega

/-- The first task of an inbox is taken. -/
lemma take (sound : Sound limit s) {b : Box n} {t : Task} {rest : List Task} (at_b : s.inbox b = t :: rest)
    (eq : c.due = -1 + (s.pc p).due)
    (now : ∀ d i count, c = .popping d i count → ¬d.Noted → count = 0) :
    Sound limit ((s.setInbox b rest).setPc p c) := by
  have sub : rest.Sublist (s.inbox b) := by
    rw [at_b]
    exact List.sublist_cons_self t rest
  refine ⟨sound.submitLimit, ?_, fun {b' t} mem => ?_, sound.quiet_update now, sound.even.setInbox ?_⟩
  · refine sound.cus.shrink (p := b) (fun r ne => Function.update_of_ne ne _ _) ?_
    change (Function.update s.inbox b rest b).Subperm (s.inbox b)
    rw [Function.update_self]
    exact sub.subperm
  · change t ∈ Function.update s.inbox b rest b' at mem
    by_cases e : b' = b
    · subst e
      rw [Function.update_self] at mem
      exact sound.ne_zero (sub.subset mem)
    · rw [Function.update_of_ne e] at mem
      exact sound.ne_zero mem
  · rw [eq, at_b, List.length_cons]
    push_cast
    omega

/-- A change of the depth that is off the debt keeps the account. -/
lemma note (sound : Sound limit s) {d : BitVec 64} (depth : d = s.inboxDepth + BitVec.ofInt 64 x)
    (eq : x + c.due = (s.pc p).due)
    (now : ∀ d i count, c = .popping d i count → ¬d.Noted → count = 0) :
    Sound limit (({ s with inboxDepth := d } : State n θ).setPc p c) :=
  ⟨sound.submitLimit, sound.cus, sound.ne_zero, sound.quiet_update now, sound.even.note depth eq⟩

/-- A step that tells the depth keeps the account. -/
lemma step (sound : Sound limit s) (set : limit ≠ 0) (told : Told s a) (st : Step worker s a s') :
    Sound limit s' := by
  have on : s.submitLimit ≠ 0 := by rwa [sound.submitLimit]
  cases st with
  | ApplyIngressBackpressure idle => exact sound
  | call idle runs =>
    apply sound.setPc
    · rw [idle]
      exact Site.owed_program told
    · rintro _ _ _ ⟨⟩
  | push at_p loose =>
    apply sound.append loose
    · rw [at_p, Pc.due, Pc.due, owed, owed, List.map_cons, List.sum_cons, Op.due]
      omega
    · rintro _ _ _ ⟨⟩
  | NoteInboxPush at_p =>
    rw [State.NoteInboxPush, if_neg on]
    apply sound.note (congrArg _ (BitVec.ofInt_natCast 64 _).symm)
    · rw [at_p]
      rfl
    · rintro _ _ _ ⟨⟩
  | @NoteInboxDrain p k ops at_p =>
    by_cases zero : k = 0
    · rw [State.NoteInboxDrain, if_pos (.inr zero)]
      apply sound.setPc
      · rw [at_p, zero]
        exact (zero_add _).symm
      · rintro _ _ _ ⟨⟩
    · rw [State.NoteInboxDrain, if_neg (not_or.2 ⟨on, zero⟩)]
      apply sound.note (x := -k)
      · rw [BitVec.ofInt_neg, BitVec.ofInt_natCast, BitVec.sub_eq_add_neg]
      · rw [at_p]
        rfl
      · rintro _ _ _ ⟨⟩
  | done at_p =>
    apply sound.setPc
    · rw [at_p]
      rfl
    · rintro _ _ _ ⟨⟩
  | drain idle mine =>
    apply sound.setPc
    · rw [idle]
      rfl
    · rintro _ _ _ ⟨⟩ _
      rfl
  | pop at_p room at_b =>
    have noted := told _ _ _ at_p
    apply sound.take at_b
    · rw [at_p, Pc.due, Pc.due]
      push_cast
      omega
    · rintro _ _ _ ⟨⟩ silent
      exact absurd noted silent
  | @stop p d i count at_p =>
    apply sound.setPc
    · rw [at_p, Pc.due, Pc.due]
      by_cases noted : d.Noted
      · exact Drain.owed_after noted count
      · rw [sound.quiet at_p noted]
        exact Drain.owed_after_zero d
    · rintro _ _ _ ⟨⟩
  | promote idle =>
    apply sound.setPc
    · rw [idle]
      rfl
    · rintro _ _ _ ⟨⟩
  | shedPop at_p at_b =>
    apply sound.take at_b
    · rw [at_p]
      rfl
    · rintro _ _ _ ⟨⟩
  | shedPush at_p loose =>
    apply sound.append loose
    · rw [at_p]
      rfl
    · rintro _ _ _ ⟨⟩
  | shedEnd at_p =>
    apply sound.setPc
    · rw [at_p]
      rfl
    · rintro _ _ _ ⟨⟩

/-- The account holds in every state of a run. -/
lemma of_runs (set : limit ≠ 0) (rn : Runs (Step worker) Told { submitLimit := limit } s) :
    Sound limit s :=
  rn.invariant init fun sound told st => sound.step set told st

omit [DecidableEq θ] in
/-- Distinct tasks stand at distinct addresses, none of them null. -/
lemma queued_lt (sound : Sound limit s) : s.queued < 2 ^ 64 := by
  have card : s.queued = (Finset.univ.biUnion fun b => (s.inbox b).toFinset).card := by
    rw [Finset.card_biUnion]
    · refine Finset.sum_congr rfl fun b _ => ?_
      exact (List.toFinset_card_of_nodup (sound.cus.nodup b)).symm
    · intro b _ b' _ ne
      refine Finset.disjoint_left.2 fun t mem mem' => ne ?_
      exact sound.cus.unique (List.mem_toFinset.1 mem) (List.mem_toFinset.1 mem')
  have le : s.queued ≤ (Finset.Ioo 0 (2 ^ 64)).card := by
    rw [card]
    refine Finset.card_le_card_of_injOn BitVec.toNat (fun t mem => ?_) fun t _ t' _ => BitVec.eq_of_toNat_eq
    obtain ⟨b, -, mem⟩ := Finset.mem_biUnion.1 mem
    refine Finset.mem_coe.2 (Finset.mem_Ioo.2 ⟨?_, t.isLt⟩)
    refine Nat.pos_of_ne_zero fun zero => sound.ne_zero (List.mem_toFinset.1 mem) ?_
    exact BitVec.eq_of_toNat_eq zero
  rw [Nat.card_Ioo] at le
  omega

omit [DecidableEq θ] in
/-- With no push and no drain in progress the depth is the number of the tasks in the inboxes. -/
lemma depth_eq (sound : Sound limit s) (idle : s.Quiet) : s.inboxDepth.toNat = s.queued := by
  obtain ⟨b, bal, here⟩ := sound.even
  have zero : b = 0 := by
    refine bal.eq_zero fun p => ?_
    rw [idle p]
    rfl
  rw [here, zero, sub_zero, BitVec.ofInt_natCast, BitVec.toNat_ofNat]
  exact Nat.mod_eq_of_lt sound.queued_lt

end Sound

/-! ## Exactness -/

/-- Where tasks pass only the places that tell `g_inboxDepth`, the depth is the number of the tasks in the
inboxes whenever no push and no drain is in progress, and a submitter is then held just if it is no worker and
more tasks than the limit are queued. -/
theorem depth_exact (set : limit ≠ 0) (rn : Runs (Step worker) Told { submitLimit := limit } s)
    (idle : s.Quiet) : s.inboxDepth.toNat = s.queued ∧
      ∀ p, s.ApplyIngressBackpressure (worker p) = true ↔ worker p = none ∧ limit.toNat < s.queued := by
  have sound := Sound.of_runs set rn
  have depth := sound.depth_eq idle
  refine ⟨depth, fun p => ?_⟩
  rw [State.ApplyIngressBackpressure, sound.submitLimit, if_neg set, ← depth]
  cases worker p with
  | none => simp [BitVec.le_def]
  | some i => simp

/-- A pool of one worker, which `false` runs. -/
def onlyWorker : Bool → Option (Fin 1)
  | false => some 0
  | true => none

/-- A task is pushed under a limit of one. -/
theorem depth_exact_one : ∃ s : State 1 Bool, Runs (Step onlyWorker) Told { submitLimit := 1 } s ∧ s.Quiet ∧
    s.queued = 1 ∧ s.inboxDepth.toNat = s.queued := by
  have r : Runs (Step onlyWorker) Told ({ submitLimit := 1 } : State 1 Bool) { submitLimit := 1 } := .refl
  have r := r.next (.call true (.PushTarget 0 false false 64)) trivial (.call rfl trivial)
  have r := r.next (.op true) trivial (.push rfl (.of_empty (fun _ => rfl) (by decide) (by decide)))
  have r := r.next (.op true) trivial (.NoteInboxPush rfl)
  have r := r.next (.op true) trivial (.done rfl)
  exact ⟨_, r, by decide, rfl, (depth_exact (by decide) r (by decide)).1⟩

/-- `PushBatch` puts two tasks into an inbox and the worker drains them: the depth wraps, and with empty
inboxes a submitter is held. -/
theorem batch_wraps : ∃ s : State 1 Bool, Reaches (Step onlyWorker) { submitLimit := 1 } s ∧ s.Quiet ∧
    s.queued = 0 ∧ s.inboxDepth.toNat = 2 ^ 64 - 2 ∧ s.ApplyIngressBackpressure (onlyWorker true) = true := by
  have r : Reaches (Step onlyWorker) ({ submitLimit := 1 } : State 1 Bool) { submitLimit := 1 } := .refl
  have r := r.next (.call true (.submitRun 0 false false [64, 128])) trivial (.call rfl trivial)
  have r := r.next (.op true) trivial (.push rfl (.of_empty (fun _ => rfl) (by decide) (by decide)))
  have r := r.next (.op true) trivial (.done rfl)
  have r := r.next (.drain false .InboxDrain) trivial (.drain rfl rfl)
  have r := r.next (.pop false) trivial (.pop rfl (by decide) rfl)
  have r := r.next (.pop false) trivial (.pop rfl (by decide) rfl)
  have r := r.next (.stop false) trivial (.stop rfl)
  have r := r.next (.op false) trivial (.NoteInboxDrain rfl)
  have r := r.next (.op false) trivial (.done rfl)
  exact ⟨_, r, by decide, rfl, rfl, rfl⟩

end JLib.Ingress
