import JLib.CompletionPort.Stop
import JLib.LTS.Balance

/-!
# The wake-ups of `Stop`

`Stop` posts one wake-up for each thread, and a thread that leaves posts one more. A thread that takes its wake-up
while an operation is in flight waits for the next packet, and nobody posts that wake-up again: when the last operation
is answered, nothing tells the threads.
-/

namespace JLib.CompletionPort
open LTS Io

variable {θ ρ τ : Type} [DecidableEq θ] {w : Setup τ} {s s' : State θ ρ τ} {l : Label θ ρ τ} {t : θ}
  {u : Nat} {ts : List Nat} {b : Pc ρ τ} {n : Int}

/-- The thread is in `Stop`, has taken the threads over, and has not joined them. -/
def Pc.Called : Pc ρ τ → Prop
  | wakeups _ _ | join _ => True
  | _ => False

/-- The wake-ups that `Stop` has still to post. -/
def Pc.owing : Pc ρ τ → Nat
  | wakeups _ n => n
  | _ => 0

/-- The thread has a wake-up in hand. -/
def Loop.woken : Loop ρ τ → Int
  | null | draining => 1
  | _ => 0

/-- A thread has one wake-up in hand or none. -/
lemma Loop.woken_nonneg (c : Loop ρ τ) : 0 ≤ c.woken := by
  unfold Loop.woken
  split
  · exact Int.one_nonneg
  · exact Int.one_nonneg
  · exact Int.le_refl 0

variable [DecidableEq ρ]

/-- The threads have `n` wake-ups in hand, and each thread that `Stop` has taken over has had one. -/
structure Spares (w : Setup τ) (s : State θ ρ τ) (n : Int) : Prop where
  crew : s.workers ≠ [] → s.workers.length = w.n
  woken : Balance (fun u => (s.thread u).loop.woken) n
  enough : ∀ t, (s.caller t).Called → (w.n : Int) ≤ n + s.port.count none + (s.caller t).owing + s.spent

namespace Spares

omit [DecidableEq θ] in
/-- The threads have none in hand at least. -/
lemma nonneg (sr : Spares w s n) : 0 ≤ n := by
  rw [← sr.woken.total]
  exact finsum_nonneg fun u => (s.thread u).loop.woken_nonneg

/-- A caller goes on. -/
lemma caller {pc : Pc ρ τ} (sr : Spares w s n) (crew : s'.workers ≠ [] → s'.workers.length = w.n)
    (mine : pc.Called → (w.n : Int) ≤ n + s'.port.count none + pc.owing + s'.spent)
    (others : ∀ v, v ≠ t → (s.caller v).Called → s.port.count none + s.spent ≤ s'.port.count none + s'.spent)
    (hc : s'.caller = Function.update s.caller t pc) (ht : s'.thread = s.thread) : Spares w s' n := by
  refine ⟨crew, ?_, fun v => ?_⟩
  · rw [ht]
    exact sr.woken
  · rw [hc, Function.update_apply]
    split
    · exact mine
    · rename_i ne
      intro called
      have le := others v ne called
      have had := sr.enough v called
      omega

/-- A caller goes on that is not in `Stop`, or leaves it. -/
lemma other {pc : Pc ρ τ} (sr : Spares w s n) (out : ¬pc.Called) (hw : s'.workers = s.workers)
    (hp : s'.port = s.port) (hs : s'.spent = s.spent) (hc : s'.caller = Function.update s.caller t pc)
    (ht : s'.thread = s.thread) : Spares w s' n := by
  refine sr.caller ?_ (fun called => absurd called out) (fun v _ _ => ?_) hc ht
  · rw [hw]
    exact sr.crew
  · rw [hp, hs]

omit [DecidableEq θ] in
/-- A thread goes on. -/
lemma thread {h : Thread ρ τ} (sr : Spares w s n) (hw : s'.workers = s.workers) (hc : s'.caller = s.caller)
    (ht : s'.thread = Function.update s.thread u h)
    (enough : ∀ v, (s.caller v).Called →
      (s.thread u).loop.woken + s.port.count none + s.spent ≤ h.loop.woken + s'.port.count none + s'.spent) :
    Spares w s' (n + (h.loop.woken - (s.thread u).loop.woken)) := by
  refine ⟨?_, ?_, fun v => ?_⟩
  · rw [hw]
    exact sr.crew
  · rw [ht]
    exact sr.woken.step (w := fun h : Thread ρ τ => h.loop.woken) u h
  · rw [hc]
    intro called
    have le := enough v called
    have had := sr.enough v called
    omega

end Spares

/-- A wake-up that is taken was counted. -/
lemma count_erase_none {port : List (Option (Packet ρ))} (mem : none ∈ port) :
    port.count none = (port.erase none).count none + 1 := by
  have pos := List.count_pos_iff.2 mem
  rw [List.count_erase_self]
  omega

/-- A packet that is taken is no wake-up. -/
lemma count_erase_some {p : Packet ρ} (port : List (Option (Packet ρ))) :
    (port.erase (some p)).count none = port.count none :=
  List.count_erase_of_ne (a := none) (b := some p) (by nofun)

/-- A wake-up that is posted is counted. -/
lemma count_wakeup (port : List (Option (Packet ρ))) : (port ++ [none]).count none = port.count none + 1 := by
  rw [List.count_append]
  rfl

/-- A packet that is posted is no wake-up. -/
lemma count_packet (p : Packet ρ) (port : List (Option (Packet ρ))) :
    (port ++ [some p]).count none = port.count none := by
  rw [List.count_append]
  rfl

/-- An orderly step keeps the account of the wake-ups. -/
lemma Step.spares (st : Step w s l s') (sp : Stops s b) (sr : Spares w s n) : ∃ n', Spares w s' n' := by
  have inStop : ∀ {pc : Pc ρ τ}, pc.Called → pc.inStop ≠ .idle := by
    intro pc called
    cases pc with
    | wakeups | join => exact nofun
    | _ => exact called.elim
  have alone : ∀ {v v'}, (s.caller v).inStop ≠ .idle → (s.caller v').Called → v' = v := by
    intro v v' ne called
    exact sp.lone.unique (inStop called) ne
  have called_stopping : ∀ {v}, (s.caller v).Called → s.stopping = true := by
    intro v called
    refine sp.stopping ?_
    rw [← sp.lone.eq_of_ne (a := v) (inStop called)]
    exact inStop called
  cases st with
  | submit | cancelled | fill | stopped | running | link | accept | reject | rejected | register | joins | joined =>
    exact ⟨n, sr.other id rfl rfl rfl rfl rfl⟩
  | registers =>
    refine ⟨n, sr.other ?_ rfl rfl rfl rfl rfl⟩
    split <;> exact id
  | ensure | ensureOnly =>
    refine ⟨n, ?_⟩
    unfold State.EnsureThreads
    split
    · exact sr.other id rfl rfl rfl rfl rfl
    next down =>
      have none : s.workers = [] := (sp.down (Bool.eq_false_of_not_eq_true down)).2.1
      rw [none, List.nil_append]
      exact sr.caller (fun _ => List.length_range') (by exact False.elim) (fun _ _ _ => Nat.le_refl _) rfl rfl
  | stop =>
    refine ⟨n, sr.other ?_ rfl rfl rfl rfl rfl⟩
    split <;> exact id
  | @swap t e =>
    have here : Pc.swap = b := by
      rw [← sp.lone.eq_of_ne (a := t) (by rw [e]; exact nofun), e]
      rfl
    subst here
    have crew := sr.crew sp.phase.2
    refine ⟨n, sr.caller (fun ne => absurd rfl ne) (fun _ => ?_) (fun v ne called => ?_) rfl rfl⟩
    · show _ ≤ n + (s.port.count none : Nat) + (s.workers.length : Nat) + (0 : Nat)
      rw [crew]
      have pos := sr.nonneg
      omega
    · exact absurd (alone (v := t) (by rw [e]; exact nofun) called) ne
  | @wakeup t ts m e =>
    have had := sr.enough t (by rw [e]; trivial)
    rw [e] at had
    refine ⟨n, sr.caller sr.crew (fun _ => ?_) (fun v ne called => ?_) rfl rfl⟩
    · show _ ≤ _ + ((List.count none (_ ++ [none]) : Nat) : Int) + (m : Nat) + (s.spent : Nat)
      rw [count_wakeup]
      have had : (w.n : Int) ≤ n + s.port.count none + (m + 1 : Nat) + s.spent := had
      omega
    · exact absurd (alone (v := t) (by rw [e]; exact nofun) called) ne
  | @wakeups t ts e | @join t _ ts e =>
    have had := sr.enough t (by rw [e]; trivial)
    rw [e] at had
    have moved : (s.goto t (.join ts)).caller = Function.update s.caller t (.join ts) := rfl
    refine ⟨n, sr.caller sr.crew ?_ ?_ moved rfl⟩
    · exact fun _ => had
    · exact fun _ _ _ => Nat.le_refl _
  | start | outside => exact ⟨n, sr.crew, sr.woken, sr.enough⟩
  | complete =>
    refine ⟨n, sr.crew, sr.woken, fun v => ?_⟩
    show _ → _ ≤ _ + ((List.count none (_ ++ [some _]) : Nat) : Int) + _ + _
    rw [count_packet]
    exact sr.enough v
  | packet _ e =>
    refine ⟨_, sr.thread rfl rfl rfl fun _ _ => ?_⟩
    rw [e]
    show _ + ((List.count none s.port : Nat) : Int) + _ ≤ _ + ((List.count none (s.port.erase _) : Nat) : Int) + _
    rw [count_erase_some]
    exact le_refl _
  | null _ e mem =>
    refine ⟨_, sr.thread rfl rfl rfl fun _ _ => ?_⟩
    rw [e, count_erase_none mem]
    show (0 : Int) + ((_ + 1 : Nat) : Int) + _ ≤ 1 + ((s.port.erase none).count none : Nat) + (s.spent : Nat)
    omega
  | @timeout u lt e =>
    refine ⟨_, sr.thread (h := { s.thread u with batchHi := [], batchLo := [] }) rfl rfl rfl fun _ _ => le_refl _⟩
  | wakes e =>
    refine ⟨_, sr.thread rfl rfl rfl fun v called => ?_⟩
    rw [e, if_pos (called_stopping called)]
    exact le_refl _
  | stays e =>
    refine ⟨_, sr.thread rfl rfl rfl fun _ _ => ?_⟩
    rw [e]
    show (1 : Int) + _ + (s.spent : Nat) ≤ 0 + (s.port.count none : Nat) + (s.spent + 1 : Nat)
    omega
  | exit e =>
    refine ⟨_, sr.thread rfl rfl rfl fun _ _ => ?_⟩
    rw [e]
    show (1 : Int) + _ + (s.spent : Nat) ≤ 0 + ((List.count none (_ ++ [none]) : Nat) : Int) + (s.spent : Nat)
    rw [count_wakeup]
    omega
  | unlink e =>
    refine ⟨_, sr.thread rfl rfl rfl fun _ _ => ?_⟩
    rw [e]
    exact le_refl _
  | collect e hh | check e hh =>
    subst hh
    split
    all_goals
      refine ⟨_, sr.thread rfl rfl rfl fun _ _ => ?_⟩
      rw [e]
      exact le_refl _

/-- The account of the wake-ups holds in every state of an orderly run. -/
lemma Spares.of_runs (pos : 0 < w.n) (rn : Runs (Step w) Orderly {} s) : ∃ n, Spares w s n := by
  have init : Spares w ({} : State θ ρ τ) 0 := ⟨nofun, .rest, nofun⟩
  have sd : Sound ({} : State θ ρ τ) := .of_runs (.refl : Reaches (Step w) {} {})
  refine (Stops.along (I := fun s => ∃ n, Spares w s n) pos rn sd .init ⟨0, init⟩ ?_).2
  rintro s l s' b sp ⟨n, sr⟩ st
  exact st.spares sp sr

/-- `Stop` joins a thread that has not left, and there is no wake-up. -/
structure Stuck (s : State θ ρ τ) (t : θ) (u : Nat) (ts : List Nat) : Prop where
  joins : s.caller t = .join (u :: ts)
  alive : (s.thread u).loop ≠ .exited
  port : none ∉ s.port
  woken : ∀ v, (s.thread v).loop ≠ .null ∧ (s.thread v).loop ≠ .draining

namespace Stuck

omit [DecidableEq ρ] in
/-- Another caller goes on. -/
lemma other {v : θ} {pc : Pc ρ τ} (sk : Stuck s t u ts) (ne : v ≠ t) (hc : s'.caller = Function.update s.caller v pc)
    (ht : s'.thread = s.thread) (hp : s'.port = s.port) : Stuck s' t u ts := by
  obtain ⟨joins, alive, port, woken⟩ := sk
  refine ⟨?_, ?_, ?_, ?_⟩
  · rw [hc, Function.update_of_ne ne.symm]
    exact joins
  · rw [ht]
    exact alive
  · rw [hp]
    exact port
  · rw [ht]
    exact woken

omit [DecidableEq θ] [DecidableEq ρ] in
/-- A thread goes on. -/
lemma thread {v : Nat} {h : Thread ρ τ} (sk : Stuck s t u ts) (on : h.loop ≠ .exited)
    (none : h.loop ≠ .null ∧ h.loop ≠ .draining) (hc : s'.caller = s.caller)
    (ht : s'.thread = Function.update s.thread v h) (hp : ∀ p ∈ s'.port, p ∈ s.port) : Stuck s' t u ts := by
  have moved : ∀ k, s'.thread k = if k = v then h else s.thread k := by
    intro k
    rw [ht, Function.update_apply]
  refine ⟨?_, ?_, fun mem => sk.port (hp _ mem), fun k => ?_⟩
  · rw [hc]
    exact sk.joins
  · rw [moved]
    split
    · exact on
    · exact sk.alive
  · rw [moved]
    split
    · exact none
    · exact sk.woken k

end Stuck

/-- A step leaves `Stop` waiting. -/
lemma Step.stuck (st : Step w s l s') (sp : Stops s b) (sk : Stuck s t u ts) : Stuck s' t u ts := by
  have other : ∀ {v : θ}, (s.caller v ≠ .join (u :: ts)) → v ≠ t := by
    rintro v ne rfl
    exact ne sk.joins
  cases st with
  | submit e | cancelled e | fill e | stopped e | running e | link e | accept e | reject e | rejected e | register e
  | registers e | stop e | swap e | wakeups e | joins e | joined e =>
    exact sk.other (other (by rw [e]; exact nofun)) rfl rfl rfl
  | ensure e | ensureOnly e =>
    have ne := other (by rw [e]; exact nofun)
    unfold State.EnsureThreads
    split <;> exact sk.other ne rfl rfl rfl
  | @wakeup v ks m e =>
    have ne : (s.caller v).inStop ≠ .idle := by
      rw [e]
      exact nofun
    have ne' : (s.caller t).inStop ≠ .idle := by
      rw [sk.joins]
      exact nofun
    obtain rfl := sp.lone.unique ne ne'
    have e' := sk.joins
    rw [e] at e'
    cases e'
  | @join v k ks e left =>
    by_cases ev : v = t
    · subst ev
      rw [sk.joins] at e
      cases e
      exact absurd left sk.alive
    · exact sk.other ev rfl rfl rfl
  | start | outside => exact ⟨sk.joins, sk.alive, sk.port, sk.woken⟩
  | complete =>
    refine ⟨sk.joins, sk.alive, fun mem => ?_, sk.woken⟩
    obtain mem | mem := List.mem_append.1 mem
    · exact sk.port mem
    · cases List.mem_singleton.1 mem
  | packet => exact sk.thread (by nofun) ⟨by nofun, by nofun⟩ rfl rfl fun _ => List.mem_of_mem_erase
  | unlink => exact sk.thread (by nofun) ⟨by nofun, by nofun⟩ rfl rfl fun _ => id
  | null _ _ mem => exact absurd mem sk.port
  | wakes e => exact absurd e (sk.woken _).1
  | stays e | exit e => exact absurd e (sk.woken _).2
  | timeout _ e =>
    refine sk.thread ?_ ⟨?_, ?_⟩ rfl rfl fun _ => id
    all_goals
      show (s.thread _).loop ≠ _
      rw [e]
      exact nofun
  | collect _ hh | check _ hh =>
    subst hh
    split <;> exact sk.thread (by nofun) ⟨by nofun, by nofun⟩ rfl rfl fun _ => id

/-- While `Stop` waits for a thread, there is a wake-up for it unless as many as there are threads were taken in vain;
and when there is none, `Stop` waits for ever. -/
theorem stop_wakeups (pos : 0 < w.n) (rn : Runs (Step w) Orderly {} s) (joins : s.caller t = .join (u :: ts))
    (alive : (s.thread u).loop ≠ .exited) :
    (s.spent < w.n → none ∈ s.port ∨ ∃ v, (s.thread v).loop = .null ∨ (s.thread v).loop = .draining) ∧
      (none ∉ s.port → (∀ v, (s.thread v).loop ≠ .null ∧ (s.thread v).loop ≠ .draining) →
        ∀ s', Runs (Step w) Orderly s s' → s'.caller t = .join (u :: ts)) := by
  constructor
  · intro few
    by_contra no
    rw [not_or, not_exists] at no
    obtain ⟨port, rest⟩ := no
    obtain ⟨n, sr⟩ := Spares.of_runs pos rn
    have none : n = 0 := by
      refine sr.woken.eq_zero fun v => ?_
      unfold Loop.woken
      split
      · exact absurd (.inl ‹_›) (rest v)
      · exact absurd (.inr ‹_›) (rest v)
      · rfl
    have enough := sr.enough t (by rw [joins]; trivial)
    rw [none, joins, List.count_eq_zero.2 port] at enough
    have enough : (w.n : Int) ≤ 0 + (0 : Nat) + (0 : Nat) + s.spent := enough
    omega
  · intro port rest s' more
    obtain ⟨sd, b, sp⟩ := Stops.of_runs pos rn
    have sk : Stuck s t u ts := ⟨joins, alive, port, rest⟩
    exact (Stops.along pos more sd sp sk fun sp sk st => st.stuck sp sk).2.joins

/-- A thread that stops flushes after a completion. -/
lemma Step.checks_stopping (e : (s.thread u).loop = .check) (stop : s.stopping = true) :
    Step w s (.thread u) (s.Flush u { s.thread u with loop := .wait }) := by
  have st := Step.check (w := w) e rfl
  rwa [if_pos stop] at st

/-- The thread has taken the wake-up of `Stop` before the packet of the first operation. -/
def firstSpent : State Unit Unit Unit :=
  { firstPacket with
    stopping := true
    workers := []
    caller := fun _ => .join [0]
    spent := 1 }

/-- How the wake-up is taken too early. -/
lemma firstSpent_runs : Runs (Step ⟨1, fun _ => true⟩) Orderly {} firstSpent := by
  have r : Runs (Step ⟨1, fun _ => true⟩) Orderly {} firstPacket :=
    firstPacket_runs (fun _ => trivial) (fun _ => trivial) fun _ _ => trivial
  have r := r.next (.stop ()) (fun _ => id) (.stop_running rfl rfl rfl)
  have r := r.next (.caller ()) trivial (.swap rfl)
  have r := r.next (.caller ()) trivial (.wakeup rfl)
  have r := r.next (.caller ()) trivial (.wakeups rfl)
  have r := r.next (.dequeue 0) trivial (.null Nat.one_pos rfl (List.mem_cons_of_mem _ (List.mem_singleton_self _)))
  have r := r.next (.thread 0) trivial (.wakes_stopping rfl rfl)
  have r := r.next (.thread 0) trivial (.stays rfl nofun)
  convert r using 1
  have rest : Function.update (fun _ => {}) 0 {} = fun _ : Nat => ({} : Thread Unit Unit) :=
    Function.update_eq_self 0 _
  simp only [firstSpent, firstPacket, State.goto, State.setThread, Function.update_eq_const_of_subsingleton,
    Function.update_idem, Function.update_self]
  rw [rest]
  rfl

/-- It has taken the packet since, and waits for the next. -/
def firstHung : State Unit Unit Unit :=
  { firstSpent with
    linked := []
    total := 0
    out := fun _ => some ⟨.completed, 5, 0⟩
    port := []
    pushed := [()]
    lent := fun _ => false
    answers := fun _ => 1
    completed := [()] }

/-- How the last operation completes after it. -/
lemma firstHung_runs : Runs (Step ⟨1, fun _ => true⟩) Orderly {} firstHung := by
  have r : Runs (Step ⟨1, fun _ => true⟩) Orderly {} firstSpent := firstSpent_runs
  have r := r.next (.dequeue 0) trivial (.packet Nat.one_pos rfl (List.mem_singleton_self _))
  have r := r.next (.thread 0) trivial (.unlink rfl)
  have r := r.next (.thread 0) trivial (.collects rfl rfl)
  have r := r.next (.thread 0) trivial (.checks_stopping rfl rfl)
  convert r using 1
  have rest : Function.update (fun _ => {}) 0 {} = fun _ : Nat => ({} : Thread Unit Unit) :=
    Function.update_eq_self 0 _
  simp only [firstHung, firstSpent, firstPacket, State.setThread, State.answer, State.Unlink, State.Flush,
    Function.update_eq_const_of_subsingleton, Function.update_idem, Function.update_self]
  rw [rest]
  rfl

/-- The thread took its wake-up with the operation in flight, and `Stop` waits for ever. -/
theorem stop_wakeups_stuck : ∃ s : State Unit Unit Unit, Runs (Step ⟨1, fun _ => true⟩) Orderly {} s ∧ s.total = 0 ∧
    s.pushed = s.completed ∧ ∀ s', Runs (Step ⟨1, fun _ => true⟩) Orderly s s' → s'.caller () = .join [0] :=
  ⟨firstHung, firstHung_runs, rfl, rfl,
    (stop_wakeups Nat.one_pos firstHung_runs rfl nofun).2 List.not_mem_nil fun _ => ⟨nofun, nofun⟩⟩

end JLib.CompletionPort
