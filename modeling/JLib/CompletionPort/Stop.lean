import JLib.CompletionPort.Delivered
import JLib.LTS.Lone

/-!
# Stop

`Stop` returns when the completion threads have left, and a thread leaves when it has found `stopping` and nothing in
flight. Nothing comes into flight behind its back unless a call has looked at `stopping` before.
-/

namespace JLib.CompletionPort
open LTS Io

variable {θ ρ τ : Type} {w : Setup τ} {s s' : State θ ρ τ} {l : Label θ ρ τ} {t : θ}
  {u : Nat} {r : ρ} {b : Pc ρ τ}

namespace Pc

/-- The call has found `stopping` clear and has still to link or to start the threads. -/
def Past : Pc ρ τ → Prop
  | ensure _ => True
  | link _ => True
  | ensureOnly => True
  | _ => False

/-- Where the thread is in `Stop`. -/
def inStop : Pc ρ τ → Pc ρ τ
  | swap => .swap
  | wakeups ts n => .wakeups ts n
  | join ts => .join ts
  | joined => .joined
  | _ => .idle

/-- The threads that `Stop` has still to join. -/
def joining : Pc ρ τ → List Nat
  | wakeups ts _ => ts
  | join ts => ts
  | _ => []

end Pc

/-- No call is past its look at `stopping` when `Stop` sets it, and `Start` is not called in the middle of `Stop`. -/
def Orderly (s : State θ ρ τ) : Label θ ρ τ → Prop
  | .stop _ => ∀ t, ¬(s.caller t).Past
  | .start => ∀ t, (s.caller t).inStop = .idle
  | _ => True

/-- What holds at a point of `Stop`. -/
def Phase (workers : List Nat) (total : Int) (running : Bool) : Pc ρ τ → Prop
  | .swap => running = true ∧ workers ≠ []
  | .wakeups ts _ => workers = [] ∧ ts ≠ []
  | .join ts => workers = [] ∧ (ts = [] → total = 0)
  | .joined => workers = [] ∧ total = 0
  | _ => running = true → workers ≠ []

/-- At most one thread is in `Stop`, at `b`. -/
structure Stops (s : State θ ρ τ) (b : Pc ρ τ) : Prop where
  lone : Lone .idle (fun t => (s.caller t).inStop) b
  stopping : b ≠ .idle → s.stopping = true
  past : s.stopping = true → ∀ t, ¬(s.caller t).Past
  down : s.running = false → s.total = 0 ∧ s.workers = [] ∧ ∀ t r, s.caller t ≠ .link r
  up : s.running = true → s.stopping = true → b ≠ .idle
  phase : Phase s.workers s.total s.running b
  exited : ∀ u, u ∈ s.workers ++ b.joining → (s.thread u).loop = .exited → s.stopping = true ∧ s.total = 0
  draining : ∀ u, (s.thread u).loop = .draining → s.stopping = true
  all : ∀ u, u < s.started → (s.thread u).loop = .exited ∨ u ∈ s.workers ++ b.joining
  fresh : ∀ u, s.started ≤ u → (s.thread u).loop = .wait

namespace Stops

/-- A caller goes on that is not in `Stop`. -/
lemma caller [DecidableEq θ] {pc : Pc ρ τ} (sp : Stops s b) (was : (s.caller t).inStop = .idle) (is : pc.inStop = .idle)
    (past : pc.Past → s.stopping = false) (link : ∀ r, pc = .link r → s.running = true)
    (hc : s'.caller = Function.update s.caller t pc) (hs : s'.stopping = s.stopping) (hr : s'.running = s.running)
    (hw : s'.workers = s.workers) (ht : s'.total = s.total)
    (hu : s'.started = s.started ∧ s'.thread = s.thread) : Stops s' b := by
  obtain ⟨started, thread⟩ := hu
  have moved : ∀ v, s'.caller v = if v = t then pc else s.caller v := by
    intro v
    rw [hc, Function.update_apply]
  refine ⟨?_, ?_, ?_, ?_, ?_, ?_, ?_, ?_, ?_, ?_⟩
  · have same : (fun t => (s'.caller t).inStop) = fun t => (s.caller t).inStop := by
      funext v
      rw [moved]
      split
      · rename_i e
        subst e
        exact is.trans was.symm
      · rfl
    rw [same]
    exact sp.lone
  · rw [hs]
    exact sp.stopping
  · intro stop v
    rw [hs] at stop
    rw [moved]
    split
    · intro h
      rw [past h] at stop
      cases stop
    · exact sp.past stop v
  · intro down
    rw [hr] at down
    obtain ⟨total, workers, none⟩ := sp.down down
    refine ⟨ht.trans total, hw.trans workers, fun v r => ?_⟩
    rw [moved]
    split
    · intro e
      rw [link r e] at down
      cases down
    · exact none v r
  · rw [hr, hs]
    exact sp.up
  · rw [hw, ht, hr]
    exact sp.phase
  · rw [hw, hs, ht, thread]
    exact sp.exited
  · rw [hs, thread]
    exact sp.draining
  · rw [hw, started, thread]
    exact sp.all
  · rw [started, thread]
    exact sp.fresh

/-- A completion thread goes on, or leaves. -/
lemma thread {h : Thread ρ τ} (sp : Stops s b) (lt : u < s.started) (on : (s.thread u).loop ≠ .exited)
    (leaves : h.loop = .exited → s.stopping = true ∧ s.total = 0) (drains : h.loop = .draining → s.stopping = true)
    (hu : s'.thread = Function.update s.thread u h) (hc : s'.caller = s.caller) (hs : s'.stopping = s.stopping)
    (hr : s'.running = s.running) (hw : s'.workers = s.workers) (ht : s'.total = s.total)
    (hn : s'.started = s.started) : Stops s' b := by
  have moved : ∀ v, s'.thread v = if v = u then h else s.thread v := by
    intro v
    rw [hu, Function.update_apply]
  refine ⟨?_, ?_, ?_, ?_, ?_, ?_, fun v => ?_, fun v => ?_, fun v => ?_, fun v => ?_⟩
  · rw [hc]
    exact sp.lone
  · rw [hs]
    exact sp.stopping
  · rw [hs, hc]
    exact sp.past
  · rw [hr, ht, hw, hc]
    exact sp.down
  · rw [hr, hs]
    exact sp.up
  · rw [hw, ht, hr]
    exact sp.phase
  · rw [hw, hs, ht, moved]
    split
    · exact fun _ => leaves
    · exact sp.exited v
  · rw [hs, moved]
    split
    · exact drains
    · exact sp.draining v
  · rw [hw, hn, moved]
    split
    · rename_i e
      subst e
      exact fun lt => .inr ((sp.all v lt).resolve_left on)
    · exact sp.all v
  · rw [hn, moved]
    split
    · rename_i e
      subst e
      exact fun le => absurd lt (Nat.not_lt.2 le)
    · exact sp.fresh v

/-- A completion thread that has taken something goes on, and neither leaves nor is about to. -/
lemma goes {h : Thread ρ τ} (sp : Stops s b) (was : (s.thread u).loop ≠ .wait ∧ (s.thread u).loop ≠ .exited)
    (is : h.loop ≠ .exited ∧ h.loop ≠ .draining) (hu : s'.thread = Function.update s.thread u h)
    (hc : s'.caller = s.caller) (hs : s'.stopping = s.stopping) (hr : s'.running = s.running)
    (hw : s'.workers = s.workers) (ht : s'.total = s.total) (hn : s'.started = s.started) : Stops s' b := by
  have lt : u < s.started := by
    by_contra no
    exact was.1 (sp.fresh u (Nat.le_of_not_lt no))
  exact sp.thread lt was.2 (fun e => absurd e is.1) (fun e => absurd e is.2) hu hc hs hr hw ht hn

/-- `total` changes while something is in flight, or while the reactor is up and nobody stops it. -/
lemma total {n : Int} (sp : Stops s b) (free : s.total ≠ 0 ∨ s.stopping = false ∧ s.running = true) :
    Stops { s with total := n } b := by
  have stop : s.total = 0 → s.stopping = true → n = 0 := by
    intro zero stop
    obtain ne | ⟨going, -⟩ := free
    · exact absurd zero ne
    · rw [going] at stop
      cases stop
  refine ⟨sp.lone, sp.stopping, sp.past, fun down => ?_, sp.up, ?_, fun v mem e => ?_, sp.draining, sp.all, sp.fresh⟩
  · obtain ⟨zero, rest⟩ := sp.down down
    obtain ne | ⟨-, run⟩ := free
    · exact absurd zero ne
    · have down : s.running = false := down
      rw [run] at down
      cases down
  · have phase := sp.phase
    cases b with
    | join ts => exact ⟨phase.1, fun e => stop (phase.2 e) (sp.stopping nofun)⟩
    | joined => exact ⟨phase.1, stop phase.2 (sp.stopping nofun)⟩
    | _ => exact phase
  · obtain ⟨stopping, zero⟩ := sp.exited v mem e
    exact ⟨stopping, stop zero stopping⟩

/-- `EnsureThreads`, by a call that has found `stopping` clear. -/
lemma ensure (sp : Stops s b) (pos : 0 < w.n) (past : (s.caller t).Past) : Stops (s.EnsureThreads w) b := by
  have going : s.stopping = false := by
    by_contra ne
    exact sp.past (Bool.eq_true_of_not_eq_false ne) t past
  have idle : b = .idle := by
    by_contra ne
    rw [sp.stopping ne] at going
    cases going
  subst idle
  unfold State.EnsureThreads
  cases run : s.running with
  | true => exact sp
  | false =>
    obtain ⟨-, none, -⟩ := sp.down run
    rw [if_neg Bool.false_ne_true, none, List.nil_append]
    refine ⟨sp.lone, sp.stopping, sp.past, nofun, fun _ stop => ?_, fun _ => ?_, fun v mem e => ?_, sp.draining,
      fun v lt => ?_, fun v le => sp.fresh v (Nat.le_trans (Nat.le_add_right ..) le)⟩
    · rw [show s.stopping = true from stop] at going
      cases going
    · show List.range' s.started w.n ≠ []
      rw [Ne, List.range'_eq_nil_iff]
      exact Nat.pos_iff_ne_zero.1 pos
    · have mem : v ∈ List.range' s.started w.n := by
        rw [← List.append_nil (List.range' _ _)]
        exact mem
      have wait := sp.fresh v (List.mem_range'_1.1 mem).1
      have e : (s.thread v).loop = .exited := e
      rw [wait] at e
      cases e
    · by_cases old : v < s.started
      · refine .inl ((sp.all v old).resolve_right fun mem => ?_)
        rw [none] at mem
        cases mem
      · exact .inr (List.mem_append_left _ (List.mem_range'_1.2 ⟨Nat.le_of_not_lt old, lt⟩))

/-- The thread that is in `Stop` goes on in it. -/
lemma stopper [DecidableEq θ] {pc : Pc ρ τ} (sp : Stops s b) (here : (s.caller t).inStop = b) (ne : b ≠ .idle)
    (is : pc.inStop = pc)
    (ne' : pc ≠ .idle) (phase : Phase s'.workers s.total s.running pc) (none : s.workers = [] → s'.workers = [])
    (gone : ∀ v, v ∈ s'.workers ++ pc.joining → v ∈ s.workers ++ b.joining)
    (kept : ∀ v, v ∈ s.workers ++ b.joining → (s.thread v).loop = .exited ∨ v ∈ s'.workers ++ pc.joining)
    (hc : s'.caller = Function.update s.caller t pc) (hs : s'.stopping = s.stopping) (hr : s'.running = s.running)
    (ht : s'.total = s.total) (hn : s'.started = s.started) (hu : s'.thread = s.thread) : Stops s' pc := by
  have moved : ∀ v, s'.caller v = if v = t then pc else s.caller v := by
    intro v
    rw [hc, Function.update_apply]
  have stop : s'.stopping = true := hs.trans (sp.stopping ne)
  refine ⟨?_, fun _ => stop, fun _ v => ?_, fun down => ?_, fun _ _ => ne', ?_, fun v mem e => ?_, fun _ _ => stop,
    fun v lt => ?_, ?_⟩
  · have same : (fun v => (s'.caller v).inStop) = Function.update (fun v => (s.caller v).inStop) t pc := by
      funext v
      rw [moved, Function.update_apply]
      split
      · exact is
      · rfl
    rw [same]
    refine sp.lone.move ?_
    rw [here]
    exact ne
  · rw [moved]
    split
    · intro past
      cases pc with
      | ensure | link | ensureOnly => cases is
      | _ => exact past
    · exact sp.past (sp.stopping ne) v
  · rw [hr] at down
    obtain ⟨zero, workers, link⟩ := sp.down down
    refine ⟨ht.trans zero, none workers, fun v r => ?_⟩
    rw [moved]
    split
    · rintro rfl
      cases is
    · exact link v r
  · rw [ht, hr]
    exact phase
  · rw [hu] at e
    rw [hs, ht]
    exact sp.exited v (gone v mem) e
  · rw [hu]
    rw [hn] at lt
    obtain e | mem := sp.all v lt
    · exact .inl e
    · exact kept v mem
  · rw [hn, hu]
    exact sp.fresh

/-- `Stop` sets `stopping`. -/
lemma enters [DecidableEq θ] (sp : Stops s .idle) (none : ∀ t, ¬(s.caller t).Past) (going : s.stopping = false) :
    ∃ b, Stops ({ s with stopping := true }.goto t (if s.running then .swap else .joined)) b := by
  have moved : ∀ {pc : Pc ρ τ} (v), Function.update s.caller t pc v = if v = t then pc else s.caller v := by
    intro pc v
    rw [Function.update_apply]
  have left : ∀ u, u ∈ s.workers ++ Pc.joining (.idle : Pc ρ τ) → (s.thread u).loop ≠ .exited := by
    intro u mem e
    obtain ⟨stop, -⟩ := sp.exited u mem e
    rw [going] at stop
    cases stop
  have lone : ∀ {pc : Pc ρ τ}, pc.inStop = pc → Lone .idle (fun v => (Function.update s.caller t pc v).inStop) pc := by
    intro pc is
    have same : (fun v => (Function.update s.caller t pc v).inStop)
        = Function.update (fun v => (s.caller v).inStop) t pc := by
      funext v
      rw [moved, Function.update_apply]
      split
      · exact is
      · rfl
    rw [same]
    exact sp.lone.enter
  cases run : s.running with
  | true =>
    refine ⟨.swap, lone rfl, fun _ => rfl, fun _ v => ?_, fun down => ?_, nofun, ⟨rfl, sp.phase run⟩,
      fun v mem e => absurd e (left v mem), fun _ _ => rfl, sp.all, sp.fresh⟩
    · show ¬(Function.update s.caller t _ v).Past
      rw [moved]
      split
      · exact id
      · exact none v
    · cases down
  | false =>
    obtain ⟨zero, workers, link⟩ := sp.down run
    refine ⟨.joined, lone rfl, fun _ => rfl, fun _ v => ?_, fun _ => ⟨zero, workers, fun v r => ?_⟩, nofun,
      ⟨workers, zero⟩, fun v mem e => absurd e (left v mem), fun _ _ => rfl, sp.all, sp.fresh⟩
    · show ¬(Function.update s.caller t _ v).Past
      rw [moved]
      split
      · exact id
      · exact none v
    · show Function.update s.caller t _ v ≠ _
      rw [moved]
      split
      · exact nofun
      · exact link v r

/-- `Stop` returns. -/
lemma leaves [DecidableEq θ] (sp : Stops s .joined) (here : s.caller t = .joined) :
    Stops ({ s with running := false }.goto t .idle) .idle := by
  have stop := sp.stopping nofun
  have moved : ∀ v, Function.update s.caller t .idle v = if v = t then .idle else s.caller v := by
    intro v
    rw [Function.update_apply]
  refine ⟨?_, nofun, fun _ v => ?_, fun _ => ⟨sp.phase.2, sp.phase.1, fun v r => ?_⟩, nofun, nofun, fun v mem e => ?_,
    sp.draining, sp.all, sp.fresh⟩
  · have same : (fun v => (Function.update s.caller t .idle v).inStop)
        = Function.update (fun v => (s.caller v).inStop) t .idle := by
      funext v
      rw [moved, Function.update_apply]
      split <;> rfl
    show Lone .idle (fun v => (Function.update s.caller t .idle v).inStop) _
    rw [same]
    refine sp.lone.move ?_
    rw [here]
    exact nofun
  · show ¬(Function.update s.caller t _ v).Past
    rw [moved]
    split
    · exact id
    · exact sp.past stop v
  · show Function.update s.caller t _ v ≠ _
    rw [moved]
    split
    · exact nofun
    · rintro e
      have := sp.past stop v
      rw [e] at this
      exact this trivial
  · exact sp.exited v mem e

/-- `Start`, when nobody is in `Stop`. -/
lemma starts (sp : Stops s .idle) : Stops { s with stopping := false } .idle := by
  have none : s.stopping = true → s.workers = [] := by
    intro stop
    cases run : s.running with
    | true => exact absurd rfl (sp.up run stop)
    | false => exact (sp.down run).2.1
  refine ⟨sp.lone, fun ne => absurd rfl ne, nofun, sp.down, nofun, sp.phase, fun u mem e => ?_, fun u e => ?_, sp.all,
    sp.fresh⟩
  · obtain ⟨stop, -⟩ := sp.exited u mem e
    have mem : u ∈ s.workers ++ [] := mem
    rw [List.append_nil, none stop] at mem
    cases mem
  · have e : (s.thread u).loop = .draining := e
    have lt : u < s.started := by
      by_contra no
      have wait := sp.fresh u (Nat.le_of_not_lt no)
      rw [e] at wait
      cases wait
    obtain left | mem := sp.all u lt
    · rw [e] at left
      cases left
    · have mem : u ∈ s.workers ++ [] := mem
      rw [List.append_nil, none (sp.draining u e)] at mem
      cases mem

end Stops

/-- An orderly step leaves at most one thread in `Stop`, and what holds at its place. -/
lemma Step.stops [DecidableEq θ] [DecidableEq ρ] (pos : 0 < w.n) (st : Step w s l s') (ok : Orderly s l)
    (sd : Sound s) (sp : Stops s b) : ∃ b', Stops s' b' := by
  have flight : ∀ {p : Place θ} {r}, r ∈ s.held p → (∀ t, p = .caller t → (s.caller t).unlinked ≠ some r) →
      s.total ≠ 0 := by
    intro p r here past zero
    have mem := sd.mem_linked here past
    have len := sd.total
    rw [zero] at len
    have pos := List.length_pos_of_mem mem
    omega
  have lt : ∀ {u}, (s.thread u).loop ≠ .wait → u < s.started := by
    intro u ne
    by_contra no
    exact ne (sp.fresh u (Nat.le_of_not_lt no))
  have here : ∀ {t pc}, s.caller t = pc → pc.inStop ≠ .idle → (s.caller t).inStop = b := by
    intro t pc e ne
    refine sp.lone.eq_of_ne (a := t) ?_
    rw [e]
    exact ne
  cases st with
  | submit e | cancelled e | fill e | stopped e | accept e | reject e | register e =>
    exact ⟨b, sp.caller (by rw [e]; rfl) rfl (by nofun) (by nofun) rfl rfl rfl rfl rfl ⟨rfl, rfl⟩⟩
  | running e going =>
    exact ⟨b, sp.caller (by rw [e]; rfl) rfl (fun _ => going) (by nofun) rfl rfl rfl rfl rfl ⟨rfl, rfl⟩⟩
  | registers e =>
    refine ⟨b, sp.caller (by rw [e]; rfl) ?_ ?_ ?_ rfl rfl rfl rfl rfl ⟨rfl, rfl⟩⟩
    · split <;> rfl
    · intro past
      split at past
      · exact past.elim
      · rename_i going
        exact Bool.eq_false_of_not_eq_true going
    · intro r
      split <;> exact nofun
  | @ensure t _ e | @ensureOnly t e =>
    obtain ⟨caller, -⟩ := EnsureThreads_frame w s
    have past : (s.caller t).Past := by
      rw [e]
      trivial
    have sp := sp.ensure pos past
    have going : (s.EnsureThreads w).stopping = false := by
      by_contra ne
      refine sp.past (Bool.eq_true_of_not_eq_false ne) t ?_
      rw [caller]
      exact past
    have run : (s.EnsureThreads w).running = true := by
      unfold State.EnsureThreads
      split
      · assumption
      · rfl
    exact ⟨b, sp.caller (by rw [caller, e]; rfl) rfl (fun _ => going) (fun _ _ => run) rfl rfl rfl rfl rfl ⟨rfl, rfl⟩⟩
  | @link t r e =>
    have going : s.stopping = false := by
      by_contra ne
      refine sp.past (Bool.eq_true_of_not_eq_false ne) t ?_
      rw [e]
      trivial
    have run : s.running = true := by
      by_contra ne
      exact (sp.down (Bool.eq_false_of_not_eq_true ne)).2.2 t r e
    have sp := sp.total (n := s.total + 1) (.inr ⟨going, run⟩)
    have was : (s.caller t).inStop = .idle := by
      rw [e]
      rfl
    exact ⟨b, sp.caller was rfl (by nofun) (by nofun) rfl rfl rfl rfl rfl ⟨rfl, rfl⟩⟩
  | @rejected t r err e =>
    have mine : r ∈ s.held (.caller t) := by
      show r ∈ (s.caller t).requests
      rw [e]
      exact List.mem_singleton_self r
    have ne : s.total ≠ 0 := by
      refine flight mine ?_
      rintro v ⟨⟩
      rw [e]
      exact nofun
    have sp := sp.total (n := s.total - 1) (.inl ne)
    have was : (s.caller t).inStop = .idle := by
      rw [e]
      rfl
    exact ⟨b, sp.caller was rfl (by nofun) (by nofun) rfl rfl rfl rfl rfl ⟨rfl, rfl⟩⟩
  | @stop t e going =>
    have idle : b = .idle := by
      by_contra ne
      rw [sp.stopping ne] at going
      cases going
    subst idle
    exact sp.enters ok going
  | @swap t e =>
    have at_ : Pc.swap = b := by
      rw [← here e nofun, e]
      rfl
    subst at_
    refine ⟨.wakeups s.workers s.workers.length, sp.stopper (by rw [e]; rfl) nofun rfl nofun ⟨rfl, sp.phase.2⟩
      (fun _ => rfl) (fun v mem => ?_) (fun v mem => ?_) rfl rfl rfl rfl rfl rfl⟩
    · exact List.mem_append_left _ mem
    · exact .inr ((List.append_nil s.workers).subst mem)
  | @wakeup t ts n e =>
    have at_ : Pc.wakeups ts (n + 1) = b := by
      rw [← here e nofun, e]
      rfl
    subst at_
    exact ⟨.wakeups ts n, sp.stopper (by rw [e]; rfl) nofun rfl nofun sp.phase id (fun _ => id) (fun _ => .inr) rfl rfl
      rfl rfl rfl rfl⟩
  | @wakeups t ts e =>
    have at_ : Pc.wakeups ts 0 = b := by
      rw [← here e nofun, e]
      rfl
    subst at_
    have phase : Phase s.workers s.total s.running (.join ts : Pc ρ τ) :=
      ⟨sp.phase.1, fun none => absurd none sp.phase.2⟩
    exact ⟨.join ts, sp.stopper (by rw [e]; rfl) nofun rfl nofun phase id (fun _ => id) (fun _ => .inr) rfl rfl rfl rfl
      rfl rfl⟩
  | @join t u ts e left =>
    have at_ : Pc.join (u :: ts) = b := by
      rw [← here e nofun, e]
      rfl
    subst at_
    have zero := (sp.exited u (List.mem_append_right _ List.mem_cons_self) left).2
    refine ⟨.join ts, sp.stopper (by rw [e]; rfl) nofun rfl nofun ⟨sp.phase.1, fun _ => zero⟩ id (fun v mem => ?_)
      (fun v mem => ?_) rfl rfl rfl rfl rfl rfl⟩
    · exact (List.mem_append.1 mem).elim (List.mem_append_left _)
        fun mem => List.mem_append_right _ (List.mem_cons_of_mem _ mem)
    · obtain mem | mem := List.mem_append.1 mem
      · exact .inr (List.mem_append_left _ mem)
      · obtain rfl | mem := List.mem_cons.1 mem
        · exact .inl left
        · exact .inr (List.mem_append_right _ mem)
  | @joins t e =>
    have at_ : Pc.join [] = b := by
      rw [← here e nofun, e]
      rfl
    subst at_
    exact ⟨.joined, sp.stopper (by rw [e]; rfl) nofun rfl nofun ⟨sp.phase.1, sp.phase.2 rfl⟩ id (fun _ => id)
      (fun _ => .inr) rfl rfl rfl rfl rfl rfl⟩
  | @joined t e =>
    have at_ : Pc.joined = b := by
      rw [← here e nofun, e]
      rfl
    subst at_
    exact ⟨.idle, sp.leaves e⟩
  | start =>
    obtain rfl := sp.lone.eq_rest ok
    exact ⟨.idle, sp.starts⟩
  | complete | outside =>
    exact ⟨b, sp.lone, sp.stopping, sp.past, sp.down, sp.up, sp.phase, sp.exited, sp.draining, sp.all, sp.fresh⟩
  | packet lt e | null lt e =>
    exact ⟨b, sp.thread lt (by rw [e]; exact nofun) (by nofun) (by nofun) rfl rfl rfl rfl rfl rfl rfl⟩
  | timeout lt e =>
    refine ⟨b, sp.thread lt (by rw [e]; exact nofun) ?_ ?_ rfl rfl rfl rfl rfl rfl rfl⟩
    all_goals
      intro h
      rw [show Thread.loop _ = .wait from e] at h
      cases h
  | wakes e =>
    refine ⟨b, sp.thread (lt (by rw [e]; exact nofun)) (by rw [e]; exact nofun) ?_ ?_ rfl rfl rfl rfl rfl rfl rfl⟩
    · dsimp only
      split <;> exact nofun
    · dsimp only
      split
      · exact fun _ => ‹_›
      · exact nofun
  | stays e =>
    exact ⟨b, sp.goes (by rw [e]; exact ⟨nofun, nofun⟩) ⟨by nofun, by nofun⟩ rfl rfl rfl rfl rfl rfl rfl⟩
  | @exit u e zero =>
    have leaves := sp.draining u e
    refine ⟨b, sp.thread (lt ?_) ?_ (fun _ => ⟨leaves, zero⟩) (by nofun) rfl rfl rfl rfl rfl rfl rfl⟩
    · rw [e]
      exact nofun
    · rw [e]
      exact nofun
  | @unlink u r res e =>
    have mine : r ∈ s.held (.thread u) := by
      show r ∈ (s.thread u).loop.requests
      rw [e]
      exact List.mem_singleton_self r
    have sp := sp.total (n := s.total - 1) (.inl (flight mine nofun))
    have was : (s.thread u).loop ≠ .wait ∧ (s.thread u).loop ≠ .exited := by
      rw [e]
      exact ⟨nofun, nofun⟩
    exact ⟨b, sp.goes was ⟨by nofun, by nofun⟩ rfl rfl rfl rfl rfl rfl rfl⟩
  | collect e hh | check e hh =>
    subst hh
    split <;>
      exact ⟨b, sp.goes (by rw [e]; exact ⟨nofun, nofun⟩) ⟨by nofun, by nofun⟩ rfl rfl rfl rfl rfl rfl rfl⟩

/-- `Stop` was not called yet. -/
lemma Stops.init : Stops ({} : State θ ρ τ) .idle :=
  ⟨.rest _, nofun, nofun, fun _ => ⟨rfl, rfl, nofun⟩, nofun, nofun, nofun, nofun, nofun, fun _ _ => rfl⟩

variable [DecidableEq θ] [DecidableEq ρ]

/-- What every step keeps of a state at a point of `Stop` holds along the run. -/
lemma Stops.along {I : State θ ρ τ → Prop} (pos : 0 < w.n) (rn : Runs (Step w) Orderly s s') (sd : Sound s)
    (sp : Stops s b) (init : I s) (pres : ∀ {s l s' b}, Stops s b → I s → Step w s l s' → I s') :
    (Sound s' ∧ ∃ b, Stops s' b) ∧ I s' := by
  refine rn.invariant (I := fun s => (Sound s ∧ ∃ b, Stops s b) ∧ I s) ⟨⟨sd, b, sp⟩, init⟩ ?_
  rintro s l s' ⟨⟨sd, b, sp⟩, kept⟩ ok st
  exact ⟨⟨st.sound sd, st.stops pos ok sd sp⟩, pres sp kept st⟩

/-- In an orderly run at most one thread is in `Stop`, and what holds at its place does. -/
lemma Stops.of_runs (pos : 0 < w.n) (rn : Runs (Step w) Orderly {} s) : Sound s ∧ ∃ b, Stops s b := by
  have sd : Sound ({} : State θ ρ τ) := .of_runs (.refl : Reaches (Step w) {} {})
  exact (Stops.along (I := fun _ => True) pos rn sd .init trivial fun _ _ _ => trivial).1

/-- When `Stop` has returned, every completion thread there has been has left, no operation is linked or with the
kernel, and the port hands out none; a call that is still to be answered has not linked its request. -/
theorem stop_leaves_nothing (pos : 0 < w.n) (rn : Runs (Step w) Orderly {} s) (stop : s.stopping = true)
    (returned : ∀ t, (s.caller t).inStop = .idle) :
    (∀ u, u < s.started → (s.thread u).loop = .exited) ∧ s.total = 0 ∧ s.linked = [] ∧ s.kernel = [] ∧
      (∀ p, some p ∉ s.port) ∧ ∀ r, s.calls r ≠ s.answers r → ∃ t, (s.caller t).unlinked = some r := by
  obtain ⟨sd, b, sp⟩ := Stops.of_runs pos rn
  obtain rfl := sp.lone.eq_rest returned
  have down : s.running = false := by
    by_contra ne
    exact sp.up (Bool.eq_true_of_not_eq_false ne) stop rfl
  obtain ⟨zero, workers, -⟩ := sp.down down
  have none : s.linked = [] := by
    have len := sd.total
    rw [zero] at len
    exact List.length_eq_zero_iff.1 (Int.natCast_eq_zero.1 len.symm)
  have free : ∀ {p : Place θ} {r}, (∀ t, p ≠ .caller t) → r ∉ s.held p := by
    intro p r other here
    have mem := sd.mem_linked here fun t e => absurd e (other t)
    rw [none] at mem
    cases mem
  refine ⟨fun u lt => (sp.all u lt).resolve_right ?_, zero, none, ?_, fun p mem => ?_, fun r ne => ?_⟩
  · rw [workers]
    exact nofun
  · exact List.eq_nil_iff_forall_not_mem.2 fun r => free (p := .kernel) nofun
  · exact free (p := .port) nofun (List.mem_filterMap.2 ⟨_, mem, rfl⟩)
  · have out : s.lent r = true := by
      by_contra no
      rw [sd.answered r, if_neg no] at ne
      exact ne rfl
    by_contra no
    have mem := (sd.linked r).2 ⟨out, fun t e => no ⟨t, e⟩⟩
    rw [none] at mem
    cases mem

/-- `Stop` has found the reactor with one thread, and has posted its wake-up. -/
def firstWakeup : State Unit Unit Unit :=
  { firstCollected with
    stopping := true
    workers := []
    thread := fun _ => {}
    caller := fun _ => .wakeups [0] 0
    port := [none]
    pushed := [()] }

/-- How `Stop` comes to its wake-up. -/
lemma firstWakeup_runs : Runs (Step ⟨1, fun _ => true⟩) Orderly {} firstWakeup := by
  have r : Runs _ Orderly _ _ := firstCollected_runs (fun _ => trivial) (fun _ => trivial) (fun _ _ => trivial)
    (fun _ => trivial) fun _ _ => trivial
  have r := r.next (.thread 0) trivial (.timeout Nat.one_pos rfl nofun)
  have r := r.next (.stop ()) (fun _ => id) (.stop_running rfl rfl rfl)
  have r := r.next (.caller ()) trivial (.swap rfl)
  have r := r.next (.caller ()) trivial (.wakeup rfl)
  convert r using 1
  have rest : Function.update (fun _ => {}) 0 {} = fun _ : Nat => ({} : Thread Unit Unit) :=
    Function.update_eq_self 0 _
  have thread : (fun _ : Nat => ({} : Thread Unit Unit)) =
      Function.update (Function.update (fun _ => {}) 0 ⟨.wait, [()], []⟩) 0 {} := by
    rw [Function.update_idem, rest]
  simp only [firstWakeup, State.goto, State.Flush, State.setThread, Function.update_eq_const_of_subsingleton]
  rw [thread]
  rfl

/-- An operation is answered and `Stop` returns. -/
theorem stop_leaves_nothing_first : ∃ s : State Unit Unit Unit, Runs (Step ⟨1, fun _ => true⟩) Orderly {} s ∧
    s.calls () = 1 ∧ s.started = 1 ∧ (s.thread 0).loop = .exited ∧ s.total = 0 := by
  have r := firstWakeup_runs
  have r := r.next (.dequeue 0) trivial (.null Nat.one_pos rfl (List.mem_singleton_self _))
  have r := r.next (.thread 0) trivial (.wakes_stopping rfl rfl)
  have r := r.next (.exit 0) trivial (.exit rfl rfl)
  have r := r.next (.caller ()) trivial (.wakeups rfl)
  have r := r.next (.caller ()) trivial (.join rfl rfl)
  have r := r.next (.caller ()) trivial (.joins rfl)
  have r := r.next (.caller ()) trivial (.joined rfl)
  obtain ⟨left, zero, -⟩ := stop_leaves_nothing Nat.one_pos r rfl fun _ => rfl
  exact ⟨_, r, rfl, rfl, left 0 Nat.one_pos, zero⟩

end JLib.CompletionPort
