import JLib.CompletionPort.Model
import JLib.LTS.Lent
import Mathlib.Algebra.Order.Ring.Nat

/-!
# One answer for each call

A request that is in an operation is with the caller that submits it, with the kernel, in a packet of the port, or with
the completion thread that has taken the packet. It is linked from before the kernel sees it until it is answered, so
`total` counts the operations whose buffers the kernel may still write.
-/

namespace JLib.CompletionPort
open LTS Io

inductive Place (θ : Type) where
  | caller (t : θ)
  | kernel
  | port
  | thread (u : Nat)
  deriving DecidableEq

variable {θ ρ τ : Type} {w : Setup τ} {s s' : State θ ρ τ} {l : Label θ ρ τ} {t : θ}
  {u : Nat} {r : ρ}

namespace Pc

def requests : Pc ρ τ → List ρ
  | token r _ _ | stopping r | ensure r | link r | call r | rejected r _ => [r]
  | _ => []

/-- The request that is not linked yet. -/
def unlinked : Pc ρ τ → Option ρ
  | token r _ _ | stopping r | ensure r | link r => some r
  | _ => none

/-- A request that is not linked yet is with its caller. -/
lemma mem_of_unlinked {pc : Pc ρ τ} (h : pc.unlinked = some r) : r ∈ pc.requests := by
  cases pc <;> cases h <;> exact List.mem_singleton_self _

end Pc

def Loop.requests : Loop ρ τ → List ρ
  | packet r _ => [r]
  | _ => []

def requests (port : List (Option (Packet ρ))) : List ρ := port.filterMap (·.map Packet.req)

def State.held (s : State θ ρ τ) : Place θ → List ρ
  | .caller t => (s.caller t).requests
  | .kernel => s.kernel
  | .port => requests s.port
  | .thread u => (s.thread u).loop.requests

/-- Every request of an operation is at one place, and those that are linked are counted. -/
structure Sound (s : State θ ρ τ) : Prop where
  lent : Lent s.held s.lent
  nodup : s.linked.Nodup
  linked : ∀ r, r ∈ s.linked ↔ s.lent r = true ∧ ∀ t, (s.caller t).unlinked ≠ some r
  total : s.total = s.linked.length
  answered : ∀ r, s.calls r = s.answers r + if s.lent r then 1 else 0

/-- The caller is where it went. -/
lemma State.goto_self [DecidableEq θ] (s : State θ ρ τ) (t : θ) (pc : Pc ρ τ) : (s.goto t pc).caller t = pc :=
  Function.update_self ..

/-- The others are where they were. -/
lemma State.goto_other [DecidableEq θ] (s : State θ ρ τ) {t v : θ} (pc : Pc ρ τ) (ne : v ≠ t) :
    (s.goto t pc).caller v = s.caller v :=
  Function.update_of_ne ne ..

/-- The thread is as it was set. -/
lemma State.setThread_self (s : State θ ρ τ) (u : Nat) (h : Thread ρ τ) : (s.setThread u h).thread u = h :=
  Function.update_self ..

/-- The other threads are as they were. -/
lemma State.setThread_other (s : State θ ρ τ) {u v : Nat} (h : Thread ρ τ) (ne : v ≠ u) :
    (s.setThread u h).thread v = s.thread v :=
  Function.update_of_ne ne ..

/-- A wake-up is no request. -/
lemma requests_wakeup (port : List (Option (Packet ρ))) : requests (port ++ [none]) = requests port := by
  unfold requests
  rw [List.filterMap_append]
  exact List.append_nil _

/-- A packet of the port is its request, beside the others. -/
lemma requests_perm [DecidableEq ρ] {p : Option (Packet ρ)} {port : List (Option (Packet ρ))} (mem : p ∈ port) :
    (requests port).Perm ((p.map Packet.req).toList ++ requests (port.erase p)) := by
  have perm := (List.perm_cons_erase mem).filterMap (·.map Packet.req)
  cases p <;> exact perm

namespace Sound

/-- The requests stay where they are. -/
lemma same (sd : Sound s) (hc : ∀ t, (s'.caller t).requests = (s.caller t).requests ∧
      (s'.caller t).unlinked = (s.caller t).unlinked)
    (ht : ∀ u, (s'.thread u).loop.requests = (s.thread u).loop.requests) (hk : s'.kernel = s.kernel)
    (hp : (requests s'.port).Perm (requests s.port)) (hl : s'.linked = s.linked ∧ s'.total = s.total)
    (hn : s'.lent = s.lent ∧ s'.calls = s.calls ∧ s'.answers = s.answers) : Sound s' := by
  obtain ⟨lent, calls, answers⟩ := hn
  obtain ⟨linked, total⟩ := hl
  refine ⟨?_, ?_, ?_, ?_, ?_⟩
  · rw [lent]
    refine sd.lent.move (p := .port) (q := .kernel) nofun (fun p np nk => ?_) ?_
    · cases p with
      | caller t => exact (hc t).1
      | thread u => exact ht u
      | kernel => exact absurd rfl nk
      | port => exact absurd rfl np
    · show (requests s'.port ++ s'.kernel).Perm _
      rw [hk]
      exact hp.append_right _
  · rw [linked]
    exact sd.nodup
  · intro r
    rw [linked, lent, sd.linked]
    simp only [(hc _).2]
  · rw [total, linked]
    exact sd.total
  · intro r
    rw [calls, answers, lent]
    exact sd.answered r

/-- A caller goes on with the request that it has. -/
lemma goto [DecidableEq θ] {pc : Pc ρ τ} (sd : Sound s) (req : pc.requests = (s.caller t).requests)
    (unl : pc.unlinked = (s.caller t).unlinked) (hc : s'.caller = Function.update s.caller t pc)
    (ht : s'.thread = s.thread) (hk : s'.kernel = s.kernel) (hp : requests s'.port = requests s.port)
    (hl : s'.linked = s.linked ∧ s'.total = s.total)
    (hn : s'.lent = s.lent ∧ s'.calls = s.calls ∧ s'.answers = s.answers) : Sound s' := by
  refine sd.same (fun v => ?_) (fun u => by rw [ht]) hk (hp ▸ .refl _) hl hn
  rw [hc, Function.update_apply]
  split
  · rename_i e
    subst e
    exact ⟨req, unl⟩
  · exact ⟨rfl, rfl⟩

/-- A thread that has no packet goes on. -/
lemma thread {h : Thread ρ τ} (sd : Sound s) (none : (s.thread u).loop.requests = []) (none' : h.loop.requests = [])
    (ht : s'.thread = Function.update s.thread u h) (hc : s'.caller = s.caller) (hk : s'.kernel = s.kernel)
    (hp : (requests s'.port).Perm (requests s.port)) (hl : s'.linked = s.linked ∧ s'.total = s.total)
    (hn : s'.lent = s.lent ∧ s'.calls = s.calls ∧ s'.answers = s.answers) : Sound s' := by
  refine sd.same (fun v => by rw [hc]; exact ⟨rfl, rfl⟩) (fun v => ?_) hk hp hl hn
  rw [ht, Function.update_apply]
  split
  · rename_i e
    subst e
    rw [none, none']
  · rfl

/-- A request that is with nobody who has still to link it is linked. -/
lemma mem_linked {p : Place θ} (sd : Sound s) (here : r ∈ s.held p)
    (past : ∀ t, p = .caller t → (s.caller t).unlinked ≠ some r) : r ∈ s.linked := by
  refine (sd.linked r).2 ⟨sd.lent.mem here, fun t unl => ?_⟩
  have there : r ∈ s.held (.caller t) := Pc.mem_of_unlinked unl
  exact past t (sd.lent.custody.unique here there) unl

/-- A request that its caller has still to link is not linked. -/
lemma not_linked (sd : Sound s) (here : (s.caller t).unlinked = some r) : r ∉ s.linked :=
  fun mem => ((sd.linked r).1 mem).2 t here

variable [DecidableEq ρ]

/-- A request that is unlinked is counted out. -/
lemma total_erase (sd : Sound s) (mem : r ∈ s.linked) : s.total - 1 = (s.linked.erase r).length := by
  rw [sd.total, List.length_erase_of_mem mem]
  have pos := List.length_pos_of_mem mem
  omega

/-- The request at a place is answered. -/
lemma answer {p : Place θ} (sd : Sound s) (mine : s.held p = [r]) (empty : s'.held p = [])
    (frame : ∀ q, q ≠ p → s'.held q = s.held q) (linked : s'.linked = s.linked.erase r)
    (total : s'.total = s'.linked.length)
    (unl : ∀ v k, k ≠ r → ((s'.caller v).unlinked = some k ↔ (s.caller v).unlinked = some k))
    (lent : s'.lent = Function.update s.lent r false) (calls : s'.calls = s.calls)
    (answers : s'.answers = Function.update s.answers r (s.answers r + 1)) : Sound s' := by
  have out : s.lent r = true := by
    refine sd.lent.mem (p := p) ?_
    rw [mine]
    exact List.mem_singleton_self r
  refine ⟨?_, ?_, fun k => ?_, total, fun k => ?_⟩
  · rw [lent]
    refine sd.lent.drop frame ?_
    rw [mine, empty]
  · rw [linked]
    exact sd.nodup.erase r
  · rw [linked, sd.nodup.mem_erase_iff, sd.linked, lent]
    by_cases e : k = r
    · subst e
      rw [Function.update_self]
      exact ⟨fun h => absurd rfl h.1, fun h => nomatch h.1⟩
    · rw [Function.update_of_ne e]
      have same : (∀ v, (s'.caller v).unlinked ≠ some k) ↔ ∀ v, (s.caller v).unlinked ≠ some k :=
        forall_congr' fun v => not_congr (unl v k e)
      rw [same]
      exact and_iff_right e
  · rw [calls, answers, lent, sd.answered k]
    by_cases e : k = r
    · subst e
      rw [Function.update_self, Function.update_self, if_pos out]
      rfl
    · rw [Function.update_of_ne e, Function.update_of_ne e]

end Sound

/-- A caller's step leaves the other places. -/
lemma held_goto [DecidableEq θ] {pc : Pc ρ τ} {q : Place θ} (ne : q ≠ .caller t) : (s.goto t pc).held q = s.held q := by
  cases q with
  | caller v =>
    show ((s.goto t pc).caller v).requests = _
    rw [State.goto_other]
    · rfl
    · rintro rfl
      exact ne rfl
  | kernel | port | thread => rfl

/-- A thread's step leaves the other places. -/
lemma held_setThread {h : Thread ρ τ} {q : Place θ} (ne : q ≠ .thread u) : (s.setThread u h).held q = s.held q := by
  cases q with
  | thread v =>
    show ((s.setThread u h).thread v).loop.requests = _
    rw [State.setThread_other]
    · rfl
    · rintro rfl
      exact ne rfl
  | kernel | port | caller => rfl

/-- What a caller has after its step. -/
lemma held_caller [DecidableEq θ] (s : State θ ρ τ) (t : θ) (pc : Pc ρ τ) :
    (s.goto t pc).held (.caller t) = pc.requests := by
  show ((s.goto t pc).caller t).requests = _
  rw [State.goto_self]

/-- What a thread has after its step. -/
lemma held_thread (s : State θ ρ τ) (u : Nat) (h : Thread ρ τ) :
    (s.setThread u h).held (.thread u) = h.loop.requests := by
  show ((s.setThread u h).thread u).loop.requests = _
  rw [State.setThread_self]

variable [DecidableEq θ]

/-- What a caller has still to link, when another has moved or has nothing to link. -/
lemma unlinked_goto {pc : Pc ρ τ} {v : θ} {k : ρ} (was : (s.caller t).unlinked ≠ some k) (is : pc.unlinked ≠ some k) :
    ((s.goto t pc).caller v).unlinked = some k ↔ (s.caller v).unlinked = some k := by
  by_cases e : v = t
  · subst e
    rw [State.goto_self]
    exact ⟨fun h => absurd h is, fun h => absurd h was⟩
  · rw [State.goto_other _ _ e]

/-- A call is answered before it has linked its request. -/
lemma Sound.early [DecidableEq ρ] {res : IoResult} (sd : Sound s) (mine : (s.caller t).requests = [r])
    (here : (s.caller t).unlinked = some r) : Sound ((s.answer r res).goto t .idle) := by
  refine sd.answer (p := .caller t) mine (held_caller ..) (fun q ne => held_goto ne)
    (List.erase_of_not_mem (sd.not_linked here)).symm sd.total (fun v k ne => ?_) rfl rfl rfl
  refine unlinked_goto (s := s.answer r res) ?_ nofun
  show (s.caller t).unlinked ≠ _
  rw [here]
  exact fun h => ne (Option.some.inj h).symm

omit [DecidableEq θ] in
/-- Starting the threads leaves everything but what there is of them. -/
lemma EnsureThreads_frame (w : Setup τ) (s : State θ ρ τ) :
    (s.EnsureThreads w).caller = s.caller ∧ (s.EnsureThreads w).thread = s.thread ∧
      (s.EnsureThreads w).kernel = s.kernel ∧ (s.EnsureThreads w).port = s.port ∧
      ((s.EnsureThreads w).linked = s.linked ∧ (s.EnsureThreads w).total = s.total) ∧
      (s.EnsureThreads w).lent = s.lent ∧ (s.EnsureThreads w).calls = s.calls ∧
      (s.EnsureThreads w).answers = s.answers := by
  unfold State.EnsureThreads
  split <;> exact ⟨rfl, rfl, rfl, rfl, ⟨rfl, rfl⟩, rfl, rfl, rfl⟩

variable [DecidableEq ρ]

/-- A step keeps the account of the requests. -/
lemma Step.sound (st : Step w s l s') (sd : Sound s) : Sound s' := by
  cases st with
  | @submit t r tok resume e free =>
    have none : s.held (.caller t) = [] := by
      show (s.caller t).requests = _
      rw [e]
      rfl
    have fresh : r ∉ s.linked := fun mem => by
      rw [((sd.linked r).1 mem).1] at free
      cases free
    refine ⟨?_, sd.nodup, fun k => ?_, sd.total, fun k => ?_⟩
    · refine sd.lent.put (p := .caller t) free (fun q ne => held_goto ne) ?_
      rw [held_caller, none]
      exact .refl _
    · show k ∈ s.linked ↔ Function.update s.lent r true k = true ∧ _
      by_cases ek : k = r
      · subst ek
        refine ⟨fun mem => absurd mem fresh, fun h => absurd ?_ (h.2 t)⟩
        rw [State.goto_self]
        rfl
      · rw [sd.linked, Function.update_of_ne ek]
        refine and_congr_right fun _ => forall_congr' fun v => not_congr (unlinked_goto ?_ ?_).symm
        · show (s.caller t).unlinked ≠ _
          rw [e]
          exact nofun
        · rintro ⟨⟩
          exact ek rfl
    · show Function.update s.calls r _ k = s.answers k + if Function.update s.lent r true k then 1 else 0
      by_cases ek : k = r
      · subst ek
        rw [Function.update_self, Function.update_self, sd.answered k, free]
        rfl
      · rw [Function.update_of_ne ek, Function.update_of_ne ek, sd.answered k]
  | cancelled e | stopped e => exact sd.early (by rw [e]; rfl) (by rw [e]; rfl)
  | fill e | running e => exact sd.goto (by rw [e]; rfl) (by rw [e]; rfl) rfl rfl rfl rfl ⟨rfl, rfl⟩ ⟨rfl, rfl, rfl⟩
  | ensure e | ensureOnly e =>
    obtain ⟨caller, thread, kernel, port, list, rest⟩ := EnsureThreads_frame w s
    exact sd.goto (by rw [e]; rfl) (by rw [e]; rfl) (congrArg (Function.update · _ _) caller) thread kernel
      (congrArg requests port) list rest
  | @link t r e =>
    have here : (s.caller t).unlinked = some r := by rw [e]; rfl
    have fresh := sd.not_linked here
    have out : s.lent r = true := by
      refine sd.lent.mem (p := .caller t) ?_
      exact Pc.mem_of_unlinked here
    refine ⟨sd.lent.congr fun q => ?_, List.nodup_cons.2 ⟨fresh, sd.nodup⟩, fun k => ?_, ?_, sd.answered⟩
    · by_cases eq : q = .caller t
      · subst eq
        refine (held_caller ..).trans ?_
        show _ = (s.caller t).requests
        rw [e]
        rfl
      · exact held_goto eq
    · show k ∈ r :: s.linked ↔ s.lent k = true ∧ _
      rw [List.mem_cons, sd.linked]
      by_cases ek : k = r
      · subst ek
        refine ⟨fun _ => ⟨out, fun v h => ?_⟩, fun _ => .inl rfl⟩
        by_cases ev : v = t
        · subst ev
          rw [State.goto_self] at h
          cases h
        · rw [State.goto_other _ _ ev] at h
          have there : k ∈ s.held (.caller v) := Pc.mem_of_unlinked h
          have mine : k ∈ s.held (.caller t) := Pc.mem_of_unlinked here
          exact ev (Place.caller.inj (sd.lent.custody.unique there mine))
      · refine (or_iff_right ek).trans (and_congr_right fun _ => forall_congr' fun v => ?_)
        refine not_congr (unlinked_goto ?_ (by nofun)).symm
        show (s.caller t).unlinked ≠ _
        rw [here]
        exact fun h => ek (Option.some.inj h).symm
    · show s.total + 1 = ((r :: s.linked).length : Int)
      rw [sd.total, List.length_cons]
      rfl
  | @accept t r e =>
    refine ⟨?_, sd.nodup, fun k => ?_, sd.total, sd.answered⟩
    · refine sd.lent.move (p := .caller t) (q := .kernel) nofun (fun q nc nk => ?_) ?_
      · refine (held_goto nc).trans ?_
        cases q with
        | kernel => exact absurd rfl nk
        | caller | port | thread => rfl
      · rw [held_caller]
        show (r :: s.kernel).Perm ((s.caller t).requests ++ s.kernel)
        rw [e]
        exact .refl _
    · refine (sd.linked k).trans (and_congr_right fun _ => forall_congr' fun v => ?_)
      refine not_congr (unlinked_goto ?_ (by nofun)).symm
      show (s.caller t).unlinked ≠ _
      rw [e]
      exact nofun
  | reject e => exact sd.goto (by rw [e]; rfl) (by rw [e]; rfl) rfl rfl rfl rfl ⟨rfl, rfl⟩ ⟨rfl, rfl, rfl⟩
  | @rejected t r err e =>
    have mine : s.held (.caller t) = [r] := by
      show (s.caller t).requests = _
      rw [e]
      rfl
    have mem : r ∈ s.linked := by
      refine sd.mem_linked (p := .caller t) (by rw [mine]; exact List.mem_singleton_self r) ?_
      rintro v ⟨⟩
      rw [e]
      exact nofun
    refine sd.answer mine (held_caller ..) (fun q ne => held_goto ne) rfl (sd.total_erase mem) (fun v k ne => ?_) rfl
      rfl rfl
    refine unlinked_goto (s := (s.Unlink r).answer r ⟨.failed, 0, err⟩) ?_ nofun
    show (s.caller t).unlinked ≠ _
    rw [e]
    exact nofun
  | register e | swap e | wakeups e | join e | joins e | joined e =>
    exact sd.goto (by rw [e]; rfl) (by rw [e]; rfl) rfl rfl rfl rfl ⟨rfl, rfl⟩ ⟨rfl, rfl, rfl⟩
  | registers e | stop e =>
    refine sd.goto ?_ ?_ rfl rfl rfl rfl ⟨rfl, rfl⟩ ⟨rfl, rfl, rfl⟩
    · rw [e]
      split <;> rfl
    · rw [e]
      split <;> rfl
  | wakeup e =>
    exact sd.goto (by rw [e]; rfl) (by rw [e]; rfl) rfl rfl rfl (requests_wakeup _) ⟨rfl, rfl⟩ ⟨rfl, rfl, rfl⟩
  | start | outside => exact ⟨sd.lent, sd.nodup, sd.linked, sd.total, sd.answered⟩
  | @complete p mem =>
    refine ⟨?_, sd.nodup, sd.linked, sd.total, sd.answered⟩
    refine sd.lent.move (p := .kernel) (q := .port) nofun (fun q nk np => ?_) ?_
    · cases q with
      | kernel => exact absurd rfl nk
      | port => exact absurd rfl np
      | caller | thread => rfl
    · show (s.kernel.erase p.req ++ requests (s.port ++ [some p])).Perm (s.kernel ++ requests s.port)
      have port : requests (s.port ++ [some p]) = requests s.port ++ [p.req] := by
        unfold requests
        rw [List.filterMap_append]
        rfl
      have swap : (s.kernel.erase p.req ++ (requests s.port ++ [p.req])).Perm
          (p.req :: (s.kernel.erase p.req ++ requests s.port)) := by
        rw [← List.append_assoc]
        exact List.perm_append_singleton ..
      rw [port]
      exact swap.trans ((List.perm_cons_erase mem).symm.append_right _)
  | @packet u p lt e mem =>
    refine ⟨?_, sd.nodup, sd.linked, sd.total, sd.answered⟩
    refine sd.lent.move (p := .port) (q := .thread u) nofun (fun q np nt => ?_) ?_
    · refine (held_setThread nt).trans ?_
      cases q with
      | port => exact absurd rfl np
      | kernel | caller | thread => rfl
    · rw [held_thread]
      show (requests (s.port.erase (some p)) ++ [p.req]).Perm (requests s.port ++ (s.thread u).loop.requests)
      rw [e]
      refine (List.perm_append_singleton ..).trans ?_
      rw [show Loop.requests (.wait : Loop ρ τ) = [] from rfl, List.append_nil]
      exact (requests_perm mem).symm
  | null lt e mem =>
    exact sd.thread (by rw [e]; rfl) rfl rfl rfl rfl (requests_perm mem).symm ⟨rfl, rfl⟩ ⟨rfl, rfl, rfl⟩
  | timeout lt e =>
    refine sd.thread (by rw [e]; rfl) ?_ rfl rfl rfl (.refl _) ⟨rfl, rfl⟩ ⟨rfl, rfl, rfl⟩
    show (s.thread _).loop.requests = _
    rw [e]
    rfl
  | wakes e =>
    refine sd.thread (by rw [e]; rfl) ?_ rfl rfl rfl (.refl _) ⟨rfl, rfl⟩ ⟨rfl, rfl, rfl⟩
    dsimp only
    split <;> rfl
  | stays e =>
    exact sd.thread (by rw [e]; rfl) rfl rfl rfl rfl (.refl _) ⟨rfl, rfl⟩ ⟨rfl, rfl, rfl⟩
  | exit e =>
    refine sd.thread (by rw [e]; rfl) rfl rfl rfl rfl ?_ ⟨rfl, rfl⟩ ⟨rfl, rfl, rfl⟩
    exact .of_eq (requests_wakeup _)
  | @unlink u r res e =>
    have mine : s.held (.thread u) = [r] := by
      show (s.thread u).loop.requests = _
      rw [e]
      rfl
    have mem : r ∈ s.linked := sd.mem_linked (p := .thread u) (by rw [mine]; exact List.mem_singleton_self r) nofun
    exact sd.answer mine (held_thread ..) (fun q ne => held_setThread ne) rfl (sd.total_erase mem)
      (fun v k ne => Iff.rfl) rfl rfl rfl
  | collect e hh | check e hh =>
    subst hh
    split <;> exact sd.thread (by rw [e]; rfl) rfl rfl rfl rfl (.refl _) ⟨rfl, rfl⟩ ⟨rfl, rfl, rfl⟩

/-- The account of the requests holds in every state of a run. -/
lemma Sound.of_runs {ok : State θ ρ τ → Label θ ρ τ → Prop} (rn : Runs (Step w) ok {} s) : Sound s := by
  have none : ∀ p, ({} : State θ ρ τ).held p = [] := by
    intro p
    cases p <;> rfl
  have init : Sound ({} : State θ ρ τ) :=
    ⟨.empty none, List.nodup_nil, fun r => ⟨nofun, fun h => nomatch h.1⟩, rfl, fun _ => rfl⟩
  refine rn.invariant init ?_
  intro s l s' sd _ st
  exact st.sound sd

/-- Every call is answered once: a request is at one place as long as its call has no answer, and back with its owner
after. `total` counts the requests that are linked, which are those that are past `Link`; whatever the kernel holds or
the port hands out is linked. -/
theorem calls_answered_once (rn : Reaches (Step w) {} s) :
    (∀ r, s.calls r = s.answers r + if s.lent r then 1 else 0) ∧ (∀ r, s.lent r = true → ∃! p, r ∈ s.held p) ∧
      s.linked.Nodup ∧ s.total = s.linked.length ∧
      (∀ r, r ∈ s.linked ↔ s.lent r = true ∧ ∀ t, (s.caller t).unlinked ≠ some r) ∧
      ∀ r, r ∈ s.kernel ∨ (∃ p, some p ∈ s.port ∧ p.req = r) → r ∈ s.linked := by
  have sd := Sound.of_runs rn
  refine ⟨sd.answered, fun r out => sd.lent.one_place out, sd.nodup, sd.total, sd.linked, fun r here => ?_⟩
  obtain here | ⟨p, mem, rfl⟩ := here
  · exact sd.mem_linked (p := .kernel) here nofun
  · exact sd.mem_linked (p := .port) (List.mem_filterMap.2 ⟨_, mem, rfl⟩) nofun

/-- A caller whose request is with the kernel starts the threads. -/
lemma Step.ensures (e : s.caller t = .ensure r) (none : s.running = false) :
    Step w s (.caller t)
      ({ s with
        running := true
        workers := s.workers ++ List.range' s.started w.n
        started := s.started + w.n }.goto t (.link r)) := by
  have st := Step.ensure (w := w) e
  unfold State.EnsureThreads at st
  rwa [none] at st

/-- The first operation of a reactor with one thread. -/
def firstPacket : State Unit Unit Unit :=
  { linked := [()]
    total := 1
    running := true
    workers := [0]
    started := 1
    resume := fun _ => some ()
    port := [some ⟨(), true, 0, 5⟩]
    lent := fun _ => true
    calls := fun _ => 1 }

/-- How the first operation gets to its packet, under any condition that allows it. -/
lemma firstPacket_runs {low : Unit → Bool} {ok : State Unit Unit Unit → Label Unit Unit Unit → Prop}
    (submit : ∀ s, ok s (.submit () () .kNone (some ()))) (caller : ∀ s, ok s (.caller ()))
    (kernel : ∀ s p, ok s (.kernel p)) : Runs (Step ⟨1, low⟩) ok {} firstPacket := by
  have r : Runs (Step ⟨1, low⟩) ok ({} : State Unit Unit Unit) {} := .refl
  have r := r.next (.submit () () .kNone (some ())) (submit _) (.submit rfl rfl)
  have live : CancelToken.kNone.cancelled (fun _ => {}) = false := rfl
  have r := r.next (.caller ()) (caller _) (.fill rfl live)
  have r := r.next (.caller ()) (caller _) (.running rfl rfl)
  have r := r.next (.caller ()) (caller _) (.ensures rfl rfl)
  have r := r.next (.caller ()) (caller _) (.link rfl)
  have r := r.next (.caller ()) (caller _) (.accept rfl)
  have r := r.next (.kernel ⟨(), true, 0, 5⟩) (kernel _ _) (.complete (List.mem_singleton_self ()))
  convert r using 1
  simp only [firstPacket, State.goto, State.Link, Function.update_eq_const_of_subsingleton]
  rfl

/-- A packet of the port is of a linked request. -/
theorem calls_answered_once_packet : ∃ s : State Unit Unit Unit, s.port = [some ⟨(), true, 0, 5⟩] ∧ s.total = 1 ∧
    () ∈ s.linked := by
  obtain ⟨-, -, -, -, -, linked⟩ := calls_answered_once (w := ⟨1, fun _ => true⟩)
    (firstPacket_runs (fun _ => trivial) (fun _ => trivial) fun _ _ => trivial)
  exact ⟨firstPacket, rfl, rfl, linked () (.inr ⟨_, List.mem_singleton_self _, rfl⟩)⟩

end JLib.CompletionPort
