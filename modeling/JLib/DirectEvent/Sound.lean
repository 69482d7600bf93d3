import JLib.DirectEvent.Model
import JLib.LTS.Custody
import JLib.LTS.Lone

/-!
# A wait is resumed once

What a wait looks like from its fiber: the phase, the status, whether the fiber is in `waiter`, the one resumer that
may be busy with it, and how often it was resumed. Each step changes this for one fiber, and these fit together in one
of a few ways.
-/

namespace JLib.DirectEvent
open LTS JLib.Fiber

variable {φ θ : Type} [DecidableEq φ] {s u : State φ θ} {a : Label θ} {f f' : φ} {t : θ}

/-- The waiter is published and the worker has not decided. -/
inductive Leaving : Phase → Prop where
  | published : Leaving .published
  | armed : Leaving .armed
  | back : Leaving .back
  | commit : Leaving .commit

/-- The fiber is in `waiter`, or a resumer has it that has not decided. -/
inductive Undecided : Prop → Rpc → Prop where
  | posted {b} : b → Undecided b .idle
  | load {b n} : ¬b → Undecided b (.load n)
  | casWants {b n} : ¬b → Undecided b (.casWants n)

/-- What fits the phase: whether the fiber is in `waiter`, the place of the resumer, the status, the wakes. -/
inductive Fits : Phase → Prop → Rpc → FiberStatus → Nat → Prop where
  | acquired {b} : ¬b → Fits .acquired b .idle .RUNNING 0
  | cleared {b} : ¬b → Fits .cleared b .idle .RUNNING 0
  | wants {b} : ¬b → Fits .wants b .idle .WANTS_SUSPEND 0
  -- nobody was first yet; or the resumer was
  | leaving {p b c} : Leaving p → Undecided b c → Fits p b c .WANTS_SUSPEND 0
  | met {p b} : Leaving p → ¬b → Fits p b .idle .SUSPEND_SIGNALED 1
  | signaled {b} : ¬b → Fits .signaled b .idle .SUSPEND_SIGNALED 1
  | push {b} : ¬b → Fits .push b .idle .READY 1
  -- the worker was first
  | parked {b c} : Undecided b c → Fits .parked b c .SUSPENDED 0
  | casSuspended {b} : ¬b → Fits .parked b .casSuspended .SUSPENDED 0
  | handed {b} : ¬b → Fits .handed b .push .READY 1
  | queued {b} : ¬b → Fits .queued b .idle .READY 1
  | woken {b} : ¬b → Fits .woken b .idle .RUNNING 1

/-- The place of the fiber and of its resumer, if it has begun `n` waits. -/
inductive At : Pc → (Nat → Prop) → Rpc → FiberStatus → Nat → Nat → Prop where
  | running {mine n w} : (0 < n → w = 1) → At .running mine .idle .RUNNING n w
  | wait {p e mine c st n w} : 0 < n → Fits p (mine e) c st w → At (.wait p e) mine c st n w

/-- What holds of one fiber: where it is, its status, the events whose waiter it is, the resumers, its waits so far
and their wakes. -/
structure Local (c : Pc) (st : FiberStatus) (mine : Nat → Prop) (r : θ → Rpc) (n : Nat) (wk : Nat → List (Wake φ)) :
    Prop where
  slot : ∀ e, mine e → ∃ p, c = .wait p e
  fits : ∃ b, Lone .idle r b ∧ At c mine b st n (wk n).length
  zero : wk 0 = []
  past : ∀ m, 0 < m → m < n → (wk m).length = 1
  future : ∀ m, n < m → wk m = []

/-- The place of the resumer with a fiber. -/
def Call.at (f : φ) : Call φ → Rpc
  | .resume f' _ _ c => if f' = f then c else .idle
  | _ => .idle

def Pc.event : Pc → List Nat
  | running => []
  | wait _ e => [e]

namespace State

def resumer (s : State φ θ) (f : φ) (t : θ) : Rpc := (s.signal t).at f

def mine (s : State φ θ) (f : φ) (e : Nat) : Prop := s.waiter e = some f

/-- The events in the queue, and that of each fiber. -/
def place (s : State φ θ) : Option φ → List Nat
  | none => s.freeq
  | some f => (s.fiber f).event

/-- What there is of one fiber. -/
def Local (s : State φ θ) (f : φ) : Prop :=
  DirectEvent.Local (s.fiber f) (s.status f) (s.mine f) (s.resumer f) (s.serial f) fun n => s.wakes (f, n)

/-- A fiber is the same in both states. -/
structure Same (s u : State φ θ) (f : φ) : Prop where
  fiber : u.fiber f = s.fiber f
  status : u.status f = s.status f
  mine : ∀ e, u.waiter e = some f ↔ s.waiter e = some f
  resumer : ∀ t, (u.signal t).at f = (s.signal t).at f
  serial : u.serial f = s.serial f
  wakes : ∀ n, u.wakes (f, n) = s.wakes (f, n)

end State

structure Sound (s : State φ θ) : Prop where
  events : Custody s.place
  fiber : ∀ f, s.Local f

/-- What holds of a fiber holds of one that is the same. -/
lemma State.Same.local (same : s.Same u f) (lo : s.Local f) : u.Local f := by
  have mine : u.mine f = s.mine f := funext fun e => propext (same.mine e)
  have resumer : u.resumer f = s.resumer f := funext same.resumer
  have wakes : (fun n => u.wakes (f, n)) = fun n => s.wakes (f, n) := funext same.wakes
  unfold State.Local
  rw [same.fiber, same.status, mine, resumer, same.serial, wakes]
  exact lo

/-- The waiter of the event of a fiber is that fiber. -/
lemma Sound.own {p : Phase} {e : Nat} (so : Sound s) (h : s.fiber f = .wait p e) (h' : s.waiter e = some f') :
    f' = f := by
  obtain ⟨p', at'⟩ := (so.fiber f').slot e h'
  have mem : e ∈ s.place (some f) := by
    show e ∈ (s.fiber f).event
    rw [h]
    exact List.mem_singleton_self e
  have mem' : e ∈ s.place (some f') := by
    show e ∈ (s.fiber f').event
    rw [at']
    exact List.mem_singleton_self e
  exact Option.some.inj (so.events.unique mem' mem)

/-- Nobody waits on a free event. -/
lemma Sound.free {e : Nat} (so : Sound s) (h : e ∈ s.freeq) : s.waiter e = none := by
  cases h' : s.waiter e with
  | none => rfl
  | some f =>
    obtain ⟨p, at'⟩ := (so.fiber f).slot e h'
    have mem : e ∈ s.place (some f) := by
      show e ∈ (s.fiber f).event
      rw [at']
      exact List.mem_singleton_self e
    cases so.events.unique (p := none) h mem

/-- No fiber has waited. -/
lemma Sound.start (n : Nat) : Sound (State.start n : State φ θ) := by
  refine ⟨⟨?_, ?_⟩, fun f => ⟨nofun, ⟨_, Lone.rest Rpc.idle, .running nofun⟩, rfl, ?_, fun _ _ => rfl⟩⟩
  · rintro (_ | f)
    · exact List.nodup_range
    · exact List.nodup_nil
  · rintro (_ | f) (_ | f') k h h'
    · rfl
    · cases h'
    · cases h
    · cases h
  · intro m _ lt
    exact absurd lt (Nat.not_lt_zero m)

/-- A wait is resumed once at most. -/
lemma Sound.once (so : Sound s) (w : Wait φ) : (s.wakes w).length ≤ 1 := by
  obtain ⟨-, ⟨b, -, at_⟩, zero, past, future⟩ := so.fiber w.1
  have none : w.2 = 0 → s.wakes w = [] := by
    intro e
    rw [← zero, ← e]
  by_cases pos : w.2 = 0
  · rw [none pos]
    exact Nat.zero_le 1
  rcases Nat.lt_trichotomy w.2 (s.serial w.1) with lt | same | gt
  · exact Nat.le_of_eq (past _ (Nat.pos_of_ne_zero pos) lt)
  · generalize s.status w.1 = st at at_
    generalize s.fiber w.1 = c at at_
    rw [← same] at at_
    cases at_ with
    | running one => exact Nat.le_of_eq (one (Nat.pos_of_ne_zero pos))
    | wait _ ft =>
      show (s.wakes (w.1, w.2)).length ≤ 1
      generalize (s.wakes (w.1, w.2)).length = n at ft ⊢
      cases ft <;> decide
  · have no : s.wakes w = [] := future _ gt
    rw [no]
    exact Nat.zero_le 1

/-! ## The steps -/

namespace State

/-- A step that concerns one fiber, which is in a wait with event `e`. -/
def touch (s : State φ θ) (f : φ) (c : Pc) (x : FiberStatus) (e : Nat) (w : Option φ) (l : List (Wake φ))
    (g : θ → Call φ) : State φ θ :=
  { s with
    fiber := Function.update s.fiber f c
    status := Function.update s.status f x
    waiter := Function.update s.waiter e w
    wakes := Function.update s.wakes (s.current f) l
    signal := g }

/-- Without what the account does not speak of. -/
def core (s : State φ θ) : State φ θ := { s with pointer := fun _ => none, returned := [] }

end State

/-- The account speaks of the core alone. -/
lemma Sound.of_core (so : Sound s) (e : u.core = s.core) : Sound u := by
  have core : Sound s.core := ⟨so.events, so.fiber⟩
  rw [← e] at core
  exact ⟨core.events, core.fiber⟩

/-- A step that concerns one fiber keeps the account if it fits that fiber. -/
lemma Sound.touch {p q : Phase} {e : Nat} {x : FiberStatus} {w : Option φ} {l : List (Wake φ)} {g : θ → Call φ}
    (so : Sound s) (h : s.fiber f = .wait p e) (hw : ∀ f', w = some f' → f' = f)
    (hg : ∀ f' ≠ f, ∀ t, (g t).at f' = (s.signal t).at f')
    (fits : ∀ b, Lone .idle (s.resumer f) b →
      Fits p (s.waiter e = some f) b (s.status f) (s.wakes (s.current f)).length →
      ∃ b', Lone .idle (fun t => (g t).at f) b' ∧ Fits q (w = some f) b' x l.length) :
    Sound (s.touch f (.wait q e) x e w l g) := by
  refine ⟨so.events.congr ?_, fun f' => ?_⟩
  · rintro (_ | f')
    · rfl
    · show (Function.update s.fiber f _ f').event = (s.fiber f').event
      by_cases ef : f' = f
      · subst ef
        rw [Function.update_self, h]
        rfl
      · rw [Function.update_of_ne ef]
  by_cases ef : f' = f
  · subst ef
    obtain ⟨slot, ⟨b, lone, at_⟩, zero, past, future⟩ := so.fiber f'
    rw [h] at at_ slot
    cases at_ with
    | wait pos ft =>
    obtain ⟨b', lone', ft'⟩ := fits b lone ft
    refine ⟨fun e' mine => ⟨q, ?_⟩, ⟨b', lone', ?_⟩, ?_, fun m h0 lt => ?_, fun m lt => ?_⟩
    · show Function.update s.fiber f' _ f' = _
      rw [Function.update_self]
      by_cases ee : e' = e
      · rw [ee]
      · have old : s.waiter e' = some f' := by
          rw [← mine]
          exact (Function.update_of_ne ee _ _).symm
        obtain ⟨r, same⟩ := slot e' old
        cases same
        rfl
    · show At (Function.update s.fiber f' _ f') _ _ (Function.update s.status f' x f') _ _
      rw [Function.update_self, Function.update_self]
      refine .wait pos ?_
      show Fits q (Function.update s.waiter e w e = _) b' x
        (Function.update s.wakes (s.current f') l (s.current f')).length
      rw [Function.update_self, Function.update_self]
      exact ft'
    · show Function.update s.wakes _ l (f', 0) = []
      rw [Function.update_of_ne (fun same => Nat.ne_of_lt pos (congrArg Prod.snd same))]
      exact zero
    · show (Function.update s.wakes _ l (f', m)).length = 1
      rw [Function.update_of_ne (fun same => Nat.ne_of_lt lt (congrArg Prod.snd same))]
      exact past m h0 lt
    · show Function.update s.wakes _ l (f', m) = []
      rw [Function.update_of_ne (fun same => Nat.ne_of_gt lt (congrArg Prod.snd same))]
      exact future m lt
  · refine State.Same.local ⟨Function.update_of_ne ef .., Function.update_of_ne ef .., fun e' => ?_, hg f' ef, rfl,
      fun n => Function.update_of_ne (fun same => ef (congrArg Prod.fst same)) ..⟩ (so.fiber f')
    show Function.update s.waiter e w e' = _ ↔ _
    by_cases ee : e' = e
    · subst ee
      rw [Function.update_self]
      constructor
      · intro new
        exact absurd (hw f' new) ef
      · intro old
        exact absurd (so.own h old) ef
    · rw [Function.update_of_ne ee]

/-- A step of the fiber, or of the worker with it. -/
lemma Sound.advance {p q : Phase} {e : Nat} {x : FiberStatus} {w : Option φ} (so : Sound s)
    (h : s.fiber f = .wait p e) (hw : ∀ f', w = some f' → f' = f)
    (fits : ∀ {b st n}, s.status f = st → Fits p (s.waiter e = some f) b st n → Fits q (w = some f) b x n)
    (eq : u.core = (s.touch f (.wait q e) x e w (s.wakes (s.current f)) s.signal).core) : Sound u :=
  (so.touch h hw (fun _ _ _ => rfl) fun b lone ft => ⟨b, lone, fits rfl ft⟩).of_core eq

variable [DecidableEq θ]

omit [DecidableEq θ] in
/-- The fiber of a resumer is in a wait. -/
lemma Sound.busy {k : Wait φ} {late : Bool} {c : Rpc} (so : Sound s) (h : s.signal t = .resume f k late c)
    (ne : c ≠ .idle) : ∃ p e, s.fiber f = .wait p e ∧ Lone .idle (s.resumer f) c ∧
      Fits p (s.waiter e = some f) c (s.status f) (s.wakes (s.current f)).length := by
  obtain ⟨-, ⟨b, lone, at_⟩, -, -, -⟩ := so.fiber f
  have here : s.resumer f t = c := by
    show (s.signal t).at f = c
    rw [h]
    exact if_pos rfl
  have e : c = b := by
    rw [← here] at ne ⊢
    exact lone.eq_of_ne ne
  subst e
  generalize s.fiber f = pc at at_
  generalize s.status f = st at at_ ⊢
  cases at_ with
  | running => exact absurd rfl ne
  | wait _ ft => exact ⟨_, _, rfl, lone, ft⟩

/-- Going on with a call changes its place for one fiber. -/
lemma at_update {d : Call φ} {g : θ → Call φ} (f : φ) :
    (fun t' => (Function.update g t d t').at f) = Function.update (fun t' => (g t').at f) t (d.at f) := by
  funext t'
  by_cases e : t' = t
  · subst e
    rw [Function.update_self, Function.update_self]
  · rw [Function.update_of_ne e, Function.update_of_ne e]

/-- A call on another fiber is nothing to this one. -/
lemma at_other {d : Call φ} (h : (s.signal t).at f' = .idle) (hd : d.at f' = .idle) (t' : θ) :
    (Function.update s.signal t d t').at f' = (s.signal t').at f' := by
  by_cases e : t' = t
  · subst e
    rw [Function.update_self, h, hd]
  · rw [Function.update_of_ne e]

/-- A step of a resumer that has a fiber. -/
lemma Sound.answer {k : Wait φ} {late : Bool} {c r : Rpc} {d : Call φ} {x : FiberStatus} {l : List (Wake φ)}
    (so : Sound s) (h : s.signal t = .resume f k late c) (ne : c ≠ .idle)
    (hd : ∀ f', d.at f' = if f = f' then r else .idle)
    (fits : ∀ {p e st n}, s.fiber f = .wait p e → s.status f = st → (s.wakes (s.current f)).length = n →
      Fits p (s.waiter e = some f) c st n → ∃ p', Fits p' (s.waiter e = some f) r x l.length ∧
        u.core = (s.touch f (.wait p' e) x e (s.waiter e) l (Function.update s.signal t d)).core) : Sound u := by
  obtain ⟨p, e, hf, lone, ft⟩ := so.busy h ne
  obtain ⟨p', ft', eq⟩ := fits hf rfl rfl ft
  refine (so.touch hf (fun f' => so.own hf) (fun f' other => at_other ?_ ?_) fun b lone' _ => ⟨r, ?_, ft'⟩).of_core eq
  · rw [h]
    exact if_neg other.symm
  · rw [hd]
    exact if_neg other.symm
  · rw [at_update, hd, if_pos rfl]
    refine lone.move ?_
    show (s.signal t).at f ≠ .idle
    rw [h]
    show (if f = f then c else .idle) ≠ .idle
    rwa [if_pos rfl]

omit [DecidableEq θ] in
/-- The event that a fiber acquires leaves the queue. -/
lemma Sound.acquire {e : Nat} (so : Sound s) (h : s.fiber f = .running) (mem : e ∈ s.freeq) :
    Sound ({ s with freeq := s.freeq.erase e, serial := Function.update s.serial f (s.serial f + 1) }.goto f
      (.wait .acquired e)) := by
  have unused := so.free mem
  refine ⟨so.events.move (p := none) (q := some f) (by rintro ⟨⟩) (fun r h0 hf => ?_) ?_, fun f' => ?_⟩
  · cases r with
    | none => exact absurd rfl h0
    | some f' => exact congrArg Pc.event (Function.update_of_ne (fun e => hf (congrArg some e)) ..)
  · refine List.Perm.subperm ?_
    show (s.freeq.erase e ++ (Function.update s.fiber f _ f).event).Perm (s.freeq ++ (s.fiber f).event)
    rw [Function.update_self, h]
    show (s.freeq.erase e ++ [e]).Perm (s.freeq ++ [])
    rw [List.append_nil]
    exact (List.perm_append_singleton e _).trans (List.perm_cons_erase mem).symm
  by_cases ef : f' = f
  · subst ef
    obtain ⟨slot, ⟨b, lone, at_⟩, zero, past, future⟩ := so.fiber f'
    generalize hst : s.status f' = st at at_
    rw [h] at at_ slot
    cases at_ with
    | running last =>
    refine ⟨fun e' mine => ?_, ⟨_, lone, ?_⟩, zero, fun m h0 lt => ?_, fun m lt => ?_⟩
    · obtain ⟨p, no⟩ := slot e' mine
      cases no
    · show At (Function.update s.fiber f' _ f') _ _ (s.status f') (Function.update s.serial f' _ f')
        (s.wakes (f', Function.update s.serial f' _ f')).length
      rw [Function.update_self, Function.update_self, hst, future _ (Nat.lt_succ_self _)]
      refine .wait (Nat.succ_pos _) (.acquired ?_)
      show s.waiter e ≠ some f'
      rw [unused]
      exact nofun
    · replace lt : m < Function.update s.serial f' _ f' := lt
      rw [Function.update_self] at lt
      rcases Nat.lt_succ_iff_lt_or_eq.1 lt with lt | rfl
      · exact past m h0 lt
      · exact last h0
    · replace lt : Function.update s.serial f' _ f' < m := lt
      rw [Function.update_self] at lt
      exact future m (Nat.lt_of_succ_lt lt)
  · exact State.Same.local (s := s) ⟨Function.update_of_ne ef .., rfl, fun _ => .rfl, fun _ => rfl,
      Function.update_of_ne ef ..,
      fun _ => rfl⟩ (so.fiber f')

omit [DecidableEq θ] in
/-- The event that a fiber releases goes back to the queue. -/
lemma Sound.release {e : Nat} (so : Sound s) (h : s.fiber f = .wait .woken e) :
    Sound ({ s with freeq := e :: s.freeq }.goto f .running) := by
  refine ⟨so.events.move (p := none) (q := some f) (by rintro ⟨⟩) (fun r h0 hf => ?_) ?_, fun f' => ?_⟩
  · cases r with
    | none => exact absurd rfl h0
    | some f' => exact congrArg Pc.event (Function.update_of_ne (fun e => hf (congrArg some e)) ..)
  · refine List.Perm.subperm ?_
    show (e :: s.freeq ++ (Function.update s.fiber f _ f).event).Perm (s.freeq ++ (s.fiber f).event)
    rw [Function.update_self, h]
    show (e :: s.freeq ++ []).Perm (s.freeq ++ [e])
    rw [List.append_nil]
    exact (List.perm_append_singleton e _).symm
  by_cases ef : f' = f
  · subst ef
    obtain ⟨slot, ⟨b, lone, at_⟩, zero, past, future⟩ := so.fiber f'
    generalize hst : s.status f' = st at at_
    generalize hw : (s.wakes (f', s.serial f')).length = w at at_
    rw [h] at at_ slot
    cases at_ with
    | wait pos ft =>
    cases ft with
    | leaving no | met no => cases no
    | woken out =>
    refine ⟨fun e' mine => ?_, ⟨_, lone, ?_⟩, zero, past, future⟩
    · obtain ⟨p, same⟩ := slot e' mine
      cases same
      exact absurd mine out
    · show At (Function.update s.fiber f' _ f') _ _ (s.status f') _ (s.wakes (f', s.serial f')).length
      rw [Function.update_self, hst, hw]
      exact .running fun _ => rfl
  · exact State.Same.local ⟨Function.update_of_ne ef .., rfl, fun _ => .rfl, fun _ => rfl, rfl, fun _ => rfl⟩
      (so.fiber f')

/-- What begins or ends with no fiber in hand. -/
lemma Sound.idle {d : Call φ} (so : Sound s) (h : ∀ f, (s.signal t).at f = .idle) (hd : ∀ f, d.at f = .idle)
    (eq : u.core = (s.call t d).core) : Sound u := by
  have mid : Sound (s.call t d) := by
    refine ⟨so.events, fun f => ?_⟩
    exact State.Same.local (s := s) ⟨rfl, rfl, fun _ => .rfl, fun t' => at_other (h f) (hd f) t', rfl, fun _ => rfl⟩
      (so.fiber f)
  exact mid.of_core eq

/-- The thread takes the fiber out of `waiter`. -/
lemma Sound.hit {e : Nat} {k : Wait φ} {late : Bool} (so : Sound s) (h : s.signal t = .exchange e k late)
    (hw : s.waiter e = some f) : Sound ((s.setWaiter e none).call t (.resume f k late (.load 0))) := by
  obtain ⟨p, hf⟩ := (so.fiber f).slot e hw
  have here : (s.signal t).at f = .idle := by
    rw [h]
    rfl
  have out : ∀ f' ≠ f, (s.signal t).at f' = .idle := by
    intro f' _
    rw [h]
    rfl
  refine (so.touch (q := p) (x := s.status f) (w := none) (l := s.wakes (s.current f))
    (g := Function.update s.signal t (.resume f k late (.load 0))) hf nofun
    (fun f' other => at_other (out f' other) (if_neg other.symm)) fun b lone ft => ?_).of_core ?_
  · -- nobody has the fiber in hand yet
    have first : b = .idle ∧ Fits p False (.load 0) (s.status f) (s.wakes (s.current f)).length := by
      revert ft
      generalize s.status f = st
      generalize (s.wakes (s.current f)).length = n
      intro ft
      cases ft with
      | leaving lv und =>
        cases und with
        | posted _ => exact ⟨rfl, .leaving lv (.load id)⟩
        | load out | casWants out => exact absurd hw out
      | parked und =>
        cases und with
        | posted _ => exact ⟨rfl, .parked (.load id)⟩
        | load out | casWants out => exact absurd hw out
      | acquired out | cleared out | wants out | met _ out | signaled out | push out | casSuspended out | handed out
      | queued out | woken out => exact absurd hw out
    obtain ⟨rfl, ft'⟩ := first
    refine ⟨.load 0, ?_, by simpa using ft'⟩
    rw [at_update]
    show Lone _ (Function.update (s.resumer f) t (if f = f then _ else _)) _
    rw [if_pos rfl]
    exact lone.enter
  · simp only [State.core, State.touch, State.call, State.setWaiter, ← hf, Function.update_eq_self]

/-- A step keeps the account. -/
lemma Sound.step (so : Sound s) (st : Step s a u) : Sound u := by
  cases st with
  | acquire h mem => exact so.acquire h mem
  | @clear f e h =>
    refine so.advance (q := .cleared) (x := s.status f) (w := none) h nofun (fun hs ft => ?_) ?_
    · cases ft with
      | acquired => exact hs ▸ .cleared nofun
      | leaving no | met no => cases no
    · simp only [State.core, State.touch, State.goto, State.setWaiter, Function.update_eq_self]
  | @want f e h =>
    refine so.advance (q := .wants) (x := .WANTS_SUSPEND) (w := s.waiter e) h (fun f' => so.own h) (fun hs ft => ?_) ?_
    · cases ft with
      | cleared out => exact .wants out
      | leaving no | met no => cases no
    · simp only [State.core, State.touch, State.goto, State.setStatus, Function.update_eq_self]
  | @publish f e h =>
    refine so.advance (q := .published) (x := s.status f) (w := some f) h (fun f' e => (Option.some.inj e).symm)
      (fun hs ft => ?_) ?_
    · cases ft with
      | wants => exact hs ▸ .leaving .published (.posted rfl)
      | leaving no | met no => cases no
    · simp only [State.core, State.touch, State.goto, State.setWaiter, Function.update_eq_self]
  | @arm f e h =>
    refine so.advance (q := .armed) (x := s.status f) (w := s.waiter e) h (fun f' => so.own h) (fun hs ft => ?_) ?_
    · cases ft with
      | leaving _ und => exact hs ▸ .leaving .armed und
      | met _ out => exact hs ▸ .met .armed out
    · simp only [State.core, State.touch, State.goto, Function.update_eq_self]
  | @switchOut f e h =>
    refine so.advance (q := .back) (x := s.status f) (w := s.waiter e) h (fun f' => so.own h) (fun hs ft => ?_) ?_
    · cases ft with
      | leaving _ und => exact hs ▸ .leaving .back und
      | met _ out => exact hs ▸ .met .back out
    · simp only [State.core, State.touch, State.goto, Function.update_eq_self]
  | @back f e h _ _ =>
    refine so.advance (q := .commit) (x := s.status f) (w := s.waiter e) h (fun f' => so.own h) (fun hs ft => ?_) ?_
    · cases ft with
      | leaving _ und => exact hs ▸ .leaving .commit und
      | met _ out => exact hs ▸ .met .commit out
    · simp only [State.core, State.touch, State.goto, Function.update_eq_self]
  | @commit f e h wants =>
    refine so.advance (q := .parked) (x := .SUSPENDED) (w := s.waiter e) h (fun f' => so.own h) (fun hs ft => ?_) ?_
    · cases ft with
      | leaving _ und => exact .parked und
      | met => cases wants.symm.trans hs
    · simp only [State.core, State.touch, State.goto, State.setStatus, Function.update_eq_self]
  | @commitFails f e h wants =>
    refine so.advance (q := if s.status f = .SUSPEND_SIGNALED then .signaled else .parked) (x := s.status f)
      (w := s.waiter e) h (fun f' => so.own h) (fun hs ft => ?_) ?_
    · cases ft with
      | leaving => exact absurd hs wants
      | met _ out =>
        rw [hs, if_pos rfl]
        exact .signaled out
    · simp only [State.core, State.touch, State.goto, Function.update_eq_self]
  | @signaled f e h =>
    refine so.advance (q := .push) (x := .READY) (w := s.waiter e) h (fun f' => so.own h) (fun hs ft => ?_) ?_
    · cases ft with
      | signaled out => exact .push out
      | leaving no | met no => cases no
    · simp only [State.core, State.touch, State.goto, State.setStatus, Function.update_eq_self]
  | @push f e h =>
    refine so.advance (q := .queued) (x := s.status f) (w := s.waiter e) h (fun f' => so.own h) (fun hs ft => ?_) ?_
    · cases ft with
      | push out => exact hs ▸ .queued out
      | leaving no | met no => cases no
    · simp only [State.core, State.touch, State.goto, Function.update_eq_self]
  | @take f e h =>
    refine so.advance (q := .woken) (x := .RUNNING) (w := s.waiter e) h (fun f' => so.own h) (fun hs ft => ?_) ?_
    · cases ft with
      | queued out => exact .woken out
      | leaving no | met no => cases no
    · simp only [State.core, State.touch, State.goto, State.setStatus, Function.update_eq_self]
  | release h => exact so.release h
  | call h _ =>
    refine so.idle ?_ (fun _ => rfl) rfl
    intro f
    rw [h]
    rfl
  | miss h _ =>
    refine so.idle (d := .idle) ?_ (fun _ => rfl) rfl
    intro f
    rw [h]
    rfl
  | hit h hw => exact so.hit h hw
  | @load t f k late n h _ =>
    refine so.answer (d := .resume f k late (.resolve n (s.status f))) (x := s.status f) (l := s.wakes (s.current f)) h
      nofun (fun f' => rfl) fun {p e st w} hf hs hl ft => ⟨p, ?_, ?_⟩
    · rw [hs, hl]
      cases ft with
      | leaving lv und =>
        cases und with
        | load out => exact .leaving lv (.casWants out)
      | parked und =>
        cases und with
        | load out => exact .casSuspended out
    · simp only [State.core, State.touch, State.call, ← hf, Function.update_eq_self]
  | @loadOther t f k late n h no no' =>
    -- the status is one of the two
    refine so.answer (d := .idle) (r := .idle) (x := s.status f) (l := s.wakes (s.current f)) h nofun
      (fun f' => (ite_self _).symm) fun {p e st w} hf hs hl ft => ?_
    cases ft with
    | leaving => exact absurd hs no'
    | parked => exact absurd hs no
  | @casSuspended t f k late h hs =>
    refine so.answer (d := .resume f k late .push) (x := .READY) (l := ⟨k, late⟩ :: s.wakes (s.current f)) h
      nofun (fun f' => rfl) fun {p e st w} hf hs' hl ft => ?_
    cases ft with
    | leaving _ und => cases und
    | parked und => cases und
    | casSuspended out =>
    refine ⟨.handed, ?_, ?_⟩
    · rw [List.length_cons, hl]
      exact .handed out
    · simp only [State.core, State.touch, State.call, State.goto, State.wake, State.setStatus, State.current, hf,
        Pc.unpark, Function.update_eq_self]
  | @casSuspendedFails t f k late h hs =>
    refine so.answer (d := .idle) (r := .idle) (x := s.status f) (l := s.wakes (s.current f)) h nofun
      (fun f' => (ite_self _).symm) fun {p e st w} hf hs' hl ft => ?_
    cases ft with
    | leaving _ und => cases und
    | parked und => cases und
    | casSuspended => exact absurd hs' hs
  | @casWants t f k late n h hs =>
    refine so.answer (d := .idle) (r := .idle) (x := .SUSPEND_SIGNALED) (l := ⟨k, late⟩ :: s.wakes (s.current f)) h
      nofun (fun f' => (ite_self _).symm) fun {p e st w} hf hs' hl ft => ?_
    cases ft with
    | parked => cases hs.symm.trans hs'
    | leaving lv und =>
    cases und with
    | casWants out =>
    refine ⟨p, ?_, ?_⟩
    · rw [List.length_cons, hl]
      exact .met lv out
    · simp only [State.core, State.touch, State.call, State.finish, State.wake, State.setStatus, State.current, ← hf,
        Function.update_eq_self]
  | @casWantsFails t f k late n h hs =>
    refine so.answer (d := .resume f k late (.load (n + 1))) (x := s.status f) (l := s.wakes (s.current f)) h nofun
      (fun f' => rfl) fun {p e st w} hf hs' hl ft => ⟨p, ?_, ?_⟩
    · rw [hs', hl]
      cases ft with
      | leaving => exact absurd hs' hs
      | parked und =>
        cases und with
        | casWants out => exact .parked (.load out)
    · simp only [State.core, State.touch, State.call, ← hf, Function.update_eq_self]
  | @requeue t f k late h =>
    refine so.answer (d := .idle) (r := .idle) (x := s.status f) (l := s.wakes (s.current f)) h nofun
      (fun f' => (ite_self _).symm) fun {p e st w} hf hs hl ft => ?_
    cases ft with
    | leaving _ und => cases und
    | parked und => cases und
    | handed out =>
    refine ⟨.queued, ?_, ?_⟩
    · rw [hs, hl]
      exact .queued out
    · simp only [State.core, State.touch, State.call, State.finish, State.goto, hf, Pc.requeue, Function.update_eq_self]

/-- The account holds in every state of a run. -/
lemma Sound.reached {n : Nat} {ok : State φ θ → Label θ → Prop} (rn : Runs Step ok (State.start n) s) : Sound s :=
  rn.invariant (Sound.start n) fun so _ st => so.step st

end JLib.DirectEvent
