import JLib.Semaphore.Model

/-!
# Semaphore: custody of the waiters

A queued party is in one place: in `waiters`, or in the local variables of the one `Signal` or
`CancelWaiters` that popped it, until that call resumes it. Its result slot is written by that call
only. `Inv` says so and, with it, what each party's permit account is at each program counter; it is
kept by every step, whatever the step sees of the world.
-/

namespace JLib.Semaphore
open LTS

variable {T : Type} [DecidableEq T]

/-- The record of a waiter's party: switched out, nothing consumed, and the slot reads `r`. -/
def Parked (w : Waiter T) (r : WaitResult) (h : Thread T) : Prop :=
  h.pc = .parked w.slot ∧ h.got = 0 ∧ h.slot = r

/-- What a call at `pc` knows of a waiter in its hands. -/
def Pc.Knows (pc : Pc T) (v : Waiter T) (h : Thread T) : Prop :=
  match pc with
  | .sigTest _ _ => Parked v .ok h
  | .sigWrite _ _ skip => Parked v .ok h ∧ (skip → v.slot)
  | .sigResume _ _ skip => Parked v (if skip then .cancelled else .ok) h ∧ (skip → v.slot)
  | .canWrite _ _ _ _ => Parked v .ok h ∧ v.slot
  | .canResume _ w _ _ => Parked v (if v = w then .cancelled else .ok) h ∧ v.slot
  | _ => False

/-- The semaphore's way of handing waiters on. -/
def handoff (T : Type) [DecidableEq T] : Handoff T (Waiter T) (Thread T) where
  party := Waiter.party
  hand h := h.pc.hand
  Parked h := ∃ b, h.pc = .parked b
  Waits w h := Parked w .ok h
  Knows h w k := h.pc.Knows w k
  hand_of_parked := by
    rintro h ⟨b, e⟩
    rw [e]
    rfl
  parked_of_waits pk := ⟨_, pk.1⟩
  parked_of_knows := by
    intro h w k _ kn
    cases e : h.pc with
    | sigTest _ _ => rw [e] at kn; exact ⟨_, kn.1⟩
    | sigWrite _ _ _ => rw [e] at kn; exact ⟨_, kn.1.1⟩
    | sigResume _ _ _ => rw [e] at kn; exact ⟨_, kn.1.1⟩
    | canWrite _ _ _ _ => rw [e] at kn; exact ⟨_, kn.1.1⟩
    | canResume _ _ _ _ => rw [e] at kn; exact ⟨_, kn.1.1⟩
    | _ => rw [e] at kn; exact kn.elim

/-- A `Signal` ended well: it went to a waiter that reads `ok`, or to the counter, or the counter
was at its maximum. -/
def Outcome.Ok (max : Int) : Outcome T → Prop
  | .granted _ r => r = .ok
  | .incremented => True
  | .dropped p => p = max

/-- A party's permit account and, inside `Signal`, its log. -/
def Thread.Ok (max : Int) (h : Thread T) : Prop :=
  match h.pc with
  | .ret (.res .ok) => h.got = 1
  | .ret (.res .cancelled) | .ret .settled => h.got = 0
  | .ret .signalled => ∃ o, h.log = [o] ∧ o.Ok max
  | .check _ | .enter _ | .bareTry _ | .bareCheck | .tryEnter | .asyncEnter _ =>
    h.got = 0 ∧ h.slot = .ok
  | .awake sl => (h.got = 1 ∧ h.slot = .ok) ∨ (h.got = 0 ∧ h.slot = .cancelled ∧ sl = true)
  | .asyncWrite _ r => h.got = if r = .ok then 1 else 0
  | .sigEnter | .sigTest .. | .sigWrite .. | .sigResume .. | .sigRetake _ => h.log = []
  | _ => True

/-- The custody invariant. -/
structure Inv (s : St T) : Prop where
  cus : (handoff T).Inv s.sem.waiters s.th
  ok : ∀ t, (s.th t).Ok s.sem.maxPermits
  bound : s.sem.permits ≤ s.sem.maxPermits

/-- A party's record is not the semaphore. -/
@[simp] lemma St.set_sem (s : St T) (t : T) (h : Thread T) : (s.set t h).sem = s.sem := rfl
/-- A party's place is not the semaphore. -/
@[simp] lemma St.goto_sem (s : St T) (t : T) (p : Pc T) : (s.goto t p).sem = s.sem := rfl
omit [DecidableEq T] in
/-- The semaphore is the new one. -/
@[simp] lemma St.withSem_sem (s : St T) (m : Sem T) : (s.withSem m).sem = m := rfl
omit [DecidableEq T] in
/-- The semaphore is no party. -/
@[simp] lemma St.withSem_th (s : St T) (m : Sem T) : (s.withSem m).th = s.th := rfl
/-- One party's record is exchanged. -/
@[simp] lemma St.set_th (s : St T) (t : T) (h : Thread T) :
    (s.set t h).th = Function.update s.th t h := rfl
/-- One party's place is exchanged. -/
@[simp] lemma St.goto_th (s : St T) (t : T) (p : Pc T) :
    (s.goto t p).th = Function.update s.th t { s.th t with pc := p } := rfl

/-- Writing a slot moves nobody. -/
lemma St.writeSlot_pc (s : St T) (w : Waiter T) (r : WaitResult) (i : T) :
    ((s.writeSlot w r).th i).pc = (s.th i).pc := by
  by_cases e : i = w.party
  · subst e
    simp [St.writeSlot]
  · simp [St.writeSlot, e]

/-- A call lets a waiter run again and moves on. -/
lemma St.resume_goto {s : St T} {w : Waiter T} {t : T} (ne : w.party ≠ t) (p : Pc T) :
    (s.resume w).goto t p =
      (s.set w.party { s.th w.party with pc := .awake w.slot }).set t { s.th t with pc := p } := by
  unfold St.resume St.goto
  rw [St.set_th, Function.update_of_ne ne.symm]

/-- A grant to another party, as one exchange of its record and a step of the granter. -/
lemma St.grant_eq {s : St T} {w : Waiter T} {t : T} (ne : w.party ≠ t) :
    s.grant t w =
      (s.set w.party
        { s.th w.party with pc := .awake w.slot, got := (s.th w.party).got + 1 }).set t
        { s.th t with
          pc := .ret .signalled, log := (s.th t).log ++ [.granted w (s.th w.party).slot] } := by
  simp [St.grant, St.set, ne, Function.update_comm ne]

omit [DecidableEq T] in
/-- A pass takes cancellable waiters only. -/
lemma Sem.cancelPass_slot {m : Sem T} {c : World T} {tok : CancelToken} {w : Waiter T}
    (h : w ∈ (m.cancelPass c tok).1) : w.slot := by
  have := eject_victims_match _ h
  simp_all

omit [DecidableEq T] in
/-- A pass loses no waiter. -/
lemma Sem.cancelPass_perm (m : Sem T) (c : World T) (tok : CancelToken) :
    ((m.cancelPass c tok).1 ++ (m.cancelPass c tok).2.waiters).Perm m.waiters :=
  eject_perm _ _ _

omit [DecidableEq T] in
/-- A `CancelWaiters` that goes on has its other victims. -/
lemma Pc.hand_canNext (tok : CancelToken) (f : Bool) (ws : List (Waiter T)) :
    (Pc.canNext tok f ws).hand = ws := by
  cases ws with
  | nil => cases f <;> rfl
  | cons w ws => rfl

omit [DecidableEq T] in
/-- The account of a party inside `CancelWaiters` is no matter. -/
lemma Thread.ok_canNext {h : Thread T} {max : Int} (tok : CancelToken) (f : Bool)
    (ws : List (Waiter T)) : Thread.Ok max { h with pc := .canNext tok f ws } := by
  cases ws with
  | nil => cases f <;> trivial
  | cons w ws => trivial

/-- Running with empty hands. -/
def Pc.free : Pc T → Bool
  | .parked _ => false
  | pc => pc.hand.isEmpty

namespace Inv
variable {s s' : St T} {t : T} {p pc : Pc T}

/-- Who is at another place is not parked. -/
lemma not_parked (h : (s.th t).pc = p) (hp : ∀ b, p ≠ .parked b) :
    ¬(handoff T).Parked (s.th t) := by
  rintro ⟨b, e⟩
  exact hp b (h.symm.trans e)

/-- Who runs with empty hands is not parked. -/
lemma run_of_free (h : (s.th t).pc = p) (fr : p.free) : ¬(handoff T).Parked (s.th t) := by
  apply not_parked h
  rintro b rfl
  cases fr

/-- Who runs with empty hands has no waiter. -/
lemma hand_of_free (h : (s.th t).pc = p) (fr : p.free) : (handoff T).hand (s.th t) = [] := by
  show (s.th t).pc.hand = []
  rw [h]
  cases p with
  | parked _ => rfl
  | _ => exact List.isEmpty_iff.1 fr

/-- A party with empty hands moves on; the queue is untouched. -/
lemma stepLocal (inv : Inv s) {m : Sem T} {h : Thread T} (hpc : (s.th t).pc = p) (fr : p.free)
    (h1 : h.pc.hand = []) (hw : m.waiters = s.sem.waiters)
    (hmax : m.maxPermits = s.sem.maxPermits) (hb : m.permits ≤ s.sem.maxPermits)
    (hok : h.Ok s.sem.maxPermits) : Inv ((s.withSem m).set t h) := by
  refine ⟨?_, ?_, hmax ▸ hb⟩
  · show (handoff T).Inv m.waiters _
    rw [hw]
    exact inv.cus.move (run_of_free hpc fr) (hand_of_free hpc fr) h1
  · show ∀ i, Thread.Ok m.maxPermits _
    rw [hmax]
    exact (Function.forall_update_iff _ _).2 ⟨hok, fun i _ => inv.ok i⟩

/-- A party with empty hands moves on and touches nothing else. -/
lemma stepGoto (inv : Inv s) (hpc : (s.th t).pc = p) (fr : p.free) (h1 : pc.hand = [])
    (hok : Thread.Ok s.sem.maxPermits { s.th t with pc := pc }) : Inv (s.goto t pc) :=
  inv.stepLocal (m := s.sem) hpc fr h1 rfl rfl inv.bound hok

/-- A party takes a permit. -/
lemma stepTake (inv : Inv s) (hpc : (s.th t).pc = p) (fr : p.free) (h1 : pc.hand = [])
    (hok : Thread.Ok s.sem.maxPermits { s.th t with pc := pc, got := (s.th t).got + 1 }) :
    Inv (s.takeFor t pc) := by
  have hb : s.sem.take.permits ≤ s.sem.maxPermits := by
    have := inv.bound
    simp only [Sem.take]
    omega
  exact inv.stepLocal hpc fr h1 rfl rfl hb hok

/-- A `Signal` puts its permit back. -/
lemma stepPut (inv : Inv s) (hpc : (s.th t).pc = p) (fr : p.free) (hlog : (s.th t).log = []) :
    Inv (s.putBack t) := by
  have hb := inv.bound
  apply inv.stepLocal hpc fr rfl
  · unfold Sem.put
    split <;> rfl
  · unfold Sem.put
    split <;> rfl
  · unfold Sem.put
    split
    · show s.sem.permits + 1 ≤ _
      omega
    · exact hb
  · refine ⟨s.putOutcome, by simp [hlog], ?_⟩
    unfold St.putOutcome
    split
    · trivial
    · show s.sem.permits = s.sem.maxPermits
      omega

/-- A party queues itself and switches out. -/
lemma stepPush (inv : Inv s) {kind : WaiterKind} {sl : Bool} {tok : CancelToken}
    (hpc : (s.th t).pc = p) (fr : p.free) (hok : (s.th t).got = 0 ∧ (s.th t).slot = .ok) :
    Inv ((s.withSem (s.sem.push t kind sl tok)).goto t (.parked sl)) := by
  refine ⟨?_, ?_, inv.bound⟩
  · exact inv.cus.push (run_of_free hpc fr) (hand_of_free hpc fr) rfl ⟨rfl, hok.1, hok.2⟩
  · exact (Function.forall_update_iff _ _).2 ⟨trivial, fun i _ => inv.ok i⟩

/-- `Signal` pops the head of the queue. -/
lemma stepPop (inv : Inv s) {w : Waiter T} {ws : List (Waiter T)} (hpc : (s.th t).pc = p)
    (fr : p.free) (hlog : (s.th t).log = []) (hq : s.sem.waiters = w :: ws) :
    Inv ((s.withSem { s.sem with waiters := ws }).goto t (.sigPop w ws)) := by
  refine ⟨?_, ?_, inv.bound⟩
  · apply inv.cus.take (run_of_free hpc fr) (hand_of_free hpc fr)
    · rw [hq]
      exact .refl _
    · exact fun v _ k hk => hk
  · exact (Function.forall_update_iff _ _).2 ⟨hlog, fun i _ => inv.ok i⟩

/-- What a call relies on about a waiter in its hands is so. -/
lemma knows (inv : Inv s) {w : Waiter T} (hpc : (s.th t).pc = p) (hw : w ∈ p.hand) :
    p.Knows w (s.th w.party) := by
  subst hpc
  exact inv.cus.held t w hw

/-- The party of a waiter in hand is switched out. -/
lemma parked (inv : Inv s) {w : Waiter T} (hpc : (s.th t).pc = p) (hw : w ∈ p.hand) :
    (s.th w.party).pc = .parked w.slot := by
  have hk := inv.knows hpc hw
  cases p with
  | sigTest _ _ => exact hk.1
  | sigWrite _ _ _ | sigResume _ _ _ | canWrite _ _ _ _ | canResume _ _ _ _ => exact hk.1.1
  | _ => exact hk.elim

/-- Nobody has itself in its hands. -/
lemma ne_of_hand (inv : Inv s) {w : Waiter T} (hpc : (s.th t).pc = p) (hw : w ∈ p.hand) :
    w.party ≠ t := by
  subst hpc
  exact inv.cus.ne_of_held (Handoff.Inv.run_of_hand hw) hw

/-- A call writes to the slot of a waiter in its hands. -/
lemma stepWrite (inv : Inv s) {w : Waiter T} {r : WaitResult} (hpc : (s.th t).pc = p)
    (hw : w ∈ p.hand) (h1 : pc.hand = p.hand)
    (kn : pc.Knows w { s.th w.party with slot := if w.slot then r else (s.th w.party).slot })
    (kn' : ∀ v ∈ pc.hand, v ≠ w → ∀ k, p.Knows v k → pc.Knows v k)
    (hok : Thread.Ok s.sem.maxPermits { s.th t with pc := pc }) :
    Inv ((s.writeSlot w r).goto t pc) := by
  have ne := inv.ne_of_hand hpc hw
  subst hpc
  obtain ⟨b, pk⟩ := inv.cus.parked_of_held hw
  unfold St.writeSlot St.goto
  rw [St.set_th, Function.update_of_ne ne.symm]
  have sub : pc.hand.Sublist (s.th t).pc.hand := by rw [h1]
  refine ⟨inv.cus.touch hw sub ?_ (fun _ => kn) kn', ?_, inv.bound⟩
  · show (s.th w.party).pc.hand = []
    rw [show (s.th w.party).pc = _ from pk]
    rfl
  · refine (Function.forall_update_iff _ _).2 ⟨hok, fun i _ => ?_⟩
    refine (Function.forall_update_iff _ _).2 ⟨?_, fun i _ => inv.ok i⟩ i
    simp [Thread.Ok, show (s.th w.party).pc = _ from pk]

/-- A call lets the first waiter in its hands run again. -/
lemma stepRelease (inv : Inv s) {w : Waiter T} {ws : List (Waiter T)} {h h' : Thread T}
    (hpc : (s.th t).pc = p) (h0 : p.hand = w :: ws) (h1 : h.pc.hand = ws) (h2 : h'.pc.hand = [])
    (kn : ∀ v ∈ ws, v ≠ w → ∀ k, p.Knows v k → h.pc.Knows v k)
    (hok : h.Ok s.sem.maxPermits) (hok' : h'.Ok s.sem.maxPermits) :
    Inv ((s.set w.party h').set t h) := by
  subst hpc
  refine ⟨inv.cus.release h0 h1 h2 kn, ?_, inv.bound⟩
  refine (Function.forall_update_iff _ _).2 ⟨hok, fun i _ => ?_⟩
  exact (Function.forall_update_iff _ _).2 ⟨hok', fun i _ => inv.ok i⟩ i

/-- A pass of `CancelWaiters` takes its victims into its hands. -/
lemma stepPass (inv : Inv s) {c : World T} {tok : CancelToken}
    (h0 : (s.th t).pc = .canEnter tok) :
    Inv ((s.withSem (s.sem.cancelPass c tok).2).goto t
      (.canNext tok (kBuf ≤ (s.sem.cancelPass c tok).1.length) (s.sem.cancelPass c tok).1)) := by
  refine ⟨?_, ?_, inv.bound⟩
  · have hand := Pc.hand_canNext tok (kBuf ≤ (s.sem.cancelPass c tok).1.length)
      (s.sem.cancelPass c tok).1
    apply inv.cus.take (run_of_free h0 rfl) (hand_of_free h0 rfl)
    · show (Pc.hand _ ++ _).Perm _
      rw [hand]
      exact s.sem.cancelPass_perm c tok
    · intro v hv k hk
      have hv' : v ∈ (s.sem.cancelPass c tok).1 := hand ▸ hv
      have hsl := Sem.cancelPass_slot hv'
      show (Pc.canNext _ _ _).Knows _ _
      cases e : (s.sem.cancelPass c tok).1 with
      | nil => rw [e] at hv'; cases hv'
      | cons u us => exact ⟨hk, hsl⟩
  · exact (Function.forall_update_iff _ _).2 ⟨Thread.ok_canNext _ _ _, fun i _ => inv.ok i⟩

/-- The invariant holds when nobody is inside a call. -/
lemma init {m : Sem T} (hw : m.waiters = []) (hb : m.permits ≤ m.maxPermits) :
    Inv (Semaphore.init m) := by
  refine ⟨?_, fun _ => trivial, hb⟩
  show (handoff T).Inv m.waiters _
  rw [hw]
  exact Handoff.Inv.empty fun _ => rfl

/-- Every step keeps the invariant. -/
theorem step {c : World T} (inv : Inv s) (st : Step c s t s') : Inv s' := by
  have ok := inv.ok t
  cases st with
  | call op h =>
    have hl := inv.stepLocal (t := t) (m := s.sem) (h := { pc := op.entry }) h rfl
    cases op <;> exact hl rfl rfl rfl inv.bound (by simp [Thread.Ok, Op.entry])
  | done h => exact inv.stepGoto h rfl rfl trivial
  | checkCancelled h _ =>
    simp only [Thread.Ok, h] at ok
    exact inv.stepGoto h rfl rfl ok.1
  | @checkPass b h _ =>
    simp only [Thread.Ok, h] at ok
    cases b <;> exact inv.stepGoto h rfl rfl ok
  | enterTake h _ =>
    simp only [Thread.Ok, h] at ok
    exact inv.stepTake h rfl rfl (by simp [Thread.Ok, ok])
  | enterCancelled h _ _ =>
    simp only [Thread.Ok, h] at ok
    exact inv.stepGoto h rfl rfl ok.1
  | enterPush h _ _ =>
    simp only [Thread.Ok, h] at ok
    exact inv.stepPush h rfl ok
  | awake h =>
    simp only [Thread.Ok, h] at ok
    apply inv.stepGoto h rfl rfl
    rcases ok with ⟨hg, hs⟩ | ⟨hg, hs, rfl⟩ <;> simp [Thread.Ok, hg, hs]
  | bareTake h _ =>
    simp only [Thread.Ok, h] at ok
    exact inv.stepTake h rfl rfl (by simp [Thread.Ok, ok])
  | bareFail h _ =>
    simp only [Thread.Ok, h] at ok
    exact inv.stepGoto h rfl rfl ok
  | bareCancelled h _ =>
    simp only [Thread.Ok, h] at ok
    exact inv.stepGoto h rfl rfl ok.1
  | bareAgain h _ =>
    simp only [Thread.Ok, h] at ok
    exact inv.stepGoto h rfl rfl ok
  | tryTake h _ =>
    simp only [Thread.Ok, h] at ok
    exact inv.stepTake h rfl rfl (by simp [Thread.Ok, ok])
  | tryFail h _ => exact inv.stepGoto h rfl rfl trivial
  | asyncTake h _ =>
    simp only [Thread.Ok, h] at ok
    exact inv.stepTake h rfl rfl (by simp [Thread.Ok, ok])
  | asyncCancelled h _ _ =>
    simp only [Thread.Ok, h] at ok
    exact inv.stepGoto h rfl rfl (by simp [Thread.Ok, ok])
  | asyncPush h _ _ =>
    simp only [Thread.Ok, h] at ok
    exact inv.stepPush h rfl ok
  | @asyncWrite sl r h =>
    simp only [Thread.Ok, h] at ok
    apply inv.stepLocal (m := s.sem) h rfl rfl rfl rfl inv.bound
    cases sl <;> cases r <;> simp_all [Thread.Ok]
  | sigEmpty h _ =>
    simp only [Thread.Ok, h] at ok
    exact inv.stepPut h rfl ok
  | sigPop h hq =>
    simp only [Thread.Ok, h] at ok
    exact inv.stepPop h rfl ok hq
  | @sigTest w e h =>
    simp only [Thread.Ok, h] at ok
    refine ⟨?_, (Function.forall_update_iff _ _).2 ⟨ok, fun i _ => inv.ok i⟩, inv.bound⟩
    apply inv.cus.keep (w := w)
    · show w ∈ (s.th t).pc.hand
      simp [h, Pc.hand]
    · show _ = (s.th t).pc.hand
      rw [h]
      rfl
    · intro v hv k (hk : (s.th t).pc.Knows v k)
      rw [h] at hk
      rw [List.mem_singleton.1 hv] at hk ⊢
      exact ⟨hk, fun hs => (Bool.and_eq_true_iff.1 hs).1⟩
  | @sigWrite w e skip h =>
    simp only [Thread.Ok, h] at ok
    obtain ⟨⟨hpc, hgot, hslot⟩, hsk⟩ := inv.knows h (List.mem_singleton_self w)
    refine inv.stepWrite h (List.mem_singleton_self w) rfl ⟨⟨hpc, hgot, ?_⟩, hsk⟩ ?_ ok
    · cases skip <;> simp_all
    · exact fun v hv nv => absurd (List.mem_singleton.1 hv) nv
  | @sigGrant w e h =>
    simp only [Thread.Ok, h] at ok
    have ne := inv.ne_of_hand h (List.mem_singleton_self w)
    obtain ⟨⟨hpc, hgot, hslot⟩, -⟩ := inv.knows h (List.mem_singleton_self w)
    rw [St.grant_eq ne]
    refine inv.stepRelease h rfl rfl rfl (fun v hv => by cases hv) ?_ ?_
    · exact ⟨.granted w (s.th w.party).slot, by simp [ok], by simpa [Outcome.Ok] using hslot⟩
    · exact .inl ⟨by simp [hgot], by simpa using hslot⟩
  | @sigSkip w e h =>
    simp only [Thread.Ok, h] at ok
    have ne := inv.ne_of_hand h (List.mem_singleton_self w)
    obtain ⟨⟨hpc, hgot, hslot⟩, hsk⟩ := inv.knows h (List.mem_singleton_self w)
    rw [St.resume_goto ne]
    refine inv.stepRelease h rfl rfl rfl (fun v hv => by cases hv) ok ?_
    exact .inr ⟨hgot, by simpa using hslot, hsk rfl⟩
  | sigBack h _ =>
    simp only [Thread.Ok, h] at ok
    exact inv.stepPut h rfl ok
  | sigNext h hq =>
    simp only [Thread.Ok, h] at ok
    exact inv.stepPop h rfl ok hq
  | canPass h => exact inv.stepPass h
  | @canWrite tok w ws f h =>
    have hw : w ∈ Pc.hand (.canWrite tok w ws f) := List.mem_cons_self
    obtain ⟨⟨hpc, hgot, hslot⟩, hsl⟩ := inv.knows h hw
    refine inv.stepWrite h hw rfl ⟨⟨hpc, hgot, by simp [hsl]⟩, hsl⟩ ?_ trivial
    intro v _ nv k hk
    simpa [Pc.Knows, nv] using hk
  | @canResume tok w ws f h =>
    have hw : w ∈ Pc.hand (.canResume tok w ws f) := List.mem_cons_self
    have ne := inv.ne_of_hand h hw
    obtain ⟨⟨hpc, hgot, hslot⟩, hsl⟩ := inv.knows h hw
    rw [St.resume_goto ne]
    refine inv.stepRelease h rfl (Pc.hand_canNext tok f ws) rfl ?_ (Thread.ok_canNext _ _ _) ?_
    · intro v hv nv k hk
      cases ws with
      | nil => cases hv
      | cons u us => simpa [Pc.Knows, Pc.canNext, nv] using hk
    · exact .inr ⟨hgot, by simpa using hslot, hsl⟩

end Inv
end JLib.Semaphore
