import JLib.Mutex.Model

/-!
# Mutex: custody of the waiters

A queued party is in `waiters` or in the local variables of the one `Unlock` or `CancelWaiters` that
took it out, until that call resumes it, and only that call writes its result slot. `Thread.Ok` is
what a party's own record says about whether its call was given the lock.
-/

namespace JLib.Mutex
open LTS

variable {T : Type} [DecidableEq T]

/-- The record of a waiter's party: switched out, without the lock, and the slot reads `r`. -/
def Parked (w : Waiter T) (r : WaitResult) (h : Thread T) : Prop :=
  h.pc = .parked w.slot ∧ h.got = false ∧ h.slot = r

/-- What a call at `pc` knows of a waiter in its hands. -/
def Pc.Knows (pc : Pc T) (v : Waiter T) (h : Thread T) : Prop :=
  match pc with
  | .unlTest _ | .unlWrite _ | .unlRecord _ | .unlResume _ => Parked v .ok h
  | .unlSkip _ | .canWrite _ _ _ _ => Parked v .ok h ∧ v.slot
  | .unlSkipResume _ => Parked v .cancelled h ∧ v.slot
  | .canResume _ w _ _ => Parked v (if v = w then .cancelled else .ok) h ∧ v.slot
  | _ => False

/-- The mutex's way of handing waiters on. -/
def handoff (T : Type) [DecidableEq T] : Handoff T (Waiter T) (Thread T) where
  party := Waiter.party
  hand h := h.pc.hand
  Parked h := ∃ b, h.pc = .parked b
  Waits w h := Parked w .ok h
  Knows h w k := h.pc.Knows w k
  hand_of_parked := by
    rintro h ⟨b, e⟩
    rw [e]
    rfl
  parked_of_waits pk := ⟨_, pk.1⟩
  parked_of_knows := by
    intro h w k _ kn
    cases e : h.pc with
    | unlTest _ | unlWrite _ | unlRecord _ | unlResume _ => rw [e] at kn; exact ⟨_, kn.1⟩
    | unlSkip _ | unlSkipResume _ => rw [e] at kn; exact ⟨_, kn.1.1⟩
    | canWrite _ _ _ _ | canResume _ _ _ _ => rw [e] at kn; exact ⟨_, kn.1.1⟩
    | _ => rw [e] at kn; exact kn.elim

/-- Whether the current call was given the lock. -/
def Thread.Ok (h : Thread T) : Prop :=
  match h.pc with
  | .ret (.res .ok) | .record | .asyncRecord _ | .asyncWrite _ => h.got = true
  | .bareRecord | .bareRelease | .bareDeregister => h.got = true
  | .ret (.res .cancelled) | .cancelTry | .cancelCheck => h.got = false
  | .check _ | .enter _ | .asyncEnter _ _ => h.got = false ∧ h.slot = .ok
  | .awake _ sl => (h.got = true ∧ h.slot = .ok) ∨ (h.got = false ∧ h.slot = .cancelled ∧ sl = true)
  | _ => True

/-- Running with empty hands. -/
def Pc.free : Pc T → Bool
  | .parked _ => false
  | pc => pc.hand.isEmpty

section Local
variable {s : St T} {c : World T} {t : T} {m : Mtx T} {h k : Thread T} {p : Pc T}

/-- Who runs with empty hands is not parked. -/
lemma run_of_free (hpc : h.pc = p) (fr : p.free) : ¬(handoff T).Parked h := by
  rintro ⟨b, e⟩
  rw [← hpc, show h.pc = .parked b from e] at fr
  cases fr

/-- Who runs with empty hands has no waiter. -/
lemma hand_of_free (hpc : h.pc = p) (fr : p.free) : (handoff T).hand h = [] := by
  show h.pc.hand = []
  rw [hpc]
  cases p with
  | parked _ => rfl
  | _ => exact List.isEmpty_iff.1 fr

omit [DecidableEq T] in
/-- A `CancelWaiters` that goes on has its other victims. -/
lemma Pc.hand_canNext (tok : CancelToken) (f : Bool) (ws : List (Waiter T)) :
    (Pc.canNext tok f ws).hand = ws := by
  cases ws with
  | nil => cases f <;> rfl
  | cons w ws => rfl

omit [DecidableEq T] in
/-- A pass takes cancellable waiters only. -/
lemma Mtx.cancelPass_slot {m : Mtx T} {tok : CancelToken} {w : Waiter T}
    (h : w ∈ (m.cancelPass c tok).1) : w.slot := by
  have := eject_victims_match _ h
  simp_all

omit [DecidableEq T] in
/-- A pass loses no waiter. -/
lemma Mtx.cancelPass_perm (m : Mtx T) (c : World T) (tok : CancelToken) :
    ((m.cancelPass c tok).1 ++ (m.cancelPass c tok).2.waiters).Perm m.waiters :=
  eject_perm _ _ _

/-- A call goes on with the one waiter in its hands. -/
lemma keep_one {w : Waiter T} (inv : (handoff T).Inv s.mx.waiters s.th) (h0 : (s.th t).pc = p)
    (e0 : p.hand = [w]) (e1 : h.pc.hand = [w])
    (kn : ∀ k, p.Knows w k → h.pc.Knows w k) :
    (handoff T).Inv s.mx.waiters (Function.update s.th t h) := by
  have e : (s.th t).pc.hand = [w] := by rw [h0, e0]
  apply inv.keep (w := w)
  · show w ∈ (s.th t).pc.hand
    rw [e]
    exact List.mem_singleton_self w
  · show h.pc.hand = (s.th t).pc.hand
    rw [e, e1]
  · intro v (hv : v ∈ h.pc.hand) k (hk : (s.th t).pc.Knows v k)
    rw [e1] at hv
    rw [List.mem_singleton.1 hv, h0] at hk
    rw [List.mem_singleton.1 hv]
    exact kn k hk

/-- The steps of `Local` keep custody. -/
lemma Local.custody (lo : Local c t s.mx (s.th t) m h) (ok : (s.th t).Ok)
    (inv : (handoff T).Inv s.mx.waiters s.th) :
    (handoff T).Inv m.waiters (Function.update s.th t h) := by
  cases lo with
  | call op h => cases op <;> exact inv.move (run_of_free h rfl) (hand_of_free h rfl) rfl
  | @checkPass b h _ => cases b <;> exact inv.move (run_of_free h rfl) (hand_of_free h rfl) rfl
  | @awakeOk k sl h _ => cases k <;> exact inv.move (run_of_free h rfl) (hand_of_free h rfl) rfl
  | bareAcquire h _ =>
    rcases h with h | h <;> exact inv.move (run_of_free h rfl) (hand_of_free h rfl) rfl
  | enterPush h _ =>
    simp only [Thread.Ok, h] at ok
    exact inv.push (run_of_free h rfl) (hand_of_free h rfl) rfl ⟨rfl, ok⟩
  | asyncPush h _ =>
    simp only [Thread.Ok, h] at ok
    exact inv.push (run_of_free h rfl) (hand_of_free h rfl) rfl ⟨rfl, ok⟩
  | unlPop h hq =>
    apply inv.take (run_of_free h rfl) (hand_of_free h rfl)
    · rw [hq]
      exact .refl _
    · exact fun v _ k hk => hk
  | unlTestSkip h hc => exact keep_one inv h rfl rfl fun k hk => ⟨hk, (Bool.and_eq_true_iff.1 hc).1⟩
  | unlTestChoose h _ => exact keep_one inv h rfl rfl fun k hk => hk
  | unlRecord h => exact keep_one inv h rfl rfl fun k hk => hk
  | @canPass tok h =>
    have hand := Pc.hand_canNext tok (kBuf ≤ (s.mx.cancelPass c tok).1.length)
      (s.mx.cancelPass c tok).1
    apply inv.take (run_of_free h rfl) (hand_of_free h rfl)
    · show (Pc.hand _ ++ _).Perm _
      rw [hand]
      exact s.mx.cancelPass_perm c tok
    · intro v hv k hk
      have hv' : v ∈ (s.mx.cancelPass c tok).1 := hand ▸ hv
      have hsl := Mtx.cancelPass_slot hv'
      show (Pc.canNext _ _ _).Knows _ _
      cases e : (s.mx.cancelPass c tok).1 with
      | nil => rw [e] at hv'; cases hv'
      | cons u us => exact ⟨hk, hsl⟩
  | callUnlock h _ | done h | checkCancelled h _ | enterTake h _ | awakeCancelled h _ | record h
  | tryTake h _ | tryFail h _ | cancelTake h _ | cancelFail h _ | cancelCancelled h _
  | cancelAgain h _ | asyncTake h _ | asyncRecord h | asyncWrite h | lockTake h _
  | lockViolation h _ | lockFail h _ | bareRegister h | barePredTake h _ | barePredFail h _
  | bareSleep h | spuriousWake h | bareRecord h | bareRelease h | bareDeregister h | unlHolder h
  | unlFree h _ | unlLoadZero h _ | unlLoadSome h _ | unlBareLock h _ | unlBareUnlock h =>
    exact inv.move (run_of_free h rfl) (hand_of_free h rfl) rfl

omit [DecidableEq T] in
/-- The steps of `Local` keep the account. -/
lemma Local.ok {m' : Mtx T} (lo : Local c t m h m' k) (ok : h.Ok) : k.Ok := by
  cases lo with
  | call op _ => cases op <;> simp [Thread.Ok, Op.entry]
  | @checkPass b e _ =>
    simp only [Thread.Ok, e] at ok
    cases b
    · exact ok
    · exact ok.1
  | checkCancelled e _ =>
    simp only [Thread.Ok, e] at ok
    exact ok.1
  | awakeCancelled e hs =>
    simp only [Thread.Ok, e, hs] at ok
    rcases ok with ⟨-, ⟨⟩⟩ | ok
    exact ok.1
  | @awakeOk k sl e hs =>
    simp only [Thread.Ok, e] at ok
    rcases ok with ⟨hg, -⟩ | ⟨-, hc, hsl⟩
    · cases k <;> exact hg
    · rw [hs hsl] at hc
      cases hc
  | cancelCancelled e _ | cancelFail e _ | cancelAgain e _ | record e | asyncRecord e | asyncWrite e
  | bareRecord e | bareRelease e | bareDeregister e =>
    simp only [Thread.Ok, e] at ok
    exact ok
  | @canPass tok e =>
    cases e : (m.cancelPass c tok).1 with
    | nil =>
      show Thread.Ok { h with pc := Pc.canNext _ _ _ }
      unfold Pc.canNext
      split <;> trivial
    | cons w ws => trivial
  | enterTake _ _ | tryTake _ _ | cancelTake _ _ | asyncTake _ _ | lockTake _ _ | barePredTake _ _ =>
    rfl
  | _ => trivial

/-- A new record with a sound account leaves all accounts sound. -/
lemma ok_update {th : T → Thread T} (ok : ∀ i, (th i).Ok) (hk : k.Ok) (i : T) :
    (Function.update th t k i).Ok := by
  by_cases e : i = t
  · subst e
    rwa [Function.update_self]
  · rw [Function.update_of_ne e]
    exact ok i

end Local

/-- Custody and accounts. -/
structure Inv (s : St T) : Prop where
  cus : (handoff T).Inv s.mx.waiters s.th
  ok : ∀ t, (s.th t).Ok

/-- A party's record is not the mutex. -/
@[simp] lemma St.set_mx (s : St T) (t : T) (h : Thread T) : (s.set t h).mx = s.mx := rfl
/-- A party's place is not the mutex. -/
@[simp] lemma St.goto_mx (s : St T) (t : T) (p : Pc T) : (s.goto t p).mx = s.mx := rfl
/-- A slot is not the mutex. -/
@[simp] lemma St.writeSlot_mx (s : St T) (w : Waiter T) (r : WaitResult) :
    (s.writeSlot w r).mx = s.mx := rfl
/-- Resuming a waiter leaves the mutex. -/
@[simp] lemma St.resume_mx (s : St T) (w : Waiter T) (g : Bool) : (s.resume w g).mx = s.mx := rfl

omit [DecidableEq T] in
/-- Parties at different places are different. -/
lemma ne_of_pc {s : St T} {t u : T} {p q : Pc T} (ht : (s.th t).pc = p) (hu : (s.th u).pc = q)
    (ne : p ≠ q) : t ≠ u := by
  rintro rfl
  exact ne (ht.symm.trans hu)

/-- Two parties move on at once. -/
lemma St.goto_goto {s : St T} {t u : T} (ne : u ≠ t) (p q : Pc T) :
    ((s.goto u p).goto t q).th =
      Function.update (Function.update s.th u { s.th u with pc := p }) t
        { s.th t with pc := q } := by
  simp only [St.goto, St.set, Function.update_of_ne ne.symm]

namespace Inv
variable {s s' : St T} {c : World T} {t : T} {p pc : Pc T} {w : Waiter T}

/-- What a call knows of a waiter in its hands. -/
lemma knows (inv : Inv s) (hpc : (s.th t).pc = p) (hw : w ∈ p.hand) :
    p.Knows w (s.th w.party) := by
  subst hpc
  exact inv.cus.held t w hw

/-- Nobody has itself in its hands. -/
lemma ne_of_hand (inv : Inv s) (hpc : (s.th t).pc = p) (hw : w ∈ p.hand) : w.party ≠ t := by
  subst hpc
  exact inv.cus.ne_of_held (Handoff.Inv.run_of_hand hw) hw

/-- A write to a waiter's slot, seen from all the records. -/
lemma writeSlot_goto (inv : Inv s) (hpc : (s.th t).pc = p) (hw : w ∈ p.hand) (r : WaitResult)
    (pc : Pc T) :
    ((s.writeSlot w r).goto t pc).th = Function.update (Function.update s.th w.party
      { s.th w.party with slot := if w.slot then r else (s.th w.party).slot }) t
      { s.th t with pc := pc } := by
  have ne := inv.ne_of_hand hpc hw
  simp only [St.goto, St.writeSlot, St.set, Function.update_of_ne ne.symm]

/-- A resume, seen from all the records. -/
lemma resume_goto (inv : Inv s) (hpc : (s.th t).pc = p) (hw : w ∈ p.hand) (g : Bool)
    (pc : Pc T) :
    ((s.resume w g).goto t pc).th = Function.update (Function.update s.th w.party
      { s.th w.party with pc := .awake w.kind w.slot, got := g }) t { s.th t with pc := pc } := by
  have ne := inv.ne_of_hand hpc hw
  simp only [St.goto, St.resume, St.set, Function.update_of_ne ne.symm]

/-- A party with empty hands moves on. -/
lemma stepGoto (inv : Inv s) (hpc : (s.th t).pc = p) (fr : p.free) (h1 : pc.hand = [])
    (hok : Thread.Ok { s.th t with pc := pc }) : Inv (s.goto t pc) := by
  exact ⟨inv.cus.move (run_of_free hpc fr) (hand_of_free hpc fr) h1, ok_update inv.ok hok⟩

/-- A call writes to the slot of a waiter in its hands. -/
lemma stepWrite (inv : Inv s) {r : WaitResult} (hpc : (s.th t).pc = p) (hw : w ∈ p.hand)
    (h1 : pc.hand = p.hand)
    (kn : pc.Knows w { s.th w.party with slot := if w.slot then r else (s.th w.party).slot })
    (kn' : ∀ v ∈ pc.hand, v ≠ w → ∀ k, p.Knows v k → pc.Knows v k)
    (hok : Thread.Ok { s.th t with pc := pc }) : Inv ((s.writeSlot w r).goto t pc) := by
  have hth := inv.writeSlot_goto hpc hw r pc
  subst hpc
  obtain ⟨b, pk⟩ := inv.cus.parked_of_held hw
  have pk' : (s.th w.party).pc = .parked b := pk
  have sub : pc.hand.Sublist (s.th t).pc.hand := by rw [h1]
  constructor
  · rw [hth]
    refine inv.cus.touch hw sub ?_ (fun _ => kn) kn'
    show (s.th w.party).pc.hand = []
    rw [pk']
    rfl
  · rw [hth]
    exact ok_update (ok_update inv.ok (by simp [Thread.Ok, pk'])) hok

/-- A call lets the first waiter in its hands run again. -/
lemma stepRelease (inv : Inv s) {ws : List (Waiter T)} {g : Bool} (hpc : (s.th t).pc = p)
    (h0 : p.hand = w :: ws) (h1 : pc.hand = ws)
    (kn : ∀ v ∈ ws, v ≠ w → ∀ k, p.Knows v k → pc.Knows v k)
    (hok : Thread.Ok { s.th t with pc := pc })
    (hok' : Thread.Ok (T := T)
      { s.th w.party with pc := .awake w.kind w.slot, got := g }) :
    Inv ((s.resume w g).goto t pc) := by
  have hw : w ∈ p.hand := by
    rw [h0]
    exact List.mem_cons_self
  have hth := inv.resume_goto hpc hw g pc
  subst hpc
  constructor
  · rw [hth]
    exact inv.cus.release h0 h1 rfl kn
  · rw [hth]
    exact ok_update (ok_update inv.ok hok') hok

/-- Nobody waits yet. -/
lemma init : Inv (Mutex.init T) := ⟨Handoff.Inv.empty fun _ => rfl, fun _ => trivial⟩

/-- Every step keeps custody and accounts. -/
theorem step (inv : Inv s) (st : Step c s t s') : Inv s' := by
  cases st with
  | here lo =>
    exact ⟨lo.custody (inv.ok t) inv.cus, ok_update inv.ok (lo.ok (inv.ok t))⟩
  | @unlSkip w h =>
    have hw : w ∈ Pc.hand (.unlSkip w) := List.mem_singleton_self w
    obtain ⟨⟨hpc, hgot, -⟩, hsl⟩ := inv.knows h hw
    refine inv.stepWrite h hw rfl ⟨⟨hpc, hgot, by simp [hsl]⟩, hsl⟩ ?_ trivial
    exact fun v hv nv => absurd (List.mem_singleton.1 hv) nv
  | @unlSkipResume w h =>
    have hw : w ∈ Pc.hand (.unlSkipResume w) := List.mem_singleton_self w
    obtain ⟨⟨hpc, hgot, hslot⟩, hsl⟩ := inv.knows h hw
    refine inv.stepRelease h rfl rfl (fun v hv => by cases hv) trivial (.inr ⟨rfl, hslot, hsl⟩)
  | @unlWrite w h =>
    have hw : w ∈ Pc.hand (.unlWrite w) := List.mem_singleton_self w
    obtain ⟨hpc, hgot, hslot⟩ := inv.knows h hw
    have pk : Parked w .ok
        { s.th w.party with slot := if w.slot then .ok else (s.th w.party).slot } :=
      ⟨hpc, hgot, by simp [hslot]⟩
    split
    · exact inv.stepWrite h hw rfl pk (fun v hv nv => absurd (List.mem_singleton.1 hv) nv) trivial
    · exact inv.stepWrite h hw rfl pk (fun v hv nv => absurd (List.mem_singleton.1 hv) nv) trivial
  | @unlResume w h =>
    have hw : w ∈ Pc.hand (.unlResume w) := List.mem_singleton_self w
    obtain ⟨hpc, hgot, hslot⟩ := inv.knows h hw
    exact inv.stepRelease h rfl rfl (fun v hv => by cases hv) trivial (.inl ⟨rfl, hslot⟩)
  | @notifyOne u h hu =>
    have ne : t ≠ u := ne_of_pc h hu (by simp)
    have h' : ((s.goto u .notified).th t).pc = .unlNotify := by
      simp only [St.goto, St.set, Function.update_of_ne ne, h]
    have inv' : Inv (s.goto u .notified) := inv.stepGoto hu rfl rfl trivial
    exact inv'.stepGoto h' rfl rfl trivial
  | notifyNone h _ => exact inv.stepGoto h rfl rfl trivial
  | @canWrite tok w ws f h =>
    have hw : w ∈ Pc.hand (.canWrite tok w ws f) := List.mem_cons_self
    obtain ⟨⟨hpc, hgot, -⟩, hsl⟩ := inv.knows h hw
    refine inv.stepWrite h hw rfl ⟨⟨hpc, hgot, by simp [hsl]⟩, hsl⟩ ?_ trivial
    intro v _ nv k hk
    simpa [Pc.Knows, nv] using hk
  | @canResume tok w ws f h =>
    have hw : w ∈ Pc.hand (.canResume tok w ws f) := List.mem_cons_self
    obtain ⟨⟨hpc, hgot, hslot⟩, hsl⟩ := inv.knows h hw
    refine inv.stepRelease h rfl (Pc.hand_canNext tok f ws) ?_ ?_
      (.inr ⟨rfl, by simpa using hslot, hsl⟩)
    · intro v hv nv k hk
      cases ws with
      | nil => cases hv
      | cons u us => simpa [Pc.Knows, Pc.canNext, nv] using hk
    · cases ws with
      | nil => cases f <;> trivial
      | cons u us => trivial

end Inv
end JLib.Mutex
