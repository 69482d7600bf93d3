import JLib.Lanes.Model
import JLib.LTS.Balance
import Mathlib.Data.List.Count

/-!
# One owner for a shared lane

A won claim is held by a call in progress or, for the publish lane, by the flag of the thread. Over the threads
what is held adds up to at most what is claimed, so that one thread holds a lane at a time. The flag of the publish
lane outlives its pool: the total is kept only if no flag is set at an `Init`.
-/

namespace JLib.Lanes
open LTS

variable {θ : Type} [DecidableEq θ] {s s' : State θ} {t : θ} {a : Label θ} {k : Nat} {ln : Lane} {l : Local}
  {c : Call} {cs rest : List Call}

/-! ## What is held -/

/-- The calls that hold a claim. -/
def Call.holds : Lane → Call → Bool
  | .nonWorkerLane, .claimed _ => true
  | .nonWorkerLane, .body _ held => held
  | .nonWorkerLane, .disown _ => true
  | .nonWorkerLane, .release _ => true
  | .mainPubLane, .won _ => true
  | _, _ => false

/-- The calls that a set flag of the non-worker lane can belong to. -/
def Call.owning : Call → Bool
  | .body _ held => held
  | .disown _ => true
  | _ => false

def Call.pushing : Call → Bool
  | .push _ => true
  | _ => false

namespace Local

def held (ln : Lane) (l : Local) : Int :=
  match ln with
  | .nonWorkerLane => l.calls.countP (Call.holds .nonWorkerLane)
  | .mainPubLane => l.t_ownsMainPubLane.toNat + l.calls.countP (Call.holds .mainPubLane)

/-- Nobody holds less than nothing. -/
lemma held_nonneg (ln : Lane) (l : Local) : 0 ≤ l.held ln := by
  cases ln with
  | nonWorkerLane => exact Int.natCast_nonneg _
  | mainPubLane => exact add_nonneg (Int.natCast_nonneg _) (Int.natCast_nonneg _)

/-- A set flag has a call behind it, and nobody pushes without the flag. -/
structure Fits (l : Local) : Prop where
  owning : l.t_ownsNonWorkerLane = true → ∃ c ∈ l.calls, c.owning = true
  pushing : ∀ {c}, c ∈ l.calls → c.pushing = true → l.t_ownsMainPubLane = true

/-- The innermost call goes on. -/
lemma Fits.swap (fits : l.Fits) (calls : l.calls = c :: rest)
    (own : c.owning = true → ∃ c' ∈ cs, c'.owning = true)
    (push : ∀ c' ∈ cs, c'.pushing = true → l.t_ownsMainPubLane = true) :
    ({ l with calls := cs ++ rest } : Local).Fits := by
  constructor
  · intro owns
    obtain ⟨c', mem, owning⟩ := fits.owning owns
    rw [calls] at mem
    rcases List.mem_cons.1 mem with rfl | mem
    · obtain ⟨c'', mem, owning⟩ := own owning
      exact ⟨c'', List.mem_append_left _ mem, owning⟩
    · exact ⟨c', List.mem_append_right _ mem, owning⟩
  · intro c' mem pushing
    rcases List.mem_append.1 mem with new | old
    · exact push c' new pushing
    · refine fits.pushing ?_ pushing
      rw [calls]
      exact List.mem_cons_of_mem c old

/-- A call starts. -/
lemma Fits.cons (fits : l.Fits) (push : c.pushing = false) :
    ({ l with calls := c :: l.calls } : Local).Fits := by
  constructor
  · intro owns
    obtain ⟨c', mem, owning⟩ := fits.owning owns
    exact ⟨c', List.mem_cons_of_mem c mem, owning⟩
  · intro c' mem pushing
    rcases List.mem_cons.1 mem with rfl | old
    · rw [push] at pushing
      cases pushing
    · exact fits.pushing old pushing

/-- Calls on top add the claims that they hold. -/
lemma held_append (ln : Lane) (o o' : Bool) (cs rest : List Call) :
    (Local.mk o o' (cs ++ rest)).held ln = (Local.mk o o' rest).held ln + cs.countP (Call.holds ln) := by
  cases ln with
  | nonWorkerLane =>
    simp only [held, List.countP_append]
    push_cast
    rw [add_comm]
  | mainPubLane =>
    simp only [held, List.countP_append]
    push_cast
    omega

/-- What is held, with the calls written out. -/
lemma held_eq (ln : Lane) (calls : l.calls = cs) :
    l.held ln = (Local.mk l.t_ownsNonWorkerLane l.t_ownsMainPubLane cs).held ln := by
  rw [← calls]

/-- A call that holds a claim counts. -/
lemma held_of_holds (mem : c ∈ l.calls) (holds : c.holds ln = true) : 0 < l.held ln := by
  have pos : 0 < l.calls.countP (Call.holds ln) := List.countP_pos_iff.2 ⟨c, mem, holds⟩
  cases ln with
  | nonWorkerLane => exact Int.natCast_pos.2 pos
  | mainPubLane =>
    rw [held]
    omega

/-- A set flag of the main lane counts as a claim. -/
lemma held_of_flag (owns : l.t_ownsMainPubLane = true) : 0 < l.held .mainPubLane := by
  rw [held, owns, Bool.toNat_true]
  omega

end Local

def Pool.claimed (pl : Pool) : Lane → Bool
  | .nonWorkerLane => pl.nonWorkerLaneClaimed
  | .mainPubLane => pl.mainPubClaimed

/-- The calls of a thread are not in the pools. -/
lemma State.pools_setCalls (s : State θ) (t : θ) (cs : List Call) : (s.setCalls t cs).pools = s.pools := rfl

/-- The thread is in these calls and keeps its flags. -/
lemma State.thread_setCalls (s : State θ) (t : θ) (cs : List Call) :
    (s.setCalls t cs).thread t = { s.thread t with calls := cs } :=
  Function.update_self ..

omit [DecidableEq θ] in
/-- The pool is as it was set. -/
lemma State.pools_setPool (s : State θ) (k : Nat) (pl : Pool) : (s.setPool k pl).pools k = pl :=
  Function.update_self ..

/-! ## The invariant -/

/-- A pool is torn down when no call is on the way, and no thread has its flag set at an `Init`. -/
def Fresh (s : State θ) : Label θ → Prop
  | .Init => ∀ t, (s.thread t).t_ownsMainPubLane = false
  | .destroy => ∀ t, (s.thread t).calls = []
  | _ => True

structure Sound (s : State θ) : Prop where
  pool : ∀ {t c}, c ∈ (s.thread t).calls → s.instance_ = some c.pool
  fits : ∀ t, (s.thread t).Fits
  room : ∀ {k}, s.instance_ = some k → ∀ ln, ∃ b : Int,
    Balance (fun t => (s.thread t).held ln) b ∧ b ≤ ((s.pools k).claimed ln).toNat

namespace Sound

omit [DecidableEq θ] in
/-- There is no pool and no call. -/
lemma init : Sound ({} : State θ) := by
  refine ⟨fun {t c} mem => ?_, fun t => ⟨?_, ?_⟩, fun {k} e => ?_⟩
  · cases mem
  · rintro ⟨⟩
  · rintro c ⟨⟩
  · cases e

/-- A thread goes on: what it holds more, the pool has claimed more. -/
lemma move (snd : Sound s) (inst : s'.instance_ = s.instance_) (thread : s'.thread = Function.update s.thread t l)
    (pool : ∀ c ∈ l.calls, s.instance_ = some c.pool) (fits : l.Fits)
    (more : ∀ k, s.instance_ = some k → ∀ ln,
      l.held ln - (s.thread t).held ln ≤ ((s'.pools k).claimed ln).toNat - ((s.pools k).claimed ln).toNat) :
    Sound s' := by
  refine ⟨fun {t' c} mem => ?_, fun t' => ?_, fun {k} e ln => ?_⟩
  · rw [thread, Function.update_apply] at mem
    rw [inst]
    split at mem
    · exact pool c mem
    · exact snd.pool mem
  · rw [thread, Function.update_apply]
    split
    · exact fits
    · exact snd.fits t'
  · rw [inst] at e
    obtain ⟨b, bal, le⟩ := snd.room e ln
    refine ⟨b + (l.held ln - (s.thread t).held ln), ?_, ?_⟩
    · rw [thread]
      exact bal.step (w := Local.held ln) t l
    · have := more k e ln
      omega

/-- A thread goes on and the pool stays. -/
lemma go (snd : Sound s) (pool : ∀ c ∈ l.calls, s.instance_ = some c.pool) (fits : l.Fits)
    (more : ∀ ln, l.held ln ≤ (s.thread t).held ln) : Sound (s.setThread t l) := by
  refine snd.move rfl rfl pool fits fun k _ ln => ?_
  have := more ln
  change _ ≤ (((s.pools k).claimed ln).toNat : Int) - ((s.pools k).claimed ln).toNat
  omega

omit [DecidableEq θ] in
/-- Every call on the way is in the pool that is there. -/
lemma pool_of_mem (snd : Sound s) (calls : (s.thread t).calls = cs) : ∀ c ∈ cs, s.instance_ = some c.pool := by
  intro c mem
  apply snd.pool (t := t)
  rw [calls]
  exact mem

/-- The innermost call goes on to `cs`, and what that holds more the pool has claimed more. -/
lemma turn (snd : Sound s) (calls : (s.thread t).calls = c :: rest) (cs : List Call)
    (inst : s'.instance_ = s.instance_)
    (thread : s'.thread = Function.update s.thread t { s.thread t with calls := cs ++ rest })
    (pool : ∀ c' ∈ cs, c'.pool = c.pool) (own : c.owning = true → ∃ c' ∈ cs, c'.owning = true)
    (push : ∀ c' ∈ cs, c'.pushing = true → (s.thread t).t_ownsMainPubLane = true)
    (more : ∀ ln, cs.countP (Call.holds ln) + ((s.pools c.pool).claimed ln).toNat ≤
      ((s'.pools c.pool).claimed ln).toNat + [c].countP (Call.holds ln)) : Sound s' := by
  obtain ⟨top, below⟩ := List.forall_mem_cons.1 (snd.pool_of_mem calls)
  refine snd.move inst thread (fun c' mem => ?_) ((snd.fits t).swap calls own push) fun k e ln => ?_
  · rcases List.mem_append.1 mem with new | old
    · rw [pool c' new]
      exact top
    · exact below c' old
  · cases top.symm.trans e
    have before : (s.thread t).held ln = (Local.mk _ _ ([c] ++ rest)).held ln := Local.held_eq ln calls
    rw [before, Local.held_append, Local.held_append]
    have := more ln
    omega

/-- The same where the pool stays. -/
lemma stay (snd : Sound s) (calls : (s.thread t).calls = c :: rest) (cs : List Call)
    (pool : ∀ c' ∈ cs, c'.pool = c.pool) (own : c.owning = true → ∃ c' ∈ cs, c'.owning = true)
    (push : ∀ c' ∈ cs, c'.pushing = true → (s.thread t).t_ownsMainPubLane = true)
    (less : ∀ ln, cs.countP (Call.holds ln) ≤ [c].countP (Call.holds ln)) :
    Sound (s.setCalls t (cs ++ rest)) := by
  refine snd.turn calls cs rfl rfl pool own push fun ln => ?_
  rw [State.pools_setCalls, Nat.add_comm]
  exact Nat.add_le_add_left (less ln) _

omit [DecidableEq θ] in
/-- Nothing is on the way and nobody has a flag. -/
lemma room_of_rest (none : ∀ t, (s.thread t).calls = []) (off : ∀ t, (s.thread t).t_ownsMainPubLane = false)
    (ln : Lane) : Balance (fun t => (s.thread t).held ln) 0 := by
  have zero : (fun t => (s.thread t).held ln) = fun _ => 0 := by
    funext t
    cases ln with
    | nonWorkerLane =>
      rw [Local.held, none t]
      rfl
    | mainPubLane =>
      rw [Local.held, none t, off t]
      rfl
  rw [zero]
  exact .rest

/-- A step under the condition keeps the claims with their calls. -/
lemma step (snd : Sound s) (fresh : Fresh s a) (st : Step s a s') : Sound s' := by
  cases st with
  | Init off =>
    have none : ∀ t, (s.thread t).calls = [] := by
      intro t
      cases calls : (s.thread t).calls with
      | nil => rfl
      | cons c rest =>
        have inst := snd.pool_of_mem calls c List.mem_cons_self
        rw [off] at inst
        cases inst
    refine ⟨fun {t c} mem => ?_, snd.fits, fun {k} _ ln => ⟨0, ?_, Int.natCast_nonneg _⟩⟩
    · change c ∈ (s.thread t).calls at mem
      rw [none t] at mem
      cases mem
    · exact room_of_rest none fresh ln
  | @Join k inst =>
    refine ⟨snd.pool, snd.fits, fun {k'} e ln => ?_⟩
    cases inst.symm.trans e
    obtain ⟨b, bal, le⟩ := snd.room inst ln
    refine ⟨b, bal, ?_⟩
    have same : (Function.update s.pools k { s.pools k with poolActive := false } k).claimed ln =
        (s.pools k).claimed ln := by
      rw [Function.update_self]
      cases ln with
      | nonWorkerLane => rfl
      | mainPubLane => rfl
    change b ≤ ((Function.update s.pools k { s.pools k with poolActive := false } k).claimed ln).toNat
    rw [same]
    exact le
  | destroy inst =>
    refine ⟨fun {t c} mem => ?_, snd.fits, fun {k'} e => ?_⟩
    · change c ∈ (s.thread t).calls at mem
      rw [fresh t] at mem
      cases mem
    · cases e
  | SetMainPublishDeque => exact ⟨snd.pool, snd.fits, snd.room⟩
  | @exit t calls =>
    refine snd.go (fun c mem => ?_) ⟨?_, ?_⟩ fun ln => ?_
    · cases mem
    · rintro ⟨⟩
    · rintro c ⟨⟩
    · cases ln with
      | nonWorkerLane => exact (s.thread t).held_nonneg .nonWorkerLane
      | mainPubLane => exact (s.thread t).held_nonneg .mainPubLane
  | @ParallelFor t k inst free =>
    refine snd.go ?_ ((snd.fits t).cons rfl) fun ln => ?_
    · exact List.forall_mem_cons.2 ⟨inst, snd.pool_of_mem rfl⟩
    · cases ln with
      | nonWorkerLane => exact le_refl _
      | mainPubLane => exact le_refl _
  | win calls clear =>
    refine snd.turn calls [.claimed _] rfl rfl (by simp [Call.pool]) (by rintro ⟨⟩) (by simp [Call.pushing]) ?_
    intro ln
    rw [State.pools_setCalls, Call.pool, State.pools_setPool]
    cases ln with
    | nonWorkerLane =>
      rw [Pool.claimed, clear]
      exact Nat.le_refl 1
    | mainPubLane => exact Nat.le_of_eq (Nat.zero_add _)
  | lose calls taken =>
    refine snd.stay calls [.body _ false] (by simp [Call.pool]) (by rintro ⟨⟩) (by simp [Call.pushing]) ?_
    intro ln
    cases ln <;> exact le_refl _
  | @own t k rest calls =>
    have at_pool := List.forall_mem_cons.1 (snd.pool_of_mem calls)
    refine snd.go (List.forall_mem_cons.2 at_pool) ⟨fun _ => ?_, fun {c} mem pushing => ?_⟩ fun ln => ?_
    · exact ⟨.body k true, List.mem_cons_self, rfl⟩
    · refine (snd.fits t).pushing ?_ pushing
      rw [calls]
      exact List.mem_cons_of_mem _ ((List.mem_cons.1 mem).resolve_left (by rintro rfl; cases pushing))
    · have before := Local.held_eq ln calls
      rw [before]
      cases ln <;> exact le_refl _
  | @finish t k held rest calls =>
    cases held with
    | true =>
      refine snd.stay calls [.disown k] (by simp [Call.pool]) ?_ (by simp [Call.pushing]) ?_
      · exact fun _ => ⟨.disown k, List.mem_cons_self, rfl⟩
      · intro ln
        cases ln <;> exact le_refl _
    | false =>
      refine snd.stay calls [] (by simp) (by rintro ⟨⟩) (by simp) ?_
      intro ln
      cases ln <;> exact le_refl _
  | @disown t k rest calls =>
    have at_pool := List.forall_mem_cons.1 (snd.pool_of_mem calls)
    refine snd.go (List.forall_mem_cons.2 at_pool) ⟨by rintro ⟨⟩, fun {c} mem pushing => ?_⟩ fun ln => ?_
    · refine (snd.fits t).pushing ?_ pushing
      rw [calls]
      exact List.mem_cons_of_mem _ ((List.mem_cons.1 mem).resolve_left (by rintro rfl; cases pushing))
    · have before := Local.held_eq ln calls
      rw [before]
      cases ln <;> exact le_refl _
  | @release t k rest calls =>
    refine snd.turn calls [] rfl rfl (by simp) (by rintro ⟨⟩) (by simp) ?_
    intro ln
    rw [State.pools_setCalls, Call.pool, State.pools_setPool]
    cases ln with
    | nonWorkerLane =>
      rw [List.countP_nil, Nat.zero_add]
      exact Bool.toNat_le _
    | mainPubLane => exact Nat.le_of_eq (Nat.zero_add _)
  | @publish t k inst free on active =>
    refine snd.go ?_ ((snd.fits t).cons rfl) fun ln => ?_
    · exact List.forall_mem_cons.2 ⟨inst, snd.pool_of_mem rfl⟩
    · cases ln with
      | nonWorkerLane => exact le_refl _
      | mainPubLane => exact le_refl _
  | owns calls flag =>
    refine snd.stay calls [.push _] (by simp [Call.pool]) (by rintro ⟨⟩) (by simp [flag]) ?_
    intro ln
    cases ln <;> exact le_refl _
  | taken calls flag taken =>
    refine snd.stay calls [] (by simp) (by rintro ⟨⟩) (by simp) ?_
    intro ln
    cases ln <;> exact le_refl _
  | exchange calls flag clear =>
    refine snd.turn calls [.won _] rfl rfl (by simp [Call.pool]) (by rintro ⟨⟩) (by simp [Call.pushing]) ?_
    intro ln
    rw [State.pools_setCalls, Call.pool, State.pools_setPool]
    cases ln with
    | nonWorkerLane => exact Nat.le_of_eq (Nat.zero_add _)
    | mainPubLane =>
      rw [Pool.claimed, clear]
      exact Nat.le_refl 1
  | @keep t k rest calls =>
    have at_pool := List.forall_mem_cons.1 (snd.pool_of_mem calls)
    refine snd.go (List.forall_mem_cons.2 at_pool) ⟨fun owns => ?_, fun _ _ => rfl⟩ fun ln => ?_
    · obtain ⟨c, mem, owning⟩ := (snd.fits t).owning owns
      rw [calls] at mem
      refine ⟨c, List.mem_cons_of_mem _ ((List.mem_cons.1 mem).resolve_left ?_), owning⟩
      rintro rfl
      cases owning
    · have before := Local.held_eq ln calls
      rw [before]
      cases ln with
      | nonWorkerLane => exact le_refl _
      | mainPubLane =>
        rw [Local.held, Local.held, List.countP_cons_of_neg Bool.false_ne_true, List.countP_cons_of_pos rfl]
        rw [Bool.toNat_true]
        omega
  | push calls =>
    refine snd.stay calls [] (by simp) (by rintro ⟨⟩) (by simp) ?_
    intro ln
    cases ln <;> exact le_refl _

/-- The account holds in every state of a run. -/
lemma of_runs (rn : Runs Step Fresh ({} : State θ) s) : Sound s :=
  rn.invariant init fun snd fresh st => snd.step fresh st

omit [DecidableEq θ] in
/-- Who is entitled holds a claim. -/
lemma held_of_entitled (snd : Sound s) (ent : s.Entitled k ln t) : 0 < (s.thread t).held ln := by
  cases ln with
  | nonWorkerLane =>
    obtain ⟨-, owns | mem⟩ := ent
    · obtain ⟨c, mem, owning⟩ := (snd.fits t).owning owns
      refine Local.held_of_holds mem ?_
      cases c with
      | body => exact owning
      | disown => rfl
      | _ => cases owning
    · exact Local.held_of_holds mem rfl
  | mainPubLane =>
    obtain ⟨-, owns | mem | mem⟩ := ent
    · exact Local.held_of_flag owns
    · exact Local.held_of_holds mem rfl
    · exact Local.held_of_flag ((snd.fits t).pushing mem rfl)

/-- No two threads are entitled to one lane. -/
lemma unique (snd : Sound s) {t' : θ} (ent : s.Entitled k ln t) (ent' : s.Entitled k ln t') : t = t' := by
  have inst : s.instance_ = some k := by
    cases ln with
    | nonWorkerLane => exact ent.1
    | mainPubLane => exact ent.1
  obtain ⟨b, bal, le⟩ := snd.room inst ln
  have one := Bool.toNat_le ((s.pools k).claimed ln)
  refine bal.lone (fun t => (s.thread t).held_nonneg ln) ?_ (snd.held_of_entitled ent) (snd.held_of_entitled ent')
  omega

/-- A thread that has nothing else to do wins a free claim of the publish lane. -/
lemma wins {s₀ : State θ} (r : Reaches Step s₀ s) (inst : s.instance_ = some k) (on : s.mainPubOn = true)
    (active : (s.pools k).poolActive = true) (clear : (s.pools k).mainPubClaimed = false)
    (none : (s.thread t).calls = [])
    (flag : (s.thread t).t_ownsMainPubLane = false) :
    ∃ s', Reaches Step s₀ s' ∧ s'.Entitled k .mainPubLane t ∧ ∀ t', t' ≠ t → s'.thread t' = s.thread t' := by
  have free : (s.thread t).Free := by
    rintro c rest calls
    rw [none] at calls
    cases calls
  have r := r.next (.publish t) trivial (.publish inst free on active)
  have test := State.thread_setCalls s t (.test k :: (s.thread t).calls)
  have r := r.next (.go t) trivial (.exchange (congrArg Local.calls test) (by rw [test, flag]) clear)
  refine ⟨_, r, ⟨inst, .inr (.inl ?_)⟩, fun t' ne => ?_⟩
  · rw [State.thread_setCalls]
    exact List.mem_cons_self
  · exact (Function.update_of_ne ne _ _).trans (Function.update_of_ne ne _ _)

/-- A flag that is set while there is no pool makes two owners in the next one. -/
lemma two_owners (snd : Sound s) (off : s.instance_ = none) (flag : (s.thread t).t_ownsMainPubLane = true)
    {t' : θ} (ne : t' ≠ t) : ∃ s' k, Reaches Step s s' ∧ s'.Entitled k .mainPubLane t ∧
      s'.Entitled k .mainPubLane t' := by
  have none : (s.thread t').calls = [] := by
    cases calls : (s.thread t').calls with
    | nil => rfl
    | cons c rest =>
      have inst := snd.pool_of_mem calls c List.mem_cons_self
      rw [off] at inst
      cases inst
  have r : Reaches Step s s := .refl
  have r := r.next .Init trivial (.Init off)
  have r := r.next (.SetMainPublishDeque true) trivial .SetMainPublishDeque
  have fresh : Function.update s.pools s.inits {} s.inits = {} := Function.update_self ..
  cases flag' : (s.thread t').t_ownsMainPubLane with
  | true => exact ⟨_, _, r, ⟨rfl, .inl flag⟩, ⟨rfl, .inl flag'⟩⟩
  | false =>
    -- the other thread wins the claim of the new pool
    obtain ⟨s', r, ent, others⟩ := wins r rfl rfl (congrArg Pool.poolActive fresh)
      (congrArg Pool.mainPubClaimed fresh) none flag'
    refine ⟨s', _, r, ⟨ent.1, .inl ?_⟩, ent⟩
    rw [others t (Ne.symm ne)]
    exact flag

end Sound

/-! ## One owner -/

/-- Where no call is on the way when a pool is torn down and no thread has its flag set at an `Init`, each shared
lane has one owner. A thread that has its flag set where there is no pool can become one of two owners in the next
one. -/
theorem one_owner (rn : Runs Step Fresh ({} : State θ) s) :
    (∀ k ln t t', s.Entitled k ln t → s.Entitled k ln t' → t = t') ∧
    (∀ t t', s.instance_ = none → (s.thread t).t_ownsMainPubLane = true → t' ≠ t →
      ∃ s' k, Reaches Step s s' ∧ s'.Entitled k .mainPubLane t ∧ s'.Entitled k .mainPubLane t') := by
  have snd := Sound.of_runs rn
  exact ⟨fun k ln t t' => snd.unique, fun t t' off flag ne => snd.two_owners off flag ne⟩

/-- A thread publishes on the lane and exits, and another one publishes in the next pool. -/
theorem one_owner_next : ∃ s : State Bool, Runs Step Fresh {} s ∧ s.Entitled 1 .mainPubLane true ∧
    ∀ t, s.Entitled 1 .mainPubLane t → t = true := by
  have r : Runs Step Fresh ({} : State Bool) {} := .refl
  have r := r.next .Init (fun _ => rfl) (.Init rfl)
  have r := r.next (.SetMainPublishDeque true) trivial .SetMainPublishDeque
  have r := r.next (.publish false) trivial (.publish rfl (by rintro c rest ⟨⟩) rfl rfl)
  have r := r.next (.go false) trivial (.exchange rfl rfl rfl)
  have r := r.next (.go false) trivial (.keep rfl)
  have r := r.next (.go false) trivial (.push rfl)
  have r := r.next (.exit false) trivial (.exit rfl)
  have r := r.next .destroy (fun t => by cases t <;> rfl) (.destroy rfl)
  have r := r.next .Init (fun t => by cases t <;> rfl) (.Init rfl)
  have r := r.next (.publish true) trivial (.publish rfl (by rintro c rest ⟨⟩) rfl rfl)
  have r := r.next (.go true) trivial (.exchange rfl rfl rfl)
  refine ⟨_, r, ?ent, fun t ent' => (one_owner r).1 1 .mainPubLane t true ent' ?ent⟩
  exact ⟨rfl, .inr (.inl List.mem_cons_self)⟩

/-- A thread publishes on the lane, the pool is destroyed and another one made; a second thread wins the claim of
that, and the first may still push. -/
theorem stale_flag : ∃ s : State Bool, Reaches Step {} s ∧ s.Entitled 1 .mainPubLane false ∧
    s.Entitled 1 .mainPubLane true := by
  have r : Reaches Step ({} : State Bool) {} := .refl
  have r := r.next .Init trivial (.Init rfl)
  have r := r.next (.SetMainPublishDeque true) trivial .SetMainPublishDeque
  have r := r.next (.publish false) trivial (.publish rfl (by rintro c rest ⟨⟩) rfl rfl)
  have r := r.next (.go false) trivial (.exchange rfl rfl rfl)
  have r := r.next (.go false) trivial (.keep rfl)
  have r := r.next (.go false) trivial (.push rfl)
  have r := r.next .destroy trivial (.destroy rfl)
  have r := r.next .Init trivial (.Init rfl)
  have r := r.next (.publish true) trivial (.publish rfl (by rintro c rest ⟨⟩) rfl rfl)
  have r := r.next (.go true) trivial (.exchange rfl rfl rfl)
  exact ⟨_, r, ⟨rfl, .inl rfl⟩, ⟨rfl, .inr (.inl List.mem_cons_self)⟩⟩

end JLib.Lanes
