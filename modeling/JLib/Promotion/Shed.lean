import JLib.Promotion.Model
import Mathlib.Order.Nat

/-!
# What a promotion leaves behind

A call that raises `K` empties the ordinary inboxes of the workers it promotes into that of the first one
outside of the band. It does nothing about a worker that is still in a pass from before, a producer that
has chosen a worker, a push that is not linked, the deques, or another call. `Settled` excludes these, and
then nothing is left behind and no inbox is popped by two threads at a time.
-/

namespace JLib.Promotion
open LTS Bands State

variable {τ θ : Type} {n : Nat} {s u : State τ θ} {a : Label τ θ} {p q : θ} {i j : Nat}
  {c : Call τ}

/-- The first worker whose inbox the call has still to empty. -/
def remains : Call τ → Option Nat
  | .committed prev => some prev
  | .shed i _ => some i
  | .popping i _ => some i
  | .moving i _ _ => some i
  | .moved i _ => some i
  | _ => none

/-- The call moves the tasks of the promoted workers to the first one outside of a band of size `k`. -/
def Aims (k : Nat) : Call τ → Prop
  | .shed _ e => e = k
  | .popping i e => e = k ∧ i < e
  | .moving _ e _ => e = k
  | .moved _ e => e = k
  | _ => True

/-- Who is not in a call moves nothing. -/
lemma aims_of_idle {k : Nat} (h : remains c = none) : Aims k c := by
  cases c with
  | idle => trivial
  | placing _ _ => trivial
  | chosen _ _ => trivial
  | linking => trivial
  | committed _ => trivial
  | shed _ _ => cases h
  | popping _ _ => cases h
  | moving _ _ _ => cases h
  | moved _ _ => cases h

/-- The worker is not in a pass that may pop its inbox. -/
def Away (s : State τ θ) (i : Nat) : Prop := s.pass i = .top ∨ s.pass i = .inside true

/-- The condition on the steps. A call raises `K` while no other is in progress, and the workers it
promotes are not in a pass from before and have empty deques. A producer does not push to a worker that
was promoted since it chose it. No push to the inbox of a promoted worker is unfinished when the call finds
nothing more in it. -/
def Settled (n : Nat) (s : State τ θ) : Label τ θ → Prop
  | .raise _ k => (∀ q, remains (s.call q) = none) ∧
      ∀ i, s.K ≤ i → i < BandField (BandsSetK s.word (requested k n) n) kBandK →
        Away s i ∧ s.deque i = []
  | .exchange p => ∀ t j, s.call p = .chosen t j → s.K ≤ j
  | .shedNone p => ∀ i e, s.call p = .popping i e → ∀ r ∈ s.inbox i, r.2 = none
  | _ => True

/-- The workers of the band, and the call that has still to empty their inboxes. -/
structure Grown (n : Nat) (s : State τ θ) : Prop where
  room : s.K < n
  one : ∀ {p q}, remains (s.call p) ≠ none → remains (s.call q) ≠ none → p = q
  aims : ∀ p, Aims s.K (s.call p)
  inbox : ∀ {i}, i < s.K → s.inbox i ≠ [] → ∃ p prev, remains (s.call p) = some prev ∧ prev ≤ i
  away : ∀ {i}, i < s.K → Away s i
  deque : ∀ {i}, i < s.K → s.deque i ≠ [] → s.stealHintParallel i = true

/-- Nobody is reserved who was not. -/
lemma Grown.init {w : BitVec 64} (h : BandField w kBandK < n) : Grown n ({ word := w } : State τ θ) :=
  ⟨h, fun h => absurd rfl h, fun _ => trivial, fun _ h => absurd rfl h, fun _ => .inl rfl,
    fun _ h => absurd rfl h⟩

/-- A thread goes on, and has the same inboxes to empty. -/
lemma Grown.setCall [DecidableEq θ] (g : Grown n s) (rem : remains c = remains (s.call p))
    (aims : Aims s.K c) : Grown n (s.setCall p c) := by
  have same : ∀ q, remains ((s.setCall p c).call q) = remains (s.call q) := by
    intro q
    simp only [State.setCall, Function.update_apply]
    split
    · rename_i e
      rw [e, rem]
    · rfl
  refine ⟨g.room, fun {q r} hq hr => ?_, fun q => ?_, fun {i} hi h => ?_, g.away, g.deque⟩
  · rw [same] at hq hr
    exact g.one hq hr
  · show Aims s.K (Function.update s.call p c q)
    rw [Function.update_apply]
    split
    · exact aims
    · exact g.aims q
  · obtain ⟨q, prev, hq, le⟩ := g.inbox hi h
    exact ⟨q, prev, (same q).trans hq, le⟩

/-- The call aims outside of the band. -/
lemma Grown.aimed (g : Grown n s) (h : s.call p = c) : Aims s.K c := h ▸ g.aims p

/-- No inbox of the band gets anything. -/
lemma Grown.setInbox {l : List (τ × Option θ)} (g : Grown n s)
    (h : i < s.K → l ≠ [] → s.inbox i ≠ []) : Grown n (s.setInbox i l) := by
  refine ⟨g.room, g.one, g.aims, fun {j} hj hl => ?_, g.away, g.deque⟩
  simp only [State.setInbox, Function.update_apply] at hl
  split at hl
  · rename_i e
    subst e
    exact g.inbox hj (h hj hl)
  · exact g.inbox hj hl

/-- A push to an ordinary worker leaves the band alone. -/
lemma Grown.exchange {t : τ} (g : Grown n s) (h : s.K ≤ j) : Grown n (s.exchange p j t) :=
  g.setInbox fun lt => absurd lt (Nat.not_lt.2 h)

/-- A link leaves the band alone. -/
lemma Grown.link [DecidableEq θ] (g : Grown n s) (p : θ) : Grown n (s.link p) := by
  refine ⟨g.room, g.one, g.aims, fun {j} hj hl => g.inbox hj ?_, g.away, g.deque⟩
  intro e
  apply hl
  simp only [State.link, e, List.map_nil]

/-- A worker of the band is at the top or in a reserved pass. -/
lemma Grown.setPass {x : Pass} (g : Grown n s) (h : i < s.K → x = .top ∨ x = .inside true) :
    Grown n (s.setPass i x) := by
  refine ⟨g.room, g.one, g.aims, g.inbox, fun {j} hj => ?_, g.deque⟩
  simp only [Away, State.setPass, Function.update_apply]
  split
  · rename_i e
    subst e
    exact h hj
  · exact g.away hj

/-- The deque of a worker of the band does not grow. -/
lemma Grown.setDeque {l : List τ} (g : Grown n s) (h : i < s.K → l ≠ [] → s.deque i ≠ []) :
    Grown n (s.setDeque i l) := by
  refine ⟨g.room, g.one, g.aims, g.inbox, g.away, fun {j} hj hl => ?_⟩
  simp only [State.setDeque, Function.update_apply] at hl
  split at hl
  · rename_i e
    subst e
    exact g.deque hj (h hj hl)
  · exact g.deque hj hl

/-- A worker that can pop its inbox is outside of the band. -/
lemma Grown.outside (g : Grown n s) (h : s.pass i = .inside false ∨ s.pass i = .popping) :
    s.K ≤ i := by
  apply Nat.not_lt.1
  intro lt
  rcases g.away lt with e | e <;> rcases h with h | h <;> cases e.symm.trans h

variable [DecidableEq θ]

/-- What is requested leaves one ordinary worker. -/
lemma requested_lt {k : Nat} (h : 0 < n) : requested k n < n := by
  have cap : ∀ {a b : Nat}, a < n → (if a > b then b else a) < n := by
    intro a b ha
    split <;> omega
  unfold requested
  apply cap
  apply cap
  split <;> omega

/-- The call raises `K`. -/
lemma Grown.raise {k : Nat} (g : Grown n s) (ok : Settled n s (.raise p k)) :
    Grown n { s.setCall p (.committed s.K) with word := BandsSetK s.word (requested k n) n } := by
  obtain ⟨free, promoted⟩ := ok
  -- no other call is in progress, so the inboxes of the band were empty
  have empty : ∀ {i}, i < s.K → s.inbox i = [] := by
    intro i hi
    by_contra h
    obtain ⟨q, prev, hq, _⟩ := g.inbox hi h
    rw [free q] at hq
    cases hq
  have only : ∀ {q}, remains (Function.update s.call p (.committed s.K) q) ≠ none → q = p := by
    intro q h
    by_contra ne
    rw [Function.update_of_ne ne, free q] at h
    exact h rfl
  have room : 0 < n := (Nat.zero_le _).trans_lt g.room
  refine ⟨BandsSetK_lt _ (requested_lt room), fun hq hr => (only hq).trans (only hr).symm,
    fun q => ?_, fun {i} hi h => ?_, fun {i} hi => ?_, fun {i} hi h => ?_⟩
  · show Aims _ (Function.update s.call p (.committed s.K) q)
    rw [Function.update_apply]
    split
    · trivial
    · exact aims_of_idle (free q)
  · refine ⟨p, s.K, ?_, ?_⟩
    · simp only [State.setCall, Function.update_self, remains]
    · apply Nat.not_lt.1
      intro lt
      exact h (empty lt)
  · by_cases lt : i < s.K
    · exact g.away lt
    · exact (promoted i (Nat.not_lt.1 lt) hi).1
  · by_cases lt : i < s.K
    · exact g.deque lt h
    · exact absurd (promoted i (Nat.not_lt.1 lt) hi).2 h

/-- A call has no inbox left to empty. -/
lemma Grown.finish (g : Grown n s) {prev : Nat} (rem : remains (s.call p) = some prev)
    (ended : s.K ≤ prev) : Grown n (s.setCall p .idle) := by
  have mine : remains (s.call p) ≠ none := by
    rw [rem]
    nofun
  have still : ∀ {q}, remains ((s.setCall p .idle).call q) ≠ none → q ≠ p := by
    intro q h e
    subst e
    simp only [State.setCall, Function.update_self, remains] at h
    exact h rfl
  have other : ∀ {q}, q ≠ p → (s.setCall p .idle).call q = s.call q := fun h =>
    Function.update_of_ne h ..
  refine ⟨g.room, fun {q r} hq hr => ?_, fun q => ?_, fun {i} hi h => ?_, g.away, g.deque⟩
  · have hq' := hq
    rw [other (still hq)] at hq'
    exact absurd (g.one hq' mine) (still hq)
  · show Aims s.K (Function.update s.call p .idle q)
    rw [Function.update_apply]
    split
    · trivial
    · exact g.aims q
  · obtain ⟨q, prev', hq, le⟩ := g.inbox hi h
    have e : q = p := g.one (by rw [hq]; nofun) mine
    rw [e, rem] at hq
    cases hq
    have : i < s.K := hi
    omega

/-- An inbox of the band is empty, and the call goes on to the next. -/
lemma Grown.next (g : Grown n s) {e : Nat} (h : s.call p = .popping i e) (empty : s.inbox i = []) :
    Grown n (s.setCall p (.shed (i + 1) e)) := by
  have rem : remains (s.call p) = some i := by rw [h]; rfl
  have mine : ∀ {q}, remains ((s.setCall p (.shed (i + 1) e)).call q) ≠ none → q = p := by
    intro q hq
    by_contra ne
    simp only [State.setCall, Function.update_of_ne ne] at hq
    exact ne (g.one hq (by rw [rem]; nofun))
  refine ⟨g.room, fun hq hr => (mine hq).trans (mine hr).symm, fun q => ?_,
    fun {j} hj hl => ?_, g.away, g.deque⟩
  · show Aims s.K (Function.update s.call p (.shed (i + 1) e) q)
    rw [Function.update_apply]
    split
    · exact (g.aimed h).1
    · exact g.aims q
  · obtain ⟨q, prev, hq, le⟩ := g.inbox hj hl
    have eq : q = p := g.one (by rw [hq]; nofun) (by rw [rem]; nofun)
    rw [eq, rem] at hq
    cases hq
    refine ⟨p, i + 1, ?_, ?_⟩
    · simp only [State.setCall, Function.update_self, remains]
    · apply Nat.lt_of_le_of_ne le
      rintro rfl
      exact hl empty

/-- The call reads `K` back. -/
lemma Grown.reread (g : Grown n s) {prev : Nat} (h : s.call p = .committed prev) :
    Grown n (s.setCall p (if prev < s.K ∧ s.K < n then .shed prev s.K else .idle)) := by
  have rem : remains (s.call p) = some prev := by rw [h]; rfl
  split
  · refine g.setCall ?_ rfl
    rw [rem]
    rfl
  · refine g.finish rem ?_
    have := g.room
    omega

omit [DecidableEq θ] in
/-- A worker that reads `K` again is where it should be. -/
lemma Grown.refresh (g : Grown n s) (i : Nat) : Grown n (s.refresh i) := by
  refine ⟨g.room, g.one, g.aims, g.inbox, g.away, fun {j} hj hl => ?_⟩
  have hl : s.deque j ≠ [] := hl
  simp only [State.refresh, Function.update_apply]
  split
  · rename_i e
    subst e
    have some : (s.deque j).isEmpty = false := by
      cases hd : s.deque j with
      | nil => exact absurd hd hl
      | cons _ _ => rfl
    rw [g.deque hj hl, some]
    rfl
  · exact g.deque hj hl

omit [DecidableEq θ] in
/-- A range task splits: the hint is set before the split is seen. -/
lemma Grown.split {t : τ} (g : Grown n s) (i : Nat) :
    Grown n { s.setDeque i (t :: s.deque i) with
      stealHintParallel := Function.update s.stealHintParallel i true } := by
  refine ⟨g.room, g.one, g.aims, g.inbox, g.away, fun {j} hj hl => ?_⟩
  simp only [Function.update_apply]
  split
  · rfl
  · rename_i ne
    simp only [State.setDeque, Function.update_of_ne ne] at hl
    exact g.deque hj hl

/-- A step under the condition keeps the band. -/
lemma Grown.step (g : Grown n s) (ok : Settled n s a) (st : Step n s a u) : Grown n u := by
  cases st with
  | read h => exact g.setCall (by rw [h]; rfl) trivial
  | choose h _ _ => exact g.setCall (by rw [h]; rfl) trivial
  | @exchange p t j h =>
    have g' : Grown n (s.exchange p j t) := g.exchange (ok t j h)
    exact g'.setCall (by rw [show (s.exchange p j t).call p = _ from h]; rfl) trivial
  | @link p h =>
    exact (g.link p).setCall (by rw [show (s.link p).call p = _ from h]; rfl) trivial
  | raise _ _ => exact g.raise ok
  | reread h => exact g.reread h
  | shed h lt _ => exact g.setCall (by rw [h]; rfl) ⟨g.aimed h, lt⟩
  | @shedEnd p i e h ended =>
    refine g.finish (by rw [h]; rfl) ?_
    have he : e = s.K := g.aimed h
    have := g.room
    omega
  | @shedTake p i e t rest h hi =>
    have g' : Grown n (s.setInbox i rest) := g.setInbox fun _ _ => by rw [hi]; nofun
    exact g'.setCall (by rw [show (s.setInbox i rest).call p = _ from h]; rfl) (g.aimed h).1
  | @shedNone p i e h fails =>
    apply g.next h
    rcases fails with empty | ⟨r, hr, pending⟩
    · exact empty
    · exact absurd (ok i e h r hr) pending
  | @shedPush p i e t h =>
    have he : e = s.K := g.aimed h
    have g' : Grown n (s.exchange p e t) := g.exchange he.ge
    exact g'.setCall (by rw [show (s.exchange p e t).call p = _ from h]; rfl) he
  | @shedLink p i e h =>
    have he : e = s.K := g.aimed h
    exact (g.link p).setCall (by rw [show (s.link p).call p = _ from h]; rfl) he
  | @latch i h =>
    apply g.setPass
    intro lt
    right
    rw [decide_eq_true lt]
  | refresh _ => exact g.refresh _
  | pop h => exact g.setPass fun lt => absurd lt (Nat.not_lt.2 (g.outside (.inl h)))
  | @take i t rest b h hi =>
    have out : ¬i < s.K := Nat.not_lt.2 (g.outside (.inr h))
    have g1 : Grown n (s.setInbox i rest) := g.setInbox fun lt => absurd lt out
    exact (g1.setDeque fun lt => absurd lt out).setPass fun lt => absurd lt out
  | takeNone h _ => exact g.setPass fun lt => absurd lt (Nat.not_lt.2 (g.outside (.inr h)))
  | pop_bottom _ h => exact g.setDeque fun _ _ => by rw [h]; nofun
  | split _ => exact g.split _
  | finish _ => exact g.setPass fun _ => .inl rfl
  | steal h =>
    refine g.setDeque fun _ _ => ?_
    rw [h]
    exact List.append_ne_nil_of_right_ne_nil _ (List.cons_ne_nil _ _)
  | @bands w h =>
    have K : State.K { s with word := w } = s.K := h
    refine ⟨?_, g.one, fun p => ?_, fun hi => ?_, fun hi => ?_, fun hi => ?_⟩
    · rw [K]
      exact g.room
    · rw [K]
      exact g.aims p
    · rw [K] at hi
      exact g.inbox hi
    · rw [K] at hi
      exact g.away hi
    · rw [K] at hi
      exact g.deque hi

/-- Where every promotion is settled, no ordinary inbox is popped by two threads at once, and while no call
and no push is in progress the workers of the band have empty inboxes and no deque that is not
advertised. -/
theorem promotion_strands_nothing {w : BitVec 64} (start : BandField w kBandK < n)
    (rn : Runs (Step n) (Settled n) ({ word := w } : State τ θ) s) :
    (∀ p i e, s.call p = .popping i e → s.pass i ≠ .popping) ∧
      (∀ p q i e e', s.call p = .popping i e → s.call q = .popping i e' → p = q) ∧
      ((∀ p, s.call p = .idle) → ∀ i < s.K, s.inbox i = [] ∧
        (s.deque i = [] ∨ s.advertised i = true)) := by
  have g : Grown n s := rn.invariant (Grown.init start) fun g ok st => g.step ok st
  refine ⟨fun p i e h pop => ?_, fun p q i e e' hp hq => ?_, fun quiet i hi => ⟨?_, ?_⟩⟩
  · obtain ⟨he, lt⟩ := g.aimed h
    have := g.outside (.inr pop)
    omega
  · apply g.one
    · rw [hp]
      nofun
    · rw [hq]
      nofun
  · by_contra h
    obtain ⟨p, prev, hp, _⟩ := g.inbox hi h
    rw [quiet p] at hp
    cases hp
  · by_cases h : s.deque i = []
    · exact .inl h
    · right
      unfold advertised
      rw [g.deque hi h, Bool.or_true]

/-- Four workers, of which worker 0 is promoted with a task in its inbox, which goes to worker 1. -/
theorem promotion_strands_nothing_one :
    ∃ s : State Nat Bool, Runs (Step 4) (Settled 4) { word := 0#64 } s ∧ s.K = 1 ∧
      s.inbox 1 = [(7, none)] ∧ (∀ p, s.call p = .idle) ∧
      ∀ i < s.K, s.inbox i = [] ∧ (s.deque i = [] ∨ s.advertised i = true) := by
  have r : Runs (Step 4) (Settled 4) ({ word := 0#64 } : State Nat Bool) _ := .refl
  have r1 := r.next (.read true 7) trivial (.read rfl)
  have r2 := r1.next (.choose true) trivial (.choose (j := 0) rfl (Nat.le_refl 0) (by decide))
  have r3 := r2.next (.exchange true) (fun _ _ _ => Nat.zero_le _) (.exchange rfl)
  have r4 := r3.next (.link true) trivial (.link rfl)
  have r5 := r4.next (.raise false 1) ⟨fun q => by cases q <;> rfl, fun _ _ _ => ⟨.inl rfl, rfl⟩⟩
    (.raise rfl (Nat.zero_le _))
  have r6 := r5.next (.reread false) trivial (.reread rfl)
  have r7 := r6.next (.shed false) trivial (.shed (i := 0) (e := 1) rfl (by decide) (by decide))
  have r8 := r7.next (.shedTake false) trivial (.shedTake rfl rfl)
  have r9 := r8.next (.shedPush false) trivial (.shedPush rfl)
  have r10 := r9.next (.link false) trivial (.shedLink rfl)
  have r11 := r10.next (.shed false) trivial (.shed rfl (by decide) (by decide))
  have r12 := r11.next (.shedNone false) (fun _ _ h r hr => by cases h; cases hr)
    (.shedNone rfl (.inl rfl))
  have r13 := r12.next (.shed false) trivial (.shedEnd rfl (by decide))
  refine ⟨_, r13, rfl, rfl, fun p => by cases p <;> rfl, ?_⟩
  exact (promotion_strands_nothing (by decide) r13).2.2 fun p => by cases p <;> rfl

/-- A producer chooses worker 0, the band grows over it and finds its inbox empty, and then the producer
pushes. Worker 0 is in a pop of its inbox when the call starts its own. A task that worker 0 staged on its
deque stays there unadvertised. -/
theorem promotion_strands_tasks :
    (∃ s : State Nat Bool, Reaches (Step 4) { word := 0#64 } s ∧ (∀ p, s.call p = .idle) ∧ s.K = 1 ∧
      s.inbox 0 = [(7, none)]) ∧
    (∃ s : State Nat Bool, Reaches (Step 4) { word := 0#64 } s ∧ s.call false = .popping 0 1 ∧
      s.pass 0 = .popping) ∧
    ∃ s : State Nat Bool, Reaches (Step 4) { word := 0#64 } s ∧ (∀ p, s.call p = .idle) ∧ s.K = 1 ∧
      s.deque 0 = [7] ∧ s.advertised 0 = false := by
  have r : Reaches (Step 4) ({ word := 0#64 } : State Nat Bool) _ := .refl
  have r1 := r.next (.read true 7) trivial (.read rfl)
  have r2 := r1.next (.choose true) trivial (.choose (j := 0) rfl (Nat.le_refl 0) (by decide))
  refine ⟨?_, ?_, ?_⟩
  · have r3 := r2.next (.raise false 1) trivial (.raise rfl (Nat.zero_le _))
    have r4 := r3.next (.reread false) trivial (.reread rfl)
    have r5 := r4.next (.shed false) trivial (.shed (i := 0) (e := 1) rfl (by decide) (by decide))
    have r6 := r5.next (.shedNone false) trivial (.shedNone rfl (.inl rfl))
    have r7 := r6.next (.shed false) trivial (.shedEnd rfl (by decide))
    have r8 := r7.next (.exchange true) trivial (.exchange rfl)
    have r9 := r8.next (.link true) trivial (.link rfl)
    exact ⟨_, r9, fun p => by cases p <;> rfl, rfl, rfl⟩
  · have r1 := r.next (.worker 0) trivial (.latch rfl)
    have r2 := r1.next (.worker 0) trivial (.pop rfl)
    have r3 := r2.next (.raise false 1) trivial (.raise rfl (Nat.zero_le _))
    have r4 := r3.next (.reread false) trivial (.reread rfl)
    have r5 := r4.next (.shed false) trivial (.shed (i := 0) (e := 1) rfl (by decide) (by decide))
    exact ⟨_, r5, rfl, rfl⟩
  · have r3 := r2.next (.exchange true) trivial (.exchange rfl)
    have r4 := r3.next (.link true) trivial (.link rfl)
    have r5 := r4.next (.worker 0) trivial (.latch rfl)
    have r6 := r5.next (.worker 0) trivial (.pop rfl)
    have r7 := r6.next (.worker 0) trivial (.take (b := true) rfl rfl)
    have r8 := r7.next (.raise false 1) trivial (.raise rfl (Nat.zero_le _))
    have r9 := r8.next (.reread false) trivial (.reread rfl)
    have r10 := r9.next (.shed false) trivial (.shed (i := 0) (e := 1) rfl (by decide) (by decide))
    have r11 := r10.next (.shedNone false) trivial (.shedNone rfl (.inl rfl))
    have r12 := r11.next (.shed false) trivial (.shedEnd rfl (by decide))
    exact ⟨_, r12, fun p => by cases p <;> rfl, rfl, rfl, rfl⟩

end JLib.Promotion
