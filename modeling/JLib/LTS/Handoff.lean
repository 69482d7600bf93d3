import JLib.LTS.Custody
import Mathlib.Logic.Function.Basic

/-!
# Handing waiters on

The shape all the waiting primitives share. Parties queue themselves and switch out; another party
takes waiters out of the queue into its local variables, its hands, works through them (tests them,
writes to their frames) and lets each of them run again. A `Handoff` says what a party's record `H`
tells about that: which waiters it has in its hands, what the record of a queued waiter looks like,
and what a holder may rely on about the record of a waiter it holds. `Handoff.Inv` is the invariant,
and there is one lemma for each kind of step.
-/

namespace LTS

variable {T W H : Type*}

/-- How the records of the parties speak of waiters. -/
structure Handoff (T W H : Type*) where
  party : W → T
  hand : H → List W
  Parked : H → Prop
  Waits : W → H → Prop
  Knows : H → W → H → Prop
  hand_of_parked : ∀ {h}, Parked h → hand h = []
  parked_of_waits : ∀ {w h}, Waits w h → Parked h
  parked_of_knows : ∀ {h w k}, w ∈ hand h → Knows h w k → Parked k

namespace Handoff

/-- Who is where: `none` is the queue, `some i` the hands of `i`. -/
def places (d : Handoff T W H) (q : List W) (th : T → H) : Option T → List T
  | none => q.map d.party
  | some i => (d.hand (th i)).map d.party

/-- Each waiter is queued or in one party's hands, and looks the way its place says. -/
structure Inv (d : Handoff T W H) (q : List W) (th : T → H) : Prop where
  cus : Custody (d.places q th)
  queued : ∀ w ∈ q, d.Waits w (th (d.party w))
  held : ∀ i, ∀ w ∈ d.hand (th i), d.Knows (th i) w (th (d.party w))

namespace Inv
variable {d : Handoff T W H} {q q' : List W} {th th' : T → H} {t : T} {h h' : H} {w : W}

/-- Nobody waits, and no hand holds a waiter. -/
lemma empty (h : ∀ t, d.hand (th t) = []) : d.Inv [] th where
  cus := Custody.empty fun p => by cases p <;> simp [places, h]
  queued := by simp
  held i w hw := by
    rw [h i] at hw
    cases hw

/-- A thread that runs is not the one a queued waiter stands for. -/
lemma ne_of_queued (inv : d.Inv q th) (run : ¬d.Parked (th t)) (hw : w ∈ q) : d.party w ≠ t := by
  rintro rfl
  exact run (d.parked_of_waits (inv.queued w hw))

/-- The thread of a waiter in hand is parked. -/
lemma parked_of_held (inv : d.Inv q th) {i : T} (hw : w ∈ d.hand (th i)) :
    d.Parked (th (d.party w)) :=
  d.parked_of_knows hw (inv.held i w hw)

/-- A thread that runs is not the one a waiter in hand stands for. -/
lemma ne_of_held (inv : d.Inv q th) (run : ¬d.Parked (th t)) {i : T} (hw : w ∈ d.hand (th i)) :
    d.party w ≠ t := by
  rintro rfl
  exact run (inv.parked_of_held hw)

/-- Who holds a waiter runs. -/
lemma run_of_hand (hw : w ∈ d.hand (th t)) : ¬d.Parked (th t) := by
  intro pk
  rw [d.hand_of_parked pk] at hw
  cases hw

/-- A running party is at no place. -/
lemma not_at (inv : d.Inv q th) (run : ¬d.Parked (th t)) (p : Option T) : t ∉ d.places q th p := by
  intro hm
  cases p with
  | none =>
    obtain ⟨w, hw, e⟩ := List.mem_map.1 hm
    exact inv.ne_of_queued run hw e
  | some i =>
    obtain ⟨w, hw, e⟩ := List.mem_map.1 hm
    exact inv.ne_of_held run hw e

/-- Waiters in two hands stand for two threads. -/
lemma ne_of_hands (inv : d.Inv q th) {i j : T} (ne : i ≠ j) {v w : W} (hv : v ∈ d.hand (th i))
    (hw : w ∈ d.hand (th j)) : d.party v ≠ d.party w := by
  intro e
  have hi : d.party v ∈ d.places q th (some i) := List.mem_map_of_mem hv
  have hj : d.party v ∈ d.places q th (some j) := e ▸ List.mem_map_of_mem hw
  exact ne (Option.some.inj (inv.cus.unique hi hj))

/-- A queued waiter and one in hand stand for two threads. -/
lemma ne_of_queued_held (inv : d.Inv q th) {i : T} {v w : W} (hv : v ∈ q)
    (hw : w ∈ d.hand (th i)) : d.party v ≠ d.party w := by
  intro e
  have hq : d.party v ∈ d.places q th none := List.mem_map_of_mem hv
  have hi : d.party v ∈ d.places q th (some i) := e ▸ List.mem_map_of_mem hw
  cases inv.cus.unique hq hi

/-- Two waiters in one hand stand for two threads. -/
lemma ne_in_hand (inv : d.Inv q th) {i : T} {v w : W} (hv : v ∈ d.hand (th i))
    (hw : w ∈ d.hand (th i)) (ne : v ≠ w) : d.party v ≠ d.party w := by
  intro e
  exact ne (List.inj_on_of_nodup_map (inv.cus.nodup (some i)) hv hw e)

/-- Every step but a push: the moving party touches its own record and those of the waiters in its
hands, and takes waiters from the queue or lets go of some. -/
lemma step (inv : d.Inv q th) (run : ¬d.Parked (th t))
    (frame : ∀ i, i ≠ t → (∀ w ∈ d.hand (th t), d.party w ≠ i) → th' i = th i)
    (queue : q' ⊆ q)
    (sub : (q' ++ d.hand (th' t)).Subperm (q ++ d.hand (th t)))
    (held : ∀ w ∈ d.hand (th' t), d.Knows (th' t) w (th' (d.party w)))
    (empty : ∀ w ∈ d.hand (th t), d.hand (th' (d.party w)) = []) : d.Inv q' th' := by
  have other : ∀ i, i ≠ t → th' i = th i ∨ ∃ w ∈ d.hand (th t), d.party w = i := by
    intro i hi
    by_cases h : ∃ w ∈ d.hand (th t), d.party w = i
    · exact .inr h
    · exact .inl (frame i hi fun w hw e => h ⟨w, hw, e⟩)
  have hands : ∀ i, i ≠ t → d.hand (th' i) = d.hand (th i) := by
    intro i hi
    rcases other i hi with e | ⟨w, hw, rfl⟩
    · rw [e]
    · rw [empty w hw, d.hand_of_parked (inv.parked_of_held hw)]
  refine ⟨?_, fun w hw => ?_, fun i w hw => ?_⟩
  · apply inv.cus.move (p := none) (q := some t) (by simp)
    · intro r h0 ht
      cases r with
      | none => exact absurd rfl h0
      | some i => simp only [places, hands i fun e => ht (e ▸ rfl)]
    · simpa only [places, List.map_append] using Custody.subperm_map d.party sub
  · have hw' := queue hw
    rw [frame _ (inv.ne_of_queued run hw') fun v hv => (inv.ne_of_queued_held hw' hv).symm]
    exact inv.queued w hw'
  · by_cases hi : i = t
    · subst hi
      exact held w hw
    · rw [hands i hi] at hw
      rcases other i hi with e | ⟨v, hv, rfl⟩
      · rw [e, frame _ (inv.ne_of_held run hw) fun v hv => inv.ne_of_hands (Ne.symm hi) hv hw]
        exact inv.held i w hw
      · rw [d.hand_of_parked (inv.parked_of_held hv)] at hw
        cases hw

variable [DecidableEq T]

/-- A party with empty hands moves on. -/
lemma move (inv : d.Inv q th) (run : ¬d.Parked (th t)) (h0 : d.hand (th t) = [])
    (h1 : d.hand h = []) : d.Inv q (Function.update th t h) := by
  apply inv.step run
  · intro i hi _
    exact Function.update_of_ne hi _ _
  · exact List.Subset.refl _
  · rw [Function.update_self, h0, h1]
  · rw [Function.update_self, h1]
    simp
  · rw [h0]
    simp

/-- A party with empty hands queues itself. -/
lemma push (inv : d.Inv q th) (run : ¬d.Parked (th t)) (h0 : d.hand (th t) = [])
    (hp : d.party w = t) (hw : d.Waits w h) : d.Inv (q ++ [w]) (Function.update th t h) := by
  have h1 : d.hand h = [] := d.hand_of_parked (d.parked_of_waits hw)
  have hands : ∀ i, d.hand (Function.update th t h i) = d.hand (th i) := by
    intro i
    by_cases hi : i = t
    · subst hi
      rw [Function.update_self, h0, h1]
    · rw [Function.update_of_ne hi]
  refine ⟨?_, fun v hv => ?_, fun i v hv => ?_⟩
  · apply inv.cus.put (p := none) (inv.not_at run)
    · intro r hr
      cases r with
      | none => exact absurd rfl hr
      | some i => simp only [places, hands i]
    · simp [places, hp]
  · rcases List.mem_append.1 hv with hv | hv
    · rw [Function.update_of_ne (inv.ne_of_queued run hv)]
      exact inv.queued v hv
    · rw [List.mem_singleton.1 hv, hp, Function.update_self]
      exact hw
  · rw [hands i] at hv
    have hi : i ≠ t := by
      rintro rfl
      rw [h0] at hv
      cases hv
    rw [Function.update_of_ne hi, Function.update_of_ne (inv.ne_of_held run hv)]
    exact inv.held i v hv

/-- A party with empty hands takes waiters out of the queue. -/
lemma take (inv : d.Inv q th) (run : ¬d.Parked (th t)) (h0 : d.hand (th t) = [])
    (perm : (d.hand h ++ q').Perm q)
    (kn : ∀ v ∈ d.hand h, ∀ k, d.Waits v k → d.Knows h v k) :
    d.Inv q' (Function.update th t h) := by
  apply inv.step run
  · intro i hi _
    exact Function.update_of_ne hi _ _
  · exact fun v hv => perm.subset (List.mem_append_right _ hv)
  · rw [Function.update_self, h0, List.append_nil]
    exact (List.perm_append_comm.trans perm).subperm
  · intro v hv
    rw [Function.update_self] at hv ⊢
    have hq := perm.subset (List.mem_append_left _ hv)
    rw [Function.update_of_ne (inv.ne_of_queued run hq)]
    exact kn v hv _ (inv.queued v hq)
  · rw [h0]
    simp

/-- A party goes on with the same waiters in its hands. -/
lemma keep (inv : d.Inv q th) (hw : w ∈ d.hand (th t)) (h1 : d.hand h = d.hand (th t))
    (kn : ∀ v ∈ d.hand h, ∀ k, d.Knows (th t) v k → d.Knows h v k) :
    d.Inv q (Function.update th t h) := by
  have run := run_of_hand hw
  apply inv.step run
  · intro i hi _
    exact Function.update_of_ne hi _ _
  · exact List.Subset.refl _
  · rw [Function.update_self, h1]
  · intro v hv
    rw [Function.update_self] at hv ⊢
    have hv' := h1 ▸ hv
    rw [Function.update_of_ne (inv.ne_of_held run hv')]
    exact kn v hv _ (inv.held t v hv')
  · intro v hv
    rw [Function.update_of_ne (inv.ne_of_held run hv)]
    exact d.hand_of_parked (inv.parked_of_held hv)

/-- A party changes the record of one waiter in its hands and keeps or drops it. -/
lemma touch (inv : d.Inv q th) (hw : w ∈ d.hand (th t))
    (h1 : (d.hand h).Sublist (d.hand (th t))) (h2 : d.hand h' = [])
    (kn : w ∈ d.hand h → d.Knows h w h')
    (kn' : ∀ v ∈ d.hand h, v ≠ w → ∀ k, d.Knows (th t) v k → d.Knows h v k) :
    d.Inv q (Function.update (Function.update th (d.party w) h') t h) := by
  have run := run_of_hand hw
  apply inv.step run
  · intro i hi hne
    rw [Function.update_of_ne hi, Function.update_of_ne (hne w hw).symm]
  · exact List.Subset.refl _
  · rw [Function.update_self]
    exact (h1.append_left _).subperm
  · intro v hv
    rw [Function.update_self] at hv ⊢
    have hv' := h1.subset hv
    rw [Function.update_of_ne (inv.ne_of_held run hv')]
    by_cases e : v = w
    · subst e
      rw [Function.update_self]
      exact kn hv
    · rw [Function.update_of_ne (inv.ne_in_hand hv' hw e)]
      exact kn' v hv e _ (inv.held t v hv')
  · intro v hv
    rw [Function.update_of_ne (inv.ne_of_held run hv)]
    by_cases e : d.party v = d.party w
    · rw [e, Function.update_self]
      exact h2
    · rw [Function.update_of_ne e]
      exact d.hand_of_parked (inv.parked_of_held hv)

/-- A party lets the first waiter in its hands run again. -/
lemma release (inv : d.Inv q th) {ws : List W} (h0 : d.hand (th t) = w :: ws) (h1 : d.hand h = ws)
    (h2 : d.hand h' = [])
    (kn : ∀ v ∈ ws, v ≠ w → ∀ k, d.Knows (th t) v k → d.Knows h v k) :
    d.Inv q (Function.update (Function.update th (d.party w) h') t h) := by
  have nd : w ∉ ws := by
    have := (inv.cus.nodup (some t)).of_map
    rw [h0] at this
    exact (List.nodup_cons.1 this).1
  apply inv.touch
  · rw [h0]
    exact List.mem_cons_self
  · rw [h0, h1]
    exact List.sublist_cons_self w ws
  · exact h2
  · rw [h1]
    exact fun hw => absurd hw nd
  · rw [h1]
    exact kn

end Inv

/-- Whoever is switched out can be found, in the queue or in somebody's hands. -/
def Placed (d : Handoff T W H) (q : List W) (th : T → H) : Prop :=
  ∀ i, d.Parked (th i) → ∃ w, d.party w = i ∧ (w ∈ q ∨ ∃ j, w ∈ d.hand (th j))

/-- A step of `t`: the hands of others stay as they are and nobody else switches out; a waiter in the queue or in the
hands of `t` stays in one of the two, or runs; and `t` switches out only when it has queued itself. -/
lemma Placed.step {d : Handoff T W H} {q q' : List W} {th th' : T → H} {t : T} (pl : d.Placed q th)
    (hands : ∀ i, i ≠ t → d.hand (th i) ⊆ d.hand (th' i))
    (others : ∀ i, i ≠ t → d.Parked (th' i) → d.Parked (th i))
    (stay : ∀ w, w ∈ q ∨ w ∈ d.hand (th t) → (w ∈ q' ∨ w ∈ d.hand (th' t)) ∨ ¬d.Parked (th' (d.party w)))
    (self : d.Parked (th' t) → ∃ w, d.party w = t ∧ w ∈ q') : d.Placed q' th' := by
  intro i pk
  by_cases ei : i = t
  · subst ei
    obtain ⟨w, hp, hw⟩ := self pk
    exact ⟨w, hp, .inl hw⟩
  · obtain ⟨w, rfl, hw⟩ := pl i (others i ei pk)
    have here : w ∈ q ∨ w ∈ d.hand (th t) → w ∈ q' ∨ ∃ j, w ∈ d.hand (th' j) := by
      intro hw
      obtain (hw | hw) | runs := stay w hw
      · exact .inl hw
      · exact .inr ⟨t, hw⟩
      · exact absurd pk runs
    refine ⟨w, rfl, ?_⟩
    obtain hw | ⟨j, hw⟩ := hw
    · exact here (.inl hw)
    · by_cases ej : j = t
      · subst ej
        exact here (.inr hw)
      · exact .inr ⟨j, hands j ej hw⟩

end Handoff
end LTS
