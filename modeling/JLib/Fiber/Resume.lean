import JLib.Fiber.Model
import JLib.LTS.Lone

/-!
# A suspended fiber is resumed once

At most one worker is busy with the fiber and at most one resumer, and where they are, the status, the queues
and the context fit together in one of a few ways. A step of either changes one into another.
-/

namespace JLib.Fiber
open LTS

variable {ω ρ : Type} [DecidableEq ω] {s s' : State ω ρ} {l : Label ω ρ}

/-- The worker has not yet committed the suspension; whether the context is saved. -/
inductive Leaving : Pc → Bool → Prop where
  | asked : Leaving .asked false
  | back : Leaving .back true
  | commit : Leaving .commit true

/-- The resumer was not called, or it was and has not decided. -/
inductive Undecided : Bool → Rpc → Prop where
  | none : Undecided false .idle
  | load : Undecided true (.load 0)
  | casWants : Undecided true (.casWants 0)

/-- What fits the place of the worker and that of the resumer: the status, whether the resumer was called,
whether the context is saved, the entries in the queues, the pushes since the last. -/
inductive Fits : Pc → Rpc → FiberStatus → Bool → Bool → Nat → Nat → Prop where
  | queued {b} : Fits .away .idle .READY b true 1 1
  | taken {b} : Fits .taken .idle .READY b true 0 0
  | entering {b} : Fits .entering .idle .RUNNING b true 0 0
  | run {b} : Fits .run .idle .RUNNING b false 0 0
  -- it yields, or ends
  | askedYield {b} : Fits .asked .idle .WANTS_YIELD b false 0 0
  | backYield {b} : Fits .back .idle .WANTS_YIELD b true 0 0
  | yielded {b} : Fits .yielded .idle .WANTS_YIELD b true 0 0
  | askedDead {b} : Fits .asked .idle .DEAD b false 0 0
  | backDead {b} : Fits .back .idle .DEAD b true 0 0
  | dead {b} : Fits .away .idle .DEAD b true 0 0
  -- it suspends; or the resumer came first
  | wants {c c' b v} : Leaving c v → Undecided b c' → Fits c c' .WANTS_SUSPEND b v 0 0
  | met {c v} : Leaving c v → Fits c .idle .SUSPEND_SIGNALED true v 0 0
  | signaled : Fits .signaled .idle .SUSPEND_SIGNALED true true 0 0
  | push {b} : Fits .push .idle .READY b true 0 0
  -- the worker came first
  | parked {b c'} : Undecided b c' → Fits .away c' .SUSPENDED b true 0 0
  | again : Fits .away (.load 1) .SUSPENDED true true 0 0
  | casSuspended : Fits .away .casSuspended .SUSPENDED true true 0 0
  | requeue : Fits .away .push .READY true true 0 0

/-- One worker and one resumer at most are busy with the fiber, and all fits. -/
structure Sound (s : State ω ρ) : Prop where
  fits : ∃ c c', Lone .away s.worker c ∧ Lone .idle s.resumer c' ∧
    Fits c c' s.status s.called s.saved s.queued s.puts

/-- A step of the worker that is busy. -/
lemma Sound.worker {w : ω} {c c₁ : Pc} (so : Sound s) (h : s.worker w = c) (ne : c ≠ .away)
    (hw : s'.worker = Function.update s.worker w c₁) (hr : s'.resumer = s.resumer)
    (fits : ∀ {c'}, Fits c c' s.status s.called s.saved s.queued s.puts →
      Fits c₁ c' s'.status s'.called s'.saved s'.queued s'.puts) : Sound s' := by
  obtain ⟨c₀, c', lone, lone', ft⟩ := so.fits
  have busy : s.worker w ≠ .away := by
    rw [h]
    exact ne
  have e : c = c₀ := h.symm.trans (lone.eq_of_ne busy)
  subst e
  refine ⟨c₁, c', ?_, ?_, fits ft⟩
  · rw [hw]
    exact lone.move busy
  · rw [hr]
    exact lone'

variable [DecidableEq ρ]

omit [DecidableEq ω] in
/-- A step of the resumer that is busy. -/
lemma Sound.resumer {r : ρ} {c c₁ : Rpc} (so : Sound s) (h : s.resumer r = c) (ne : c ≠ .idle)
    (hw : s'.worker = s.worker) (hr : s'.resumer = Function.update s.resumer r c₁)
    (fits : ∀ {c'}, Fits c' c s.status s.called s.saved s.queued s.puts →
      Fits c' c₁ s'.status s'.called s'.saved s'.queued s'.puts) : Sound s' := by
  obtain ⟨c₀, c', lone, lone', ft⟩ := so.fits
  have busy : s.resumer r ≠ .idle := by
    rw [h]
    exact ne
  have e : c = c' := h.symm.trans (lone'.eq_of_ne busy)
  subst e
  refine ⟨c₀, c₁, ?_, ?_, fits ft⟩
  · rw [hw]
    exact lone
  · rw [hr]
    exact lone'.move busy

/-- A step keeps the account. -/
lemma Step.sound (st : Step s l s') (so : Sound s) : Sound s' := by
  obtain ⟨status, saved, queued, puts, worker, resumer, called⟩ := s
  cases st with
  | take h hq =>
    obtain ⟨c, c', lone, lone', ft⟩ := so.fits
    cases hq
    cases ft
    exact ⟨_, _, lone.enter, lone', .taken⟩
  | start h =>
    refine so.worker h (by rintro ⟨⟩) rfl rfl fun ft => ?_
    cases ft with
    | taken => exact .entering
    | wants leaving | met leaving => cases leaving
  | switchIn h =>
    refine so.worker h (by rintro ⟨⟩) rfl rfl fun ft => ?_
    cases ft with
    | entering => exact .run
    | wants leaving | met leaving => cases leaving
  | suspend h =>
    refine so.worker h (by rintro ⟨⟩) rfl rfl fun ft => ?_
    cases ft with
    | run => exact .wants .asked .none
    | wants leaving | met leaving => cases leaving
  | coYield h =>
    refine so.worker h (by rintro ⟨⟩) rfl rfl fun ft => ?_
    cases ft with
    | run => exact .askedYield
    | wants leaving | met leaving => cases leaving
  | die h =>
    refine so.worker h (by rintro ⟨⟩) rfl rfl fun ft => ?_
    cases ft with
    | run => exact .askedDead
    | wants leaving | met leaving => cases leaving
  | switchOut h =>
    refine so.worker h (by rintro ⟨⟩) rfl rfl fun ft => ?_
    cases ft with
    | askedYield => exact .backYield
    | askedDead => exact .backDead
    | wants _ undecided => exact .wants .back undecided
    | met => exact .met .back
  | back h =>
    refine so.worker h (by rintro ⟨⟩) rfl rfl fun ft => ?_
    cases ft with
    | backYield => exact .yielded
    | backDead => exact .dead
    | wants leaving undecided =>
      cases leaving
      exact .wants .commit undecided
    | met leaving =>
      cases leaving
      exact .met .commit
  | yielded h =>
    refine so.worker h (by rintro ⟨⟩) rfl rfl fun ft => ?_
    cases ft with
    | yielded => exact .push
    | wants leaving | met leaving => cases leaving
  | commit h hs =>
    cases hs
    refine so.worker h (by rintro ⟨⟩) rfl rfl fun ft => ?_
    cases ft with
    | wants leaving undecided =>
      cases leaving
      exact .parked undecided
  | commitFails h hs =>
    refine so.worker h (by rintro ⟨⟩) rfl rfl fun ft => ?_
    cases ft with
    | wants => exact absurd rfl hs
    | met leaving =>
      cases leaving
      exact .signaled
  | signaled h =>
    refine so.worker h (by rintro ⟨⟩) rfl rfl fun ft => ?_
    cases ft with
    | signaled => exact .push
    | wants leaving | met leaving => cases leaving
  | push h =>
    refine so.worker h (by rintro ⟨⟩) rfl rfl fun ft => ?_
    cases ft with
    | push => exact .queued
    | wants leaving | met leaving => cases leaving
  | call h new hs =>
    obtain ⟨c, c', lone, lone', ft⟩ := so.fits
    cases new
    -- before the call every resumer is idle
    have idle : c' = .idle ∧ Fits c (.load 0) status true saved queued puts := by
      rcases hs with hs | hs
      · cases hs
        cases ft with
        | wants leaving undecided =>
          cases undecided
          exact ⟨rfl, .wants leaving .load⟩
      · cases hs
        cases ft with
        | parked undecided =>
          cases undecided
          exact ⟨rfl, .parked .load⟩
    rw [idle.1] at lone'
    exact ⟨_, _, lone, lone'.enter, idle.2⟩
  | load h =>
    refine so.resumer h (by rintro ⟨⟩) rfl rfl fun ft => ?_
    cases ft with
    | wants leaving undecided =>
      cases undecided
      exact .wants leaving .casWants
    | parked undecided =>
      cases undecided
      exact .casSuspended
    | again => exact .casSuspended
  | casSuspended h hs =>
    refine so.resumer h (by rintro ⟨⟩) rfl rfl fun ft => ?_
    cases ft with
    | wants _ undecided => cases undecided
    | parked undecided => cases undecided
    | casSuspended => exact .requeue
  | casSuspendedFails h hs =>
    refine so.resumer h (by rintro ⟨⟩) rfl rfl fun ft => ?_
    cases ft with
    | wants _ undecided => cases undecided
    | parked undecided => cases undecided
    | casSuspended => exact absurd rfl hs
  | casWants h hs =>
    cases hs
    refine so.resumer h (by rintro ⟨⟩) rfl rfl fun ft => ?_
    cases ft with
    | wants leaving undecided =>
      cases undecided
      exact .met leaving
  | casWantsFails h hs =>
    refine so.resumer h (by rintro ⟨⟩) rfl rfl fun ft => ?_
    cases ft with
    | wants => exact absurd rfl hs
    | parked undecided =>
      cases undecided
      exact .again
  | requeue h =>
    refine so.resumer h (by rintro ⟨⟩) rfl rfl fun ft => ?_
    cases ft with
    | wants _ undecided => cases undecided
    | parked undecided => cases undecided
    | requeue => exact .queued

/-- The account holds in every state of a run. -/
lemma Sound.of_runs (rn : Reaches Step {} s) : Sound s := by
  have init : Sound ({} : State ω ρ) := ⟨_, _, .rest _, .rest _, .queued⟩
  refine rn.invariant init ?_
  intro s l s' so _ st
  exact st.sound so

/-- The fiber is on the core of the worker. -/
def Pc.Runs : Pc → Prop
  | run => True
  | asked => True
  | _ => False

namespace Fits
variable {c : Pc} {c' : Rpc} {st : FiberStatus} {b v : Bool} {q p n : Nat}

/-- The fiber is queued once at most and pushed once at most. -/
lemma once (ft : Fits c c' st b v q p) : q ≤ 1 ∧ p ≤ 1 := by
  cases ft with
  | queued => exact ⟨Nat.le_refl 1, Nat.le_refl 1⟩
  | _ => exact ⟨Nat.zero_le 1, Nat.zero_le 1⟩

/-- A fiber that is pushed or queued has its context saved and runs nowhere. -/
lemma saved (ft : Fits c c' st b v q p) (h : c = .push ∨ c' = .push ∨ 0 < q) : v = true ∧ ¬c.Runs := by
  cases ft with
  | queued | push | requeue => exact ⟨rfl, id⟩
  | wants leaving undecided =>
    rcases h with rfl | rfl | h
    · cases leaving
    · cases undecided
    · cases h
  | met leaving =>
    rcases h with rfl | no | h
    · cases leaving
    · cases no
    · cases h
  | parked undecided =>
    rcases h with no | rfl | h
    · cases no
    · cases undecided
    · cases h
  | _ => rcases h with h | h | h <;> cases h

/-- A resumer that has left has resumed the fiber. -/
lemma resumed (ft : Fits c .idle st true v q p) :
    st ≠ .SUSPENDED ∧ (c = .away → st ≠ .DEAD → q = 1 ∧ p = 1) := by
  cases ft with
  | queued => exact ⟨by rintro ⟨⟩, fun _ _ => ⟨rfl, rfl⟩⟩
  | wants _ undecided | parked undecided => cases undecided
  | met leaving =>
    refine ⟨by rintro ⟨⟩, fun away => ?_⟩
    rw [away] at leaving
    cases leaving
  | dead => exact ⟨by rintro ⟨⟩, fun _ alive => absurd rfl alive⟩
  | _ => exact ⟨by rintro ⟨⟩, by rintro ⟨⟩⟩

/-- A resumer tries twice at most. -/
lemma tries (ft : Fits c (.load n) st b v q p) : n ≤ 1 := by
  cases ft with
  | wants _ undecided | parked undecided =>
    cases undecided
    exact Nat.zero_le 1
  | again => exact Nat.le_refl 1

end Fits

/-- Over any number of suspensions: the task is never put on a queue twice before it is taken, and whoever puts
it there finds its context saved; when the resumer of a suspension has returned the fiber is not left
`SUSPENDED`, and when the worker is through as well the task is on a queue, put there once; a resumer goes round
its loop twice at most; and no two workers run the fiber. -/
theorem resumed_once (rn : Reaches Step ({} : State ω ρ) s) :
    (s.queued ≤ 1 ∧ s.puts ≤ 1) ∧
    ((∃ w, s.worker w = .push) ∨ (∃ r, s.resumer r = .push) ∨ 0 < s.queued → s.saved = true ∧
      ∀ w, ¬(s.worker w).Runs) ∧
    (s.called = true → (∀ r, s.resumer r = .idle) → s.status ≠ .SUSPENDED ∧
      ((∀ w, s.worker w = .away) → s.status ≠ .DEAD → s.queued = 1 ∧ s.puts = 1)) ∧
    (∀ {r n}, s.resumer r = .load n → n ≤ 1) ∧
    ∀ {w w'}, (s.worker w).Runs → (s.worker w').Runs → w = w' := by
  obtain ⟨c, c', lone, lone', ft⟩ := (Sound.of_runs rn).fits
  have worker : ∀ {w}, s.worker w ≠ .away → s.worker w = c := lone.eq_of_ne
  have resumer : ∀ {r}, s.resumer r ≠ .idle → s.resumer r = c' := lone'.eq_of_ne
  have runs : ∀ {w}, (s.worker w).Runs → s.worker w ≠ .away := by
    intro w h e
    rw [e] at h
    exact h
  refine ⟨ft.once, fun h => ?_, fun called idle => ?_, fun {r n} h => ?_, fun {w w'} h h' => ?_⟩
  · have at_push : c = .push ∨ c' = .push ∨ 0 < s.queued := by
      rcases h with ⟨w, h⟩ | ⟨r, h⟩ | h
      · exact .inl ((worker (by rw [h]; rintro ⟨⟩)).symm.trans h)
      · exact .inr (.inl ((resumer (by rw [h]; rintro ⟨⟩)).symm.trans h))
      · exact .inr (.inr h)
    obtain ⟨saved, not⟩ := ft.saved at_push
    refine ⟨saved, fun w h => not ?_⟩
    rw [← worker (runs h)]
    exact h
  · have e : c' = .idle := lone'.eq_rest idle
    rw [e, called] at ft
    exact ⟨ft.resumed.1, fun away => ft.resumed.2 (lone.eq_rest away)⟩
  · have e : c' = .load n := (resumer (by rw [h]; rintro ⟨⟩)).symm.trans h
    rw [e] at ft
    exact ft.tries
  · exact lone.unique (runs h) (runs h')

/-- The resumer finds the fiber still on its way out, the worker puts the task on the queue. -/
theorem resumed_once_signaled : ∃ s : State Unit Unit, Reaches Step {} s ∧ s.called = true ∧
    s.queued = 1 ∧ s.puts = 1 := by
  have r : Reaches Step ({} : State Unit Unit) {} := .refl
  have r := r.next (.worker ()) trivial (.take rfl rfl)
  have r := r.next (.worker ()) trivial (.start rfl)
  have r := r.next (.worker ()) trivial (.switchIn rfl)
  have r := r.next (.worker ()) trivial (.suspend rfl)
  have r := r.next (.call ()) trivial (.call rfl rfl (.inl rfl))
  have r := r.next (.resumer ()) trivial (.load rfl)
  have r := r.next (.resumer ()) trivial (.casWants rfl rfl)
  have r := r.next (.worker ()) trivial (.switchOut rfl)
  have r := r.next (.worker ()) trivial (.back rfl)
  have r := r.next (.worker ()) trivial (.commitFails rfl (by rintro ⟨⟩))
  have r := r.next (.worker ()) trivial (.signaled rfl)
  have r := r.next (.worker ()) trivial (.push rfl)
  exact ⟨_, r, rfl, ((resumed_once r).2.2.1 rfl fun _ => rfl).2 (fun _ => rfl) (by rintro ⟨⟩)⟩

end JLib.Fiber
