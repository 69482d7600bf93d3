import JLib.LTS.Lone
import JLib.LTS.Runs
import Mathlib.Logic.Function.Basic

/-!
# The reclaim sweep

`HandOffFiberDebts`, `ReleasePendingDebts` and `QueueReclaim` of `src/FiberRegistry.cpp`. Debts are spliced
onto the stack `g_pendingDebts` and a sweep is queued, unless `g_reclaimQueued` says that one is; the sweep
takes the whole stack, releases what it took, clears the flag and looks at the stack again. The activities are
the hand-offs, the returns to the pool and the sweeps, any number of them at once; a deleter that hands off
debts is an activity of its own. Every access to the stack or to the flag is a step.

`Tick` and `Scan`, which the sweep calls first, are left out: they have state of their own.
-/

namespace JLib.Registry.Reclaim
open LTS

/-- Who calls `QueueReclaim`. -/
inductive Caller where
  | handOff
  | returnToPool
  | sweep

inductive Pc (D : Type) where
  | idle
  -- `HandOffFiberDebts` of this chain
  | load (chain : List D)
  | splice (old : Option D) (chain : List D)
  -- `QueueReclaim`, from the exchange of the flag on
  | test (c : Caller)
  | create (c : Caller)
  | push (c : Caller)
  -- the sweep
  | drain
  | release (debts : List D)
  | clear
  | recheck

structure State (T D : Type) where
  pendingDebts : List D := []
  reclaimQueued : Bool := false
  -- the sweeps in the lanes
  queued : Nat := 0
  pc : T → Pc D := fun _ => .idle

inductive Label (T : Type) where
  | act (t : T)
  -- the scheduler is not initialized, and the two calls that fail
  | noPool (t : T)
  | noTask (t : T)
  | noPush (t : T)

variable {T D : Type} [DecidableEq T]

def State.goto (s : State T D) (t : T) (pc : Pc D) : State T D :=
  { s with pc := Function.update s.pc t pc }

inductive Step : State T D → Label T → State T D → Prop where
  | handOff {s : State T D} {t chain} :
    s.pc t = .idle →
    chain ≠ [] →
    Step s (.act t) (s.goto t (.load chain))
  | load {s : State T D} {t chain} :
    s.pc t = .load chain →
    Step s (.act t) (s.goto t (.splice s.pendingDebts.head? chain))
  | splice {s : State T D} {t chain} :
    s.pc t = .splice s.pendingDebts.head? chain →
    Step s (.act t) { s.goto t (.test .handOff) with pendingDebts := chain ++ s.pendingDebts }
  -- the exchange is a weak one
  | spliceFail {s : State T D} {t old chain} :
    s.pc t = .splice old chain →
    Step s (.act t) (s.goto t (.splice s.pendingDebts.head? chain))
  | returnToPool {s : State T D} {t} :
    s.pc t = .idle →
    Step s (.act t) (s.goto t (.test .returnToPool))
  | test {s : State T D} {t c} :
    s.pc t = .test c →
    s.reclaimQueued = false →
    Step s (.act t) { s.goto t (.create c) with reclaimQueued := true }
  | testFail {s : State T D} {t c} :
    s.pc t = .test c →
    s.reclaimQueued = true →
    Step s (.act t) (s.goto t .idle)
  | noPool {s : State T D} {t c} :
    s.pc t = .create c →
    Step s (.noPool t) { s.goto t .idle with reclaimQueued := false }
  | noTask {s : State T D} {t c} :
    s.pc t = .create c →
    Step s (.noTask t) { s.goto t .idle with reclaimQueued := false }
  | create {s : State T D} {t c} :
    s.pc t = .create c →
    Step s (.act t) (s.goto t (.push c))
  | noPush {s : State T D} {t c} :
    s.pc t = .push c →
    Step s (.noPush t) { s.goto t .idle with reclaimQueued := false }
  | push {s : State T D} {t c} :
    s.pc t = .push c →
    Step s (.act t) { s.goto t .idle with queued := s.queued + 1 }
  | sweep {s : State T D} {t n} :
    s.pc t = .idle →
    s.queued = n + 1 →
    Step s (.act t) { s.goto t .drain with queued := n }
  | drain {s : State T D} {t} :
    s.pc t = .drain →
    Step s (.act t) { s.goto t (.release s.pendingDebts) with pendingDebts := [] }
  | release {s : State T D} {t d ds} :
    s.pc t = .release (d :: ds) →
    Step s (.act t) (s.goto t (.release ds))
  | released {s : State T D} {t} :
    s.pc t = .release [] →
    Step s (.act t) (s.goto t .clear)
  | clear {s : State T D} {t} :
    s.pc t = .clear →
    Step s (.act t) { s.goto t .recheck with reclaimQueued := false }
  | recheck {s : State T D} {t} :
    s.pc t = .recheck →
    s.pendingDebts ≠ [] →
    Step s (.act t) (s.goto t (.test .sweep))
  | done {s : State T D} {t} :
    s.pc t = .recheck →
    s.pendingDebts = [] →
    Step s (.act t) (s.goto t .idle)

/-- There is a scheduler, it has memory for the task and takes it. -/
def Accepts (_ : State T D) : Label T → Prop
  | .act _ => True
  | .noPool _ => False
  | .noTask _ => False
  | .noPush _ => False

/-! ## Who owes a sweep -/

/-- Its debts are on the stack, and it has not looked at the flag since. -/
def Pc.Appended : Pc D → Prop
  | .test .handOff => True
  | _ => False

/-- In the task of a sweep. -/
def Pc.Sweeping : Pc D → Prop
  | .drain | .release _ | .clear | .recheck | .test .sweep | .create .sweep | .push .sweep => True
  | _ => False

/-- It will look at the flag with the debts on the stack. -/
def Pc.Looks : Pc D → Prop
  | .test .handOff | .recheck | .test .sweep => True
  | _ => False

/-- It has set the flag, or runs the sweep that the flag says is queued. -/
def Pc.owns : Pc D → Bool
  | .create _ | .push _ | .drain | .release _ | .clear => true
  | _ => false

variable {s u : State T D} {a : Label T} {t : T} {pc : Pc D}

/-- The thread is where it went. -/
lemma goto_own (s : State T D) : (s.goto t pc).pc t = pc := Function.update_self ..

/-- The others are where they were. -/
lemma goto_other {x : T} (ne : x ≠ t) : (s.goto t pc).pc x = s.pc x := Function.update_of_ne ne ..

/-! ## The flag -/

/-- The flag is set for one sweep: one that is being queued, is queued, or has not cleared it. -/
def Owned (s : State T D) : Prop :=
  ∃ b, Lone false (fun t => (s.pc t).owns) b ∧
    ((s.reclaimQueued = false ∧ b = false ∧ s.queued = 0) ∨
      (s.reclaimQueued = true ∧ b = true ∧ s.queued = 0) ∨
      (s.reclaimQueued = true ∧ b = false ∧ s.queued = 1))

/-- A thread's step changes what it owns. -/
lemma owns_goto (s : State T D) (t : T) (pc : Pc D) : (fun x => ((s.goto t pc).pc x).owns) =
    Function.update (fun x => (s.pc x).owns) t pc.owns :=
  Function.comp_update Pc.owns s.pc t pc

/-- A step that neither takes nor gives up the flag. -/
lemma Owned.goto (own : Owned s) (same : pc.owns = (s.pc t).owns) : Owned (s.goto t pc) := by
  obtain ⟨b, lone, flag⟩ := own
  refine ⟨b, ?_, flag⟩
  rw [owns_goto, same, Function.update_eq_self]
  exact lone

/-- Whoever finds the flag clear is the one to queue a sweep. -/
lemma Owned.set (own : Owned s) (clear : s.reclaimQueued = false) (owns : pc.owns = true) :
    Owned { s.goto t pc with reclaimQueued := true } := by
  obtain ⟨b, lone, ⟨_, rfl, none⟩ | ⟨set, _, _⟩ | ⟨set, _, _⟩⟩ := own
  · refine ⟨true, ?_, .inr (.inl ⟨rfl, rfl, none⟩)⟩
    show Lone false (fun x => ((s.goto t pc).pc x).owns) true
    rw [owns_goto, owns]
    exact lone.enter
  · rw [clear] at set
    cases set
  · rw [clear] at set
    cases set

/-- The sweep it is set for. -/
lemma Owned.owner (own : Owned s) (pc : Pc D) (owns : (s.pc t).owns = true) (out : pc.owns = false) :
    Lone false (fun x => ((s.goto t pc).pc x).owns) false ∧ s.reclaimQueued = true ∧ s.queued = 0 := by
  obtain ⟨b, lone, flag⟩ := own
  have ne : (s.pc t).owns ≠ false := by
    rw [owns]
    rintro ⟨⟩
  have here : (s.pc t).owns = b := lone.eq_of_ne ne
  rw [owns] at here
  refine ⟨?_, ?_⟩
  · rw [owns_goto, out]
    exact lone.move ne
  · obtain ⟨_, no, _⟩ | ⟨set, _, none⟩ | ⟨_, no, _⟩ := flag
    · rw [← here] at no
      cases no
    · exact ⟨set, none⟩
    · rw [← here] at no
      cases no

/-- A step keeps the flag with one sweep. -/
lemma Owned.step (own : Owned s) (st : Step s a u) : Owned u := by
  cases st with
  | handOff hpc _ | load hpc | splice hpc | spliceFail hpc | returnToPool hpc | testFail hpc _ | create hpc
  | drain hpc | release hpc | released hpc | recheck hpc _ | done hpc _ => exact own.goto (by rw [hpc]; rfl)
  | test hpc clear => exact own.set clear rfl
  | noPool hpc | noTask hpc | noPush hpc =>
    obtain ⟨lone, _, none⟩ := own.owner .idle (by rw [hpc]; rfl) rfl
    exact ⟨false, lone, .inl ⟨rfl, rfl, none⟩⟩
  | clear hpc =>
    obtain ⟨lone, _, none⟩ := own.owner .recheck (by rw [hpc]; rfl) rfl
    exact ⟨false, lone, .inl ⟨rfl, rfl, none⟩⟩
  | push hpc =>
    obtain ⟨lone, set, none⟩ := own.owner .idle (by rw [hpc]; rfl) rfl
    exact ⟨false, lone, .inr (.inr ⟨set, rfl, congrArg (· + 1) none⟩)⟩
  | sweep hpc some =>
    obtain ⟨b, lone, ⟨_, _, none⟩ | ⟨_, _, none⟩ | ⟨set, rfl, one⟩⟩ := own
    · rw [some] at none
      cases none
    · rw [some] at none
      cases none
    · refine ⟨true, ?_, .inr (.inl ⟨set, rfl, ?_⟩)⟩
      · show Lone false (fun x => ((s.goto _ .drain).pc x).owns) true
        rw [owns_goto]
        exact lone.enter
      · rw [some] at one
        exact Nat.succ.inj one

/-! ## The debts -/

/-- Debts on the stack have someone who will look at the flag, unless it is set. -/
def Watched (s : State T D) : Prop :=
  s.pendingDebts ≠ [] → s.reclaimQueued = false → ∃ t, (s.pc t).Looks

/-- Who goes on was not to look at the flag, or still is. -/
lemma Watched.goto (wat : Watched s) (keep : (s.pc t).Looks → pc.Looks) : Watched (s.goto t pc) := by
  intro some clear
  obtain ⟨x, looks⟩ := wat some clear
  refine ⟨x, ?_⟩
  by_cases e : x = t
  · subst e
    rw [goto_own]
    exact keep looks
  · rw [goto_other e]
    exact looks

/-- A thread that goes to look is one that will look. -/
lemma looks_goto (s : State T D) (looks : pc.Looks) : ∃ x, ((s.goto t pc).pc x).Looks := by
  refine ⟨t, ?_⟩
  rw [goto_own]
  exact looks

/-- A step that is accepted leaves no debt unwatched. -/
lemma Watched.step (wat : Watched s) (ok : Accepts s a) (st : Step s a u) : Watched u := by
  cases st with
  | handOff hpc _ | load hpc | spliceFail hpc | returnToPool hpc | create hpc | push hpc | sweep hpc _
  | release hpc | released hpc =>
    apply wat.goto
    rw [hpc]
    exact False.elim
  | splice hpc => exact fun _ _ => looks_goto s trivial
  | test hpc _ =>
    rintro _ ⟨⟩
  | testFail hpc set =>
    intro _ clear
    rw [show s.reclaimQueued = false from clear] at set
    cases set
  | noPool hpc | noTask hpc | noPush hpc => exact ok.elim
  | drain hpc => exact fun some => absurd rfl some
  | clear hpc => exact fun _ _ => looks_goto s trivial
  | recheck hpc _ => exact fun _ _ => looks_goto s trivial
  | done hpc none => exact fun some => absurd none some

/-- Who will look is in a sweep or has appended. -/
lemma Pc.Looks.waits (h : pc.Looks) : pc.Sweeping ∨ pc.Appended := by
  cases pc with
  | test c =>
    cases c with
    | handOff => exact .inr trivial
    | returnToPool => exact h.elim
    | sweep => exact .inl trivial
  | recheck => exact .inl trivial
  | _ => exact h.elim

/-- Debts on the stack have a sweep queued or running or the flag set, or a hand-off has yet to look at the
flag; a flag that is set has one sweep, and when all is quiet no debts are left and the flag is clear. -/
theorem no_sweep_lost (rn : Runs Step Accepts ({} : State T D) s) :
    ¬ (s.pendingDebts ≠ [] ∧ s.reclaimQueued = false ∧ s.queued = 0 ∧
      ∀ t, ¬ (s.pc t).Sweeping ∧ ¬ (s.pc t).Appended) ∧
    (s.reclaimQueued = true → s.queued = 1 ∨ s.queued = 0 ∧ ∃! t, (s.pc t).owns = true) ∧
    ((∀ t, s.pc t = .idle) → s.queued = 0 → s.pendingDebts = [] ∧ s.reclaimQueued = false) := by
  have own : Owned s := by
    refine rn.invariant (I := Owned) ?_ fun own _ st => own.step st
    exact ⟨false, .rest false, .inl ⟨rfl, rfl, rfl⟩⟩
  have wat : Watched s := by
    refine rn.invariant (I := Watched) ?_ fun wat ok st => wat.step ok st
    exact fun some => absurd rfl some
  have set : s.reclaimQueued = true → s.queued = 1 ∨ s.queued = 0 ∧ ∃! t, (s.pc t).owns = true := by
    intro set
    obtain ⟨b, lone, ⟨no, _, _⟩ | ⟨_, rfl, none⟩ | ⟨_, _, one⟩⟩ := own
    · rw [set] at no
      cases no
    · rcases lone with ⟨_, no⟩ | ⟨t, here, others⟩
      · cases no
      · refine .inr ⟨none, t, here, fun x there => ?_⟩
        by_contra ne
        have out : (s.pc x).owns = false := others x ne
        exact Bool.false_ne_true (out.symm.trans there)
    · exact .inl one
  refine ⟨?_, set, fun idle none => ?_⟩
  · rintro ⟨some, clear, _, nobody⟩
    obtain ⟨t, looks⟩ := wat some clear
    exact looks.waits.elim (nobody t).1 (nobody t).2
  · have clear : s.reclaimQueued = false := by
      by_contra no
      rcases set (eq_true_of_ne_false no) with one | ⟨_, t, owns, _⟩
      · rw [none] at one
        cases one
      · simp only [idle t] at owns
        cases owns
    refine ⟨?_, clear⟩
    by_contra some
    obtain ⟨t, looks⟩ := wat some clear
    rw [idle t] at looks
    exact looks

/-- A hand-off splices its debts onto the empty stack. -/
lemma appended (t : T) (d : D) : Runs Step Accepts ({} : State T D)
    { ((({} : State T D).goto t (.load [d])).goto t (.splice none [d])).goto t (.test .handOff) with
      pendingDebts := [d] } := by
  refine ((Runs.refl.next (.act t) trivial (.handOff rfl (List.cons_ne_nil d []))).next (.act t) trivial
    (.load (goto_own _))).next (.act t) trivial ?_
  exact Step.splice (s := (({} : State T D).goto t (.load [d])).goto t (.splice none [d])) (goto_own _)

/-- A debt is appended and its sweep is queued. -/
theorem no_sweep_lost_queued : ∃ s : State Unit Nat, Runs Step Accepts {} s ∧ s.pendingDebts = [7] ∧
    (s.queued = 1 ∨ s.queued = 0 ∧ ∃! t, (s.pc t).owns = true) := by
  have run := ((appended () 7).next (.act ()) trivial (.test (c := .handOff) rfl rfl)).next (.act ()) trivial
    (.create (c := .handOff) rfl)
  exact ⟨_, run, rfl, (no_sweep_lost run).2.1 rfl⟩

/-- Between its splice and the exchange of the flag a hand-off has debts on the stack and no sweep; and
without a scheduler they stay there, all quiet. -/
theorem appended_unqueued :
    (∃ s : State Unit Nat, Runs Step Accepts {} s ∧ s.pendingDebts ≠ [] ∧ s.reclaimQueued = false ∧
      s.queued = 0 ∧ ∀ t, ¬ (s.pc t).Sweeping) ∧
    ∃ s : State Unit Nat, Reaches Step {} s ∧ s.pendingDebts ≠ [] ∧ s.reclaimQueued = false ∧
      s.queued = 0 ∧ ∀ t, s.pc t = .idle := by
  refine ⟨⟨_, appended () 7, List.cons_ne_nil 7 [], rfl, rfl, fun t => ?_⟩, ?_⟩
  · exact id
  · have run := ((appended () 7).reaches.next (.act ()) trivial (.test (c := .handOff) rfl rfl)).next
      (.noPool ()) trivial (.noPool (c := .handOff) rfl)
    exact ⟨_, run, List.cons_ne_nil 7 [], rfl, rfl, fun t => rfl⟩

end JLib.Registry.Reclaim
