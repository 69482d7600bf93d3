import JLib.Registry.Account

/-!
# A fiber comes back to the pool

In a run in which the creditors of every dying fiber have chains, a fiber can be found at exactly one place: in
use, in the pool, in hand, or in one list. It comes to the pool when all that were recorded have discharged it.
-/

namespace JLib.Registry
open LTS Links

variable {φ θ δ : Type} [DecidableEq θ] {size : Nat} {s : State φ θ δ} {f : φ}

/-- Where the fiber can be found. -/
def State.At (s : State φ θ δ) (f : φ) : Place θ → Prop
  | .pool => 0 < s.pool f
  | .use => s.place f = .use
  | .hand t => (s.thread t).hand = some f
  | .list t => ∃ l, SList s.cleanupNext (s.thread t).rest l ∧ f ∈ l
  | .chain h => ∃ l, SList s.cleanupNext (s.inbound h) l ∧ f ∈ l
  | .lost => False

/-- A fiber that is not lost can be found at its place and nowhere else. -/
lemma Chained.at_iff (ch : Chained s) (found : s.place f ≠ .lost) (p : Place θ) : s.At f p ↔ s.place f = p := by
  cases p with
  | pool =>
    change 0 < s.pool f ↔ _
    rw [ch.pool f]
    split
    · rename_i e
      exact ⟨fun _ => e, fun _ => Nat.one_pos⟩
    · rename_i e
      exact ⟨fun h => absurd h (Nat.lt_irrefl 0), fun h => absurd h e⟩
  | use => rfl
  | hand t => exact ch.hand t f
  | list t => exact (ch.list t).mem_iff f
  | chain h => exact (ch.chain h).mem_iff f
  | lost => exact ⟨False.elim, found⟩

variable [DecidableEq φ]

/-- The chains are spelled in every state of a run. -/
lemma Chained.of_runs {ok : State φ θ δ → Label φ θ δ → Prop} (rn : Runs (Step size) ok {} s) : Chained s :=
  rn.invariant (I := Chained) .init fun ch _ st => st.chained ch

omit [DecidableEq φ] in
/-- A fiber that nobody has is nowhere. -/
lemma Chained.nowhere (ch : Chained s) (lost : s.place f = .lost) (p : Place θ) : ¬s.At f p := by
  intro h
  cases p with
  | pool =>
    change 0 < s.pool f at h
    rw [ch.pool f, lost] at h
    exact absurd h (Nat.lt_irrefl 0)
  | use => exact absurd (lost.symm.trans h) nofun
  | hand t => exact absurd (lost.symm.trans ((ch.hand t f).1 h)) nofun
  | list t => exact absurd (lost.symm.trans (((ch.list t).mem_iff f).1 h)) nofun
  | chain h' => exact absurd (lost.symm.trans (((ch.chain h').mem_iff f).1 h)) nofun
  | lost => exact h

/-- In a run under the condition every fiber is accounted for. -/
lemma Accounted.of_runs (rn : Runs (Step size) (Addressed size) {} s) : Chained s ∧ Accounted size s :=
  rn.invariant (I := fun s => Chained s ∧ Accounted size s) ⟨.init, .init⟩ fun inv ok st =>
    ⟨st.chained inv.1, st.accounted ok inv.1 inv.2⟩

/-- In a run under the condition every fiber is at one place, where its account says; it goes to the pool once, when
every recorded creditor has visited it. -/
theorem cleaned_up (rn : Runs (Step size) (Addressed size) {} s) (f : φ) :
    (∃! p, s.At f p) ∧ s.pool f ≤ 1 ∧ (s.book f).Exact ∧
      (∀ h, s.At f (.chain h) → (s.book f).due = some h) ∧
      (∀ t, s.At f (.list t) → (s.book f).due = (s.thread t).drains) ∧
      (∀ t, s.At f (.hand t) → (s.book f).due = (s.thread t).due) ∧
      (∀ t k, s.thread t = .returned f k → ∀ h, (s.book f).creditors h = false ∧ ¬s.At f (.chain h)) ∧
      (s.At f .pool → ∀ h, (s.book f).recorded h = true → h ∈ (s.book f).visits) := by
  obtain ⟨ch, ac⟩ := Accounted.of_runs rn
  have ow := ac.owes f
  have found : s.place f ≠ .lost := by
    intro e
    rw [e] at ow
    exact ow
  have here := ch.at_iff found
  refine ⟨⟨s.place f, (here _).2 rfl, fun p h => ((here p).1 h).symm⟩, ?_, ac.exact f, fun h a => ?_, fun t a => ?_,
    fun t a => ?_, fun t k e h => ?_, fun a h rec => ?_⟩
  · rw [ch.pool f]
    split
    · exact Nat.le_refl 1
    · exact Nat.zero_le 1
  · rw [(here _).1 a] at ow
    exact ow.1
  · rw [(here _).1 a] at ow
    exact ow.1
  · rw [(here _).1 a] at ow
    exact ow.1
  · obtain ⟨-, -, -, none⟩ := ac.mine (f := f) ch e rfl
    refine ⟨none h, fun a => ?_⟩
    have hand : s.place f = .hand t := (ch.hand t f).1 (by rw [e]; rfl)
    rw [(here _).1 a] at hand
    cases hand
  · rw [(here _).1 a] at ow
    obtain ⟨due, none⟩ := ow
    rcases ((ac.exact f).known h).1 rec with v | c | d
    · exact v
    · rw [none h] at c
      cases c
    · rw [due] at d
      cases d

/-- One fiber with debts to the first two holders: it goes to both and then to the pool. -/
theorem cleaned_up_two : ∃ s : State Unit Unit Unit, Runs (Step 68) (Addressed 68) {} s ∧
    (s.book ()).visits = [0, 1] ∧ (s.book ()).paid = [(0, ()), (1, ())] ∧ s.At () .pool ∧ ∃! p, s.At () p := by
  have small : ∀ h : Nat, decide (h < 2) = true → h < 2 := fun h e => of_decide_eq_true e
  have r : Runs (Step 68) (Addressed 68) ({} : State Unit Unit Unit) {} := .refl
  have r := r.next (.acquire ()) trivial (.acquire rfl)
  have r := r.next (.die () () (fun h => decide (h < 2)) [(0, ()), (1, ())])
    (fun h e => Nat.lt_trans (small h e) (by decide))
    (.die rfl rfl (fun h e => Nat.lt_trans (small h e) (by decide)) (by decide))
  have r := r.next (.go ()) trivial (.take (h := 0) rfl rfl (by rintro _ ⟨⟩))
  have r := r.next (.go ()) trivial (.deliver rfl (by decide))
  have r := r.next (.go ()) trivial (.link rfl)
  have r := r.next (.go ()) trivial (.cas rfl rfl)
  have r := r.next (.drain () 0) trivial (.drain rfl (by decide))
  have r := r.next (.go ()) trivial (.walkNext rfl)
  have r := r.next (.go ()) trivial (.discharge rfl)
  have r := r.next (.go ()) trivial (.take (h := 1) rfl rfl fun h lt => by
    rw [Nat.lt_one_iff.1 lt]
    rfl)
  have r := r.next (.go ()) trivial (.deliver rfl (by decide))
  have r := r.next (.go ()) trivial (.link rfl)
  have r := r.next (.go ()) trivial (.cas rfl rfl)
  have r := r.next (.go ()) trivial (.walkEnd rfl)
  have r := r.next (.drain () 1) trivial (.drain rfl (by decide))
  have r := r.next (.go ()) trivial (.walkNext rfl)
  have r := r.next (.go ()) trivial (.discharge rfl)
  have r := r.next (.go ()) trivial (.takeNone rfl fun h => by
    change Function.update (Function.update (fun h => decide (h < 2)) 0 false) 1 false h = false
    rw [Function.update_apply, Function.update_apply]
    split
    · rfl
    · split
      · rfl
      · exact decide_eq_false (by omega))
  have r := r.next (.go ()) trivial (.recycle rfl rfl)
  have r := r.next (.go ()) trivial (.returned rfl)
  have r := r.next (.go ()) trivial (.walkEnd rfl)
  exact ⟨_, r, rfl, rfl, Nat.one_pos, (cleaned_up r ()).1⟩

/-- A fiber that ran on worker 1 dies with a debt to holder 100, which has no chain: there are 4 workers and 64
threads besides. Worker 1 takes it from its chain, and the next holder cannot be reached. -/
theorem creditor_without_chain : ∃ s : State Unit Unit Unit, Reaches (Step 68) {} s ∧
    (s.book ()).creditors 100 = true ∧ (s.book ()).debts = [(100, ())] ∧ (∀ t, s.thread t = .idle) ∧
      ∀ p, ¬s.At () p := by
  have r : Reaches (Step 68) ({} : State Unit Unit Unit) {} := .refl
  have r := r.next (.acquire ()) trivial (.acquire rfl)
  have r := r.next (.die () () (fun h => h == 1 || h == 100) [(100, ())]) trivial
    (.die rfl rfl (fun h e => by
      rcases Bool.or_eq_true_iff.1 e with e | e
      · rw [beq_iff_eq.1 e]
        decide
      · rw [beq_iff_eq.1 e]
        decide) (by decide))
  have r := r.next (.go ()) trivial (.take (h := 1) rfl rfl fun h lt => by
    rw [Nat.lt_one_iff.1 lt]
    rfl)
  have r := r.next (.go ()) trivial (.deliver rfl (by decide))
  have r := r.next (.go ()) trivial (.link rfl)
  have r := r.next (.go ()) trivial (.cas rfl rfl)
  have r := r.next (.drain () 1) trivial (.drain rfl (by decide))
  have r := r.next (.go ()) trivial (.walkNext rfl)
  have r := r.next (.go ()) trivial (.discharge rfl)
  have r := r.next (.go ()) trivial (.take (h := 100) rfl rfl fun h lt => by
    change Function.update (fun h => h == 1 || h == 100) 1 false h = false
    rw [Function.update_apply]
    split
    · rfl
    · rename_i ne
      rw [beq_false_of_ne ne, beq_false_of_ne (Nat.ne_of_lt lt)]
      rfl)
  have r := r.next (.go ()) trivial (.deliverFails rfl (by decide))
  have r := r.next (.go ()) trivial (.restore rfl)
  have r := r.next (.go ()) trivial (.walkEnd rfl)
  exact ⟨_, r, rfl, rfl, fun _ => rfl, (Chained.of_runs r).nowhere rfl⟩

end JLib.Registry
