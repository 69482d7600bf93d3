import JLib.CondVar.Custody

/-!
# Condition variable: the mutex around a wait

A waiting call is made with the mutex, gives it up, and has it again when it returns, cancelled or not.
`Held` follows a party through the places of its call where the mutex is its own; the mutex has its own
invariants through all of this, so there is no other owner.
-/

namespace JLib.Mutex
open LTS

variable {T : Type} [DecidableEq T]

/-- A party outside all calls is nobody's waiter and stays as it is. -/
lemma Step.idle_other {s s' : St T} {c : World T} {t i : T} (inv : Inv s) (st : Step c s t s')
    (ne : i ≠ t) (idle : (s.th i).pc = .idle) : s'.th i = s.th i := by
  have out : ∀ {p : Pc T} {w : Waiter T}, (s.th t).pc = p → w ∈ p.hand → i ≠ w.party := by
    rintro p w rfl hw rfl
    obtain ⟨b, pk⟩ := inv.cus.parked_of_held hw
    have pk : (s.th w.party).pc = .parked b := pk
    rw [idle] at pk
    cases pk
  cases st with
  | here _ => exact Function.update_of_ne ne _ _
  | unlSkip e | unlWrite e =>
    have hw := out e (List.mem_singleton_self _)
    simp [St.writeSlot, St.goto, St.set, ne, hw]
  | unlSkipResume e | unlResume e =>
    have hw := out e (List.mem_singleton_self _)
    simp [St.resume, St.goto, St.set, ne, hw]
  | canWrite e =>
    have hw := out e List.mem_cons_self
    simp [St.writeSlot, St.goto, St.set, ne, hw]
  | canResume e =>
    have hw := out e List.mem_cons_self
    simp [St.resume, St.goto, St.set, ne, hw]
  | @notifyOne u e hu =>
    have hw : i ≠ u := ne_of_pc idle hu (by rintro ⟨⟩)
    simp [St.goto, St.set, ne, hw]
  | notifyNone e _ => simp [St.goto, St.set, ne]

end JLib.Mutex

namespace JLib.CondVar
open LTS

variable {T : Type} [DecidableEq T]

/-- The places of a waiting call where the mutex belongs to the caller. -/
def Pc.hasMutex : Pc → Bool
  | .check | .push _ | .unlock _ _ | .bareCheck _ | .bareUnlock _ _ | .bareEnd _ => true
  | .ret (.res _) => true
  | _ => false

/-- The mutex is sound, and whoever should have it has it. -/
structure Held (s : St T) : Prop where
  sound : Mutex.Sound s.mx
  held : ∀ t, (s.th t).pc.hasMutex → (s.mx.th t).pc = .idle ∧ (s.mx.th t).holds

namespace Held
variable {s s' : St T} {c : World T} {t : T}

/-- Nobody has the mutex. -/
lemma init : Held (CondVar.init T) where
  sound := Mutex.Sound.init
  held _ h := by cases h

/-- A `Notify` is no wait. -/
lemma hasMutex_signalNext (ks : List Nat) : (Pc.signalNext ks).hasMutex = false := by
  cases ks <;> rfl

/-- A `CancelWaiters` is no wait. -/
lemma hasMutex_canNext (tok : CancelToken) (f : Bool) (ks : List Nat) :
    (Pc.canNext tok f ks).hasMutex = false := by
  cases ks with
  | nil => cases f <;> rfl
  | cons k ks => rfl

/-- The moving party gets to such a place with the mutex. -/
lemma self (hd : Held s) (st : Step c s t s') (h : (s'.th t).pc.hasMutex) :
    (s'.mx.th t).pc = .idle ∧ (s'.mx.th t).holds := by
  cases st with
  | user e _ =>
    have h : (s.th t).pc.hasMutex := h
    rw [e] at h
    cases h
  | @mutex m hm _ _ _ =>
    have h : (s.th t).pc.hasMutex := h
    cases e : (s.th t).pc with
    | unlocking _ _ | locking _ _ | bareUnlocking _ _ | bareLocking _ =>
      rw [e] at h
      cases h
    | _ =>
      rw [e] at hm
      cases hm
  | callWait _ _ idle hh | callBareWait _ _ _ idle hh => exact ⟨idle, hh⟩
  | inside _ _ _ _ => exact hd.held t h
  | checkCancelled e _ | checkPass e _ | pushCancelled e _ | push e _ | bareCancelled e _
  | barePass e _ | bareEnd e => exact hd.held t (by rw [e]; rfl)
  | locked _ _ | bareLocked _ _ => simp [St.lockDone, St.withMx, St.withResult, St.goto, St.set,
      Mutex.St.set]
  | notify _ =>
    rw [St.dequeue_pc, hasMutex_signalNext] at h
    cases h
  | signalled _ _ =>
    rw [St.goto_pc, hasMutex_signalNext] at h
    cases h
  | canPass _ | cancelled _ _ =>
    rw [St.goto_pc, hasMutex_canNext] at h
    cases h
  | @waited k sl r _ _ =>
    rw [St.goto_pc] at h
    cases r <;> cases h
  | callNotify _ _ _ | callCancel _ _ _ | done _ | unlock _ _ _ | unlocked _ _ | semWait _ _
  | sweep _ | lock _ _ | bareUnlock _ _ _ | bareUnlocked _ _ | bareLock _ _ | signal _ _
  | cancel _ _ =>
    rw [St.goto_pc] at h
    cases h

/-- A step keeps the mutex with whoever should have it. -/
lemma step (hd : Held s) (st : Step c s t s') : Held s' := by
  refine ⟨?_, fun i hi => ?_⟩
  · rcases st.mx_cases with e | sm
    · rw [e]
      exact hd.sound
    · exact hd.sound.step sm
  · by_cases ei : i = t
    · subst ei
      exact hd.self st hi
    · rw [st.th_other ei] at hi
      obtain ⟨idle, hh⟩ := hd.held i hi
      rcases st.mx_cases with e | sm
      · rw [e]
        exact ⟨idle, hh⟩
      · rw [sm.idle_other hd.sound.inv ei idle]
        exact ⟨idle, hh⟩

/-- A call that returns owns the mutex, and nobody else does. -/
lemma owner (hd : Held s) (h : (s.th t).pc.hasMutex) :
    (s.mx.th t).pc = .idle ∧ s.mx.Owner t ∧ ∀ u, s.mx.Owner u → u = t := by
  obtain ⟨idle, hh⟩ := hd.held t h
  have own : s.mx.Owner t := .inl hh
  refine ⟨idle, own, fun u hu => ?_⟩
  exact Option.some.inj ((hd.sound.owner_eq hu).symm.trans (hd.sound.owner_eq own))

end Held
end JLib.CondVar
