import JLib.Cancel.Token
import Mathlib.Data.List.Perm.Basic

/-!
# Queued waiters

The `Waiter` record of `include/TaskScheduler.h`, shared by `SchedulerMutex` and
`SchedulerSemaphore`, and the filtering pass of their `CancelWaiters`. In the source exactly one of
the two pointers `fiber` and `coro` is non-null; here that is the pair of a party and its `kind`. The
result slot lives in the waiting party's own frame, so a non-null `result` pointer is the flag `slot`
and the slot's content is kept with the party.
-/

namespace JLib

/-- What a cancellable wait reports. -/
inductive WaitResult where
  | ok
  | cancelled
  deriving Repr, DecidableEq

/-- How a waiter is released: `Thread::Resume` of a fiber, or `Push` of a coroutine task. -/
inductive WaiterKind where
  | fiber
  | coro
  deriving Repr, DecidableEq

/-- One queued waiter. `ticket` is a history variable: the number of pushes before this one. -/
structure Waiter (T : Type*) where
  party : T
  kind : WaiterKind
  slot : Bool
  token : CancelToken
  ticket : Nat
  deriving Repr, DecidableEq

/-- Length of the victim buffer of one `CancelWaiters` pass. -/
def kBuf : Nat := 64

/-- One pass of `CancelWaiters` over the queue: up to `n` matching waiters are taken out, the others
are kept in order. -/
def eject {W : Type*} (p : W → Bool) : Nat → List W → List W × List W
  | _, [] => ([], [])
  | 0, w :: ws => ([], w :: ws)
  | n + 1, w :: ws =>
    if p w then (w :: (eject p n ws).1, (eject p n ws).2)
    else ((eject p (n + 1) ws).1, w :: (eject p (n + 1) ws).2)

section Eject
variable {W : Type*} (p : W → Bool)

/-- A pass neither loses nor invents a waiter. -/
lemma eject_perm (n : Nat) (l : List W) :
    ((eject p n l).1 ++ (eject p n l).2).Perm l := by
  induction l generalizing n with
  | nil => cases n <;> exact .refl _
  | cons w ws ih =>
    cases n with
    | zero => exact .refl _
    | succ n =>
      unfold eject
      split
      · exact (ih n).cons w
      · exact List.perm_middle.trans ((ih (n + 1)).cons w)

/-- The victims are a subsequence of the queue. -/
lemma eject_victims_sublist (n : Nat) (l : List W) : (eject p n l).1.Sublist l := by
  induction l generalizing n with
  | nil => cases n <;> exact List.Sublist.refl _
  | cons w ws ih =>
    cases n with
    | zero => exact List.nil_sublist _
    | succ n =>
      unfold eject
      split
      · exact (ih n).cons_cons w
      · exact (ih (n + 1)).cons w

/-- The waiters kept are a subsequence of the queue, so their order is the order they were queued. -/
lemma eject_keep_sublist (n : Nat) (l : List W) : (eject p n l).2.Sublist l := by
  induction l generalizing n with
  | nil => cases n <;> exact List.Sublist.refl _
  | cons w ws ih =>
    cases n with
    | zero => exact List.Sublist.refl _
    | succ n =>
      unfold eject
      split
      · exact (ih n).cons w
      · exact (ih (n + 1)).cons_cons w

/-- Every victim matches. -/
lemma eject_victims_match {n : Nat} {l : List W} {w : W} (h : w ∈ (eject p n l).1) : p w := by
  induction l generalizing n with
  | nil => cases n <;> cases h
  | cons v ws ih =>
    cases n with
    | zero => cases h
    | succ n =>
      unfold eject at h
      split at h
      · rcases List.mem_cons.1 h with rfl | h
        · assumption
        · exact ih h
      · exact ih h

/-- A pass that does not fill its buffer leaves no matching waiter behind. -/
lemma eject_keep_not_match {n : Nat} {l : List W} (short : (eject p n l).1.length < n) {w : W}
    (h : w ∈ (eject p n l).2) : ¬p w := by
  induction l generalizing n with
  | nil => cases n <;> cases h
  | cons v ws ih =>
    cases n with
    | zero => exact absurd short (Nat.not_lt_zero _)
    | succ n =>
      unfold eject at h short
      split at h
      · rw [if_pos ‹_›] at short
        exact ih (Nat.lt_of_succ_lt_succ short) h
      · rw [if_neg ‹_›] at short
        rcases List.mem_cons.1 h with rfl | h
        · assumption
        · exact ih short h

/-- Who does not match stays, in the same order. -/
lemma eject_keep_filter (n : Nat) (l : List W) :
    (eject p n l).2.filter (fun w => !p w) = l.filter fun w => !p w := by
  induction l generalizing n with
  | nil => cases n <;> rfl
  | cons w ws ih =>
    cases n with
    | zero => rfl
    | succ n =>
      unfold eject
      split
      next h =>
        rw [List.filter_cons_of_neg (by simp [h])]
        exact ih n
      next h =>
        rw [List.filter_cons_of_pos (by simp [h]), List.filter_cons_of_pos (by simp [h]), ih (n + 1)]

end Eject

section Scope
variable {T : Type*}

/-- The task of `t` is in this scope, and these tokens are the scope's own and those of enclosing ones (or name
nothing, which means everybody). -/
structure World.InScope (c : World T) (t : T) (scope : CancelToken) (encloses : CancelToken → Bool) : Prop where
  token : c.tokenOf t = scope
  selects : ∀ tok, c.selects tok scope = encloses tok

/-- The same, and the scope has been cancelled. -/
structure World.Cancelled (c : World T) (t : T) (scope : CancelToken) (encloses : CancelToken → Bool) : Prop
    extends c.InScope t scope encloses where
  cancelled : c.isTaskCancelled t = true

end Scope
end JLib
