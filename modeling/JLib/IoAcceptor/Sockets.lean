import JLib.IoAcceptor.Model
import JLib.LTS.Custody

/-!
# Sockets

`OnComplete` hands out or closes the socket in `sock`, which is the one that `Post` made and `SubmitAccept`
closed; the one that the kernel accepted is in `aux`, and nothing reads it. The two are the same descriptor
when the kernel gives the number of the closed one to the connection. As long as it does, and no accept
fails or is answered at once, every accepted socket is handed to one caller, in `ready` or closed once.
-/

namespace JLib.IoAcceptor
open LTS Io

variable {θ ω κ : Type} {within : κ → κ → Bool} {s s' : State θ ω κ}
  {t : θ} {i : Nat} {p : Party}

/-- An accept completes with the number of the socket that was closed for it, and none is answered at
once. -/
def NumberReused (s : State θ ω κ) : Label θ ω κ → Prop
  | .complete i res => res = s.sock i
  | .answer _ => False
  | _ => True

/-- An accept whose enter fails is answered at once. -/
lemma Step.clean [DecidableEq θ] [DecidableEq ω] {l : Label θ ω κ} (st : Step within s l s') (hok : NumberReused s l)
    (none : s.stale = []) : s'.stale = [] := by
  cases st with
  | publishFails => exact hok.elim
  | consume mem =>
    rw [none] at mem
    cases mem
  | submit | submitAnswered => unfold State.dropMade; split <;> exact none
  | keep => unfold State.hand; split <;> exact none
  | _ => exact none

/-- If no accept is answered at once, none is left in the ring. -/
lemma clean_of_runs [DecidableEq θ] [DecidableEq ω] {depth : Nat}
    (rn : Runs (Step within) NumberReused (.init depth) s) : s.stale = [] :=
  rn.invariant (I := fun s => s.stale = []) rfl fun none hok st => st.clean hok none

/-! ## Slots -/

/-- Where a slot is. -/
inductive Place where
  | todo
  | post (p : Party)
  | posted
  | handler
  deriving DecidableEq

def Handler.slots : Handler ω → List Nat
  | .entered i _ _ => [i]
  | .kept i _ _ _ => [i]
  | _ => []

def postSlots : Option (Nat × Post) → List Nat
  | none => []
  | some (i, _) => [i]

def State.slots (s : State θ ω κ) : Place → List Nat
  | .todo => s.todo
  | .post p => postSlots (s.post p)
  | .posted => s.posted
  | .handler => s.handler.slots

/-- A slot is at one place at most. -/
def Slotted (s : State θ ω κ) : Prop := Custody s.slots

/-- A party's step changes what slot it has. -/
lemma slots_setPost (s : State θ ω κ) (p : Party) (c : Option (Nat × Post)) :
    (s.setPost p c).slots = Function.update s.slots (.post p) (postSlots c) := by
  funext q
  cases q with
  | post p' =>
    change postSlots (Function.update s.post p c p') = _
    by_cases e : p' = p
    · rw [e, Function.update_self, Function.update_self]
    · rw [Function.update_of_ne e, Function.update_of_ne (by rintro ⟨⟩; exact e rfl)]
      rfl
  | todo | posted | handler => rfl

namespace Slotted

/-- No slot moves. -/
lemma congr (sl : Slotted s) (h : ∀ p, s'.slots p = s.slots p) : Slotted s' := Custody.congr sl h

/-- A party goes on with its slot. -/
lemma stay {c : Option (Nat × Post)} (sl : Slotted s) (h : ∀ p, s'.slots p = s.slots p)
    (hc : postSlots c = postSlots (s.post p)) : Slotted (s'.setPost p c) := by
  refine sl.congr fun q => ?_
  rw [slots_setPost, hc]
  by_cases e : q = .post p
  · rw [e, Function.update_self]
    rfl
  · rw [Function.update_of_ne e, h]

/-- A party leaves its slot. -/
lemma leave (sl : Slotted s) (h : ∀ p, s'.slots p = s.slots p) : Slotted (s'.setPost p none) := by
  refine Custody.shrink sl (p := .post p) (fun q hq => ?_) ?_
  · rw [slots_setPost, Function.update_of_ne hq, h]
  · rw [slots_setPost, Function.update_self]
    exact List.nil_subperm

/-- The completion thread goes on with its slot or leaves it. -/
lemma handler (sl : Slotted s) (ht : s'.todo = s.todo) (hp : s'.post = s.post) (hk : s'.posted = s.posted)
    (sub : s'.handler.slots.Sublist s.handler.slots) : Slotted s' := by
  refine Custody.shrink sl (p := .handler) (fun q hq => ?_) sub.subperm
  cases q with
  | todo => exact ht
  | post p => exact congrArg (fun f => postSlots (f p)) hp
  | posted => exact hk
  | handler => exact absurd rfl hq

/-- All slots are still to be posted. -/
lemma init (depth : Nat) : Slotted (State.init depth : State θ ω κ) := by
  refine ⟨fun q => ?_, fun {q q' i} h h' => ?_⟩
  · cases q with
    | todo => exact List.nodup_range
    | post | posted | handler => exact List.nodup_nil
  · cases q with
    | todo =>
      cases q' with
      | todo => rfl
      | post | posted | handler => cases h'
    | post | posted | handler => cases h

end Slotted

/-- `SubmitAccept` moves no slot before it submits. -/
lemma dropMade_slots (s : State θ ω κ) (i : Nat) (q : Place) : (s.dropMade i).slots q = s.slots q := by
  unfold State.dropMade
  cases q <;> (split <;> rfl)

/-- The critical section of `OnComplete` moves no slot. -/
lemma hand_slots {fd : Nat} {status : IoStatus} (h : s.handler = .entered i fd status) (q : Place) :
    (s.hand i fd).slots q = s.slots q := by
  unfold State.hand
  cases q with
  | handler =>
    change Handler.slots _ = s.handler.slots
    rw [h]
    split <;> rfl
  | todo | post | posted => split <;> rfl

/-- A step keeps every slot at one place at most. -/
lemma Step.slotted [DecidableEq θ] [DecidableEq ω] {l : Label θ ω κ} (st : Step within s l s')
    (hok : NumberReused s l) (none : s.stale = []) (sl : Slotted s) : Slotted s' := by
  cases st with
  | publishFails => exact hok.elim
  | consume mem =>
    rw [none] at mem
    cases mem
  | @startPost i l ht hp =>
    refine Custody.move sl (p := .todo) (q := .post .starter) (by rintro ⟨⟩) (fun q hq hq' => ?_) ?_
    · rw [slots_setPost, Function.update_of_ne hq']
      cases q with
      | todo => exact absurd rfl hq
      | post | posted | handler => rfl
    · rw [slots_setPost, Function.update_self, Function.update_of_ne (by rintro ⟨⟩)]
      change (l ++ [i]).Subperm (s.todo ++ postSlots (s.post .starter))
      rw [ht, hp]
      exact (List.perm_append_singleton i l).subperm.trans (List.prefix_append ..).sublist.subperm
  | make h | count h | undo h => exact sl.stay (by rintro (_ | _) <;> rfl) (by rw [h]; rfl)
  | makeFails | close => exact sl.leave (by rintro (_ | _) <;> rfl)
  | submit h => exact sl.stay (dropMade_slots s _) (by rw [h]; rfl)
  | submitAnswered h => exact sl.stay (dropMade_slots s _) (by rw [h]; rfl)
  | publishFull h => exact sl.stay (fun _ => rfl) (by rw [h]; rfl)
  | @publish p i h =>
    refine Custody.move sl (p := .post p) (q := .posted) (by rintro ⟨⟩) (fun q hq hq' => ?_) ?_
    · rw [slots_setPost, Function.update_of_ne hq]
      cases q with
      | posted => exact absurd rfl hq'
      | todo | post | handler => rfl
    · rw [slots_setPost, Function.update_self, Function.update_of_ne (by rintro ⟨⟩)]
      change ([] ++ i :: s.posted).Subperm (postSlots (s.post p) ++ s.posted)
      rw [h]
      exact List.Subperm.refl _
  | @completeAccepted i res mem idle | @completeFailed i res mem idle =>
    refine Custody.move sl (p := .posted) (q := .handler) (by rintro ⟨⟩) (fun q hq hq' => ?_) ?_
    · cases q with
      | posted => exact absurd rfl hq
      | handler => exact absurd rfl hq'
      | todo | post => rfl
    · change (s.posted.erase i ++ [i]).Subperm (s.posted ++ s.handler.slots)
      rw [idle]
      refine ((List.perm_append_singleton ..).trans (List.perm_cons_erase mem).symm).subperm.trans ?_
      exact (List.prefix_append ..).sublist.subperm
  | keep h => exact sl.congr (hand_slots h)
  | unkeep | closeUnkept | noneUnkept => exact sl.handler rfl rfl rfl (List.nil_sublist _)
  | handTo h | wakeSkipped h => exact sl.handler rfl rfl rfl (by rw [h]; exact .refl _)
  | @repost i fd h =>
    refine Custody.move sl (p := .handler) (q := .post .loop) (by rintro ⟨⟩) (fun q hq hq' => ?_) ?_
    · rw [slots_setPost, Function.update_of_ne hq']
      cases q with
      | handler => exact absurd rfl hq
      | todo | post | posted => rfl
    · rw [slots_setPost, Function.update_self, Function.update_of_ne (by rintro ⟨⟩)]
      change ([] ++ [i]).Subperm (s.handler.slots ++ postSlots (s.post .loop))
      rw [h]
      exact (List.prefix_append ..).sublist.subperm
  | _ => exact sl.congr (by rintro (_ | _) <;> rfl)

/-- In every state of a run a slot is at one place at most. -/
lemma slotted_of_runs [DecidableEq θ] [DecidableEq ω] {depth : Nat}
    (rn : Runs (Step within) NumberReused (.init depth) s) : Slotted s := by
  induction rn with
  | refl => exact .init depth
  | tail rn hok st ih => exact st.slotted hok (clean_of_runs rn) ih

/-- A slot whose accept was begun has a socket. -/
structure Filled (s : State θ ω κ) : Prop where
  post : ∀ {p i c}, s.post p = some (i, c) → c ≠ .make → s.sock i ≠ 0
  posted : ∀ {i}, i ∈ s.posted → s.sock i ≠ 0

namespace Filled

/-- No slot gets a socket, and none goes on without one. -/
lemma keep (fi : Filled s) (hs : s'.sock = s.sock) (hk : ∀ {i}, i ∈ s'.posted → i ∈ s.posted)
    (hp : ∀ {p i c}, s'.post p = some (i, c) → c ≠ .make → ∃ c', c' ≠ .make ∧ s.post p = some (i, c')) :
    Filled s' := by
  refine ⟨fun h ne => ?_, fun h => ?_⟩
  · obtain ⟨c', ne', h'⟩ := hp h ne
    rw [hs]
    exact fi.post h' ne'
  · rw [hs]
    exact fi.posted (hk h)

/-- What holds of the other party holds of it still. -/
lemma setPost {c : Option (Nat × Post)} {p p' : Party} {i : Nat} {c' : Post}
    (h : (s.setPost p c).post p' = some (i, c')) :
    (p' = p ∧ c = some (i, c')) ∨ (p' ≠ p ∧ s.post p' = some (i, c')) := by
  change Function.update s.post p c p' = _ at h
  by_cases e : p' = p
  · rw [e, Function.update_self] at h
    exact .inl ⟨e, h⟩
  · rw [Function.update_of_ne e] at h
    exact .inr ⟨e, h⟩

/-- A party goes on with its slot, past the socket. -/
lemma stay {c c' : Post} (fi : Filled s) (hs : s'.sock = s.sock) (hk : s'.posted = s.posted)
    (hp : s'.post = s.post) (h : s.post p = some (i, c)) (ne : c ≠ .make) :
    Filled (s'.setPost p (some (i, c'))) := by
  refine fi.keep hs (fun h => hk ▸ h) fun {p' i' d} h' ne' => ?_
  rcases setPost h' with ⟨rfl, e⟩ | ⟨-, e⟩
  · cases e
    exact ⟨c, ne, h⟩
  · exact ⟨d, ne', hp ▸ e⟩

/-- Who has a slot may change its socket. -/
lemma change_sock {q : Place} {fd : Nat} (fi : Filled s) (sl : Slotted s) (mine : i ∈ s.slots q)
    (hs : s'.sock = Function.update s.sock i fd)
    (hk : ∀ {j}, j ∈ s'.posted → j ∈ s.posted ∧ (j = i → q ≠ .posted))
    (hp : ∀ {p j c}, s'.post p = some (j, c) → c ≠ .make →
      (j = i ∧ fd ≠ 0) ∨ (s.post p = some (j, c) ∧ q ≠ .post p)) : Filled s' := by
  refine ⟨fun {p j c} h ne => ?_, fun {j} h => ?_⟩
  · rw [hs]
    rcases hp h ne with ⟨rfl, nz⟩ | ⟨h, other⟩
    · rw [Function.update_self]
      exact nz
    · have there : j ∈ s.slots (.post p) := by
        change j ∈ postSlots (s.post p)
        rw [h]
        exact List.mem_cons_self
      rw [Function.update_of_ne (by rintro rfl; exact other (Custody.unique sl mine there))]
      exact fi.post h ne
  · obtain ⟨h, other⟩ := hk h
    rw [hs, Function.update_of_ne]
    · exact fi.posted h
    · rintro rfl
      exact other rfl (Custody.unique sl mine (q := .posted) h)

end Filled

/-- `SubmitAccept` leaves everything but `aux` and what is open. -/
lemma dropMade_frame (s : State θ ω κ) (i : Nat) :
    (s.dropMade i).sock = s.sock ∧ (s.dropMade i).posted = s.posted ∧ (s.dropMade i).post = s.post ∧
      (s.dropMade i).handed = s.handed ∧ (s.dropMade i).ready = s.ready ∧ (s.dropMade i).closed = s.closed ∧
      (s.dropMade i).handler = s.handler ∧ (s.dropMade i).leftovers = s.leftovers ∧
      (s.dropMade i).accepted = s.accepted ∧ (s.dropMade i).made = s.made := by
  unfold State.dropMade
  split <;> exact ⟨rfl, rfl, rfl, rfl, rfl, rfl, rfl, rfl, rfl, rfl⟩

/-- The critical section of `OnComplete` leaves the slots and what became of the sockets. -/
lemma hand_frame (s : State θ ω κ) (i fd : Nat) :
    (s.hand i fd).sock = s.sock ∧ (s.hand i fd).posted = s.posted ∧ (s.hand i fd).post = s.post ∧
      (s.hand i fd).handed = s.handed ∧ (s.hand i fd).closed = s.closed ∧
      (s.hand i fd).leftovers = s.leftovers ∧ (s.hand i fd).accepted = s.accepted ∧
      (s.hand i fd).made = s.made ∧ (s.hand i fd).dropped = s.dropped := by
  unfold State.hand
  split <;> exact ⟨rfl, rfl, rfl, rfl, rfl, rfl, rfl, rfl, rfl⟩

/-- A party has its slot. -/
lemma mem_post {c : Post} (h : s.post p = some (i, c)) : i ∈ s.slots (.post p) := by
  change i ∈ postSlots (s.post p)
  rw [h]
  exact List.mem_cons_self

/-- A step keeps a socket in every slot whose accept was begun. -/
lemma Step.filled [DecidableEq θ] [DecidableEq ω] {l : Label θ ω κ} (st : Step within s l s')
    (hok : NumberReused s l) (none : s.stale = []) (sl : Slotted s) (fi : Filled s) : Filled s' := by
  cases st with
  | publishFails => exact hok.elim
  | consume mem =>
    rw [none] at mem
    cases mem
  | startPost | repost =>
    refine fi.keep rfl id fun {p i c} h ne => ?_
    rcases Filled.setPost h with ⟨-, e⟩ | ⟨-, e⟩
    · cases e
      exact absurd rfl ne
    · exact ⟨c, ne, e⟩
  | @make p i fd h nz =>
    refine fi.change_sock sl (mem_post h) rfl (fun h => ⟨h, fun _ => by rintro ⟨⟩⟩) fun h _ => ?_
    rcases Filled.setPost h with ⟨-, e⟩ | ⟨ne, e⟩
    · cases e
      exact .inl ⟨rfl, nz⟩
    · exact .inr ⟨e, by rintro ⟨⟩; exact ne rfl⟩
  | makeFails h | close h =>
    refine fi.change_sock sl (mem_post h) rfl (fun h => ⟨h, fun _ => by rintro ⟨⟩⟩) fun h _ => ?_
    rcases Filled.setPost h with ⟨-, e⟩ | ⟨ne, e⟩
    · cases e
    · exact .inr ⟨e, by rintro ⟨⟩; exact ne rfl⟩
  | count h | publishFull h | undo h => exact fi.stay rfl rfl rfl h (by rintro ⟨⟩)
  | submit h | submitAnswered h =>
    obtain ⟨hs, hk, hp, -⟩ := dropMade_frame s _
    exact fi.stay hs hk hp h (by rintro ⟨⟩)
  | @publish p i h =>
    refine ⟨fun {p' j c} h' ne => ?_, fun {j} h' => ?_⟩
    · rcases Filled.setPost h' with ⟨-, e⟩ | ⟨-, e⟩
      · cases e
      · exact fi.post e ne
    · rcases List.mem_cons.1 h' with rfl | h'
      · exact fi.post h (by rintro ⟨⟩)
      · exact fi.posted h'
  | @completeAccepted i res mem | @completeFailed i res mem =>
    refine fi.change_sock sl (q := .posted) mem rfl (fun h => ?_) fun h _ => .inr ⟨h, by rintro ⟨⟩⟩
    obtain ⟨ne, h⟩ := (Custody.nodup sl .posted).mem_erase_iff.1 h
    exact ⟨h, fun e => absurd e ne⟩
  | @keep i fd =>
    obtain ⟨hs, hk, hp, -⟩ := hand_frame s i fd
    exact fi.keep hs (fun h => hk ▸ h) fun h ne => ⟨_, ne, hp ▸ h⟩
  | _ => exact fi.keep rfl id fun h ne => ⟨_, ne, h⟩

/-- In every state of a run a slot whose accept was begun has a socket. -/
lemma Filled.of_runs [DecidableEq θ] [DecidableEq ω] {depth : Nat}
    (rn : Runs (Step within) NumberReused (.init depth) s) : Filled s := by
  induction rn with
  | refl =>
    refine ⟨?_, ?_⟩
    · rintro p i c ⟨⟩
    · rintro i ⟨⟩
  | tail rn hok st ih => exact st.filled hok (clean_of_runs rn) (slotted_of_runs rn) ih

/-! ## What became of the sockets -/

/-- The socket the completion thread is to hand out or to close. -/
def Handler.socket : Handler ω → List Nat
  | .entered _ fd _ => [fd]
  | .unkept fd => [fd]
  | .kept _ fd (some _) _ => [fd]
  | _ => []

namespace State

/-- The sockets that are on their way to a caller or to be closed. -/
def hands (s : State θ ω κ) : List Nat := s.handler.socket ++ s.leftovers

/-- The socket a party made and has not submitted. -/
def awaits (s : State θ ω κ) : Option (Nat × Post) → List Nat
  | some (i, .count) => [s.sock i]
  | some (i, .submit) => [s.sock i]
  | _ => []

def unsubmitted (s : State θ ω κ) : List Nat := s.awaits (s.post .starter) ++ s.awaits (s.post .loop)

end State

/-- Every accepted socket is handed to one caller, in `ready`, closed once or in hand; and every socket that
was made is closed once when it is submitted. -/
structure Kept (s : State θ ω κ) : Prop where
  sockets : (s.handed ++ s.ready ++ s.closed ++ s.hands).Perm s.accepted
  made : (s.dropped ++ s.unsubmitted).Perm s.made
  clean : ∀ {p i c}, s.post p = some (i, c) → c ≠ .undo ∧ c ≠ .close
  nonzero : ∀ {fd}, fd ∈ s.handler.socket → fd ≠ 0

def Party.other : Party → Party
  | .starter => .loop
  | .loop => .starter

/-- What a party has not submitted is the socket of its own slot. -/
lemma awaits_congr {c : Option (Nat × Post)} (h : ∀ j ∈ postSlots c, s'.sock j = s.sock j) :
    s'.awaits c = s.awaits c := by
  cases c with
  | none => rfl
  | some x =>
    obtain ⟨i, c⟩ := x
    cases c with
    | count | submit => exact congrArg (fun fd => [fd]) (h i List.mem_cons_self)
    | make | publish | undo | close => rfl

/-- The sockets of the one party and of the other. -/
lemma unsubmitted_perm (s : State θ ω κ) (p : Party) :
    s.unsubmitted.Perm (s.awaits (s.post p) ++ s.awaits (s.post p.other)) := by
  cases p with
  | starter => exact .refl _
  | loop => exact List.perm_append_comm

/-- A party's step changes what it has not submitted. -/
lemma unsubmitted_setPost {c : Option (Nat × Post)} (hp : s'.post = s.post)
    (hs : ∀ j ∈ s.slots (.post p.other), s'.sock j = s.sock j) :
    (s'.setPost p c).unsubmitted.Perm (s'.awaits c ++ s.awaits (s.post p.other)) := by
  refine (unsubmitted_perm _ p).trans ?_
  have here : (s'.setPost p c).post p = c := Function.update_self ..
  have there : (s'.setPost p c).post p.other = s.post p.other := by
    rw [← hp]
    exact Function.update_of_ne (by cases p <;> rintro ⟨⟩) ..
  rw [here, there]
  have same : (s'.setPost p c).awaits (s.post p.other) = s.awaits (s.post p.other) := awaits_congr hs
  rw [same]
  exact .refl _

namespace Kept

/-- A party goes on in `Post`. -/
lemma setPost {c : Option (Nat × Post)} (k : Kept s) (hp : s'.post = s.post)
    (hs : ∀ j ∈ s.slots (.post p.other), s'.sock j = s.sock j)
    (hf : s'.handed = s.handed ∧ s'.ready = s.ready ∧ s'.closed = s.closed ∧ s'.hands = s.hands ∧
      s'.accepted = s.accepted) (hh : ∀ {fd}, fd ∈ s'.handler.socket → fd ∈ s.handler.socket)
    (hc : ∀ i, c ≠ some (i, .undo) ∧ c ≠ some (i, .close))
    (bal : ∀ fd, s'.dropped.count fd + (s'.awaits c).count fd + s.made.count fd =
      s.dropped.count fd + (s.awaits (s.post p)).count fd + s'.made.count fd) : Kept (s'.setPost p c) := by
  obtain ⟨h1, h2, h3, h4, h5⟩ := hf
  refine ⟨?_, ?_, fun {p' i c'} h => ?_, fun h => k.nonzero (hh h)⟩
  · change (s'.handed ++ s'.ready ++ s'.closed ++ s'.hands).Perm s'.accepted
    rw [h1, h2, h3, h4, h5]
    exact k.sockets
  · refine ((unsubmitted_setPost hp hs).append_left _).trans ?_
    refine List.perm_iff_count.2 fun fd => ?_
    have was := List.perm_iff_count.1 (((unsubmitted_perm s p).append_left _).symm.trans k.made) fd
    have bal := bal fd
    change List.count fd (s'.dropped ++ _) = List.count fd s'.made
    simp only [List.count_append] at was ⊢
    omega
  · rcases Filled.setPost h with ⟨-, rfl⟩ | ⟨-, e⟩
    · constructor
      · rintro rfl
        exact (hc i).1 rfl
      · rintro rfl
        exact (hc i).2 rfl
    · rw [hp] at e
      exact k.clean e

/-- Sockets change hands. -/
lemma pass (k : Kept s) (hp : s'.post = s.post) (hs : ∀ p, ∀ j ∈ s.slots (.post p), s'.sock j = s.sock j)
    (hd : s'.dropped = s.dropped) (hm : s'.made = s.made)
    (hh : ∀ {fd}, fd ∈ s'.handler.socket → fd ≠ 0)
    (bal : ∀ fd, s'.handed.count fd + s'.ready.count fd + s'.closed.count fd + s'.handler.socket.count fd +
        s'.leftovers.count fd + s.accepted.count fd =
      s.handed.count fd + s.ready.count fd + s.closed.count fd + s.handler.socket.count fd +
        s.leftovers.count fd + s'.accepted.count fd) : Kept s' := by
  refine ⟨?_, ?_, fun h => ?_, hh⟩
  · refine List.perm_iff_count.2 fun fd => ?_
    have was := List.perm_iff_count.1 k.sockets fd
    have bal := bal fd
    unfold State.hands at was ⊢
    simp only [List.count_append] at was ⊢
    omega
  · unfold State.unsubmitted
    rw [hp, hd, hm, awaits_congr (hs .starter), awaits_congr (hs .loop)]
    exact k.made
  · rw [hp] at h
    exact k.clean h

end Kept

/-- The socket goes to `ready`, or stays in hand for a waiter. -/
lemma hand_socket (s : State θ ω κ) (i fd : Nat) :
    ((s.hand i fd).ready = fd :: s.ready ∧ (s.hand i fd).handler.socket = []) ∨
      ((s.hand i fd).ready = s.ready ∧ (s.hand i fd).handler.socket = [fd]) := by
  unfold State.hand
  split
  · exact .inl ⟨rfl, rfl⟩
  · exact .inr ⟨rfl, rfl⟩

variable [DecidableEq θ] [DecidableEq ω]

/-- The completion thread posts when it has nothing else to do. -/
def Alone (s : State θ ω κ) : Prop := s.handler ≠ .idle → s.post .loop = none

/-- A step keeps the completion thread out of `Post` while its handler has work. -/
lemma Step.alone {l : Label θ ω κ} (st : Step within s l s') (al : Alone s) : Alone s' := by
  -- a party that posts is the starter, or the completion thread with an idle handler
  have go : ∀ {s' : State θ ω κ} {p i c} {d : Option (Nat × Post)}, s'.handler = s.handler → s'.post = s.post →
      s.post p = some (i, c) → Alone (s'.setPost p d) := by
    intro s' p i c d hh hp h busy
    change Function.update s'.post p d .loop = none
    have none := al (hh ▸ busy)
    by_cases e : Party.loop = p
    · rw [e, h] at none
      cases none
    · rw [Function.update_of_ne e, hp]
      exact none
  cases st with
  | startPost => exact al
  | make h | makeFails h | count h | publish h | publishFull h | publishFails h | undo h | close h =>
    exact go rfl rfl h
  | submit h | submitAnswered h =>
    obtain ⟨-, -, hp, -, -, -, hh, -⟩ := dropMade_frame s _
    exact go hh hp h
  | completeAccepted _ _ none | completeFailed _ _ none => exact fun _ => none
  | @keep i fd h =>
    intro _
    rw [(hand_frame s i fd).2.2.1]
    exact al (by rw [h]; rintro ⟨⟩)
  | unkeep h | handTo h | wakeSkipped h => exact fun _ => al (by rw [h]; rintro ⟨⟩)
  | closeUnkept | noneUnkept | repost => exact fun busy => absurd rfl busy
  | _ => exact al

/-- In every state of a run the completion thread posts only when its handler is done. -/
lemma alone_of_runs {depth : Nat} {ok : State θ ω κ → Label θ ω κ → Prop}
    (rn : Runs (Step within) ok (.init depth) s) : Alone s :=
  rn.invariant (I := Alone) (fun busy => absurd rfl busy) fun al _ st => st.alone al

omit [DecidableEq θ] [DecidableEq ω] in
/-- The two parties have different slots. -/
lemma Slotted.other_ne {j : Nat} (sl : Slotted s) (h : i ∈ s.slots (.post p)) (h' : j ∈ s.slots (.post p.other)) :
    j ≠ i := by
  rintro rfl
  have same := Custody.unique sl h h'
  cases p <;> cases same

/-- A step under the condition keeps account of every socket. -/
lemma Step.kept {l : Label θ ω κ} (st : Step within s l s') (sl : Slotted s) (fi : Filled s) (al : Alone s)
    (hok : NumberReused s l) (k : Kept s) : Kept s' := by
  cases st with
  | startPost _ h =>
    refine k.setPost rfl (fun _ _ => rfl) ⟨rfl, rfl, rfl, rfl, rfl⟩ id (fun _ => ⟨by rintro ⟨⟩, by rintro ⟨⟩⟩)
      fun fd => ?_
    rw [h]
    rfl
  | @repost i fd h =>
    have hands : ({ s with handler := .idle } : State θ ω κ).hands = s.hands := by
      unfold State.hands
      rw [h]
      rfl
    refine k.setPost rfl (fun _ _ => rfl) ⟨rfl, rfl, rfl, hands, rfl⟩ (by rintro fd ⟨⟩)
      (fun _ => ⟨by rintro ⟨⟩, by rintro ⟨⟩⟩) fun fd => ?_
    rw [al (by rw [h]; rintro ⟨⟩)]
    rfl
  | @make p i fd h =>
    refine k.setPost rfl (fun j hj => Function.update_of_ne (sl.other_ne (mem_post h) hj) ..)
      ⟨rfl, rfl, rfl, rfl, rfl⟩ id (fun _ => ⟨by rintro ⟨⟩, by rintro ⟨⟩⟩) fun a => ?_
    simp only [h, State.awaits, Function.update_self, List.count_cons, List.count_nil]
    omega
  | @makeFails p i h =>
    refine k.setPost rfl (fun j hj => Function.update_of_ne (sl.other_ne (mem_post h) hj) ..)
      ⟨rfl, rfl, rfl, rfl, rfl⟩ id (fun _ => ⟨by rintro ⟨⟩, by rintro ⟨⟩⟩) fun a => ?_
    rw [h]
    rfl
  | count h | publish h =>
    refine k.setPost rfl (fun _ _ => rfl) ⟨rfl, rfl, rfl, rfl, rfl⟩ id (fun _ => ⟨by rintro ⟨⟩, by rintro ⟨⟩⟩)
      fun a => ?_
    rw [h]
    rfl
  | @submit p i h =>
    obtain ⟨hs, -, hp, h1, h2, h3, h4, h5, h6, h7⟩ := dropMade_frame s i
    have nz := fi.post h (by rintro ⟨⟩)
    refine k.setPost hp (fun _ _ => congrFun hs _) ⟨h1, h2, h3, ?_, h6⟩ (fun {fd} mem => h4 ▸ mem)
      (fun _ => ⟨by rintro ⟨⟩, by rintro ⟨⟩⟩) fun a => ?_
    · unfold State.hands
      rw [h4, h5]
    · unfold State.dropMade
      rw [if_neg nz]
      simp only [h, State.awaits, List.count_cons, List.count_nil]
      omega
  | submitAnswered | publishFull | publishFails => exact hok.elim
  | undo h => exact absurd rfl (k.clean h).1
  | close h => exact absurd rfl (k.clean h).2
  | @completeAccepted i res mem idle =>
    have out : ∀ p, ∀ j ∈ s.slots (.post p), j ≠ i := by
      rintro p j hj rfl
      cases Custody.unique sl (p := .posted) mem hj
    refine k.pass rfl (fun p j hj => Function.update_of_ne (out p j hj) ..) rfl rfl ?_ fun a => ?_
    · intro fd hfd
      rw [List.mem_singleton.1 hfd]
      exact fi.posted mem
    · have number : res.toNat = s.sock i := by
        rw [show res = s.sock i from hok]
        rfl
      simp only [idle, number, Handler.socket, List.count_cons, List.count_nil]
      omega
  | @completeFailed i res mem idle _ neg =>
    rw [show res = s.sock i from hok] at neg
    exact absurd neg (by omega)
  | @keep i fd h =>
    obtain ⟨hs, -, hp, h1, h2, h3, h4, h5, h6⟩ := hand_frame s i fd
    have nz : fd ≠ 0 := k.nonzero (by rw [h]; exact List.mem_cons_self)
    refine k.pass hp (fun _ _ _ => congrFun hs _) h6 h5 ?_ fun a => ?_
    · intro fd' mem
      rcases hand_socket s i fd with ⟨-, e⟩ | ⟨-, e⟩
      · rw [e] at mem
        cases mem
      · rw [e] at mem
        rw [List.mem_singleton.1 mem]
        exact nz
    · have mine : s.handler.socket = [fd] := by
        rw [h]
        rfl
      rw [h1, h2, h3, h4, mine]
      rcases hand_socket s i fd with ⟨e, e'⟩ | ⟨e, e'⟩
      · rw [e, e', List.count_cons, List.count_cons, List.count_nil]
        omega
      · rw [e, e']
  | unkeep h =>
    refine k.pass rfl (fun _ _ _ => rfl) rfl rfl (fun mem => k.nonzero (by rw [h]; exact mem)) fun a => ?_
    rw [h]
    rfl
  | closeUnkept h =>
    refine k.pass rfl (fun _ _ _ => rfl) rfl rfl (by rintro fd ⟨⟩) fun a => ?_
    simp only [h, State.close, Handler.socket, List.count_cons, List.count_nil]
    omega
  | noneUnkept h =>
    have mem : 0 ∈ s.handler.socket := by
      rw [h]
      exact List.mem_cons_self
    exact absurd rfl (k.nonzero mem)
  | handTo h =>
    refine k.pass rfl (fun _ _ _ => rfl) rfl rfl (by rintro fd ⟨⟩) fun a => ?_
    simp only [h, State.push, Handler.socket, List.count_cons, List.count_nil]
    omega
  | wakeSkipped h =>
    refine k.pass rfl (fun _ _ _ => rfl) rfl rfl (by rintro fd ⟨⟩) fun a => ?_
    rw [h]
    rfl
  | tryTake _ _ h =>
    refine k.pass rfl (fun _ _ _ => rfl) rfl rfl k.nonzero fun a => ?_
    simp only [h, List.count_cons]
    omega
  | takeReady _ h =>
    refine k.pass rfl (fun _ _ _ => rfl) rfl rfl k.nonzero fun a => ?_
    simp only [h, State.setPc, State.answer, List.count_cons]
    omega
  | leftovers =>
    refine k.pass rfl (fun _ _ _ => rfl) rfl rfl k.nonzero fun a => ?_
    simp only [State.setPc, List.count_append, List.count_reverse, List.count_nil]
    omega
  | closeLeftover _ h =>
    refine k.pass rfl (fun _ _ _ => rfl) rfl rfl k.nonzero fun a => ?_
    simp only [h, State.close, List.count_cons]
    omega
  | _ => exact k.pass rfl (fun _ _ _ => rfl) rfl rfl k.nonzero fun _ => rfl

/-- In a run under the condition every socket is accounted for. -/
lemma Kept.of_runs {depth : Nat} (rn : Runs (Step within) NumberReused (.init depth) s) : Kept s := by
  induction rn with
  | refl => exact ⟨.refl _, .refl _, by rintro p i c ⟨⟩, by rintro fd ⟨⟩⟩
  | tail rn hok st ih => exact st.kept (slotted_of_runs rn) (.of_runs rn) (alone_of_runs rn) hok ih

/-- Every socket the kernel accepted is handed to one caller, in `ready`, closed once or in the hands of who
hands it out or closes it, and no other is; every socket that was made for an accept is closed once. -/
theorem sockets_accounted {depth : Nat} (rn : Runs (Step within) NumberReused (.init depth) s) :
    (s.handed ++ s.ready ++ s.closed ++ s.hands).Perm s.accepted ∧ (s.dropped ++ s.unsubmitted).Perm s.made :=
  ⟨(Kept.of_runs rn).sockets, (Kept.of_runs rn).made⟩

/-- A connection gets the number of the socket that was closed for it, and is taken. -/
theorem sockets_accounted_one : ∃ s : State Unit Unit Unit,
    Runs (Step fun _ _ => true) NumberReused (.init 1) s ∧ s.accepted = [5] ∧ s.handed = [5] ∧
      (s.handed ++ s.ready ++ s.closed ++ s.hands).Perm s.accepted ∧
      (s.dropped ++ s.unsubmitted).Perm s.made := by
  have r : Runs (Step fun _ _ => true) NumberReused (.init 1 : State Unit Unit Unit) (.init 1) := .refl
  have r := r.next .start trivial (.startPost rfl rfl)
  have r := r.next (.post .starter) trivial (.make rfl (show 5 ≠ 0 by decide) List.not_mem_nil)
  have r := r.next (.post .starter) trivial (.count rfl)
  have r := r.next (.post .starter) trivial (.submit rfl rfl)
  have r := r.next (.post .starter) trivial (.publish rfl)
  have r := r.next .start trivial (.started rfl rfl)
  have r := r.next (.complete 0 5) rfl (.completeAccepted List.mem_cons_self rfl rfl (by decide) List.not_mem_nil)
  have r := r.next .handler trivial (.keep rfl rfl)
  have r := r.next (.tryTake ()) trivial (.tryTake rfl rfl rfl)
  exact ⟨_, r, rfl, rfl, sockets_accounted r⟩

/-- A connection gets a number of its own: the closed socket is handed out, and the connection is nowhere. -/
theorem accepted_socket_lost : ∃ s : State Unit Unit Unit, Reaches (Step fun _ _ => true) (.init 1) s ∧
    s.accepted = [7] ∧ s.handed = [5] ∧ s.ready = [] ∧ s.closed = [] ∧ s.hands = [] ∧ s.dropped = [5] := by
  have r : Reaches (Step fun _ _ => true) (.init 1 : State Unit Unit Unit) (.init 1) := .refl
  have r := r.next .start trivial (.startPost rfl rfl)
  have r := r.next (.post .starter) trivial (.make rfl (show 5 ≠ 0 by decide) List.not_mem_nil)
  have r := r.next (.post .starter) trivial (.count rfl)
  have r := r.next (.post .starter) trivial (.submit rfl rfl)
  have r := r.next (.post .starter) trivial (.publish rfl)
  have r := r.next .start trivial (.started rfl rfl)
  -- the number of the closed socket is taken in the meantime
  have r := r.next .other trivial (.otherOpens (List.not_mem_nil (a := 5)))
  have r := r.next (.complete 0 7) trivial (.completeAccepted List.mem_cons_self rfl rfl (by decide) (by decide))
  have r := r.next .handler trivial (.keep rfl rfl)
  have r := r.next (.tryTake ()) trivial (.tryTake rfl rfl rfl)
  exact ⟨_, r, rfl, rfl, rfl, rfl, rfl, rfl⟩

end JLib.IoAcceptor
