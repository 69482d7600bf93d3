import JLib.Quiesce.Model

/-!
# What a report of quiescence says

A pass that misses nothing finds the pool empty: a place that it has looked at is free when it is done, or else a
task was put there behind it. A worker with a task in hand and no busy flag is missed, and so is a task in the shared
intake. Two clean passes in a row are no better than the better one of them: once nothing is left, nothing comes back,
and where both have missed a task the report is wrong.
-/

namespace JLib.Quiesce
open LTS

variable {n e : Nat} {τ : Type} {s u : State n e τ} {w : Fin n} {q : Queue n e} {p : Place n e} {h : Hand τ}
  {ts : List τ}

/-! ## What is where -/

/-- A hand that is not searching with nothing holds something. -/
lemma holds_of_ne (ne : h ≠ .search []) : h.holds = true := by
  unfold Hand.holds
  split
  · contradiction
  · rfl

/-- A queue is occupied while tasks are in it. -/
lemma occupied_queue : s.occupied (.queue q) = true ↔ s.queue q ≠ [] := by
  simp only [Pool.occupied, Bool.not_eq_true', List.isEmpty_eq_false_iff]

/-- A hand is occupied while it holds something. -/
lemma occupied_hand (held : s.hand w ≠ .search []) : s.occupied (.hand w) = true := holds_of_ne held

/-- A worker that goes on occupies its own hand at most. -/
lemma occupied_goto (o : (s.goto w h).occupied p = true) : p = .hand w ∨ s.occupied p = true := by
  cases p with
  | hand v =>
    by_cases ew : v = w
    · exact .inl (congrArg Place.hand ew)
    · right
      simpa [Pool.occupied, State.goto, Function.update_of_ne ew] using o
  | queue q => exact .inr o

/-- A queue that is set was occupied before. -/
lemma occupied_set (src : s.queue q ≠ []) (o : (s.set q ts).occupied p = true) : s.occupied p = true := by
  cases p with
  | hand v => exact o
  | queue q' =>
    by_cases eq : q' = q
    · subst eq
      exact occupied_queue.2 src
    · simpa [Pool.occupied, State.set, Function.update_of_ne eq] using o

/-- A push occupies its own queue at most. -/
lemma occupied_push (o : (s.push w q ts).occupied p = true) : p = .queue q ∨ s.occupied p = true := by
  cases p with
  | hand v =>
    right
    cases q <;> exact o
  | queue q' =>
    by_cases eq : q' = q
    · exact .inl (congrArg Place.queue eq)
    · right
      cases q <;> simpa [Pool.occupied, State.push, State.set, Function.update_of_ne eq] using o

/-! ## What a worker does to the places -/

/-- The pass goes on where it was, and what gets behind it is noted. Tasks come from tasks. -/
structure Moves (s u : State n e τ) : Prop where
  loop : u.loop = s.loop
  passes : u.cleanPasses = s.cleanPasses
  before : u.missedBefore = s.missedBefore
  puts : u.missed = false → s.missed = false ∧ ∀ p, u.occupied p = true → s.occupied p = true ∨ s.seen p = false
  source : ∀ p, u.occupied p = true → ∃ p', s.occupied p' = true

/-- What is left of the loop of Join when the pool is forgotten. -/
def State.join (s : State n e τ) : Loop n e × Nat × Bool × Bool := (s.loop, s.cleanPasses, s.missed, s.missedBefore)

/-- A push is not a step of Join. -/
lemma join_push : (s.push w q ts).join = s.join := by
  cases q <;> rfl

/-- Nothing gets to a place that was free. -/
lemma Moves.within (same : u.join = s.join) (sub : ∀ p, u.occupied p = true → s.occupied p = true) : Moves s u := by
  simp only [State.join, Prod.mk.injEq] at same
  obtain ⟨loop, passes, missed, before⟩ := same
  refine ⟨loop, passes, before, fun hm => ?_, fun p o => ⟨p, sub p o⟩⟩
  rw [missed] at hm
  exact ⟨hm, fun p o => .inl (sub p o)⟩

/-- Tasks get to one place. -/
lemma Moves.noted (same : u.join = s.join) {p' : Place n e} (src : s.occupied p' = true)
    (sub : ∀ q, u.occupied q = true → q = p ∨ s.occupied q = true) : Moves s (u.note p) := by
  simp only [State.join, Prod.mk.injEq] at same
  obtain ⟨loop, passes, missed, before⟩ := same
  refine ⟨loop, passes, before, fun hm => ?_, fun _ _ => ⟨p', src⟩⟩
  have seen : u.seen p = s.seen p := by
    unfold State.seen
    rw [loop]
  simp only [State.note, Bool.or_eq_false_iff, missed, seen] at hm
  refine ⟨hm.1, fun q o => ?_⟩
  obtain rfl | old := sub q o
  · exact .inr hm.2
  · exact .inl old

/-- Taking a task is a move from the queue to the hand. -/
lemma Moves.take (src : s.queue q ≠ []) : Moves s (((s.set q ts).goto w h).note (.hand w)) := by
  refine Moves.noted rfl (occupied_queue.2 src) fun p o => ?_
  obtain mine | old := occupied_goto o
  · exact .inl mine
  · exact .inr (occupied_set src old)

/-- A worker that goes on with a task in hand is a move. -/
lemma Moves.goto (held : s.hand w ≠ .search []) : Moves s (s.goto w h) := by
  refine Moves.within rfl fun p o => ?_
  obtain rfl | old := occupied_goto o
  · exact occupied_hand held
  · exact old

/-- Pushing tasks is a move from the hand to the queue. -/
lemma Moves.put (held : s.hand w ≠ .search []) : Moves s (((s.push w q ts).goto w h).note (.queue q)) := by
  refine Moves.noted join_push (occupied_hand held) fun p o => ?_
  obtain rfl | old := occupied_goto o
  · exact .inr (holds_of_ne held)
  · exact occupied_push old

/-- Who submits is not searching with nothing. -/
lemma Submits.ne (sub : Submits h) : h ≠ .search [] := by
  cases sub <;> nofun

/-- Every action of a worker is a move. -/
lemma act_moves {l : Label n e} (act : Act w s l u) : Moves s u := by
  cases act with
  | pop _ _ hq => exact Moves.take (by simp [hq])
  | steal _ hq => exact Moves.take (by simp [hq])
  | drain _ hq => exact Moves.take (by simp [hq])
  | keep hw => exact Moves.put (by simp [hw])
  | last hw => exact Moves.goto (by simp [hw])
  | publishPop _ hq => exact Moves.take (by simp [hq])
  | publish hw => exact Moves.put (by simp [hw])
  | discard hw => exact Moves.goto (by simp [hw])
  | noFiber hw => exact Moves.put (by simp [hw])
  | dispatch hw => exact Moves.goto (by simp [hw])
  | submit sub =>
    exact Moves.noted join_push (occupied_hand sub.ne) fun p o => occupied_push o
  | @wake q l t r sub hs =>
    have same : ({ s with suspended := l ++ r }.push w q [t]).join = s.join := join_push
    exact Moves.noted same (occupied_hand sub.ne) fun p o =>
      @occupied_push _ _ _ { s with suspended := l ++ r } _ _ _ _ o
  | helpOwn _ _ hq => exact Moves.take (by simp [hq])
  | helpSteal _ hq => exact Moves.take (by simp [hq])
  | @relocate t _ v ts _ hq =>
    have some : s.queue (.laneInboxes w) ≠ [] := by simp [hq]
    have same : ((s.set (.laneInboxes w) ts).push w (JLib.Quiesce.own e w) [v]).join = s.join := join_push
    refine Moves.noted same (occupied_queue.2 some) fun p o => ?_
    obtain mine | old := occupied_push o
    · exact .inl mine
    · exact .inr (occupied_set some old)
  | helped hw => exact Moves.goto (by simp [hw])
  | executed hw => exact Moves.goto (by simp [hw])
  | switch hw => exact Moves.goto (by simp [hw])
  | dead hw => exact Moves.goto (by simp [hw])
  | requeue _ hw => exact Moves.put (by simp [hw])
  | suspend hw =>
    refine Moves.within rfl fun p o => ?_
    obtain rfl | old := occupied_goto o
    · exact holds_of_ne (by simp [hw])
    · exact old
  | finished hw => exact Moves.goto (by simp [hw])
  | spread _ hq => exact Moves.take (by simp [hq])
  | spreadTo hw => exact Moves.put (by simp [hw])

/-! ## Runs of Join alone -/

/-- Places that look idle are looked at one after the other. -/
lemma looks {ok : State n e τ → Label n e → Prop} (hok : ∀ u, ok u .look) {done todo : List (Place n e)}
    (hl : s.loop = .pass done todo) (idle : ∀ p ∈ todo, Idle s.toPool p) :
    Runs Step ok s { s with loop := .pass (done ++ todo) [], missed := s.missed || todo.any s.occupied } := by
  induction todo generalizing s done with
  | nil =>
    simp only [List.append_nil, List.any_nil, Bool.or_false, ← hl]
    exact .refl
  | cons p todo ih =>
    refine Runs.trans (Runs.refl.next Label.look (hok s) (.look hl (idle p (by simp)))) ?_
    have rest := @ih { s with loop := .pass (done ++ [p]) todo, missed := s.missed || s.occupied p } (done ++ [p]) rfl
      fun q hq => idle q (by simp [hq])
    rw [List.append_assoc, List.singleton_append] at rest
    simpa only [List.any_cons, Bool.or_assoc] using rest

/-- A task that is there while every place looks idle. -/
def State.overlooked (s : State n e τ) : Bool := s.occupied (.queue .laneIntake) || (order n e).any s.occupied

/-- Two passes over a pool whose every place looks idle. -/
lemma reports {ok : State n e τ → Label n e → Prop} (hok : ∀ u l, (l = .report → u.missed = s.overlooked) → ok u l)
    (hl : s.loop = .between) (hp : s.cleanPasses = 0) (idle : ∀ p ∈ order n e, Idle s.toPool p) :
    Runs Step ok s
      { s with loop := .quiesced, cleanPasses := 2, missed := s.overlooked, missedBefore := s.overlooked } := by
  have one : Runs Step ok s { s with loop := .pass [] (order n e), missed := s.occupied (.queue .laneIntake) } :=
    Runs.refl.next .start (hok s .start nofun) (.start hl)
  have passed := one.trans (looks (fun u => hok u .look nofun) rfl idle)
  have clean := passed.next .clean (hok _ .clean nofun) (.clean rfl (by simp [hp]))
  have two := clean.next .start (hok _ .start nofun) (.start rfl)
  have again := two.trans (looks (fun u => hok u .look nofun) rfl idle)
  have done := again.next .report (hok _ .report fun _ => rfl) (.report rfl (by simp [hp]))
  simpa [hp, State.overlooked] using done

/-- A pool with empty queues and idle hands looks idle everywhere. -/
lemma idle_of {pool : Pool n e τ} (hands : ∀ w, (pool.hand w).busy = false) (queues : ∀ q, pool.queue q = []) :
    Idle pool p := by
  cases p with
  | hand w => exact .notBusy (hands w)
  | queue q => exact .empty (queues q)

/-! ## The passes -/

/-- Every place but the shared intake is looked at. -/
lemma mem_order (ne : p ≠ .queue .laneIntake) : p ∈ order n e := by
  cases p with
  | hand w => exact List.mem_append_left _ (List.mem_flatMap.2 ⟨w, List.mem_finRange w, by simp⟩)
  | queue q =>
    cases q with
    | laneInboxes w => exact List.mem_append_left _ (List.mem_flatMap.2 ⟨w, List.mem_finRange w, by simp⟩)
    | normalInboxes w => exact List.mem_append_left _ (List.mem_flatMap.2 ⟨w, List.mem_finRange w, by simp⟩)
    | resumedInboxes w => exact List.mem_append_left _ (List.mem_flatMap.2 ⟨w, List.mem_finRange w, by simp⟩)
    | deques d => exact List.mem_append_right _ (List.mem_flatMap.2 ⟨d, List.mem_finRange d, by simp⟩)
    | laneIntake => exact absurd rfl ne

abbrev State.At (s : State n e τ) (p : Place n e) : Prop := s.occupied p = true
abbrev State.Seen (s : State n e τ) (p : Place n e) : Prop := s.seen p = true
abbrev State.Nothing (s : State n e τ) : Prop := Clear s.At fun _ => True

structure Sound (s : State n e τ) : Prop where
  -- a pass that has missed nothing has nothing behind it
  pass : ∀ {done todo}, s.loop = .pass done todo → done ++ todo = order n e ∧ (s.missed = false → Clear s.At s.Seen)
  -- nor is there anything after such a pass
  before : s.cleanPasses ≥ 1 → s.missedBefore = false → s.Nothing
  quiesced : s.loop = .quiesced → s.Nothing

/-- A Join that begins has seen nothing. -/
lemma Sound.observe (pool : Pool n e τ) : Sound pool.observe := by
  refine ⟨nofun, fun le => ?_, nofun⟩
  exact absurd le (by simp [Pool.observe])

/-- At the end of a pass every place is behind it. -/
lemma Sound.over (so : Sound s) {done : List (Place n e)} (hl : s.loop = .pass done []) (hm : s.missed = false) :
    s.Nothing := by
  obtain ⟨split, clear⟩ := so.pass hl
  rw [List.append_nil] at split
  refine (clear hm).everywhere fun p => ?_
  show s.seen p = true
  simp only [State.seen, hl, Bool.or_eq_true, List.contains_iff_mem, beq_iff_eq]
  by_cases intake : p = .queue .laneIntake
  · exact .inr intake
  · left
    rw [split]
    exact mem_order intake

/-- Where nothing is left, no move brings anything. -/
lemma Moves.still (m : Moves s u) (nothing : s.Nothing) : u.Nothing := nothing.still m.source

/-- A move keeps the account of the two passes. -/
lemma Sound.moves (so : Sound s) (m : Moves s u) : Sound u := by
  refine ⟨fun {done todo} hl => ?_, fun le hb => ?_, fun hl => ?_⟩
  · rw [m.loop] at hl
    obtain ⟨split, clear⟩ := so.pass hl
    refine ⟨split, fun hm => ?_⟩
    obtain ⟨old, puts⟩ := m.puts hm
    have kept : Clear u.At s.Seen := (clear old).act fun p o => (puts p o).imp_right fun no => by simp [State.Seen, no]
    have seen : u.Seen = s.Seen := by
      funext p
      simp only [State.Seen, State.seen, m.loop]
    rwa [seen]
  · rw [m.passes] at le
    rw [m.before] at hb
    exact m.still (so.before le hb)
  · rw [m.loop] at hl
    exact m.still (so.quiesced hl)

/-- The two passes have not both missed something. -/
def Cond (s : State n e τ) : Label n e → Prop
  | .report => s.missed = false ∨ s.missedBefore = false
  | _ => True

/-- A step under the condition keeps the account of the two passes. -/
lemma Sound.step {l : Label n e} (so : Sound s) (ok : Cond s l) (st : Step s l u) : Sound u := by
  cases st with
  | act _ act => exact so.moves (act_moves act)
  | link _ => exact so.moves (Moves.within rfl fun p o => o)
  | start hl =>
    refine ⟨fun {done todo} e => ?_, so.before, nofun⟩
    cases e
    refine ⟨List.nil_append _, fun hm p hp o => ?_⟩
    have intake : p = .queue .laneIntake := by simpa [State.Seen, State.seen] using hp
    subst intake
    exact absurd o (ne_true_of_eq_false hm)
  | @look done p todo hl idle =>
    refine ⟨fun {done' todo'} e => ?_, so.before, nofun⟩
    cases e
    obtain ⟨split, clear⟩ := so.pass hl
    refine ⟨by simpa using split, fun hm => ?_⟩
    simp only [Bool.or_eq_false_iff] at hm
    refine (clear hm.1).look (ne_true_of_eq_false hm.2) fun q hq => ?_
    simp only [State.Seen, State.seen, hl] at hq ⊢
    simp only [Bool.or_eq_true, List.contains_iff_mem, List.mem_append, List.mem_singleton] at hq ⊢
    tauto
  | dirty hl _ => exact ⟨nofun, fun le => absurd le (by simp), nofun⟩
  | clean hl _ => exact ⟨nofun, fun _ hm => so.over hl hm, nofun⟩
  | report hl le =>
    refine ⟨nofun, fun _ hb => ?_, fun _ => ?_⟩
    · exact so.before (by omega) hb
    · obtain hm | hb := ok
      · exact so.over hl hm
      · exact so.before (by omega) hb
  | timeOut hl => exact ⟨nofun, so.before, nofun⟩

/-- The account of the two passes holds in every state of a run. -/
lemma Sound.of_runs {pool : Pool n e τ} (rn : Runs Step Cond pool.observe s) : Sound s :=
  rn.invariant (.observe pool) Sound.step

/-- If of the two clean passes one has missed nothing, the report is true: no queue of the pool has a task, nor has
any worker, and it stays so. -/
theorem quiesced_sound (pool : Pool n e τ) (rn : Runs Step Cond pool.observe s) (quiesced : s.loop = .quiesced) :
    (∀ q, s.queue q = []) ∧ ∀ w, s.hand w = .search [] := by
  have nothing := (Sound.of_runs rn).quiesced quiesced
  refine ⟨fun q => ?_, fun w => ?_⟩
  · by_contra ne
    exact nothing (.queue q) trivial (occupied_queue.2 ne)
  · by_contra ne
    exact nothing (.hand w) trivial (holds_of_ne ne)

/-- One worker, with a task in its lane inbox. -/
def one : Pool 1 1 Nat where
  queue q := if q = .laneInboxes (Fin.last 0) then [7] else []
  hand _ := .search []
  pushing _ := none
  suspended := []

/-- The worker has taken the task. -/
def taken : State 1 1 Nat :=
  ((one.observe.set (.laneInboxes (Fin.last 0)) []).goto (Fin.last 0) (.found 7 [])).note (.hand (Fin.last 0))

/-- The worker of `one` takes the task. -/
lemma takes (ok : State 1 1 Nat → Label 1 1 → Prop) (hok : ok one.observe (.take 0 (.laneInboxes 0))) :
    Runs Step ok one.observe taken :=
  Runs.refl.next (.take 0 (.laneInboxes 0)) hok (.act rfl (.pop .lane rfl rfl))

/-- No task is left in a queue. -/
lemma taken_queue (q : Queue 1 1) : taken.queue q = [] := by
  show Function.update one.queue (.laneInboxes 0) [] q = []
  by_cases eq : q = .laneInboxes 0
  · rw [eq, Function.update_self]
  · rw [Function.update_of_ne eq]
    exact if_neg eq

/-- One worker, which takes its task and runs it before the two passes. -/
theorem quiesced_sound_one : ∃ s, Runs Step Cond one.observe s ∧ s.loop = .quiesced ∧
    (∀ q, s.queue q = []) ∧ ∀ w, s.hand w = .search [] := by
  have ran : Runs Step Cond one.observe ((taken.goto 0 (.run 7 [])).goto 0 (.search [])) :=
    ((takes Cond trivial).next (.own 0) trivial (.act rfl (.dispatch rfl))).next (.own 0) trivial
      (.act rfl (.executed rfl))
  have rn := ran.trans (reports (fun u l hr => ?_) rfl rfl fun p _ => idle_of (fun w => ?_) taken_queue)
  · exact ⟨_, rn, rfl, quiesced_sound one rn rfl⟩
  · cases l with
    | report => exact .inl ((hr rfl).trans (by decide))
    | _ => trivial
  · rw [Subsingleton.elim w 0]
    rfl

/-- Two clean passes while the task is in the hand of the worker, which has not set its flag. -/
theorem quiesced_with_task_in_hand : ∃ s, Reaches Step one.observe s ∧ s.loop = .quiesced ∧ s.hand 0 = .found 7 [] := by
  have rn := (takes _ trivial).trans (reports (fun _ _ _ => trivial) rfl rfl fun p _ =>
    idle_of (fun w => ?_) taken_queue)
  · exact ⟨_, rn, rfl, rfl⟩
  · rw [Subsingleton.elim w 0]
    rfl

end JLib.Quiesce
