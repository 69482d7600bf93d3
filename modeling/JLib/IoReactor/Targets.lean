import JLib.IoReactor.Submission
import Mathlib.Data.List.Perm.Subperm

/-!
# The targets of a cancel

`RequestCancel` copies the requests to ask out of each shard into an array of 64 and passes over the shard
once. The first 64 it finds there are asked, the others are not.
-/

namespace JLib.IoReactor.Submission
open LTS Links Rings

variable {s u : State} {sh : Shards} {l rs acc : List Addr} {r : Addr} {h : Option Addr} {i bits fuel : Nat}
  {isTarget : Addr → Bool} {slots : Nat → CancelSlot} {token : CancelToken} {errno : Addr → Option Nat}

/-- There are 16 shards. -/
lemma shardFor_lt (r : Addr) : shardFor r < kShards := by
  have le : (((r >>> 4) * 0x9E3779B97F4A7C15) >>> 60 &&& 15).toNat ≤ (15 : BitVec 64).toNat := by
    rw [BitVec.toNat_and]
    exact Nat.and_le_right
  exact Nat.lt_succ_of_le le

/-! ## The lists -/

/-- The links of each shard spell the requests whose addresses hash to it. -/
structure Spelled (sh : Shards) (l : List Addr) : Prop where
  nodup : l.Nodup
  lists : ∀ i, DList sh.prev sh.next none (sh.head i) (l.filter (shardFor · = i))

/-- The shards are empty. -/
lemma Spelled.empty : Spelled {} [] :=
  ⟨List.nodup_nil, fun _ => .nil⟩

/-- A shard has the requests that hash to it. -/
lemma mem_shard : r ∈ l.filter (shardFor · = i) ↔ r ∈ l ∧ shardFor r = i := by
  simp

/-- The back links after a request is linked. -/
lemma Link_prev (sh : Shards) (r k : Addr) : (sh.Link r).prev k =
    if sh.head (shardFor r) = some k then some r else if k = r then none else sh.prev k := by
  unfold Shards.Link
  dsimp only
  cases sh.head (shardFor r) with
  | none => exact Function.update_apply ..
  | some x => simp only [Function.update_apply, Option.some.injEq, eq_comm]

/-- A request is put at the head of its shard. -/
lemma Spelled.link (sp : Spelled sh l) (new : r ∉ l) : Spelled (sh.Link r) (r :: l) := by
  refine ⟨List.nodup_cons.2 ⟨new, sp.nodup⟩, fun i => ?_⟩
  have start := (sp.lists (shardFor r)).start_eq
  have other : ∀ k ∈ l, k ≠ r := fun k mem e => new (e ▸ mem)
  by_cases same : shardFor r = i
  · subst same
    rw [List.filter_cons_of_pos (by simp)]
    have head : (sh.Link r).head (shardFor r) = some r := Function.update_self ..
    rw [head]
    refine (sp.lists _).pushFront (sp.nodup.filter _) ?_ (Function.update_self ..) (fun k mem => ?_) fun k mem => ?_
    · rw [Link_prev, if_neg, if_pos rfl]
      intro e
      rw [e] at start
      exact new (List.mem_of_mem_filter (List.mem_of_mem_head? start.symm))
    · rw [Link_prev, if_neg (other k (List.mem_of_mem_filter mem))]
    · exact Function.update_of_ne (other k (List.mem_of_mem_filter mem)) ..
  · rw [List.filter_cons_of_neg (by simpa using same)]
    have head : (sh.Link r).head i = sh.head i := Function.update_of_ne (Ne.symm same) ..
    rw [head]
    refine (sp.lists i).frame (fun k mem => ?_) fun k mem => ?_
    · rw [Link_prev, if_neg, if_neg (other k (List.mem_of_mem_filter mem))]
      -- the head of the one shard is not in the other
      intro e
      rw [e] at start
      have there := (mem_shard.1 (List.mem_of_mem_head? start.symm)).2
      exact same (there.symm.trans (mem_shard.1 mem).2)
    · exact Function.update_of_ne (other k (List.mem_of_mem_filter mem)) ..

/-- The forward links after a request is taken out. -/
lemma UnlinkLocked_next (sh : Shards) (r k : Addr) : (sh.UnlinkLocked r).next k =
    if k = r then none else if sh.prev r = some k then sh.next r else sh.next k := by
  unfold Shards.UnlinkLocked
  dsimp only
  rw [Function.update_apply]
  split
  · rfl
  · cases sh.prev r with
    | none => rfl
    | some x => simp only [Function.update_apply, Option.some.injEq, eq_comm]

/-- The element behind is linked past the one that goes. -/
lemma UnlinkLocked_prev (sh : Shards) (r k : Addr) : (sh.UnlinkLocked r).prev k =
    if k = r then none else if sh.next r = some k then sh.prev r else sh.prev k := by
  unfold Shards.UnlinkLocked
  dsimp only
  rw [Function.update_apply]
  split
  · rfl
  · cases sh.next r with
    | none => rfl
    | some x => simp only [Function.update_apply, Option.some.injEq, eq_comm]

/-- The head moves on if it is the one that goes. -/
lemma UnlinkLocked_head (sh : Shards) (r : Addr) (i : Nat) : (sh.UnlinkLocked r).head i =
    if (sh.prev r = none ∧ sh.head (shardFor r) = some r) ∧ i = shardFor r then sh.next r else sh.head i := by
  unfold Shards.UnlinkLocked
  dsimp only
  split
  next e => simp only [Function.update_apply, e, and_self, true_and]
  next e => rw [if_neg fun h => e h.1]

/-- A request is taken out of its shard. -/
lemma Spelled.unlink (sp : Spelled sh l) (mem : r ∈ l) : Spelled (sh.UnlinkLocked r) (l.erase r) := by
  refine ⟨sp.nodup.erase r, fun i => ?_⟩
  have here := sp.lists (shardFor r)
  have nd := sp.nodup.filter (shardFor · = shardFor r)
  obtain ⟨a, b, split⟩ := List.append_of_mem (mem_shard.2 ⟨mem, rfl⟩ : r ∈ l.filter (shardFor · = shardFor r))
  rw [split] at here nd
  have prev := here.prev_eq
  have next := here.next_eq
  have head := here.start_eq
  have out : r ∉ a ++ b := (List.nodup_cons.1 (List.nodup_middle.1 nd)).1
  -- the neighbours of the request are in its shard
  have near : ∀ k, sh.prev r = some k ∨ sh.next r = some k → k ∈ a ++ b := by
    rintro k (e | e)
    · rw [prev] at e
      split at e
      · cases e
      · exact List.mem_append_left _ (List.mem_of_getLast? e)
    · rw [next] at e
      exact List.mem_append_right _ (List.mem_of_mem_head? e)
  rw [← List.erase_filter]
  by_cases same : i = shardFor r
  · subst same
    have rest : (a ++ r :: b).erase r = a ++ b := by
      rw [List.erase_append_right _ fun h => out (List.mem_append_left _ h), List.erase_cons_head]
    have ne : ∀ k ∈ a ++ b, k ≠ r := fun k hk e => out (e ▸ hk)
    have shorter : DList (sh.UnlinkLocked r).prev (sh.UnlinkLocked r).next none _ (a ++ b) :=
      here.remove nd nofun (fun k hk => by rw [UnlinkLocked_next, if_neg (ne k hk)])
        fun k hk => by rw [UnlinkLocked_prev, if_neg (ne k hk)]
    have start : (sh.UnlinkLocked r).head (shardFor r) = if a = [] then sh.next r else sh.head (shardFor r) := by
      rw [UnlinkLocked_head, prev, head]
      cases a with
      | nil => simp
      | cons x a => simp
    rw [split, rest, start]
    exact shorter
  · have away : ∀ k ∈ l.filter (shardFor · = i), k ∉ a ++ b := by
      intro k hk mem
      have there : k ∈ l.filter (shardFor · = shardFor r) := by
        rw [split]
        exact (List.mem_append.1 mem).elim (List.mem_append_left _) fun h =>
          List.mem_append_right _ (List.mem_cons_of_mem _ h)
      exact same ((mem_shard.1 hk).2.symm.trans (mem_shard.1 there).2)
    have ne : ∀ k ∈ l.filter (shardFor · = i), k ≠ r := by
      rintro k hk rfl
      exact same (mem_shard.1 hk).2.symm
    rw [List.erase_of_not_mem fun h => ne r h rfl, UnlinkLocked_head, if_neg fun h => same h.2]
    refine (sp.lists i).frame (fun k hk => ?_) fun k hk => ?_
    · rw [UnlinkLocked_prev, if_neg (ne k hk), if_neg fun e => away k hk (near k (.inr e))]
    · rw [UnlinkLocked_next, if_neg (ne k hk), if_neg fun e => away k hk (near k (.inl e))]

/-! ## The targets of a shard -/

/-- The loop collects until it has 64. -/
lemma collect_eq (sl : SList sh.next h l) (long : l.length ≤ fuel) :
    sh.collect isTarget fuel h acc = acc ++ (l.filter isTarget).take (kTargets - acc.length) := by
  induction sl generalizing fuel acc with
  | nil =>
    cases fuel with
    | zero => simp [Shards.collect]
    | succ _ => simp [Shards.collect]
  | @cons r l _ ih =>
    cases fuel with
    | zero => cases long
    | succ fuel =>
      have long : l.length ≤ fuel := Nat.le_of_succ_le_succ long
      rw [Shards.collect]
      split
      next room =>
        rw [ih long]
        cases hit : isTarget r with
        | false => simp [hit]
        | true =>
          have more : kTargets - acc.length = kTargets - (acc ++ [r]).length + 1 := by
            rw [List.length_append, List.length_singleton]
            omega
          rw [if_pos rfl, List.filter_cons_of_pos hit, more, List.take_succ_cons, List.append_assoc]
          rfl
      next full =>
        rw [Nat.sub_eq_zero_of_le (Nat.le_of_not_lt full), List.take_zero, List.append_nil]

/-- There are no more requests than addresses. -/
lemma length_le_addresses (nd : l.Nodup) : l.length ≤ 2 ^ 64 := by
  have nd : (l.map BitVec.toNat).Nodup := nd.map fun _ _ => BitVec.eq_of_toNat_eq
  have sub : l.map BitVec.toNat ⊆ List.range (2 ^ 64) := by
    intro n hn
    obtain ⟨x, -, rfl⟩ := List.mem_map.1 hn
    exact List.mem_range.2 x.isLt
  have le := (List.subperm_of_subset nd sub).length_le
  rwa [List.length_map, List.length_range] at le

/-- What `RequestCancel` collects of a shard are its first targets. -/
lemma Spelled.targets (sp : Spelled sh l) (isTarget : Addr → Bool) (i : Nat) :
    sh.targets isTarget i = ((l.filter (shardFor · = i)).filter isTarget).take kTargets := by
  exact collect_eq (sp.lists i).toSList (length_le_addresses (sp.nodup.filter _))

/-! ## The cancels -/

/-- A slot of the ring is free. -/
def Room (bits : Nat) (s : State) : Prop := ∃ l, Holds bits s.ring l ∧ l.length < 2 ^ bits

/-- The cancels of the requests were submitted, in order, and nothing else. -/
structure Asked (bits : Nat) (s : State) (rs : List Addr) (u : State) : Prop where
  published : u.published = s.published ++ rs.map fun r => ⟨.asyncCancel r, s.calls⟩
  shards : u.shards = s.shards
  calls : u.calls = s.calls
  room : Room bits u

/-- No cancel is submitted. -/
lemma Asked.refl (room : Room bits s) : Asked bits s [] s :=
  ⟨(List.append_nil _).symm, rfl, rfl, room⟩

/-- The cancels of some requests and then of others. -/
lemma Asked.trans {v : State} {ts : List Addr} (ad : Asked bits s rs u) (ad' : Asked bits u ts v) :
    Asked bits s (rs ++ ts) v := by
  refine ⟨?_, ad'.shards.trans ad.shards, ad'.calls.trans ad.calls, ad'.room⟩
  rw [ad'.published, ad.published, ad.calls, List.map_append, List.append_assoc]

/-- An entry goes in and the oldest comes out. -/
lemma Asked.submit (room : Room bits s) (r : Addr) : Asked bits s [r] (s.Submit (.asyncCancel r) none) := by
  obtain ⟨l, hd, less⟩ := room
  refine ⟨rfl, rfl, rfl, ?_⟩
  obtain ⟨m, popped, same⟩ := hd.push_pop less ⟨.asyncCancel r, s.calls⟩
  exact ⟨m, popped, same ▸ less⟩

/-- A ring with room is not full. -/
lemma Room.full (room : Room bits s) : s.ring.full = false := by
  obtain ⟨l, hd, less⟩ := room
  apply eq_false_of_ne_true
  intro full
  exact absurd (hd.full_iff.1 full) less.ne

/-- While enters succeed, all targets of a shard are asked. -/
lemma ask_asked (ok : ∀ r, errno r = none) (room : Room bits s) (n : Nat) :
    Asked bits s l (State.ask errno l (s, n)).1 ∧ (State.ask errno l (s, n)).2 = n + l.length := by
  induction l generalizing s n with
  | nil => exact ⟨.refl room, rfl⟩
  | cons r l ih =>
    have one := Asked.submit room r
    obtain ⟨rest, count⟩ := ih one.room (n + 1)
    have step : State.ask errno (r :: l) (s, n) = State.ask errno l (s.Submit (.asyncCancel r) none, n + 1) := by
      rw [State.ask, room.full, ok r]
      rfl
    rw [step]
    refine ⟨one.trans rest, count.trans ?_⟩
    rw [List.length_cons]
    omega

/-- The shards one after the other. -/
lemma shards_asked (isTarget : Addr → Bool) (ok : ∀ r, errno r = none) (room : Room bits s) (is : List Nat) (n : Nat) :
    Asked bits s (is.flatMap (s.shards.targets isTarget)) (State.askShards isTarget errno is (s, n)).1 ∧
      (State.askShards isTarget errno is (s, n)).2 = n + (is.flatMap (s.shards.targets isTarget)).length := by
  induction is generalizing s n with
  | nil => exact ⟨.refl room, rfl⟩
  | cons i is ih =>
    obtain ⟨one, count⟩ := ask_asked (l := s.shards.targets isTarget i) ok room n
    obtain ⟨rest, total⟩ := ih one.room (State.ask errno (s.shards.targets isTarget i) (s, n)).2
    rw [one.shards] at rest total
    rw [State.askShards, List.foldl_cons, ← State.askShards, List.flatMap_cons, List.length_append]
    refine ⟨one.trans rest, total.trans ?_⟩
    rw [count]
    omega

/-! ## All targets -/

/-- The requests that are found, shard by shard. -/
def found (l : List Addr) (isTarget : Addr → Bool) : List Addr :=
  (List.range kShards).flatMap fun i => ((l.filter (shardFor · = i)).filter isTarget).take kTargets

/-- A request is found if it is among the first targets of its shard. -/
lemma mem_found : r ∈ found l isTarget ↔
    r ∈ ((l.filter (shardFor · = shardFor r)).filter isTarget).take kTargets := by
  unfold found
  rw [List.mem_flatMap]
  constructor
  · rintro ⟨i, -, mem⟩
    obtain rfl := (mem_shard.1 (List.mem_of_mem_filter (List.mem_of_mem_take mem))).2
    exact mem
  · intro mem
    exact ⟨shardFor r, List.mem_range.2 (shardFor_lt r), mem⟩

/-- No request is found twice. -/
lemma found_nodup (nd : l.Nodup) : (found l isTarget).Nodup := by
  have part : ∀ i, (((l.filter (shardFor · = i)).filter isTarget).take kTargets).Nodup := fun i =>
    ((nd.filter _).filter _).sublist (List.take_sublist _ _)
  refine List.nodup_flatMap.2 ⟨fun i _ => part i, ?_⟩
  refine List.nodup_range.imp fun {i j} ne r hi hj => ne ?_
  have ei := (mem_shard.1 (List.mem_of_mem_filter (List.mem_of_mem_take hi))).2
  have ej := (mem_shard.1 (List.mem_of_mem_filter (List.mem_of_mem_take hj))).2
  exact ei.symm.trans ej

/-- All targets are found if and only if no shard has more than are collected from it. -/
lemma found_perm (nd : l.Nodup) : (found l isTarget).Perm (l.filter isTarget) ↔
    ∀ i < kShards, ((l.filter (shardFor · = i)).filter isTarget).length ≤ kTargets := by
  have mem_part : ∀ {r i}, r ∈ (l.filter (shardFor · = i)).filter isTarget ↔
      r ∈ l.filter isTarget ∧ shardFor r = i := by
    intro r i
    rw [List.mem_filter, mem_shard, List.mem_filter, and_right_comm]
  constructor
  · intro perm i _
    by_contra many
    have part : (((l.filter (shardFor · = i)).filter isTarget).drop kTargets) ≠ [] := by
      intro nil
      exact many (List.drop_eq_nil_iff.1 nil)
    -- the first that was not collected is not asked
    obtain ⟨r, late⟩ := List.exists_mem_of_ne_nil _ part
    obtain ⟨mem, rfl⟩ := mem_part.1 (List.mem_of_mem_drop late)
    have early := mem_found.1 (perm.mem_iff.2 mem)
    exact List.disjoint_take_drop ((nd.filter _).filter _) (Nat.le_refl _) early late
  · intro few
    refine (List.perm_ext_iff_of_nodup (found_nodup nd) (nd.filter _)).2 fun r => ?_
    rw [mem_found, List.take_of_length_le (few _ (shardFor_lt r)), mem_part, and_iff_left rfl]

/-! ## Every run -/

/-- What the calls keep, whatever the outcomes of their enters. -/
structure Sound (bits : Nat) (s : State) : Prop where
  spelled : Spelled s.shards s.linked
  up : s.ringUp = false → s.linked = []
  holds : ∃ l, Holds bits s.ring l

/-- What a submission does not touch. -/
structure Same (bits : Nat) (s u : State) : Prop where
  shards : u.shards = s.shards
  linked : u.linked = s.linked
  up : u.ringUp = s.ringUp
  holds : ∃ l, Holds bits u.ring l

/-- A submission of a cancel keeps what the calls keep. -/
lemma Same.sound (sm : Same bits s u) (sd : Sound bits s) : Sound bits u := by
  refine ⟨?_, ?_, sm.holds⟩
  · rw [sm.shards, sm.linked]
    exact sd.spelled
  · rw [sm.up, sm.linked]
    exact sd.up

/-- One submission after the other. -/
lemma Same.trans {v : State} (sm : Same bits s u) (sm' : Same bits u v) : Same bits s v :=
  ⟨sm'.shards.trans sm.shards, sm'.linked.trans sm.linked, sm'.up.trans sm.up, sm'.holds⟩

/-- One submission touches only the ring. -/
lemma Same.submit {l : List Entry} {x : Sqe} (hd : Holds bits s.ring l) (room : s.ring.full = false)
    (e : Option Nat) : Same bits s (s.Submit x e) := by
  have less := hd.room room
  cases e with
  | some n => exact ⟨rfl, rfl, rfl, _, hd.push less⟩
  | none =>
    obtain ⟨m, popped, -⟩ := hd.push_pop less ⟨x, s.calls⟩
    exact ⟨rfl, rfl, rfl, m, popped⟩

/-- The submissions of one shard touch only the ring. -/
lemma Same.ask (holds : ∃ l, Holds bits s.ring l) (n : Nat) : Same bits s (State.ask errno rs (s, n)).1 := by
  induction rs generalizing s n with
  | nil => exact ⟨rfl, rfl, rfl, holds⟩
  | cons r rs ih =>
    rw [State.ask]
    split
    · exact ⟨rfl, rfl, rfl, holds⟩
    next room =>
      obtain ⟨l, hd⟩ := holds
      have one : Same bits s (s.Submit (.asyncCancel r) (errno r)) := .submit hd (eq_false_of_ne_true room) _
      dsimp only
      split
      · exact one
      · exact one.trans (ih one.holds _)

/-- The submissions of some shards touch only the ring. -/
lemma Same.shard (isTarget : Addr → Bool) (errno : Addr → Option Nat)
    (holds : ∃ l, Holds bits s.ring l) (is : List Nat) (n : Nat) :
    Same bits s (State.askShards isTarget errno is (s, n)).1 := by
  induction is generalizing s n with
  | nil => exact ⟨rfl, rfl, rfl, holds⟩
  | cons i is ih =>
    have one : Same bits s (State.ask errno (s.shards.targets isTarget i) (s, n)).1 := .ask holds n
    exact one.trans (ih one.holds _)

/-- A call of `SubmitOp` keeps it. -/
lemma Sound.submit (sd : Sound bits s) {req : Addr} {tok : CancelToken} {e : Env} (new : req ∉ s.linked) :
    Sound bits (s.SubmitOp req tok e) := by
  obtain ⟨l, hd⟩ := sd.holds
  have spelled := sd.spelled.link new
  have undone : Spelled ((s.shards.Link req).UnlinkLocked req) ((req :: s.linked).erase req) :=
    spelled.unlink List.mem_cons_self
  have up : ∀ {l : List Addr}, s.ringUp ≠ false → s.ringUp = false → l = [] := fun up down => absurd down up
  unfold State.SubmitOp
  split
  · exact ⟨sd.spelled, sd.up, sd.holds⟩
  · split
    · exact ⟨sd.spelled, sd.up, sd.holds⟩
    next on =>
      split
      · exact ⟨sd.spelled, sd.up, sd.holds⟩
      · dsimp only
        split
        · exact ⟨undone, up on, sd.holds⟩
        next room =>
          have room : s.ring.full = false := eq_false_of_ne_true room
          split
          next errno =>
            have same : Same bits s (s.Submit (.op req) e.errno) := .submit hd room _
            rw [errno] at same ⊢
            exact ⟨undone, up on, same.holds⟩
          next errno =>
            have same : Same bits s (s.Submit (.op req) e.errno) := .submit hd room _
            rw [errno] at same ⊢
            exact ⟨spelled, up on, same.holds⟩

/-- A step keeps it. -/
lemma Sound.step {a : Label} (sd : Sound bits s) (st : Step s a u) : Sound bits u := by
  cases st with
  | submit new => exact sd.submit new
  | @complete r mem =>
    refine ⟨sd.spelled.unlink mem, fun down => ?_, sd.holds⟩
    rw [sd.up down] at mem
    cases mem
  | @cancel token slots errno =>
    unfold State.RequestCancel
    split
    · exact sd
    · have sd := (Same.shard (s.isTarget slots token) errno sd.holds
        (List.range kShards) 0).sound sd
      generalize State.askShards (s.isTarget slots token) errno (List.range kShards) (s, 0) = sn at sd
      exact ⟨sd.spelled, sd.up, sd.holds⟩

/-- It holds in every state. -/
lemma Sound.reached {ringUp : Bool} (fits : bits < 32) (rn : Reaches Step (State.init ringUp bits) s) : Sound bits s :=
  rn.invariant ⟨.empty, fun _ => rfl, [], .ofBits fits _⟩ fun sd _ st => sd.step st

/-- While slots are free and enters succeed, the requests that are found are asked. -/
lemma RequestCancel_found (token : CancelToken) (slots : Nat → CancelSlot) (sp : Spelled s.shards s.linked)
    (up : s.ringUp = true) (room : Room bits s) (ok : ∀ r, errno r = none) :
    (s.RequestCancel token slots errno).1.published =
        s.published ++ (found s.linked (s.isTarget slots token)).map (fun r => ⟨.asyncCancel r, s.calls⟩) ∧
      (s.RequestCancel token slots errno).2 = (found s.linked (s.isTarget slots token)).length := by
  obtain ⟨asked, count⟩ := shards_asked (s.isTarget slots token) ok room (List.range kShards) 0
  have targets := funext fun i => sp.targets (s.isTarget slots token) i
  rw [targets, ← found] at asked count
  unfold State.RequestCancel
  rw [if_neg (by rw [up]; exact Bool.noConfusion)]
  generalize State.askShards (s.isTarget slots token) errno (List.range kShards) (s, 0) = sn at asked count
  exact ⟨asked.published, count.trans (Nat.zero_add _)⟩

/-- Every request that is to be cancelled is asked once, no other is, and the number of them is returned. -/
structure AskedAll (s : State) (isTarget : Addr → Bool) (result : State × Nat) : Prop where
  asked : ∃ rs : List Addr, rs.Perm (s.linked.filter isTarget) ∧
    result.1.published = s.published ++ rs.map fun r => ⟨.asyncCancel r, s.calls⟩
  count : result.2 = (s.linked.filter isTarget).length

/-- While slots are free and enters succeed, `RequestCancel` reaches every matching request if and only if no
shard has more than 64 of them. -/
theorem cancel_reaches_all {ringUp : Bool} (fits : bits < 32) (rn : Reaches Step (State.init ringUp bits) s)
    (room : s.ring.full = false) (ok : ∀ r, errno r = none) :
    AskedAll s (s.isTarget slots token) (s.RequestCancel token slots errno) ↔
      ∀ i < kShards, ((s.linked.filter (shardFor · = i)).filter (s.isTarget slots token)).length ≤ kTargets := by
  have sd := Sound.reached fits rn
  obtain ⟨l, hd⟩ := sd.holds
  cases up : s.ringUp with
  | false =>
    have none := sd.up up
    constructor
    · intro _ i _
      rw [none]
      exact Nat.zero_le _
    · intro _
      unfold State.RequestCancel
      rw [if_pos up]
      refine ⟨⟨[], ?_, (List.append_nil _).symm⟩, ?_⟩
      · rw [none]
        exact .refl _
      · rw [none]
        rfl
  | true =>
    rw [← found_perm sd.spelled.nodup]
    obtain ⟨asked, count⟩ := RequestCancel_found token slots sd.spelled up ⟨l, hd, hd.room room⟩ ok
    constructor
    · rintro ⟨⟨rs, perm, e⟩, -⟩
      -- the entries tell which requests were asked
      have same := List.append_cancel_left (e.symm.trans asked)
      have inj : Function.Injective fun r : Addr => (⟨.asyncCancel r, s.calls⟩ : Entry) := by
        intro r r' h
        exact Sqe.asyncCancel.inj (congrArg Entry.sqe h)
      rw [← List.map_injective_iff.2 inj same]
      exact perm
    · intro perm
      exact ⟨⟨_, perm, asked⟩, count.trans perm.length_eq⟩

/-- Two requests of different scopes are in flight. -/
theorem cancel_reaches_all_two :
    ∃ s, Reaches Step (State.init true 8) s ∧ s.linked = [128, 64] ∧
      (AskedAll s (s.isTarget (fun _ => {}) ⟨65536⟩) (s.RequestCancel ⟨65536⟩ (fun _ => {}) fun _ => none) ↔
        ∀ i < kShards, ((s.linked.filter (shardFor · = i)).filter (s.isTarget (fun _ => {}) ⟨65536⟩)).length ≤
          kTargets) := by
  have start : Reaches Step (State.init true 8) _ := .refl
  have r1 := start.next (.submit 64 ⟨65536⟩ ⟨fun _ => {}, false, none⟩) trivial (.submit List.not_mem_nil)
  have r2 := r1.next (.submit 128 ⟨1⟩ ⟨fun _ => {}, false, none⟩) trivial (.submit (by decide))
  exact ⟨_, r2, rfl, cancel_reaches_all (by decide) r2 rfl fun _ => rfl⟩

/-- Any requests can be in flight, and the ring empty. -/
lemma in_flight (nd : l.Nodup) : ∃ s, Reaches Step (State.init true 8) s ∧ s.linked = l ∧ s.ringUp = true ∧
    Room 8 s := by
  induction l with
  | nil => exact ⟨_, .refl, rfl, rfl, [], .ofBits (by decide) _, by decide⟩
  | cons r l ih =>
    obtain ⟨new, nd⟩ := List.nodup_cons.1 nd
    obtain ⟨s, rn, linked, up, room⟩ := ih nd
    have st : Step s (.submit r .kNone ⟨fun _ => {}, false, none⟩) _ := .submit (linked ▸ new)
    refine ⟨_, rn.next _ trivial st, ?_⟩
    have full := room.full
    obtain ⟨m, hd, less⟩ := room
    obtain ⟨m', popped, same⟩ := hd.push_pop less ⟨.op r, s.calls⟩
    have call : s.SubmitOp r .kNone ⟨fun _ => {}, false, none⟩ =
        (({ s with token := Function.update s.token r .kNone }.link r).Submit (.op r) none).returns r none := by
      have quiet : CancelToken.cancelled (fun _ => {}) .kNone = false := rfl
      simp [State.SubmitOp, State.link, quiet, up, full]
    rw [call]
    exact ⟨congrArg _ linked, up, m', popped, same ▸ less⟩

/-- The addresses of 65 requests, all in one shard. -/
def crowd : List Addr := (List.range 65).map fun k => .ofNat 64 (741888 * k + 64)

/-- With the 65 requests in flight a cancel of everything asks 64 of them. -/
theorem cancel_misses :
    ∃ s, Reaches Step (State.init true 8) s ∧ s.linked = crowd ∧ s.ring.full = false ∧
      (s.RequestCancel .kNone (fun _ => {}) fun _ => none).2 = 64 ∧
      ¬AskedAll s (s.isTarget (fun _ => {}) .kNone) (s.RequestCancel .kNone (fun _ => {}) fun _ => none) := by
  obtain ⟨s, rn, linked, up, room⟩ := in_flight (l := crowd) (by decide +kernel)
  have sd := Sound.reached (by decide) rn
  obtain ⟨-, count⟩ := RequestCancel_found .kNone (fun _ => {}) sd.spelled up room
    fun _ : Addr => (rfl : (none : Option Nat) = none)
  have all : ∀ l : List Addr, l.filter (s.isTarget (fun _ => {}) .kNone) = l := fun l =>
    List.filter_eq_self.2 fun _ _ => rfl
  have few : (found s.linked (s.isTarget (fun _ => {}) .kNone)).length = 64 := by
    unfold found
    simp only [all]
    rw [linked]
    decide +kernel
  rw [few] at count
  refine ⟨s, rn, linked, room.full, count, fun asked => ?_⟩
  have wrong := asked.count
  rw [count, all, linked] at wrong
  cases wrong

end JLib.IoReactor.Submission
