import JLib.Bands.Room
import JLib.Floor.Workers

/-!
# The floor is awake

A worker that is parked finds out that it is in the floor only if somebody wakes it. It has looked at the floor after
it published `PARKED`, so it can come into the floor in its sleep only through an exchange of the word, and then the
call that made the exchange is to wake it. The call computes the range from what it reads later; `Settled` is that
this is still what its exchange has brought in.
-/

namespace JLib.Floor
open LTS Bands

variable {θ τ : Type} [DecidableEq θ] {w : Pool} {s s' : State θ τ} {l : Label θ τ} {t u : θ} {i q : Nat} {c : Cause}
  {b bw : BitVec 64}

/-- The call is still to read `K` for the range that it wakes. -/
def Pc.ReadsK : Pc → Prop
  | stamp want prev => prev < want
  | stamped want prev _ => prev < want
  | peak want prev => prev < want
  | peakLoop want prev _ => prev < want
  | resv want prev => prev < want
  | floored k prev => prev < k
  | keyed _ => True
  | waking _ _ _ next => next.ReadsK
  | ringing _ next => next.ReadsK
  | _ => False

/-- The call is still to read `F` for it. -/
def Pc.ReadsF : Pc → Prop
  | keyed _ => True
  | slide _ _ => True
  | waking _ _ _ next => next.ReadsF
  | ringing _ next => next.ReadsF
  | _ => False

/-- The condition on the exchanges. The floor is not lifted over what the caller is going to wake, and neither `K` nor
`F` changes while another call is to read it. -/
def Settled (w : Pool) (s : State θ τ) : Label θ τ → Prop
  | .exchange t => ∀ c cur bw, s.thread t = .loop c cur → (c.op w.n).next w.n s.word = some bw →
      BandField bw kBandF ≤ max s.F c.promised ∧
        (BandField bw kBandK ≠ s.K → ∀ u, ¬(s.thread u).ReadsK) ∧
          (BandField bw kBandF ≠ s.F → ∀ u, ¬(s.thread u).ReadsF)
  | _ => True

/-- What is left of the call comes to the worker `q`; `pushing` are the workers whose word it is about to exchange. -/
def Owes (K F q : Nat) (pushing : Nat → Prop) : Pc → Prop
  | .stamp want prev => K + prev ≤ q ∧ q < K + want
  | .stamped want prev _ => K + prev ≤ q ∧ q < K + want
  | .peak want prev => K + prev ≤ q ∧ q < K + want
  | .peakLoop want prev _ => K + prev ≤ q ∧ q < K + want
  | .resv want prev => K + prev ≤ q ∧ q < K + want
  | .floored k prev => K + prev ≤ q ∧ q < K + k
  | .keyed prev => min prev K ≤ q ∧ q < max prev K ∨ prev < K ∧ prev + F ≤ q ∧ q < K + F
  | .slide prev eff => prev + F ≤ q ∧ q < eff + F
  | .waking _ i hi next => i ≤ q ∧ q < hi ∨ Owes K F q pushing next
  | .ringing i next => q = i ∧ pushing i ∨ Owes K F q pushing next
  | _ => False

/-- The call of `t` is going to wake the worker `q`. -/
def State.Owes (s : State θ τ) (t : θ) (q : Nat) : Prop :=
  Floor.Owes s.K s.F q (fun i => ((s.worker i).producer t).Pushing) (s.thread t)

/-- The worker is in the floor. -/
def State.InFloor (s : State θ τ) (q : Nat) : Prop := s.K ≤ q ∧ q < s.K + s.F

/-- Who sleeps in the floor is about to be woken. -/
structure Covered (w : Pool) (s : State θ τ) : Prop where
  room : Room w.n s.word
  alone : Alone s
  owed : ∀ q, q < w.n → (s.worker q).Asleep → s.InFloor q → ∃ t, s.Owes t q

/-! ## What a call owes -/

/-- The call may have come closer to exchanging the words it is to exchange. -/
lemma Owes.mono {K F : Nat} {P Q : Nat → Prop} {pc : Pc} (sub : P q → Q q) (owes : Owes K F q P pc) :
    Owes K F q Q pc := by
  induction pc with
  | waking _ _ _ _ ih => exact owes.imp_right ih
  | ringing _ _ ih =>
    refine owes.imp (fun h => ?_) ih
    obtain ⟨rfl, h⟩ := h
    exact ⟨rfl, sub h⟩
  | _ => exact owes

/-- `K` and `F` may change behind the back of a call that has read them. -/
lemma Owes.moved {K F K' F' : Nat} {P : Nat → Prop} {pc : Pc} (hK : K' = K ∨ ¬pc.ReadsK) (hF : F' = F ∨ ¬pc.ReadsF)
    (owes : Owes K F q P pc) : Owes K' F' q P pc := by
  have reads : ∀ {want prev}, K' = K ∨ ¬prev < want → K + prev ≤ q ∧ q < K + want →
      K' + prev ≤ q ∧ q < K' + want := by
    intro want prev hK owes
    obtain rfl | no := hK
    · exact owes
    · exact absurd (by omega) no
  induction pc with
  | waking _ _ _ _ ih => exact owes.imp_right (ih hK hF)
  | ringing _ _ ih => exact owes.imp_right (ih hK hF)
  | stamp | stamped | peak | peakLoop | resv | floored => exact reads hK owes
  | keyed =>
    obtain rfl := hK.resolve_right (absurd trivial)
    obtain rfl := hF.resolve_right (absurd trivial)
    exact owes
  | slide =>
    obtain rfl := hF.resolve_right (absurd trivial)
    exact owes
  | _ => exact owes

omit [DecidableEq θ] in
/-- A call that is past the reads owes the same. -/
lemma State.Owes.same (hw : s'.word = s.word)
    (hp : ((s.worker q).producer t).Pushing → ((s'.worker q).producer t).Pushing)
    (ht : s'.thread t = s.thread t) (owes : s.Owes t q) : s'.Owes t q := by
  unfold State.Owes State.K State.F at *
  rw [hw, ht]
  exact owes.mono hp

/-! ## The exchange -/

/-- A writer writes its field, up to its 8 bits, -/
lemma Cause.next_field (two : 2 ≤ w.n) (h : (c.op w.n).next w.n b = some bw) :
    BandField bw (c.op w.n).field = (c.op w.n).value w.n b % 256 := by
  rw [Op.next_eq two h]
  exact BandField_put _ _ (Op.field_le _)

/-- No writer puts more into its field than it was asked for. -/
lemma Cause.next_le (two : 2 ≤ w.n) (h : (c.op w.n).next w.n b = some bw) :
    BandField bw (c.op w.n).field ≤ (c.op w.n).value w.n b := by
  rw [Cause.next_field two h]
  exact Nat.mod_le _ _

/-- and no other. -/
lemma Cause.next_same {sh : Nat} (two : 2 ≤ w.n) (h : (c.op w.n).next w.n b = some bw)
    (far : sh + 8 ≤ (c.op w.n).field ∨ (c.op w.n).field + 8 ≤ sh) : BandField bw sh = BandField b sh := by
  rw [Op.next_eq two h]
  exact BandField_put_of_ne _ _ far

/-- What a writer of the word leaves of `K` and `F`: one of them at most changes. -/
lemma Cause.next_fields (two : 2 ≤ w.n) (h : (c.op w.n).next w.n b = some bw) (room : Room w.n b)
    (kept : BandField bw kBandF ≤ max (BandField b kBandF) c.promised) :
    Room w.n bw ∧ ((∃ k, c = .hot k) ∧ BandField bw kBandF = BandField b kBandF ∨
      BandField bw kBandK = BandField b kBandK) := by
  have le := Cause.next_le two h
  unfold Room at room ⊢
  cases c with
  | grow f | floor f | force f =>
    have eK : BandField bw kBandK = BandField b kBandK := Cause.next_same two h (.inr (Nat.le_of_ble_eq_true rfl))
    change BandField bw kBandF ≤ min (max f (BandField b kBandFbase)) (w.n - BandField b kBandK - 1) at le
    exact ⟨by omega, .inr eK⟩
  | collapse cur base =>
    have eK : BandField bw kBandK = BandField b kBandK := Cause.next_same two h (.inr (Nat.le_of_ble_eq_true rfl))
    change BandField bw kBandF ≤ max (BandField b kBandF) 0 at kept
    exact ⟨by omega, .inr eK⟩
  | base =>
    have eK : BandField bw kBandK = BandField b kBandK := Cause.next_same two h (.inr (Nat.le_of_ble_eq_true rfl))
    have eF : BandField bw kBandF = BandField b kBandF := Cause.next_same two h (.inl (Nat.le_of_ble_eq_true rfl))
    exact ⟨by omega, .inr eK⟩
  | kmax | kmin =>
    have eK : BandField bw kBandK = BandField b kBandK := Cause.next_same two h (.inl (Nat.le_of_ble_eq_true rfl))
    have eF : BandField bw kBandF = BandField b kBandF := Cause.next_same two h (.inl (Nat.le_of_ble_eq_true rfl))
    exact ⟨by omega, .inr eK⟩
  | hot k =>
    have eF : BandField bw kBandF = BandField b kBandF := Cause.next_same two h (.inl (Nat.le_of_ble_eq_true rfl))
    change BandField bw kBandK ≤ min (if BandField b kBandKmax = 0 then Promotion.requested k w.n else
      min (Promotion.requested k w.n) (BandField b kBandKmax)) (w.n - BandField b kBandF - 1) at le
    exact ⟨by omega, .inl ⟨⟨k, rfl⟩, eF⟩⟩

/-- What an exchange brings into the floor its caller owes. -/
lemma Cause.owes_after {K F K' F' : Nat} {P : Nat → Prop} (kept : F' ≤ max F c.promised)
    (field : (∃ k, c = .hot k) ∧ F' = F ∨ K' = K) (out : ¬(K ≤ q ∧ q < K + F)) (into : K' ≤ q ∧ q < K' + F') :
    Owes K' F' q P (c.after (c.found K F)) := by
  obtain ⟨⟨k, rfl⟩, rfl⟩ | rfl := field
  · change min K K' ≤ q ∧ q < max K K' ∨ K < K' ∧ K + F' ≤ q ∧ q < K' + F'
    omega
  · have more : F < F' := by omega
    cases c with
    | grow want =>
      have le : F' ≤ max F want := kept
      have : want > F := by omega
      change Owes _ _ _ _ (if want > F then .stamp want F else .peak want F)
      rw [if_pos this]
      exact ⟨by omega, by omega⟩
    | floor k =>
      have le : F' ≤ max F k := kept
      have : ¬k ≤ F := by omega
      change Owes _ _ _ _ (if k ≤ F then .idle else .floored k F)
      rw [if_neg this]
      exact ⟨by omega, by omega⟩
    | base | collapse | force | kmax | kmin | hot =>
      have le : F' ≤ max F 0 := kept
      omega

/-! ## One step -/

/-- In a word with room the reader's clamps are idle. -/
lemma GetBands_room {n : Nat} (two : 2 ≤ n) (room : Room n b) :
    (GetBands b n).k = BandField b kBandK ∧ (GetBands b n).f = BandField b kBandF := by
  unfold Room at room
  have more : n > 1 := two
  have hk : ¬BandField b kBandK > n - 1 := by omega
  have hf : ¬BandField b kBandK + BandField b kBandF > n := by omega
  unfold GetBands
  dsimp only
  rw [if_pos more, if_neg hk]
  exact ⟨rfl, if_neg hf⟩

namespace Covered

omit [DecidableEq θ] in
/-- A step that leaves the word. -/
lemma same (cov : Covered w s) (al : Alone s') (hw : s'.word = s.word)
    (slept : ∀ q, q < w.n → (s'.worker q).Asleep → s.InFloor q → (s.worker q).Asleep)
    (keep : ∀ q u, q < w.n → (s'.worker q).Asleep → s.Owes u q → s'.Owes u q) : Covered w s' := by
  have eF : ∀ q, s'.InFloor q → s.InFloor q := by
    intro q into
    unfold State.InFloor State.K State.F at *
    rw [hw] at into
    exact into
  refine ⟨?_, al, fun q lt asleep into => ?_⟩
  · rw [hw]
    exact cov.room
  · obtain ⟨u, owes⟩ := cov.owed q lt (slept q lt asleep (eF q into)) (eF q into)
    exact ⟨u, keep q u lt asleep owes⟩

/-- A thread goes on. -/
lemma goto {pc : Pc} (cov : Covered w s) (al : Alone s') (hw : s'.word = s.word) (hk : s'.worker = s.worker)
    (ht : s'.thread = (s.goto t pc).thread)
    (keep : ∀ q, q < w.n → s.Owes t q → Owes s.K s.F q (fun i => ((s.worker i).producer t).Pushing) pc) :
    Covered w s' := by
  refine cov.same al hw (fun q _ asleep _ => ?_) fun q u lt _ owes => ?_
  · rw [hk] at asleep
    exact asleep
  · by_cases eu : u = t
    · subst eu
      unfold State.Owes State.K State.F
      rw [hw, hk, ht, State.goto_self]
      exact keep q lt owes
    · refine owes.same hw ?_ ?_
      · rw [hk]
        exact id
      · rw [ht, State.goto_other _ _ eu]

/-- A thread that owes nothing goes on. -/
lemma free {pc : Pc} (cov : Covered w s) (al : Alone s') (hw : s'.word = s.word) (hk : s'.worker = s.worker)
    (ht : s'.thread = (s.goto t pc).thread) (none : ∀ K F q P, ¬Owes K F q P (s.thread t)) : Covered w s' :=
  cov.goto al hw hk ht fun _ _ owes => (none _ _ _ _ owes).elim

end Covered

/-- A step of a worker brings nobody of the floor to sleep. -/
lemma slept {m : Park.Label θ τ} {p : Park.State θ τ} (two : 2 ≤ w.n) (room : Room w.n s.word)
    (st : Park.Step (w.setup i) (s.look i) m p) (into : s.InFloor q) (asleep : ((s.setWorker i p).worker q).Asleep) :
    (s.worker q).Asleep := by
  by_cases eq : q = i
  · subst eq
    rw [State.setWorker_self] at asleep
    obtain before | out := st.asleep asleep
    · exact before
    · obtain ⟨eK, eF⟩ := GetBands_room two room
      have inside : (s.look q).inFloor (w.setup q) = true := by
        unfold Park.State.inFloor
        rw [show (GetBands (s.look q).bands (w.setup q).nw).k = s.K from eK,
          show (GetBands (s.look q).bands (w.setup q).nw).f = s.F from eF]
        exact Bool.and_eq_true_iff.2 ⟨decide_eq_true into.1, decide_eq_true into.2⟩
      rw [inside] at out
      cases out
  · rwa [State.setWorker_other _ _ eq] at asleep

omit [DecidableEq θ] in
/-- A thread owes what it owed when another is the producer. -/
lemma State.Owes.other {p : Park.State θ τ} (hw : s'.word = s.word) (hk : s'.worker = (s.setWorker i p).worker)
    (ht : s'.thread t = s.thread t) (hp : p.producer t = (s.worker i).producer t) (owes : s.Owes t q) :
    s'.Owes t q := by
  refine owes.same hw (fun pushing => ?_) ht
  rw [hk]
  by_cases eq : q = i
  · subst eq
    rw [State.setWorker_self, hp]
    exact pushing
  · rw [State.setWorker_other _ _ eq]
    exact pushing

/-- A step under the condition keeps the sleepers of the floor covered. -/
lemma Step.covered (two : 2 ≤ w.n) (st : Step w s l s') (ok : Settled w s l) (cov : Covered w s) : Covered w s' := by
  have al := st.alone cov.alone
  cases st with
  | @worker i m p lt own st =>
    refine cov.same al rfl (fun q _ asleep into => slept two cov.room st into asleep) fun q u _ _ owes => ?_
    refine State.Owes.other (s := s) (i := i) (p := p) rfl rfl rfl (st.producer_other ?_ ?_) owes
    · rintro q x rfl
      simp only [reduceCtorEq, or_self] at own
    · rintro rfl
      simp only [reduceCtorEq, or_self] at own
  | @push t i x _ p e _ st =>
    refine cov.same al rfl (fun q _ asleep into => slept two cov.room st into asleep) fun q u _ _ owes => ?_
    have ne : u ≠ t := by
      rintro rfl
      unfold State.Owes at owes
      rw [e] at owes
      exact owes
    refine State.Owes.other (s := s) (i := i) (p := p) rfl rfl (State.goto_other _ _ ne)
      (st.producer_other (fun q x eq => ?_) nofun) owes
    cases eq
    exact ne rfl
  | @exchange t c cur bw e next eq =>
    subst eq
    obtain ⟨kept, apartK, apartF⟩ := ok c _ bw e next
    obtain ⟨room, field⟩ := Cause.next_fields two next cov.room kept
    refine ⟨room, al, fun q lt asleep into => ?_⟩
    by_cases before : s.InFloor q
    · obtain ⟨u, owes⟩ := cov.owed q lt asleep before
      have ne : u ≠ t := by
        rintro rfl
        unfold State.Owes at owes
        rw [e] at owes
        exact owes
      refine ⟨u, ?_⟩
      unfold State.Owes
      rw [State.goto_other _ _ ne]
      refine owes.moved ?_ ?_
      · by_cases eK : BandField bw kBandK = s.K
        · exact .inl eK
        · exact .inr (apartK eK u)
      · by_cases eF : BandField bw kBandF = s.F
        · exact .inl eF
        · exact .inr (apartF eF u)
    · refine ⟨t, ?_⟩
      unfold State.Owes
      rw [State.goto_self]
      exact Cause.owes_after kept field before into
  | @ring t i hi next p lane e lt lt' hp =>
    have frame : p.workerState = (s.worker i).workerState ∧ p.pc = (s.worker i).pc ∧ p.producer t = .exchange ∧
        ∀ u, u ≠ t → p.producer u = (s.worker i).producer u := by
      subst hp
      refine ⟨?_, ?_, (Park.producer_setProducer ..).trans (if_pos rfl), fun u ne => ?_⟩
      · cases lane <;> rfl
      · cases lane <;> rfl
      · rw [Park.producer_setProducer, if_neg ne]
        cases lane <;> rfl
    obtain ⟨ew, ep, self, others⟩ := frame
    refine cov.same al rfl (fun q _ asleep _ => ?_) fun q u _ _ owes => ?_
    · have asleep : ((s.setWorker i p).worker q).Asleep := asleep
      by_cases eq : q = i
      · subst eq
        rw [State.setWorker_self] at asleep
        exact ⟨ew.symm.trans asleep.1, by rw [← ep]; exact asleep.2⟩
      · rwa [State.setWorker_other _ _ eq] at asleep
    · by_cases eu : u = t
      · subst eu
        unfold State.Owes at owes ⊢
        rw [e] at owes
        rw [State.goto_self]
        obtain ⟨lo, hi⟩ | owes := owes
        · obtain rfl | more := Nat.eq_or_lt_of_le lo
          · refine .inl ⟨rfl, ?_⟩
            show (((s.setWorker i p).worker i).producer u).Pushing
            rw [State.setWorker_self, self]
            trivial
          · exact .inr (.inl ⟨more, hi⟩)
        · refine .inr (.inr (owes.mono fun pushing => ?_))
          rw [cov.alone.idle (by rw [e]; exact nofun) q] at pushing
          exact pushing.elim
      · exact State.Owes.other (s := s) (i := i) (p := p) rfl rfl (State.goto_other _ _ eu)
          (others u eu) owes
  | @notify t i next p e ne st =>
    refine cov.same al rfl (fun q _ asleep into => slept two cov.room st into asleep) fun q u _ asleep owes => ?_
    by_cases eu : u = t
    · subst eu
      refine owes.same (s := s) rfl (fun pushing => ?_) rfl
      have asleep : ((s.setWorker i p).worker q).Asleep := asleep
      by_cases eq : q = i
      · subst eq
        rw [State.setWorker_self] at asleep ⊢
        obtain on | woken := st.pushing pushing
        · exact on
        · rw [asleep.1] at woken
          cases woken
      · rw [State.setWorker_other _ _ eq]
        exact pushing
    · refine State.Owes.other (s := s) (i := i) (p := p) rfl rfl rfl
        (st.producer_other nofun fun eq => ?_) owes
      cases eq
      exact eu rfl
  | crowding e | snapshot e | crowded e | collapsing e | collapse e | clock e | age e | held e | forcing e | force e
  | setFloor e | setHot e | setHotEffective e | resetting e | reset e | resetStore e | load e | retry e | refuse e =>
    refine cov.free al rfl rfl rfl ?_
    rw [e]
    exact fun _ _ _ _ => id
  | stamp e | stamped e | peak e | peakRetry e =>
    refine cov.goto al rfl rfl rfl fun q _ owes => ?_
    unfold State.Owes at owes
    rw [e] at owes
    exact owes
  | peakExchange e | peakDone e =>
    refine cov.goto al rfl rfl rfl fun q _ owes => ?_
    unfold State.Owes at owes
    rw [e] at owes
    obtain ⟨lo, hi⟩ := owes
    rw [if_neg (by omega)]
    exact ⟨lo, hi⟩
  | resv e =>
    refine cov.goto al rfl rfl rfl fun q _ owes => .inl ?_
    unfold State.Owes at owes
    rw [e] at owes
    rw [(GetBands_room two cov.room).1]
    exact owes
  | floored e | slide e =>
    refine cov.goto al rfl rfl rfl fun q _ owes => .inl ?_
    unfold State.Owes at owes
    rw [e] at owes
    exact owes
  | keyed e =>
    refine cov.goto al rfl rfl rfl fun q _ owes => ?_
    unfold State.Owes at owes
    rw [e] at owes
    obtain lane | ⟨lt, slid⟩ := owes
    · exact .inl lane
    · right
      rw [if_pos lt]
      exact slid
  | woken e past =>
    refine cov.goto al rfl rfl rfl fun q _ owes => ?_
    unfold State.Owes at owes
    rw [e] at owes
    obtain here | owes := owes
    · exact (past (by omega)).elim
    · exact owes
  | notified e idle =>
    refine cov.goto al rfl rfl rfl fun q _ owes => ?_
    unfold State.Owes at owes
    rw [e] at owes
    obtain ⟨-, pushing⟩ | owes := owes
    · rw [idle] at pushing
      exact pushing.elim
    · exact owes
  | outside => exact cov.same al rfl (fun _ _ asleep _ => asleep) fun _ _ _ _ owes => owes

/-- In every state of a run the sleepers of the floor are covered. -/
lemma Covered.of_runs (two : 2 ≤ w.n) (room : Room w.n b) (rn : Runs (Step w) (Settled w) { word := b } s) :
    Covered w s := by
  have init : Covered w ({ word := b } : State θ τ) :=
    { room := room
      alone := fun _ _ ne => (ne rfl).elim
      owed := fun _ _ asleep => asleep.2.elim }
  refine rn.invariant (I := Covered w) init ?_
  intro s l s' cov ok st
  exact st.covered two ok cov

/-- The call of `t` is going to wake the worker, or has found it parked and is waking it. -/
def State.Wakes (s : State θ τ) (t : θ) (q : Nat) : Prop := s.Owes t q ∨ ((s.worker q).producer t).Owes

omit [DecidableEq θ] in
/-- A thread that is in no call wakes nobody. -/
lemma Alone.not_wakes (al : Alone s) (idle : s.thread t = .idle) : ¬s.Wakes t q := by
  have none := al.idle (t := t) (by rw [idle]; exact nofun) q
  rintro (owes | owes)
  · unfold State.Owes at owes
    rw [idle] at owes
    exact owes
  · rw [none] at owes
    exact owes

/-- A worker of the floor that is blocked in its wait is being woken; it is not blocked when no call is under way. -/
theorem floor_awake (two : 2 ≤ w.n) (room : Room w.n b) (rn : Runs (Step w) (Settled w) { word := b } s)
    (lt : q < w.n) (into : s.InFloor q) :
    ((s.worker q).pc = .blocked → ∃ t, s.Wakes t q) ∧
      ((∀ t, s.thread t = .idle) → (s.worker q).pc ≠ .blocked) := by
  have cov := Covered.of_runs two room rn
  have woken : (s.worker q).pc = .blocked → ∃ t, s.Wakes t q := by
    intro blocked
    by_cases parked : (s.worker q).workerState = .parked
    · obtain ⟨t, owes⟩ := cov.owed q lt ⟨parked, by rw [blocked]; trivial⟩ into
      exact ⟨t, .inl owes⟩
    · have wd : Park.Watched (w.setup q) (s.look q) := .of_runs (park_runs rn q)
      obtain ⟨t, owes⟩ := wd.blocked blocked parked
      exact ⟨t, .inr owes⟩
  refine ⟨woken, fun idle blocked => ?_⟩
  obtain ⟨t, wakes⟩ := woken blocked
  exact cov.alone.not_wakes (idle t) wakes

/-- A crowded submit goes on to grow the floor. -/
lemma Step.crowds {submitted want : Nat} (e : s.thread t = .capped submitted b)
    (h : Floor.crowded w.n s.g_floorGrowCap submitted b = some want) :
    Step w s (.thread t) (s.goto t (.load (.grow want))) := by
  have st := Step.crowded (w := w) e
  rwa [h] at st

/-- Worker 1 of four parks outside of a floor of one. A growth takes it in, and is to wake it. -/
theorem floor_awake_four : ∃ s : State Unit Unit, Runs (Step ⟨4, false⟩) (Settled ⟨4, false⟩) { word := 0x0101#64 } s ∧
    s.InFloor 1 ∧ (s.worker 1).pc = .blocked ∧ ∃ t, s.Wakes t 1 := by
  let w : Pool := ⟨4, false⟩
  let p : Park.State Unit Unit := { bands := 0x0101#64 }
  have idle : Park.Idle (w.setup 1) p := ⟨rfl, fun _ => .inl rfl, rfl, rfl, by decide, by decide⟩
  have r : Runs (Step w) (Settled w) ({ word := 0x0101#64 } : State Unit Unit) _ := .refl
  have r := r.next (.worker 1) trivial (.worker (i := 1) (Nat.le_of_ble_eq_true rfl) (.inr (.inr rfl))
    (show Park.Step _ _ .outside p from .outside))
  have r := r.trans (worker_runs (Nat.le_of_ble_eq_true rfl) (fun _ => trivial) rfl
    (idle.asleep_runs (fun _ => rfl) rfl rfl rfl)).1
  have r := r.next (.crowd () 1) trivial (.crowding rfl (by decide) (by decide))
  have r := r.next (.thread ()) trivial (.snapshot rfl)
  have r := r.next (.thread ()) trivial (.crowds rfl (show crowded 4 0 1 0x0101#64 = some 2 by decide))
  have r := r.next (.thread ()) trivial (.load rfl)
  have r := r.next (.exchange ()) ?_
    (.exchange rfl (show (Op.setF 2).next 4 0x0101#64 = some 0x0102#64 by decide) rfl)
  · have into : BandField 0x0102#64 kBandK ≤ 1 ∧ 1 < BandField 0x0102#64 kBandK + BandField 0x0102#64 kBandF := by
      decide
    have lt : 1 < w.n := by decide
    exact ⟨_, r, into, rfl, (floor_awake (by decide) (by decide) r lt into).1 rfl⟩
  · rintro c cur bw e next
    cases e
    cases next
    exact ⟨by decide, fun ne => absurd (by decide) ne, fun _ u => id⟩

end JLib.Floor
