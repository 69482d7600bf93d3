import JLib.Topology.Model
import Mathlib.Data.List.Induction
import Mathlib.Data.List.Nodup

/-!
# The tables against the placement

`BuildTopology` reads a worker off a CPU, `q` off CPU `q + 1`; `StartPool` puts the worker on the CPU that its
lists give. The tables are right about CPU `q + 1`, so they describe the pool as it is placed when that is the CPU
of every worker, and only then.
-/

namespace JLib.Topology

/-! ## What the tables are to say -/

/-- The cores that the platform has told of. -/
def Info.cores (topo : Info) : List CpuMask := if topo.haveCores then topo.coreMasks else []

/-- The workers that the mask has are these two. -/
def OnlyTwo (num_workers : Nat) (cpu : Nat → Nat) (mask : CpuMask) (a b : Nat) : Prop :=
  a ≠ b ∧ ∀ c, (c < num_workers ∧ mask.Test (cpu c) = true) ↔ (c = a ∨ c = b)

def Nested (cacheMasks : List CpuMask) : Prop :=
  cacheMasks.Pairwise fun l r => l &&& r = 0 ∨ l &&& r = l ∨ l &&& r = r

/-- The tables of so many workers describe the CPUs that they are on. -/
structure Describes (topo : Info) (cpu : Nat → Nat) (num_workers : Nat) : Prop where
  sibling : ∀ a b, topo.siblingQIndex num_workers a = some b ↔ ∃ mask ∈ topo.cores, OnlyTwo num_workers cpu mask a b
  mates : ∀ q < num_workers, ∀ m ∈ topo.clusterMates num_workers q,
    m < num_workers ∧ m ≠ q ∧ topo.siblingQIndex num_workers q ≠ some m ∧
      (topo.haveCache = true → ∃ mask ∈ topo.cacheMasks, mask.Test (cpu q) = true ∧ mask.Test (cpu m) = true)
  llc : ∀ q < num_workers, topo.llcMaskOfWorker q ≠ 0 → (topo.llcMaskOfWorker q).Test (cpu q) = true
  classes : ∀ q < num_workers,
    (topo.matesSameClass num_workers q ++ topo.matesOtherClass num_workers q).Perm (topo.clusterMates num_workers q) ∧
    (∀ m ∈ topo.matesSameClass num_workers q, topo.isPCore num_workers m = topo.isPCore num_workers q) ∧
    ∀ m ∈ topo.matesOtherClass num_workers q, topo.isPCore num_workers m ≠ topo.isPCore num_workers q

/-- It is symmetric, and never the worker itself. -/
lemma Describes.symm {topo : Info} {cpu : Nat → Nat} {n a b : Nat} (D : Describes topo cpu n)
    (h : topo.siblingQIndex n a = some b) : topo.siblingQIndex n b = some a ∧ a ≠ b := by
  obtain ⟨mask, hm, ne, two⟩ := (D.sibling a b).1 h
  refine ⟨(D.sibling b a).2 ⟨mask, hm, ne.symm, fun c => ?_⟩, ne⟩
  rw [two c]
  exact Or.comm

/-! ## The workers of a mask -/

/-- A set bit is a CPU. -/
lemma CpuMask.lt_of_test {m : CpuMask} {c : Nat} (h : m.Test c = true) : c < kMaxCpus := BitVec.lt_of_getLsbD h

/-- The CPUs of a mask are its set bits. -/
lemma CpuMask.mem_cpus {m : CpuMask} {c : Nat} : c ∈ m.cpus ↔ m.Test c = true := by
  simp only [CpuMask.cpus, List.mem_filter, List.mem_range]
  exact ⟨And.right, fun h => ⟨CpuMask.lt_of_test h, h⟩⟩

/-- Disjoint masks share no CPU. -/
lemma CpuMask.not_both {l r : CpuMask} {c : Nat} (h : l &&& r = 0) (hl : l.Test c = true) : r.Test c = false := by
  have both : (l &&& r).getLsbD c = false := by
    rw [h]
    simp
  rw [BitVec.getLsbD_and, show l.getLsbD c = true from hl] at both
  exact both

/-- The worker of a CPU is one below it. -/
lemma qIndexOf_eq {n c q : Nat} : qIndexOf n c = some q ↔ c = q + 1 ∧ q < n := by
  unfold qIndexOf
  grind

/-- The workers of a mask are those whose CPU it has. -/
lemma mem_qsInGroup {n q : Nat} {m : CpuMask} : q ∈ qsInGroup n m ↔ q < n ∧ m.Test (q + 1) = true := by
  simp only [qsInGroup, List.mem_filterMap, CpuMask.mem_cpus, qIndexOf_eq]
  constructor
  · rintro ⟨_, h, rfl, hq⟩
    exact ⟨hq, h⟩
  · rintro ⟨hq, h⟩
    exact ⟨q + 1, h, rfl, hq⟩

/-- No worker is twice in a mask. -/
lemma nodup_qsInGroup (n : Nat) (m : CpuMask) : (qsInGroup n m).Nodup := by
  apply List.Nodup.filterMap
  · intro c c' q h h'
    have hc := qIndexOf_eq.1 h
    have hc' := qIndexOf_eq.1 h'
    omega
  · exact List.nodup_range.filter _

/-! ## Siblings -/

/-- The workers of the mask, by the table, are these two. -/
def Paired (n : Nat) (mask : CpuMask) (a b : Nat) : Prop := qsInGroup n mask = [a, b] ∨ qsInGroup n mask = [b, a]

/-- Who is paired by a mask is in it. -/
lemma Paired.mem {n a b : Nat} {mask : CpuMask} (h : Paired n mask a b) : a ∈ qsInGroup n mask := by
  obtain h | h := h <;> simp [h]

/-- A pair of the table is a mask with two workers. -/
lemma paired_iff {n a b : Nat} {mask : CpuMask} : Paired n mask a b ↔ OnlyTwo n (· + 1) mask a b := by
  have nodup := nodup_qsInGroup n mask
  unfold OnlyTwo
  simp only [← mem_qsInGroup]
  constructor
  · rintro (h | h) <;> rw [h] at nodup ⊢ <;> simp at nodup <;> grind
  · rintro ⟨ne, two⟩
    have perm : (qsInGroup n mask).Perm [a, b] :=
      (List.perm_ext_iff_of_nodup nodup (by simpa using ne)).2 (by simpa using two)
    obtain ⟨x, y, h⟩ := List.length_eq_two.1 perm.length_eq
    unfold Paired
    rw [h] at perm nodup ⊢
    have hx : x ∈ [a, b] := perm.mem_iff.1 (by simp)
    have hy : y ∈ [a, b] := perm.mem_iff.1 (by simp)
    simp at nodup hx hy
    grind

/-- What one core makes of the table. -/
lemma pairUp_eq {n a b : Nat} {mask : CpuMask} {sibling : Nat → Option Nat} :
    pairUp n sibling mask a = some b ↔
      Paired n mask a b ∨ (∀ c, ¬ Paired n mask a c) ∧ sibling a = some b := by
  have nodup := nodup_qsInGroup n mask
  unfold pairUp Paired
  generalize qsInGroup n mask = qs at nodup ⊢
  match qs with
  | [x, y] =>
    simp at nodup
    simp only [Function.update_apply]
    grind
  | [] | [_] | _ :: _ :: _ :: _ => simp

/-- No worker is of two cores, so that none is paired twice. -/
lemma foldl_pairUp {n a b : Nat} {masks : List CpuMask} (disjoint : masks.Pairwise fun l r => l &&& r = 0) :
    masks.foldl (pairUp n) (fun _ => none) a = some b ↔ ∃ mask ∈ masks, Paired n mask a b := by
  induction masks using List.reverseRecOn generalizing b with
  | nil => simp
  | append_singleton masks mask ih =>
    obtain ⟨before, -, apart⟩ := List.pairwise_append.1 disjoint
    rw [List.foldl_append, List.foldl_cons, List.foldl_nil, pairUp_eq, ih before]
    constructor
    · rintro (h | ⟨-, m, hm, h⟩)
      · exact ⟨mask, by simp, h⟩
      · exact ⟨m, by simp [hm], h⟩
    · rintro ⟨m, hm, h⟩
      obtain hm | rfl : m ∈ masks ∨ m = mask := by simpa using hm
      · refine .inr ⟨fun c hc => ?_, m, hm, h⟩
        have := CpuMask.not_both (apart m hm mask (by simp)) (mem_qsInGroup.1 h.mem).2
        have := (mem_qsInGroup.1 hc.mem).2
        simp_all
      · exact .inl h

/-- The sibling of a worker is the other one of a core with two. -/
lemma siblingQIndex_eq {topo : Info} {n a b : Nat} (disjoint : topo.coreMasks.Pairwise fun l r => l &&& r = 0) :
    topo.siblingQIndex n a = some b ↔ ∃ mask ∈ topo.cores, OnlyTwo n (· + 1) mask a b := by
  simp only [Info.siblingQIndex, Info.cores, ← paired_iff]
  split
  · exact foldl_pairUp disjoint
  · simp

/-! ## The mates -/

/-- A mate as the table has it: of a cache of the worker, and neither the worker nor its sibling. -/
def IsMate (n : Nat) (sibling : Nat → Option Nat) (caches : List CpuMask) (q m : Nat) : Prop :=
  m < n ∧ m ≠ q ∧ sibling q ≠ some m ∧ ∃ mask ∈ caches, mask.Test (q + 1) = true ∧ mask.Test (m + 1) = true

/-- Keeping the larger group keeps mates to be mates. -/
lemma mate_keepLargest {n : Nat} {sibling : Nat → Option Nat} {caches : List CpuMask} {mask : CpuMask}
    {mates : Nat → List Nat} {q : Nat} (hm : mask ∈ caches) (hq : q ∈ qsInGroup n mask)
    (h : ∀ w, ∀ m ∈ mates w, IsMate n sibling caches w m) :
    ∀ w, ∀ m ∈ keepLargest sibling (qsInGroup n mask) mates q w, IsMate n sibling caches w m := by
  intro w m
  unfold keepLargest
  split
  next =>
    rw [Function.update_apply]
    split
    next hw =>
      subst hw
      intro mem
      obtain ⟨mem, cond⟩ := List.mem_filter.1 mem
      obtain ⟨ne, sib⟩ := of_decide_eq_true cond
      obtain ⟨lt, test⟩ := mem_qsInGroup.1 mem
      exact ⟨lt, ne, sib.symm, mask, hm, (mem_qsInGroup.1 hq).2, test⟩
    next => exact h w m
  next => exact h w m

/-- Gathering a cache keeps mates to be mates. -/
lemma mate_gather {n : Nat} {sibling : Nat → Option Nat} {caches : List CpuMask} {mask : CpuMask}
    {mates : Nat → List Nat} (hm : mask ∈ caches) (h : ∀ w, ∀ m ∈ mates w, IsMate n sibling caches w m) :
    ∀ w, ∀ m ∈ gather n sibling mates mask w, IsMate n sibling caches w m := by
  unfold gather
  split
  next => exact h
  next =>
    apply List.foldlRecOn (motive := fun mates : Nat → List Nat => ∀ w, ∀ m ∈ mates w, IsMate n sibling caches w m)
    · exact h
    · intro mates ih q hq
      exact mate_keepLargest hm hq ih

/-- With caches told of, the mates are of a cache of the worker. -/
lemma mate_clusterMates {topo : Info} {n q m : Nat} (hc : topo.haveCache = true) (h : m ∈ topo.clusterMates n q) :
    IsMate n (topo.siblingQIndex n) topo.cacheMasks q m := by
  rw [Info.clusterMates, if_pos hc] at h
  revert h
  generalize topo.siblingQIndex n = sibling
  revert q m
  apply List.foldlRecOn
    (motive := fun mates : Nat → List Nat => ∀ w, ∀ m ∈ mates w, IsMate n sibling topo.cacheMasks w m)
  · intro q m h
    cases h
  · intro mates ih mask hm
    exact mate_gather hm ih

/-- Without caches, every worker but the sibling is a mate. -/
lemma mate_one_cluster {topo : Info} {n q m : Nat} (hc : topo.haveCache ≠ true) (h : m ∈ topo.clusterMates n q) :
    m < n ∧ m ≠ q ∧ topo.siblingQIndex n q ≠ some m := by
  rw [Info.clusterMates, if_neg hc, List.mem_filter, List.mem_range] at h
  obtain ⟨ne, sib⟩ := of_decide_eq_true h.2
  exact ⟨h.1, ne, sib.symm⟩

/-! ## The last-level cache -/

/-- The cache that is kept has the CPU. -/
lemma foldl_widen_test (cpu : Nat) (caches : List CpuMask) :
    let best := (caches.foldl (widen cpu) (0, 0)).2
    best ≠ 0 → best.Test cpu = true := by
  apply List.foldlRecOn (motive := fun best : Nat × CpuMask => best.2 ≠ 0 → best.2.Test cpu = true)
  · intro h
    exact absurd rfl h
  · intro best ih mask _
    unfold widen
    split
    next => exact ih
    next test =>
      split
      next => exact fun _ => by simpa using test
      next => exact ih

/-- With one cache of the CPU alone, that cache. -/
lemma foldl_widen_alone {cpu : Nat} (h : cpu < kMaxCpus) :
    ([BitVec.twoPow 256 cpu].foldl (widen cpu) (0, 0)).2 = BitVec.twoPow 256 cpu := by
  have test : CpuMask.Test (BitVec.twoPow 256 cpu) cpu = true := by
    simpa [CpuMask.Test, kMaxCpus] using h
  have pos : CpuMask.Count (BitVec.twoPow 256 cpu) > 0 :=
    List.countP_pos_iff.2 ⟨cpu, List.mem_range.2 h, test⟩
  simp [widen, test, pos]

/-- The mask of a worker has its CPU. -/
lemma llcMaskOfWorker_test {topo : Info} {q : Nat} (h : topo.llcMaskOfWorker q ≠ 0) :
    (topo.llcMaskOfWorker q).Test (q + 1) = true := by
  unfold Info.llcMaskOfWorker at h ⊢
  split at h
  next hc =>
    rw [if_pos hc]
    exact foldl_widen_test (q + 1) topo.cacheMasks h
  next => exact absurd rfl h

/-! ## The placement -/

/-- Disjoint cores have distinct first CPUs. -/
lemma nodup_firsts {masks : List CpuMask} (disjoint : masks.Pairwise fun l r => l &&& r = 0) :
    (masks.filterMap fun m => m.cpus.head?).Nodup := by
  refine List.Pairwise.filterMap _ (fun l r apart c hc c' hc' same => ?_) disjoint
  have hl := CpuMask.mem_cpus.1 (List.mem_of_head? hc)
  have hr := CpuMask.mem_cpus.1 (List.mem_of_head? hc')
  have := CpuMask.not_both apart hl
  simp_all

/-- There are no more physical CPUs than bits in a mask. -/
lemma length_physicalCpus {topo : Info} {policy : AffinityPolicy}
    (disjoint : topo.coreMasks.Pairwise fun l r => l &&& r = 0) : (topo.physicalCpus policy).length ≤ kMaxCpus := by
  unfold Info.physicalCpus
  dsimp only
  split
  · split
    · rw [← List.length_range (n := kMaxCpus)]
      apply List.Nodup.length_le_of_subset (nodup_firsts disjoint)
      intro c hc
      obtain ⟨m, -, head⟩ := List.mem_filterMap.1 hc
      exact List.mem_range.2 (CpuMask.lt_of_test (CpuMask.mem_cpus.1 (List.mem_of_head? head)))
    · simp
  · simp

/-- There are no more logical CPUs than bits in a mask. -/
lemma length_logicalCpus (topo : Info) : topo.logicalCpus.length ≤ kMaxCpus := by
  unfold Info.logicalCpus
  split
  · exact (List.length_filter_le _ _).trans_eq List.length_range
  · simp

/-- Only a CPU of the lists is another one than the tables take it to be. -/
lemma lt_of_cpu_ne {topo : Info} {policy : AffinityPolicy} {hw safeTC poolSize q : Nat}
    (disjoint : topo.coreMasks.Pairwise fun l r => l &&& r = 0)
    (hq : q < topo.numWorkers policy hw safeTC poolSize) (h : topo.cpu policy q ≠ q + 1) : q + 1 < kMaxCpus := by
  have physical : (topo.physicalCpus policy).length ≤ kMaxCpus := length_physicalCpus disjoint
  have logical := length_logicalCpus topo
  unfold Info.numWorkers at hq
  unfold Info.cpu at h
  grind

/-! ## Together -/

/-- The tables describe a pool whose workers are on the CPUs that they take them to be on. -/
lemma describes_sequential {topo : Info} {cpu : Nat → Nat} {n : Nat}
    (disjoint : topo.coreMasks.Pairwise fun l r => l &&& r = 0) (seq : ∀ q < n, cpu q = q + 1) :
    Describes topo cpu n where
  sibling a b := by
    rw [siblingQIndex_eq disjoint]
    unfold OnlyTwo
    have same (mask : CpuMask) (c : Nat) :
        (c < n ∧ mask.Test (c + 1) = true) ↔ (c < n ∧ mask.Test (cpu c) = true) :=
      and_congr_right fun hc => by rw [seq c hc]
    simp only [same]
  mates q hq m hm := by
    by_cases hc : topo.haveCache = true
    · obtain ⟨lt, ne, sib, mask, mem, tq, tm⟩ := mate_clusterMates hc hm
      refine ⟨lt, ne, sib, fun _ => ⟨mask, mem, ?_, ?_⟩⟩
      · rw [seq q hq]
        exact tq
      · rw [seq m lt]
        exact tm
    · obtain ⟨lt, ne, sib⟩ := mate_one_cluster hc hm
      exact ⟨lt, ne, sib, fun h => absurd h hc⟩
  llc q hq h := by
    rw [seq q hq]
    exact llcMaskOfWorker_test h
  classes q _ := by
    refine ⟨List.filter_append_perm _ _, fun m hm => ?_, fun m hm => ?_⟩
    · simpa using (List.mem_filter.1 hm).2
    · simpa using (List.mem_filter.1 hm).2

/-- The tables describe the pool that `StartPool` places, whatever the caches are, just when it puts every worker on
the CPU after its own number. -/
theorem tables_describe_iff (topo : Info) (policy : AffinityPolicy) (hw safeTC poolSize : Nat)
    (disjoint : topo.coreMasks.Pairwise fun l r => l &&& r = 0) :
    (∀ (caches : List CpuMask) (have_ : Bool), Nested caches →
      Describes { topo with cacheMasks := caches, haveCache := have_ } (topo.cpu policy)
        (topo.numWorkers policy hw safeTC poolSize)) ↔
    ∀ q < topo.numWorkers policy hw safeTC poolSize, topo.cpu policy q = q + 1 := by
  constructor
  · intro all q hq
    by_contra ne
    -- a cache of the CPU that the table looks at is a mask without the CPU of the worker
    have lt := lt_of_cpu_ne disjoint hq ne
    have D := all [BitVec.twoPow 256 (q + 1)] true (List.pairwise_singleton _ _)
    have llc := D.llc q hq
    simp only [Info.llcMaskOfWorker, lt, and_self, if_true, foldl_widen_alone lt] at llc
    have test := llc fun h => by
      have bit := congrArg (fun m : BitVec 256 => m.getLsbD (q + 1)) h
      simp [kMaxCpus] at bit lt
      omega
    simp only [CpuMask.Test, BitVec.getLsbD_twoPow, Bool.and_eq_true, decide_eq_true_eq] at test
    exact ne test.2.symm
  · intro seq caches have_ _
    exact describes_sequential disjoint seq

/-- Four cores of two CPUs each and one cache. -/
def smt : Info where
  coreMasks := [0b11, 0b1100, 0b110000, 0b11000000]
  cacheMasks := [0b11111111]
  haveCores := true
  haveCache := true
  efficiencyClass _ := -1
  maxClass := -1

/-- Seven workers on four cores of two CPUs. -/
theorem tables_describe_smt :
    smt.numWorkers .Ideal 8 7 0 = 7 ∧ Describes smt (smt.cpu .Ideal) (smt.numWorkers .Ideal 8 7 0) :=
  ⟨by decide +kernel,
    (tables_describe_iff smt .Ideal 8 7 0 (by decide)).2 (by decide +kernel) smt.cacheMasks true
      (List.pairwise_singleton _ _)⟩

/-- No core has CPU 4 and CPU 6. -/
lemma smt_apart {mask : CpuMask} (h : mask ∈ smt.cores) (has : mask.Test 4 = true) : mask.Test 6 = false := by
  simp only [Info.cores, smt, if_true, List.mem_cons, List.not_mem_nil, or_false] at h
  obtain rfl | rfl | rfl | rfl := h
  · rfl
  · rfl
  · rfl
  · cases has

/-- With a worker for each core, the table makes siblings of two workers that are on two cores. -/
theorem siblings_on_two_cores :
    smt.coreMasks.Pairwise (fun l r => l &&& r = 0) ∧ Nested smt.cacheMasks ∧
    smt.numWorkers .PhysicalOnly 8 7 0 = 3 ∧ smt.siblingQIndex 3 1 = some 2 ∧
    smt.cpu .PhysicalOnly 1 = 4 ∧ smt.cpu .PhysicalOnly 2 = 6 ∧ ¬ Describes smt (smt.cpu .PhysicalOnly) 3 := by
  have paired : smt.siblingQIndex 3 1 = some 2 := by decide +kernel
  have one : smt.cpu .PhysicalOnly 1 = 4 := by decide +kernel
  have other : smt.cpu .PhysicalOnly 2 = 6 := by decide +kernel
  refine ⟨by decide, List.pairwise_singleton _ _, by decide +kernel, paired, one, other, fun D => ?_⟩
  generalize smt.cpu .PhysicalOnly = cpu at one other D
  obtain ⟨mask, mem, -, two⟩ := (D.sibling 1 2).1 paired
  have has := ((two 1).2 (.inl rfl)).2
  have has' := ((two 2).2 (.inr rfl)).2
  rw [one] at has
  rw [other, smt_apart mem has] at has'
  cases has'

end JLib.Topology
