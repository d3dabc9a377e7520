import BoomCore.Proof.DynamicInstance

/-!
# Occurrences of dynamic uops

Whether the uop of every instance has the registers, the branch and the raw branch with the
instance's own number, and an allocation record only if it is the instance's own. A `rob_allocate`
record has no `pc`, so a trace does not say whose it is: `own i` is the position of the record of
the `i`-th instance among those of the trace, and everything here holds for any `own`.
-/

set_option autoImplicit false
set_option relaxedAutoImplicit false

namespace BoomCore.Trace

section Identity

variable (normalized : List NormRecord) (raw : List RawRecord) (source program : String)

/-! ### The property -/

/-- The allocation records that a uop can get; only a BOOM trace is searched for them. -/
def traceAllocations : List (RawRecord × ℤ) :=
  if source = "boom" then allocationRecords (sortedRecords raw) else []

/-- The position of the allocation record that the last loop takes for the `i`-th uop. -/
def takenAllocation (i : ℕ) : Option ℕ :=
  if source = "boom" then
    takenAt (allocations raw)
      (branchUops (commitUops normalized raw source program) normalized raw) i
  else none

/-- The allocation record that `build_uops` takes for the `i`-th uop. -/
def takenRecord (i : ℕ) : Option Allocation :=
  (takenAllocation normalized raw source program i).bind
    (allocationAt (traceAllocations raw source))

/-- A uop without the marks that say whether an allocation was found. -/
def Uop.unmarked (u : Uop) : Uop :=
  { u with identityStatus := .matched, insufficientReasons := [] }

/-- The uop of every instance has all its fields from the records of this instance: the commit
fields, the registers of its raw commit, the resolution of its branch, the tag, the mask and the ROB
index of its raw branch, and the ROB index, the generation and the cycle of its own allocation
record or of none. -/
def RespectsOccurrences (own : ℕ → Option ℕ) : Prop :=
  ∀ (i : ℕ) (r : InstanceRecords), (instances normalized raw)[i]? = some r →
    (takenAllocation normalized raw source program i = none ∨
        takenAllocation normalized raw source program i = own i) ∧
      ∃ u : Uop, (buildUops normalized raw source program)[i]? = some u ∧
        u.unmarked = r.uop program source (takenRecord normalized raw source program i)

/-! ### The condition -/

/-- The last raw commit of a key. -/
def lastCommit (key : PcInst) : Option RawRecord :=
  (occurrences RawRecord.commitKey raw key).getLast?

/-- The last raw commit of its key has the registers of the instance's own one. -/
def RegistersAgree (r : InstanceRecords) : Prop :=
  ((lastCommit raw r.key).bind fun record ↦ record.physicalRd.read) = r.physicalRd ∧
    ((lastCommit raw r.key).bind fun record ↦ record.stalePhysicalRd.read) = r.stalePhysicalRd

/-- The order in which the `i`-th instance prefers the allocation records. -/
def allocationRank (i p : ℕ) : Option (ℕ ×ₗ ℕ ×ₗ ℕ) :=
  (instances normalized raw)[i]?.bind fun r ↦
    (traceAllocations raw source)[p]?.bind fun entry ↦ r.rank p entry.1 entry.2

/-- The records of an instance reach its uop. Only the records of the trace and the own positions
occur here, nothing that `build_uops` computes. -/
structure RecordsReach (own : ℕ → Option ℕ) : Prop where
  registers : ∀ (i : ℕ) (r : InstanceRecords), (instances normalized raw)[i]? = some r →
    RegistersAgree raw r
  /-- A raw branch without a normalized one has neither tag nor mask. -/
  branch : ∀ (i : ℕ) (r : InstanceRecords), (instances normalized raw)[i]? = some r →
    r.branch = none → r.branchTag = none ∧ r.branchMask = none
  /-- Of the allocation records that are free for an instance its own ranks first. -/
  allocation : ∀ i : ℕ, OwnFirst (allocationRank normalized raw source) own i
  /-- The own allocation record is free and has the ROB index of the raw branch; or no record is
  free, and the normalized branch has brought the ROB index. -/
  robIdx : ∀ (i : ℕ) (r : InstanceRecords) (robIdx : ℤ),
    (instances normalized raw)[i]? = some r → r.robIdx = some robIdx →
    (∃ q c record, own i = some q ∧ Free (allocationRank normalized raw source) own i q c ∧
        (traceAllocations raw source)[q]? = some (record, robIdx)) ∨
      r.branch ≠ none ∧ ∀ p c, ¬ Free (allocationRank normalized raw source) own i p c

/-! ### The last loop -/

/-- A uop with an allocation, and without marks. -/
def Uop.allocated (u : Uop) : Option Allocation → Uop
  | none => u.unmarked
  | some alloc =>
    { u with
      robIdx := some alloc.robIdx, robGeneration := some alloc.robGeneration
      allocateCycle := some alloc.record.cycleNumber }.unmarked

variable {normalized raw source program}

theorem getElem?_instances {i : ℕ} {r : InstanceRecords}
    (hr : (instances normalized raw)[i]? = some r) :
    (branchUops (commitUops normalized raw source program) normalized raw)[i]? =
      some (r.resolved program source (lastCommit raw r.key)) := by
  rw [getElem?_branchUops_commitUops, hr]
  rfl

theorem takenAllocation_boom {i : ℕ} {r : InstanceRecords}
    (hr : (instances normalized raw)[i]? = some r) :
    takenAllocation normalized raw "boom" program i =
      (pickAllocation (allocations raw)
        (usedBefore (allocations raw)
          (branchUops (commitUops normalized raw "boom" program) normalized raw) i)
        (r.resolved program "boom" (lastCommit raw r.key))).map Prod.fst := by
  unfold takenAllocation takenAt
  rw [if_pos rfl, getElem?_instances hr]
  rfl

theorem takenAllocation_none {i : ℕ} (hr : (instances normalized raw)[i]? = none) :
    takenAllocation normalized raw source program i = none := by
  unfold takenAllocation takenAt
  rw [getElem?_branchUops_commitUops, hr]
  exact ite_self none

/-- The uop of an instance is what the first loops made of it, with the allocation that was
taken. -/
theorem buildUops_unmarked {i : ℕ} {r : InstanceRecords}
    (hr : (instances normalized raw)[i]? = some r) :
    ∃ u, (buildUops normalized raw source program)[i]? = some u ∧
      u.unmarked = (r.resolved program source (lastCommit raw r.key)).allocated
        (takenRecord normalized raw source program i) := by
  unfold buildUops takenRecord
  dsimp only
  by_cases hboom : source = "boom"
  · subst hboom
    rw [if_pos rfl]
    unfold annotateBoomAllocations traceAllocations
    rw [getElem?_annotateStep, getElem?_instances hr, takenAllocation_boom hr, if_pos rfl]
    refine ⟨_, rfl, ?_⟩
    unfold annotateUop
    cases hpick : pickAllocation (allocations raw)
        (usedBefore (allocations raw)
          (branchUops (commitUops normalized raw "boom" program) normalized raw) i)
        (r.resolved program "boom" (lastCommit raw r.key)) with
    | none => rfl
    | some best =>
      have halloc := (pickAllocation_some hpick).1
      rw [getElem?_allocations] at halloc
      rw [Option.map_some, Option.bind_some, halloc]
      rfl
  · rw [if_neg hboom, List.getElem?_map, getElem?_instances hr]
    refine ⟨_, rfl, ?_⟩
    unfold takenAllocation
    rw [if_neg hboom]
    rfl

/-- Assumes: the instance has the registers of the last raw commit of its key. What it ranks are the
candidates of its uop that no uop in front has taken. -/
theorem allocationRank_eq_some_iff {i p : ℕ} {r : InstanceRecords} {c : ℕ ×ₗ ℕ ×ₗ ℕ}
    (hr : (instances normalized raw)[i]? = some r) (hregisters : RegistersAgree raw r) :
    (allocationRank normalized raw "boom" i p = some c ∧
        ∀ j < i, takenAllocation normalized raw "boom" program j ≠ some p) ↔
      ∃ alloc, (allocations raw)[p]? = some alloc ∧
        candidate (usedBefore (allocations raw)
            (branchUops (commitUops normalized raw "boom" program) normalized raw) i)
          (r.resolved program "boom" (lastCommit raw r.key)) (alloc, p) = some c := by
  have huntaken : (∀ j < i, takenAllocation normalized raw "boom" program j ≠ some p) ↔
      p ∉ usedBefore (allocations raw)
        (branchUops (commitUops normalized raw "boom" program) normalized raw) i := by
    rw [mem_usedBefore]
    simp only [not_exists, not_and]
    exact Iff.rfl
  rw [huntaken]
  unfold allocationRank traceAllocations
  rw [hr, if_pos rfl, Option.bind_some, getElem?_allocations]
  unfold allocationAt
  simp only [InstanceRecords.candidate_resolved hregisters.1 hregisters.2]
  cases hentry : (allocationRecords (sortedRecords raw))[p]? with
  | none => simp
  | some entry =>
    rw [Option.bind_some, Option.map_some]
    constructor
    · rintro ⟨hrank, hunused⟩
      exact ⟨_, rfl, (if_neg hunused).trans hrank⟩
    · rintro ⟨alloc, halloc, hcandidate⟩
      obtain rfl := Option.some.inj halloc
      split_ifs at hcandidate with hused
      exact ⟨hcandidate, hused⟩

/-- Assumes: every instance has the registers of the last raw commit of its key. -/
theorem isGreedy_takenAllocation_boom
    (hregisters : ∀ (i : ℕ) (r : InstanceRecords), (instances normalized raw)[i]? = some r →
      RegistersAgree raw r) :
    IsGreedy (allocationRank normalized raw "boom")
      (takenAllocation normalized raw "boom" program) := by
  constructor
  · intro i q htaken
    cases hr : (instances normalized raw)[i]? with
    | none => exact absurd htaken (by simp [takenAllocation_none hr])
    | some r =>
      have hrank := fun {p c} ↦
        @allocationRank_eq_some_iff normalized raw program i p r c hr (hregisters i r hr)
      rw [takenAllocation_boom hr, Option.map_eq_some_iff] at htaken
      obtain ⟨⟨q', alloc⟩, hpick, rfl⟩ := htaken
      obtain ⟨halloc, best, hbest, hleast⟩ := pickAllocation_some hpick
      obtain ⟨hranked, huntaken⟩ := hrank.mpr ⟨alloc, halloc, hbest⟩
      refine ⟨huntaken, best, hranked, fun hranked' huntaken' ↦ ?_⟩
      obtain ⟨other, hother, hcandidate⟩ := hrank.mp ⟨hranked', huntaken'⟩
      exact hleast (other, _) _ hother hcandidate
  · intro i p c hnone hranked
    by_contra hall
    have huntaken : ∀ j < i, takenAllocation normalized raw "boom" program j ≠ some p :=
      fun j hj htaken ↦ hall ⟨j, hj, htaken⟩
    cases hr : (instances normalized raw)[i]? with
    | none => exact absurd hranked (by simp [allocationRank, hr])
    | some r =>
      obtain ⟨alloc, halloc, hcandidate⟩ :=
        (allocationRank_eq_some_iff hr (hregisters i r hr)).mp ⟨hranked, huntaken⟩
      rw [takenAllocation_boom hr, Option.map_eq_none_iff] at hnone
      exact absurd (hcandidate.symm.trans (pickAllocation_none hnone halloc))
        (Option.some_ne_none c)

/-- Assumes: every instance has the registers of the last raw commit of its key. The uops choose
among the allocation records in turn. -/
theorem isGreedy_takenAllocation
    (hregisters : ∀ (i : ℕ) (r : InstanceRecords), (instances normalized raw)[i]? = some r →
      RegistersAgree raw r) :
    IsGreedy (allocationRank normalized raw source)
      (takenAllocation normalized raw source program) := by
  by_cases hboom : source = "boom"
  · subst hboom
    exact isGreedy_takenAllocation_boom hregisters
  · have htaken : takenAllocation normalized raw source program = fun _ ↦ none :=
      funext fun i ↦ if_neg hboom
    rw [htaken]
    refine IsGreedy.of_rank_none fun i p ↦ ?_
    unfold allocationRank traceAllocations
    rw [if_neg hboom]
    cases (instances normalized raw)[i]? <;> rfl

theorem allocationRank_injective {i p q : ℕ} {c : ℕ ×ₗ ℕ ×ₗ ℕ}
    (hp : allocationRank normalized raw source i p = some c)
    (hq : allocationRank normalized raw source i q = some c) : p = q := by
  have hposition : ∀ {n}, allocationRank normalized raw source i n = some c →
      (ofLex (ofLex c).2).2 = n := by
    intro n hn
    obtain ⟨r, -, hentry⟩ := Option.bind_eq_some_iff.mp hn
    obtain ⟨entry, -, hrank⟩ := Option.bind_eq_some_iff.mp hentry
    exact InstanceRecords.rank_position hrank
  exact (hposition hp).symm.trans (hposition hq)

/-! ### The result -/

/-- The first loops and an allocation give a uop the fields of its instance exactly when the
registers are the own ones, nothing of the raw branch is lost and the allocation has the ROB index
of the raw branch. -/
theorem allocated_resolved_eq_iff (r : InstanceRecords) (rawCommit : Option RawRecord)
    (allocation : Option Allocation) :
    (r.resolved program source rawCommit).allocated allocation =
        r.uop program source allocation ↔
      ((rawCommit.bind fun record ↦ record.physicalRd.read) = r.physicalRd ∧
        (rawCommit.bind fun record ↦ record.stalePhysicalRd.read) = r.stalePhysicalRd) ∧
      (r.branch = none → r.branchTag = none ∧ r.branchMask = none) ∧
      ∀ robIdx, r.robIdx = some robIdx →
        (∃ alloc, allocation = some alloc ∧ alloc.robIdx = robIdx) ∨
          r.branch ≠ none ∧ allocation = none := by
  -- what the branch loop copies from the raw branch are the instance's own values
  have hrobIdx : (r.rawBranch.bind fun record ↦ record.robIdx.read) = r.robIdx := rfl
  have htag : (r.rawBranch.bind fun record ↦ record.branchTag.read) = r.branchTag := rfl
  have hmask : (r.rawBranch.bind fun record ↦ record.branchMask.read) = r.branchMask := rfl
  unfold Uop.allocated Uop.unmarked InstanceRecords.resolved InstanceRecords.uop uopOfCommit
  cases hbranch : r.branch with
  | none =>
    cases allocation with
    | none =>
      cases r.robIdx with
      | none =>
        grind
      | some robIdx => simp
    | some alloc => cases r.robIdx <;> grind
  | some branch =>
    unfold Uop.resolveBranch
    rw [hrobIdx, htag, hmask]
    cases allocation with
    | none => cases r.robIdx <;> simp
    | some alloc =>
      cases r.robIdx with
      | none => simp
      | some robIdx =>
        grind

/-- The property in two parts: which allocation records are taken, and the fields. -/
theorem respectsOccurrences_iff_resolved (own : ℕ → Option ℕ) :
    RespectsOccurrences normalized raw source program own ↔
      (∀ i, takenAllocation normalized raw source program i = none ∨
          takenAllocation normalized raw source program i = own i) ∧
        ∀ (i : ℕ) (r : InstanceRecords), (instances normalized raw)[i]? = some r →
          (r.resolved program source (lastCommit raw r.key)).allocated
              (takenRecord normalized raw source program i) =
            r.uop program source (takenRecord normalized raw source program i) := by
  constructor
  · intro h
    refine ⟨fun i ↦ ?_, fun i r hr ↦ ?_⟩
    · cases hr : (instances normalized raw)[i]? with
      | none => exact .inl (takenAllocation_none hr)
      | some r => exact (h i r hr).1
    · obtain ⟨-, u, hu, hfields⟩ := h i r hr
      obtain ⟨u', hu', hfields'⟩ := @buildUops_unmarked normalized raw source program i r hr
      obtain rfl := Option.some.inj (hu.symm.trans hu')
      exact hfields'.symm.trans hfields
  · rintro ⟨hown, hfields⟩ i r hr
    obtain ⟨u, hu, hfields'⟩ := @buildUops_unmarked normalized raw source program i r hr
    exact ⟨hown i, u, hu, hfields'.trans (hfields i r hr)⟩

/-- Assumes: the uops take their own allocation records or none. The record that is taken has a ROB
index, or there is none and the branch loop has set it; said of the free records. -/
theorem robIdx_iff {own : ℕ → Option ℕ} {i : ℕ}
    (hgreedy : IsGreedy (allocationRank normalized raw source)
      (takenAllocation normalized raw source program))
    (hown : ∀ i, takenAllocation normalized raw source program i = none ∨
      takenAllocation normalized raw source program i = own i)
    (r : InstanceRecords) (robIdx : ℤ) :
    ((∃ alloc, takenRecord normalized raw source program i = some alloc ∧
          alloc.robIdx = robIdx) ∨
        r.branch ≠ none ∧ takenRecord normalized raw source program i = none) ↔
      (∃ q c record, own i = some q ∧ Free (allocationRank normalized raw source) own i q c ∧
          (traceAllocations raw source)[q]? = some (record, robIdx)) ∨
        r.branch ≠ none ∧ ∀ p c, ¬ Free (allocationRank normalized raw source) own i p c := by
  unfold takenRecord
  cases htaken : takenAllocation normalized raw source program i with
  | none =>
    have hnone := (hgreedy.taken_eq_none_iff fun j _ ↦ hown j).mp htaken
    rw [Option.bind_none]
    constructor
    · rintro (⟨alloc, halloc, -⟩ | ⟨hbranch, -⟩)
      · exact absurd halloc (Option.some_ne_none alloc).symm
      · exact .inr ⟨hbranch, hnone⟩
    · rintro (⟨q, c, record, -, hfree, -⟩ | ⟨hbranch, -⟩)
      · exact absurd hfree (hnone q c)
      · exact .inr ⟨hbranch, rfl⟩
  | some q =>
    obtain ⟨best, hfree, -⟩ := hgreedy.free_of_taken (fun j _ ↦ hown j) htaken
    have howns : own i = some q :=
      ((hown i).resolve_left (htaken ▸ Option.some_ne_none q)).symm.trans htaken
    obtain ⟨_, -, hranked⟩ := Option.bind_eq_some_iff.mp hfree.ranked
    obtain ⟨⟨record, index⟩, hentry, -⟩ := Option.bind_eq_some_iff.mp hranked
    have halloc : allocationAt (traceAllocations raw source) q = some ⟨record, index,
        wraps (((traceAllocations raw source).take (q + 1)).map Prod.snd)⟩ := by
      unfold allocationAt
      rw [hentry]
      rfl
    rw [Option.bind_some, halloc]
    constructor
    · rintro (⟨alloc, heq, rfl⟩ | ⟨-, hnone⟩)
      · obtain rfl := Option.some.inj heq
        exact .inl ⟨q, best, record, howns, hfree, hentry⟩
      · exact absurd hnone (Option.some_ne_none _)
    · rintro (⟨q', c, record', howns', -, hentry'⟩ | ⟨-, hnone⟩)
      · obtain rfl := Option.some.inj (howns.symm.trans howns')
        obtain ⟨-, rfl⟩ := Prod.mk.inj (Option.some.inj (hentry.symm.trans hentry'))
        exact .inl ⟨_, rfl, rfl⟩
      · exact absurd hfree (hnone q best)

/-- Every uop has only fields of its own instance exactly when the own records reach it. -/
theorem respectsOccurrences_iff (own : ℕ → Option ℕ) :
    RespectsOccurrences normalized raw source program own ↔
      RecordsReach normalized raw source own := by
  rw [respectsOccurrences_iff_resolved]
  simp only [allocated_resolved_eq_iff]
  constructor
  · rintro ⟨hown, hfields⟩
    have hgreedy := @isGreedy_takenAllocation normalized raw source program
      fun i r hr ↦ (hfields i r hr).1
    exact
      { registers := fun i r hr ↦ (hfields i r hr).1
        branch := fun i r hr ↦ (hfields i r hr).2.1
        allocation := (hgreedy.own_iff allocationRank_injective).mp hown
        robIdx := fun i r robIdx hr hrobIdx ↦
          (robIdx_iff hgreedy hown r robIdx).mp ((hfields i r hr).2.2 robIdx hrobIdx) }
  · intro h
    have hgreedy := @isGreedy_takenAllocation normalized raw source program h.registers
    have hown := (hgreedy.own_iff allocationRank_injective).mpr h.allocation
    refine ⟨hown, fun i r hr ↦ ⟨h.registers i r hr, h.branch i r hr, fun robIdx hrobIdx ↦ ?_⟩⟩
    exact (robIdx_iff hgreedy hown r robIdx).mpr (h.robIdx i r robIdx hr hrobIdx)

end Identity

/-! ### A loop -/

/-- A commit that writes register 1. -/
def loopCommit (cycle : ℤ) (physicalRd stalePhysicalRd : ℤ) : RawRecord :=
  { event := .commit, cycle := .ofInt cycle, pc := .ofNat 0x80000000
    instruction := .ofNat 0xFFF08093, rdValid := .bool true, rd := .ofInt 1
    rdValue := .ofNat 1, physicalRd := .ofInt physicalRd
    stalePhysicalRd := .ofInt stalePhysicalRd }

/-- `addi x1,x1,-1` and `bne x1,x0,-4`, of which the first commits twice. -/
def loopTrace : List RawRecord :=
  [loopCommit 10 33 32,
    { event := .commit, cycle := .ofInt 11, pc := .ofNat 0x80000004
      instruction := .ofNat 0xFE009EE3, rdValid := .bool false },
    loopCommit 12 34 33]

def loopNormalized : List NormRecord := (normalizeBoom loopTrace "loop").toOption.getD []

/-- Whichever allocation records belong to the commits, the uop of the first one has the registers
of the second one. -/
theorem loop_registers_mixed :
    normalizeBoom loopTrace "loop" = .ok loopNormalized ∧
      ∀ own : ℕ → Option ℕ, ¬ RespectsOccurrences loopNormalized loopTrace "boom" "loop" own := by
  have hok : (normalizeBoom loopTrace "loop").isOk = true := by decide +kernel
  have huop : (buildUops loopNormalized loopTrace "boom" "loop")[0]?.map Uop.physicalRd =
      some (some 34) := by decide +kernel
  have hrecords : (instances loopNormalized loopTrace)[0]?.map InstanceRecords.physicalRd =
      some (some 33) := by decide +kernel
  refine ⟨?_, fun own hrespects ↦ ?_⟩
  · unfold loopNormalized
    cases hresult : normalizeBoom loopTrace "loop" with
    | ok normalized => rfl
    | error e =>
      rw [hresult] at hok
      exact absurd hok (by simp [Except.isOk, Except.toBool])
  · obtain ⟨r, hr, hown⟩ := Option.map_eq_some_iff.mp hrecords
    obtain ⟨-, u, hu, hfields⟩ := hrespects 0 r hr
    rw [hu, Option.map_some] at huop
    have hphysical : u.physicalRd = r.physicalRd := congrArg Uop.physicalRd hfields
    rw [Option.some.inj huop, hown] at hphysical
    exact absurd hphysical (by decide)

end BoomCore.Trace
