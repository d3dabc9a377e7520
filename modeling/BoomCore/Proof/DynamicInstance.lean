import BoomCore.Library.Greedy
import BoomCore.Proof.DynamicUop

/-!
# The records of a dynamic instance

The instances of a trace are its normalized commits; the records of the `k`-th instance of a `pc`
and an instruction are the `k`-th raw commit, branch and raw branch of these two. The first two
loops of `build_uops` give a uop the branch records of its instance, but the last raw commit of its
key.
-/

set_option autoImplicit false
set_option relaxedAutoImplicit false

namespace BoomCore.Trace

/-! ### Instances -/

section Instances

variable (normalized : List NormRecord) (raw : List RawRecord)

/-- The normalized commits that have a key. -/
def keyedCommits : List (PcInst × CommitRecord) :=
  (commits normalized).filterMap fun commit ↦ commit.key.map fun key ↦ (key, commit)

/-- The key of a raw branch. One without an instruction belongs to the first commit at its `pc`. -/
def branchKey (record : RawRecord) : Option PcInst :=
  if record.event = .branch ∨ record.event = .branchResolve then
    if record.isLoaded then
      pcInst record.pc.read
        (match record.instruction.read with
          | some inst => some inst
          | none => record.pc.read.bind fun pc ↦
              ((keyedCommits normalized).find? fun entry ↦ entry.1.1 = pc).map fun entry ↦
                entry.1.2)
    else none
  else none

/-- How many instances in front of position `i` have the key. -/
def numberAt (i : ℕ) (key : PcInst) : ℕ :=
  (occurrences (fun entry : PcInst × CommitRecord ↦ some entry.1)
    ((keyedCommits normalized).take i) key).length

/-- A dynamic instance: a commit with its key, and the records of that key with its number. -/
structure InstanceRecords where
  key : PcInst
  commit : CommitRecord
  rawCommit : Option RawRecord
  branch : Option BranchRecord
  rawBranch : Option RawRecord

/-- The instances in commit order. -/
def instances : List InstanceRecords :=
  (keyedCommits normalized).mapIdx fun i entry ↦
    { key := entry.1, commit := entry.2
      rawCommit := (occurrences RawRecord.commitKey raw entry.1)[numberAt normalized i entry.1]?
      branch := (occurrences BranchRecord.key (branches normalized)
        entry.1)[numberAt normalized i entry.1]?
      rawBranch := (occurrences (branchKey normalized) raw
        entry.1)[numberAt normalized i entry.1]? }

end Instances

/-! ### The fields of an instance -/

namespace InstanceRecords

variable (r : InstanceRecords)

def physicalRd : Option ℤ := r.rawCommit.bind fun record ↦ record.physicalRd.read

def stalePhysicalRd : Option ℤ := r.rawCommit.bind fun record ↦ record.stalePhysicalRd.read

def robIdx : Option ℤ := r.rawBranch.bind fun record ↦ record.robIdx.read

def branchTag : Option ℤ := r.rawBranch.bind fun record ↦ record.branchTag.read

def branchMask : Option ℤ := r.rawBranch.bind fun record ↦ record.branchMask.read

/-- The uop with every field from the records of the instance and from one allocation. The ROB index
is that of the raw branch, and without one that of the allocation. -/
def uop (program source : String) (allocation : Option Allocation) : Uop :=
  { program := program, source := source
    dynamicUopId := program ++ ":commit:" ++ toString r.commit.commitIndex
    pc := r.key.1, instruction := r.key.2, commitOrdinal := r.commit.commitIndex
    commitCycle := r.commit.cycle, commitSequenceId := r.commit.traceSequenceId
    rdValid := r.commit.rdValid
    rd := if r.commit.rdValid then r.commit.rd else none
    rdValue := if r.commit.rdValid then r.commit.rdValue.bind HexText.read else none
    physicalRd := r.physicalRd, stalePhysicalRd := r.stalePhysicalRd
    robIdx := r.robIdx.or (allocation.map Allocation.robIdx)
    robGeneration := allocation.map Allocation.robGeneration
    allocateCycle := allocation.map fun alloc ↦ alloc.record.cycleNumber
    branchResolveCycle := r.branch.map BranchRecord.cycle
    branchTag := r.branchTag, branchMask := r.branchMask
    branchTaken := r.branch.bind BranchRecord.taken
    branchMispredict := r.branch.bind BranchRecord.branchMispredict
    exception := r.commit.exception }

/-- The order in which an instance prefers the allocation records: those of its ROB index by their
distance from the branch resolution (from the commit if that was in cycle 0), then those for its
registers by their distance from the commit. A record after the commit is not for it. -/
def rank (position : ℕ) (record : RawRecord) (robIdx : ℤ) : Option (ℕ ×ₗ ℕ ×ₗ ℕ) :=
  if r.commit.cycle < record.cycleNumber then none
  else if r.branch.isSome ∧ r.robIdx = some robIdx then
    some (toLex (0, toLex ((record.cycleNumber -
      (orElseInt (r.branch.map BranchRecord.cycle) (some r.commit.cycle)).getD 0).natAbs,
      position)))
  else if r.commit.rdValid ∧ record.physicalRd.read = r.physicalRd ∧
      record.stalePhysicalRd.read = r.stalePhysicalRd then
    some (toLex (1, toLex ((record.cycleNumber - r.commit.cycle).natAbs, position)))
  else none

/-- The uop after the loops over the commits and the branches, with the registers of a raw
commit. -/
def resolved (program source : String) (rawCommit : Option RawRecord) : Uop :=
  match r.branch with
  | none => uopOfCommit program source r.commit r.key rawCommit
  | some branch =>
    (uopOfCommit program source r.commit r.key rawCommit).resolveBranch branch r.rawBranch

variable {r}

theorem rank_position {position : ℕ} {record : RawRecord} {robIdx : ℤ} {c : ℕ ×ₗ ℕ ×ₗ ℕ}
    (h : r.rank position record robIdx = some c) : (ofLex (ofLex c).2).2 = position := by
  unfold rank at h
  split_ifs at h
  · exact Option.some.inj h ▸ rfl
  · exact Option.some.inj h ▸ rfl

/-- Assumes: the raw commit has the registers of the instance's own. The candidates of the uop are
those that the instance ranks, in the same order. -/
theorem candidate_resolved {program source : String} {rawCommit : Option RawRecord}
    (hphysical : (rawCommit.bind fun record ↦ record.physicalRd.read) = r.physicalRd)
    (hstale : (rawCommit.bind fun record ↦ record.stalePhysicalRd.read) = r.stalePhysicalRd)
    (used : List ℕ) (entry : Allocation × ℕ) :
    candidate used (r.resolved program source rawCommit) entry =
      if entry.2 ∈ used then none else r.rank entry.2 entry.1.record entry.1.robIdx := by
  have hcommit : (r.resolved program source rawCommit).commitCycle = r.commit.cycle ∧
      (r.resolved program source rawCommit).rdValid = r.commit.rdValid ∧
      (r.resolved program source rawCommit).physicalRd = r.physicalRd ∧
      (r.resolved program source rawCommit).stalePhysicalRd = r.stalePhysicalRd := by
    unfold resolved
    split <;> exact ⟨rfl, rfl, hphysical, hstale⟩
  have hresolve : (r.resolved program source rawCommit).branchResolveCycle =
      r.branch.map BranchRecord.cycle := by
    unfold resolved
    split <;> rename_i hbranch <;> rw [hbranch] <;> rfl
  have hrobIdx : (r.resolved program source rawCommit).robIdx = some entry.1.robIdx ↔
      r.branch.isSome ∧ r.robIdx = some entry.1.robIdx := by
    unfold resolved
    split <;> rename_i hbranch <;> rw [hbranch]
    · exact iff_of_false (Option.some_ne_none _).symm fun h ↦ absurd h.1 Bool.false_ne_true
    · exact ⟨fun h ↦ ⟨rfl, h⟩, fun h ↦ h.2⟩
  obtain ⟨hcycle, hvalid, hphysical', hstale'⟩ := hcommit
  unfold candidate rank
  rw [hcycle, hvalid, hphysical', hstale', hresolve]
  simp only [hrobIdx]
  by_cases hused : entry.2 ∈ used
  · rw [if_pos hused, if_pos (Or.inl hused)]
  · rw [if_neg hused]
    simp only [hused, false_or]

end InstanceRecords

/-! ### The loops over the commits and the branches -/

section Loops

variable (normalized : List NormRecord) (raw : List RawRecord) (source program : String)

theorem commitUops_eq :
    commitUops normalized raw source program = (keyedCommits normalized).map fun entry ↦
      uopOfCommit program source entry.2 entry.1
        (occurrences RawRecord.commitKey raw entry.1).getLast? := by
  unfold commitUops keyedCommits
  rw [List.map_filterMap]
  refine List.filterMap_congr fun commit _ ↦ ?_
  unfold commitUop rawCommitsByKey
  rw [Option.map_map]
  refine Option.map_congr fun key _ ↦ ?_
  rw [latestByKey_eq]
  rfl

theorem rawBranchKey_commitUops :
    rawBranchKey (commitUops normalized raw source program) = branchKey normalized := by
  funext record
  unfold rawBranchKey branchKey
  simp only [commitUops_eq, List.find?_map, Option.map_map]
  rfl

theorem occurrenceAt_commitUops (i : ℕ) (key : PcInst) :
    occurrenceAt (commitUops normalized raw source program) i key = numberAt normalized i key := by
  unfold occurrenceAt numberAt
  rw [commitUops_eq, ← List.map_take, occurrences_map, List.length_map]
  rfl

/-- After the loops over the commits and the branches. -/
theorem getElem?_branchUops_commitUops (i : ℕ) :
    (branchUops (commitUops normalized raw source program) normalized raw)[i]? =
      (instances normalized raw)[i]?.map fun r ↦
        r.resolved program source (occurrences RawRecord.commitKey raw r.key).getLast? := by
  have hcommit : (commitUops normalized raw source program)[i]? =
      (keyedCommits normalized)[i]?.map fun entry ↦ uopOfCommit program source entry.2 entry.1
        (occurrences RawRecord.commitKey raw entry.1).getLast? := by
    rw [commitUops_eq, List.getElem?_map]
  unfold instances
  rw [getElem?_branchUops, hcommit, List.getElem?_mapIdx, Option.map_map, Option.map_map]
  refine Option.map_congr fun entry _ ↦ ?_
  show withBranch _ (branches normalized)
    (occurrenceAt (commitUops normalized raw source program) i entry.1)
    (uopOfCommit program source entry.2 entry.1 _) = _
  rw [occurrenceAt_commitUops]
  unfold withBranch rawBranchByKey InstanceRecords.resolved
  rw [rawBranchKey_commitUops]
  dsimp only [Function.comp_apply]
  rw [numbering_dict]
  rfl

end Loops

end BoomCore.Trace
