import BoomCore.Library.Occurrences
import BoomCore.Model.Normalize

/-!
# Dynamic uops

`build_uops` and `annotate_boom_allocations` of `scripts/build_dynamic_uop_map.py`, lines 35 to 58
and 113 to 240. The Python dictionaries hold references to the uops; here `byPcInstOcc` holds their
positions. A missing key of a raw record reads as null, so a missing raw record (`{}`) does as well.
-/

set_option autoImplicit false
set_option relaxedAutoImplicit false

namespace BoomCore.Trace

inductive IdentityStatus
  | matched
  | insufficientIdentity
  deriving DecidableEq, Repr

structure Uop where
  program : String
  source : String
  dynamicUopId : String
  pc : ℕ
  instruction : ℕ
  commitOrdinal : ℕ
  commitCycle : ℤ
  commitSequenceId : ℤ
  rdValid : Bool
  rd : Option ℤ
  rdValue : Option ℕ
  physicalRd : Option ℤ := none
  stalePhysicalRd : Option ℤ := none
  robIdx : Option ℤ := none
  robGeneration : Option ℕ := none
  allocateCycle : Option ℤ := none
  branchResolveCycle : Option ℤ := none
  branchTag : Option ℤ := none
  branchMask : Option ℤ := none
  branchTaken : Option Bool := none
  branchMispredict : Option Bool := none
  squashed : Bool := false
  exception : Bool := false
  identityStatus : IdentityStatus := .matched
  insufficientReasons : List String := []
  deriving DecidableEq

/-! ### Keys -/

/-- A `pc` and an instruction. -/
abbrev PcInst := ℕ × ℕ

/-- The key of a record that has both. -/
def pcInst (pc inst : Option ℕ) : Option PcInst :=
  match pc, inst with
  | some pc, some inst => some (pc, inst)
  | _, _ => none

def CommitRecord.key (c : CommitRecord) : Option PcInst :=
  pcInst (c.pc.bind HexText.read) (c.instruction.bind HexText.read)

def BranchRecord.key (b : BranchRecord) : Option PcInst :=
  pcInst (b.pc.bind HexText.read) (b.instruction.bind HexText.read)

def Uop.key (u : Uop) : PcInst := (u.pc, u.instruction)

/-- The key of a raw commit of the loaded program. -/
def RawRecord.commitKey (record : RawRecord) : Option PcInst :=
  if record.event = .commit ∧ record.isLoaded then
    pcInst record.pc.read record.instruction.read
  else none

/-! ### Commits -/

def commits (records : List NormRecord) : List CommitRecord :=
  records.filterMap fun
    | .commit c => some c
    | _ => none

def branches (records : List NormRecord) : List BranchRecord :=
  records.filterMap fun
    | .branch b => some b
    | _ => none

/-- `raw_commits_by_key`, keyed without an occurrence. -/
def rawCommitsByKey (raw : List RawRecord) : PcInst → Option RawRecord :=
  latestByKey RawRecord.commitKey raw

/-- The uop of a commit with a key. -/
def uopOfCommit (program source : String) (commit : CommitRecord) (key : PcInst)
    (rawCommit : Option RawRecord) : Uop :=
  { program := program, source := source
    dynamicUopId := program ++ ":commit:" ++ toString commit.commitIndex
    pc := key.1, instruction := key.2, commitOrdinal := commit.commitIndex
    commitCycle := commit.cycle, commitSequenceId := commit.traceSequenceId
    rdValid := commit.rdValid
    rd := if commit.rdValid then commit.rd else none
    rdValue := if commit.rdValid then commit.rdValue.bind HexText.read else none
    physicalRd := rawCommit.bind fun record ↦ record.physicalRd.read
    stalePhysicalRd := rawCommit.bind fun record ↦ record.stalePhysicalRd.read
    exception := commit.exception }

def commitUop (program source : String) (rawCommits : PcInst → Option RawRecord)
    (commit : CommitRecord) : Option Uop :=
  commit.key.map fun key ↦ uopOfCommit program source commit key (rawCommits key)

/-- The uops after the loop over the normalized commits. -/
def commitUops (normalized : List NormRecord) (raw : List RawRecord) (source program : String) :
    List Uop :=
  (commits normalized).filterMap (commitUop program source (rawCommitsByKey raw))

/-- The position of the uop of a key with an occurrence. -/
def byPcInstOcc (uops : List Uop) (occurrence : PcInst × ℕ) : Option ℕ :=
  ((numbering (fun entry : Uop × ℕ ↦ some entry.1.key) uops.zipIdx).dict occurrence).map Prod.snd

/-! ### Branches -/

/-- The key of a raw branch. Without an instruction it takes that of the first uop at its `pc`. -/
def rawBranchKey (uops : List Uop) (record : RawRecord) : Option PcInst :=
  if record.event = .branch ∨ record.event = .branchResolve then
    if record.isLoaded then
      pcInst record.pc.read
        (match record.instruction.read with
          | some inst => some inst
          | none => record.pc.read.bind fun pc ↦
              (uops.find? fun u ↦ u.pc = pc).map Uop.instruction)
    else none
  else none

def rawBranchByKey (uops : List Uop) (raw : List RawRecord) : PcInst × ℕ → Option RawRecord :=
  (numbering (rawBranchKey uops) raw).dict

def Uop.resolveBranch (u : Uop) (branch : BranchRecord) (rawBranch : Option RawRecord) : Uop :=
  { u with
    branchResolveCycle := some branch.cycle, branchTaken := branch.taken
    branchMispredict := branch.branchMispredict
    robIdx := rawBranch.bind fun record ↦ record.robIdx.read
    branchTag := rawBranch.bind fun record ↦ record.branchTag.read
    branchMask := rawBranch.bind fun record ↦ record.branchMask.read }

/-- The state of the loop over the normalized branches. -/
structure BranchState where
  uops : List Uop
  branchSeen : PcInst → ℕ := fun _ ↦ 0

def branchStep (position : PcInst × ℕ → Option ℕ) (rawBranch : PcInst × ℕ → Option RawRecord)
    (st : BranchState) (branch : BranchRecord) : BranchState :=
  match branch.key with
  | none => st
  | some key =>
    let occurrence := st.branchSeen key
    { uops := match position (key, occurrence) with
        | none => st.uops
        | some i =>
          st.uops.modify i fun u ↦ u.resolveBranch branch (rawBranch (key, occurrence))
      branchSeen := Function.update st.branchSeen key (occurrence + 1) }

/-- The uops after the loop over the normalized branches. -/
def branchUops (uops : List Uop) (normalized : List NormRecord) (raw : List RawRecord) :
    List Uop :=
  ((branches normalized).foldl (branchStep (byPcInstOcc uops) (rawBranchByKey uops raw))
    { uops := uops }).uops

/-! ### Allocations -/

/-- A raw `rob_allocate` record with a ROB index, and the number of wraps before it. -/
structure Allocation where
  record : RawRecord
  robIdx : ℤ
  robGeneration : ℕ

structure AllocState where
  allocs : List Allocation := []
  generation : ℕ := 0
  lastIdx : Option ℤ := none

def allocStep (st : AllocState) (record : RawRecord) : AllocState :=
  if record.event ≠ .robAllocate then st
  else
    match record.robIdx.read with
    | none => st
    | some robIdx =>
      let generation :=
        match st.lastIdx with
        | some last => if robIdx < last then st.generation + 1 else st.generation
        | none => st.generation
      { allocs := st.allocs ++
          [{ record := record, robIdx := robIdx, robGeneration := generation }]
        generation := generation, lastIdx := some robIdx }

def allocations (raw : List RawRecord) : List Allocation :=
  ((sortedRecords raw).foldl allocStep {}).allocs

/-- A candidate of an uop: its kind, its distance in cycles and its position. -/
def candidate (used : List ℕ) (u : Uop) (entry : Allocation × ℕ) : Option (ℕ ×ₗ ℕ ×ₗ ℕ) :=
  if entry.2 ∈ used ∨ u.commitCycle < entry.1.record.cycleNumber then none
  else if u.robIdx = some entry.1.robIdx then
    some (toLex (0, toLex ((entry.1.record.cycleNumber -
      (orElseInt u.branchResolveCycle (some u.commitCycle)).getD 0).natAbs, entry.2)))
  else if u.rdValid ∧ entry.1.record.physicalRd.read = u.physicalRd ∧
      entry.1.record.stalePhysicalRd.read = u.stalePhysicalRd then
    some (toLex (1, toLex ((entry.1.record.cycleNumber - u.commitCycle).natAbs, entry.2)))
  else none

/-- `sorted(candidates)[0]`: its position and the allocation there. -/
def pickAllocation (allocs : List Allocation) (used : List ℕ) (u : Uop) :
    Option (ℕ × Allocation) :=
  ((allocs.zipIdx.filterMap (candidate used u)).insertionSort (· ≤ ·)).head?.bind fun best ↦
    let i := (ofLex (ofLex best).2).2
    allocs[i]?.map fun alloc ↦ (i, alloc)

def annotateUop (allocs : List Allocation) (used : List ℕ) (u : Uop) : Uop :=
  match pickAllocation allocs used u with
  | some (_, alloc) =>
    { u with
      robIdx := some alloc.robIdx, robGeneration := some alloc.robGeneration
      allocateCycle := some alloc.record.cycleNumber }
  | none =>
    { u with
      identityStatus := .insufficientIdentity
      insufficientReasons := u.insufficientReasons ++
        ["no reliable BOOM rob_allocate association"] }

structure AnnotateState where
  uops : List Uop := []
  used : List ℕ := []

def annotateStep (allocs : List Allocation) (st : AnnotateState) (u : Uop) : AnnotateState :=
  { uops := st.uops ++ [annotateUop allocs st.used u]
    used := match pickAllocation allocs st.used u with
      | some (i, _) => i :: st.used
      | none => st.used }

/-- `annotate_boom_allocations` -/
def annotateBoomAllocations (raw : List RawRecord) (uops : List Uop) : List Uop :=
  (uops.foldl (annotateStep (allocations raw)) {}).uops

/-- The first result of `build_uops`; the other two are its inputs. -/
def buildUops (normalized : List NormRecord) (raw : List RawRecord) (source program : String) :
    List Uop :=
  let uops := branchUops (commitUops normalized raw source program) normalized raw
  if source = "boom" then annotateBoomAllocations raw uops
  else uops.map fun u ↦
    { u with
      insufficientReasons := u.insufficientReasons ++
        ["HLS trace has no ROB index/allocation signal"] }

end BoomCore.Trace
