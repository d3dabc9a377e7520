import BoomCore.Model.TraceRecord

/-!
# Normalized traces

`_commit_record`, `_branch_record` and the two normalizers of `scripts/provisional_gate3_lib.py`,
lines 245 to 452. A normalizer walks the sorted records once and appends to a list, with two
counters; `boomStep` and `hlsStep` are the bodies of the two loops. Fields of a normalized record
that are the same in all records of its kind (`trace_schema_version`, `scope`) are left to its
JSON text.
-/

set_option autoImplicit false
set_option relaxedAutoImplicit false

namespace BoomCore.Trace

/-! ### Normalized records -/

structure MetadataStart where
  source : String
  program : String
  cycleBase : ℤ
  inputRecords : ℕ
  deriving DecidableEq

structure CommitRecord where
  source : String
  program : String
  commitIndex : ℕ
  cycle : ℤ
  normalizedCycle : ℤ
  slot : Option ℤ
  pc : Option HexText
  instruction : Option HexText
  mnemonic : String
  rdValid : Bool
  rd : Option ℤ
  rdValue : Option HexText
  exception : Bool
  exceptionCause : Option ℤ
  branchMispredict : Option Bool
  archValid : JsonValue
  traceSequenceId : ℤ
  deriving DecidableEq

structure BranchRecord where
  source : String
  program : String
  branchIndex : ℕ
  cycle : ℤ
  normalizedCycle : ℤ
  slot : Option ℤ
  pc : Option HexText
  instruction : Option HexText
  mnemonic : String
  taken : Option Bool
  branchMispredict : Option Bool
  target : Option HexText
  traceSequenceId : ℤ
  deriving DecidableEq

structure BoundaryRecord where
  source : String
  program : String
  cycle : ℤ
  normalizedCycle : ℤ
  pc : Option HexText
  instruction : Option HexText
  mnemonic : String
  reason : JsonValue
  traceSequenceId : ℤ
  deriving DecidableEq

structure MetadataEnd where
  source : String
  program : String
  prefixCommitRecords : ℕ
  branchRecords : ℕ
  unsupportedBoundaryPc : Option HexText
  unsupportedBoundaryInstruction : Option HexText
  stopReason : String
  deriving DecidableEq

inductive NormRecord
  | metadataStart (m : MetadataStart)
  | commit (c : CommitRecord)
  | branch (b : BranchRecord)
  | boundary (b : BoundaryRecord)
  | metadataEnd (m : MetadataEnd)
  deriving DecidableEq

/-- `_commit_record` -/
def commitRecord (source program : String) (record : RawRecord) (commitIndex : ℕ)
    (baseCycle : ℤ) : CommitRecord :=
  let rdValid := record.rdValid.truthy
  { source := source, program := program, commitIndex := commitIndex
    cycle := record.cycleNumber, normalizedCycle := record.cycleNumber - baseCycle
    slot := record.slot.read, pc := fmtPc record.pc.read
    instruction := fmtInst record.instruction.read
    mnemonic := (decodeInstruction record.instruction.read).mnemonic
    rdValid := rdValid
    rd := if rdValid then record.rd.read else none
    rdValue := if rdValid then fmtPc record.rdValue.read else none
    exception := record.exception.truthy, exceptionCause := record.exceptionCause.read
    branchMispredict := record.branchMispredict
    archValid := record.archValid.getD (.bool true)
    traceSequenceId := record.traceSequence }

/-- The instruction of a branch: its own, or the one that `pc_to_inst` has for its `pc`. -/
def RawRecord.branchInst (record : RawRecord) (pcToInst : ℕ → Option ℕ) : Option ℕ :=
  match record.instruction.read with
  | some inst => some inst
  | none => record.pc.read.bind pcToInst

/-- `_branch_record` -/
def branchRecord (source program : String) (record : RawRecord) (branchIndex : ℕ)
    (baseCycle : ℤ) (pcToInst : ℕ → Option ℕ) : BranchRecord :=
  let inst := record.branchInst pcToInst
  { source := source, program := program, branchIndex := branchIndex
    cycle := record.cycleNumber, normalizedCycle := record.cycleNumber - baseCycle
    slot := record.slot.read, pc := fmtPc record.pc.read, instruction := fmtInst inst
    mnemonic := (decodeInstruction inst).mnemonic
    taken := record.taken, branchMispredict := record.branchMispredict
    target := fmtPc (record.target.read.orElse fun _ ↦ record.redirectPc.read)
    traceSequenceId := record.traceSequence }

/-! ### The loops -/

/-- The loop state of a normalizer. -/
structure NormState where
  normalized : List NormRecord
  commitIndex : ℕ := 0
  branchIndex : ℕ := 0

namespace NormState

def addCommit (st : NormState) (source program : String) (record : RawRecord) (baseCycle : ℤ) :
    NormState :=
  { st with
    normalized := st.normalized ++
      [.commit (commitRecord source program record st.commitIndex baseCycle)]
    commitIndex := st.commitIndex + 1 }

def addBranch (st : NormState) (source program : String) (record : RawRecord) (baseCycle : ℤ)
    (pcToInst : ℕ → Option ℕ) : NormState :=
  { st with
    normalized := st.normalized ++
      [.branch (branchRecord source program record st.branchIndex baseCycle pcToInst)]
    branchIndex := st.branchIndex + 1 }

def addBoundary (st : NormState) (boundary : BoundaryRecord) : NormState :=
  { st with normalized := st.normalized ++ [.boundary boundary] }

end NormState

namespace RawRecord

/-- `pc is not None and pc >= ENTRY_PC` -/
def isLoaded (record : RawRecord) : Bool :=
  match record.pc.read with
  | none => false
  | some pc => decide (entryPc ≤ pc)

def isLoadedCommit (record : RawRecord) : Bool :=
  record.event == .commit && record.isLoaded && record.instruction.read.isSome

/-- The commits `normalize_hls` collects, which may lack an instruction. -/
def isHlsCommit (record : RawRecord) : Bool :=
  record.event == .commit && decide (entryPc ≤ record.pc.read.getD 0)

end RawRecord

/-- The dictionary `pc_to_inst`, in which a later commit replaces an earlier one. -/
def pcToInst (commits : List RawRecord) : ℕ → Option ℕ :=
  commits.foldl
    (fun dict record ↦
      match record.pc.read with
      | none => dict
      | some pc => Function.update dict pc record.instruction.read)
    fun _ ↦ none

def loadedCommits (records : List RawRecord) : List RawRecord :=
  records.filter RawRecord.isLoadedCommit

/-- `unsupported`, the first loaded commit whose instruction is not comparable. -/
def firstUnsupported (records : List RawRecord) : Option RawRecord :=
  (loadedCommits records).find? fun record ↦ isUnsupported record.instruction.read

def boundaryKey (records : List RawRecord) : ℤ ×ₗ ℤ :=
  match firstUnsupported records with
  | some record => record.orderKey
  | none => toLex (10 ^ 18, 10 ^ 18)

def boomStep (program : String) (key : ℤ ×ₗ ℤ) (baseCycle : ℤ) (insts : ℕ → Option ℕ)
    (st : NormState) (record : RawRecord) : NormState :=
  if !record.isLoaded then st
  else if key ≤ record.orderKey then st
  else
    match record.event with
    | .commit =>
      if record.instruction.read = none ∨ isUnsupported record.instruction.read then st
      else st.addCommit "boom" program record baseCycle
    | .branchResolve => st.addBranch "boom" program record baseCycle insts
    | _ => st

def boomBoundary (program : String) (baseCycle : ℤ) (record : RawRecord) : BoundaryRecord :=
  { source := "boom", program := program, cycle := record.cycleNumber
    normalizedCycle := record.cycleNumber - baseCycle, pc := fmtPc record.pc.read
    instruction := fmtInst record.instruction.read
    mnemonic := (decodeInstruction record.instruction.read).mnemonic
    reason := .str (decodeInstruction record.instruction.read).unsupportedReason
    traceSequenceId := record.traceSequence }

def normalizeBoom (records : List RawRecord) (program : String) :
    Except ValueError (List NormRecord) :=
  match loadedCommits records with
  | [] => .error (.message (program ++ ": no loaded-program commit records found"))
  | first :: _ =>
    let unsupported := firstUnsupported records
    let baseCycle := first.cycleNumber
    let st := (sortedRecords records).foldl
      (boomStep program (boundaryKey records) baseCycle (pcToInst (loadedCommits records)))
      { normalized := [.metadataStart
          { source := "boom", program := program, cycleBase := baseCycle
            inputRecords := records.length }] }
    .ok (st.normalized ++
      (unsupported.toList.map fun record ↦ .boundary (boomBoundary program baseCycle record)) ++
      [.metadataEnd
        { source := "boom", program := program, prefixCommitRecords := st.commitIndex
          branchRecords := st.branchIndex
          unsupportedBoundaryPc := unsupported.bind fun record ↦ fmtPc record.pc.read
          unsupportedBoundaryInstruction :=
            unsupported.bind fun record ↦ fmtInst record.instruction.read
          stopReason := if unsupported.isSome then "unsupported_store_to_tohost_excluded"
            else "no_unsupported_boundary_found" }])

def hlsBoundary (source program : String) (baseCycle : ℤ) (record : RawRecord) : BoundaryRecord :=
  { source := source, program := program, cycle := record.cycleNumber
    normalizedCycle := record.cycleNumber - baseCycle, pc := fmtPc record.pc.read
    instruction := fmtInst record.instruction.read
    mnemonic := (decodeInstruction record.instruction.read).mnemonic
    reason := if record.reason.truthy then record.reason
      else .str (decodeInstruction record.instruction.read).unsupportedReason
    traceSequenceId := record.traceSequence }

def hlsStep (source program : String) (baseCycle : ℤ) (insts : ℕ → Option ℕ) (st : NormState)
    (record : RawRecord) : NormState :=
  if !record.isLoaded then st
  else
    match record.event with
    | .commit =>
      if record.instruction.read = none ∨ isUnsupported record.instruction.read then st
      else st.addCommit source program record baseCycle
    | .branch => st.addBranch source program record baseCycle insts
    | .branchResolve => st.addBranch source program record baseCycle insts
    | .unsupportedBoundary => st.addBoundary (hlsBoundary source program baseCycle record)
    | _ => st

/-- The first boundary among normalized records. -/
def firstBoundary (records : List NormRecord) : Option BoundaryRecord :=
  records.findSome? fun
    | .boundary b => some b
    | _ => none

def normalizeHls (records : List RawRecord) (program source : String) :
    Except ValueError (List NormRecord) :=
  match records.filter RawRecord.isHlsCommit with
  | [] => .error (.message
      (program ++ ": no HLS loaded-program commit records found in " ++ source))
  | first :: rest =>
    let baseCycle := first.cycleNumber
    let st := (sortedRecords records).foldl
      (hlsStep source program baseCycle (pcToInst (first :: rest)))
      { normalized := [.metadataStart
          { source := source, program := program, cycleBase := baseCycle
            inputRecords := records.length }] }
    let boundary := firstBoundary st.normalized
    .ok (st.normalized ++
      [.metadataEnd
        { source := source, program := program, prefixCommitRecords := st.commitIndex
          branchRecords := st.branchIndex
          unsupportedBoundaryPc := boundary.bind BoundaryRecord.pc
          unsupportedBoundaryInstruction := boundary.bind BoundaryRecord.instruction
          stopReason := if boundary.isSome then "prefix_limit_reached_before_unsupported_store"
            else "no_unsupported_boundary_recorded" }])

end BoomCore.Trace
