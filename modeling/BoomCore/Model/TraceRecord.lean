import BoomCore.Model.TraceValue
import Mathlib.Data.Prod.Lex
import Mathlib.Data.List.Sort

/-!
# Raw trace records

A record of a BOOM or an HLS trace, its position in the trace, and `decode_instruction` of
`scripts/provisional_gate3_lib.py`. A key that a record does not have reads as null, except for
`arch_valid`, where the two are told apart.
-/

set_option autoImplicit false
set_option relaxedAutoImplicit false

namespace BoomCore.Trace

/-- The values of `event`. -/
inductive RawEvent
  | metadata
  | commit
  | robAllocate
  | iqInsert
  | iqSelect
  | execute
  | writeback
  | robComplete
  | branch
  | branchResolve
  | redirect
  | flush
  | exception
  | tohost
  | unsupportedBoundary
  deriving DecidableEq, Repr

/-- The fields of a raw record that the scripts read. -/
structure RawRecord where
  event : RawEvent
  cycle : IntField := .absent
  originalCycle : IntField := .absent
  traceSequenceId : IntField := .absent
  eventIndex : IntField := .absent
  slot : IntField := .absent
  pc : HexField := .absent
  instruction : HexField := .absent
  rdValid : JsonValue := .null
  rd : IntField := .absent
  rdValue : HexField := .absent
  exception : JsonValue := .null
  exceptionCause : IntField := .absent
  branchMispredict : Option Bool := none
  archValid : Option JsonValue := none
  taken : Option Bool := none
  target : HexField := .absent
  redirectPc : HexField := .absent
  physicalRd : IntField := .absent
  stalePhysicalRd : IntField := .absent
  robIdx : IntField := .absent
  branchTag : IntField := .absent
  branchMask : IntField := .absent
  reason : JsonValue := .null

namespace RawRecord

/-- `trace_sequence(record)` -/
def traceSequence (record : RawRecord) : ℤ :=
  match record.traceSequenceId.read with
  | some seq => seq
  | none => record.eventIndex.read.getD 0

/-- `cycle(record)` -/
def cycleNumber (record : RawRecord) : ℤ :=
  (orElseInt record.cycle.read record.originalCycle.read).getD 0

/-- `record_order_key(record)`, compared as Python compares tuples. -/
def orderKey (record : RawRecord) : ℤ ×ₗ ℤ := toLex (record.cycleNumber, record.traceSequence)

end RawRecord

/-- `sorted(records, key=record_order_key)` -/
def sortedRecords (records : List RawRecord) : List RawRecord :=
  records.insertionSort fun a b ↦ a.orderKey ≤ b.orderKey

/-! ### Decoding for the comparison -/

def entryPc : ℕ := 0x80000000

def tohostAddr : ℕ := 0x80000080

/-- What `decode_instruction` returns. -/
structure DecodedInst where
  mnemonic : String
  category : String
  hlsDecode : Bool
  hlsExecute : Bool
  hlsLsuRequired : Bool
  hlsComparable : Bool
  unsupportedReason : String
  deriving DecidableEq, Repr

/-- The inner function `supported`. -/
def supportedInst (mnemonic category : String) (execute : Bool) : DecodedInst :=
  { mnemonic := mnemonic, category := category, hlsDecode := true, hlsExecute := execute
    hlsLsuRequired := false, hlsComparable := execute, unsupportedReason := "" }

/-- `supported(names.get(key, illegal), category, key in names)` -/
def supportedBy {α : Type} [DecidableEq α] (names : List (α × String)) (key : α)
    (illegal category : String) : DecodedInst :=
  supportedInst ((names.lookup key).getD illegal) category (names.lookup key).isSome

/-- A memory operation, which is never comparable. -/
def memoryInst (names : List (ℕ × String)) (funct3 : ℕ) (illegal category reason : String) :
    DecodedInst :=
  { mnemonic := (names.lookup funct3).getD illegal, category := category
    hlsDecode := (names.lookup funct3).isSome, hlsExecute := false, hlsLsuRequired := true
    hlsComparable := false, unsupportedReason := reason }

def decodeAvailable (inst : ℕ) : DecodedInst :=
  let opcode := inst &&& 0x7F
  let funct3 := (inst >>> 12) &&& 0x7
  let funct7 := (inst >>> 25) &&& 0x7F
  if opcode = 0x13 then
    supportedBy [(0, "ADDI"), (1, "SLLI"), (2, "SLTI"), (3, "SLTIU"), (4, "XORI"),
      (5, "SRLI/SRAI"), (6, "ORI"), (7, "ANDI")] funct3 "OP-IMM-ILLEGAL" "ALU_IMM"
  else if opcode = 0x1B then
    supportedBy [(0, "ADDIW"), (1, "SLLIW"), (5, "SRLIW/SRAIW")] funct3 "OP-IMM-32-ILLEGAL"
      "ALU_IMM_32"
  else if opcode = 0x33 then
    supportedBy [((0, 0x00), "ADD"), ((0, 0x20), "SUB"), ((1, 0x00), "SLL"), ((2, 0x00), "SLT"),
      ((3, 0x00), "SLTU"), ((4, 0x00), "XOR"), ((5, 0x00), "SRL"), ((5, 0x20), "SRA"),
      ((6, 0x00), "OR"), ((7, 0x00), "AND"), ((0, 0x01), "MUL")] (funct3, funct7) "OP-ILLEGAL"
      "ALU_REG"
  else if opcode = 0x3B then
    supportedBy [((0, 0x00), "ADDW"), ((0, 0x20), "SUBW"), ((1, 0x00), "SLLW"),
      ((5, 0x00), "SRLW"), ((5, 0x20), "SRAW")] (funct3, funct7) "OP-32-ILLEGAL" "ALU_REG_32"
  else if opcode = 0x37 then supportedInst "LUI" "ALU_IMM" true
  else if opcode = 0x17 then supportedInst "AUIPC" "ALU_IMM" true
  else if opcode = 0x6F then supportedInst "JAL" "CONTROL" true
  else if opcode = 0x67 then supportedInst "JALR" "CONTROL" (funct3 == 0)
  else if opcode = 0x63 then
    supportedBy [(0, "BEQ"), (1, "BNE"), (4, "BLT"), (5, "BGE"), (6, "BLTU"), (7, "BGEU")] funct3
      "BRANCH-ILLEGAL" "CONTROL"
  else if opcode = 0x03 then
    memoryInst [(3, "LD")] funct3 "LOAD-UNSUPPORTED" "LOAD"
      "HLS lsu_module is a no-op; loads are outside Provisional Gate 3 prefix scope"
  else if opcode = 0x23 then
    memoryInst [(3, "SD")] funct3 "STORE-UNSUPPORTED" "STORE"
      "HLS lsu_module is a no-op; retired store-to-tohost is the prefix stop boundary"
  else if opcode = 0x73 then
    if funct3 = 0 ∧ (inst >>> 20) &&& 0xFFF = 0 then supportedInst "ECALL" "SYSTEM" true
    else supportedInst "CSR" "SYSTEM" true
  else if opcode = 0x0F then
    { mnemonic := "FENCE", category := "FENCE", hlsDecode := true, hlsExecute := false
      hlsLsuRequired := true, hlsComparable := false
      unsupportedReason := "memory-ordering behavior is outside the implemented HLS subset" }
  else
    { mnemonic := "UNKNOWN", category := "UNKNOWN", hlsDecode := false, hlsExecute := false
      hlsLsuRequired := false, hlsComparable := false
      unsupportedReason :=
        "opcode " ++ fmtHex opcode 2 ++ " is not in the implemented HLS decode subset" }

def decodeInstruction : Option ℕ → DecodedInst
  | none =>
    { mnemonic := "UNAVAILABLE", category := "UNAVAILABLE", hlsDecode := false
      hlsExecute := false, hlsLsuRequired := false, hlsComparable := false
      unsupportedReason := "instruction unavailable in BOOM boot/ROM trace" }
  | some inst => decodeAvailable inst

def isUnsupported (inst : Option ℕ) : Bool := !(decodeInstruction inst).hlsComparable

end BoomCore.Trace
