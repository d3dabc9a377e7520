import Mathlib.Logic.Function.Basic

/-!
# Configuration and value types

`include/boom_config.hpp` and `include/boom_types.hpp`. The enumerations of the source are
inductive types with the source's words. Fixed-width values whose bits matter (addresses, data,
instruction words, transaction and fetch identifiers, byte masks) are bit vectors of the width of
the source; the `uint8_t` indices into tables are natural numbers, read and written as the source
does, and none of them is cut down to its table by the type.

`DISPATCH_WIDTH` is one, so a per-lane array of the source is a single value here. Fields that no
function of the core reads or writes are left out.
-/

set_option autoImplicit false
set_option relaxedAutoImplicit false

namespace BoomCore

/-! ### Configuration -/

abbrev robDepth : Nat := 32
abbrev intPhysRegs : Nat := 52
abbrev logicalRegCount : Nat := 32
abbrev issueQueueAluDepth : Nat := 8
abbrev ldqDepth : Nat := 8
abbrev stqDepth : Nat := 8
abbrev resetVector : BitVec 64 := 0x10040#64

/-- A C array, read by its index. The bound of the index is not part of the type. -/
abbrev CArray (α : Type) : Type := Nat → α

/-! ### Enumerations -/

inductive FuCode | alu | mul | div | csr | fpu | mem | i2f | f2i | fdv
  deriving DecidableEq

inductive IqType | mem | alu | fpu
  deriving DecidableEq

inductive BrType | n | ne | eq | ge | geu | lt | ltu | j | jr
  deriving DecidableEq

inductive Op1Sel | rs1 | imu | pc | x0
  deriving DecidableEq

inductive Op2Sel | rs2 | imm | imu | imz | x0
  deriving DecidableEq

inductive CsrCmd | n | r | w | s | c | p
  deriving DecidableEq

inductive DstRType | int | fp | x0 | n
  deriving DecidableEq

inductive RobState | init | normal | flush | exception
  deriving DecidableEq

inductive PrivilegeMode | u | s | h | m
  deriving DecidableEq

inductive DmemCommand | load | store
  deriving DecidableEq

/-- The `UOPC_*` codes of `decode.cpp`, in the order of their numbers. -/
inductive Uopc
  | nop | add | sub | sll | slt | sltu | xor | srl | sra | or | and
  | addw | subw | sllw | srlw | sraw
  | mul | mulh | mulhsu | mulhu | mulw | div | divu | rem | remu | divw | divuw | remw | remuw
  | jal | jalr | beq | bne | blt | bge | bltu | bgeu | lui | auipc
  | lb | lh | lw | ld | lbu | lhu | lwu | sb | sh | sw | sd
  | addi | slli | slti | sltiu | xori | srli | srai | ori | andi
  | addiw | slliw | srliw | sraiw | fence | fencei | ecall | ebreak
  | csrrw | csrrs | csrrc | csrrwi | csrrsi | csrrci | mret | wfi | illegal
  deriving DecidableEq

/-! ### Micro-operations -/

structure DecodeControl where
  brType : BrType := .n
  op1Sel : Op1Sel := .rs1
  op2Sel : Op2Sel := .rs2
  fcnDw : Bool := false
  csrCmd : CsrCmd := .n
  isLoad : Bool := false
  isSta : Bool := false
  deriving DecidableEq

structure BranchInfo where
  brMask : BitVec 8 := 0
  pcLob : BitVec 8 := 0
  isBr : Bool := false
  isJalr : Bool := false
  isJal : Bool := false
  deriving DecidableEq

structure RenameInfo where
  ldst : Nat := 0
  lrs1 : Nat := 0
  lrs2 : Nat := 0
  pdst : Nat := 0
  prs1 : Nat := 0
  prs2 : Nat := 0
  prs1Busy : Bool := false
  prs2Busy : Bool := false
  stalePdst : Nat := 0
  dstRtype : DstRType := .int
  deriving DecidableEq

structure QueueInfo where
  robIdx : Nat := 0
  deriving DecidableEq

structure MemoryInfo where
  memSize : Nat := 0
  memSigned : Bool := false
  usesLdq : Bool := false
  usesStq : Bool := false
  deriving DecidableEq

structure MicroOp where
  uopc : Uopc := .nop
  inst : BitVec 32 := 0
  isRvc : Bool := false
  debugPc : BitVec 64 := 0
  iqType : IqType := .mem
  fuCode : FuCode := .alu
  ctrl : DecodeControl := {}
  branch : BranchInfo := {}
  immPacked : BitVec 32 := 0
  csrAddr : BitVec 16 := 0
  queue : QueueInfo := {}
  rename : RenameInfo := {}
  exception : Bool := false
  excCause : BitVec 64 := 0
  mem : MemoryInfo := {}
  isSysPc2epc : Bool := false
  deriving DecidableEq

structure RobEntry where
  valid : Bool := false
  busy : Bool := false
  exception : Bool := false
  uop : MicroOp := {}
  memoryValid : Bool := false
  isLoad : Bool := false
  isStore : Bool := false
  signedLoad : Bool := false
  memoryRequestSent : Bool := false
  memoryCompleted : Bool := false
  memoryAddress : BitVec 64 := 0
  memoryData : BitVec 64 := 0
  memoryMask : BitVec 8 := 0
  memorySize : Nat := 0
  memoryTransactionId : BitVec 32 := 0
  deriving DecidableEq

structure IssueSlotEntry where
  valid : Bool := false
  request : Bool := false
  granted : Bool := false
  killed : Bool := false
  pdstBusy : Bool := false
  prs1Busy : Bool := false
  prs2Busy : Bool := false
  uop : MicroOp := {}
  deriving DecidableEq

structure BranchUpdate where
  mispredictMask : BitVec 8 := 0
  valid : Bool := false
  mispredict : Bool := false
  jalrTarget : BitVec 64 := 0
  deriving DecidableEq

structure CommitEntry where
  valid : Bool := false
  pc : BitVec 64 := 0
  inst : BitVec 32 := 0
  rd : Nat := 0
  priv : PrivilegeMode := .u
  rdValue : BitVec 64 := 0
  exception : Bool := false
  rdValid : Bool := false
  branchMispredict : Bool := false
  memoryValid : Bool := false
  isStore : Bool := false
  memoryAddress : BitVec 64 := 0
  memoryData : BitVec 64 := 0
  storeAddr : BitVec 64 := 0
  storeData : BitVec 64 := 0
  memoryMask : BitVec 8 := 0
  storeMask : BitVec 8 := 0
  deriving DecidableEq

/-! ### Requests and responses -/

structure ImemRequest where
  address : BitVec 64 := 0
  fetchId : BitVec 32 := 0
  kill : Bool := false
  deriving DecidableEq

structure ImemResponse where
  address : BitVec 64 := 0
  fetchId : BitVec 32 := 0
  instruction : BitVec 32 := 0
  exception : Bool := false
  excCause : BitVec 64 := 0
  deriving DecidableEq

structure DmemRequest where
  transactionId : BitVec 32 := 0
  robIdx : Nat := 0
  command : DmemCommand := .load
  size : Nat := 3
  mask : BitVec 8 := 0
  writeMask : BitVec 8 := 0
  branchMask : BitVec 8 := 0
  isStore : Bool := false
  signedLoad : Bool := false
  committed : Bool := false
  address : BitVec 64 := 0
  data : BitVec 64 := 0
  writeData : BitVec 64 := 0
  deriving DecidableEq

structure DmemResponse where
  transactionId : BitVec 32 := 0
  data : BitVec 64 := 0
  readData : BitVec 64 := 0
  exception : Bool := false
  excCause : BitVec 64 := 0
  exceptionCause : BitVec 64 := 0
  deriving DecidableEq

end BoomCore
