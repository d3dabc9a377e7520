import BoomCore.Model.State

/-!
# The decoder

`src/decode.cpp`. The arms of the switch over the opcode are separate definitions over the uop
that the code before the switch prepares; `decodeInst` is the switch with the fix-up after it.
-/

set_option autoImplicit false
set_option relaxedAutoImplicit false

namespace BoomCore

/-! ### Immediates -/

def extractImmI (inst : BitVec 32) : BitVec 32 := inst.sshiftRight 20

def extractImmS (inst : BitVec 32) : BitVec 32 :=
  let v := (inst.sshiftRight 20 &&& 0xFFFFFE0#32) ||| ((inst >>> 7) &&& 0x1F#32)
  if v &&& 0x800#32 ≠ 0 then v ||| 0xFFFFF000#32 else v

def extractImmB (inst : BitVec 32) : BitVec 32 :=
  let v := (((inst >>> 8) &&& 0xF#32) <<< 1) ||| (((inst >>> 25) &&& 0x3F#32) <<< 5) |||
    (((inst >>> 7) &&& 1#32) <<< 11) ||| (((inst >>> 31) &&& 1#32) <<< 12)
  if v &&& 0x1000#32 ≠ 0 then v ||| 0xFFFFE000#32 else v

def extractImmU (inst : BitVec 32) : BitVec 32 := inst &&& 0xFFFFF000#32

def extractImmJ (inst : BitVec 32) : BitVec 32 :=
  let v := (((inst >>> 21) &&& 0x3FF#32) <<< 1) ||| (((inst >>> 20) &&& 1#32) <<< 11) |||
    (((inst >>> 12) &&& 0xFF#32) <<< 12) ||| (((inst >>> 31) &&& 1#32) <<< 20)
  if v &&& 0x100000#32 ≠ 0 then v ||| 0xFFE00000#32 else v

/-! ### Fields -/

def opcodeOf (inst : BitVec 32) : Nat := (inst &&& 0x7F#32).toNat
def funct3Of (inst : BitVec 32) : Nat := ((inst >>> 12) &&& 0x7#32).toNat
def funct7Of (inst : BitVec 32) : Nat := ((inst >>> 25) &&& 0x7F#32).toNat
def rdOf (inst : BitVec 32) : Nat := ((inst >>> 7) &&& 0x1F#32).toNat
def rs1Of (inst : BitVec 32) : Nat := ((inst >>> 15) &&& 0x1F#32).toNat
def rs2Of (inst : BitVec 32) : Nat := ((inst >>> 20) &&& 0x1F#32).toNat

namespace MicroOp

/-! ### Pieces that several arms share -/

/-- `uop.uopc=UOPC_ILLEGAL; uop.exception=true;`, the default arm that sets no cause. -/
def asIllegal (uop : MicroOp) : MicroOp := { uop with uopc := .illegal, exception := true }

/-- The default arm that also sets cause two. -/
def asIllegalCause (uop : MicroOp) : MicroOp :=
  { uop with uopc := .illegal, exception := true, excCause := 2 }

def withUopc (uop : MicroOp) (uopc : Uopc) : MicroOp := { uop with uopc := uopc }

def withDst (uop : MicroOp) (dstRtype : DstRType) : MicroOp :=
  { uop with rename := { uop.rename with dstRtype := dstRtype } }

/-- Queue, functional unit and operand selectors. -/
def withOperands (uop : MicroOp) (iqType : IqType) (fuCode : FuCode) (op1Sel : Op1Sel)
    (op2Sel : Op2Sel) : MicroOp :=
  { uop with
    iqType := iqType, fuCode := fuCode
    ctrl := { uop.ctrl with op1Sel := op1Sel, op2Sel := op2Sel } }

/-! ### The arms of the switch -/

def decodeLui (uop : MicroOp) : MicroOp :=
  { (uop.withOperands .alu .alu .x0 .imu).withDst .int with
    uopc := .lui, immPacked := extractImmU uop.inst }

def decodeAuipc (uop : MicroOp) : MicroOp :=
  { (uop.withOperands .alu .alu .pc .imu).withDst .int with
    uopc := .auipc, immPacked := extractImmU uop.inst }

def decodeJal (uop : MicroOp) : MicroOp :=
  let u := (uop.withOperands .alu .alu .pc .imm).withDst (if rdOf uop.inst ≠ 0 then .int else .x0)
  { u with
    uopc := .jal, immPacked := extractImmJ uop.inst
    ctrl := { u.ctrl with brType := .j }, branch := { u.branch with isJal := true } }

def decodeJalr (uop : MicroOp) : MicroOp :=
  let u := (uop.withOperands .alu .alu .rs1 .imm).withDst (if rdOf uop.inst ≠ 0 then .int else .x0)
  { u with
    uopc := .jalr, immPacked := extractImmI uop.inst
    ctrl := { u.ctrl with brType := .jr }, branch := { u.branch with isJalr := true } }

/-- One arm of the switch over `f3` of the conditional branches. -/
def asBranch (uop : MicroOp) (uopc : Uopc) (brType : BrType) : MicroOp :=
  { uop with uopc := uopc, ctrl := { uop.ctrl with brType := brType } }

def decodeBranch (uop : MicroOp) : MicroOp :=
  let u := (uop.withOperands .alu .alu .rs1 .rs2).withDst .n
  let u := { u with immPacked := extractImmB uop.inst, branch := { u.branch with isBr := true } }
  match funct3Of uop.inst with
  | 0 => u.asBranch .beq .eq
  | 1 => u.asBranch .bne .ne
  | 4 => u.asBranch .blt .lt
  | 5 => u.asBranch .bge .ge
  | 6 => u.asBranch .bltu .ltu
  | 7 => u.asBranch .bgeu .geu
  | _ => u.asIllegalCause

/-- One arm of the switch over `f3` of the loads and stores. -/
def asMemory (uop : MicroOp) (uopc : Uopc) (memSize : Nat) (memSigned : Bool) : MicroOp :=
  { uop with
    uopc := uopc, mem := { uop.mem with memSize := memSize, memSigned := memSigned } }

def decodeLoad (uop : MicroOp) : MicroOp :=
  let u := (uop.withOperands .mem .mem .rs1 .imm).withDst .int
  let u := { u with
    immPacked := extractImmI uop.inst
    ctrl := { u.ctrl with isLoad := true, isSta := false }
    mem := { u.mem with memSigned := true, usesLdq := true } }
  match funct3Of uop.inst with
  | 0 => u.asMemory .lb 0 true
  | 1 => u.asMemory .lh 1 true
  | 2 => u.asMemory .lw 2 true
  | 3 => u.asMemory .ld 3 true
  | 4 => u.asMemory .lbu 0 false
  | 5 => u.asMemory .lhu 1 false
  | 6 => u.asMemory .lwu 2 false
  | _ => u.asIllegalCause

def decodeStore (uop : MicroOp) : MicroOp :=
  let u := (uop.withOperands .mem .mem .rs1 .rs2).withDst .n
  let u := { u with
    immPacked := extractImmS uop.inst
    ctrl := { u.ctrl with isLoad := false, isSta := true }
    mem := { u.mem with usesStq := true } }
  match funct3Of uop.inst with
  | 0 => u.asMemory .sb 0 u.mem.memSigned
  | 1 => u.asMemory .sh 1 u.mem.memSigned
  | 2 => u.asMemory .sw 2 u.mem.memSigned
  | 3 => u.asMemory .sd 3 u.mem.memSigned
  | _ => u.asIllegalCause

def decodeOpImm (uop : MicroOp) : MicroOp :=
  let u := { (uop.withOperands .alu .alu .rs1 .imm).withDst .int with
    immPacked := extractImmI uop.inst }
  match funct3Of uop.inst with
  | 0 => u.withUopc .addi
  | 2 => u.withUopc .slti
  | 3 => u.withUopc .sltiu
  | 4 => u.withUopc .xori
  | 6 => u.withUopc .ori
  | 7 => u.withUopc .andi
  | 1 => u.withUopc .slli
  | 5 => u.withUopc (if funct7Of uop.inst = 0 then .srli else .srai)
  | _ => u.asIllegal

def decodeOpImm32 (uop : MicroOp) : MicroOp :=
  let u := (uop.withOperands .alu .alu .rs1 .imm).withDst .int
  let u := { u with immPacked := extractImmI uop.inst, ctrl := { u.ctrl with fcnDw := true } }
  match funct3Of uop.inst with
  | 0 => u.withUopc .addiw
  | 1 => u.withUopc .slliw
  | 5 => u.withUopc (if funct7Of uop.inst = 0 then .srliw else .sraiw)
  | _ => u.asIllegal

def decodeOp (uop : MicroOp) : MicroOp :=
  if funct7Of uop.inst = 1 then
    let u := (uop.withOperands .alu .mul .rs1 .rs2).withDst .int
    match funct3Of uop.inst with
    | 0 => u.withUopc .mul
    | _ => u.asIllegal
  else
    let u := (uop.withOperands .alu .alu .rs1 .rs2).withDst .int
    match funct3Of uop.inst with
    | 0 => u.withUopc (if funct7Of uop.inst = 0x20 then .sub else .add)
    | 1 => u.withUopc .sll
    | 2 => u.withUopc .slt
    | 3 => u.withUopc .sltu
    | 4 => u.withUopc .xor
    | 5 => u.withUopc (if funct7Of uop.inst = 0x20 then .sra else .srl)
    | 6 => u.withUopc .or
    | 7 => u.withUopc .and
    | _ => u.asIllegal

def decodeOp32 (uop : MicroOp) : MicroOp :=
  let u := (uop.withOperands .alu .alu .rs1 .rs2).withDst .int
  let u := { u with ctrl := { u.ctrl with fcnDw := true } }
  match funct3Of uop.inst with
  | 0 => u.withUopc (if funct7Of uop.inst = 0x20 then .subw else .addw)
  | 1 => u.withUopc .sllw
  | 5 => u.withUopc (if funct7Of uop.inst = 0x20 then .sraw else .srlw)
  | _ => u.asIllegal

def decodeFence (uop : MicroOp) : MicroOp :=
  { uop.withDst .n with uopc := .fence, iqType := .mem, fuCode := .mem }

/-- One arm of the switch over `f3` of the CSR instructions. -/
def asCsr (uop : MicroOp) (uopc : Uopc) (csrCmd : CsrCmd) : MicroOp :=
  { uop with uopc := uopc, ctrl := { uop.ctrl with csrCmd := csrCmd } }

def decodeSystem (uop : MicroOp) : MicroOp :=
  if funct3Of uop.inst = 0 then
    if rdOf uop.inst = 0 ∧ uop.inst >>> 20 = 0#32 then
      { uop with
        uopc := .ecall, iqType := .alu, fuCode := .csr, exception := true, excCause := 11
        isSysPc2epc := true }
    else { uop.withDst .n with uopc := .mret, iqType := .alu, fuCode := .csr }
  else
    let u := { (uop.withOperands .alu .csr .rs1 .imz).withDst .int with
      csrAddr := (uop.inst >>> 20).setWidth 16 }
    match funct3Of uop.inst with
    | 1 => u.asCsr .csrrw .w
    | 2 => u.asCsr .csrrs .s
    | 3 => u.asCsr .csrrc .c
    | 5 => u.asCsr .csrrwi .w
    | 6 => u.asCsr .csrrsi .s
    | 7 => u.asCsr .csrrci .c
    | _ => u.asIllegal

def decodeDefault (uop : MicroOp) : MicroOp :=
  { uop.asIllegalCause with iqType := .alu, fuCode := .alu }

end MicroOp

/-! ### The decoder -/

/-- The uop before the switch. -/
def decodeFields (pc : BitVec 64) (inst : BitVec 32) : MicroOp :=
  { inst := inst, debugPc := pc
    rename := { lrs1 := rs1Of inst, lrs2 := rs2Of inst, ldst := rdOf inst }
    branch := { pcLob := (pc &&& 0x3F#64).setWidth 8 } }

/-- The switch over the opcode. -/
def decodeSwitch (uop : MicroOp) : MicroOp :=
  match opcodeOf uop.inst with
  | 0x37 => uop.decodeLui
  | 0x17 => uop.decodeAuipc
  | 0x6F => uop.decodeJal
  | 0x67 => uop.decodeJalr
  | 0x63 => uop.decodeBranch
  | 0x03 => uop.decodeLoad
  | 0x23 => uop.decodeStore
  | 0x13 => uop.decodeOpImm
  | 0x1B => uop.decodeOpImm32
  | 0x33 => uop.decodeOp
  | 0x3B => uop.decodeOp32
  | 0x0F => uop.decodeFence
  | 0x73 => uop.decodeSystem
  | _ => uop.decodeDefault

/-- The decoded uop of an instruction word at a pc, with the fix-up after the switch. -/
def decodeInst (pc : BitVec 64) (inst : BitVec 32) : MicroOp :=
  let uop := decodeSwitch (decodeFields pc inst)
  if uop.uopc = .illegal ∧ !uop.exception then { uop with exception := true, excCause := 2 }
  else uop

/-- `decode_module`. -/
def decodeModule (state : BoomCoreState) : BoomCoreState :=
  { state with
    decode :=
      if state.globalFlush || !state.frontend.fetchPacketValid then
        { state.decode with decValid := false }
      else
        { decUop := decodeInst state.frontend.fetchUop.debugPc state.frontend.fetchUop.inst
          decValid := true } }

end BoomCore
