import BoomCore.Model.Types

/-!
# The state of the core and its streams

`include/boom_state.hpp` and `include/boom_interfaces.hpp`. Default values are the member
initializers of the constructors, so `({} : BoomCoreState)` is `BoomCoreState()`. The floating
point tables, the fields of `CsrState` that no function touches and the counters that are never
written are left out.
-/

set_option autoImplicit false
set_option relaxedAutoImplicit false

namespace BoomCore

/-! ### State components -/

structure FrontendState where
  pc : BitVec 64 := resetVector
  resetDone : Bool := false
  requestSent : Bool := false
  fetchId : BitVec 32 := 0
  pendingFetchId : BitVec 32 := 0
  responseReceived : Bool := false
  respAddress : BitVec 64 := 0
  respInstruction : BitVec 32 := 0
  respException : Bool := false
  respExcCause : BitVec 64 := 0
  flush : Bool := false
  fetchPacketValid : Bool := false
  fetchUop : MicroOp := {}

structure DecodeState where
  decUop : MicroOp := {}
  decValid : Bool := false

structure RenameMapTableState where
  mapTable : CArray Nat := fun _ ↦ 0
  committedMapTable : CArray Nat := fun _ ↦ 0
  brSnapshots : CArray (CArray Nat) := fun _ _ ↦ 0

/-- The free list starts with the registers `1 .. INT_PHYS_REGS-1` at their own positions, `head`
on register one and `tail` on the last register. -/
structure RenameFreeListState where
  freeList : CArray Nat := fun i ↦ i
  head : Nat := 1
  tail : Nat := intPhysRegs - 1
  count : Nat := intPhysRegs - 1
  busyTable : CArray Bool := fun i ↦ i == 0

structure RenameState where
  intMapTable : RenameMapTableState := {}
  intFreeList : RenameFreeListState := {}
  renamedUop : MicroOp := {}
  renamedValid : Bool := false

structure IssueQueueState where
  entries : CArray IssueSlotEntry := fun _ ↦ {}
  head : Nat := 0
  tail : Nat := 0
  count : Nat := 0

/-- One lane of execution is implemented, so of the `ISSUE_WIDTH` lanes of `issued_uops` only the
first is ever granted and only that lane is kept. -/
structure IssueState where
  aluIq : IssueQueueState := {}
  issuedUop : MicroOp := {}
  issuedValid : Bool := false

structure AluResult where
  valid : Bool := false
  uop : MicroOp := {}
  result : BitVec 64 := 0
  exception : Bool := false
  excCause : BitVec 64 := 0
  mispredict : Bool := false
  redirectPc : BitVec 64 := 0
  memoryValid : Bool := false
  isLoad : Bool := false
  isStore : Bool := false
  signedLoad : Bool := false
  memoryAddress : BitVec 64 := 0
  storeData : BitVec 64 := 0
  memoryMask : BitVec 8 := 0
  memorySize : Nat := 0
  deriving DecidableEq

structure ExecuteState where
  aluResult : AluResult := {}

structure RobInternalState where
  entries : CArray RobEntry := fun _ ↦ {}
  head : Nat := 0
  tail : Nat := 0
  maybeFull : Bool := false
  state : RobState := .init
  lastCommit : CommitEntry := {}
  commitValid : Bool := false

structure CsrState where
  cycle : BitVec 64 := 0
  instret : BitVec 64 := 0
  priv : PrivilegeMode := .m

structure StoreQueueEntry where
  valid : Bool := false
  addressValid : Bool := false
  dataValid : Bool := false
  robIdx : Nat := 0
  mask : BitVec 8 := 0
  size : Nat := 0
  branchMask : BitVec 8 := 0
  address : BitVec 64 := 0
  data : BitVec 64 := 0
  deriving DecidableEq

structure LoadQueueEntry where
  valid : Bool := false
  signedLoad : Bool := false
  robIdx : Nat := 0
  size : Nat := 0
  branchMask : BitVec 8 := 0
  address : BitVec 64 := 0
  deriving DecidableEq

structure LsuState where
  ldqHead : Nat := 0
  ldqTail : Nat := 0
  ldqCount : Nat := 0
  stqHead : Nat := 0
  stqTail : Nat := 0
  stqCount : Nat := 0
  stq : CArray StoreQueueEntry := fun _ ↦ {}
  ldq : CArray LoadQueueEntry := fun _ ↦ {}
  nextTransactionId : BitVec 32 := 1
  loadResponsePending : Bool := false
  pendingLoadTransactionId : BitVec 32 := 0
  pendingLoadRobIdx : Nat := 0

structure BoomCoreState where
  frontend : FrontendState := {}
  decode : DecodeState := {}
  rename : RenameState := {}
  issue : IssueState := {}
  execute : ExecuteState := {}
  rob : RobInternalState := {}
  csr : CsrState := {}
  lsu : LsuState := {}
  intRf : CArray (BitVec 64) := fun _ ↦ 0
  brupdate : BranchUpdate := {}
  globalFlush : Bool := false
  ioSuccess : Bool := false
  ioHalted : Bool := false
  ioTrap : Bool := false
  tohost : BitVec 64 := 0

/-! ### Streams -/

/-- `hls::stream`, a queue that reports `full` once it holds `maxSize` elements. The C++ model of
the stream has the fixed size `1024`; a synthesized stream has the depth of its port. -/
structure Stream (α : Type) where
  q : List α := []
  maxSize : Nat := 1024

namespace Stream

variable {α : Type}

def write (s : Stream α) (v : α) : Stream α := { s with q := s.q ++ [v] }

/-- The element at the front of the stream, and the stream without it. -/
def read (s : Stream α) : Option (α × Stream α) :=
  match s.q with
  | [] => none
  | v :: rest => some (v, { s with q := rest })

def full (s : Stream α) : Bool := decide (s.maxSize ≤ s.q.length)

end Stream

structure PipeSignals where
  imemReq : Stream ImemRequest := {}
  imemResp : Stream ImemResponse := {}
  dmemReq : Stream DmemRequest := {}
  dmemResp : Stream DmemResponse := {}
  commitTrace : Stream CommitEntry := {}

end BoomCore
