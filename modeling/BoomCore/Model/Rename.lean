import BoomCore.Model.State

/-!
# Register renaming

`src/rename.cpp`. Sources are looked up in the speculative map table, and a destination takes the
register at the head of the free list. Both source busy bits are written `false`; the busy table is
kept but never read.
-/

set_option autoImplicit false
set_option relaxedAutoImplicit false

namespace BoomCore

/-- The block under `brupdate.mispredict`: the speculative map becomes the committed map. -/
def RenameMapTableState.restore (mt : RenameMapTableState) : RenameMapTableState :=
  { mt with
    mapTable := mt.committedMapTable
    brSnapshots := fun i _ ↦ mt.committedMapTable i }

/-- `fl.free_list[fl.head]`, the register that the next destination takes. -/
def RenameFreeListState.front (fl : RenameFreeListState) : Nat := fl.freeList fl.head

/-- Take the register at the head of the free list. -/
def RenameFreeListState.pop (fl : RenameFreeListState) : RenameFreeListState :=
  { fl with
    head := (fl.head + 1) % intPhysRegs
    count := fl.count - 1
    busyTable := Function.update fl.busyTable fl.front true }

/-- Append a register behind the free list, as `rob_commit_module` does. -/
def RenameFreeListState.push (fl : RenameFreeListState) (preg : Nat) : RenameFreeListState :=
  { fl with
    busyTable := Function.update fl.busyTable preg false
    freeList := Function.update fl.freeList fl.tail preg
    tail := (fl.tail + 1) % intPhysRegs
    count := fl.count + 1 }

/-- The uop has an integer destination register other than `x0`. -/
def MicroOp.writesInt (uop : MicroOp) : Bool :=
  decide (uop.rename.dstRtype = .int) && decide (uop.rename.ldst ≠ 0)

/-- The lookups that come before the destination is renamed. -/
def MicroOp.renameSources (uop : MicroOp) (mapTable : CArray Nat) : MicroOp :=
  { uop with
    rename := { uop.rename with
      prs1 := mapTable uop.rename.lrs1
      prs2 := mapTable uop.rename.lrs2
      stalePdst := mapTable uop.rename.ldst
      prs1Busy := false
      prs2Busy := false } }

/-- Rename one uop against the map table and the free list. With an empty free list a destination
is left without a register and the uop goes on. -/
def renameUop (uop : MicroOp) (mt : RenameMapTableState) (fl : RenameFreeListState) :
    MicroOp × RenameMapTableState × RenameFreeListState :=
  let uop := uop.renameSources mt.mapTable
  if uop.writesInt then
    if 0 < fl.count then
      ({ uop with rename := { uop.rename with pdst := fl.front } },
        { mt with mapTable := Function.update mt.mapTable uop.rename.ldst fl.front },
        fl.pop)
    else (uop, mt, fl)
  else ({ uop with rename := { uop.rename with pdst := 0, ldst := 0 } }, mt, fl)

/-- `rename_module`. -/
def renameModule (state : BoomCoreState) : BoomCoreState :=
  let cleared := { state.rename with renamedValid := false, renamedUop := {} }
  if state.globalFlush then { state with rename := cleared }
  else
    let mt :=
      if state.brupdate.valid && state.brupdate.mispredict then cleared.intMapTable.restore
      else cleared.intMapTable
    if state.decode.decValid then
      let renamed := renameUop state.decode.decUop mt cleared.intFreeList
      { state with
        rename :=
          { renamedUop := renamed.1, renamedValid := true
            intMapTable := renamed.2.1, intFreeList := renamed.2.2 } }
    else { state with rename := { cleared with intMapTable := mt } }

end BoomCore
