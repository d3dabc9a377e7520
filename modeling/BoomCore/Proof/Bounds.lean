import BoomCore.Library.CheckedArray
import BoomCore.Proof.Ports

/-!
# The ranges of the indices

`InBounds` says that every index and every register number that the state holds is in range: the
contents of the map tables and of the free list, the registers and the entry index of every uop
wherever it is kept, and the positions in the rings and queues. Each module preserves it, whatever
the state and the streams are otherwise: no property of the instructions in flight is needed,
because a register only enters a table from another table, and an index only from a uop or modulo
its depth.
-/

set_option autoImplicit false
set_option relaxedAutoImplicit false

namespace BoomCore

open CheckedArray

/-! ### The invariant -/

/-- The registers and the entry index of a uop are in range. -/
structure MicroOp.InBounds (uop : MicroOp) : Prop where
  ldst : uop.rename.ldst < logicalRegCount
  lrs1 : uop.rename.lrs1 < logicalRegCount
  lrs2 : uop.rename.lrs2 < logicalRegCount
  pdst : uop.rename.pdst < intPhysRegs
  prs1 : uop.rename.prs1 < intPhysRegs
  prs2 : uop.rename.prs2 < intPhysRegs
  stalePdst : uop.rename.stalePdst < intPhysRegs
  robIdx : uop.queue.robIdx < robDepth

structure RenameMapTableState.InBounds (mt : RenameMapTableState) : Prop where
  mapTable : AllCells logicalRegCount (· < intPhysRegs) mt.mapTable
  committedMapTable : AllCells logicalRegCount (· < intPhysRegs) mt.committedMapTable

structure RenameFreeListState.InBounds (fl : RenameFreeListState) : Prop where
  freeList : AllCells intPhysRegs (· < intPhysRegs) fl.freeList
  head : fl.head < intPhysRegs
  tail : fl.tail < intPhysRegs
  count : fl.count ≤ intPhysRegs

structure IssueQueueState.InBounds (iq : IssueQueueState) : Prop where
  entries : AllCells issueQueueAluDepth (fun slot ↦ slot.uop.InBounds) iq.entries
  tail : iq.tail < issueQueueAluDepth
  count : iq.count ≤ issueQueueAluDepth

structure RobInternalState.InBounds (rob : RobInternalState) : Prop where
  entries : AllCells robDepth (fun entry ↦ entry.uop.InBounds) rob.entries
  head : rob.head < robDepth
  tail : rob.tail < robDepth

structure LsuState.InBounds (lsu : LsuState) : Prop where
  pendingLoadRobIdx : lsu.pendingLoadRobIdx < robDepth
  ldqTail : lsu.ldqTail < ldqDepth
  ldqCount : lsu.ldqCount ≤ ldqDepth
  stqTail : lsu.stqTail < stqDepth
  stqCount : lsu.stqCount ≤ stqDepth

/-- Every index of the core is in range. -/
structure BoomCoreState.InBounds (s : BoomCoreState) : Prop where
  mapTable : s.rename.intMapTable.InBounds
  freeList : s.rename.intFreeList.InBounds
  decoded : s.decode.decUop.InBounds
  renamed : s.rename.renamedUop.InBounds
  queue : s.issue.aluIq.InBounds
  issued : s.issue.issuedUop.InBounds
  result : s.execute.aluResult.uop.InBounds
  rob : s.rob.InBounds
  lsu : s.lsu.InBounds

namespace MicroOp.InBounds

variable {uop uop' : MicroOp}

/-- `MicroOp()` has every index at zero. -/
theorem default : MicroOp.InBounds {} := by
  constructor <;> decide

/-- Only the registers and the entry index of a uop matter. -/
theorem congr (h : uop.InBounds) (hrename : uop'.rename = uop.rename)
    (hqueue : uop'.queue = uop.queue) : uop'.InBounds := by
  constructor <;> simp only [hrename, hqueue, h.ldst, h.lrs1, h.lrs2, h.pdst, h.prs1, h.prs2,
    h.stalePdst, h.robIdx]

theorem decodeInst (pc : BitVec 64) (inst : BitVec 32) : (decodeInst pc inst).InBounds := by
  have hspec := decodeInst_spec pc inst
  have hfields : (decodeFields pc inst).InBounds := by
    constructor
    case ldst => exact regField_lt inst 7
    case lrs1 => exact regField_lt inst 15
    case lrs2 => exact regField_lt inst 20
    all_goals exact Nat.zero_lt_succ _
  constructor
  case robIdx =>
    rw [hspec.queue]
    exact hfields.robIdx
  all_goals rw [hspec.rename]
  · exact hfields.ldst
  · exact hfields.lrs1
  · exact hfields.lrs2
  · exact hfields.pdst
  · exact hfields.prs1
  · exact hfields.prs2
  · exact hfields.stalePdst

end MicroOp.InBounds

/-- The state after reset. -/
theorem inBounds_init : BoomCoreState.InBounds {} := by
  have hzero : AllCells logicalRegCount (· < intPhysRegs) fun _ ↦ 0 := AllCells.const (by decide)
  have huop := MicroOp.InBounds.default
  refine ⟨⟨hzero, hzero⟩, ⟨fun i hi ↦ hi, ?_, ?_, ?_⟩, huop, huop, ⟨AllCells.const huop, ?_, ?_⟩,
    huop, huop, ⟨AllCells.const huop, ?_, ?_⟩, ⟨?_, ?_, ?_, ?_, ?_⟩⟩ <;> decide

section Modules

variable {s : BoomCoreState} {pipe : PipeSignals}

/-! ### The load/store unit -/

namespace BoomCoreState.InBounds

/-- Overwrite an entry by one whose uop is in range. -/
theorem setEntry (h : s.InBounds) (i : ℕ) {entry : RobEntry} (hentry : entry.uop.InBounds) :
    (s.setEntry i entry).InBounds :=
  { h with rob := { h.rob with entries := h.rob.entries.update i hentry } }

theorem resolved (h : s.InBounds) : (resolved s).InBounds := by
  rw [resolved_eq]
  exact { h with }

/-- A response changes the exception of the uop only. -/
theorem complete {entry : RobEntry} (h : entry.uop.InBounds) (resp : DmemResponse) :
    (entry.complete resp).uop.InBounds := by
  unfold RobEntry.complete
  split_ifs <;> exact h.congr rfl rfl

theorem completeLoad (h : s.InBounds) (resp : DmemResponse) : (completeLoad s resp).InBounds := by
  have hentry := complete (h.rob.entries _ h.lsu.pendingLoadRobIdx) resp
  unfold BoomCore.completeLoad
  dsimp only
  by_cases hawaits : (s.rob.entries s.lsu.pendingLoadRobIdx).awaitsResponse = true
  · rw [if_pos hawaits]
    exact { h.setEntry s.lsu.pendingLoadRobIdx hentry with }
  · rw [if_neg hawaits]
    exact h

theorem handleResponse (h : s.InBounds) (resp : DmemResponse) :
    (handleResponse s resp).InBounds := by
  unfold BoomCore.handleResponse
  split_ifs
  · have hdone := h.completeLoad resp
    exact { hdone with lsu := { hdone.lsu with } }
  · exact h

theorem takeDmemResponse (h : s.InBounds) (pipe : PipeSignals) :
    (takeDmemResponse s pipe).1.InBounds := by
  unfold BoomCore.takeDmemResponse
  split
  · exact h
  · exact h.handleResponse _

theorem pushStore {lsu : LsuState} (h : lsu.InBounds) (r : AluResult) :
    (lsu.pushStore r).InBounds := by
  unfold LsuState.pushStore
  split_ifs with hroom
  · exact { h with stqTail := Nat.mod_lt _ (by decide), stqCount := hroom }
  · exact h

theorem pushLoad {lsu : LsuState} (h : lsu.InBounds) (r : AluResult) :
    (lsu.pushLoad r).InBounds := by
  unfold LsuState.pushLoad
  split_ifs with hroom
  · exact { h with ldqTail := Nat.mod_lt _ (by decide), ldqCount := hroom }
  · exact h

theorem enqueueResult (h : s.InBounds) : (enqueueResult s).InBounds := by
  have hentry := h.rob.entries _ h.result.robIdx
  unfold BoomCore.enqueueResult
  dsimp only
  split_ifs
  · have hstore : ((s.rob.entries s.execute.aluResult.uop.queue.robIdx).asStore
        s.execute.aluResult).uop.InBounds := hentry
    exact { h.setEntry _ hstore with lsu := pushStore h.lsu _ }
  · have hload : ((s.rob.entries s.execute.aluResult.uop.queue.robIdx).asLoad
        s.execute.aluResult).uop.InBounds := hentry
    exact { h.setEntry _ hload with lsu := pushLoad h.lsu _ }
  · exact h
  · exact h

/-- Assumes: the index of the tried entry is in range. -/
theorem tryIssueLoad (h : s.InBounds) (pipe : PipeSignals) {i : ℕ} (hi : i < robDepth) :
    (tryIssueLoad s pipe i).1.InBounds := by
  unfold BoomCore.tryIssueLoad
  dsimp only
  split_ifs
  · have hsent : ((s.rob.entries i).sent s.lsu.nextTransactionId).uop.InBounds :=
      h.rob.entries i hi
    exact { h.setEntry i hsent with lsu := { h.lsu with pendingLoadRobIdx := hi } }
  · exact h

theorem issueLoadsFrom (h : s.InBounds) (pipe : PipeSignals) (fuel i : ℕ) :
    (issueLoadsFrom s pipe fuel i).1.InBounds := by
  induction fuel generalizing s pipe i with
  | zero => exact h
  | succ fuel ih =>
    have hslot : (s.rob.head + i) % robDepth < robDepth := Nat.mod_lt _ (by decide)
    have htried := h.tryIssueLoad pipe hslot
    unfold BoomCore.issueLoadsFrom
    dsimp only
    split_ifs
    · exact htried
    · exact ih htried _ _

theorem lsuModule (h : s.InBounds) (pipe : PipeSignals) : (lsuModule s pipe).1.InBounds := by
  have hclear : s.lsu.clearQueues.InBounds :=
    ⟨Nat.zero_lt_succ _, Nat.zero_lt_succ _, Nat.zero_le _, Nat.zero_lt_succ _, Nat.zero_le _⟩
  unfold BoomCore.lsuModule
  split_ifs
  · exact { h with lsu := hclear }
  · exact ((h.takeDmemResponse pipe).enqueueResult).issueLoadsFrom _ _ _

/-! ### The frontend and the decoder -/

theorem frontendModule (h : s.InBounds) (pipe : PipeSignals) :
    (frontendModule s pipe).1.InBounds := by
  unfold BoomCore.frontendModule
  dsimp only
  split_ifs <;> exact { h with }

theorem decodeModule (h : s.InBounds) : (decodeModule s).InBounds := by
  unfold BoomCore.decodeModule
  split_ifs
  · exact { h with }
  · exact { h with decoded := MicroOp.InBounds.decodeInst _ _ }

/-! ### Renaming -/

/-- A register that is popped is in range, and so is the rest of the list. -/
theorem pop {fl : RenameFreeListState} (h : fl.InBounds) : fl.pop.InBounds :=
  { h with head := Nat.mod_lt _ (by decide), count := Nat.le_trans (Nat.sub_le _ _) h.count }

theorem push {fl : RenameFreeListState} (h : fl.InBounds) {preg : ℕ} (hpreg : preg < intPhysRegs)
    (hroom : fl.count < intPhysRegs) : (fl.push preg).InBounds :=
  { freeList := h.freeList.update _ hpreg
    head := h.head
    tail := Nat.mod_lt _ (by decide)
    count := hroom }

theorem restore {mt : RenameMapTableState} (h : mt.InBounds) : mt.restore.InBounds :=
  ⟨h.committedMapTable, h.committedMapTable⟩

theorem renameSources {uop : MicroOp} {mt : RenameMapTableState} (h : uop.InBounds)
    (hmt : mt.InBounds) : (uop.renameSources mt.mapTable).InBounds :=
  { h with
    prs1 := hmt.mapTable _ h.lrs1
    prs2 := hmt.mapTable _ h.lrs2
    stalePdst := hmt.mapTable _ h.ldst }

/-- The renamed uop is in range, and so are the tables that it leaves: a register enters the map
table from the free list. -/
theorem renameUop {uop : MicroOp} {mt : RenameMapTableState} {fl : RenameFreeListState}
    (h : uop.InBounds) (hmt : mt.InBounds) (hfl : fl.InBounds) :
    (renameUop uop mt fl).1.InBounds ∧ (renameUop uop mt fl).2.1.InBounds ∧
      (renameUop uop mt fl).2.2.InBounds := by
  have hsources := renameSources h hmt
  have hfront : fl.front < intPhysRegs := hfl.freeList _ hfl.head
  unfold BoomCore.renameUop
  dsimp only
  split_ifs
  · exact ⟨{ hsources with pdst := hfront }, { hmt with mapTable := hmt.mapTable.update _ hfront },
      pop hfl⟩
  · exact ⟨hsources, hmt, hfl⟩
  · exact ⟨{ hsources with pdst := Nat.zero_lt_succ _, ldst := Nat.zero_lt_succ _ }, hmt, hfl⟩

theorem renameModule (h : s.InBounds) : (renameModule s).InBounds := by
  have huop := MicroOp.InBounds.default
  unfold BoomCore.renameModule
  dsimp only
  split_ifs
  · exact { h with renamed := huop }
  · obtain ⟨hrenamed, hmt, hfl⟩ := renameUop h.decoded (restore h.mapTable) h.freeList
    exact { h with renamed := hrenamed, mapTable := hmt, freeList := hfl }
  · obtain ⟨hrenamed, hmt, hfl⟩ := renameUop h.decoded h.mapTable h.freeList
    exact { h with renamed := hrenamed, mapTable := hmt, freeList := hfl }
  · exact { h with renamed := huop, mapTable := restore h.mapTable }
  · exact { h with renamed := huop }

theorem robAllocate (h : s.InBounds) : (robAllocate s).InBounds := by
  have huop : (s.rename.renamedUop.atRob s.rob.tail).InBounds :=
    { h.renamed with robIdx := h.rob.tail }
  have hwake : s.rob.wake.InBounds := { h.rob with }
  unfold BoomCore.robAllocate
  dsimp only
  split_ifs
  · exact { h with rob := hwake }
  · exact { h with rob := hwake }
  · exact { h with rob := hwake }
  · have hrob : (s.rob.wake.allocate s.rename.renamedUop).InBounds :=
      { entries := hwake.entries.update _ huop
        head := h.rob.head
        tail := Nat.mod_lt _ (by decide) }
    exact { h with renamed := huop, rob := hrob }

/-! ### The issue queue and execution -/

theorem dispatch {iq : IssueQueueState} {ren : RenameState} (h : iq.InBounds)
    (hren : ren.renamedUop.InBounds) : (iq.dispatch ren).InBounds := by
  unfold IssueQueueState.dispatch
  split_ifs with hroom
  · simp only [Bool.and_eq_true, decide_eq_true_eq] at hroom
    exact ⟨h.entries.update _ hren, Nat.mod_lt _ (by decide), hroom.1.2⟩
  · exact h

/-- Every slot of the compacted queue is one of the queue or the empty one. -/
theorem compact {iq : IssueQueueState} (h : iq.InBounds) : iq.compact.InBounds := by
  have hremaining : ∀ slot ∈ iq.remaining, slot.uop.InBounds := by
    intro slot hslot
    obtain ⟨i, hi, rfl⟩ := List.mem_map.mp (List.mem_filter.mp hslot |>.1)
    exact h.entries i (List.mem_range.mp hi)
  refine ⟨fun i _ ↦ ?_, Nat.mod_lt _ (by decide), ?_⟩
  · show (iq.remaining.getD i {}).uop.InBounds
    rw [List.getD_eq_getElem?_getD]
    cases hget : iq.remaining[i]? with
    | none => exact MicroOp.InBounds.default
    | some slot => exact hremaining slot (List.mem_of_getElem? hget)
  · have hlength := List.length_filter_le (fun slot ↦ slot.valid && !slot.granted)
      ((List.range issueQueueAluDepth).map iq.entries)
    rw [List.length_map, List.length_range] at hlength
    exact hlength

/-- Assumes: the granted slot exists. -/
theorem grant {iq : IssueQueueState} (h : iq.InBounds) {i : ℕ} (hi : i < issueQueueAluDepth) :
    (iq.grant i).InBounds :=
  { h with entries := h.entries.update i (h.entries i hi) }

theorem issueModule (h : s.InBounds) : (issueModule s).InBounds := by
  have huop := MicroOp.InBounds.default
  have hqueue := dispatch h.queue h.renamed
  unfold BoomCore.issueModule
  split_ifs
  · exact { h with queue := ⟨h.queue.entries, Nat.zero_lt_succ _, Nat.zero_le _⟩, issued := huop }
  · dsimp only
    split
    · exact { h with queue := compact hqueue, issued := huop }
    · next i hselect =>
      have hi : i < issueQueueAluDepth := List.mem_range.mp (List.mem_of_find?_eq_some hselect)
      exact { h with queue := compact (grant hqueue hi), issued := hqueue.entries i hi }

theorem executeModule (h : s.InBounds) : (executeModule s).InBounds := by
  unfold BoomCore.executeModule
  split_ifs
  · exact { h with result := h.issued }
  · exact { h with result := MicroOp.InBounds.default }

/-! ### Commit -/

theorem markComplete {rob : RobInternalState} (h : rob.InBounds) (r : AluResult) :
    (rob.markComplete r).InBounds := by
  unfold RobInternalState.markComplete
  dsimp only
  split_ifs with hentry
  · simp only [Bool.and_eq_true, decide_eq_true_eq] at hentry
    exact { h with entries := h.entries.update _ (h.entries _ hentry.1.2) }
  · exact h

theorem flush {rob : RobInternalState} (h : rob.InBounds) : rob.flush.InBounds := by
  refine ⟨fun i hi ↦ ?_, Nat.zero_lt_succ _, Nat.zero_lt_succ _⟩
  unfold RobInternalState.flush
  dsimp only
  split_ifs
  · exact h.entries i hi
  · exact h.entries i hi

theorem popHead {rob : RobInternalState} (h : rob.InBounds) : rob.popHead.InBounds :=
  { entries := h.entries.update _ (h.entries _ h.head)
    head := Nat.mod_lt _ (by decide)
    tail := h.tail }

/-- Commit moves the destination of the uop to the committed table and the register that it replaces
to the free list. -/
theorem commitDst {ren : RenameState} {uop : MicroOp} (hmt : ren.intMapTable.InBounds)
    (hfl : ren.intFreeList.InBounds) (huop : uop.InBounds) :
    (ren.commitDst uop).intMapTable.InBounds ∧ (ren.commitDst uop).intFreeList.InBounds := by
  have hcommitted := hmt.committedMapTable.update uop.rename.ldst huop.pdst
  unfold RenameState.commitDst
  split_ifs with hpdst hstale
  · exact ⟨{ hmt with committedMapTable := hcommitted }, push hfl hstale.2.1 hstale.2.2⟩
  · exact ⟨{ hmt with committedMapTable := hcommitted }, hfl⟩
  · exact ⟨hmt, hfl⟩

theorem retire (h : s.InBounds) (pipe : PipeSignals) {he : RobEntry} (hhe : he.uop.InBounds) :
    (retire s pipe he).1.InBounds := by
  obtain ⟨hmt, hfl⟩ := commitDst h.mapTable h.freeList hhe
  have hrenamed : (s.rename.commitDst he.uop).renamedUop.InBounds := by
    unfold RenameState.commitDst
    split_ifs <;> exact h.renamed
  exact { h with
    mapTable := hmt, freeList := hfl, renamed := hrenamed, rob := { popHead h.rob with } }

theorem commitException (h : s.InBounds) (he : RobEntry) : (commitException s he).InBounds := by
  unfold BoomCore.commitException
  dsimp only
  split_ifs
  · exact { h with rob := popHead h.rob }
  · exact { h with rob := { h.rob with } }

theorem sendStore (h : s.InBounds) (pipe : PipeSignals) {he : RobEntry} (hhe : he.uop.InBounds) :
    (sendStore s pipe he).1.InBounds := by
  have hsent :
      (RobEntry.uop { he with memoryRequestSent := true, memoryCompleted := true }).InBounds :=
    hhe
  exact { h.setEntry s.rob.head hsent with lsu := { h.lsu with } }

theorem commitStage (h : s.InBounds) (pipe : PipeSignals) : (commitStage s pipe).1.InBounds := by
  have huop := h.rob.entries _ h.rob.head
  rcases commitStage_cases s pipe with heq | heq | heq | ⟨-, -, heq⟩ <;> rw [heq]
  · exact h
  · exact h.commitException _
  · exact h.retire pipe huop
  · exact (h.sendStore pipe huop).retire _ huop

/-- The state after the completion loop. -/
theorem marked (h : s.InBounds) :
    BoomCoreState.InBounds { s with
      rob := RobInternalState.markComplete { s.rob with commitValid := false }
        s.execute.aluResult } := by
  have hrob : RobInternalState.InBounds { s.rob with commitValid := false } := { h.rob with }
  exact { h with rob := markComplete hrob _ }

theorem robCommitModule (h : s.InBounds) (pipe : PipeSignals) :
    (robCommitModule s pipe).1.InBounds := by
  have hrob : RobInternalState.InBounds { s.rob with commitValid := false } := { h.rob with }
  unfold BoomCore.robCommitModule
  dsimp only
  split_ifs
  · exact { h with rob := flush hrob }
  · exact h.marked.commitStage pipe

end BoomCoreState.InBounds

end Modules

end BoomCore
