import BoomCore.Model.Checked
import BoomCore.Proof.Bounds

/-!
# The checked accesses succeed

In a state whose indices are in range, the functions with checked accesses have a result, and it is
that of the model (`checked_boomCoreStep`). The counters of the loops stay in range by themselves:
`w` and `ri` never pass the loop index, and `issued` stops at one.
-/

set_option autoImplicit false
set_option relaxedAutoImplicit false

namespace BoomCore

open CheckedArray

section

variable {s : BoomCoreState}

/-! ### The load/store unit -/

theorem checked_olderStoreFrom (entries : CArray RobEntry) (robIdx fuel : ℕ) {idx : ℕ}
    (hidx : idx < robDepth) :
    Checked.olderStoreFrom entries robIdx fuel idx =
      some (olderStoreFrom entries robIdx fuel idx) := by
  induction fuel generalizing idx with
  | zero => rfl
  | succ fuel ih =>
    unfold Checked.olderStoreFrom olderStoreFrom
    rw [readCell_of_lt hidx, ih (Nat.mod_lt _ (by decide))]
    simp only [Option.bind_eq_bind, Option.bind_some]
    split_ifs <;> rfl

theorem checked_setEntry (s : BoomCoreState) {i : ℕ} (hi : i < robDepth) (entry : RobEntry) :
    Checked.setEntry s i entry = some (s.setEntry i entry) := by
  unfold Checked.setEntry
  rw [writeCell_of_lt hi]
  rfl

theorem checked_tryIssueLoad (hhead : s.rob.head < robDepth) (pipe : PipeSignals) {i : ℕ}
    (hi : i < robDepth) : Checked.tryIssueLoad s pipe i = some (tryIssueLoad s pipe i) := by
  simp only [Checked.tryIssueLoad, readCell_of_lt hi, checked_olderStoreFrom _ _ _ hhead,
    checked_setEntry s hi, Option.bind_eq_bind, Option.bind_some]
  unfold tryIssueLoad canIssueLoad olderStoreInRob
  dsimp only
  rw [Bool.and_assoc _ (!olderStoreFrom _ _ _ _)]
  split_ifs with hentry hfree hboth hboth hboth
  · rfl
  · exact absurd (Bool.and_eq_true_iff.mpr ⟨hentry, hfree⟩) hboth
  · exact absurd (Bool.and_eq_true_iff.mp hboth).2 hfree
  · rfl
  · exact absurd (Bool.and_eq_true_iff.mp hboth).1 hentry
  · rfl

theorem checked_issueLoadsFrom (h : s.InBounds) (pipe : PipeSignals) (fuel i : ℕ) :
    Checked.issueLoadsFrom s pipe fuel i = some (issueLoadsFrom s pipe fuel i) := by
  induction fuel generalizing s pipe i with
  | zero => rfl
  | succ fuel ih =>
    have hslot : (s.rob.head + i) % robDepth < robDepth := Nat.mod_lt _ (by decide)
    unfold Checked.issueLoadsFrom issueLoadsFrom
    rw [checked_tryIssueLoad h.rob.head pipe hslot]
    simp only [Option.bind_eq_bind, Option.bind_some]
    rw [ih (h.tryIssueLoad pipe hslot)]
    split_ifs <;> rfl

theorem checked_pushStore {lsu : LsuState} (h : lsu.InBounds) (r : AluResult) :
    Checked.pushStore lsu r = some (lsu.pushStore r) := by
  unfold Checked.pushStore LsuState.pushStore
  rw [writeCell_of_lt h.stqTail]
  split_ifs <;> rfl

theorem checked_pushLoad {lsu : LsuState} (h : lsu.InBounds) (r : AluResult) :
    Checked.pushLoad lsu r = some (lsu.pushLoad r) := by
  unfold Checked.pushLoad LsuState.pushLoad
  rw [writeCell_of_lt h.ldqTail]
  split_ifs <;> rfl

theorem checked_completeLoad (h : s.InBounds) (resp : DmemResponse) :
    Checked.completeLoad s resp = some (completeLoad s resp) := by
  have hi := h.lsu.pendingLoadRobIdx
  have hpdst := (h.rob.entries _ hi).pdst
  simp only [Checked.completeLoad, readCell_of_lt hi, writeCell_of_lt hpdst, checked_setEntry s hi,
    Option.bind_eq_bind, Option.bind_some]
  unfold completeLoad
  dsimp only
  split_ifs <;> rfl

theorem checked_handleResponse (h : s.InBounds) (resp : DmemResponse) :
    Checked.handleResponse s resp = some (handleResponse s resp) := by
  unfold Checked.handleResponse handleResponse
  rw [checked_completeLoad h]
  split_ifs <;> rfl

theorem checked_takeDmemResponse (h : s.InBounds) (pipe : PipeSignals) :
    Checked.takeDmemResponse s pipe = some (takeDmemResponse s pipe) := by
  unfold Checked.takeDmemResponse takeDmemResponse
  cases pipe.dmemResp.read with
  | none => rfl
  | some taken =>
    simp only [checked_handleResponse h]
    rfl

theorem checked_enqueueResult (h : s.InBounds) :
    Checked.enqueueResult s = some (enqueueResult s) := by
  have hi := h.result.robIdx
  simp only [Checked.enqueueResult, readCell_of_lt hi, checked_setEntry s hi,
    checked_pushStore h.lsu, checked_pushLoad h.lsu, Option.bind_eq_bind, Option.bind_some]
  unfold enqueueResult
  dsimp only
  by_cases hresult : (s.execute.aluResult.valid && s.execute.aluResult.memoryValid &&
      decide (s.execute.aluResult.uop.queue.robIdx < robDepth)) = true
  · rw [if_pos hresult, hresult, Bool.true_and]
    split_ifs <;> rfl
  · rw [if_neg hresult, if_neg fun hall ↦ hresult (Bool.and_eq_true_iff.mp hall).1]

theorem checked_lsuModule (h : s.InBounds) (pipe : PipeSignals) :
    Checked.lsuModule s pipe = some (lsuModule s pipe) := by
  have htaken := h.takeDmemResponse pipe
  unfold Checked.lsuModule lsuModule
  rw [checked_takeDmemResponse h]
  simp only [Option.bind_eq_bind, Option.bind_some]
  rw [checked_enqueueResult htaken]
  simp only [Option.bind_some]
  rw [checked_issueLoadsFrom htaken.enqueueResult]
  split_ifs <;> rfl

/-! ### Renaming and allocation -/

theorem checked_pop {fl : RenameFreeListState} (h : fl.InBounds) (hcount : 0 < fl.count) :
    Checked.pop fl = some (fl.front, fl.pop) := by
  simp only [Checked.pop, readCell_of_lt h.head, writeCell_of_lt (h.freeList _ h.head),
    if_pos hcount, Option.bind_eq_bind, Option.bind_some]
  rfl

theorem checked_renameUop {uop : MicroOp} {mt : RenameMapTableState} {fl : RenameFreeListState}
    (h : uop.InBounds) (hfl : fl.InBounds) :
    Checked.renameUop uop mt fl = some (renameUop uop mt fl) := by
  simp only [Checked.renameUop, readCell_of_lt h.lrs1, readCell_of_lt h.lrs2,
    readCell_of_lt h.ldst, writeCell_of_lt h.ldst, Option.bind_eq_bind, Option.bind_some]
  unfold renameUop MicroOp.renameSources
  dsimp only
  split_ifs with hdst hcount
  · rw [checked_pop hfl hcount]
    rfl
  · rfl
  · rfl

theorem checked_renameModule (h : s.InBounds) :
    Checked.renameModule s = some (renameModule s) := by
  unfold Checked.renameModule renameModule
  dsimp only
  rw [checked_renameUop h.decoded h.freeList]
  split_ifs <;> rfl

theorem checked_robAllocate (h : s.InBounds) : Checked.robAllocate s = some (robAllocate s) := by
  have hallocate : Checked.allocate s.rob.wake s.rename.renamedUop =
      some (s.rob.wake.allocate s.rename.renamedUop) := by
    have htail : s.rob.wake.tail < robDepth := h.rob.tail
    unfold Checked.allocate
    rw [writeCell_of_lt htail]
    rfl
  unfold Checked.robAllocate robAllocate
  dsimp only
  rw [hallocate]
  split_ifs <;> rfl

/-! ### The issue queue -/

theorem checked_dispatch {iq : IssueQueueState} (h : iq.InBounds) (ren : RenameState) :
    Checked.dispatch iq ren = some (iq.dispatch ren) := by
  unfold Checked.dispatch IssueQueueState.dispatch
  rw [writeCell_of_lt h.tail]
  split_ifs <;> rfl

/-- Once a uop is issued the selection loop stops. -/
theorem checked_selectFrom_issued (fuel i : ℕ) (entries : CArray IssueSlotEntry)
    (lanes : Checked.Lanes) :
    Checked.selectFrom fuel i 1 entries lanes = some (entries, lanes) := by
  cases fuel with
  | zero => rfl
  | succ fuel => rfl

/-- The lanes when the first one has issued `uop`. -/
def Checked.Lanes.first (uop : MicroOp) : Checked.Lanes :=
  { uops := Function.update (fun _ ↦ {}) 0 uop, valids := Function.update (fun _ ↦ false) 0 true }

/-- The selection loop grants the first slot that is ready. -/
theorem checked_selectFrom (iq : IssueQueueState) {fuel i : ℕ}
    (hle : i + fuel ≤ issueQueueAluDepth) :
    Checked.selectFrom fuel i 0 iq.entries {} =
      some (match (List.range' i fuel).find? fun j ↦ (iq.entries j).ready with
        | none => (iq.entries, {})
        | some j => ((iq.grant j).entries, Checked.Lanes.first (iq.entries j).uop)) := by
  induction fuel generalizing i with
  | zero => rfl
  | succ fuel ih =>
    have hi : i < issueQueueAluDepth := by omega
    unfold Checked.selectFrom
    rw [if_pos (by decide), List.range'_succ, readCell_of_lt hi]
    simp only [Option.bind_eq_bind, Option.bind_some, List.find?_cons]
    cases hready : (iq.entries i).ready with
    | true =>
      rw [if_pos rfl, writeCell_of_lt hi, writeCell_of_lt (by decide), writeCell_of_lt (by decide)]
      simp only [Option.bind_some]
      rw [checked_selectFrom_issued]
      rfl
    | false =>
      rw [if_neg Bool.false_ne_true]
      exact ih (by omega)

/-- The slots from `i` on, `fuel` of them, that stay. -/
def keptFrom (entries : CArray IssueSlotEntry) (i fuel : ℕ) : List IssueSlotEntry :=
  ((List.range' i fuel).map entries).filter fun s ↦ s.valid && !s.granted

/-- The compaction loop appends the slots that stay to those that `temp` holds, of which there are
no more than slots before. -/
theorem checked_compactFrom (entries : CArray IssueSlotEntry) {fuel i : ℕ} (l : List IssueSlotEntry)
    (hl : l.length ≤ i) (hle : i + fuel ≤ issueQueueAluDepth) :
    Checked.compactFrom entries fuel i l.length (fun j ↦ l.getD j {}) =
      some (fun j ↦ (l ++ keptFrom entries i fuel).getD j {},
        (l ++ keptFrom entries i fuel).length) := by
  induction fuel generalizing i l with
  | zero =>
    show some _ = _
    rw [show keptFrom entries i 0 = [] from rfl, List.append_nil]
  | succ fuel ih =>
    have hi : i < issueQueueAluDepth := by omega
    unfold Checked.compactFrom keptFrom
    rw [List.range'_succ, List.map_cons, readCell_of_lt hi, List.filter_cons]
    simp only [Option.bind_eq_bind, Option.bind_some]
    cases hkeep : ((entries i).valid && !(entries i).granted) with
    | true =>
      have hnext := ih (i := i + 1) (l ++ [entries i]) (by simpa using hl) (by omega)
      rw [if_pos rfl, if_pos rfl, writeCell_of_lt (by omega), update_getD_length]
      rw [List.length_append, List.length_singleton, List.append_assoc, List.singleton_append]
        at hnext
      exact hnext
    | false =>
      rw [if_neg Bool.false_ne_true, if_neg Bool.false_ne_true]
      exact ih l (by omega) (by omega)

theorem checked_compact (iq : IssueQueueState) : Checked.compact iq = some iq.compact := by
  have hrun := checked_compactFrom iq.entries [] (Nat.le_refl 0)
    (Nat.le_refl (0 + issueQueueAluDepth))
  have hkept : keptFrom iq.entries 0 issueQueueAluDepth = iq.remaining := by
    unfold keptFrom IssueQueueState.remaining
    rw [List.range_eq_range']
  rw [List.nil_append, hkept, List.length_nil] at hrun
  unfold Checked.compact
  rw [show (fun _ ↦ {} : CArray IssueSlotEntry) = fun j ↦ [].getD j {} from rfl, hrun]
  rfl

/-- The lanes hold the uop that the model keeps, and none but the first is valid. -/
structure Checked.Lanes.Single (lanes : Checked.Lanes) (iss : IssueState) : Prop where
  uop : lanes.uops 0 = iss.issuedUop
  valid : lanes.valids 0 = iss.issuedValid
  rest : ∀ i, i ≠ 0 → lanes.valids i = false

theorem checked_issueModule (h : s.InBounds) :
    ∃ lanes, Checked.issueModule s = some (issueModule s, lanes) ∧
      lanes.Single (issueModule s).issue := by
  unfold Checked.issueModule issueModule
  by_cases hflush : s.globalFlush = true
  · rw [if_pos hflush, if_pos hflush]
    exact ⟨{}, rfl, rfl, rfl, fun _ _ ↦ rfl⟩
  · rw [if_neg hflush, if_neg hflush, checked_dispatch h.queue]
    simp only [Option.bind_eq_bind, Option.bind_some]
    rw [checked_selectFrom _ (Nat.le_refl _), ← List.range_eq_range']
    unfold IssueQueueState.select
    cases (List.range issueQueueAluDepth).find?
        fun j ↦ ((s.issue.aluIq.dispatch s.rename).entries j).ready with
    | none =>
      simp only [Option.bind_some]
      rw [checked_compact]
      exact ⟨{}, rfl, rfl, rfl, fun _ _ ↦ rfl⟩
    | some j =>
      simp only [Option.bind_some]
      rw [checked_compact]
      refine ⟨_, rfl, rfl, rfl, fun i hi ↦ ?_⟩
      exact Function.update_of_ne hi true fun _ ↦ false

/-! ### Execution -/

theorem checked_readOperand (intRf : CArray (BitVec 64)) {prs : ℕ} (hprs : prs < intPhysRegs) :
    Checked.readOperand intRf prs = some (readOperand intRf prs) := by
  unfold Checked.readOperand readOperand
  rw [readCell_of_lt hprs]
  split_ifs <;> rfl

theorem checked_writeBack (intRf : CArray (BitVec 64)) {r : AluResult} (h : r.uop.InBounds) :
    Checked.writeBack intRf r = some (writeBack intRf r) := by
  unfold Checked.writeBack writeBack
  rw [writeCell_of_lt h.pdst]
  split_ifs <;> rfl

/-- Without a valid lane nothing is executed. -/
theorem checked_executeFrom_idle (lanes : Checked.Lanes) {fuel i : ℕ}
    (hle : i + fuel ≤ issueWidth) (hidle : ∀ j, i ≤ j → lanes.valids j = false)
    (results : CArray AluResult) (intRf : CArray (BitVec 64)) :
    Checked.executeFrom lanes fuel i 0 results intRf = some (results, intRf) := by
  induction fuel generalizing i with
  | zero => rfl
  | succ fuel ih =>
    unfold Checked.executeFrom
    rw [if_pos (by decide), readCell_of_lt (by omega), hidle i (Nat.le_refl i)]
    simp only [Option.bind_eq_bind, Option.bind_some]
    rw [if_neg Bool.false_ne_true]
    exact ih (by omega) fun j hj ↦ hidle j (by omega)

theorem checked_executeModule (h : s.InBounds) {lanes : Checked.Lanes}
    (hlanes : lanes.Single s.issue) :
    Checked.executeModule s lanes = some (executeModule s) := by
  have hissued := h.issued
  unfold Checked.executeModule executeModule
  cases hvalid : s.issue.issuedValid with
  | true =>
    unfold Checked.executeFrom
    rw [if_pos (by decide), readCell_of_lt (by decide), readCell_of_lt (by decide), hlanes.valid,
      hlanes.uop, hvalid]
    simp only [Option.bind_eq_bind, Option.bind_some]
    rw [if_pos trivial, if_pos trivial, checked_readOperand _ hissued.prs1,
      checked_readOperand _ hissued.prs2]
    simp only [Option.bind_some]
    rw [writeCell_of_lt (by decide), checked_writeBack _ hissued]
    rfl
  | false =>
    have hidle : ∀ j, 0 ≤ j → lanes.valids j = false := by
      intro j _
      by_cases hj : j = 0
      · rw [hj, hlanes.valid, hvalid]
      · exact hlanes.rest j hj
    rw [checked_executeFrom_idle lanes (by decide) hidle]
    rfl

/-! ### Commit -/

theorem checked_markComplete {rob : RobInternalState} {r : AluResult} (h : r.uop.InBounds) :
    Checked.markComplete rob r = some (rob.markComplete r) := by
  have hi := h.robIdx
  simp only [Checked.markComplete, readCell_of_lt hi, writeCell_of_lt hi, Option.bind_eq_bind,
    Option.bind_some]
  unfold RobInternalState.markComplete
  dsimp only
  by_cases hcompletes : (r.completesInRob && decide (r.uop.queue.robIdx < robDepth)) = true
  · rw [if_pos hcompletes, hcompletes, Bool.true_and]
    split_ifs <;> rfl
  · rw [if_neg hcompletes, if_neg fun hall ↦ hcompletes (Bool.and_eq_true_iff.mp hall).1]

theorem checked_popHead {rob : RobInternalState} (h : rob.InBounds) :
    Checked.popHead rob = some rob.popHead := by
  simp only [Checked.popHead, readCell_of_lt h.head, writeCell_of_lt h.head, Option.bind_eq_bind,
    Option.bind_some]
  rfl

theorem checked_commitException (h : s.InBounds) (he : RobEntry) :
    Checked.commitException s he = some (commitException s he) := by
  have ha0 : 10 < logicalRegCount := by decide
  unfold Checked.commitException commitException
  rw [readCell_of_lt ha0, checked_popHead h.rob]
  simp only [Option.bind_eq_bind, Option.bind_some]
  rw [checked_readOperand _ (h.mapTable.mapTable 10 ha0)]
  simp only [Option.bind_some]
  split_ifs <;> rfl

theorem checked_push {fl : RenameFreeListState} (h : fl.InBounds) {preg : ℕ}
    (hpreg : preg < intPhysRegs) (hroom : fl.count < intPhysRegs) :
    Checked.push fl preg = some (fl.push preg) := by
  simp only [Checked.push, writeCell_of_lt hpreg, writeCell_of_lt h.tail, if_pos hroom,
    Option.bind_eq_bind, Option.bind_some]
  rfl

theorem checked_commitDst {ren : RenameState} {uop : MicroOp} (hfl : ren.intFreeList.InBounds)
    (huop : uop.InBounds) : Checked.commitDst ren uop = some (ren.commitDst uop) := by
  unfold Checked.commitDst RenameState.commitDst
  rw [writeCell_of_lt huop.ldst]
  simp only [Option.bind_eq_bind, Option.bind_some]
  split_ifs with hpdst hstale
  · rw [checked_push hfl hstale.2.1 hstale.2.2]
    rfl
  · rfl
  · rfl

theorem checked_retire (h : s.InBounds) (pipe : PipeSignals) {he : RobEntry}
    (hhe : he.uop.InBounds) : Checked.retire s pipe he = some (retire s pipe he) := by
  have hrecord : Checked.commitRecord s he = some (commitRecord s he) := by
    unfold Checked.commitRecord commitRecord
    rw [readCell_of_lt hhe.pdst]
    split_ifs <;> rfl
  simp only [Checked.retire, hrecord, checked_commitDst h.freeList hhe, checked_popHead h.rob,
    Option.bind_eq_bind, Option.bind_some]
  rfl

theorem checked_commitHead (h : s.InBounds) (pipe : PipeSignals) {he : RobEntry}
    (hhe : he.uop.InBounds) : Checked.commitHead s pipe he = some (commitHead s pipe he) := by
  have hsend : Checked.sendStore s pipe he = some (sendStore s pipe he) := by
    unfold Checked.sendStore
    rw [checked_setEntry s h.rob.head]
    rfl
  have hsent : RobEntry.uop { he with memoryRequestSent := true, memoryCompleted := true }
      |>.InBounds := hhe
  have hstate := h.sendStore pipe hhe
  unfold Checked.commitHead commitHead
  rw [checked_retire h pipe hhe, hsend]
  simp only [Option.bind_eq_bind, Option.bind_some]
  rw [checked_retire hstate _ hsent]
  split_ifs <;> rfl

theorem checked_commitStage (h : s.InBounds) (pipe : PipeSignals) :
    Checked.commitStage s pipe = some (commitStage s pipe) := by
  have huop := h.rob.entries _ h.rob.head
  simp only [Checked.commitStage, readCell_of_lt h.rob.head, checked_commitException h,
    checked_commitHead h pipe huop, Option.bind_eq_bind, Option.bind_some]
  unfold commitStage
  dsimp only
  cases hempty : s.rob.isEmpty with
  | true => rfl
  | false =>
    simp only [Bool.not_false, Bool.true_and, if_true]
    split_ifs <;> rfl

theorem checked_robCommitModule (h : s.InBounds) (pipe : PipeSignals) :
    Checked.robCommitModule s pipe = some (robCommitModule s pipe) := by
  have hrob : RobInternalState.InBounds { s.rob with commitValid := false } := { h.rob with }
  have hmarked := h.marked
  unfold Checked.robCommitModule robCommitModule
  dsimp only
  rw [checked_markComplete h.result]
  simp only [Option.bind_eq_bind, Option.bind_some]
  rw [checked_commitStage hmarked]
  split_ifs <;> rfl

/-! ### A step -/

/-- Assumes: every index of the state is in range. Every access of a step is inside of its array,
and the step is that of the model. -/
theorem checked_boomCoreStep (h : s.InBounds) (pipe : PipeSignals) :
    Checked.boomCoreStep s pipe = some (boomCoreStep s pipe) := by
  have hmemory := h.resolved.lsuModule pipe
  have hfetched := hmemory.frontendModule (lsuModule (resolved s) pipe).2
  have hrenamed := hfetched.decodeModule.renameModule
  have hissued := hrenamed.robAllocate.issueModule
  obtain ⟨lanes, hissue, hlanes⟩ := checked_issueModule hrenamed.robAllocate
  unfold Checked.boomCoreStep
  rw [show branchModule (csrModule (clearStep s)) = resolved s from rfl,
    checked_lsuModule h.resolved]
  simp only [Option.bind_eq_bind, Option.bind_some]
  rw [checked_renameModule hfetched.decodeModule]
  simp only [Option.bind_some]
  rw [checked_robAllocate hrenamed]
  simp only [Option.bind_some]
  rw [hissue]
  simp only [Option.bind_some]
  rw [checked_executeModule hissued hlanes]
  simp only [Option.bind_some]
  exact checked_robCommitModule hissued.executeModule _

end

end BoomCore
