import BoomCore.Proof.Frame
import BoomCore.Proof.Window

/-!
# Memory operations in the window

The three blocks of `lsu_module`, each as one change of one instruction of the window: a response
completes the load that waits for it (`handleResponse_window`), the memory operation of the previous
step is recorded (`enqueueResult_window`), and at most one load request is sent
(`issueLoads_window`), for a load that no store of the window precedes. None of them changes which
instructions are in the window.
-/

set_option autoImplicit false
set_option relaxedAutoImplicit false

namespace BoomCore

open Ring

/-! ### The age scan and the issue loop -/

/-- A scan that finds no store passes every position up to the entry it looks for. -/
theorem olderStoreFrom_false {entries : CArray RobEntry} {head k : ℕ} (hk : k < robDepth) :
    ∀ {fuel i : ℕ}, k < i + fuel →
      olderStoreFrom entries (slot robDepth head k) fuel (slot robDepth head i) = false →
      ∀ j, i ≤ j → j < k →
        ((entries (slot robDepth head j)).valid &&
          (entries (slot robDepth head j)).uop.ctrl.isSta) = false := by
  intro fuel
  induction fuel with
  | zero =>
    intro i hfuel _ j hij hjk
    omega
  | succ fuel ih =>
    intro i hfuel hscan j hij hjk
    have hne : slot robDepth head i ≠ slot robDepth head k := fun heq ↦ by
      have hsame := (Ring.slot_inj (by omega) hk).mp heq
      omega
    unfold olderStoreFrom at hscan
    rw [if_neg hne] at hscan
    split_ifs at hscan with hstore
    rcases Nat.eq_or_lt_of_le hij with heq | hlt
    · rw [← heq]
      simpa using hstore
    · rw [slot_succ] at hscan
      exact ih (by omega) hscan j hlt hjk

/-- The issue loop leaves everything alone or sends exactly one load. -/
theorem issueLoadsFrom_cases (s : BoomCoreState) (pipe : PipeSignals) (fuel i : ℕ) :
    issueLoadsFrom s pipe fuel i = (s, pipe) ∨
      ∃ j < robDepth, canIssueLoad s pipe j = true ∧
        issueLoadsFrom s pipe fuel i = tryIssueLoad s pipe j := by
  induction fuel generalizing i with
  | zero => exact Or.inl rfl
  | succ fuel ih =>
    have hlt : (s.rob.head + i) % robDepth < robDepth := Nat.mod_lt _ (by decide)
    unfold issueLoadsFrom
    by_cases hcan : canIssueLoad s pipe ((s.rob.head + i) % robDepth) = true
    · refine Or.inr ⟨_, hlt, hcan, ?_⟩
      have hpending : (tryIssueLoad s pipe
          ((s.rob.head + i) % robDepth)).1.lsu.loadResponsePending = true := by
        unfold tryIssueLoad
        rw [if_pos hcan]
      simp only [hpending, if_true]
    · have htry : tryIssueLoad s pipe ((s.rob.head + i) % robDepth) = (s, pipe) := by
        unfold tryIssueLoad
        rw [if_neg hcan]
      simp only [htry]
      split_ifs
      · exact Or.inl rfl
      · exact ih (i + 1)

/-! ### The invariant -/

/-- What the load/store unit keeps about the loads of the window `w`. -/
structure LsuInv (s : BoomCoreState) (w : List Inflight) : Prop where
  idx_lt : s.lsu.pendingLoadRobIdx < robDepth
  outstanding : s.lsu.loadResponsePending = true →
    (s.rob.entries s.lsu.pendingLoadRobIdx).awaitsResponse = true →
      (s.rob.entries s.lsu.pendingLoadRobIdx).memoryCompleted = false
  inFlight : ∀ i < robDepth, (s.rob.entries i).awaitsResponse = true →
    (s.rob.entries i).memoryCompleted = false →
      s.lsu.loadResponsePending = true ∧ s.lsu.pendingLoadRobIdx = i ∧
        (s.rob.entries i).memoryTransactionId = s.lsu.pendingLoadTransactionId
  ordered : ∀ k (_ : k < w.length),
    (s.rob.entries (slot robDepth s.rob.head k)).awaitsResponse = true →
      ∀ j (_ : j < k), w[j].result.uop.ctrl.isSta = false

/-- Between two steps: the buffer holds the window, and the load/store unit is in order. -/
structure WindowInv (s : BoomCoreState) (w : List Inflight) : Prop where
  rob : RobInv s.rob w
  lsu : LsuInv s w

/-- Every memory operation of the window has been recorded by the load/store unit. -/
def Settled (s : BoomCoreState) (w : List Inflight) : Prop :=
  ∀ k (_ : k < w.length), w[k].result.memoryValid = true →
    (s.rob.entries (slot robDepth s.rob.head k)).memoryValid = true

theorem Settled.memoryValid {s : BoomCoreState} {w : List Inflight} (h : Settled s w)
    (hrob : RobInv s.rob w) {d : Inflight} (hd : d ∈ w) (hmemory : d.result.memoryValid = true) :
    (s.rob.entries d.cell).memoryValid = true := by
  obtain ⟨k, hk, rfl⟩ := List.getElem_of_mem hd
  rw [Inflight.cell, (hrob.entryOf hk).robIdx]
  exact h k hk hmemory

/-- The memory operation of the previous step is the last instruction of the window and as it was
dispatched; every other memory operation has been recorded. -/
structure Handed (s : BoomCoreState) (w : List Inflight) : Prop where
  last : s.execute.aluResult.valid = true → s.execute.aluResult.memoryValid = true →
    ∃ w' d, w = w' ++ [d] ∧ d.result = s.execute.aluResult ∧
      s.rob.entries (slot robDepth s.rob.head w'.length) = d.result.entry
  settled : ∀ k (_ : k < w.length), w[k].result.memoryValid = true →
    (k + 1 = w.length ∧ s.execute.aluResult.valid = true ∧
        s.execute.aluResult.memoryValid = true) ∨
      (s.rob.entries (slot robDepth s.rob.head k)).memoryValid = true

theorem windowInv_init : WindowInv {} [] := by
  refine ⟨robInv_init, by decide, ?_, ?_, ?_⟩
  · intro hpending
    exact absurd hpending (by simp)
  · intro i _ hawaits
    simp [RobEntry.awaitsResponse] at hawaits
  · intro k hk
    exact absurd hk (Nat.not_lt_zero k)

theorem handed_init : Handed {} [] := by
  refine ⟨fun hvalid ↦ ?_, fun k hk ↦ ?_⟩
  · simp at hvalid
  · exact absurd hk (Nat.not_lt_zero k)

/-! ### The response -/

@[simp] theorem RobEntry.complete_awaits (e : RobEntry) (resp : DmemResponse) :
    (e.complete resp).awaitsResponse = e.awaitsResponse := by
  unfold complete awaitsResponse
  split_ifs <;> rfl

@[simp] theorem RobEntry.complete_completed (e : RobEntry) (resp : DmemResponse) :
    (e.complete resp).memoryCompleted = true := by
  unfold complete
  split_ifs <;> rfl

@[simp] theorem RobEntry.complete_memoryValid (e : RobEntry) (resp : DmemResponse) :
    (e.complete resp).memoryValid = e.memoryValid := by
  unfold complete
  split_ifs <;> rfl

theorem RobEntry.complete_exception (e : RobEntry) (resp : DmemResponse) :
    (e.complete resp).exception = (resp.exception || e.exception) := by
  unfold complete
  split_ifs with hexc <;> simp [hexc]

/-- The response is for a load of the window. -/
def BoomCoreState.answers (s : BoomCoreState) (resp : DmemResponse) : Bool :=
  s.lsu.matchesPending resp && (s.rob.entries s.lsu.pendingLoadRobIdx).awaitsResponse

/-- A response that answers a load completes its entry and writes its register. -/
theorem handleResponse_of_answers {s : BoomCoreState} {resp : DmemResponse}
    (h : s.answers resp = true) :
    handleResponse s resp =
      let i := s.lsu.pendingLoadRobIdx
      let entry := s.rob.entries i
      { s with
        rob := { s.rob with entries := Function.update s.rob.entries i (entry.complete resp) }
        intRf :=
          if !resp.exception && decide (entry.uop.rename.pdst ≠ 0) then
            Function.update s.intRf entry.uop.rename.pdst (entry.responseValue resp)
          else s.intRf
        lsu := { s.lsu with loadResponsePending := false, pendingLoadTransactionId := 0 } } := by
  unfold BoomCoreState.answers at h
  rw [Bool.and_eq_true] at h
  unfold handleResponse completeLoad
  rw [if_pos h.1]
  dsimp only
  rw [if_pos h.2]
  rfl

/-- A response that answers no load changes nothing, but a matching one still ends the wait. -/
theorem handleResponse_of_not_answers {s : BoomCoreState} {resp : DmemResponse}
    (h : s.answers resp = false) :
    handleResponse s resp =
      if s.lsu.matchesPending resp then
        { s with
          lsu := { s.lsu with loadResponsePending := false, pendingLoadTransactionId := 0 } }
      else s := by
  unfold BoomCoreState.answers at h
  unfold handleResponse completeLoad
  by_cases hmatch : s.lsu.matchesPending resp = true
  · rw [hmatch, Bool.true_and] at h
    rw [if_pos hmatch, if_pos hmatch]
    dsimp only
    rw [h, if_neg Bool.false_ne_true]
  · rw [if_neg hmatch, if_neg hmatch]

section Response

variable {s : BoomCoreState} {w : List Inflight} (h : WindowInv s w) {resp : DmemResponse}

include h

/-- The load that a response answers: its position in the window, and its entry, for which no
response has come before. -/
theorem WindowInv.answered_load (hanswers : s.answers resp = true) :
    ∃ k, ∃ hk : k < w.length, slot robDepth s.rob.head k = s.lsu.pendingLoadRobIdx ∧
      w[k].result.isLoad = true ∧
      ∃ tx, s.rob.entries s.lsu.pendingLoadRobIdx =
        (w[k].result.entry.asLoad w[k].result).sent tx := by
  unfold BoomCoreState.answers LsuState.matchesPending at hanswers
  simp only [Bool.and_eq_true] at hanswers
  obtain ⟨⟨hpending, -⟩, hawaits⟩ := hanswers
  have hopen := h.lsu.outstanding hpending hawaits
  have hvalid : (s.rob.entries s.lsu.pendingLoadRobIdx).valid = true := by
    unfold RobEntry.awaitsResponse at hawaits
    simp only [Bool.and_eq_true] at hawaits
    exact hawaits.1.1
  obtain ⟨k, hk, hslot⟩ := h.rob.of_valid h.lsu.idx_lt hvalid
  have hstage := (h.rob.entryOf hk).stage
  rw [hslot] at hstage
  obtain ⟨hload, ⟨tx, hentry⟩ | ⟨tx, resp', hentry⟩⟩ := hstage.awaits hawaits
  · exact ⟨k, hk, hslot, hload, tx, hentry⟩
  · rw [hentry] at hopen
    simp at hopen

theorem WindowInv.handleResponse : WindowInv (handleResponse s resp) w := by
  by_cases hanswers : s.answers resp = true
  · obtain ⟨k, hk, hslot, hload, tx, hentry⟩ := h.answered_load hanswers
    rw [handleResponse_of_answers hanswers]
    dsimp only
    refine ⟨?_, h.lsu.idx_lt, ?_, ?_, ?_⟩
    · rw [← hslot, hslot, hentry, ← hslot]
      exact h.rob.update hk (.answered hload tx resp)
    · intro hpending
      simp at hpending
    · intro i hi hawaits hopen
      by_cases hidx : i = s.lsu.pendingLoadRobIdx
      · simp [hidx] at hopen
      · simp only [Function.update_of_ne hidx] at hawaits hopen
        exact absurd (h.lsu.inFlight i hi hawaits hopen).2.1.symm hidx
    · intro j hj hawaits
      refine h.lsu.ordered j hj ?_
      by_cases hidx : slot robDepth s.rob.head j = s.lsu.pendingLoadRobIdx
      · simpa [hidx] using hawaits
      · simpa [Function.update_of_ne hidx] using hawaits
  · rw [handleResponse_of_not_answers (by simpa using hanswers)]
    split_ifs with hmatch
    · refine ⟨h.rob, h.lsu.idx_lt, ?_, ?_, h.lsu.ordered⟩
      · intro hpending
        simp at hpending
      · intro i hi hawaits hopen
        obtain ⟨-, hidx, -⟩ := h.lsu.inFlight i hi hawaits hopen
        have hnot : s.answers resp = true := by
          unfold BoomCoreState.answers
          rw [hmatch, hidx, Bool.true_and]
          exact hawaits
        exact absurd hnot hanswers
    · exact h

omit h in
/-- A response leaves what was executed but not recorded as it is. -/
theorem Handed.handleResponse (hhanded : Handed s w) : Handed (handleResponse s resp) w := by
  by_cases hanswers : s.answers resp = true
  · have hawaits : (s.rob.entries s.lsu.pendingLoadRobIdx).awaitsResponse = true := by
      unfold BoomCoreState.answers at hanswers
      rw [Bool.and_eq_true] at hanswers
      exact hanswers.2
    rw [handleResponse_of_answers hanswers]
    refine ⟨fun hvalid hmemory ↦ ?_, fun k hk hmemory ↦ ?_⟩
    · obtain ⟨w', d, hw, hd, hentry⟩ := hhanded.last hvalid hmemory
      refine ⟨w', d, hw, hd, ?_⟩
      have hne : slot robDepth s.rob.head w'.length ≠ s.lsu.pendingLoadRobIdx := by
        intro heq
        rw [← heq, hentry] at hawaits
        simp [RobEntry.awaitsResponse, AluResult.entry] at hawaits
      dsimp only
      rw [Function.update_of_ne hne]
      exact hentry
    · rcases hhanded.settled k hk hmemory with hlast | hold
      · exact Or.inl hlast
      · refine Or.inr ?_
        dsimp only
        by_cases hidx : slot robDepth s.rob.head k = s.lsu.pendingLoadRobIdx
        · rw [hidx, Function.update_self, RobEntry.complete_memoryValid, ← hidx]
          exact hold
        · rw [Function.update_of_ne hidx]
          exact hold
  · rw [handleResponse_of_not_answers (by simpa using hanswers)]
    split_ifs
    · exact ⟨hhanded.last, hhanded.settled⟩
    · exact hhanded

end Response

/-! ### The record of the previous result -/

/-- The entry of a memory operation once the load/store unit has recorded it. -/
def AluResult.recorded (r : AluResult) : RobEntry :=
  if r.isStore then r.entry.asStore r else r.entry.asLoad r

theorem DispatchedSpec.recorded_stage {r : AluResult} (h : DispatchedSpec r)
    (hmemory : r.memoryValid = true) : Stage r r.recorded := by
  rw [h.memoryValid] at hmemory
  unfold AluResult.recorded
  split_ifs with hstore
  · exact .stored hstore
  · exact .queued (by simpa [hstore] using hmemory)

@[simp] theorem AluResult.recorded_awaits (r : AluResult) :
    r.recorded.awaitsResponse = false := by
  unfold recorded
  split_ifs <;>
    simp [RobEntry.awaitsResponse, RobEntry.asStore, RobEntry.asLoad, AluResult.entry]

@[simp] theorem AluResult.entry_awaits (r : AluResult) : r.entry.awaitsResponse = false := by
  simp [RobEntry.awaitsResponse, entry]

@[simp] theorem AluResult.recorded_memoryValid (r : AluResult) :
    r.recorded.memoryValid = true := by
  unfold recorded
  split_ifs <;> rfl

theorem enqueueResult_of_none {s : BoomCoreState}
    (h : (s.execute.aluResult.valid && s.execute.aluResult.memoryValid) = false) :
    enqueueResult s = s := by
  unfold enqueueResult
  simp [h]

section Enqueue

variable {s : BoomCoreState} {w : List Inflight} (h : WindowInv s w) (hhanded : Handed s w)

include h hhanded

/-- The memory operation of the previous step is recorded in the last entry of the window, and in
its queue. Nothing else changes. -/
theorem enqueueResult_of_memory
    (hmemory : (s.execute.aluResult.valid && s.execute.aluResult.memoryValid) = true) :
    ∃ w' d, w = w' ++ [d] ∧ d.result = s.execute.aluResult ∧
      s.rob.entries (slot robDepth s.rob.head w'.length) = d.result.entry ∧
      ∃ lsu, enqueueResult s =
        { s with
          rob := { s.rob with
            entries := Function.update s.rob.entries (slot robDepth s.rob.head w'.length)
              d.result.recorded }
          lsu := lsu } ∧
        lsu.loadResponsePending = s.lsu.loadResponsePending ∧
        lsu.pendingLoadTransactionId = s.lsu.pendingLoadTransactionId ∧
        lsu.pendingLoadRobIdx = s.lsu.pendingLoadRobIdx ∧
        lsu.nextTransactionId = s.lsu.nextTransactionId ∧
        lsu = if d.result.isStore then s.lsu.pushStore d.result else s.lsu.pushLoad d.result := by
  have hboth := hmemory
  rw [Bool.and_eq_true] at hboth
  obtain ⟨w', d, rfl, hd, hentry⟩ := hhanded.last hboth.1 hboth.2
  have hk : w'.length < (w' ++ [d]).length := by simp
  have hof := h.rob.entryOf hk
  rw [List.getElem_concat_length rfl] at hof
  have hidx : s.execute.aluResult.uop.queue.robIdx = slot robDepth s.rob.head w'.length := by
    rw [← hd]
    exact hof.robIdx
  have hlt : slot robDepth s.rob.head w'.length < robDepth := slot_lt (by decide) _
  have hkind := hof.dispatched.memoryValid
  rw [hd, hboth.2] at hkind
  refine ⟨w', d, rfl, hd, hentry, ?_⟩
  unfold enqueueResult
  dsimp only
  rw [hmemory, hidx, decide_eq_true hlt, hof.stage.valid, hentry, hd]
  by_cases hstore : s.execute.aluResult.isStore = true
  · refine ⟨s.lsu.pushStore s.execute.aluResult, ?_, ?_⟩
    · simp [hstore, AluResult.recorded, BoomCoreState.setEntry]
    · rw [if_pos hstore]
      unfold LsuState.pushStore
      split_ifs <;> exact ⟨rfl, rfl, rfl, rfl, rfl⟩
  · have hload : s.execute.aluResult.isLoad = true := by simpa [hstore] using hkind.symm
    refine ⟨s.lsu.pushLoad s.execute.aluResult, ?_, ?_⟩
    · simp [hstore, hload, AluResult.recorded, BoomCoreState.setEntry]
    · rw [if_neg hstore]
      unfold LsuState.pushLoad
      split_ifs <;> exact ⟨rfl, rfl, rfl, rfl, rfl⟩

theorem WindowInv.enqueueResult : WindowInv (enqueueResult s) w := by
  by_cases hmemory : (s.execute.aluResult.valid && s.execute.aluResult.memoryValid) = true
  · obtain ⟨w', d, hw, hd, hentry, lsu, heq, hpending, htx, hidx, -⟩ :=
      enqueueResult_of_memory h hhanded hmemory
    have hk : w'.length < w.length := by simp [hw]
    have hlast : w[w'.length] = d := by simp [hw]
    have hof := h.rob.entryOf hk
    rw [hlast] at hof
    rw [Bool.and_eq_true] at hmemory
    -- The entry accepts no response, neither before nor after it is recorded.
    have hawaits : ∀ i, (Function.update s.rob.entries (slot robDepth s.rob.head w'.length)
        d.result.recorded i).awaitsResponse = true →
        i ≠ slot robDepth s.rob.head w'.length := by
      intro i hi heq'
      rw [heq', Function.update_self, AluResult.recorded_awaits] at hi
      simp at hi
    rw [heq]
    refine ⟨?_, by rw [hidx]; exact h.lsu.idx_lt, ?_, ?_, ?_⟩
    · refine h.rob.update hk ?_
      rw [hlast]
      exact hof.dispatched.recorded_stage (by rw [hd]; exact hmemory.2)
    · dsimp only
      rw [hpending, hidx]
      intro hpend haw
      have hne := hawaits _ haw
      rw [Function.update_of_ne hne] at haw ⊢
      exact h.lsu.outstanding hpend haw
    · intro i hi haw hopen
      dsimp only at haw hopen ⊢
      have hne := hawaits _ haw
      rw [Function.update_of_ne hne] at haw hopen ⊢
      rw [hpending, htx, hidx]
      exact h.lsu.inFlight i hi haw hopen
    · intro k hk' haw
      dsimp only at haw
      have hne := hawaits _ haw
      rw [Function.update_of_ne hne] at haw
      exact h.lsu.ordered k hk' haw
  · rw [enqueueResult_of_none (by simpa using hmemory)]
    exact h

theorem enqueueResult_settled : Settled (enqueueResult s) w := by
  intro k hk hmem
  by_cases hmemory : (s.execute.aluResult.valid && s.execute.aluResult.memoryValid) = true
  · obtain ⟨w', d, hw, hd, hentry, lsu, heq, -⟩ := enqueueResult_of_memory h hhanded hmemory
    rw [heq]
    dsimp only
    by_cases hlast : k = w'.length
    · rw [hlast, Function.update_self]
      exact AluResult.recorded_memoryValid _
    · have hne : slot robDepth s.rob.head k ≠ slot robDepth s.rob.head w'.length := fun heq' ↦
        hlast ((h.rob.slot_inj hk (by simp [hw])).mp heq')
      rw [Function.update_of_ne hne]
      rcases hhanded.settled k hk hmem with ⟨hend, -, -⟩ | hold
      · exact absurd hend (by simp [hw]; omega)
      · exact hold
  · rw [enqueueResult_of_none (by simpa using hmemory)]
    rcases hhanded.settled k hk hmem with ⟨-, hvalid, hmemory'⟩ | hold
    · simp [hvalid, hmemory'] at hmemory
    · exact hold

end Enqueue

/-! ### The load request -/

section Issue

variable {s : BoomCoreState} {w : List Inflight} (h : WindowInv s w) {pipe : PipeSignals}

include h

/-- The load that is sent: no load is outstanding, no store of the window is older, and the stream
has room. -/
theorem WindowInv.issued_load {j : ℕ} (hj : j < robDepth) (hcan : canIssueLoad s pipe j = true) :
    ∃ k, ∃ hk : k < w.length, slot robDepth s.rob.head k = j ∧ w[k].result.isLoad = true ∧
      s.rob.entries j = w[k].result.entry.asLoad w[k].result ∧
      s.lsu.loadResponsePending = false ∧ pipe.dmemReq.full = false ∧
      ∀ i (_ : i < k), w[i].result.uop.ctrl.isSta = false := by
  unfold canIssueLoad at hcan
  simp only [Bool.and_eq_true, Bool.not_eq_true'] at hcan
  obtain ⟨⟨⟨⟨⟨⟨hvalid, hload⟩, hmemory⟩, hsent⟩, hpending⟩, hscan⟩, hfull⟩ := hcan
  obtain ⟨k, hk, hslot⟩ := h.rob.of_valid hj hvalid
  refine ⟨k, hk, hslot, ?_⟩
  have hstage := (h.rob.entryOf hk).stage
  rw [hslot] at hstage
  have horder : ∀ i (_ : i < k), w[i].result.uop.ctrl.isSta = false := by
    intro i hi
    unfold olderStoreInRob at hscan
    have hkdepth : k < robDepth := hk.trans_le h.rob.length_le
    have hzero : s.rob.head = slot robDepth s.rob.head 0 := (slot_zero h.rob.head_lt).symm
    rw [← hslot] at hscan
    nth_rewrite 2 [hzero] at hscan
    have hnone := olderStoreFrom_false hkdepth (by omega) hscan i (Nat.zero_le i) hi
    have hof := h.rob.entryOf (hi.trans hk)
    rw [hof.stage.valid, Bool.true_and, hof.stage.ctrl] at hnone
    exact hnone
  generalize s.rob.entries j = e at *
  cases hstage with
  | executed => simp [AluResult.entry] at hload
  | stored hstore => simp [RobEntry.asStore] at hload
  | queued hqueued => exact ⟨hqueued, rfl, hpending, hfull, horder⟩
  | sent hload' tx => simp [RobEntry.sent] at hsent
  | answered hload' tx resp =>
    unfold RobEntry.complete at hsent
    split_ifs at hsent <;> simp [RobEntry.sent] at hsent

omit h in
/-- The state after a load request went out: the entry remembers the transaction, which is the
outstanding one. -/
theorem tryIssueLoad_of_can {j : ℕ} (hcan : canIssueLoad s pipe j = true) :
    tryIssueLoad s pipe j =
      ({ s with
          rob := { s.rob with
            entries := Function.update s.rob.entries j
              ((s.rob.entries j).sent s.lsu.nextTransactionId) }
          lsu := { s.lsu with
            nextTransactionId := s.lsu.nextTransactionId + 1, loadResponsePending := true
            pendingLoadTransactionId := s.lsu.nextTransactionId, pendingLoadRobIdx := j } },
        { pipe with
          dmemReq :=
            pipe.dmemReq.write (loadRequest (s.rob.entries j) j s.lsu.nextTransactionId) }) := by
  unfold tryIssueLoad
  rw [if_pos hcan]
  rfl

theorem WindowInv.tryIssueLoad {j : ℕ} (hj : j < robDepth) (hcan : canIssueLoad s pipe j = true) :
    WindowInv (tryIssueLoad s pipe j).1 w := by
  obtain ⟨k, hk, hslot, hload, hentry, hpending, -, horder⟩ := h.issued_load hj hcan
  rw [tryIssueLoad_of_can hcan]
  refine ⟨?_, hj, ?_, ?_, ?_⟩
  · rw [← hslot, hslot, hentry, ← hslot]
    exact h.rob.update hk (.sent hload _)
  · intro _ _
    dsimp only
    rw [Function.update_self, hentry]
    rfl
  · intro i hi hawaits hopen
    dsimp only at hawaits hopen ⊢
    by_cases hidx : i = j
    · subst hidx
      rw [Function.update_self]
      exact ⟨rfl, rfl, rfl⟩
    · rw [Function.update_of_ne hidx] at hawaits hopen
      have hcontra := (h.lsu.inFlight i hi hawaits hopen).1
      rw [hpending] at hcontra
      simp at hcontra
  · intro k' hk' hawaits i hi
    dsimp only at hawaits
    by_cases hidx : slot robDepth s.rob.head k' = j
    · have hkk : k' = k := (h.rob.slot_inj hk' hk).mp (hidx.trans hslot.symm)
      exact horder i (hkk ▸ hi)
    · rw [Function.update_of_ne hidx] at hawaits
      exact h.lsu.ordered k' hk' hawaits i hi

omit h in
theorem Settled.tryIssueLoad (hsettled : Settled s w) {j : ℕ}
    (hcan : canIssueLoad s pipe j = true) : Settled (tryIssueLoad s pipe j).1 w := by
  intro k hk hmemory
  have hold := hsettled k hk hmemory
  rw [tryIssueLoad_of_can hcan]
  dsimp only
  by_cases hidx : slot robDepth s.rob.head k = j
  · rw [hidx, Function.update_self, ← hidx]
    exact hold
  · rw [Function.update_of_ne hidx]
    exact hold

end Issue

/-! ### The unit as a whole -/

section Module

variable {s : BoomCoreState} {w : List Inflight}

/-- The state after the response of a step. -/
def BoomCoreState.afterResponse (s : BoomCoreState) (resp : Option DmemResponse) : BoomCoreState :=
  match resp with
  | none => s
  | some resp => handleResponse s resp

theorem takeDmemResponse_eq (s : BoomCoreState) (pipe : PipeSignals) :
    (takeDmemResponse s pipe).1 = s.afterResponse pipe.dmemResp.q.head? ∧
      (takeDmemResponse s pipe).2.dmemReq = pipe.dmemReq := by
  unfold takeDmemResponse Stream.read BoomCoreState.afterResponse
  cases hq : pipe.dmemResp.q with
  | nil => exact ⟨rfl, rfl⟩
  | cons resp rest => exact ⟨rfl, rfl⟩

theorem WindowInv.afterResponse (h : WindowInv s w) (resp : Option DmemResponse) :
    WindowInv (s.afterResponse resp) w := by
  cases resp with
  | none => exact h
  | some resp => exact h.handleResponse

theorem Handed.afterResponse (h : Handed s w) (resp : Option DmemResponse) :
    Handed (s.afterResponse resp) w := by
  cases resp with
  | none => exact h
  | some resp => exact h.handleResponse

/-- The load/store unit on a window: the response, the record of the previous result, and at most
one load request. -/
theorem lsuModule_eq (hflush : s.globalFlush = false) (pipe : PipeSignals) :
    lsuModule s pipe =
      issueLoadsFrom (enqueueResult (s.afterResponse pipe.dmemResp.q.head?))
        (takeDmemResponse s pipe).2 robDepth 0 := by
  unfold lsuModule
  rw [hflush, if_neg Bool.false_ne_true]
  dsimp only
  rw [(takeDmemResponse_eq s pipe).1]

theorem lsuModule_window (h : WindowInv s w) (hhanded : Handed s w)
    (hflush : s.globalFlush = false) (pipe : PipeSignals) :
    WindowInv (lsuModule s pipe).1 w ∧ Settled (lsuModule s pipe).1 w := by
  have hresp := h.afterResponse pipe.dmemResp.q.head?
  have hhanded' := hhanded.afterResponse pipe.dmemResp.q.head?
  have hrecord := hresp.enqueueResult hhanded'
  have hsettled := enqueueResult_settled hresp hhanded'
  rw [lsuModule_eq hflush]
  rcases issueLoadsFrom_cases (enqueueResult (s.afterResponse pipe.dmemResp.q.head?))
    (takeDmemResponse s pipe).2 robDepth 0 with heq | ⟨j, hj, hcan, heq⟩
  · rw [heq]
    exact ⟨hrecord, hsettled⟩
  · rw [heq]
    exact ⟨hrecord.tryIssueLoad hj hcan, hsettled.tryIssueLoad hcan⟩

/-- A load that has no response yet keeps its entry busy. -/
theorem DispatchedSpec.entry_busy {r : AluResult} (h : DispatchedSpec r)
    (hmemory : r.memoryValid = true) : r.entry.busy = true := by
  have hcompletes := h.completes
  rw [h.memoryValid, h.load, h.store] at hmemory
  unfold AluResult.entry
  dsimp only
  rw [hcompletes]
  cases hload : r.uop.ctrl.isLoad <;> cases hstore : r.uop.ctrl.isSta <;> simp_all

theorem DispatchedSpec.entry_busy_of_load {r : AluResult} (h : DispatchedSpec r)
    (hload : r.isLoad = true) : r.entry.busy = true :=
  h.entry_busy (by rw [h.memoryValid, hload, Bool.true_or])

/-- A response leaves an entry that is complete alone. -/
theorem WindowInv.afterResponse_entry (h : WindowInv s w) (resp : Option DmemResponse) {i : ℕ}
    (hbusy : (s.rob.entries i).busy = false) :
    (s.afterResponse resp).rob.entries i = s.rob.entries i := by
  cases resp with
  | none => rfl
  | some resp =>
    show (BoomCore.handleResponse s resp).rob.entries i = s.rob.entries i
    by_cases hanswers : s.answers resp = true
    · obtain ⟨k, hk, hslot, hload, tx, hentry⟩ := h.answered_load hanswers
      have hspec := (h.rob.entryOf hk).dispatched
      have hne : i ≠ s.lsu.pendingLoadRobIdx := by
        rintro rfl
        rw [hentry] at hbusy
        rw [show ((w[k].result.entry.asLoad w[k].result).sent tx).busy =
          w[k].result.entry.busy from rfl, hspec.entry_busy_of_load hload] at hbusy
        simp at hbusy
      rw [handleResponse_of_answers hanswers]
      exact Function.update_of_ne hne _ _
    · rw [handleResponse_of_not_answers (by simpa using hanswers)]
      split_ifs <;> rfl

/-- Recording the previous result leaves an entry that is complete alone. -/
theorem enqueueResult_entry (h : WindowInv s w) (hhanded : Handed s w) {i : ℕ}
    (hbusy : (s.rob.entries i).busy = false) :
    (enqueueResult s).rob.entries i = s.rob.entries i := by
  by_cases hmemory : (s.execute.aluResult.valid && s.execute.aluResult.memoryValid) = true
  · obtain ⟨w', d, hw, hd, hentry, lsu, heq, -⟩ := enqueueResult_of_memory h hhanded hmemory
    have hk : w'.length < w.length := by simp [hw]
    have hof := h.rob.entryOf hk
    have hlast : w[w'.length] = d := by simp [hw]
    rw [hlast] at hof
    rw [Bool.and_eq_true] at hmemory
    have hne : i ≠ slot robDepth s.rob.head w'.length := by
      rintro rfl
      rw [hentry, hof.dispatched.entry_busy (by rw [hd]; exact hmemory.2)] at hbusy
      simp at hbusy
    rw [heq]
    exact Function.update_of_ne hne _ _
  · rw [enqueueResult_of_none (by simpa using hmemory)]

/-- The load that is sent is not complete. -/
theorem WindowInv.issued_ne (h : WindowInv s w) {pipe : PipeSignals} {i j : ℕ} (hj : j < robDepth)
    (hcan : canIssueLoad s pipe j = true) (hbusy : (s.rob.entries i).busy = false) : i ≠ j := by
  obtain ⟨k, hk, hslot, hload, hentry, -⟩ := h.issued_load hj hcan
  rintro rfl
  rw [hentry] at hbusy
  rw [show (w[k].result.entry.asLoad w[k].result).busy = w[k].result.entry.busy from rfl,
    (h.rob.entryOf hk).dispatched.entry_busy_of_load hload] at hbusy
  simp at hbusy

/-- What follows the response leaves an entry that is complete alone. -/
theorem lsuModule_entry_of_answered (h : WindowInv s w) (hhanded : Handed s w)
    (hflush : s.globalFlush = false) (pipe : PipeSignals) {i : ℕ}
    (hbusy : ((s.afterResponse pipe.dmemResp.q.head?).rob.entries i).busy = false) :
    (lsuModule s pipe).1.rob.entries i =
      (s.afterResponse pipe.dmemResp.q.head?).rob.entries i := by
  have hresp := h.afterResponse pipe.dmemResp.q.head?
  have hhanded' := hhanded.afterResponse pipe.dmemResp.q.head?
  have hrecord := enqueueResult_entry hresp hhanded' hbusy
  rw [lsuModule_eq hflush, ← hrecord]
  rcases issueLoadsFrom_cases (enqueueResult (s.afterResponse pipe.dmemResp.q.head?))
    (takeDmemResponse s pipe).2 robDepth 0 with heq | ⟨j, hj, hcan, heq⟩
  · rw [heq]
  · rw [heq, tryIssueLoad_of_can hcan]
    refine Function.update_of_ne ?_ _ _
    exact (hresp.enqueueResult hhanded').issued_ne hj hcan (by rw [hrecord]; exact hbusy)

/-- The load/store unit does not touch an entry that is complete. -/
theorem lsuModule_entry_of_not_busy (h : WindowInv s w) (hhanded : Handed s w)
    (hflush : s.globalFlush = false) (pipe : PipeSignals) {i : ℕ}
    (hbusy : (s.rob.entries i).busy = false) :
    (lsuModule s pipe).1.rob.entries i = s.rob.entries i := by
  have hfirst := h.afterResponse_entry pipe.dmemResp.q.head? hbusy
  rw [lsuModule_entry_of_answered h hhanded hflush pipe (by rw [hfirst]; exact hbusy), hfirst]

end Module

/-- The load/store unit sends loads only. -/
theorem lsuModule_requests {s : BoomCoreState} (hflush : s.globalFlush = false)
    (pipe : PipeSignals) :
    (lsuModule s pipe).2.dmemReq = pipe.dmemReq ∨
      ∃ entry i tx, (lsuModule s pipe).2.dmemReq =
        pipe.dmemReq.write (loadRequest entry i tx) := by
  rw [lsuModule_eq hflush]
  rcases issueLoadsFrom_cases (enqueueResult (s.afterResponse pipe.dmemResp.q.head?))
    (takeDmemResponse s pipe).2 robDepth 0 with heq | ⟨j, -, hcan, heq⟩
  · rw [heq]
    exact Or.inl (takeDmemResponse_eq s pipe).2
  · rw [heq, tryIssueLoad_of_can hcan, ← (takeDmemResponse_eq s pipe).2]
    exact Or.inr ⟨_, _, _, rfl⟩

end BoomCore
