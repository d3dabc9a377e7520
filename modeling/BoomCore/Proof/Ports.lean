import BoomCore.Proof.Commit
import BoomCore.Proof.Dispatch

/-!
# What one step writes, among arbitrary streams

Nothing is assumed here about the responses on the streams. A step writes at most one element to
each output stream (`boomCoreStep_writes`). For `dmem_req` this needs that a recorded store is
always one of a store word (`StoresMarked`): then the age scan of the load/store unit sees a store
at the head, and in the step that sends a load there is none that commit could send.
-/

set_option autoImplicit false
set_option relaxedAutoImplicit false

namespace BoomCore

/-! ### Statements -/

/-- A valid entry that is recorded as a store belongs to a store word. -/
def RobEntry.Marked (e : RobEntry) : Prop :=
  e.valid = true → e.isStore = true → e.uop.ctrl.isSta = true

/-- What the load/store unit relies on between two steps: the issue queue is empty, recorded stores
are of store words, and so is the entry for which the last result is a store. -/
structure StoresMarked (s : BoomCoreState) : Prop where
  queue : s.issue.aluIq = {}
  head_lt : s.rob.head < robDepth
  entries : ∀ i < robDepth, (s.rob.entries i).Marked
  result : s.execute.aluResult.valid = true → s.execute.aluResult.isStore = true →
    s.execute.aluResult.uop.queue.robIdx < robDepth →
      (s.rob.entries s.execute.aluResult.uop.queue.robIdx).valid = true →
        (s.rob.entries s.execute.aluResult.uop.queue.robIdx).uop.ctrl.isSta = true

theorem storesMarked_init : StoresMarked {} := by
  refine ⟨rfl, by decide, fun i _ hvalid ↦ ?_, fun hvalid ↦ ?_⟩ <;> simp at hvalid

/-- A store at the head has been sent. -/
def BoomCoreState.HeadSent (s : BoomCoreState) : Prop :=
  (s.rob.entries s.rob.head).valid = true → (s.rob.entries s.rob.head).uop.ctrl.isSta = true →
    (s.rob.entries s.rob.head).memoryRequestSent = true

/-- The head is a recorded store that has not been sent. -/
structure RobEntry.StoreToSend (e : RobEntry) : Prop where
  valid : e.valid = true
  memoryValid : e.memoryValid = true
  notSent : e.memoryRequestSent = false
  store : e.uop.ctrl.isSta = true ∨ e.isStore = true

/-- The two entries agree on everything that decides whether they are marked. -/
structure RobEntry.SameKind (e e' : RobEntry) : Prop where
  valid : e'.valid = e.valid
  isStore : e'.isStore = e.isStore
  ctrl : e'.uop.ctrl = e.uop.ctrl

theorem RobEntry.SameKind.marked {e e' : RobEntry} (h : e.SameKind e') (hmarked : e.Marked) :
    e'.Marked := by
  unfold Marked at *
  rw [h.valid, h.isStore, h.ctrl]
  exact hmarked

/-! ### The load/store unit -/

section Memory

variable {s : BoomCoreState}

theorem afterResponse_sameKind (resp : Option DmemResponse) (i : ℕ) :
    (s.rob.entries i).SameKind ((s.afterResponse resp).rob.entries i) := by
  cases resp with
  | none => exact ⟨rfl, rfl, rfl⟩
  | some resp =>
    show (s.rob.entries i).SameKind ((handleResponse s resp).rob.entries i)
    by_cases hanswers : s.answers resp = true
    · rw [handleResponse_of_answers hanswers]
      dsimp only
      by_cases hi : i = s.lsu.pendingLoadRobIdx
      · rw [hi, Function.update_self]
        unfold RobEntry.complete
        split_ifs <;> exact ⟨rfl, rfl, rfl⟩
      · rw [Function.update_of_ne hi]
        exact ⟨rfl, rfl, rfl⟩
    · have hrob : (handleResponse s resp).rob = s.rob := by
        rw [handleResponse_of_not_answers (by simpa using hanswers)]
        split_ifs <;> rfl
      rw [hrob]
      exact ⟨rfl, rfl, rfl⟩

/-- The record of the last result keeps every entry marked. -/
theorem enqueueResult_marked (hentries : ∀ i < robDepth, (s.rob.entries i).Marked)
    (hresult : s.execute.aluResult.valid = true → s.execute.aluResult.isStore = true →
      s.execute.aluResult.uop.queue.robIdx < robDepth →
        (s.rob.entries s.execute.aluResult.uop.queue.robIdx).valid = true →
          (s.rob.entries s.execute.aluResult.uop.queue.robIdx).uop.ctrl.isSta = true) :
    ∀ i < robDepth, ((enqueueResult s).rob.entries i).Marked := by
  intro i hi
  unfold enqueueResult
  dsimp only
  split_ifs with htest hstore hload
  · simp only [Bool.and_eq_true, decide_eq_true_eq] at htest
    obtain ⟨⟨⟨hvalid, -⟩, hidx⟩, hentry⟩ := htest
    show RobEntry.Marked (Function.update s.rob.entries _ _ i)
    by_cases hcell : i = s.execute.aluResult.uop.queue.robIdx
    · rw [hcell, Function.update_self]
      exact fun _ _ ↦ hresult hvalid hstore hidx hentry
    · rw [Function.update_of_ne hcell]
      exact hentries i hi
  · show RobEntry.Marked (Function.update s.rob.entries _ _ i)
    by_cases hcell : i = s.execute.aluResult.uop.queue.robIdx
    · rw [hcell, Function.update_self]
      intro _ hcontra
      simp [RobEntry.asLoad] at hcontra
    · rw [Function.update_of_ne hcell]
      exact hentries i hi
  · exact hentries i hi
  · exact hentries i hi

/-- The age scan stops at a store at the head. -/
theorem head_of_not_olderStore {rob : RobInternalState} {j : ℕ} (hne : rob.head ≠ j)
    (hscan : olderStoreInRob rob j = false) :
    ((rob.entries rob.head).valid && (rob.entries rob.head).uop.ctrl.isSta) = false := by
  unfold olderStoreInRob olderStoreFrom at hscan
  rw [if_neg hne] at hscan
  split_ifs at hscan with hstore
  simpa using hstore

/-- A step of the load/store unit keeps every entry marked. It sends nothing, or it sends one load
and leaves no unsent store at the head. -/
theorem StoresMarked.lsuModule (h : StoresMarked s) (hflush : s.globalFlush = false)
    (pipe : PipeSignals) :
    (∀ i < robDepth, ((lsuModule s pipe).1.rob.entries i).Marked) ∧
      ((lsuModule s pipe).2.dmemReq = pipe.dmemReq ∨
        (pipe.dmemReq.full = false ∧ (lsuModule s pipe).1.HeadSent ∧
          ∃ req, (lsuModule s pipe).2.dmemReq = pipe.dmemReq.write req)) := by
  have hdmem := (takeDmemResponse_eq s pipe).2
  have hkind := fun i ↦ afterResponse_sameKind (s := s) pipe.dmemResp.q.head? i
  have hexecute : (s.afterResponse pipe.dmemResp.q.head?).execute = s.execute := by
    rw [← (takeDmemResponse_eq s pipe).1, takeDmemResponse_memoryOnly s pipe]
    rfl
  have hmarked := enqueueResult_marked (s := s.afterResponse pipe.dmemResp.q.head?)
    (fun i hi ↦ (hkind i).marked (h.entries i hi))
    (by rw [hexecute, (hkind _).valid, (hkind _).ctrl]; exact h.result)
  rw [lsuModule_eq hflush]
  generalize enqueueResult (s.afterResponse pipe.dmemResp.q.head?) = r at hmarked
  rcases issueLoadsFrom_cases r (takeDmemResponse s pipe).2 robDepth 0 with
    heq | ⟨j, hj, hcan, heq⟩
  · rw [heq]
    exact ⟨hmarked, Or.inl hdmem⟩
  · rw [heq, tryIssueLoad_of_can hcan]
    unfold canIssueLoad at hcan
    simp only [Bool.and_eq_true, Bool.not_eq_true'] at hcan
    obtain ⟨⟨-, hscan⟩, hfull⟩ := hcan
    refine ⟨fun i hi ↦ ?_, Or.inr ⟨by rw [← hdmem]; exact hfull, ?_, _, by rw [hdmem]⟩⟩
    · show RobEntry.Marked (Function.update r.rob.entries j _ i)
      by_cases hcell : i = j
      · rw [hcell, Function.update_self]
        exact RobEntry.SameKind.marked ⟨rfl, rfl, rfl⟩ (hmarked j hj)
      · rw [Function.update_of_ne hcell]
        exact hmarked i hi
    · unfold BoomCoreState.HeadSent
      dsimp only
      by_cases hhead : r.rob.head = j
      · rw [hhead, Function.update_self]
        exact fun _ _ ↦ rfl
      · rw [Function.update_of_ne hhead]
        intro hvalid hsta
        have hnone := head_of_not_olderStore hhead hscan
        rw [hvalid, hsta] at hnone
        simp at hnone

end Memory

/-! ### The frontend -/

section Fetch

variable (s : BoomCoreState) (pipe : PipeSignals)

/-- The frontend changes itself and the flush flag, and only the instruction streams. -/
theorem frontendModule_frame :
    (frontendModule s pipe).1 =
        { s with
          frontend := (frontendModule s pipe).1.frontend
          globalFlush := (frontendModule s pipe).1.globalFlush } ∧
      (frontendModule s pipe).2.dmemReq = pipe.dmemReq ∧
        (frontendModule s pipe).2.commitTrace = pipe.commitTrace := by
  unfold frontendModule
  dsimp only
  split_ifs <;> exact ⟨rfl, rfl, rfl⟩

theorem frontendModule_globalFlush (hflush : s.globalFlush = false) :
    (frontendModule s pipe).1.globalFlush = false := by
  unfold frontendModule
  dsimp only
  rw [hflush]
  split_ifs <;> rfl

/-- The frontend sends at most one request, and none to a full stream. -/
theorem frontendModule_imemReq :
    (frontendModule s pipe).2.imemReq = pipe.imemReq ∨
      ∃ req, (frontendModule s pipe).2.imemReq = pipe.imemReq.write req := by
  unfold frontendModule frontendFetch FrontendState.sendRequest
  dsimp only
  split_ifs
  · exact Or.inl rfl
  · exact Or.inr ⟨_, rfl⟩
  · exact Or.inl rfl

end Fetch

/-! ### Dispatch -/

section Dispatch

variable {s : BoomCoreState}

/-- A renamed uop is ready to be issued. -/
def RenameState.Ready (ren : RenameState) : Prop :=
  ren.renamedValid = true → ren.renamedUop.iqType ≠ .fpu ∧
    ren.renamedUop.rename.prs1Busy = false ∧ ren.renamedUop.rename.prs2Busy = false

theorem renameModule_ready
    (hdecode : s.decode.decValid = true → s.decode.decUop.iqType ≠ .fpu) :
    (renameModule s).rename.Ready := by
  have hready : s.decode.decValid = true → ∀ mt fl,
      (renameUop s.decode.decUop mt fl).1.iqType ≠ .fpu ∧
        (renameUop s.decode.decUop mt fl).1.rename.prs1Busy = false ∧
          (renameUop s.decode.decUop mt fl).1.rename.prs2Busy = false := fun hvalid mt fl ↦ by
    have hspec := renameUop_spec s.decode.decUop mt fl
    refine ⟨?_, hspec.prs1Busy, hspec.prs2Busy⟩
    rw [renameUop_eq]
    exact hdecode hvalid
  by_cases hflush : s.globalFlush = true
  · unfold renameModule
    rw [if_pos hflush]
    intro hcontra
    simp at hcontra
  · cases hvalid : s.decode.decValid with
    | true =>
      unfold renameModule
      rw [if_neg hflush, if_pos hvalid]
      exact fun _ ↦ hready hvalid _ _
    | false =>
      unfold renameModule
      rw [if_neg hflush, if_neg (by simp [hvalid])]
      intro hcontra
      simp at hcontra

theorem robAllocate_ready (h : s.rename.Ready) : (robAllocate s).rename.Ready := by
  unfold robAllocate
  dsimp only
  split_ifs
  · exact h
  · intro hcontra
    simp at hcontra
  · exact h
  · exact h

theorem renameModule_frame :
    (renameModule s).rob = s.rob ∧ (renameModule s).issue = s.issue ∧
      (renameModule s).brupdate = s.brupdate ∧ (renameModule s).globalFlush = s.globalFlush := by
  unfold renameModule
  dsimp only
  split_ifs <;> exact ⟨rfl, rfl, rfl, rfl⟩

theorem robAllocate_frame :
    (robAllocate s).rob.head = s.rob.head ∧ (robAllocate s).issue = s.issue ∧
      (robAllocate s).brupdate = s.brupdate ∧ (robAllocate s).globalFlush = s.globalFlush := by
  unfold robAllocate
  dsimp only
  split_ifs <;> exact ⟨rfl, rfl, rfl, rfl⟩

theorem issueModule_frame :
    (issueModule s).rob = s.rob ∧ (issueModule s).brupdate = s.brupdate := by
  unfold issueModule
  split_ifs
  · exact ⟨rfl, rfl⟩
  · dsimp only
    split <;> exact ⟨rfl, rfl⟩

theorem executeModule_frame :
    (executeModule s).rob = s.rob ∧ (executeModule s).issue = s.issue ∧
      (executeModule s).brupdate = s.brupdate := by
  unfold executeModule
  split_ifs <;> exact ⟨rfl, rfl, rfl⟩

/-- What `issue_module` gets: the queue is empty, no flush is under way, and a uop that is offered
is ready. -/
theorem robAllocate_renamed (hqueue : s.issue.aluIq = {}) (hflush : s.globalFlush = false) :
    (robAllocate (renameModule (decodeModule s))).issue.aluIq = {} ∧
      (robAllocate (renameModule (decodeModule s))).globalFlush = false ∧
        (robAllocate (renameModule (decodeModule s))).rename.Ready := by
  have hdecode : (decodeModule s).decode.decValid = true →
      (decodeModule s).decode.decUop.iqType ≠ .fpu := by
    unfold decodeModule
    dsimp only
    split_ifs
    · intro hcontra
      simp at hcontra
    · exact fun _ ↦ (decodeInst_spec _ _).iqType
  obtain ⟨-, hrename, -, hrenameFlush⟩ := renameModule_frame (s := decodeModule s)
  obtain ⟨-, hallocate, -, hallocateFlush⟩ := robAllocate_frame (s := renameModule (decodeModule s))
  refine ⟨?_, ?_, robAllocate_ready (renameModule_ready hdecode)⟩
  · rw [hallocate, hrename]
    exact hqueue
  · rw [hallocateFlush, hrenameFlush]
    exact hflush

/-- The issue queue is empty again after the dispatch path, with a redirect or without. -/
theorem dispatchPhase_queue (hqueue : s.issue.aluIq = {}) (hflush : s.globalFlush = false) :
    (dispatchPhase s).issue.aluIq = {} := by
  obtain ⟨hissue, hflush', hready⟩ := robAllocate_renamed hqueue hflush
  unfold dispatchPhase
  rw [executeModule_frame.2.1]
  generalize robAllocate (renameModule (decodeModule s)) = r at *
  cases hvalid : r.rename.renamedValid with
  | false => rw [issueModule_of_not_renamed hissue hflush' hvalid]
  | true =>
    obtain ⟨hiq, hprs1, hprs2⟩ := hready hvalid
    rw [issueModule_of_renamed hissue hflush' hvalid hiq hprs1 hprs2]

/-- The dispatch path moves neither the head nor a redirect. -/
theorem dispatchPhase_frame :
    (dispatchPhase s).rob.head = s.rob.head ∧ (dispatchPhase s).brupdate = s.brupdate := by
  unfold dispatchPhase
  rw [executeModule_frame.1, executeModule_frame.2.2, issueModule_frame.1, issueModule_frame.2,
    robAllocate_frame.1, robAllocate_frame.2.2.1, renameModule_frame.1, renameModule_frame.2.2.1]
  exact ⟨rfl, rfl⟩

/-- Without a redirect the dispatch path executes nothing, or it fills the entry at the tail and
executes its uop. -/
theorem dispatchPhase_cases (hqueue : s.issue.aluIq = {}) (hflush : s.globalFlush = false)
    (hredirect : (s.brupdate.valid && s.brupdate.mispredict) = false) :
    ((dispatchPhase s).rob.entries = s.rob.entries ∧
        (dispatchPhase s).execute.aluResult.valid = false) ∨
      ∃ r, DispatchedSpec r ∧ (dispatchPhase s).execute.aluResult = r ∧
        r.uop.queue.robIdx = s.rob.tail ∧
        (dispatchPhase s).rob.entries = Function.update s.rob.entries s.rob.tail
          { valid := true, busy := true, exception := r.uop.exception, uop := r.uop } := by
  by_cases hpacket : s.frontend.fetchPacketValid = true
  · by_cases hfull : s.rob.isFull = true
    · rw [dispatchPhase_of_full hqueue hflush hpacket hredirect hfull]
      exact Or.inl ⟨rfl, rfl⟩
    · rw [dispatchPhase_of_uop hqueue hflush hpacket hredirect (by simpa using hfull)]
      exact Or.inr ⟨_, dispatchedResult_spec s _ _, rfl, rfl, rfl⟩
  · rw [dispatchPhase_of_none hqueue hflush (by simpa using hpacket)]
    exact Or.inl ⟨rfl, rfl⟩

end Dispatch

/-! ### Commit -/

section Commit

variable (s : BoomCoreState) (pipe : PipeSignals)

/-- The completion loop changes the busy and the exception flag of an entry and nothing else. -/
theorem markComplete_entry (rob : RobInternalState) (r : AluResult) (i : ℕ) :
    ∃ busy exception, (rob.markComplete r).entries i =
      { rob.entries i with busy := busy, exception := exception } := by
  unfold RobInternalState.markComplete
  dsimp only
  split_ifs
  · dsimp only
    by_cases hi : i = r.uop.queue.robIdx
    · rw [hi, Function.update_self]
      exact ⟨_, _, rfl⟩
    · rw [Function.update_of_ne hi]
      exact ⟨_, _, rfl⟩
  · exact ⟨_, _, rfl⟩

theorem markComplete_sameKind (rob : RobInternalState) (r : AluResult) (i : ℕ) :
    (rob.entries i).SameKind ((rob.markComplete r).entries i) := by
  obtain ⟨busy, exception, hentry⟩ := markComplete_entry rob r i
  rw [hentry]
  exact ⟨rfl, rfl, rfl⟩

theorem markComplete_head (rob : RobInternalState) (r : AluResult) :
    (rob.markComplete r).head = rob.head := by
  unfold RobInternalState.markComplete
  dsimp only
  split_ifs <;> rfl

/-- What commit can do with the entry at the head: nothing, take its exception, retire it, or send
the store and retire it. -/
theorem commitStage_cases :
    commitStage s pipe = (s, pipe) ∨
      commitStage s pipe = (commitException s (s.rob.entries s.rob.head), pipe) ∨
      commitStage s pipe = retire s pipe (s.rob.entries s.rob.head) ∨
      ((s.rob.entries s.rob.head).StoreToSend ∧ pipe.dmemReq.full = false ∧
        commitStage s pipe =
          retire (sendStore s pipe (s.rob.entries s.rob.head)).1
            (sendStore s pipe (s.rob.entries s.rob.head)).2
            { s.rob.entries s.rob.head with
              memoryRequestSent := true, memoryCompleted := true }) := by
  unfold commitStage
  dsimp only
  generalize s.rob.entries s.rob.head = he
  by_cases hready : (!s.rob.isEmpty && he.valid && !he.busy) = true
  · rw [if_pos hready]
    by_cases hexc : he.exception = true
    · rw [if_pos hexc]
      exact Or.inr (Or.inl rfl)
    · rw [if_neg hexc]
      simp only [Bool.and_eq_true] at hready
      unfold commitHead
      split_ifs with hload hstore hmemory hsent hfull
      · exact Or.inl rfl
      · exact Or.inl rfl
      · exact Or.inl rfl
      · exact Or.inr (Or.inr (Or.inr ⟨⟨hready.1.2, by simpa using hmemory, by simpa using hsent,
          by simpa using hstore⟩, by simpa using hfull, rfl⟩))
      · exact Or.inr (Or.inr (Or.inl rfl))
      · exact Or.inr (Or.inr (Or.inl rfl))
  · rw [if_neg hready]
    exact Or.inl rfl

/-- Commit sends nothing, or it sends the store at the head. -/
theorem commitStage_requests :
    (commitStage s pipe).2.dmemReq = pipe.dmemReq ∨
      ((s.rob.entries s.rob.head).StoreToSend ∧ pipe.dmemReq.full = false ∧
        ∃ req, (commitStage s pipe).2.dmemReq = pipe.dmemReq.write req) := by
  rcases commitStage_cases s pipe with heq | heq | heq | ⟨hstore, hfull, heq⟩
  · rw [heq]
    exact Or.inl rfl
  · rw [heq]
    exact Or.inl rfl
  · rw [heq]
    exact Or.inl rfl
  · rw [heq]
    exact Or.inr ⟨hstore, hfull, _, rfl⟩

/-- A step of commit writes the record of what it retires, unless the stream is full. -/
def WritesRecord (pipe : PipeSignals) (out : BoomCoreState × PipeSignals) : Prop :=
  out.2.commitTrace =
    if out.1.rob.commitValid && !pipe.commitTrace.full then
      pipe.commitTrace.write out.1.rob.lastCommit
    else pipe.commitTrace

variable {pipe} in
theorem writesRecord_of_not {out : BoomCoreState × PipeSignals}
    (hsame : out.2.commitTrace = pipe.commitTrace) (hflag : out.1.rob.commitValid = false) :
    WritesRecord pipe out := by
  unfold WritesRecord
  rw [hsame, hflag]
  rfl

theorem retire_writesRecord (he : RobEntry) : WritesRecord pipe (retire s pipe he) := by
  unfold WritesRecord retire
  dsimp only
  cases pipe.commitTrace.full <;> rfl

theorem commitStage_writesRecord (hflag : s.rob.commitValid = false) :
    WritesRecord pipe (commitStage s pipe) := by
  rcases commitStage_cases s pipe with heq | heq | heq | ⟨-, -, heq⟩
  · rw [heq]
    exact writesRecord_of_not rfl hflag
  · rw [heq]
    refine writesRecord_of_not rfl ?_
    rw [(commitException_keeps _ _).1]
    exact hflag
  · rw [heq]
    exact retire_writesRecord _ _ _
  · rw [heq]
    exact retire_writesRecord _ _ _

theorem commitStage_head_lt (hhead : s.rob.head < robDepth) :
    (commitStage s pipe).1.rob.head < robDepth := by
  have hpop : (s.rob.head + 1) % robDepth < robDepth := Nat.mod_lt _ (by decide)
  rcases commitStage_cases s pipe with heq | heq | heq | ⟨-, -, heq⟩
  · rw [heq]
    exact hhead
  · rw [heq]
    unfold commitException
    split_ifs
    · exact hpop
    · exact hhead
  · rw [heq]
    exact hpop
  · rw [heq]
    exact hpop

/-- Commit keeps every entry that stays marked. -/
theorem commitStage_marked (hentries : ∀ i < robDepth, (s.rob.entries i).Marked) :
    ∀ i < robDepth, ((commitStage s pipe).1.rob.entries i).Marked := by
  intro i hi hvalid
  have hsame := commitStage_entries hvalid
  rw [hsame] at hvalid ⊢
  exact hentries i hi hvalid

/-- `rob_commit_module` without a redirect. -/
theorem robCommitModule_of_quiet
    (hquiet : (s.brupdate.valid && s.brupdate.mispredict) = false) :
    robCommitModule s pipe =
      commitStage
        { s with
          rob := ({ s.rob with commitValid := false } : RobInternalState).markComplete
            s.execute.aluResult } pipe := by
  unfold robCommitModule
  dsimp only
  rw [hquiet, if_neg Bool.false_ne_true]

/-- After a redirect no entry is valid, and nothing is written. -/
theorem robCommitModule_of_redirect
    (hredirect : (s.brupdate.valid && s.brupdate.mispredict) = true) :
    (robCommitModule s pipe).2 = pipe ∧ (robCommitModule s pipe).1.rob.commitValid = false ∧
      (robCommitModule s pipe).1.rob.head = 0 ∧
        ∀ i < robDepth, ((robCommitModule s pipe).1.rob.entries i).valid = false := by
  unfold robCommitModule
  dsimp only
  rw [hredirect, if_pos rfl]
  refine ⟨rfl, rfl, rfl, fun i hi ↦ ?_⟩
  by_cases hvalid : (s.rob.entries i).valid = true
  · simp [RobInternalState.flush, hi, hvalid]
  · simp [RobInternalState.flush, hvalid]

end Commit

/-! ### Dispatch and commit -/

section Finish

variable {s : BoomCoreState} (hqueue : s.issue.aluIq = {}) (hflush : s.globalFlush = false)

include hqueue hflush

/-- After the dispatch path the entries are marked, a store of the last result included. -/
theorem dispatchPhase_marked (hquiet : (s.brupdate.valid && s.brupdate.mispredict) = false)
    (hhead : s.rob.head < robDepth) (hentries : ∀ i < robDepth, (s.rob.entries i).Marked) :
    StoresMarked (dispatchPhase s) := by
  have hempty := dispatchPhase_queue hqueue hflush
  have hlt : (dispatchPhase s).rob.head < robDepth := by
    rw [dispatchPhase_frame.1]
    exact hhead
  rcases dispatchPhase_cases hqueue hflush hquiet with
    ⟨hsame, hnone⟩ | ⟨r, hspec, hresult, hidx, hentry⟩
  · refine ⟨hempty, hlt, ?_, fun hvalid ↦ ?_⟩
    · rw [hsame]
      exact hentries
    · rw [hnone] at hvalid
      simp at hvalid
  · refine ⟨hempty, hlt, fun i hi ↦ ?_, fun _ hstore _ _ ↦ ?_⟩
    · rw [hentry]
      by_cases hcell : i = s.rob.tail
      · rw [hcell, Function.update_self]
        intro _ hcontra
        simp at hcontra
      · rw [Function.update_of_ne hcell]
        exact hentries i hi
    · rw [hresult] at hstore ⊢
      rw [hentry, hidx, Function.update_self]
      rw [hspec.store, Bool.and_eq_true] at hstore
      exact hstore.1

/-- A store that commit finds to send was at the head before the dispatch path, and had not been
sent. -/
theorem storeToSend_of_dispatch (hquiet : (s.brupdate.valid && s.brupdate.mispredict) = false)
    (hhead : (s.rob.entries s.rob.head).Marked)
    (hstore : ((dispatchPhase s).rob.entries s.rob.head).StoreToSend) : ¬ s.HeadSent := by
  intro hsent
  have hold : (s.rob.entries s.rob.head).StoreToSend := by
    rcases dispatchPhase_cases hqueue hflush hquiet with ⟨hsame, -⟩ | ⟨r, -, -, -, hentry⟩
    · rw [hsame] at hstore
      exact hstore
    · rw [hentry] at hstore
      by_cases hcell : s.rob.head = s.rob.tail
      · -- A fresh entry has no operands yet.
        have hmemory := hstore.memoryValid
        rw [hcell, Function.update_self] at hmemory
        simp at hmemory
      · rw [Function.update_of_ne hcell] at hstore
        exact hstore
  obtain ⟨hvalid, -, hnot, hstore⟩ := hold
  have hsta : (s.rob.entries s.rob.head).uop.ctrl.isSta = true := by
    rcases hstore with hsta | hstore
    · exact hsta
    · exact hhead hvalid hstore
  rw [hsent hvalid hsta] at hnot
  simp at hnot

/-- Dispatch and commit keep stores marked, and send nothing or a store that was at the head. -/
theorem robCommitModule_dispatchPhase (hhead : s.rob.head < robDepth)
    (hentries : ∀ i < robDepth, (s.rob.entries i).Marked) (pipe : PipeSignals) :
    StoresMarked (robCommitModule (dispatchPhase s) pipe).1 ∧
      ((robCommitModule (dispatchPhase s) pipe).2.dmemReq = pipe.dmemReq ∨
        (¬ s.HeadSent ∧ pipe.dmemReq.full = false ∧
          ∃ req, (robCommitModule (dispatchPhase s) pipe).2.dmemReq = pipe.dmemReq.write req)) := by
  have hframe := robCommitModule_frame (dispatchPhase s) pipe
  have hempty := dispatchPhase_queue hqueue hflush
  obtain ⟨hsameHead, hbrupdate⟩ := dispatchPhase_frame (s := s)
  by_cases hredirect : (s.brupdate.valid && s.brupdate.mispredict) = true
  · obtain ⟨hpipe, -, hzero, hnone⟩ := robCommitModule_of_redirect (dispatchPhase s) pipe
      (by rw [hbrupdate]; exact hredirect)
    refine ⟨⟨?_, ?_, fun i hi hvalid ↦ ?_, fun _ _ hidx hvalid ↦ ?_⟩, Or.inl (by rw [hpipe])⟩
    · rw [hframe.issue]
      exact hempty
    · rw [hzero]
      decide
    · rw [hnone i hi] at hvalid
      simp at hvalid
    · rw [hnone _ hidx] at hvalid
      simp at hvalid
  · have hquiet : (s.brupdate.valid && s.brupdate.mispredict) = false := by simpa using hredirect
    have hmarked := dispatchPhase_marked hqueue hflush hquiet hhead hentries
    have hcommit := robCommitModule_of_quiet (dispatchPhase s) pipe
      (by rw [hbrupdate]; exact hquiet)
    have hkind := fun i ↦ markComplete_sameKind
      ({ (dispatchPhase s).rob with commitValid := false } : RobInternalState)
      (dispatchPhase s).execute.aluResult i
    have hrest := fun i ↦ markComplete_entry
      ({ (dispatchPhase s).rob with commitValid := false } : RobInternalState)
      (dispatchPhase s).execute.aluResult i
    have hmarkHead := markComplete_head
      ({ (dispatchPhase s).rob with commitValid := false } : RobInternalState)
      (dispatchPhase s).execute.aluResult
    refine ⟨⟨?_, ?_, ?_, ?_⟩, ?_⟩
    · rw [hframe.issue]
      exact hempty
    · rw [hcommit]
      refine commitStage_head_lt _ _ ?_
      dsimp only
      rw [hmarkHead]
      exact hmarked.head_lt
    · rw [hcommit]
      exact commitStage_marked _ _ fun i hi ↦ (hkind i).marked (hmarked.entries i hi)
    · rw [hframe.execute]
      intro hvalid hstore hidx hentry
      rw [hcommit] at hentry ⊢
      have hsame := commitStage_entries hentry
      rw [hsame] at hentry ⊢
      rw [(hkind _).valid] at hentry
      rw [(hkind _).ctrl]
      exact hmarked.result hvalid hstore hidx hentry
    · rw [hcommit]
      rcases commitStage_requests
        { dispatchPhase s with
          rob := ({ (dispatchPhase s).rob with commitValid := false } :
            RobInternalState).markComplete (dispatchPhase s).execute.aluResult } pipe with
        hnone | ⟨hstore, hfull, hwrite⟩
      · exact Or.inl hnone
      · dsimp only at hstore
        rw [hmarkHead] at hstore
        obtain ⟨busy, exception, hentry⟩ := hrest (dispatchPhase s).rob.head
        dsimp only at hstore hentry
        rw [hentry, hsameHead] at hstore
        have hstore' : ((dispatchPhase s).rob.entries s.rob.head).StoreToSend :=
          ⟨hstore.valid, hstore.memoryValid, hstore.notSent, hstore.store⟩
        exact Or.inr ⟨storeToSend_of_dispatch hqueue hflush hquiet
          (hentries s.rob.head hhead) hstore', hfull, hwrite⟩

end Finish

theorem robCommitModule_writesRecord (s : BoomCoreState) (pipe : PipeSignals) :
    WritesRecord pipe (robCommitModule s pipe) := by
  by_cases hredirect : (s.brupdate.valid && s.brupdate.mispredict) = true
  · obtain ⟨hpipe, hvalid, -, -⟩ := robCommitModule_of_redirect s pipe hredirect
    exact writesRecord_of_not (by rw [hpipe]) hvalid
  · rw [robCommitModule_of_quiet s pipe (by simpa using hredirect)]
    refine commitStage_writesRecord _ pipe ?_
    unfold RobInternalState.markComplete
    dsimp only
    split_ifs <;> rfl

/-! ### A step -/

/-- What one step writes to the output streams. -/
structure StepWrites (s : BoomCoreState) (pipe : PipeSignals) : Prop where
  imemReq : (boomCoreStep s pipe).2.imemReq = pipe.imemReq ∨
    ∃ req, (boomCoreStep s pipe).2.imemReq = pipe.imemReq.write req
  dmemReq : (boomCoreStep s pipe).2.dmemReq = pipe.dmemReq ∨
    ∃ req, (boomCoreStep s pipe).2.dmemReq = pipe.dmemReq.write req
  exclusive : (memoryPhase s pipe).2.dmemReq = pipe.dmemReq ∨
    (boomCoreStep s pipe).2.dmemReq = (memoryPhase s pipe).2.dmemReq
  commitTrace : WritesRecord pipe (boomCoreStep s pipe)

/-- The state and the streams after the frontend. -/
def fetchPhase (s : BoomCoreState) (pipe : PipeSignals) : BoomCoreState × PipeSignals :=
  frontendModule (memoryPhase s pipe).1 (memoryPhase s pipe).2

theorem boomCoreStep_eq (s : BoomCoreState) (pipe : PipeSignals) :
    boomCoreStep s pipe =
      robCommitModule (dispatchPhase (fetchPhase s pipe).1) (fetchPhase s pipe).2 := rfl

section Step

variable {s : BoomCoreState} (h : StoresMarked s) (pipe : PipeSignals)

include h

theorem StoresMarked.resolved : StoresMarked (resolved s) := by
  rw [resolved_eq]
  exact ⟨h.queue, h.head_lt, h.entries, h.result⟩

/-- What dispatch and commit find: the issue queue is empty, no flush is under way, recorded stores
are marked, and when a load was sent the head is no store that could be sent. -/
theorem StoresMarked.fetchPhase :
    (fetchPhase s pipe).1.issue.aluIq = {} ∧ (fetchPhase s pipe).1.globalFlush = false ∧
      (fetchPhase s pipe).1.rob.head < robDepth ∧
        (∀ i < robDepth, ((fetchPhase s pipe).1.rob.entries i).Marked) ∧
          ((memoryPhase s pipe).2.dmemReq = pipe.dmemReq ∨
            ((fetchPhase s pipe).1.HeadSent ∧
              ∃ req, (memoryPhase s pipe).2.dmemReq = pipe.dmemReq.write req)) := by
  obtain ⟨hmarked, hload⟩ := h.resolved.lsuModule (resolved_globalFlush s) pipe
  have hmemory : MemoryOnly (BoomCore.resolved s) (memoryPhase s pipe).1 :=
    lsuModule_memoryOnly (BoomCore.resolved s) pipe
  obtain ⟨hframe, -, -⟩ := frontendModule_frame (memoryPhase s pipe).1 (memoryPhase s pipe).2
  have hrob : (BoomCore.fetchPhase s pipe).1.rob = (memoryPhase s pipe).1.rob :=
    (congrArg BoomCoreState.rob hframe :)
  have hissue : (BoomCore.fetchPhase s pipe).1.issue = (memoryPhase s pipe).1.issue :=
    (congrArg BoomCoreState.issue hframe :)
  refine ⟨?_, frontendModule_globalFlush _ _ ?_, ?_, ?_, ?_⟩
  · rw [hissue, hmemory]
    exact h.resolved.queue
  · rw [hmemory]
    exact resolved_globalFlush s
  · rw [hrob, hmemory]
    exact h.resolved.head_lt
  · rw [hrob]
    exact hmarked
  · unfold BoomCoreState.HeadSent
    rw [hrob]
    rcases hload with hnone | ⟨-, hsent, hwrite⟩
    · exact Or.inl hnone
    · exact Or.inr ⟨hsent, hwrite⟩

/-- A step among arbitrary streams writes at most one element to each output stream, and stores stay
marked. -/
theorem boomCoreStep_writes :
    StoresMarked (boomCoreStep s pipe).1 ∧ StepWrites s pipe := by
  obtain ⟨hqueue, hflush, hhead, hmarked, hload⟩ := h.fetchPhase pipe
  obtain ⟨hnext, hstore⟩ := robCommitModule_dispatchPhase hqueue hflush hhead hmarked
    (BoomCore.fetchPhase s pipe).2
  obtain ⟨-, hdmem, htrace⟩ := frontendModule_frame (memoryPhase s pipe).1 (memoryPhase s pipe).2
  have hdata : DataOnly pipe (memoryPhase s pipe).2 := lsuModule_dataOnly _ pipe
  have himem : (memoryPhase s pipe).2.imemReq = pipe.imemReq := by rw [hdata]
  have hcommitTrace : (memoryPhase s pipe).2.commitTrace = pipe.commitTrace := by rw [hdata]
  have hfetch := frontendModule_imemReq (memoryPhase s pipe).1 (memoryPhase s pipe).2
  have hreq := (robCommitModule_imem (dispatchPhase (BoomCore.fetchPhase s pipe).1)
    (BoomCore.fetchPhase s pipe).2).1
  rw [← boomCoreStep_eq] at hnext hstore hreq
  have hfetched : (BoomCore.fetchPhase s pipe).2.dmemReq = (memoryPhase s pipe).2.dmemReq := hdmem
  rw [hfetched] at hstore
  refine ⟨hnext, ?_, ?_, ?_, ?_⟩
  · rw [hreq, ← himem]
    exact hfetch
  · rcases hload with hnone | ⟨hsent, hwrite⟩
    · rw [hnone] at hstore
      exact hstore.imp_right fun hstore ↦ hstore.2.2
    · rcases hstore with hsame | ⟨hnot, -⟩
      · rw [hsame]
        exact Or.inr hwrite
      · exact absurd hsent hnot
  · rcases hload with hnone | ⟨hsent, -⟩
    · exact Or.inl hnone
    · exact Or.inr (hstore.resolve_right fun hstore ↦ hstore.1 hsent)
  · have hrecord := robCommitModule_writesRecord (dispatchPhase (BoomCore.fetchPhase s pipe).1)
      (BoomCore.fetchPhase s pipe).2
    rw [← boomCoreStep_eq] at hrecord
    unfold WritesRecord at hrecord ⊢
    rw [hrecord, show (BoomCore.fetchPhase s pipe).2.commitTrace = pipe.commitTrace from
      htrace.trans hcommitTrace]

end Step

end BoomCore
