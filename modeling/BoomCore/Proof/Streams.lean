import BoomCore.Proof.Pipeline

/-!
# The streams after a step

A step takes what is at the front of `dmem_resp` and leaves the sizes of the streams alone. When the
instruction memory answers at once, what is on the two fetch streams after a cycle is the one
request that waits, or its answer.
-/

set_option autoImplicit false
set_option relaxedAutoImplicit false

namespace BoomCore

/-- The streams have the same sizes. -/
structure PipeSignals.SameRoom (pipe pipe' : PipeSignals) : Prop where
  imemReq : pipe'.imemReq.maxSize = pipe.imemReq.maxSize
  imemResp : pipe'.imemResp.maxSize = pipe.imemResp.maxSize
  dmemReq : pipe'.dmemReq.maxSize = pipe.dmemReq.maxSize
  dmemResp : pipe'.dmemResp.maxSize = pipe.dmemResp.maxSize
  commitTrace : pipe'.commitTrace.maxSize = pipe.commitTrace.maxSize

namespace PipeSignals.SameRoom

variable {pipe pipe' pipe'' : PipeSignals}

protected theorem refl (pipe : PipeSignals) : pipe.SameRoom pipe := ⟨rfl, rfl, rfl, rfl, rfl⟩

protected theorem trans (h : pipe.SameRoom pipe') (h' : pipe'.SameRoom pipe'') :
    pipe.SameRoom pipe'' :=
  ⟨h'.imemReq.trans h.imemReq, h'.imemResp.trans h.imemResp, h'.dmemReq.trans h.dmemReq,
    h'.dmemResp.trans h.dmemResp, h'.commitTrace.trans h.commitTrace⟩

end PipeSignals.SameRoom

/-! ### The modules -/

theorem takeDmemResponse_streams (s : BoomCoreState) (pipe : PipeSignals) :
    pipe.SameRoom (takeDmemResponse s pipe).2 ∧
      (takeDmemResponse s pipe).2.dmemResp.q = pipe.dmemResp.q.tail := by
  unfold takeDmemResponse Stream.read
  cases hq : pipe.dmemResp.q with
  | nil => exact ⟨.refl pipe, hq⟩
  | cons resp rest => exact ⟨⟨rfl, rfl, rfl, rfl, rfl⟩, rfl⟩

/-- The load/store unit takes the response at the front. -/
theorem lsuModule_streams {s : BoomCoreState} (hflush : s.globalFlush = false)
    (pipe : PipeSignals) :
    pipe.SameRoom (lsuModule s pipe).2 ∧
      (lsuModule s pipe).2.dmemResp.q = pipe.dmemResp.q.tail := by
  obtain ⟨hroom, htail⟩ := takeDmemResponse_streams s pipe
  rw [lsuModule_eq hflush]
  rcases issueLoadsFrom_cases (enqueueResult (s.afterResponse pipe.dmemResp.q.head?))
    (takeDmemResponse s pipe).2 robDepth 0 with heq | ⟨j, -, hcan, heq⟩
  · rw [heq]
    exact ⟨hroom, htail⟩
  · rw [heq, tryIssueLoad_of_can hcan]
    exact ⟨hroom.trans ⟨rfl, rfl, rfl, rfl, rfl⟩, htail⟩

theorem FrontendState.sendRequest_maxSize (fe : FrontendState) (imemReq : Stream ImemRequest) :
    (fe.sendRequest imemReq).2.maxSize = imemReq.maxSize := by
  unfold sendRequest
  split_ifs <;> rfl

theorem FrontendState.takeResponse_maxSize (fe : FrontendState) (imemResp : Stream ImemResponse) :
    (fe.takeResponse imemResp).2.maxSize = imemResp.maxSize := by
  unfold takeResponse Stream.read
  cases imemResp.q <;> rfl

theorem frontendModule_streams (s : BoomCoreState) (pipe : PipeSignals) :
    pipe.SameRoom (frontendModule s pipe).2 ∧
      (frontendModule s pipe).2.dmemResp = pipe.dmemResp := by
  unfold frontendModule
  dsimp only
  split_ifs
  · exact ⟨.refl pipe, rfl⟩
  · exact ⟨⟨FrontendState.sendRequest_maxSize _ _, FrontendState.takeResponse_maxSize _ _, rfl, rfl,
      rfl⟩, rfl⟩

theorem retire_streams (s : BoomCoreState) (pipe : PipeSignals) (he : RobEntry) :
    pipe.SameRoom (retire s pipe he).2 ∧ (retire s pipe he).2.dmemResp = pipe.dmemResp := by
  unfold retire
  refine ⟨⟨rfl, rfl, rfl, rfl, ?_⟩, rfl⟩
  dsimp only
  split_ifs <;> rfl

theorem commitHead_streams (s : BoomCoreState) (pipe : PipeSignals) (he : RobEntry) :
    pipe.SameRoom (commitHead s pipe he).2 ∧
      (commitHead s pipe he).2.dmemResp = pipe.dmemResp := by
  unfold commitHead
  dsimp only
  split_ifs
  · exact ⟨.refl pipe, rfl⟩
  · exact ⟨.refl pipe, rfl⟩
  · exact ⟨.refl pipe, rfl⟩
  · obtain ⟨hroom, hresp⟩ := retire_streams (sendStore s pipe he).1 (sendStore s pipe he).2
      { he with memoryRequestSent := true, memoryCompleted := true }
    have hsent : pipe.SameRoom (sendStore s pipe he).2 := ⟨rfl, rfl, rfl, rfl, rfl⟩
    exact ⟨hsent.trans hroom, hresp⟩
  · exact retire_streams s pipe he
  · exact retire_streams s pipe he

theorem robCommitModule_streams (s : BoomCoreState) (pipe : PipeSignals) :
    pipe.SameRoom (robCommitModule s pipe).2 ∧
      (robCommitModule s pipe).2.dmemResp = pipe.dmemResp := by
  unfold robCommitModule commitStage
  dsimp only
  split_ifs
  · exact ⟨.refl pipe, rfl⟩
  · exact ⟨.refl pipe, rfl⟩
  · exact commitHead_streams _ _ _
  · exact ⟨.refl pipe, rfl⟩

/-! ### A cycle -/

namespace System

variable (program : Program) (sys : System) (t : Tick)

/-- The response of the cycle is taken, and the streams keep their sizes. -/
theorem coreStep_streams :
    (sys.ports program t).SameRoom (sys.coreStep program t).2 ∧
      (sys.coreStep program t).2.dmemResp.q = [] := by
  obtain ⟨hmemory, htail⟩ :=
    lsuModule_streams (resolved_globalFlush sys.core) (sys.ports program t)
  obtain ⟨hfetch, hkeep⟩ :=
    frontendModule_streams (sys.afterMemory program t).1 (sys.afterMemory program t).2
  obtain ⟨hcommit, hkeep'⟩ :=
    robCommitModule_streams (sys.beforeCommit program t) (sys.afterFetch program t).2
  rw [coreStep_eq]
  refine ⟨hmemory.trans (hfetch.trans hcommit), ?_⟩
  rw [hkeep']
  unfold afterFetch
  rw [hkeep]
  refine htail.trans ?_
  unfold ports
  cases t.dmemResp <;> rfl

end System

section Fetch

variable {program : Program} {sys : System} (h : FetchInv sys) (t : Tick)

include h

/-- At most one request waits. -/
theorem FetchInv.imem_length : sys.imem.length ≤ 1 := by
  rw [h.waiting]
  split_ifs
  · exact Nat.le_refl 1
  · exact Nat.zero_le 1

/-- When the oldest request is answered, its answer is on the stream. -/
theorem FetchInv.response_toList (hanswer : t.imemAnswer = some 0) :
    (sys.response program t).toList = sys.imem.map program.answer := by
  unfold System.response
  rw [hanswer]
  have hshort := h.imem_length
  cases himem : sys.imem with
  | nil => rfl
  | cons req rest =>
    rw [himem] at hshort
    obtain rfl : rest = [] := by simpa using hshort
    rfl

/-- Assumes: the oldest request is answered in the cycle. What is on the two fetch streams after the
cycle is the request that waits, or its answer. -/
theorem FetchInv.coreStep_imem (hanswer : t.imemAnswer = some 0) :
    (sys.coreStep program t).2.imemResp.q ++
        (sys.coreStep program t).2.imemReq.q.map program.answer =
      (sys.cycle program t).imem.map program.answer ∧
    (sys.coreStep program t).2.imemReq.q.length ≤ 1 := by
  have hresponse : (sys.response program t).toList = _ := h.response_toList t hanswer
  obtain ⟨hreq, hresp⟩ :=
    robCommitModule_imem (sys.beforeCommit program t) (sys.afterFetch program t).2
  rw [System.cycle_imem, System.coreStep_eq, hreq, hresp]
  cases hacc : sys.accepted program t with
  | some resp =>
    obtain ⟨hstate, hsent, -, -, -⟩ := h.accepted_eq t hacc
    obtain ⟨-, hreq', hresp'⟩ := h.afterFetch_of_some t hacc
    have hwaiting : sys.waiting t (sys.afterFetch program t).2 = [] := by
      unfold System.waiting
      rw [if_pos hresp', hreq', hanswer, h.waiting, if_pos hsent]
      rfl
    rw [hreq', hresp', hwaiting]
    exact ⟨rfl, Nat.zero_le 1⟩
  | none =>
    rcases h.afterFetch_of_none t hacc with ⟨-, hreq', hresp'⟩ | ⟨hnot, hnone, -, hreq', hresp'⟩
    · rw [System.waiting_of_none program sys t hresp', hreq', hresp', hresponse, List.append_nil]
      exact ⟨List.append_nil _, Nat.zero_le 1⟩
    · have hresp'' : (sys.afterFetch program t).2.imemResp.q =
          (sys.response program t).toList := by rw [hresp', hnone]; rfl
      rw [System.waiting_of_none program sys t hresp'', hreq', hresp'', hresponse,
        List.map_append]
      exact ⟨rfl, Nat.le_refl 1⟩

end Fetch

end BoomCore
