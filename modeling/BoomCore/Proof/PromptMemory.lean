import BoomCore.Proof.LoadFree
import BoomCore.Proof.Outstanding
import BoomCore.Proof.Refinement
import BoomCore.Properties.HeadProgress
import BoomCore.Properties.MemoryOrder

/-!
# A data memory that answers at once

When the data memory processes the request of a cycle before the next one and delivers its answer
there, at most one instruction is in flight when the frontend sends a request, and at most a load
that has been sent when it waits for the response (`Rest`). So every instruction that is handed over
finds room, a register and the values of its sources, and a redirect finds nothing in flight, unless
the jump is right behind a load (`Prompt.cycle`).
-/

set_option autoImplicit false
set_option relaxedAutoImplicit false

namespace BoomCore

open Ring Renaming

/-! ### The instruction at the head -/

section Head

variable {program : Program} {sys : System} {w : List Inflight} (h : SysInv sys w) (t : Tick)
  (n : ℕ)

omit h in
/-- In a cycle that takes a trap the core stops. -/
theorem System.TakesTrap.state (h : SysInv sys w) (htrap : sys.TakesTrap program t) :
    (sys.cycle program t).core.rob.state = .exception := by
  show (sys.coreStep program t).1.rob.state = _
  rw [h.coreStep_of_takesTrap t htrap]

include h

/-- Assumes: the instruction at the head is complete, and the request of a store finds room. It
leaves, or the core takes a trap. -/
theorem SysInv.head_leaves {d : Inflight} {w' : List Inflight}
    (hquiet : sys.core.execute.aluResult.redirects = false)
    (hw : w ++ sys.dispatched program t n = d :: w')
    (hbusy : ((sys.atCommit program t).rob.entries (sys.atCommit program t).rob.head).busy = false)
    (hroom : d.result.isStore = true → (sys.commitPipe program t).dmemReq.full = false) :
    sys.windowStep program t n w = w' ∨ sys.TakesTrap program t := by
  have hrob := (h.atCommit program t n).1.rob
  rw [hw] at hrob
  obtain ⟨hnonempty, -, -, hstage⟩ := hrob.head
  by_cases hexc : ((sys.atCommit program t).rob.entries
      (sys.atCommit program t).rob.head).exception = true
  · by_cases hecall : ((sys.atCommit program t).rob.entries
        (sys.atCommit program t).rob.head).uop.uopc = .ecall
    · refine Or.inl ?_
      have hcore : (sys.cycle program t).core.rob.head =
          ((sys.atCommit program t).rob.head + 1) % robDepth := by
        show (sys.coreStep program t).1.rob.head = _
        rw [h.step.coreStep_of_not_redirects program t hquiet,
          commitStage_of_exception _ hnonempty hstage.valid hbusy hexc]
        unfold commitException
        rw [if_pos hecall]
        rfl
      rw [h.windowStep_of_pop t n hquiet hcore, hw]
      rfl
    · exact Or.inr ⟨hquiet, hnonempty, hstage.valid, hbusy, hexc, hecall⟩
  · have hvalid := h.commits_of_complete t n hquiet hw hbusy (by simpa using hexc) hroom
    obtain ⟨d', w'', hret⟩ := h.retires t n hvalid
    refine Or.inl ?_
    rw [hret.after]
    exact (List.cons.inj (hret.before.symm.trans hw)).2

/-- While the instruction at the head is not complete everything stays in flight, and no store is
sent. -/
theorem SysInv.head_stays (hquiet : sys.core.execute.aluResult.redirects = false)
    (hbusy : ((sys.atCommit program t).rob.entries (sys.atCommit program t).rob.head).busy = true) :
    sys.windowStep program t n w = w ++ sys.dispatched program t n ∧
      sys.storeRequests program t = [] := by
  have hstep : sys.coreStep program t = (sys.atCommit program t, sys.commitPipe program t) := by
    rw [h.step.coreStep_of_not_redirects program t hquiet, commitStage_of_busy _ hbusy]
  refine ⟨h.windowStep_of_stay t n hquiet ?_, ?_⟩
  · show (sys.coreStep program t).1.rob.head = _
    rw [hstep]
  · unfold System.storeRequests
    rw [hstep]
    exact System.commitPipe_noStore t

/-- The store that a cycle sends is that of the oldest instruction. -/
theorem SysInv.storeRequests_of_head {d : Inflight} {w' : List Inflight}
    (hw : w ++ sys.dispatched program t n = d :: w') (hstore : d.result.isStore = false) :
    sys.storeRequests program t = [] := by
  rcases h.store_cases program t n with ⟨hnone, -⟩ | ⟨d', w'', hret, hstore', -⟩
  · exact hnone
  · rw [(List.cons.inj (hret.before.symm.trans hw)).1, hstore] at hstore'
    exact absurd hstore' Bool.noConfusion

/-- A cycle sends at most one store. -/
theorem SysInv.storeRequests_length : (sys.storeRequests program t).length ≤ 1 := by
  rcases h.store_cases program t 0 with ⟨hnone, -⟩ | ⟨d, w', -, -, -, -, hone⟩
  · rw [hnone]
    exact Nat.zero_le 1
  · rw [hone]
    exact Nat.le_refl 1

end Head

/-! ### The load/store unit -/

/-- Assumes: no load is outstanding behind the response. The load/store unit sends nothing and waits
for nothing, or it sends one load. -/
theorem lsuModule_sends {s : BoomCoreState} {w : List Inflight} (h : WindowInv s w)
    (hhanded : Handed s w) (hflush : s.globalFlush = false) (pipe : PipeSignals)
    (hpending : (s.afterResponse pipe.dmemResp.q.head?).lsu.loadResponsePending = false) :
    ((lsuModule s pipe).2.dmemReq = pipe.dmemReq ∧
        (lsuModule s pipe).1.lsu.loadResponsePending = false) ∨
      ∃ d ∈ w, ∃ tx req, d.result.isLoad = true ∧ req.isStore = false ∧
        (lsuModule s pipe).2.dmemReq = pipe.dmemReq.write req ∧
        (lsuModule s pipe).1.rob.entries d.cell = (d.result.entry.asLoad d.result).sent tx := by
  have hwin := h.afterResponse pipe.dmemResp.q.head?
  have hhand := hhanded.afterResponse pipe.dmemResp.q.head?
  have hdmem := (takeDmemResponse_eq s pipe).2
  have hrecorded := enqueueResult_pending (s.afterResponse pipe.dmemResp.q.head?)
  rw [lsuModule_eq hflush]
  rcases issueLoadsFrom_cases (enqueueResult (s.afterResponse pipe.dmemResp.q.head?))
    (takeDmemResponse s pipe).2 robDepth 0 with heq | ⟨j, hj, hcan, heq⟩
  · refine Or.inl ?_
    rw [heq, hrecorded]
    exact ⟨hdmem, hpending⟩
  · obtain ⟨k, hk, hslot, hload, hentry, -⟩ := (hwin.enqueueResult hhand).issued_load hj hcan
    have hcell : w[k].cell = j :=
      ((hwin.enqueueResult hhand).rob.entryOf hk).robIdx.trans hslot
    rw [heq]
    generalize enqueueResult (s.afterResponse pipe.dmemResp.q.head?) = r at hcan hentry ⊢
    rw [tryIssueLoad_of_can hcan, hdmem]
    refine Or.inr ⟨w[k], List.getElem_mem hk, r.lsu.nextTransactionId,
      loadRequest (r.rob.entries j) j r.lsu.nextTransactionId, hload, rfl, rfl, ?_⟩
    rw [hcell, ← hentry]
    exact Function.update_self _ _ _

section Sends

variable {program : Program} {sys : System} {w : List Inflight} (h : SysInv sys w) (t : Tick)

include h

variable (program) in
/-- `lsuModule_sends` for the memory phase of a cycle. -/
theorem SysInv.memory_sends
    (hpending :
      ((resolved sys.core).afterResponse t.dmemResp).lsu.loadResponsePending = false) :
    ((sys.afterMemory program t).2.dmemReq.q = [] ∧
        (sys.afterMemory program t).1.lsu.loadResponsePending = false) ∨
      ∃ d ∈ w, ∃ tx req, d.result.isLoad = true ∧ req.isStore = false ∧
        (sys.afterMemory program t).2.dmemReq.q = [req] ∧
        (sys.afterMemory program t).1.rob.entries d.cell =
          (d.result.entry.asLoad d.result).sent tx := by
  rw [← sys.ports_dmemResp program t] at hpending
  rcases lsuModule_sends h.beforeMemory.1 h.beforeMemory.2 (resolved_globalFlush sys.core)
    (sys.ports program t) hpending with ⟨hreq, hnone⟩ | ⟨d, hd, tx, req, hload, hnot, hreq, hentry⟩
  · exact Or.inl ⟨congrArg Stream.q hreq, hnone⟩
  · exact Or.inr ⟨d, hd, tx, req, hload, hnot, congrArg Stream.q hreq, hentry⟩

end Sends

/-! ### The fetch handshake -/

section Fetch

variable {program : Program} {sys : System} (h : StepInv sys) (t : Tick)

include h

variable (program) in
/-- With no request in flight nothing is handed over. -/
theorem StepInv.accepted_of_not_sent (hsent : sys.core.frontend.requestSent = false) :
    sys.accepted program t = none := by
  by_contra hcontra
  obtain ⟨resp, hacc⟩ := Option.ne_none_iff_exists'.mp hcontra
  have hyes := (h.fetch.accepted_eq t hacc).2.1
  rw [hsent] at hyes
  exact Bool.noConfusion hyes

variable (program) in
/-- The answer to the request in flight is handed over, unless the core has stopped. -/
theorem StepInv.accepted_of_sent (hstate : sys.core.rob.state ≠ .exception)
    (hsent : sys.core.frontend.requestSent = true) (hanswer : t.imemAnswer = some 0) :
    (sys.accepted program t).isSome = true := by
  unfold System.accepted System.response
  rw [if_neg hstate, hanswer, h.fetch.waiting, hsent, if_pos rfl]
  rfl

/-- A cycle that hands an instruction over ends without a request in flight. -/
theorem StepInv.cycle_sent_of_some (hacc : (sys.accepted program t).isSome = true) :
    (sys.cycle program t).core.frontend.requestSent = false := by
  obtain ⟨resp, hsome⟩ := Option.isSome_iff_exists.mp hacc
  rw [h.cycle_frontend, (h.fetch.afterFetch_of_some t hsome).1]

/-- Assumes: the core has not stopped, and there is room on `imem_req`. A cycle that hands nothing
over ends with a request in flight. -/
theorem StepInv.cycle_sent_of_none (hacc : sys.accepted program t = none)
    (hstate : sys.core.rob.state ≠ .exception) (hroom : 0 < t.imemReqRoom) :
    (sys.cycle program t).core.frontend.requestSent = true := by
  rw [h.cycle_frontend]
  by_cases hsent : sys.redirected.requestSent = true
  · rcases h.fetch.afterFetch_of_none t hacc with ⟨hkeeps, -⟩ | ⟨hnot, -⟩
    · rw [hkeeps]
      exact hsent
    · rw [hsent] at hnot
      exact absurd hnot Bool.noConfusion
  · have hsent' : sys.redirected.requestSent = false := by simpa using hsent
    have hreq := (System.afterMemory_imem program sys t).1
    have hnone : sys.response program t = none := by simpa [System.accepted, hstate] using hacc
    have hq : (sys.afterMemory program t).2.imemResp.q = [] := by
      rw [(System.afterMemory_imem program sys t).2]
      simp [System.ports, hnone]
    have hfull : (sys.afterMemory program t).2.imemReq.full = false := by
      rw [hreq]
      simpa [System.ports, Stream.full] using Nat.ne_of_gt hroom
    unfold System.afterFetch frontendModule
    dsimp only
    rw [h.fetch.prologue_eq, System.afterMemory_robState, if_neg hstate,
      FrontendState.fetch_send _ h.fetch.redirected_flush h.fetch.redirected_received hsent' hq,
      hfull, if_neg Bool.false_ne_true]

/-- While a request is in flight no redirect is under way. -/
theorem StepInv.quiet_of_sent (hsent : sys.core.frontend.requestSent = true) :
    sys.core.execute.aluResult.redirects = false := by
  unfold AluResult.redirects
  cases hvalid : sys.core.execute.aluResult.valid with
  | false => rfl
  | true =>
    rw [h.fetch.executed hvalid] at hsent
    exact absurd hsent Bool.noConfusion

end Fetch

/-! ### The window of a cycle -/

section Window

variable (program : Program) (sys : System) (t : Tick) (n : ℕ) (w : List Inflight)

theorem System.windowStep_length_le :
    (sys.windowStep program t n w).length ≤ (w ++ sys.dispatched program t n).length := by
  unfold System.windowStep
  split_ifs
  · exact Nat.zero_le _
  · exact Nat.le_refl _
  · rw [List.length_tail]
    exact Nat.sub_le _ 1

variable {program sys t w}

/-- Nothing is in flight after a cycle that finds nothing in flight and dispatches nothing. -/
theorem System.windowStep_of_nil (hnil : w ++ sys.dispatched program t n = []) :
    sys.windowStep program t n w = [] := by
  have hle := System.windowStep_length_le program sys t n w
  rw [hnil] at hle
  exact List.length_eq_zero_iff.mp (Nat.le_zero.mp hle)

/-- What is dispatched in a cycle with room is what is handed over. -/
theorem SysInv.dispatched_length (program : Program) {sys : System} {w : List Inflight}
    (h : SysInv sys w) (t : Tick) (n : ℕ)
    (hroom : (sys.accepted program t).isSome = true → sys.core.rob.isFull = false) :
    (sys.dispatched program t n).length = if (sys.accepted program t).isSome then 1 else 0 := by
  cases hacc : sys.accepted program t with
  | none =>
    rw [h.step.dispatched_idle t n (Or.inl hacc)]
    rfl
  | some resp =>
    rw [hacc] at hroom
    rw [h.step.dispatched_some t n hacc (hroom rfl) h.tail_lt]
    rfl

variable (program t) in
/-- The entry of the oldest instruction in flight, as commit finds it. -/
theorem SysInv.head_entry (h : SysInv sys w) {d : Inflight} {w' : List Inflight}
    (hw : w = d :: w') :
    (sys.atCommit program t).rob.entries (sys.atCommit program t).rob.head =
      (sys.afterMemory program t).1.rob.entries d.cell := by
  subst hw
  have hhead : d.cell = sys.core.rob.head := h.window.rob.head.2.robIdx
  rw [h.atCommit_head program t, ← hhead]
  exact h.atCommit_entry t List.mem_cons_self

end Window

/-! ### Cycles in order -/

/-- An entry that is marked as a load belongs to a load. -/
theorem Stage.load_of_isLoad {r : AluResult} {e : RobEntry} (h : Stage r e)
    (hload : e.isLoad = true) : r.isLoad = true := by
  cases h with
  | queued hyes => exact hyes
  | sent hyes => exact hyes
  | answered hyes => exact hyes
  | _ => exact absurd hload Bool.noConfusion

section InOrder

variable {program : Program} {sys : System} {w : List Inflight} (h : SysInv sys w) (t : Tick)

include h

/-- Assumes: the loads in flight have arrived when the memory phase is done. No source waits for a
load. -/
theorem SysInv.sourcesReady (harrived : ∀ d ∈ w, d.result.isLoad = true →
    ((sys.afterMemory program t).1.rob.entries d.cell).arrived = true) :
    sys.SourcesReady program t := by
  have hready : ∀ p, sys.SourceReady program t p := by
    intro p i hi hvalid hload _
    have hrob := (h.memory program t).1.rob
    obtain ⟨k, hk, hslot⟩ := hrob.of_valid hi hvalid
    have hof := hrob.entryOf hk
    have hcell : w[k].cell = i := hof.robIdx.trans hslot
    rw [hslot] at hof
    rw [← hcell]
    exact harrived _ (List.getElem_mem hk) (hof.stage.load_of_isLoad hload)
  exact fun _ _ ↦ ⟨fun _ _ ↦ hready _, fun _ _ ↦ hready _⟩

/-- Assumes: at most one instruction is in flight and no register is lost. Then there is room in the
reorder buffer and in the free list. -/
theorem SysInv.inOrder_of_short (hshort : w.length ≤ 1)
    (hcons : Conserved sys.core.rename.intMapTable sys.core.rename.intFreeList w)
    (hsources : sys.SourcesReady program t)
    (hredirect : sys.core.execute.aluResult.redirects = true → w = []) :
    sys.InOrder program t := by
  have hcount : 1 < sys.core.rename.intFreeList.count := by
    have hmapped : (mapped IsReg writableRegs
        sys.core.rename.intMapTable.committedMapTable).card ≤ 31 :=
      Finset.card_le_card (Finset.filter_subset _ _)
    have hassigns : (assigns w).length ≤ w.length := List.length_filterMap_le _ _
    unfold Conserved intPhysRegs at hcons
    omega
  refine ⟨fun _ ↦ ?_, fun _ _ ↦ ⟨?_, fun hone ↦ ?_⟩, hsources, fun hredirects ↦ ?_⟩
  · by_contra hfull
    have hlength := h.window.rob.isFull_iff.mp (by simpa using hfull)
    rw [hlength] at hshort
    exact absurd hshort (by decide)
  · exact Nat.zero_lt_of_lt hcount
  · rw [hone] at hcount
    exact absurd hcount (Nat.lt_irrefl 1)
  · exact h.window.rob.isEmpty_iff.mpr (hredirect hredirects)

end InOrder

/-! ### The data memory -/

/-- The memory processes a request and delivers an answer in the cycle, and no output stream is
full. -/
structure MemoryTick.Prompt (mt : MemoryTick) : Prop where
  processed : mt.processed = 1
  answered : mt.answered = some 0
  imemReq : 0 < mt.tick.imemReqRoom
  dmemReq : 0 < mt.tick.dmemReqRoom
  commitTrace : 0 < mt.tick.commitTraceRoom

theorem promptTick_prompt : promptTick.Prompt := by
  constructor <;> decide

section Response

variable {ms : MemorySystem} {mt : MemoryTick} (hmt : mt.Prompt)

include hmt

/-- The response of the cycle is the first answer that waits when a request has been processed. -/
theorem MemoryTick.Prompt.dmemResp : (ms.tickOf mt).dmemResp = ms.processOne.answers[0]? := by
  unfold MemorySystem.tickOf
  rw [hmt.processed, hmt.answered]
  rfl

variable {committed : ByteMemory 64}
  (hmem : MemoryInv ms.sys.core committed ms.memory ms.requests ms.answers)

include hmem

/-- While no load is outstanding there is no response. -/
theorem MemoryInv.drained (hpending : ms.sys.core.lsu.loadResponsePending = false)
    (hshort : ms.requests.length ≤ 1) :
    ms.processOne.requests = [] ∧ (ms.tickOf mt).dmemResp = none := by
  obtain ⟨hstores, hanswers⟩ := hmem.idle hpending
  rw [hmt.dmemResp]
  unfold MemorySystem.processOne
  cases hrequests : ms.requests with
  | nil => exact ⟨hrequests, by rw [hanswers]; rfl⟩
  | cons req rest =>
    rw [hrequests] at hstores hshort
    have hrest : rest = [] := by simpa using hshort
    dsimp only
    rw [if_pos (hstores req List.mem_cons_self), hanswers]
    exact ⟨hrest, rfl⟩

/-- The request of the outstanding load is answered in the cycle. -/
theorem MemoryInv.answered {req : DmemRequest} (hrequests : ms.requests = [req])
    (hload : req.isStore = false) :
    ms.processOne.requests = [] ∧
      ∃ resp, (ms.tickOf mt).dmemResp = some resp ∧ resp.exception = false ∧
        ms.sys.core.lsu.matchesPending resp = true := by
  have hcount := hmem.count
  have hnone : ms.answers = [] := by
    rw [hrequests, List.filter_cons_of_pos (by simp [hload])] at hcount
    exact List.length_eq_zero_iff.mp (by simpa using hcount)
  have hprocessed := hmem.processOne
  have hanswers : ms.processOne.answers = [req.answer ms.memory] := by
    unfold MemorySystem.processOne
    rw [hrequests]
    dsimp only
    rw [hload, if_neg Bool.false_ne_true, hnone]
    rfl
  have hfirst : ms.processOne.answers[0]? = some (req.answer ms.memory) := by rw [hanswers]; rfl
  obtain ⟨-, -, hmatches, hexc, -⟩ := hprocessed.delivered hfirst
  refine ⟨?_, _, by rw [hmt.dmemResp, hfirst], hexc, hmatches⟩
  unfold MemorySystem.processOne
  rw [hrequests]

end Response

/-! ### What is left between two cycles -/

/-- The instructions in flight and the requests that wait, when the memory answers at once. -/
inductive Rest (sys : System) (requests : List DmemRequest) (w : List Inflight) : Prop
  | fetching (sent : sys.core.frontend.requestSent = false)
      (pending : sys.core.lsu.loadResponsePending = false) (drained : requests = [])
      (short : w.length ≤ 1)
  | empty (sent : sys.core.frontend.requestSent = true)
      (pending : sys.core.lsu.loadResponsePending = false) (short : requests.length ≤ 1)
      (none : w = [])
  | loading (sent : sys.core.frontend.requestSent = true) (d : Inflight) (tx : BitVec 32)
      (req : DmemRequest) (window : w = [d]) (load : d.result.isLoad = true)
      (entry : sys.core.rob.entries d.cell = (d.result.entry.asLoad d.result).sent tx)
      (request : requests = [req]) (isLoad : req.isStore = false)

section Loading

variable {program : Program} {sys : System} {d : Inflight} (h : SysInv sys [d]) {t : Tick}
  {tx : BitVec 32} {resp : DmemResponse} (hload : d.result.isLoad = true)
  (hentry : sys.core.rob.entries d.cell = (d.result.entry.asLoad d.result).sent tx)
  (hresp : t.dmemResp = some resp) (hmatches : sys.core.lsu.matchesPending resp = true)

include h hload hentry hresp hmatches

variable (program) in
/-- The response completes the load, and nothing is sent. -/
theorem SysInv.memory_loading :
    (sys.afterMemory program t).1.rob.entries d.cell =
        ((d.result.entry.asLoad d.result).sent tx).complete resp ∧
      (sys.afterMemory program t).2.dmemReq.q = [] ∧
      (sys.afterMemory program t).1.lsu.loadResponsePending = false := by
  have hcell : d.cell < robDepth := by
    rw [show d.cell = sys.core.rob.head from h.window.rob.head.2.robIdx]
    exact h.window.rob.head_lt
  have hidx : sys.core.lsu.pendingLoadRobIdx = d.cell :=
    (h.window.lsu.inFlight d.cell hcell (by rw [hentry]; rfl) (by rw [hentry]; rfl)).2.1
  have hresolved : (resolved sys.core).rob = sys.core.rob ∧
      (resolved sys.core).lsu = sys.core.lsu := by
    rw [resolved_eq]
    exact ⟨rfl, rfl⟩
  have hanswers : (resolved sys.core).answers resp = true := by
    unfold BoomCoreState.answers
    rw [hresolved.1, hresolved.2, hmatches, hidx, hentry]
    rfl
  have hafter : (resolved sys.core).afterResponse t.dmemResp =
      handleResponse (resolved sys.core) resp := by
    rw [hresp]
    rfl
  have hpending :
      ((resolved sys.core).afterResponse t.dmemResp).lsu.loadResponsePending = false := by
    rw [hafter, handleResponse_of_answers hanswers]
  have hcomplete : ((resolved sys.core).afterResponse t.dmemResp).rob.entries d.cell =
      ((d.result.entry.asLoad d.result).sent tx).complete resp := by
    rw [hafter, handleResponse_of_answers hanswers]
    dsimp only
    rw [hresolved.1, hresolved.2, hidx, Function.update_self, hentry]
  have hsame : (sys.afterMemory program t).1.rob.entries d.cell =
      ((d.result.entry.asLoad d.result).sent tx).complete resp := by
    rw [← hcomplete, ← sys.ports_dmemResp program t, System.afterMemory_eq]
    refine lsuModule_entry_of_answered h.beforeMemory.1 h.beforeMemory.2
      (resolved_globalFlush sys.core) _ ?_
    rw [sys.ports_dmemResp program t, hcomplete]
    unfold RobEntry.complete
    split_ifs <;> rfl
  refine ⟨hsame, ?_⟩
  rcases h.memory_sends program t hpending with
    hidle | ⟨d', hd', tx', req, -, -, -, hsent⟩
  · exact hidle
  · obtain rfl := List.mem_singleton.mp hd'
    have hnot := congrArg RobEntry.memoryCompleted (hsame.symm.trans hsent)
    rw [RobEntry.complete_completed] at hnot
    exact absurd hnot Bool.noConfusion

end Loading

section Cycle

variable {program : Program} {sys : System} {w : List Inflight} (h : SysInv sys w) {t : Tick}
  (hstate : sys.core.rob.state ≠ .exception) (himem : 0 < t.imemReqRoom) (n : ℕ)

/-- A store finds room on `dmem_req` when no load has been sent in the cycle. -/
theorem System.dmemReq_room (hdmem : 0 < t.dmemReqRoom)
    (hsent : (sys.afterMemory program t).2.dmemReq.q = []) :
    (sys.commitPipe program t).dmemReq.full = false := by
  rcases sys.commitPipe_requests program t with hpipe | ⟨entry, i, tx, hpipe⟩
  · rw [hpipe]
    simpa [Stream.full] using Nat.ne_of_gt hdmem
  · rw [← System.commitPipe_dmemReq, hpipe] at hsent
    exact absurd hsent (List.cons_ne_nil _ _)

include h hstate himem

/-- Assumes: nothing is handed over, no load is sent, and everything leaves. -/
theorem SysInv.rest_empty (hacc : sys.accepted program t = none)
    (hsent : (sys.afterMemory program t).2.dmemReq.q = [])
    (hpending : (sys.afterMemory program t).1.lsu.loadResponsePending = false)
    (hnil : sys.windowStep program t n w = []) :
    Rest (sys.cycle program t) (sys.coreStep program t).2.dmemReq.q
      (sys.windowStep program t n w) := by
  refine .empty (h.step.cycle_sent_of_none t hacc hstate himem) ?_ ?_ hnil
  · rw [(h.cycle_pending program t).1, hpending]
  · rw [h.requests_eq t, hsent, List.nil_append]
    exact h.storeRequests_length t

end Cycle

/-- Assumes: the load/store unit has recorded the instruction, waits for nothing and has sent
nothing. The instruction is complete. -/
theorem SysInv.complete_of_idle {program : Program} {sys : System} {d : Inflight}
    (h : SysInv sys [d]) {t : Tick} (hdmem : 0 < t.dmemReqRoom)
    (hdecode : d.result.uop.exception = true → d.result.entry.busy = false)
    (hwaits : (sys.afterMemory program t).1.lsu.loadResponsePending = false) :
    ((sys.afterMemory program t).1.rob.entries d.cell).busy = false := by
  by_contra hcontra
  have hbusy : ((sys.afterMemory program t).1.rob.entries d.cell).busy = true := by
    simpa using hcontra
  obtain ⟨hwin, hsettled⟩ := h.memory program t
  have hd := List.mem_singleton_self d
  obtain ⟨hspec, -, hstage⟩ := hwin.rob.entryOf_mem hd
  have hexc : d.result.uop.exception = false := by
    by_contra hexc
    have hexc' : d.result.uop.exception = true := by simpa using hexc
    rw [hstage.of_exception hspec hexc', hdecode hexc'] at hcontra
    exact hcontra rfl
  rcases hstage.of_busy hspec hexc hbusy with ⟨heq, hmemory⟩ | hqueued | ⟨hawaits, hnot⟩
  · have hrecorded := hsettled.memoryValid hwin.rob hd hmemory
    rw [heq] at hrecorded
    simp [AluResult.entry] at hrecorded
  · rcases h.queued_waits t Nat.zero_lt_one hqueued with
      hpending | hroom | ⟨j, hj, -⟩
    · rw [hwaits] at hpending
      exact Bool.false_ne_true hpending
    · exact Nat.ne_of_gt hdmem hroom
    · exact Nat.not_lt_zero j hj
  · have hcell : d.cell < robDepth := by
      rw [show d.cell = _ from hwin.rob.head.2.robIdx]
      exact hwin.rob.head_lt
    have hpending := (hwin.lsu.inFlight d.cell hcell hawaits hnot).1
    rw [hwaits] at hpending
    exact Bool.false_ne_true hpending

section Fetching

variable {program : Program} {sys : System} {t : Tick}
  (hstate : sys.core.rob.state ≠ .exception) (himem : 0 < t.imemReqRoom)
  (hdmem : 0 < t.dmemReqRoom) (n : ℕ) (hsent : sys.core.frontend.requestSent = false)
  (hpending : sys.core.lsu.loadResponsePending = false) (hresp : t.dmemResp = none)

include hstate himem hsent hpending hresp

/-- A request is sent, and nothing is in flight. -/
theorem SysInv.rest_of_fetching_nil (h : SysInv sys []) :
    Rest (sys.cycle program t) (sys.coreStep program t).2.dmemReq.q
      (sys.windowStep program t n []) := by
  have hacc := h.step.accepted_of_not_sent program t hsent
  have hidle : ((resolved sys.core).afterResponse t.dmemResp).lsu.loadResponsePending = false := by
    rw [hresp, resolved_eq]
    exact hpending
  rcases h.memory_sends program t hidle with ⟨hq, hwaits⟩ | ⟨d, hd, -⟩
  · refine h.rest_empty hstate himem n hacc hq hwaits (System.windowStep_of_nil n ?_)
    rw [h.step.dispatched_idle t n (Or.inl hacc)]
    rfl
  · exact absurd hd List.not_mem_nil

include hdmem

/-- Assumes: a request is sent in the cycle, an instruction is in flight, and no load is
outstanding. The instruction leaves, or it is a load and is sent. -/
theorem SysInv.rest_of_fetching_singleton {d : Inflight} (h : SysInv sys [d])
    (hquiet : sys.core.execute.aluResult.redirects = false)
    (hnotrap : ¬ sys.TakesTrap program t)
    (hdecode : d.result.uop.exception = true → d.result.entry.busy = false) :
    Rest (sys.cycle program t) (sys.coreStep program t).2.dmemReq.q
      (sys.windowStep program t n [d]) := by
  have hacc := h.step.accepted_of_not_sent program t hsent
  have hidle : ((resolved sys.core).afterResponse t.dmemResp).lsu.loadResponsePending = false := by
    rw [hresp, resolved_eq]
    exact hpending
  have hw : [d] ++ sys.dispatched program t n = d :: [] := by
    rw [h.step.dispatched_idle t n (Or.inl hacc)]
    rfl
  have hhead := h.head_entry program t rfl
  rcases h.memory_sends program t hidle with
    ⟨hq, hwaits⟩ | ⟨d', hd', tx, req, hload, hnot, hq, hentry⟩
  · have hbusy := h.complete_of_idle hdmem hdecode hwaits
    rcases h.head_leaves t n hquiet hw (by rw [hhead, hbusy]) fun _ ↦
      System.dmemReq_room hdmem hq with hleaves | htrap
    · exact h.rest_empty hstate himem n hacc hq hwaits hleaves
    · exact absurd htrap hnotrap
  · obtain rfl := List.mem_singleton.mp hd'
    have hbusy : ((sys.afterMemory program t).1.rob.entries d'.cell).busy = true := by
      rw [hentry]
      exact (h.window.rob.entryOf_mem hd').dispatched.entry_busy_of_load hload
    obtain ⟨hstays, hstores⟩ := h.head_stays t n hquiet (by rw [hhead, hbusy])
    have hwindow : sys.windowStep program t n [d'] = [d'] := hstays.trans hw
    refine .loading (h.step.cycle_sent_of_none t hacc hstate himem) d' tx req hwindow hload ?_
      ?_ hnot
    · have hin : d' ∈ sys.windowStep program t n [d'] := by
        rw [hwindow]
        exact hd'
      rw [h.cycle_entry t n hin, h.atCommit_entry t hd', hentry]
    · rw [h.requests_eq t, hq, hstores, List.append_nil]

end Fetching

/-- An instruction that is handed over leaves the core ready for the next request, unless a store is
sent. -/
theorem SysInv.rest_of_accepted {program : Program} {sys : System} {w : List Inflight}
    (h : SysInv sys w) {t : Tick} (n : ℕ) (hacc : (sys.accepted program t).isSome = true)
    (hq : (sys.afterMemory program t).2.dmemReq.q = [])
    (hwaits : (sys.afterMemory program t).1.lsu.loadResponsePending = false)
    (hstores : sys.storeRequests program t = [])
    (hshort : (sys.windowStep program t n w).length ≤ 1) :
    Rest (sys.cycle program t) (sys.coreStep program t).2.dmemReq.q
      (sys.windowStep program t n w) := by
  refine .fetching (h.step.cycle_sent_of_some t hacc) ?_ ?_ hshort
  · rw [(h.cycle_pending program t).1, hwaits]
  · rw [h.requests_eq t, hq, hstores, List.append_nil]

section Empty

variable {program : Program} {sys : System} (h : SysInv sys []) {t : Tick} (n : ℕ)
  (hsent : sys.core.frontend.requestSent = true)
  (hpending : sys.core.lsu.loadResponsePending = false) (hresp : t.dmemResp = none)

include h

/-- With nothing in flight what is handed over is dispatched, and is at the head as it was
executed. -/
theorem SysInv.head_dispatched (hacc : (sys.accepted program t).isSome = true) :
    ∃ d, sys.dispatched program t n = [d] ∧ d.result = sys.dispatchedResult program t ∧
      DispatchedSpec d.result ∧
      (sys.atCommit program t).rob.entries (sys.atCommit program t).rob.head =
        d.result.entry := by
  obtain ⟨resp, hsome⟩ := Option.isSome_iff_exists.mp hacc
  have hfull : sys.core.rob.isFull = false := by
    by_contra hcontra
    exact absurd (h.window.rob.isFull_iff.mp (by simpa using hcontra)) (by decide)
  have hd := h.step.dispatched_some t n hsome hfull h.tail_lt
  have hrob := (h.atCommit program t n).1.rob
  rw [hd] at hrob
  obtain ⟨-, hspec, hidx, -⟩ := hrob.head
  refine ⟨_, hd, rfl, hspec, ?_⟩
  rw [← hidx]
  refine (h.of_dispatched program t n ?_).2.2.2.1
  rw [hd]
  exact List.mem_singleton_self _

include hpending hresp

variable (program) in
/-- With nothing in flight and no load outstanding, nothing is sent. -/
theorem SysInv.memory_empty :
    (sys.afterMemory program t).2.dmemReq.q = [] ∧
      (sys.afterMemory program t).1.lsu.loadResponsePending = false := by
  have hidle : ((resolved sys.core).afterResponse t.dmemResp).lsu.loadResponsePending = false := by
    rw [hresp, resolved_eq]
    exact hpending
  rcases h.memory_sends program t hidle with hnone | ⟨d, hd, -⟩
  · exact hnone
  · exact absurd hd List.not_mem_nil

include hsent

/-- A jump leaves in the cycle in which it is handed over. -/
theorem SysInv.redirect_of_empty (hdmem : 0 < t.dmemReqRoom)
    (hredirects : (sys.cycle program t).core.execute.aluResult.redirects = true) :
    sys.windowStep program t n [] = [] := by
  obtain ⟨hacc, -, htransfers⟩ := (h.cycle_redirects_iff t).mp hredirects
  obtain ⟨d, hd, hresult, hspec, hentry⟩ := h.head_dispatched n hacc
  rw [← hresult] at htransfers
  obtain ⟨hexc, hcompletes⟩ := hspec.control htransfers
  have hquiet := h.step.quiet_of_sent hsent
  have hbusy : d.result.entry.busy = false := by simp [AluResult.entry, hcompletes]
  rcases h.head_leaves t n hquiet hd (by rw [hentry, hbusy]) fun _ ↦
    System.dmemReq_room hdmem (h.memory_empty program hpending hresp).1 with hleaves | htrap
  · exact hleaves
  · have hcontra := htrap.exception
    rw [hentry] at hcontra
    exact absurd (hexc.symm.trans hcontra) Bool.false_ne_true

/-- The frontend waits for its response and nothing is in flight. -/
theorem SysInv.rest_of_empty (hstate : sys.core.rob.state ≠ .exception)
    (himem : 0 < t.imemReqRoom) :
    Rest (sys.cycle program t) (sys.coreStep program t).2.dmemReq.q
      (sys.windowStep program t n []) := by
  have hquiet := h.step.quiet_of_sent hsent
  obtain ⟨hq, hwaits⟩ := h.memory_empty program hpending hresp
  by_cases hacc : (sys.accepted program t).isSome = true
  · obtain ⟨d, hd, -, hspec, hentry⟩ := h.head_dispatched n hacc
    have hle := System.windowStep_length_le program sys t n []
    rw [hd] at hle
    refine h.rest_of_accepted n hacc hq hwaits ?_ hle
    by_cases hstore : d.result.isStore = true
    · have hmemory : d.result.memoryValid = true := by
        rw [hspec.memoryValid, hstore, Bool.or_true]
      exact (h.head_stays t n hquiet (by rw [hentry]; exact hspec.entry_busy hmemory)).2
    · exact h.storeRequests_of_head t n hd (by simpa using hstore)
  · have hnone : sys.accepted program t = none := by simpa using hacc
    refine h.rest_empty hstate himem n hnone hq hwaits (System.windowStep_of_nil n ?_)
    rw [h.step.dispatched_idle t n (Or.inl hnone)]
    rfl

end Empty

section Loading

variable {program : Program} {sys : System} {d : Inflight} (h : SysInv sys [d]) {t : Tick} (n : ℕ)
  {tx : BitVec 32} {resp : DmemResponse} (hsent : sys.core.frontend.requestSent = true)
  (hload : d.result.isLoad = true)
  (hentry : sys.core.rob.entries d.cell = (d.result.entry.asLoad d.result).sent tx)
  (hresp : t.dmemResp = some resp) (hmatches : sys.core.lsu.matchesPending resp = true)
  (hexc : resp.exception = false)

include h hload hentry hresp hmatches hexc

variable (program) in
/-- The load has arrived when the memory phase is done. -/
theorem SysInv.loading_arrived :
    ((sys.afterMemory program t).1.rob.entries d.cell).busy = false ∧
      ((sys.afterMemory program t).1.rob.entries d.cell).exception = false ∧
      ((sys.afterMemory program t).1.rob.entries d.cell).arrived = true := by
  have hspec := (h.window.rob.entryOf_mem (List.mem_singleton_self d)).dispatched
  have hlegal : d.result.uop.exception = false := by
    have hflags := hload
    rw [hspec.load, Bool.and_eq_true, Bool.not_eq_true'] at hflags
    exact hflags.2
  have hexception :
      (((d.result.entry.asLoad d.result).sent tx).complete resp).exception = false := by
    rw [RobEntry.complete_exception, hexc, Bool.false_or]
    exact hlegal
  rw [(h.memory_loading program hload hentry hresp hmatches).1]
  refine ⟨?_, hexception, ?_⟩
  · unfold RobEntry.complete
    rw [hexc]
    rfl
  · unfold RobEntry.arrived
    rw [RobEntry.complete_completed, hexception]
    rfl

include hsent

variable (program) in
/-- The load leaves. -/
theorem SysInv.window_of_loading :
    sys.windowStep program t n [d] = sys.dispatched program t n := by
  obtain ⟨hbusy, hexc, -⟩ :=
    h.loading_arrived program hload hentry hresp hmatches hexc
  have hspec := (h.window.rob.entryOf_mem (List.mem_singleton_self d)).dispatched
  have hhead := h.head_entry program t rfl
  rcases h.head_leaves t n (h.step.quiet_of_sent hsent) (List.singleton_append ..)
    (by rw [hhead, hbusy]) fun hstore ↦ absurd hstore (by simp [hspec.isStore_of_load hload]) with
    hleaves | htrap
  · exact hleaves
  · have hcontra := htrap.exception
    rw [hhead, hexc] at hcontra
    exact absurd hcontra Bool.false_ne_true

/-- The frontend waits for its response, and a load for its own. -/
theorem SysInv.rest_of_loading (hstate : sys.core.rob.state ≠ .exception)
    (himem : 0 < t.imemReqRoom) :
    Rest (sys.cycle program t) (sys.coreStep program t).2.dmemReq.q
      (sys.windowStep program t n [d]) := by
  obtain ⟨-, hq, hwaits⟩ := h.memory_loading program hload hentry hresp hmatches
  have hspec := (h.window.rob.entryOf_mem (List.mem_singleton_self d)).dispatched
  have hwindow := h.window_of_loading program n hsent hload hentry hresp hmatches hexc
  by_cases hacc : (sys.accepted program t).isSome = true
  · refine h.rest_of_accepted n hacc hq hwaits ?_ ?_
    · exact h.storeRequests_of_head t n (List.singleton_append ..) (hspec.isStore_of_load hload)
    · rw [hwindow]
      unfold System.dispatched
      dsimp only
      split_ifs
      · exact Nat.le_refl 1
      · exact Nat.zero_le 1
  · have hnone : sys.accepted program t = none := by simpa using hacc
    refine h.rest_empty hstate himem n hnone hq hwaits ?_
    rw [hwindow, h.step.dispatched_idle t n (Or.inl hnone)]

end Loading

/-! ### The invariant -/

/-- The instruction at the pc is no load that leaves its beat, no load in front of a jump, and no
load or store word of undefined size. -/
structure Machine.Orderly (program : Program) (m : Machine) : Prop where
  beat : m.LoadsInBeat program
  size : m.arch.halted = false → ¬ UndefinedSize (program m.arch.pc)
  jump : m.arch.completes program = true → (m.arch.result program).isLoad = true →
    ((m.step program).arch.result program).redirects = false

/-- The rename fields and the queue positions do not decide whether a result redirects. -/
theorem AluResult.Implements.redirects {r a : AluResult} (h : r.Implements a) :
    r.redirects = a.redirects := by
  rw [h.same]
  rfl

/-- An instruction of the machine that is decoded with an exception is complete when it is
dispatched. -/
theorem AluResult.Implements.complete {program : Program} {a : ArchState} {r : AluResult}
    (h : r.Implements (a.result program)) (hspec : DispatchedSpec r)
    (hdefined : ¬ UndefinedSize (program a.pc)) (hexc : r.uop.exception = true) :
    r.entry.busy = false := by
  have hinst : r.uop.inst = program a.pc := by
    rw [h.same]
    exact (decodeInst_spec a.pc (program a.pc)).inst
  have hdecoded : (decodeInst a.pc (program a.pc)).exception = true := by
    rw [h.same] at hexc
    exact hexc
  have hother := dispatchedResult_spec {} a.pc (program a.pc)
  have hcomplete := dispatchedResult_complete (s := {}) hdecoded hdefined
  unfold AluResult.entry at hcomplete ⊢
  dsimp only at hcomplete ⊢
  rw [hother.completes, hother.loadFlag, hother.storeFlag, dispatchedResult_inst] at hcomplete
  rw [hspec.completes, hspec.loadFlag, hspec.storeFlag, hinst, hcomplete]

/-- The core with a memory that answers at once, and the sequential machine. -/
structure MemorySystem.Prompt (program : Program) (ms : MemorySystem) (m : Machine)
    (w : List Inflight) : Prop where
  refines : ms.Refines program m w
  conserved : Conserved ms.sys.core.rename.intMapTable ms.sys.core.rename.intFreeList w
  redirect : ms.sys.core.execute.aluResult.redirects = true → w = []
  rest : m.arch.halted = false → Rest ms.sys ms.requests w

section Prompt

variable {program : Program} {ms : MemorySystem} {m : Machine} {w : List Inflight}
  (h : ms.Prompt program m w) {mt : MemoryTick} (hmt : mt.Prompt) (n : ℕ)

include h

omit hmt in
theorem MemorySystem.Prompt.inv : SysInv ms.sys w := h.refines.inv

omit hmt in
/-- A core that has not stopped: the machine runs, and the instructions in flight track it. -/
theorem MemorySystem.Prompt.tracking (hrun : m.arch.halted = false) :
    ms.sys.core.rob.state ≠ .exception ∧ Tracks program ms.sys.core m w := by
  cases h.refines.phase with
  | tracking state _ tracks _ => exact ⟨state, tracks⟩
  | trapped _ halted =>
    rw [hrun] at halted
    exact absurd halted Bool.false_ne_true
  | lost redirects nonempty => exact absurd (h.redirect redirects) nonempty

omit hmt in
/-- When the machine has halted, the core has stopped. -/
theorem MemorySystem.Prompt.trapped (hhalted : m.arch.halted = true) : TrapHead ms.sys w := by
  cases h.refines.phase with
  | tracking _ running =>
    rw [hhalted] at running
    exact absurd running.symm Bool.false_ne_true
  | trapped trap _ => exact trap
  | lost redirects nonempty => exact absurd (h.redirect redirects) nonempty

omit hmt in
theorem MemorySystem.Prompt.stopped (hhalted : m.arch.halted = true) (t : Tick) :
    ms.sys.accepted program t = none := by
  unfold System.accepted
  rw [if_pos (h.trapped hhalted).state]

omit hmt in
/-- At most one instruction is in flight while the core has not stopped. -/
theorem MemorySystem.Prompt.short (hrun : m.arch.halted = false) : w.length ≤ 1 := by
  cases h.rest hrun with
  | fetching _ _ _ short => exact short
  | empty _ _ _ none =>
    rw [none]
    exact Nat.zero_le 1
  | loading _ d _ _ window =>
    rw [window]
    exact Nat.le_refl 1

omit hmt in
/-- A cycle that hands nothing over is in order. -/
theorem MemorySystem.Prompt.inOrder_of_none {t : Tick} (hacc : ms.sys.accepted program t = none) :
    ms.sys.InOrder program t := by
  have hnot : ¬ (ms.sys.accepted program t).isSome = true := by simp [hacc]
  exact ⟨fun hsome ↦ absurd hsome hnot, fun hsome ↦ absurd hsome hnot,
    fun hsome ↦ absurd hsome hnot,
    fun hredirects ↦ h.inv.window.rob.isEmpty_iff.mpr (h.redirect hredirects)⟩

include hmt

/-- The load that has been sent is answered in the cycle. -/
theorem MemorySystem.Prompt.answered {req : DmemRequest} (hrequest : ms.requests = [req])
    (hload : req.isStore = false) :
    ∃ resp, (ms.tickOf mt).dmemResp = some resp ∧ resp.exception = false ∧
      ms.sys.core.lsu.matchesPending resp = true :=
  (h.refines.memory.answered hmt hrequest hload).2

/-- Every cycle is in order. -/
theorem MemorySystem.Prompt.inOrder : ms.sys.InOrder program (ms.tickOf mt) := by
  cases hrun : m.arch.halted with
  | true => exact h.inOrder_of_none (h.stopped hrun _)
  | false =>
    cases h.rest hrun with
    | fetching sent => exact h.inOrder_of_none (h.inv.step.accepted_of_not_sent program _ sent)
    | empty sent pending short none =>
      refine h.inv.inOrder_of_short _ ?_ h.conserved (h.inv.sourcesReady _ ?_) h.redirect
      · rw [none]
        exact Nat.zero_le 1
      · rw [none]
        exact fun d hd ↦ absurd hd List.not_mem_nil
    | loading sent d tx req window load entry request isLoad =>
      obtain ⟨resp, hresp, hexc, hmatches⟩ := h.answered hmt request isLoad
      refine h.inv.inOrder_of_short _ ?_ h.conserved (h.inv.sourcesReady _ ?_) h.redirect
      · rw [window]
        exact Nat.le_refl 1
      · subst window
        intro d' hd' _
        obtain rfl := List.mem_singleton.mp hd'
        exact (h.inv.loading_arrived program load entry hresp hmatches hexc).2.2

variable (horderly : ∀ j, ((Machine.step program)^[j] m).Orderly program)

include horderly

/-- What is handed over behind a load does not jump. -/
theorem MemorySystem.Prompt.not_redirects (hrun : m.arch.halted = false) {d : Inflight}
    (hw : w = [d]) (hload : d.result.isLoad = true) :
    (ms.sys.cycle program (ms.tickOf mt)).core.execute.aluResult.redirects = false := by
  by_contra hcontra
  subst hw
  have hprocessed : BoomCore.Refines program ms.sys (ms.process mt.processed).memory
      (ms.process mt.processed).requests (ms.process mt.processed).answers m [d] :=
    { h.refines with memory := h.refines.memory.process mt.processed }
  obtain ⟨hacc, hfull, hredirects⟩ :=
    (h.inv.cycle_redirects_iff (ms.tickOf mt)).mp (by simpa using hcontra)
  obtain ⟨resp, hsome⟩ := Option.isSome_iff_exists.mp hacc
  have hd := h.inv.step.dispatched_some (ms.tickOf mt) 0 hsome hfull h.inv.tail_lt
  have htracks : Tracks program (ms.sys.atCommit program (ms.tickOf mt)) m
      ([d] ++ ms.sys.dispatched program (ms.tickOf mt) 0) := by
    cases h.refines.phase with
    | tracking _ _ tracks pc =>
      exact (hprocessed.tracks_atCommit (i := mt.answered) rfl (h.inOrder hmt) 0
        (fun j ↦ (horderly j).beat) tracks pc).1
    | trapped _ halted =>
      rw [hrun] at halted
      exact absurd halted Bool.false_ne_true
    | lost _ nonempty => exact absurd (h.redirect ‹_›) nonempty
  rw [hd] at htracks
  obtain ⟨hfirst, hrest⟩ := Run.along_cons_iff.mp htracks
  have hsame := (hfirst hrun).implements.same
  have hspec := (h.inv.window.rob.entryOf_mem (List.mem_singleton_self d)).dispatched
  have hmachine : (m.arch.result program).isLoad = true := by
    rw [hsame] at hload
    exact hload
  have hdone : m.arch.completes program = true := by
    have hlegal := hload
    rw [hspec.load, Bool.and_eq_true, Bool.not_eq_true', ← hspec.exception, hsame] at hlegal
    unfold ArchState.completes
    rw [hrun, show (m.arch.result program).exception = false from hlegal.2]
    rfl
  have hrunning : (m.step program).arch.halted = false := by
    rw [Machine.step_of_completes hdone]
    exact hrun
  have hsecond := ((Run.along_cons_iff.mp hrest).1 hrunning).implements.redirects
  have hjump : ((m.step program).arch.result program).redirects = false :=
    (horderly 0).jump hdone hmachine
  rw [hjump] at hsecond
  exact absurd (hsecond.symm.trans hredirects) Bool.false_ne_true

/-- A jump is the only instruction in flight when it redirects. -/
theorem MemorySystem.Prompt.cycle_redirect
    (hredirects : (ms.sys.cycle program (ms.tickOf mt)).core.execute.aluResult.redirects = true) :
    ms.sys.windowStep program (ms.tickOf mt) n w = [] := by
  have hacc := ((h.inv.cycle_redirects_iff (ms.tickOf mt)).mp hredirects).1
  cases hrun : m.arch.halted with
  | true =>
    rw [h.stopped hrun] at hacc
    exact absurd hacc Bool.false_ne_true
  | false =>
    cases h.rest hrun with
    | fetching sent =>
      rw [h.inv.step.accepted_of_not_sent program _ sent] at hacc
      exact absurd hacc Bool.false_ne_true
    | empty sent pending short none =>
      subst none
      exact h.inv.redirect_of_empty n sent pending (h.refines.memory.drained hmt pending short).2
        hmt.dmemReq hredirects
    | loading sent d tx req window load =>
      rw [h.not_redirects hmt horderly hrun window load] at hredirects
      exact absurd hredirects Bool.false_ne_true

/-- The requests and the instructions in flight after a cycle in which the core does not stop. -/
theorem MemorySystem.Prompt.cycle_rest (hrun : m.arch.halted = false)
    (hnotrap : ¬ ms.sys.TakesTrap program (ms.tickOf mt)) :
    Rest (ms.cycle program mt).sys (ms.cycle program mt).requests
      (ms.sys.windowStep program (ms.tickOf mt) n w) := by
  obtain ⟨hstate, htracks⟩ := h.tracking hrun
  have himem : 0 < (ms.tickOf mt).imemReqRoom := hmt.imemReq
  have hdmem : 0 < (ms.tickOf mt).dmemReqRoom := hmt.dmemReq
  have hmem := h.refines.memory
  have hrequests : (ms.cycle program mt).requests = ms.processOne.requests ++
      (ms.sys.coreStep program (ms.tickOf mt)).2.dmemReq.q := by
    unfold MemorySystem.cycle
    rw [hmt.processed]
    rfl
  have hsys : (ms.cycle program mt).sys = ms.sys.cycle program (ms.tickOf mt) := rfl
  rw [hsys, hrequests]
  cases h.rest hrun with
  | fetching sent pending drained short =>
    obtain ⟨hnone, hresp⟩ := hmem.drained hmt pending (by rw [drained]; exact Nat.zero_le 1)
    rw [hnone, List.nil_append]
    cases w with
    | nil => exact h.inv.rest_of_fetching_nil hstate himem n sent pending hresp
    | cons d rest =>
      obtain rfl : rest = [] := by simpa using short
      have hquiet : ms.sys.core.execute.aluResult.redirects = false := by
        by_contra hcontra
        exact List.cons_ne_nil d [] (h.redirect (by simpa using hcontra))
      refine h.inv.rest_of_fetching_singleton hstate himem hdmem n sent pending hresp
        hquiet hnotrap fun hexc ↦ ?_
      have hin := (Run.along_cons_iff.mp htracks).1 hrun
      exact hin.implements.complete (h.inv.dispatchedSpec (List.mem_singleton_self d))
        ((horderly 0).size hrun) hexc
  | empty sent pending short none =>
    obtain ⟨hnone, hresp⟩ := hmem.drained hmt pending short
    subst none
    rw [hnone, List.nil_append]
    exact h.inv.rest_of_empty n sent pending hresp hstate himem
  | loading sent d tx req window load entry request isLoad =>
    obtain ⟨hnone, resp, hresp, hexc, hmatches⟩ := hmem.answered hmt request isLoad
    subst window
    rw [hnone, List.nil_append]
    exact h.inv.rest_of_loading n sent load entry hresp hmatches hexc hstate himem

/-- Assumes: the next instructions of the machine are orderly, and the memory answers at once. The
cycle is in order and keeps the invariant, and follows the machine. -/
theorem MemorySystem.Prompt.cycle :
    ∃ m', (ms.cycle program mt).Prompt program m'
        (ms.sys.windowStep program (ms.tickOf mt) n w) ∧
      FollowsMachine program ms.sys (ms.tickOf mt) n w m m' := by
  have hinOrder := h.inOrder hmt
  obtain ⟨m', hnext, hfollows⟩ :=
    h.refines.cycle mt n hinOrder (fun j ↦ (horderly j).beat) hmt.commitTrace
  have hredirect := h.cycle_redirect hmt n horderly
  obtain ⟨free, hreg⟩ := h.refines.registers
  obtain ⟨-, -, hcons⟩ := h.inv.regInv_cycle hreg h.refines.freeList (ms.tickOf mt) n
    hinOrder.renamesSafely
  refine ⟨m', ⟨hnext, hcons h.conserved fun hredirects ↦ ?_, hredirect, fun hrun' ↦ ?_⟩, hfollows⟩
  · rw [h.redirect hredirects]
    rfl
  · have hrun : m.arch.halted = false := by
      rcases hfollows with ⟨rfl, -⟩ | ⟨rfl, -⟩
      · exact hrun'
      · exact Machine.running_of_step hrun'
    refine h.cycle_rest hmt n horderly hrun fun htrap ↦ ?_
    cases hnext.phase with
    | tracking state => exact state (htrap.state _ h.inv)
    | trapped _ halted =>
      rw [hrun'] at halted
      exact Bool.false_ne_true halted
    | lost redirects nonempty => exact nonempty (hredirect redirects)

end Prompt

/-! ### A stopped core -/

/-- No load is outstanding, and at most one request and one instruction are left. -/
structure MemorySystem.Idle (ms : MemorySystem) (w : List Inflight) : Prop where
  pending : ms.sys.core.lsu.loadResponsePending = false
  requests : ms.requests.length ≤ 1
  window : w.length ≤ 1

/-- Assumes: no load is outstanding, and no instruction is handed over in a cycle that takes a trap.
Nothing is sent, and no load is outstanding after it. -/
theorem SysInv.takesTrap_idle {program : Program} {sys : System} {w : List Inflight}
    (h : SysInv sys w) {t : Tick} (n : ℕ) (htrap : sys.TakesTrap program t)
    (hshort : w.length ≤ 1) (hacc : sys.accepted program t = none)
    (hpending : sys.core.lsu.loadResponsePending = false) (hresp : t.dmemResp = none) :
    (sys.cycle program t).core.lsu.loadResponsePending = false ∧
      (sys.coreStep program t).2.dmemReq.q = [] ∧
      (sys.windowStep program t n w).length ≤ 1 := by
  have hidle : ((resolved sys.core).afterResponse t.dmemResp).lsu.loadResponsePending = false := by
    rw [hresp, resolved_eq]
    exact hpending
  have hstep := h.coreStep_of_takesTrap t htrap
  have hlsu : (sys.cycle program t).core.lsu = (sys.afterMemory program t).1.lsu := by
    show (sys.coreStep program t).1.lsu = _
    rw [hstep, ← h.atCommit_lsu program t]
  have hwindow : (sys.windowStep program t n w).length ≤ 1 := by
    refine (System.windowStep_length_le program sys t n w).trans ?_
    rw [h.step.dispatched_idle t n (Or.inl hacc), List.append_nil]
    exact hshort
  have hq : (sys.coreStep program t).2.dmemReq.q = (sys.afterMemory program t).2.dmemReq.q := by
    rw [hstep, ← System.commitPipe_dmemReq]
  rw [hlsu, hq]
  rcases h.memory_sends program t hidle with ⟨hnone, hwaits⟩ | ⟨d, hd, tx, req, hload, -, -, hentry⟩
  · exact ⟨hwaits, hnone, hwindow⟩
  · obtain ⟨d', rfl⟩ := List.length_eq_one_iff.mp
      (Nat.le_antisymm hshort (List.length_pos_of_mem hd))
    obtain rfl := List.mem_singleton.mp hd
    have hbusy := htrap.complete
    rw [h.head_entry program t rfl, hentry] at hbusy
    have hbusy' : d.result.entry.busy = false := hbusy
    rw [(h.window.rob.entryOf_mem hd).dispatched.entry_busy_of_load hload] at hbusy'
    exact absurd hbusy'.symm Bool.false_ne_true

section Stopped

variable {program : Program} {ms : MemorySystem} {m m' : Machine} {w : List Inflight}
  (h : ms.Prompt program m w) {mt : MemoryTick} (hmt : mt.Prompt) (n : ℕ)
  (hidle : m.arch.halted = true → ms.Idle w)

include h hmt hidle

/-- The memory has processed its requests before the cycle, and its answer is delivered in it. -/
theorem MemorySystem.Prompt.served : ms.processOne.requests = [] ∧
    ms.processOne.answers = (ms.tickOf mt).dmemResp.toList := by
  have hmem := h.refines.memory
  have hanswers : ms.processOne.answers = (ms.tickOf mt).dmemResp.toList := by
    rw [hmt.dmemResp]
    have hcount := hmem.processOne.count
    match hlist : ms.processOne.answers with
    | [] => rfl
    | [a] => rfl
    | a :: b :: rest =>
      rw [hlist] at hcount
      simp at hcount
      omega
  refine ⟨?_, hanswers⟩
  cases hrun : m.arch.halted with
  | true => exact (hmem.drained hmt (hidle hrun).pending (hidle hrun).requests).1
  | false =>
    cases h.rest hrun with
    | fetching _ pending drained _ =>
      exact (hmem.drained hmt pending (by rw [drained]; exact Nat.zero_le 1)).1
    | empty _ pending short _ => exact (hmem.drained hmt pending short).1
    | loading _ _ _ req _ _ _ request isLoad => exact (hmem.answered hmt request isLoad).1

/-- A core that stops leaves no load outstanding. -/
theorem MemorySystem.Prompt.cycle_idle
    (hnext : (ms.cycle program mt).Prompt program m' (ms.sys.windowStep program (ms.tickOf mt) n w))
    (hhalted : m'.arch.halted = true) :
    (ms.cycle program mt).Idle (ms.sys.windowStep program (ms.tickOf mt) n w) := by
  have hserved := (h.served hmt hidle).1
  have hrequests : (ms.cycle program mt).requests =
      (ms.sys.coreStep program (ms.tickOf mt)).2.dmemReq.q := by
    unfold MemorySystem.cycle
    rw [hmt.processed]
    show ms.processOne.requests ++ _ = _
    rw [hserved, List.nil_append]
  have hsys : (ms.cycle program mt).sys = ms.sys.cycle program (ms.tickOf mt) := rfl
  have hidle' : ∀ (hacc : ms.sys.accepted program (ms.tickOf mt) = none)
      (htrap : ms.sys.TakesTrap program (ms.tickOf mt)) (hshort : w.length ≤ 1)
      (hpending : ms.sys.core.lsu.loadResponsePending = false)
      (hresp : (ms.tickOf mt).dmemResp = none),
      (ms.cycle program mt).Idle (ms.sys.windowStep program (ms.tickOf mt) n w) := by
    intro hacc htrap hshort hpending hresp
    obtain ⟨hpending', hq, hwindow⟩ := h.inv.takesTrap_idle n htrap hshort hacc hpending hresp
    exact ⟨by rw [hsys]; exact hpending', by rw [hrequests, hq]; exact Nat.zero_le 1, hwindow⟩
  cases hrun : m.arch.halted with
  | true =>
    obtain ⟨pending, requests, window⟩ := hidle hrun
    exact hidle' (h.stopped hrun _) ((h.trapped hrun).takesTrap program _) window pending
      (h.refines.memory.drained hmt pending requests).2
  | false =>
    have htrap : ms.sys.TakesTrap program (ms.tickOf mt) := by
      by_contra hnot
      exact h.inv.state_of_not_takesTrap _ hnot (h.tracking hrun).1 (hnext.trapped hhalted).state
    cases h.rest hrun with
    | fetching sent pending drained short =>
      exact hidle' (h.inv.step.accepted_of_not_sent program _ sent) htrap short pending
        (h.refines.memory.drained hmt pending (by rw [drained]; exact Nat.zero_le 1)).2
    | empty sent pending short none =>
      subst none
      have hresp := (h.refines.memory.drained hmt pending short).2
      obtain ⟨hq, hwaits⟩ := h.inv.memory_empty program pending hresp
      have hstep := h.inv.coreStep_of_takesTrap (ms.tickOf mt) htrap
      refine ⟨?_, ?_, ?_⟩
      · rw [hsys]
        show (ms.sys.coreStep program (ms.tickOf mt)).1.lsu.loadResponsePending = false
        rw [hstep]
        show (ms.sys.atCommit program (ms.tickOf mt)).lsu.loadResponsePending = false
        rw [h.inv.atCommit_lsu program, hwaits]
      · rw [hrequests, hstep]
        show (ms.sys.commitPipe program (ms.tickOf mt)).dmemReq.q.length ≤ 1
        rw [System.commitPipe_dmemReq, hq]
        exact Nat.zero_le 1
      · refine (System.windowStep_length_le program ms.sys _ n []).trans ?_
        rw [List.nil_append, h.inv.dispatched_length program _ n (h.inOrder hmt).room]
        split_ifs
        · exact Nat.le_refl 1
        · exact Nat.zero_le 1
    | loading sent d tx req window load entry request isLoad =>
      subst window
      obtain ⟨-, resp, hresp, hexc, hmatches⟩ := h.refines.memory.answered hmt request isLoad
      have hcontra := htrap.exception
      rw [h.inv.head_entry program _ rfl,
        (h.inv.loading_arrived program load entry hresp hmatches hexc).2.1] at hcontra
      exact absurd hcontra Bool.false_ne_true

end Stopped

/-! ### The start -/

theorem prompt_init (program : Program) (memory : ByteMemory 64) :
    MemorySystem.Prompt program { memory := memory } { memory := memory } [] :=
  ⟨refines_init program memory, conserved_init, fun _ ↦ rfl,
    fun _ ↦ .fetching rfl rfl rfl (Nat.zero_le 1)⟩

end BoomCore
