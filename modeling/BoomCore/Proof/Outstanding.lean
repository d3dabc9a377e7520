import BoomCore.Proof.LoadFree
import BoomCore.Proof.Writeback

/-!
# The outstanding load

A response changes something only when it answers the load that waits (`WindowInv.of_answers`). The
wait ends with a response that carries the transaction of the load and with nothing else: no load is
sent before it (`SysInv.pending_cycle`), also when the load has been squashed meanwhile. Once a load
is complete its entry stays as it is (`SysInv.complete_cycle`), and the transaction of a load that
was sent is in a request of a cycle after its dispatch (`sent_of_awaits`).
-/

set_option autoImplicit false
set_option relaxedAutoImplicit false

namespace BoomCore

open Ring

/-- The entry is of a load that was sent and has no response yet. -/
def RobEntry.waits (e : RobEntry) : Bool := e.awaitsResponse && !e.memoryCompleted

/-! ### The response -/

section Response

variable {s : BoomCoreState} {w : List Inflight} {resp : DmemResponse}

/-- A response that answers a load carries its transaction. -/
theorem WindowInv.of_answers (h : WindowInv s w) (hanswers : s.answers resp = true) :
    s.lsu.pendingLoadRobIdx < robDepth ∧
      (s.rob.entries s.lsu.pendingLoadRobIdx).waits = true ∧
      resp.transactionId = (s.rob.entries s.lsu.pendingLoadRobIdx).memoryTransactionId := by
  have hboth := hanswers
  unfold BoomCoreState.answers LsuState.matchesPending at hboth
  simp only [Bool.and_eq_true, beq_iff_eq] at hboth
  obtain ⟨⟨hpending, htx⟩, hawaits⟩ := hboth
  have hopen := h.lsu.outstanding hpending hawaits
  refine ⟨h.lsu.idx_lt, ?_, ?_⟩
  · unfold RobEntry.waits
    rw [hawaits, hopen]
    rfl
  · rw [(h.lsu.inFlight _ h.lsu.idx_lt hawaits hopen).2.2]
    exact htx

/-- A response changes no entry but the one of the load that it answers. -/
theorem afterResponse_entry_ne {i : ℕ}
    (hne : (s.afterResponse (some resp)).rob.entries i ≠ s.rob.entries i) :
    s.answers resp = true ∧ i = s.lsu.pendingLoadRobIdx := by
  by_cases hanswers : s.answers resp = true
  · refine ⟨hanswers, ?_⟩
    by_contra hi
    refine hne ?_
    show (handleResponse s resp).rob.entries i = _
    rw [handleResponse_of_answers hanswers]
    exact Function.update_of_ne hi _ _
  · refine absurd ?_ hne
    show (handleResponse s resp).rob.entries i = _
    rw [handleResponse_of_not_answers (by simpa using hanswers)]
    split_ifs <;> rfl

/-- A response changes no register but the destination of the load that it answers. -/
theorem afterResponse_intRf_ne {p : ℕ}
    (hne : (s.afterResponse (some resp)).intRf p ≠ s.intRf p) :
    s.answers resp = true ∧
      p = (s.rob.entries s.lsu.pendingLoadRobIdx).uop.rename.pdst := by
  by_cases hanswers : s.answers resp = true
  · refine ⟨hanswers, ?_⟩
    by_contra hp
    refine hne ?_
    show (handleResponse s resp).intRf p = _
    rw [handleResponse_of_answers hanswers]
    dsimp only
    split_ifs
    · exact Function.update_of_ne hp _ _
    · rfl
  · refine absurd ?_ hne
    show (handleResponse s resp).intRf p = _
    rw [handleResponse_of_not_answers (by simpa using hanswers)]
    split_ifs <;> rfl

/-- A response neither sends a load nor takes one back. -/
theorem afterResponse_awaits (resp : Option DmemResponse) (i : ℕ) :
    ((s.afterResponse resp).rob.entries i).awaitsResponse =
        (s.rob.entries i).awaitsResponse ∧
      ((s.afterResponse resp).rob.entries i).memoryTransactionId =
        (s.rob.entries i).memoryTransactionId := by
  cases resp with
  | none => exact ⟨rfl, rfl⟩
  | some resp =>
    by_cases hne : (s.afterResponse (some resp)).rob.entries i = s.rob.entries i
    · rw [hne]
      exact ⟨rfl, rfl⟩
    · obtain ⟨hanswers, rfl⟩ := afterResponse_entry_ne hne
      show ((handleResponse s resp).rob.entries _).awaitsResponse = _ ∧
        ((handleResponse s resp).rob.entries _).memoryTransactionId = _
      rw [handleResponse_of_answers hanswers]
      dsimp only
      rw [Function.update_self, RobEntry.complete_awaits]
      refine ⟨rfl, ?_⟩
      unfold RobEntry.complete
      split_ifs <;> rfl

/-- A response that does not match the outstanding transaction changes nothing. -/
theorem afterResponse_of_not_matches (resp : Option DmemResponse)
    (hnot : ∀ r, resp = some r → s.lsu.matchesPending r = false) : s.afterResponse resp = s := by
  cases resp with
  | none => rfl
  | some r =>
    show handleResponse s r = s
    unfold handleResponse
    rw [hnot r rfl, if_neg Bool.false_ne_true]

end Response

/-! ### The load/store unit -/

section Module

variable {s : BoomCoreState} {w : List Inflight} (h : WindowInv s w) (hhanded : Handed s w)
  (hflush : s.globalFlush = false) (pipe : PipeSignals)

include h hhanded hflush

/-- A load that has been sent when the unit is done had been sent before, or its request is the one
that the unit writes. -/
theorem lsuModule_awaits {i : ℕ}
    (hawaits : ((lsuModule s pipe).1.rob.entries i).awaitsResponse = true) :
    ((s.rob.entries i).awaitsResponse = true ∧
        (s.rob.entries i).memoryTransactionId =
          ((lsuModule s pipe).1.rob.entries i).memoryTransactionId) ∨
      ∃ entry, (lsuModule s pipe).2.dmemReq = pipe.dmemReq.write
        (loadRequest entry i ((lsuModule s pipe).1.rob.entries i).memoryTransactionId) := by
  obtain ⟨hsame, htx⟩ := afterResponse_awaits (s := s) pipe.dmemResp.q.head? i
  have hresp := h.afterResponse pipe.dmemResp.q.head?
  have hhanded' := hhanded.afterResponse pipe.dmemResp.q.head?
  have hdmem := (takeDmemResponse_eq s pipe).2
  rw [lsuModule_eq hflush] at hawaits ⊢
  generalize s.afterResponse pipe.dmemResp.q.head? = r at *
  have hrecord : ((enqueueResult r).rob.entries i).awaitsResponse = true →
      (enqueueResult r).rob.entries i = r.rob.entries i := by
    intro hawaits'
    by_cases hmemory : (r.execute.aluResult.valid && r.execute.aluResult.memoryValid) = true
    · obtain ⟨w', d, -, -, -, lsu, heq, -⟩ := enqueueResult_of_memory hresp hhanded' hmemory
      rw [heq] at hawaits' ⊢
      dsimp only at hawaits' ⊢
      have hne : i ≠ slot robDepth r.rob.head w'.length := by
        rintro rfl
        rw [Function.update_self, AluResult.recorded_awaits] at hawaits'
        simp at hawaits'
      exact Function.update_of_ne hne _ _
    · rw [enqueueResult_of_none (by simpa using hmemory)]
  rcases issueLoadsFrom_cases (enqueueResult r) (takeDmemResponse s pipe).2 robDepth 0 with
    heq | ⟨j, hj, hcan, heq⟩
  · rw [heq] at hawaits ⊢
    dsimp only at hawaits ⊢
    have hentry := hrecord hawaits
    rw [hentry] at hawaits ⊢
    exact Or.inl ⟨hsame ▸ hawaits, htx.symm⟩
  · rw [heq, tryIssueLoad_of_can hcan] at hawaits ⊢
    dsimp only at hawaits ⊢
    by_cases hi : i = j
    · subst hi
      rw [Function.update_self, hdmem]
      exact Or.inr ⟨_, rfl⟩
    · rw [Function.update_of_ne hi] at hawaits ⊢
      have hentry := hrecord hawaits
      rw [hentry] at hawaits ⊢
      exact Or.inl ⟨hsame ▸ hawaits, htx.symm⟩

omit h hhanded in
/-- While a load is outstanding and its response has not come, no load is sent. -/
theorem lsuModule_of_pending (hpending : s.lsu.loadResponsePending = true)
    (hnot : ∀ r, pipe.dmemResp.q.head? = some r → s.lsu.matchesPending r = false) :
    (lsuModule s pipe).1.lsu.loadResponsePending = true ∧
      (lsuModule s pipe).1.lsu.pendingLoadTransactionId = s.lsu.pendingLoadTransactionId ∧
      (lsuModule s pipe).2.dmemReq = pipe.dmemReq := by
  rw [lsuModule_eq hflush, afterResponse_of_not_matches _ hnot]
  have hpend : (enqueueResult s).lsu.loadResponsePending = true := by
    rw [enqueueResult_pending]
    exact hpending
  have htx : (enqueueResult s).lsu.pendingLoadTransactionId = s.lsu.pendingLoadTransactionId := by
    unfold enqueueResult LsuState.pushStore LsuState.pushLoad
    dsimp only
    split_ifs <;> rfl
  rcases issueLoadsFrom_cases (enqueueResult s) (takeDmemResponse s pipe).2 robDepth 0 with
    heq | ⟨j, -, hcan, -⟩
  · rw [heq]
    exact ⟨hpend, htx, (takeDmemResponse_eq s pipe).2⟩
  · unfold canIssueLoad at hcan
    rw [hpend] at hcan
    simp at hcan

end Module

/-! ### A cycle -/

section Cycle

variable (program : Program) {sys : System} {w : List Inflight} (h : SysInv sys w) (t : Tick)

include h

/-- From the load/store unit on, the outstanding load stays as it is. -/
theorem SysInv.cycle_pending :
    (sys.cycle program t).core.lsu.loadResponsePending =
        (sys.afterMemory program t).1.lsu.loadResponsePending ∧
      (sys.cycle program t).core.lsu.pendingLoadTransactionId =
        (sys.afterMemory program t).1.lsu.pendingLoadTransactionId := by
  have hat := h.atCommit_lsu program t
  rw [← hat]
  show (sys.coreStep program t).1.lsu.loadResponsePending = _ ∧
    (sys.coreStep program t).1.lsu.pendingLoadTransactionId = _
  cases hredirects : sys.core.execute.aluResult.redirects with
  | true =>
    rw [h.step.coreStep_of_redirects program t hredirects]
    exact ⟨rfl, rfl⟩
  | false =>
    rw [h.step.coreStep_of_not_redirects program t hredirects]
    obtain ⟨hpending, -, htx⟩ := commitStage_pending (sys.atCommit program t)
      (sys.commitPipe program t)
    exact ⟨hpending, htx⟩

/-- A cycle in which the outstanding load gets no response sends no load, and the load stays
outstanding. -/
theorem SysInv.pending_cycle (hpending : sys.core.lsu.loadResponsePending = true)
    (hnot : ∀ resp, t.dmemResp = some resp →
      resp.transactionId ≠ sys.core.lsu.pendingLoadTransactionId) :
    (sys.cycle program t).core.lsu.loadResponsePending = true ∧
      (sys.cycle program t).core.lsu.pendingLoadTransactionId =
        sys.core.lsu.pendingLoadTransactionId ∧
      (sys.afterMemory program t).2.dmemReq.q = [] := by
  have hlsu : (resolved sys.core).lsu = sys.core.lsu := by rw [resolved_eq]
  obtain ⟨hpend, htx, hreq⟩ := lsuModule_of_pending (resolved_globalFlush sys.core)
    (sys.ports program t) (by rw [hlsu]; exact hpending) fun resp hresp ↦ by
      rw [System.ports_dmemResp] at hresp
      unfold LsuState.matchesPending
      rw [hlsu, beq_eq_false_iff_ne.mpr (hnot resp hresp), Bool.and_false]
  obtain ⟨hpend', htx'⟩ := h.cycle_pending program t
  rw [hlsu] at htx
  refine ⟨hpend'.trans hpend, htx'.trans htx, ?_⟩
  show (lsuModule (resolved sys.core) (sys.ports program t)).2.dmemReq.q = []
  rw [hreq]
  rfl

/-- The entry of an instruction that stays in flight is not touched any more once the response has
completed it. -/
theorem SysInv.complete_cycle (n : ℕ) {d : Inflight} (hd : d ∈ w)
    (hd' : d ∈ sys.windowStep program t n w)
    (hbusy : (((resolved sys.core).afterResponse t.dmemResp).rob.entries d.cell).busy = false) :
    (sys.cycle program t).core.rob.entries d.cell =
      ((resolved sys.core).afterResponse t.dmemResp).rob.entries d.cell := by
  rw [h.cycle_entry t n hd', h.atCommit_entry t hd, System.afterMemory_eq]
  have hresp := System.ports_dmemResp program sys t
  rw [← hresp] at hbusy ⊢
  exact lsuModule_entry_of_answered h.beforeMemory.1 h.beforeMemory.2 (resolved_globalFlush _) _
    hbusy

/-- The load request of a cycle is among its requests. -/
theorem SysInv.mem_requests {req : DmemRequest}
    (hreq : req ∈ (sys.afterMemory program t).2.dmemReq.q) :
    req ∈ (sys.coreStep program t).2.dmemReq.q := by
  rw [h.requests_eq t]
  exact List.mem_append_left _ hreq

end Cycle

/-! ### A run -/

section Runs

variable (program : Program) (tick : ℕ → Tick)

/-- An instruction in flight has been in flight since its dispatch. -/
theorem mem_window_of_mem {j n : ℕ} (hjn : j ≤ n) {d : Inflight}
    (hd : d ∈ System.window program tick n) (hborn : d.born < j) :
    d ∈ System.window program tick j := by
  induction n, hjn using Nat.le_induction with
  | base => exact hd
  | succ n hn ih =>
    have hmem := System.mem_of_mem_windowStep program (System.run program tick n) (tick n) hd
    rcases List.mem_append.mp hmem with hold | hnew
    · exact ih hold
    · have hborn := (born_of_mem_dispatched program tick hnew).1
      omega

/-- Cycle `k` sends a load with the given transaction. -/
def SendsLoad (k : ℕ) (tx : BitVec 32) : Prop :=
  ∃ req ∈ ((System.run program tick k).coreStep program (tick k)).2.dmemReq.q,
    req.isStore = false ∧ req.transactionId = tx

/-- The request of a load in flight that has been sent was written after its dispatch. -/
theorem sent_of_awaits (n : ℕ) {d : Inflight} (hd : d ∈ System.window program tick n)
    (hawaits : ((System.run program tick n).core.rob.entries d.cell).awaitsResponse = true) :
    ∃ k, d.born < k ∧ k < n ∧ SendsLoad program tick k
      ((System.run program tick n).core.rob.entries d.cell).memoryTransactionId := by
  induction n with
  | zero => exact absurd hd (List.not_mem_nil)
  | succ n ih =>
    have hinv := sysInv_run program tick n
    have hentry := hinv.cycle_entry (tick n) n hd
    have hmem := System.mem_of_mem_windowStep program (System.run program tick n) (tick n) hd
    rw [show System.run program tick (n + 1) =
      (System.run program tick n).cycle program (tick n) from rfl, hentry] at hawaits ⊢
    rcases List.mem_append.mp hmem with hold | hnew
    · rw [hinv.atCommit_entry (tick n) hold, System.afterMemory_eq] at hawaits ⊢
      have hrob : (resolved (System.run program tick n).core).rob =
          (System.run program tick n).core.rob := by rw [resolved_eq]
      rcases lsuModule_awaits hinv.beforeMemory.1 hinv.beforeMemory.2 (resolved_globalFlush _)
        ((System.run program tick n).ports program (tick n)) hawaits with
        ⟨hbefore, htx⟩ | ⟨entry, hreq⟩
      · rw [hrob] at hbefore htx
        obtain ⟨k, hk, hkn, hsends⟩ := ih hold hbefore
        exact ⟨k, hk, Nat.lt_succ_of_lt hkn, htx ▸ hsends⟩
      · refine ⟨n, ((bornInv_window program tick n).1 d hold).lt, Nat.lt_succ_self n,
          loadRequest entry d.cell _, hinv.mem_requests program (tick n) ?_, rfl, rfl⟩
        show _ ∈ (lsuModule (resolved _) _).2.dmemReq.q
        rw [hreq]
        exact List.mem_append_right _ (List.mem_singleton.mpr rfl)
    · obtain ⟨-, -, -, hdispatched, -⟩ := hinv.of_dispatched program (tick n) n hnew
      rw [hdispatched, AluResult.entry_awaits] at hawaits
      simp at hawaits

/-- The entry of a load in flight that a response has completed stays complete. -/
theorem completed_of_completed {m n : ℕ} (hmn : m < n) {d : Inflight}
    (hm : d ∈ System.window program tick m) (hn : d ∈ System.window program tick n)
    (hdone : (((resolved (System.run program tick m).core).afterResponse
      (tick m).dmemResp).rob.entries d.cell).busy = false ∧
      (((resolved (System.run program tick m).core).afterResponse
        (tick m).dmemResp).rob.entries d.cell).memoryCompleted = true) :
    ((System.run program tick n).core.rob.entries d.cell).busy = false ∧
      ((System.run program tick n).core.rob.entries d.cell).memoryCompleted = true := by
  have hborn := ((bornInv_window program tick m).1 d hm).lt
  induction n, hmn using Nat.le_induction with
  | base =>
    have hkeep := (sysInv_run program tick m).complete_cycle program (tick m) m hm hn
      hdone.1
    show (((System.run program tick m).cycle program (tick m)).core.rob.entries d.cell).busy = _ ∧
      (((System.run program tick m).cycle program (tick m)).core.rob.entries
        d.cell).memoryCompleted = _
    rw [hkeep]
    exact hdone
  | succ n hmn ih =>
    have hinv := sysInv_run program tick n
    have hd := mem_window_of_mem program tick (Nat.le_succ n) hn (by omega)
    obtain ⟨hbusy, hcompleted⟩ := ih hd
    have hrob : (resolved (System.run program tick n).core).rob =
        (System.run program tick n).core.rob := by rw [resolved_eq]
    have hsame := hinv.beforeMemory.1.afterResponse_entry (tick n).dmemResp
      (by rw [hrob]; exact hbusy)
    rw [hrob] at hsame
    have hkeep := hinv.complete_cycle program (tick n) n hd hn
      (by rw [hsame]; exact hbusy)
    show (((System.run program tick n).cycle program (tick n)).core.rob.entries d.cell).busy = _ ∧
      (((System.run program tick n).cycle program (tick n)).core.rob.entries
        d.cell).memoryCompleted = _
    rw [hkeep, hsame]
    exact ⟨hbusy, hcompleted⟩

/-- Until a response with the transaction of the outstanding load comes, the load stays outstanding
and no load is sent. -/
theorem pending_until {m n : ℕ} {tx : BitVec 32} (hmn : m ≤ n)
    (hpending : (System.run program tick m).core.lsu.loadResponsePending = true ∧
      (System.run program tick m).core.lsu.pendingLoadTransactionId = tx)
    (hnot : ∀ k, m ≤ k → k < n → ∀ resp, (tick k).dmemResp = some resp → resp.transactionId ≠ tx) :
    ((System.run program tick n).core.lsu.loadResponsePending = true ∧
        (System.run program tick n).core.lsu.pendingLoadTransactionId = tx) ∧
      ∀ k, m ≤ k → k < n →
        ((System.run program tick k).afterMemory program (tick k)).2.dmemReq.q = [] := by
  induction n, hmn using Nat.le_induction with
  | base => exact ⟨hpending, fun k hk hkm ↦ absurd hkm (by omega)⟩
  | succ n hmn ih =>
    obtain ⟨⟨hpend, htx⟩, hquiet⟩ := ih fun k hk hkn ↦ hnot k hk (Nat.lt_succ_of_lt hkn)
    obtain ⟨hpend', htx', hnone⟩ := (sysInv_run program tick n).pending_cycle
      program (tick n) hpend fun resp hresp ↦ by
        rw [htx]
        exact hnot n hmn (Nat.lt_succ_self n) resp hresp
    refine ⟨⟨hpend', htx'.trans htx⟩, fun k hk hkn ↦ ?_⟩
    rcases Nat.lt_succ_iff_lt_or_eq.mp hkn with hlt | rfl
    · exact hquiet k hk hlt
    · exact hnone

end Runs

end BoomCore
