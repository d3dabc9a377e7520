import BoomCore.Proof.Outstanding

/-!
# One outstanding load among arbitrary responses

The data responses of a schedule are arbitrary: any transaction, any data, any exception flag, in
any cycle. The load that was sent and has no response is the one that the load/store unit waits
for, a response changes nothing but the entry and the register of that load and only under its
transaction, no load is completed twice, and the late response to a load that a redirect squashed
finds nothing to change (`load_protocol`).
-/

set_option autoImplicit false
set_option relaxedAutoImplicit false

namespace BoomCore

/-! ### Statements -/

/-- The state after the block of `lsu_module` that takes the response. -/
def System.afterDmemResponse (program : Program) (sys : System) (t : Tick) : BoomCoreState :=
  (takeDmemResponse (resolved sys.core) (sys.ports program t)).1

/-- The unit waits for the load of entry `i`, under its transaction. -/
structure LsuState.WaitsFor (lsu : LsuState) (i : ℕ) (entry : RobEntry) : Prop where
  pending : lsu.loadResponsePending = true
  robIdx : lsu.pendingLoadRobIdx = i
  transactionId : lsu.pendingLoadTransactionId = entry.memoryTransactionId

/-- A response answers the load of an entry: the load waits, the response carries its transaction,
and the entry is `after` afterwards. -/
structure RobEntry.AnsweredBy (before : RobEntry) (resp : DmemResponse) (after : RobEntry) :
    Prop where
  waits : before.waits = true
  transactionId : resp.transactionId = before.memoryTransactionId
  complete : after = before.complete resp

section Statements

variable (program : Program) (tick : ℕ → Tick)

/-- The response of cycle `n` changes the entry of the instruction. -/
def CompletesLoad (n : ℕ) (d : Inflight) : Prop :=
  d ∈ System.window program tick n ∧
    ((System.run program tick n).afterDmemResponse program (tick n)).rob.entries d.cell ≠
      (System.run program tick n).core.rob.entries d.cell

/-- Cycle `m` processes a redirect while a load with the given transaction has no response. -/
def SquashesLoad (m : ℕ) (tx : BitVec 32) : Prop :=
  (System.run program tick m).core.execute.aluResult.redirects = true ∧
    ∃ i < robDepth,
      (((System.run program tick m).afterMemory program (tick m)).1.rob.entries i).waits = true ∧
        (((System.run program tick m).afterMemory program (tick m)).1.rob.entries
          i).memoryTransactionId = tx

end Statements

/-! ### A cycle -/

section Cycle

variable (program : Program) {sys : System} {w : List Inflight} (h : SysInv sys w) (t : Tick)

theorem System.afterDmemResponse_eq (sys : System) (t : Tick) :
    sys.afterDmemResponse program t = (resolved sys.core).afterResponse t.dmemResp := by
  unfold afterDmemResponse
  rw [(takeDmemResponse_eq _ _).1, System.ports_dmemResp]

include h

/-- The load that waits is the one that the unit waits for. -/
theorem SysInv.waitsFor {i : ℕ} (hi : i < robDepth)
    (hwaits : (sys.core.rob.entries i).waits = true) :
    sys.core.lsu.WaitsFor i (sys.core.rob.entries i) := by
  unfold RobEntry.waits at hwaits
  rw [Bool.and_eq_true, Bool.not_eq_true'] at hwaits
  obtain ⟨hpending, hidx, htx⟩ := h.window.lsu.inFlight i hi hwaits.1 hwaits.2
  exact ⟨hpending, hidx, htx.symm⟩

/-- A response that changes an entry answers the load of that entry. -/
theorem SysInv.answeredBy {resp : DmemResponse} (hresp : t.dmemResp = some resp) {i : ℕ}
    (hne : (sys.afterDmemResponse program t).rob.entries i ≠ sys.core.rob.entries i) :
    i < robDepth ∧ (sys.core.rob.entries i).AnsweredBy resp
      ((sys.afterDmemResponse program t).rob.entries i) := by
  have hrob : (resolved sys.core).rob = sys.core.rob := by rw [resolved_eq]
  rw [System.afterDmemResponse_eq, hresp, ← hrob] at hne ⊢
  obtain ⟨hanswers, rfl⟩ := afterResponse_entry_ne hne
  obtain ⟨hlt, hwaits, htx⟩ := h.beforeMemory.1.of_answers hanswers
  refine ⟨hlt, hwaits, htx, ?_⟩
  show (handleResponse (resolved sys.core) resp).rob.entries _ = _
  rw [handleResponse_of_answers hanswers]
  exact Function.update_self _ _ _

/-- A response that changes a register answers the load with that destination. -/
theorem SysInv.answeredBy_register {resp : DmemResponse} (hresp : t.dmemResp = some resp) {p : ℕ}
    (hne : (sys.afterDmemResponse program t).intRf p ≠ sys.core.intRf p) :
    ∃ i < robDepth, (sys.core.rob.entries i).uop.rename.pdst = p ∧
      (sys.core.rob.entries i).AnsweredBy resp
        ((sys.afterDmemResponse program t).rob.entries i) := by
  have hrob : (resolved sys.core).rob = sys.core.rob := by rw [resolved_eq]
  have hrf : (resolved sys.core).intRf = sys.core.intRf := by rw [resolved_eq]
  rw [System.afterDmemResponse_eq, hresp, ← hrf] at hne
  rw [System.afterDmemResponse_eq, hresp, ← hrob]
  obtain ⟨hanswers, hp⟩ := afterResponse_intRf_ne hne
  obtain ⟨hlt, hwaits, htx⟩ := h.beforeMemory.1.of_answers hanswers
  refine ⟨_, hlt, hp.symm, hwaits, htx, ?_⟩
  show (handleResponse (resolved sys.core) resp).rob.entries _ = _
  rw [handleResponse_of_answers hanswers]
  exact Function.update_self _ _ _

/-- The load/store unit writes every load request of a cycle. -/
theorem SysInv.loadRequest_mem {req : DmemRequest}
    (hreq : req ∈ (sys.coreStep program t).2.dmemReq.q) (hload : req.isStore = false) :
    req ∈ (sys.afterMemory program t).2.dmemReq.q := by
  rw [h.requests_eq t] at hreq
  rcases List.mem_append.mp hreq with hmem | hstore
  · exact hmem
  · unfold System.storeRequests at hstore
    rw [List.mem_filter, hload] at hstore
    simp at hstore

/-- After the cycle that squashes a load the unit still waits for its transaction. -/
theorem SysInv.squashed_pending {i : ℕ} (hi : i < robDepth)
    (hwaits : ((sys.afterMemory program t).1.rob.entries i).waits = true) :
    (sys.cycle program t).core.lsu.loadResponsePending = true ∧
      (sys.cycle program t).core.lsu.pendingLoadTransactionId =
        ((sys.afterMemory program t).1.rob.entries i).memoryTransactionId := by
  unfold RobEntry.waits at hwaits
  rw [Bool.and_eq_true, Bool.not_eq_true'] at hwaits
  obtain ⟨hpending, -, htx⟩ := (h.memory program t).1.lsu.inFlight i hi hwaits.1 hwaits.2
  obtain ⟨hpending', htx'⟩ := h.cycle_pending program t
  exact ⟨hpending'.trans hpending, htx'.trans htx.symm⟩

end Cycle

/-! ### Runs -/

section Runs

variable {program : Program} {tick : ℕ → Tick}

/-- The response that completes a load leaves its entry complete. -/
theorem CompletesLoad.complete {n : ℕ} {d : Inflight} (h : CompletesLoad program tick n d) :
    (((System.run program tick n).afterDmemResponse program (tick n)).rob.entries d.cell).busy =
        false ∧
      (((System.run program tick n).afterDmemResponse program (tick n)).rob.entries
        d.cell).memoryCompleted = true := by
  obtain ⟨hd, hne⟩ := h
  cases hresp : (tick n).dmemResp with
  | none =>
    refine absurd ?_ hne
    rw [System.afterDmemResponse_eq, hresp]
    show (resolved _).rob.entries _ = _
    rw [resolved_eq]
  | some resp =>
    obtain ⟨-, hanswered⟩ := (sysInv_run program tick n).answeredBy program (tick n) hresp hne
    rw [hanswered.complete]
    refine ⟨?_, RobEntry.complete_completed _ resp⟩
    unfold RobEntry.complete
    split_ifs <;> rfl

/-- A load that a response has completed is not completed again. -/
theorem CompletesLoad.not_again {m n : ℕ} {d : Inflight} (h : CompletesLoad program tick m d)
    (hmn : m < n) : ¬ CompletesLoad program tick n d := by
  intro hagain
  have hdone := h.complete
  rw [System.afterDmemResponse_eq] at hdone
  obtain ⟨-, hcompleted⟩ := completed_of_completed program tick hmn h.1 hagain.1 hdone
  cases hresp : (tick n).dmemResp with
  | none =>
    refine hagain.2 ?_
    rw [System.afterDmemResponse_eq, hresp]
    show (resolved _).rob.entries _ = _
    rw [resolved_eq]
  | some resp =>
    obtain ⟨-, hanswered⟩ := (sysInv_run program tick n).answeredBy program (tick n) hresp hagain.2
    have hwaits := hanswered.waits
    unfold RobEntry.waits at hwaits
    rw [hcompleted] at hwaits
    simp at hwaits

/-- An entry that waits after a redirect belongs to a load that was sent after the redirect. -/
theorem sent_after_redirect {m n : ℕ} (hmn : m < n)
    (hredirects : (System.run program tick m).core.execute.aluResult.redirects = true) {i : ℕ}
    (hi : i < robDepth)
    (hwaits : ((System.run program tick n).core.rob.entries i).waits = true) :
    ∃ k, m < k ∧ k < n ∧ SendsLoad program tick k
      ((System.run program tick n).core.rob.entries i).memoryTransactionId := by
  have hinv := sysInv_run program tick n
  unfold RobEntry.waits at hwaits
  rw [Bool.and_eq_true] at hwaits
  have hvalid : ((System.run program tick n).core.rob.entries i).valid = true := by
    have hawaits := hwaits.1
    unfold RobEntry.awaitsResponse at hawaits
    rw [Bool.and_eq_true, Bool.and_eq_true] at hawaits
    exact hawaits.1.1
  obtain ⟨k, hk, hslot⟩ := hinv.window.rob.of_valid hi hvalid
  have hcell := (hinv.window.rob.entryOf hk).robIdx
  have hmem := List.getElem_mem hk
  generalize (System.window program tick n)[k] = d at hcell hmem
  rw [hslot] at hcell
  -- The redirect has emptied the window, so the load was dispatched after it.
  have hborn : m < d.born := by
    by_contra hle
    have hearly := mem_window_of_mem program tick (j := m + 1) (by omega) hmem (by omega)
    have hempty : System.window program tick (m + 1) = [] := by
      show (System.run program tick m).windowStep program (tick m) m _ = []
      unfold System.windowStep
      rw [if_pos hredirects]
    rw [hempty] at hearly
    exact List.not_mem_nil hearly
  obtain ⟨k', hk', hkn, hsends⟩ := sent_of_awaits program tick n hmem
    (by rw [show d.cell = i from hcell]; exact hwaits.1)
  rw [show d.cell = i from hcell] at hsends
  exact ⟨k', hborn.trans hk', hkn, hsends⟩

/-- The response to a squashed load changes nothing. -/
theorem SquashesLoad.unchanged {m n : ℕ} {tx : BitVec 32} (h : SquashesLoad program tick m tx)
    (hmn : m < n) {resp : DmemResponse} (hresp : (tick n).dmemResp = some resp)
    (htx : resp.transactionId = tx)
    (hnone : ∀ k, m < k → k < n → ¬ SendsLoad program tick k tx) :
    ((System.run program tick n).afterDmemResponse program (tick n)).intRf =
        (System.run program tick n).core.intRf ∧
      ((System.run program tick n).afterDmemResponse program (tick n)).rob.entries =
        (System.run program tick n).core.rob.entries := by
  have hinv := sysInv_run program tick n
  have hnot : ∀ i < robDepth, ∀ after, ¬ ((System.run program tick n).core.rob.entries
      i).AnsweredBy resp after := by
    intro i hi after hanswered
    obtain ⟨k, hmk, hkn, hsends⟩ := sent_after_redirect hmn h.1 hi hanswered.waits
    rw [← hanswered.transactionId, htx] at hsends
    exact hnone k hmk hkn hsends
  constructor
  · funext p
    by_contra hne
    obtain ⟨i, hi, -, hanswered⟩ := hinv.answeredBy_register program (tick n) hresp hne
    exact hnot i hi _ hanswered
  · funext i
    by_contra hne
    obtain ⟨hi, hanswered⟩ := hinv.answeredBy program (tick n) hresp hne
    exact hnot i hi _ hanswered

/-- Until the response to a squashed load comes, no load is sent. -/
theorem SquashesLoad.quiet {m n : ℕ} {tx : BitVec 32} (h : SquashesLoad program tick m tx)
    (hnone : ∀ k, m < k → k < n → ∀ resp, (tick k).dmemResp = some resp →
      resp.transactionId ≠ tx) {k : ℕ} (hmk : m < k) (hkn : k < n) (tx' : BitVec 32) :
    ¬ SendsLoad program tick k tx' := by
  rintro ⟨req, hreq, hload, -⟩
  obtain ⟨-, i, hi, hwaits, htx⟩ := h
  have hpending := (sysInv_run program tick m).squashed_pending program (tick m) hi hwaits
  rw [htx] at hpending
  obtain ⟨-, hquiet⟩ := pending_until program tick (m := m + 1) (n := k + 1) (by omega) hpending
    fun j hmj hjk ↦ hnone j (by omega) (by omega)
  have hmem := (sysInv_run program tick k).loadRequest_mem program (tick k) hreq hload
  rw [hquiet k (by omega) (by omega)] at hmem
  exact List.not_mem_nil hmem

/-- For arbitrary data responses. The load that was sent and is not complete is the one that the
unit waits for; a response that changes an entry or a register answers the load of the entry, which
has the register as its destination; no load is completed in two cycles; and the response to a load
that a redirect has squashed changes neither entries nor registers, as long as its transaction has
not been given to another load. No load is sent before that response, so the first response with the
transaction is such a late one. -/
theorem load_protocol (program : Program) (tick : ℕ → Tick) :
    (∀ n, ∀ i < robDepth, ((System.run program tick n).core.rob.entries i).waits = true →
      (System.run program tick n).core.lsu.WaitsFor i
        ((System.run program tick n).core.rob.entries i)) ∧
    (∀ n resp, (tick n).dmemResp = some resp →
      (∀ i, ((System.run program tick n).afterDmemResponse program (tick n)).rob.entries i ≠
          (System.run program tick n).core.rob.entries i →
        ((System.run program tick n).core.rob.entries i).AnsweredBy resp
          (((System.run program tick n).afterDmemResponse program (tick n)).rob.entries i)) ∧
      ∀ p, ((System.run program tick n).afterDmemResponse program (tick n)).intRf p ≠
          (System.run program tick n).core.intRf p →
        ∃ i < robDepth,
          ((System.run program tick n).core.rob.entries i).uop.rename.pdst = p ∧
          ((System.run program tick n).core.rob.entries i).AnsweredBy resp
            (((System.run program tick n).afterDmemResponse program (tick n)).rob.entries i)) ∧
    (∀ d m n, CompletesLoad program tick m d → CompletesLoad program tick n d → m = n) ∧
    ∀ m tx, SquashesLoad program tick m tx →
      (∀ n resp, m < n → (tick n).dmemResp = some resp → resp.transactionId = tx →
        (∀ k, m < k → k < n → ¬ SendsLoad program tick k tx) →
          ((System.run program tick n).afterDmemResponse program (tick n)).intRf =
              (System.run program tick n).core.intRf ∧
            ((System.run program tick n).afterDmemResponse program (tick n)).rob.entries =
              (System.run program tick n).core.rob.entries) ∧
      ∀ n, (∀ k, m < k → k < n → ∀ resp, (tick k).dmemResp = some resp →
          resp.transactionId ≠ tx) →
        ∀ k, m < k → k < n → ∀ tx', ¬ SendsLoad program tick k tx' := by
  refine ⟨fun n i hi hwaits ↦ (sysInv_run program tick n).waitsFor hi hwaits,
    fun n resp hresp ↦ ⟨fun i hne ↦ ?_, fun p hne ↦ ?_⟩, fun d m n hm hn ↦ ?_,
    fun m tx hsquashed ↦ ⟨fun n resp hmn hresp htx hnone ↦ ?_, fun n hnone k hmk hkn tx' ↦ ?_⟩⟩
  · exact ((sysInv_run program tick n).answeredBy program (tick n) hresp hne).2
  · exact (sysInv_run program tick n).answeredBy_register program (tick n) hresp hne
  · rcases Nat.lt_trichotomy m n with hlt | heq | hgt
    · exact absurd hn (hm.not_again hlt)
    · exact heq
    · exact absurd hm (hn.not_again hgt)
  · exact hsquashed.unchanged hmn hresp htx hnone
  · exact hsquashed.quiet hnone hmk hkn tx'

end Runs

end BoomCore
