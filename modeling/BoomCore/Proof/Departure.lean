import BoomCore.Proof.Environment
import BoomCore.Proof.Progress

/-!
# How an instruction leaves, among arbitrary responses

An instruction in flight stays in the window until it is the oldest one, and leaves by retiring or
as an `ECALL` (`departs`), unless a redirect empties the window. Every data request belongs to a
memory operation in flight (`request_owner`).
-/

set_option autoImplicit false
set_option relaxedAutoImplicit false

namespace BoomCore

/-! ### A cycle -/

/-- Assumes: the memory operation of the previous step is handed over. A request of the load/store
unit belongs to a load of the window. -/
theorem lsuModule_owner {s : BoomCoreState} {w : List Inflight} (h : WindowInv s w)
    (hhanded : Handed s w) (hflush : s.globalFlush = false) (pipe : PipeSignals)
    {req : DmemRequest} (hreq : req ∈ (lsuModule s pipe).2.dmemReq.q) :
    req ∈ pipe.dmemReq.q ∨ ∃ d ∈ w, req.robIdx = d.cell ∧ d.result.memoryValid = true := by
  have hrecord := (h.afterResponse pipe.dmemResp.q.head?).enqueueResult
    (hhanded.afterResponse pipe.dmemResp.q.head?)
  have hdmem := (takeDmemResponse_eq s pipe).2
  rw [lsuModule_eq hflush] at hreq
  rcases issueLoadsFrom_cases (enqueueResult (s.afterResponse pipe.dmemResp.q.head?))
    (takeDmemResponse s pipe).2 robDepth 0 with heq | ⟨j, hj, hcan, heq⟩
  · rw [heq, hdmem] at hreq
    exact Or.inl hreq
  · obtain ⟨k, hk, hslot, hload, -⟩ := hrecord.issued_load hj hcan
    have hof := hrecord.rob.entryOf hk
    rw [heq, tryIssueLoad_of_can hcan] at hreq
    rcases List.mem_append.mp hreq with hold | hnew
    · rw [hdmem] at hold
      exact Or.inl hold
    · rw [List.mem_singleton] at hnew
      refine Or.inr ⟨w[k], List.getElem_mem hk, ?_, ?_⟩
      · rw [hnew, Inflight.cell, hof.robIdx, hslot]
        rfl
      · rw [hof.dispatched.memoryValid, hload, Bool.true_or]

section Cycle

variable {program : Program} {sys : System} {w : List Inflight} (h : SysInv sys w) (t : Tick)
  (n : ℕ)

include h

/-- Without a redirect an instruction in flight stays, or it is the oldest one and leaves by
retiring or as an `ECALL`. -/
theorem SysInv.departs (hquiet : sys.core.execute.aluResult.redirects = false) {d : Inflight}
    (hd : d ∈ w ++ sys.dispatched program t n) :
    d ∈ sys.windowStep program t n w ∨
      (w ++ sys.dispatched program t n = d :: sys.windowStep program t n w ∧
        ((sys.cycle program t).core.rob.commitValid = true ∨ d.result.uop.uopc = .ecall)) := by
  cases hvalid : (sys.cycle program t).core.rob.commitValid with
  | true =>
    obtain ⟨d', w', hret⟩ := h.retires t n hvalid
    rw [hret.before] at hd ⊢
    rw [hret.after]
    rcases List.mem_cons.mp hd with rfl | hmem
    · exact Or.inr ⟨rfl, Or.inl rfl⟩
    · exact Or.inl hmem
  | false =>
    obtain ⟨-, -, -, ⟨hredirects, -⟩ | ⟨-, hstay | ⟨d', w', hw, hafter, hecall⟩⟩⟩ :=
      h.not_retired t n hvalid
    · rw [hquiet] at hredirects
      simp at hredirects
    · rw [hstay]
      exact Or.inl hd
    · rw [hw] at hd ⊢
      rw [hafter]
      rcases List.mem_cons.mp hd with rfl | hmem
      · exact Or.inr ⟨rfl, Or.inr hecall⟩
      · exact Or.inl hmem

/-- Every data request of a cycle belongs to a memory operation in flight. -/
theorem SysInv.request_owner {req : DmemRequest}
    (hreq : req ∈ (sys.coreStep program t).2.dmemReq.q) :
    ∃ d ∈ w ++ sys.dispatched program t n, req.robIdx = d.cell ∧ d.result.memoryValid = true := by
  rw [h.requests_eq t] at hreq
  rcases List.mem_append.mp hreq with hload | hstore
  · rcases lsuModule_owner h.beforeMemory.1 h.beforeMemory.2 (resolved_globalFlush sys.core) _ hload
      with hnone | ⟨d, hd, hcell, hmemory⟩
    · simp [System.ports] at hnone
    · exact ⟨d, List.mem_append_left _ hd, hcell, hmemory⟩
  · rcases h.store_cases program t n with ⟨hnone, -⟩ | ⟨d, w', hret, hisStore, -, -, hreqs⟩
    · rw [hnone] at hstore
      simp at hstore
    · rw [hreqs, List.mem_singleton] at hstore
      refine ⟨d, ?_, ?_, ?_⟩
      · rw [hret.before]
        exact List.mem_cons_self
      · rw [hstore]
        rfl
      · rw [hret.dispatched.memoryValid, hisStore, Bool.or_true]

end Cycle

/-! ### Runs -/

namespace Core

variable (input : ℕ → Inputs)

/-- The instructions in flight in step `n`: those of the window and the one that is dispatched. -/
def inflight (n : ℕ) : List Inflight := window input n ++ (run input n).dispatched (input n) n

/-- Step `n` retires the instruction `d`. -/
def Commits (n : ℕ) (d : Inflight) : Prop :=
  inflight input n = d :: window input (n + 1) ∧ (run input (n + 1)).rob.commitValid = true

/-- The instruction `d` leaves in step `n`: it retires, or it is an `ECALL`. -/
def Leaves (n : ℕ) (d : Inflight) : Prop :=
  inflight input n = d :: window input (n + 1) ∧
    ((run input (n + 1)).rob.commitValid = true ∨ d.result.uop.uopc = .ecall)

/-- The data requests of step `n`. -/
def dataRequests (n : ℕ) : List DmemRequest :=
  (boomCoreStep (run input n) (input n).ports).2.dmemReq.q

/-- No redirect is processed in step `n`, or nothing is in flight. -/
def KeepsOlder (n : ℕ) : Prop :=
  (run input n).execute.aluResult.redirects = true → (run input n).rob.isEmpty = true

instance (n : ℕ) : Decidable (KeepsOlder input n) := inferInstanceAs (Decidable (_ → _))

end Core

section Runs

open BoomCore.Core

variable {input : ℕ → Inputs} {n : ℕ}

theorem born_of_mem_coreDispatched {d : Inflight}
    (hd : d ∈ (run input n).dispatched (input n) n) : d.born = n := by
  unfold BoomCoreState.dispatched at hd
  dsimp only at hd
  split_ifs at hd
  · rw [List.mem_singleton.mp hd]
  · simp at hd

/-- What is dispatched in a step is younger than everything in flight. -/
theorem sorted_append_dispatched {w : List Inflight} (hborn : ∀ d ∈ w, d.born < n)
    (hsorted : w.Pairwise fun d d' ↦ d.born < d'.born) :
    (w ++ (run input n).dispatched (input n) n).Pairwise fun d d' ↦ d.born < d'.born := by
  refine List.pairwise_append.mpr ⟨hsorted, ?_, fun d hd d' hd' ↦ ?_⟩
  · unfold BoomCoreState.dispatched
    dsimp only
    split_ifs
    · exact List.pairwise_singleton _ _
    · exact List.Pairwise.nil
  · rw [born_of_mem_coreDispatched hd']
    exact hborn d hd

variable (input n) in
/-- The window is in the order of dispatch. -/
theorem born_coreWindow :
    (∀ d ∈ window input n, d.born < n) ∧
      (window input n).Pairwise fun d d' ↦ d.born < d'.born := by
  induction n with
  | zero => exact ⟨fun d hd ↦ absurd hd List.not_mem_nil, List.Pairwise.nil⟩
  | succ n ih =>
    have hall : (window input n ++ (run input n).dispatched (input n) n).Pairwise
        fun d d' ↦ d.born < d'.born := sorted_append_dispatched ih.1 ih.2
    have hlt : ∀ d ∈ window input n ++ (run input n).dispatched (input n) n, d.born < n + 1 := by
      intro d hd
      rcases List.mem_append.mp hd with hold | hnew
      · exact Nat.lt_succ_of_lt (ih.1 d hold)
      · rw [born_of_mem_coreDispatched hnew]
        exact Nat.lt_succ_self n
    show (∀ d ∈ (run input n).windowStep (input n) n (window input n), _) ∧
      ((run input n).windowStep (input n) n (window input n)).Pairwise _
    unfold BoomCoreState.windowStep
    split_ifs
    · exact ⟨fun d hd ↦ absurd hd List.not_mem_nil, List.Pairwise.nil⟩
    · exact ⟨hlt, hall⟩
    · exact ⟨fun d hd ↦ hlt d (List.mem_of_mem_tail hd), hall.tail⟩

/-- When an instruction is the oldest one, nothing that was dispatched before it is in flight. -/
theorem not_mem_of_oldest {d f : Inflight} {w : List Inflight} (hw : inflight input n = f :: w)
    (hborn : d.born < f.born) : d ∉ window input n := by
  intro hd
  have hwindow := born_coreWindow input n
  have hsorted : (f :: w).Pairwise fun d d' ↦ d.born < d'.born := by
    rw [← hw]
    exact sorted_append_dispatched hwindow.1 hwindow.2
  have hmem : d ∈ f :: w := by
    rw [← hw]
    exact List.mem_append_left _ hd
  rcases List.mem_cons.mp hmem with rfl | htail
  · exact lt_irrefl _ hborn
  · exact lt_asymm hborn (List.rel_of_pairwise_cons hsorted htail)

section Step

variable (hlater : AnsweredLater input (n + 1))

include hlater

/-- Step `n` as a cycle of a system in order. -/
theorem exists_cycle : ∃ program sys t, Mirrors (run input n) (input n) program sys t ∧
    SysInv sys (window input n) ∧
      inflight input n = window input n ++ sys.dispatched program t n ∧
      window input (n + 1) = sys.windowStep program t n (window input n) := by
  have hinv := sysInv_coreRun input n fun m hm ↦ hlater m (Nat.lt_succ_of_lt hm)
  obtain ⟨program, sys, t, hmirrors, -⟩ := hinv.step.exists_mirrors
    (hlater n (Nat.lt_succ_self n))
  refine ⟨program, sys, t, hmirrors, hmirrors.sysInv hinv, ?_, (hmirrors.windowStep n _).1⟩
  unfold inflight
  rw [(hmirrors.windowStep n (window input n)).2]

/-- What is in flight in a step that processes no redirect with something in flight meets no
redirect at all. -/
theorem quiet_of_inflight (hkeeps : KeepsOlder input n) {d : Inflight}
    (hd : d ∈ inflight input n) : (run input n).execute.aluResult.redirects = false := by
  by_contra hcontra
  have hredirects : (run input n).execute.aluResult.redirects = true := by simpa using hcontra
  have hinv := sysInv_coreRun input n fun m hm ↦ hlater m (Nat.lt_succ_of_lt hm)
  have hwindow : window input n = [] := hinv.window.rob.isEmpty_iff.mp (hkeeps hredirects)
  obtain ⟨program, sys, t, hmirrors, hsys, hinflight, -⟩ := exists_cycle hlater
  obtain ⟨fe, hcore⟩ := hmirrors.core
  have hnone : sys.accepted program t = none := by
    have hresponse := hsys.step.fetch.response_of_redirects program t
      (by rw [hcore]; exact hredirects)
    unfold System.accepted
    rw [hresponse, ite_self]
  rw [hinflight, hwindow, hsys.step.dispatched_idle t n (Or.inl hnone)] at hd
  simp at hd

/-- An instruction in flight stays, or it is the oldest one and leaves. -/
theorem departs (hkeeps : KeepsOlder input n) {d : Inflight} (hd : d ∈ inflight input n) :
    d ∈ window input (n + 1) ∨ Leaves input n d := by
  have hquiet := quiet_of_inflight hlater hkeeps hd
  obtain ⟨program, sys, t, hmirrors, hsys, hinflight, hwindow⟩ := exists_cycle hlater
  obtain ⟨fe, hcore⟩ := hmirrors.core
  obtain ⟨resp, hnext⟩ := hmirrors.next
  have hrob : (run input (n + 1)).rob = (sys.cycle program t).core.rob :=
    (congrArg BoomCoreState.rob hnext :)
  unfold Leaves
  rw [hinflight] at hd ⊢
  rw [hwindow, hrob]
  exact hsys.departs t n (by rw [hcore]; exact hquiet) hd

/-- Every data request belongs to a memory operation in flight. -/
theorem request_owner {req : DmemRequest} (hreq : req ∈ dataRequests input n) :
    ∃ d ∈ inflight input n, req.robIdx = d.cell ∧ d.result.memoryValid = true := by
  obtain ⟨program, sys, t, hmirrors, hsys, hinflight, -⟩ := exists_cycle hlater
  obtain ⟨resp, left, hout⟩ := hmirrors.out
  rw [hinflight]
  refine hsys.request_owner t n ?_
  unfold dataRequests at hreq
  rw [hout] at hreq
  exact hreq

/-- Different instructions in flight have different cells. -/
theorem eq_of_cell {d d' : Inflight} (hd : d ∈ inflight input n) (hd' : d' ∈ inflight input n)
    (heq : d.cell = d'.cell) : d = d' := by
  obtain ⟨program, sys, t, -, hsys, hinflight, -⟩ := exists_cycle hlater
  rw [hinflight] at hd hd'
  exact (hsys.atCommit program t n).1.rob.eq_of_cell hd hd' heq

/-- Assumes: the oldest instruction is no `ECALL`, was decoded with an exception and was complete
when it was dispatched. The core traps on it. -/
theorem traps_of_oldest (hkeeps : KeepsOlder input n) {d : Inflight} {w : List Inflight}
    (hw : inflight input n = d :: w) (hexc : d.result.uop.exception = true)
    (hbusy : d.result.entry.busy = false) (hcode : d.result.uop.uopc ≠ .ecall) :
    (run input (n + 1)).rob.state = .exception ∧ (run input (n + 1)).ioTrap = true ∧
      (run input (n + 1)).rob.commitValid = false ∧
      (run input (n + 1)).rob.entries (run input (n + 1)).rob.head = d.result.entry := by
  have hquiet := quiet_of_inflight hlater hkeeps (d := d) (by rw [hw]; exact List.mem_cons_self)
  obtain ⟨program, sys, t, hmirrors, hsys, hinflight, -⟩ := exists_cycle hlater
  obtain ⟨fe, hcore⟩ := hmirrors.core
  obtain ⟨resp, hnext⟩ := hmirrors.next
  have hnext' : run input (n + 1) = (sys.cycle program t).core.withFrontend
      ((sys.cycle program t).core.frontend.withFault resp) := hnext
  obtain ⟨hentry, hstep⟩ := hsys.cycle_of_exception t n (by rw [hcore]; exact hquiet)
    (hinflight.symm.trans hw) hexc hbusy
  have hflag := (hsys.step.atCommit_flags program t).1
  unfold commitException at hstep
  rw [if_neg (show ¬ d.result.entry.uop.uopc = .ecall from hcode)] at hstep
  rw [hnext', hstep]
  exact ⟨rfl, rfl, hflag, hentry⟩

/-- The instruction of an accepted response is dispatched, unless the reorder buffer is full, and
writes its result back. -/
theorem dispatched_of_accepted {resp : ImemResponse} (hacc : accepted input n = some resp)
    (hroom : (run input n).rob.isFull = false) :
    ∃ s, (run input n).dispatched (input n) n =
        [{ born := n, result := dispatchedResult s resp.address resp.instruction }] ∧
      s.rename = (run input n).rename ∧
      (run input (n + 1)).intRf = writeBack (memoryPhase (run input n) (input n).ports).1.intRf
        (dispatchedResult s resp.address resp.instruction) := by
  have hinv := sysInv_coreRun input n fun m hm ↦ hlater m (Nat.lt_succ_of_lt hm)
  obtain ⟨hmirrors, hsome⟩ := hinv.step.mirrors_of_some hacc
    (hlater n (Nat.lt_succ_self n) resp (imemResp_of_accepted hacc))
  have hsys := hmirrors.sysInv hinv
  have hmem := afterMemory_asSystem (run input n) (input n) (fun _ ↦ resp.instruction)
    { (run input n).frontend with pc := resp.address } (some 0)
  have hrename := System.afterMemory_rename (fun _ ↦ resp.instruction)
    ((run input n).fetching resp).asSystem ((input n).tick (some 0))
  obtain ⟨resp', hnext⟩ := hmirrors.next
  have hrf : (run input (n + 1)).intRf = (((run input n).fetching resp).asSystem.cycle
      (fun _ ↦ resp.instruction) ((input n).tick (some 0))).core.intRf :=
    (congrArg BoomCoreState.intRf hnext :)
  rw [(hmirrors.windowStep n []).2]
  have hone := hsys.step.dispatched_some _ n hsome hroom hsys.tail_lt
  obtain ⟨-, -, -, -, hwrite⟩ := hsys.of_dispatched _ ((input n).tick (some 0)) n
    (by rw [hone]; exact List.mem_singleton_self _)
  refine ⟨_, hone, hrename, ?_⟩
  rw [hrf, System.cycle_intRf, hwrite]
  exact congrArg (fun out ↦ writeBack out.1.intRf _) hmem

end Step

/-- Assumes: no redirect before step `k` is processed with something in flight. What was in flight
in step `j` still is in step `k`, or has left. -/
theorem inflight_or_left {j k : ℕ} (hjk : j < k) (hlater : AnsweredLater input k)
    (hkeeps : ∀ i < k, KeepsOlder input i) {d : Inflight} (hd : d ∈ inflight input j) :
    d ∈ window input k ∨ ∃ i, j ≤ i ∧ i < k ∧ Leaves input i d := by
  induction k, hjk using Nat.le_induction with
  | base =>
    rcases departs hlater (hkeeps j (Nat.lt_succ_self j)) hd with hstays | hleaves
    · exact Or.inl hstays
    · exact Or.inr ⟨j, Nat.le_refl j, Nat.lt_succ_self j, hleaves⟩
  | succ k hjk ih =>
    rcases ih (fun i hi ↦ hlater i (Nat.lt_succ_of_lt hi)) fun i hi ↦
      hkeeps i (Nat.lt_succ_of_lt hi) with hwindow | ⟨i, hji, hik, hleaves⟩
    · rcases departs hlater (hkeeps k (Nat.lt_succ_self k)) (List.mem_append_left _ hwindow) with
        hstays | hleaves
      · exact Or.inl hstays
      · exact Or.inr ⟨k, by omega, Nat.lt_succ_self k, hleaves⟩
    · exact Or.inr ⟨i, hji, Nat.lt_succ_of_lt hik, hleaves⟩

end Runs

end BoomCore
