import BoomCore.Proof.Pipeline

/-!
# Cycles that retire an instruction

A cycle retires an instruction exactly when it sets `commit_valid`. `Retires` says what such a cycle
does: the oldest instruction of the window leaves with its record, its destination is installed, and
a store sends its request. A cycle that retires nothing leaves the rename tables as rename left them
and sends no store; the window loses everything to a redirect, or an `ECALL`, or nothing
(`SysInv.not_retired`). The stores that a cycle sends are the stores that it retires
(`SysInv.store_cases`).
-/

set_option autoImplicit false
set_option relaxedAutoImplicit false

namespace BoomCore

open Ring

/-- The cycle retires the instruction `d` and leaves the window `w'`. -/
structure Retires (program : Program) (sys : System) (t : Tick) (n : ℕ) (w : List Inflight)
    (d : Inflight) (w' : List Inflight) : Prop where
  quiet : sys.core.execute.aluResult.redirects = false
  before : w ++ sys.dispatched program t n = d :: w'
  after : sys.windowStep program t n w = w'
  retirable : Retirable d.result
    ((sys.atCommit program t).rob.entries (sys.atCommit program t).rob.head)
  dispatched : DispatchedSpec d.result
  robIdx : d.result.uop.queue.robIdx = sys.core.rob.head
  popped : Popped (sys.atCommit program t) (sys.cycle program t).core
  record : (sys.cycle program t).core.rob.lastCommit =
    commitRecord (sys.atCommit program t)
      ((sys.atCommit program t).rob.entries (sys.atCommit program t).rob.head)
  rename : (sys.cycle program t).core.rename =
    (sys.atCommit program t).rename.commitDst d.result.uop
  requests : (sys.coreStep program t).2.dmemReq.q =
    if d.result.isStore then
      (sys.commitPipe program t).dmemReq.q ++
        [storeRequest ((sys.atCommit program t).rob.entries (sys.atCommit program t).rob.head)
          (sys.atCommit program t).lsu.nextTransactionId]
    else (sys.commitPipe program t).dmemReq.q
  trace : (sys.coreStep program t).2.commitTrace =
    if (sys.commitPipe program t).commitTrace.full then (sys.commitPipe program t).commitTrace
    else (sys.commitPipe program t).commitTrace.write (sys.cycle program t).core.rob.lastCommit
  state : (sys.cycle program t).core.rob.state = (sys.atCommit program t).rob.state
  trap : (sys.cycle program t).core.ioTrap = false

/-- Only the destination fields of a uop matter to `commitDst`. -/
theorem RenameState.commitDst_congr (ren : RenameState) {uop uop' : MicroOp}
    (h : uop'.rename = uop.rename) : ren.commitDst uop' = ren.commitDst uop := by
  unfold commitDst
  rw [h]

namespace System

variable (program : Program) (sys : System) (t : Tick)

/-- The store requests that a cycle writes to `dmem_req`. -/
def storeRequests : List DmemRequest :=
  (sys.coreStep program t).2.dmemReq.q.filter fun req ↦ req.isStore

/-- The store that a cycle retires. -/
def retiredStores : List CommitEntry :=
  if (sys.cycle program t).core.rob.commitValid && (sys.cycle program t).core.rob.lastCommit.isStore
  then [(sys.cycle program t).core.rob.lastCommit]
  else []

end System

section Flags

variable {program : Program} {sys : System} (h : StepInv sys) (t : Tick)

include h

variable (program) in
/-- The flags that commit finds are clear. -/
theorem StepInv.atCommit_flags :
    (sys.atCommit program t).rob.commitValid = false ∧
      (sys.atCommit program t).ioTrap = false ∧ (sys.atCommit program t).ioSuccess = false := by
  have hmem : (sys.afterMemory program t).1.ioTrap = false ∧
      (sys.afterMemory program t).1.ioSuccess = false := by
    unfold System.afterMemory
    rw [memoryPhase_eq]
    show (resolved sys.core).ioTrap = false ∧ (resolved sys.core).ioSuccess = false
    rw [resolved_eq]
    exact ⟨rfl, rfl⟩
  have hmark : (sys.atCommit program t).rob.commitValid = false := by
    unfold System.atCommit RobInternalState.markComplete
    dsimp only
    split_ifs <;> rfl
  refine ⟨hmark, ?_⟩
  unfold System.atCommit
  dsimp only
  cases hacc : sys.accepted program t with
  | none =>
    rw [h.beforeCommit_of_none t hacc]
    exact hmem
  | some resp =>
    by_cases hfull : sys.core.rob.isFull = true
    · rw [h.beforeCommit_of_full t hacc hfull]
      exact hmem
    · rw [h.beforeCommit_of_some t hacc (by simpa using hfull)]
      exact hmem

end Flags

section Retirement

variable {program : Program} {sys : System} {w : List Inflight} (h : SysInv sys w) (t : Tick)
  (n : ℕ)

include h

/-- A cycle that sets `commit_valid` retires the oldest instruction of the window. -/
theorem SysInv.retires (hvalid : (sys.cycle program t).core.rob.commitValid = true) :
    ∃ d w', Retires program sys t n w d w' := by
  have hcore : (sys.cycle program t).core = (sys.coreStep program t).1 := rfl
  by_cases hredirects : sys.core.execute.aluResult.redirects = true
  · rw [hcore, h.step.coreStep_of_redirects program t hredirects] at hvalid
    simp [RobInternalState.flush] at hvalid
  · have hredirects' : sys.core.execute.aluResult.redirects = false := by simpa using hredirects
    obtain ⟨hflag, htrap, -⟩ := h.step.atCommit_flags program t
    have hwin := (h.atCommit program t n).1
    have hhead := h.atCommit_head program t
    generalize hout : sys.coreStep program t = out at hcore
    have houtcome := h.outcome program t n hredirects'
    rw [hout] at houtcome
    cases houtcome with
    | stall =>
      rw [hcore, hflag] at hvalid
      simp at hvalid
    | exception =>
      rw [hcore, (commitException_keeps _ _).1, hflag] at hvalid
      simp at hvalid
    | store d w' hw hstore hentry hroom =>
      have hof := hwin.rob.entries
      rw [hw] at hof
      have hcell := hof.head_cell hwin.rob.head_lt
      have hretire : Retirable d.result
          ((sys.atCommit program t).rob.entries (sys.atCommit program t).rob.head) :=
        hentry ▸ .store hstore
      have hpop : Popped (sys.atCommit program t) (sys.cycle program t).core := by
        rw [hcore]
        exact retire_sendStore_popped _ _ _ _
      refine ⟨d, w', hredirects', hw, ?_, hretire, hcell.dispatched, ?_, hpop, ?_, ?_, ?_, ?_,
        ?_, ?_⟩
      · exact (h.cycle_of_popped t n hredirects' hw hpop
          (hretire.not_handed hcell.dispatched)).2
      · rw [hcell.robIdx, hhead]
      · rw [hcore]
        rfl
      · rw [hcore, retire_rename, sendStore_rename]
        exact RenameState.commitDst_congr _ hcell.stage.rename
      · rw [hout, hstore, if_pos rfl]
        rfl
      · rw [hout, hcore]
        rfl
      · rw [hcore]
        rfl
      · rw [hcore, retire_ioTrap, sendStore_ioTrap]
        exact htrap
    | retire d w' hw hretire hstore =>
      have hof := hwin.rob.entries
      rw [hw] at hof
      have hcell := hof.head_cell hwin.rob.head_lt
      have hpop : Popped (sys.atCommit program t) (sys.cycle program t).core := by
        rw [hcore]
        exact retire_popped _ _ _
      refine ⟨d, w', hredirects', hw, ?_, hretire, hcell.dispatched, ?_, hpop, ?_, ?_, ?_, ?_,
        ?_, ?_⟩
      · exact (h.cycle_of_popped t n hredirects' hw hpop
          (hretire.not_handed hcell.dispatched)).2
      · rw [hcell.robIdx, hhead]
      · rw [hcore]
        rfl
      · rw [hcore, retire_rename]
        exact RenameState.commitDst_congr _ hcell.stage.rename
      · rw [hout, hstore, if_neg Bool.false_ne_true]
        rfl
      · rw [hout, hcore]
        rfl
      · rw [hcore]
        rfl
      · rw [hcore, retire_ioTrap]
        exact htrap

/-- Assumes: the instruction at the head is complete and without exception, and the request of a
store finds room. It retires. -/
theorem SysInv.commits_of_complete {d : Inflight} {w' : List Inflight}
    (hquiet : sys.core.execute.aluResult.redirects = false)
    (hw : w ++ sys.dispatched program t n = d :: w')
    (hbusy : ((sys.atCommit program t).rob.entries (sys.atCommit program t).rob.head).busy = false)
    (hexc : ((sys.atCommit program t).rob.entries
      (sys.atCommit program t).rob.head).exception = false)
    (hroom : d.result.isStore = true → (sys.commitPipe program t).dmemReq.full = false) :
    (sys.cycle program t).core.rob.commitValid = true := by
  have houtcome := h.outcome program t n hquiet
  show (sys.coreStep program t).1.rob.commitValid = true
  generalize sys.coreStep program t = out at houtcome
  cases houtcome with
  | stall hstall =>
    rcases hstall d w' hw with hwaits | ⟨hstore, hfull⟩
    · rw [hbusy] at hwaits
      simp at hwaits
    · rw [hroom hstore] at hfull
      simp at hfull
  | exception d' w'' hw' hstage hbusy' hexc' =>
    rw [hexc] at hexc'
    simp at hexc'
  | store => rfl
  | retire => rfl

/-- A cycle that does not set `commit_valid` sends no store and leaves the rename tables alone. The
window is emptied by a redirect, grows by what is dispatched, or loses an `ECALL`. -/
theorem SysInv.not_retired (hvalid : (sys.cycle program t).core.rob.commitValid = false) :
    (sys.coreStep program t).2.dmemReq = (sys.commitPipe program t).dmemReq ∧
      (sys.coreStep program t).2.commitTrace = (sys.commitPipe program t).commitTrace ∧
      (sys.cycle program t).core.rename = (sys.atCommit program t).rename ∧
      ((sys.core.execute.aluResult.redirects = true ∧ sys.windowStep program t n w = []) ∨
        (sys.core.execute.aluResult.redirects = false ∧
          (sys.windowStep program t n w = w ++ sys.dispatched program t n ∨
            ∃ d w', w ++ sys.dispatched program t n = d :: w' ∧
              sys.windowStep program t n w = w' ∧ d.result.uop.uopc = .ecall))) := by
  have hcore : (sys.cycle program t).core = (sys.coreStep program t).1 := rfl
  by_cases hredirects : sys.core.execute.aluResult.redirects = true
  · have hstep := h.step.coreStep_of_redirects program t hredirects
    refine ⟨by rw [hstep], by rw [hstep], ?_, Or.inl ⟨hredirects, ?_⟩⟩
    · rw [hcore, hstep]
      rfl
    · unfold System.windowStep
      rw [if_pos hredirects]
  · have hredirects' : sys.core.execute.aluResult.redirects = false := by simpa using hredirects
    have hwin := (h.atCommit program t n).1
    generalize hout : sys.coreStep program t = out at hcore
    have houtcome := h.outcome program t n hredirects'
    rw [hout] at houtcome
    cases houtcome with
    | stall =>
      refine ⟨rfl, rfl, by rw [hcore], Or.inr ⟨hredirects', Or.inl ?_⟩⟩
      exact h.windowStep_of_stay t n hredirects' (by rw [hcore])
    | exception d w' hw hstage hbusy hexc =>
      refine ⟨rfl, rfl, by rw [hcore, (commitException_keeps _ _).2],
        Or.inr ⟨hredirects', ?_⟩⟩
      by_cases hecall : ((sys.atCommit program t).rob.entries
          (sys.atCommit program t).rob.head).uop.uopc = .ecall
      · have hpop : Popped (sys.atCommit program t) (sys.cycle program t).core := by
          rw [hcore]
          exact commitException_popped hecall
        refine Or.inr ⟨d, w', hw, ?_, ?_⟩
        · rw [h.windowStep_of_pop t n hredirects' hpop.head, hw, List.tail_cons]
        · rw [← hstage.uopc]
          exact hecall
      · refine Or.inl (h.windowStep_of_stay t n hredirects' ?_)
        rw [hcore]
        unfold commitException
        rw [if_neg hecall]
    | store =>
      rw [hcore] at hvalid
      simp [retire] at hvalid
    | retire =>
      rw [hcore] at hvalid
      simp [retire] at hvalid

omit h in
/-- The load/store unit sends no stores. -/
theorem System.commitPipe_noStore :
    (sys.commitPipe program t).dmemReq.q.filter (fun req ↦ req.isStore) = [] := by
  rcases sys.commitPipe_requests program t with hpipe | ⟨entry, i, tx, hpipe⟩
  · rw [hpipe]
    rfl
  · rw [hpipe]
    rfl

/-- A cycle that does not set `commit_valid` writes no record and sends no store. -/
theorem SysInv.quiet (hvalid : (sys.cycle program t).core.rob.commitValid = false) :
    (sys.coreStep program t).2.commitTrace.q = [] ∧ sys.storeRequests program t = [] := by
  obtain ⟨hreq, htrace, -⟩ := h.not_retired t 0 hvalid
  unfold System.storeRequests
  rw [hreq, htrace, System.commitPipe_commitTrace, System.commitPipe_noStore]
  exact ⟨rfl, rfl⟩

variable (program) in
/-- A cycle emits no store and retires none, or it emits the store at the head and retires it. -/
theorem SysInv.store_cases :
    (sys.storeRequests program t = [] ∧ sys.retiredStores program t = []) ∨
      ∃ d w', Retires program sys t n w d w' ∧ d.result.isStore = true ∧
        sys.retiredStores program t = [(sys.cycle program t).core.rob.lastCommit] ∧
        (sys.cycle program t).core.rob.lastCommit =
          commitRecord (sys.atCommit program t) (d.result.entry.asStore d.result) ∧
        sys.storeRequests program t =
          [storeRequest (d.result.entry.asStore d.result)
            (sys.atCommit program t).lsu.nextTransactionId] := by
  unfold System.storeRequests System.retiredStores
  by_cases hvalid : (sys.cycle program t).core.rob.commitValid = true
  · obtain ⟨d, w', hret⟩ := h.retires t n hvalid
    have hrecord := hret.record
    have hrequests := hret.requests
    have hretirable := hret.retirable
    have hspec := hret.dispatched
    generalize (sys.atCommit program t).rob.entries (sys.atCommit program t).rob.head = e at *
    rw [hvalid, Bool.true_and]
    cases hretirable with
    | plain hcompletes hexc =>
      have hstore := hspec.isStore_of_completes hcompletes
      have hnot : (sys.cycle program t).core.rob.lastCommit.isStore = false := by
        rw [hrecord]
        rfl
      rw [hstore, if_neg Bool.false_ne_true] at hrequests
      rw [hrequests, hnot, if_neg Bool.false_ne_true]
      exact Or.inl ⟨System.commitPipe_noStore t, rfl⟩
    | load hload tx resp hexc =>
      have hstore := hspec.isStore_of_load hload
      have hnot : (sys.cycle program t).core.rob.lastCommit.isStore = false := by
        rw [hrecord]
        unfold commitRecord RobEntry.complete
        dsimp only
        rw [hexc, if_neg Bool.false_ne_true]
        rfl
      rw [hstore, if_neg Bool.false_ne_true] at hrequests
      rw [hrequests, hnot, if_neg Bool.false_ne_true]
      exact Or.inl ⟨System.commitPipe_noStore t, rfl⟩
    | store hstore =>
      have hyes : (sys.cycle program t).core.rob.lastCommit.isStore = true := by
        rw [hrecord]
        rfl
      rw [hstore, if_pos rfl] at hrequests
      rw [hrequests, hyes, if_pos rfl, List.filter_append, System.commitPipe_noStore]
      exact Or.inr ⟨d, w', hret, hstore, rfl, hrecord, rfl⟩
  · have hvalid' : (sys.cycle program t).core.rob.commitValid = false := by simpa using hvalid
    rw [(h.not_retired t n hvalid').1, System.commitPipe_noStore, hvalid', Bool.false_and,
      if_neg Bool.false_ne_true]
    exact Or.inl ⟨rfl, rfl⟩

/-- The requests of a cycle: what the load/store unit sends comes before the store that retires. -/
theorem SysInv.requests_eq :
    (sys.coreStep program t).2.dmemReq.q =
      (sys.afterMemory program t).2.dmemReq.q ++ sys.storeRequests program t := by
  have hmem : (sys.commitPipe program t).dmemReq.q.filter (fun req ↦ req.isStore) = [] :=
    System.commitPipe_noStore t
  rw [← System.commitPipe_dmemReq]
  unfold System.storeRequests
  by_cases hvalid : (sys.cycle program t).core.rob.commitValid = true
  · obtain ⟨d, w', hret⟩ := h.retires t 0 hvalid
    rw [hret.requests]
    split_ifs
    · rw [List.filter_append, hmem]
      rfl
    · rw [hmem, List.append_nil]
  · rw [(h.not_retired t 0 (by simpa using hvalid)).1, hmem, List.append_nil]

end Retirement

end BoomCore
