import BoomCore.Proof.Commit
import BoomCore.Proof.Cycle

/-!
# A run and its window

`System.window` follows the instructions in flight through a run, from what a cycle dispatches and
from the head of the reorder buffer. `sysInv_run` is the refinement: in every state of every run the
reorder buffer holds this window, in order, and the load/store unit is in order. `atCommit` is the
state that `commit_stage` finds, with the instruction of the cycle already at the end of the window.
-/

set_option autoImplicit false
set_option relaxedAutoImplicit false

namespace BoomCore

open Ring

/-! ### The state at commit -/

namespace System

variable (program : Program) (sys : System) (t : Tick)

/-- The state that the part of `rob_commit_module` after the completion loop finds. -/
def atCommit : BoomCoreState :=
  let before := sys.beforeCommit program t
  { before with
    rob := ({ before.rob with commitValid := false } : RobInternalState).markComplete
      before.execute.aluResult }

/-- The streams that commit finds. -/
def commitPipe : PipeSignals := (sys.afterFetch program t).2

theorem commitPipe_dmemReq :
    (sys.commitPipe program t).dmemReq = (sys.afterMemory program t).2.dmemReq := by
  unfold commitPipe afterFetch frontendModule
  dsimp only
  split_ifs <;> rfl

/-- The response on the port of the load/store unit. -/
theorem ports_dmemResp : (sys.ports program t).dmemResp.q.head? = t.dmemResp := by
  unfold ports
  cases t.dmemResp <;> rfl

/-- The streams to the consumers, as commit finds them: at most one load request was written. -/
theorem commitPipe_requests :
    (sys.commitPipe program t).dmemReq = { q := [], maxSize := t.dmemReqRoom } ∨
      ∃ entry i tx, (sys.commitPipe program t).dmemReq =
        { q := [loadRequest entry i tx], maxSize := t.dmemReqRoom } := by
  rw [commitPipe_dmemReq]
  exact lsuModule_requests (resolved_globalFlush sys.core) _

theorem commitPipe_commitTrace :
    (sys.commitPipe program t).commitTrace = { q := [], maxSize := t.commitTraceRoom } := by
  have hmem : (sys.afterMemory program t).2.commitTrace =
      { q := [], maxSize := t.commitTraceRoom } := by
    unfold afterMemory
    rw [memoryPhase_pipe]
    rfl
  rw [← hmem]
  unfold commitPipe afterFetch frontendModule
  dsimp only
  split_ifs <;> rfl

/-- The instruction that a cycle dispatches and executes, as a window of its own. -/
def dispatched (n : ℕ) : List Inflight :=
  let result := (sys.cycle program t).core.execute.aluResult
  if result.valid then [{ born := n, result := result }] else []

/-- What commit leaves in `execute` is the result of the instruction that was dispatched. -/
theorem cycle_execute :
    (sys.cycle program t).core.execute = (sys.atCommit program t).execute :=
  (cycle_frame program sys t).execute

/-- The window after a cycle: a redirect empties it, otherwise the dispatched instruction joins it
and the oldest one leaves when the head moves. -/
def windowStep (n : ℕ) (w : List Inflight) : List Inflight :=
  if sys.core.execute.aluResult.redirects then []
  else if (sys.cycle program t).core.rob.head = sys.core.rob.head then
    w ++ sys.dispatched program t n
  else (w ++ sys.dispatched program t n).tail

/-- What is in flight after a cycle was in flight before it or is dispatched in it. -/
theorem mem_of_mem_windowStep {n : ℕ} {w : List Inflight} {d : Inflight}
    (hd : d ∈ sys.windowStep program t n w) : d ∈ w ++ sys.dispatched program t n := by
  unfold windowStep at hd
  split_ifs at hd
  · simp at hd
  · exact hd
  · exact List.mem_of_mem_tail hd

/-- The instructions in flight before cycle `n` of a run. -/
def window (tick : ℕ → Tick) : ℕ → List Inflight
  | 0 => []
  | n + 1 => (run program tick n).windowStep program (tick n) n (window tick n)

end System

/-- The result of the instruction at the pc of the frontend, executed on the register file that the
load/store unit leaves. -/
def System.dispatchedResult (program : Program) (sys : System) (t : Tick) : AluResult :=
  BoomCore.dispatchedResult (sys.afterMemory program t).1 sys.core.frontend.pc
    (program sys.core.frontend.pc)

theorem markComplete_of_not {rob : RobInternalState} {r : AluResult}
    (h : r.completesInRob = false) : rob.markComplete r = rob := by
  simp [RobInternalState.markComplete, h]

theorem markComplete_of_completes {rob : RobInternalState} {r : AluResult}
    (h : r.completesInRob = true) (hidx : r.uop.queue.robIdx < robDepth)
    (hvalid : (rob.entries r.uop.queue.robIdx).valid = true) :
    rob.markComplete r =
      { rob with
        entries := Function.update rob.entries r.uop.queue.robIdx
          { rob.entries r.uop.queue.robIdx with
            busy := false
            exception := (rob.entries r.uop.queue.robIdx).exception || r.exception } } := by
  simp [RobInternalState.markComplete, h, hidx, hvalid]

/-- Allocation and the completion loop of one step together. -/
theorem markComplete_allocate {rob : RobInternalState} {uop : MicroOp} {r : AluResult}
    (htail : rob.tail < robDepth) (huop : r.uop = uop.atRob rob.tail)
    (hexc : r.exception = r.uop.exception) :
    ({ rob.wake.allocate uop with commitValid := false } : RobInternalState).markComplete r =
      { rob.wake with
        entries := Function.update rob.entries rob.tail r.entry
        tail := (rob.tail + 1) % robDepth
        maybeFull := if (rob.tail + 1) % robDepth = rob.head then true else rob.maybeFull
        commitValid := false } := by
  have hidx : r.uop.queue.robIdx = rob.tail := by rw [huop]; rfl
  have hexc' : uop.exception = r.uop.exception := by rw [huop]; rfl
  unfold AluResult.entry
  by_cases hcompletes : r.completesInRob = true
  · rw [markComplete_of_completes hcompletes (by rw [hidx]; exact htail)
      (by simp [RobInternalState.allocate, hidx])]
    dsimp only [RobInternalState.allocate, RobInternalState.wake]
    rw [hidx, Function.update_self, Function.update_idem, hexc, hexc', ← huop, hcompletes,
      Bool.or_self, Bool.not_true]
  · have hcompletes' : r.completesInRob = false := by simpa using hcompletes
    rw [markComplete_of_not hcompletes']
    dsimp only [RobInternalState.allocate, RobInternalState.wake]
    rw [hexc', ← huop, hcompletes', Bool.not_false]

/-- A cycle is idle, or the reorder buffer takes an instruction. -/
theorem System.idle_or_accepts (program : Program) (sys : System) (t : Tick) :
    (sys.accepted program t = none ∨ sys.core.rob.isFull = true) ∨
      ∃ resp, sys.accepted program t = some resp ∧ sys.core.rob.isFull = false := by
  cases hacc : sys.accepted program t with
  | none => exact Or.inl (Or.inl rfl)
  | some resp =>
    cases hfull : sys.core.rob.isFull with
    | true => exact Or.inl (Or.inr rfl)
    | false => exact Or.inr ⟨resp, rfl, rfl⟩

section Shapes

variable {program : Program} {sys : System} (h : StepInv sys) (t : Tick)

include h

/-- No instruction is allocated in the cycle. -/
theorem StepInv.atCommit_idle
    (hidle : sys.accepted program t = none ∨ sys.core.rob.isFull = true) :
    (sys.atCommit program t).rob =
        { (sys.afterMemory program t).1.rob.wake with commitValid := false } ∧
      (sys.atCommit program t).execute = {} ∧
      (sys.atCommit program t).lsu = (sys.afterMemory program t).1.lsu ∧
      (sys.atCommit program t).intRf = (sys.afterMemory program t).1.intRf := by
  unfold System.atCommit
  dsimp only
  cases hacc : sys.accepted program t with
  | none =>
    rw [h.beforeCommit_of_none t hacc]
    exact ⟨rfl, rfl, rfl, rfl⟩
  | some resp =>
    have hfull : sys.core.rob.isFull = true := by simpa [hacc] using hidle
    rw [h.beforeCommit_of_full t hacc hfull]
    exact ⟨rfl, rfl, rfl, rfl⟩

/-- The instruction of the cycle is in the entry at the tail. -/
theorem StepInv.atCommit_some {resp : ImemResponse} (hacc : sys.accepted program t = some resp)
    (hfull : sys.core.rob.isFull = false) (htail : sys.core.rob.tail < robDepth) :
    (sys.atCommit program t).rob =
        (let rob := (sys.afterMemory program t).1.rob
        { rob.wake with
          entries := Function.update rob.entries rob.tail
            (sys.dispatchedResult program t).entry
          tail := (rob.tail + 1) % robDepth
          maybeFull := if (rob.tail + 1) % robDepth = rob.head then true else rob.maybeFull
          commitValid := false }) ∧
      (sys.atCommit program t).execute = { aluResult := sys.dispatchedResult program t } ∧
      (sys.atCommit program t).lsu = (sys.afterMemory program t).1.lsu ∧
      (sys.atCommit program t).intRf =
        writeBack (sys.afterMemory program t).1.intRf (sys.dispatchedResult program t) := by
  have htail' : (sys.afterMemory program t).1.rob.tail < robDepth := by
    rw [System.afterMemory_rob]
    exact htail
  have hrenamed : renamedInst sys.core = renamedInst (sys.afterMemory program t).1 := by
    unfold renamedInst
    rw [System.afterMemory_rename]
  unfold System.atCommit
  dsimp only
  rw [h.beforeCommit_of_some t hacc hfull, hrenamed]
  refine ⟨?_, rfl, rfl, rfl⟩
  exact markComplete_allocate htail' rfl rfl

theorem StepInv.beforeCommit_redirects :
    ((sys.beforeCommit program t).brupdate.valid &&
      (sys.beforeCommit program t).brupdate.mispredict) =
        sys.core.execute.aluResult.redirects := by
  rw [← System.afterMemory_redirects program sys t]
  cases hacc : sys.accepted program t with
  | none => rw [h.beforeCommit_of_none t hacc]
  | some resp =>
    by_cases hfull : sys.core.rob.isFull = true
    · rw [h.beforeCommit_of_full t hacc hfull]
    · rw [h.beforeCommit_of_some t hacc (by simpa using hfull)]

variable (program) in
/-- The redirect of a result empties the reorder buffer in the next cycle, and nothing commits. -/
theorem StepInv.coreStep_of_redirects (hredirects : sys.core.execute.aluResult.redirects = true) :
    sys.coreStep program t =
      ({ sys.beforeCommit program t with
          rob := ({ (sys.beforeCommit program t).rob with commitValid := false } :
            RobInternalState).flush
          globalFlush := true }, sys.commitPipe program t) := by
  rw [System.coreStep_eq]
  unfold robCommitModule
  dsimp only
  rw [h.beforeCommit_redirects, if_pos hredirects]
  rfl

variable (program) in
theorem StepInv.coreStep_of_not_redirects
    (hredirects : sys.core.execute.aluResult.redirects = false) :
    sys.coreStep program t =
      commitStage (sys.atCommit program t) (sys.commitPipe program t) := by
  rw [System.coreStep_eq]
  unfold robCommitModule
  dsimp only
  rw [h.beforeCommit_redirects, hredirects, if_neg Bool.false_ne_true]
  rfl

/-- No instruction is dispatched in an idle cycle. -/
theorem StepInv.dispatched_idle (n : ℕ)
    (hidle : sys.accepted program t = none ∨ sys.core.rob.isFull = true) :
    sys.dispatched program t n = [] := by
  unfold System.dispatched
  rw [System.cycle_execute, (h.atCommit_idle t hidle).2.1]
  rfl

theorem StepInv.dispatched_some (n : ℕ) {resp : ImemResponse}
    (hacc : sys.accepted program t = some resp) (hfull : sys.core.rob.isFull = false)
    (htail : sys.core.rob.tail < robDepth) :
    sys.dispatched program t n =
      [{ born := n, result := sys.dispatchedResult program t }] := by
  unfold System.dispatched
  rw [System.cycle_execute, (h.atCommit_some t hacc hfull htail).2.1]
  rfl

/-- The frontend keeps its pc until it hands an instruction over. -/
theorem StepInv.redirected_of_none (hacc : sys.accepted program t = none) :
    (sys.cycle program t).redirected.pc = sys.redirected.pc := by
  have hfrontend :
      (sys.cycle program t).redirected.pc = (sys.cycle program t).core.frontend.pc := by
    unfold System.redirected
    rw [h.cycle_execute_of_none t hacc]
    rfl
  rw [hfrontend, h.cycle_frontend]
  rcases h.fetch.afterFetch_of_none t hacc with ⟨heq, -⟩ | ⟨-, -, heq, -⟩ <;> rw [heq]

/-- The pc behind an instruction that is handed over. -/
theorem StepInv.redirected_of_some {resp : ImemResponse}
    (hacc : sys.accepted program t = some resp) (hfull : sys.core.rob.isFull = false)
    (htail : sys.core.rob.tail < robDepth) :
    (sys.cycle program t).redirected.pc =
      if (sys.dispatchedResult program t).redirects then
        (sys.dispatchedResult program t).redirectPc &&& ~~~3#64
      else sys.core.frontend.pc + 4 := by
  obtain ⟨-, -, -, hresp, -⟩ := h.fetch.accepted_eq t hacc
  have hfrontend := (h.fetch.afterFetch_of_some t hacc).1
  unfold System.redirected
  rw [System.cycle_execute, (h.atCommit_some t hacc hfull htail).2.1, h.cycle_frontend, hfrontend,
    hresp]
  split_ifs <;> rfl

end Shapes

/-! ### The invariant of a run -/

/-- Between two cycles: the handshake is in order, the reorder buffer holds the window, and the
load/store unit is in order. -/
structure SysInv (sys : System) (w : List Inflight) : Prop where
  step : StepInv sys
  window : WindowInv sys.core w
  handed : Handed sys.core w

theorem sysInv_init : SysInv {} [] := ⟨stepInv_init, windowInv_init, handed_init⟩

theorem LsuInv.congr {s s' : BoomCoreState} {w : List Inflight} (h : LsuInv s w)
    (hentries : s'.rob.entries = s.rob.entries) (hhead : s'.rob.head = s.rob.head)
    (hlsu : s'.lsu = s.lsu) : LsuInv s' w := by
  constructor
  · rw [hlsu]
    exact h.idx_lt
  · rw [hentries, hlsu]
    exact h.outstanding
  · rw [hentries, hlsu]
    exact h.inFlight
  · rw [hentries, hhead]
    exact h.ordered

/-- An instruction that is appended waits for no response. -/
theorem LsuInv.push {s s' : BoomCoreState} {w : List Inflight} {d : Inflight} {r : AluResult}
    {i : ℕ} (h : LsuInv s w) (hentries : s'.rob.entries = Function.update s.rob.entries i r.entry)
    (hhead : s'.rob.head = s.rob.head) (hlsu : s'.lsu = s.lsu)
    (hlast : slot robDepth s.rob.head w.length = i)
    (hne : ∀ k, k < w.length → slot robDepth s.rob.head k ≠ i) : LsuInv s' (w ++ [d]) := by
  have hawaits : ∀ j, (s'.rob.entries j).awaitsResponse = true → j ≠ i := by
    rintro j hj rfl
    rw [hentries, Function.update_self, AluResult.entry_awaits] at hj
    simp at hj
  have hsame : ∀ j, j ≠ i → s'.rob.entries j = s.rob.entries j := fun j hj ↦ by
    rw [hentries, Function.update_of_ne hj]
  refine ⟨by rw [hlsu]; exact h.idx_lt, ?_, ?_, ?_⟩
  · rw [hlsu]
    intro hpend haw
    have hj := hawaits _ haw
    rw [hsame _ hj] at haw ⊢
    exact h.outstanding hpend haw
  · rw [hlsu]
    intro j hj haw hopen
    have hji := hawaits _ haw
    rw [hsame _ hji] at haw hopen ⊢
    exact h.inFlight j hj haw hopen
  · intro k hk haw j hj
    have hji := hawaits _ haw
    rw [hsame _ hji, hhead] at haw
    rw [hhead] at hji
    rw [List.length_append, List.length_singleton] at hk
    have hk' : k < w.length := by
      by_contra hcontra
      have hkw : k = w.length := by omega
      rw [hkw] at hji
      exact hji hlast
    rw [List.getElem_append_left (by omega)]
    exact h.ordered k hk' haw j hj

section Cycle

variable {program : Program} {sys : System} {w : List Inflight} (h : SysInv sys w) (t : Tick)

include h

omit t in
/-- The state that the load/store unit finds. -/
theorem SysInv.beforeMemory :
    WindowInv (resolved sys.core) w ∧ Handed (resolved sys.core) w := by
  have heq := resolved_eq sys.core
  have hrob : (resolved sys.core).rob = sys.core.rob := by rw [heq]
  have hlsu : (resolved sys.core).lsu = sys.core.lsu := by rw [heq]
  have hexecute : (resolved sys.core).execute = sys.core.execute := by rw [heq]
  refine ⟨⟨?_, ?_⟩, ?_, ?_⟩
  · rw [hrob]
    exact h.window.rob
  · exact h.window.lsu.congr (by rw [hrob]) (by rw [hrob]) hlsu
  · rw [hexecute, hrob]
    exact h.handed.last
  · rw [hexecute, hrob]
    exact h.handed.settled

variable (program) in
/-- The load/store unit keeps the window. -/
theorem SysInv.memory :
    WindowInv (sys.afterMemory program t).1 w ∧ Settled (sys.afterMemory program t).1 w :=
  lsuModule_window h.beforeMemory.1 h.beforeMemory.2 (resolved_globalFlush sys.core) _

/-- The load/store unit does not touch an entry that is complete. -/
theorem SysInv.memory_entry {i : ℕ} (hbusy : (sys.core.rob.entries i).busy = false) :
    (sys.afterMemory program t).1.rob.entries i = sys.core.rob.entries i := by
  have hrob : (resolved sys.core).rob = sys.core.rob := by rw [resolved_eq]
  rw [← hrob]
  exact lsuModule_entry_of_not_busy h.beforeMemory.1 h.beforeMemory.2
    (resolved_globalFlush sys.core) _ (by rw [hrob]; exact hbusy)

theorem SysInv.tail_lt : sys.core.rob.tail < robDepth := by
  rw [h.window.rob.tail]
  exact slot_lt (by decide) _

variable (program) in
/-- At commit the instruction of the cycle is at the end of the window. -/
theorem SysInv.atCommit (n : ℕ) :
    WindowInv (sys.atCommit program t) (w ++ sys.dispatched program t n) ∧
      Handed (sys.atCommit program t) (w ++ sys.dispatched program t n) := by
  obtain ⟨hmem, hsettled⟩ := h.memory program t
  rcases System.idle_or_accepts program sys t with hidle | ⟨resp, hacc, hfull⟩
  · obtain ⟨hrob, hexecute, hlsu, -⟩ := h.step.atCommit_idle t hidle
    rw [h.step.dispatched_idle t n hidle, List.append_nil]
    refine ⟨⟨?_, ?_⟩, ?_, ?_⟩
    · rw [hrob]
      exact hmem.rob.congr rfl rfl rfl rfl
    · exact hmem.lsu.congr (by rw [hrob]; rfl) (by rw [hrob]; rfl) hlsu
    · rw [hexecute]
      intro hvalid
      simp at hvalid
    · intro k hk hmemory
      rw [hrob]
      exact Or.inr (hsettled k hk hmemory)
  · obtain ⟨hrob, hexecute, hlsu, -⟩ := h.step.atCommit_some t hacc hfull h.tail_lt
    have hroom := h.window.rob.length_lt hfull
    have htail := hmem.rob.tail
    have hnew : EntryOf (sys.afterMemory program t).1.rob.tail
        { born := n, result := sys.dispatchedResult program t }
        (sys.dispatchedResult program t).entry :=
      ⟨dispatchedResult_spec _ _ _, rfl, .executed⟩
    have hne : ∀ k, k < w.length →
        slot robDepth (sys.afterMemory program t).1.rob.head k ≠
          (sys.afterMemory program t).1.rob.tail := fun k hk heq ↦ by
      rw [htail] at heq
      have hsame := (Ring.slot_inj (by omega) hroom).mp heq
      omega
    rw [h.step.dispatched_some t n hacc hfull h.tail_lt]
    refine ⟨⟨?_, ?_⟩, ?_, ?_⟩
    · rw [hrob]
      exact (hmem.rob.push hroom hnew).congr rfl rfl rfl rfl
    · exact hmem.lsu.push (by rw [hrob]) (by rw [hrob]; rfl) hlsu htail.symm hne
    · rw [hexecute, hrob]
      intro _ _
      refine ⟨w, _, rfl, rfl, ?_⟩
      show Function.update _ _ _ (slot robDepth (sys.afterMemory program t).1.rob.head w.length) = _
      rw [← htail, Function.update_self]
    · intro k hk hmemory
      rw [List.length_append, List.length_singleton] at hk
      by_cases hlast : k = w.length
      · refine Or.inl ⟨by simp [hlast], ?_⟩
        simp only [hlast, List.getElem_concat_length] at hmemory
        rw [hexecute]
        exact ⟨rfl, hmemory⟩
      · have hk' : k < w.length := by omega
        rw [List.getElem_append_left hk'] at hmemory
        refine Or.inr ?_
        rw [hrob]
        dsimp only
        rw [wake_head, Function.update_of_ne (hne k hk')]
        exact hsettled k hk' hmemory

variable (program) in
/-- The outcome of a cycle without a redirect. -/
theorem SysInv.outcome (n : ℕ) (hredirects : sys.core.execute.aluResult.redirects = false) :
    CommitOutcome (sys.atCommit program t) (sys.commitPipe program t)
      (w ++ sys.dispatched program t n) (sys.coreStep program t) := by
  rw [h.step.coreStep_of_not_redirects program t hredirects]
  exact commitStage_outcome (h.atCommit program t n).1.rob _

variable (program) in
/-- From the memory phase to commit the load/store unit stays as it is. -/
theorem SysInv.atCommit_lsu : (sys.atCommit program t).lsu = (sys.afterMemory program t).1.lsu := by
  rcases System.idle_or_accepts program sys t with hidle | ⟨resp, hacc, hfull⟩
  · exact (h.step.atCommit_idle t hidle).2.2.1
  · exact (h.step.atCommit_some t hacc hfull h.tail_lt).2.2.1

variable (program) in
/-- Commit starts at the head at which the cycle starts. -/
theorem SysInv.atCommit_head : (sys.atCommit program t).rob.head = sys.core.rob.head := by
  have hmem : (sys.afterMemory program t).1.rob.head = sys.core.rob.head := by
    rw [System.afterMemory_rob]
  rcases System.idle_or_accepts program sys t with hidle | ⟨resp, hacc, hfull⟩
  · rw [(h.step.atCommit_idle t hidle).1]
    exact hmem
  · rw [(h.step.atCommit_some t hacc hfull h.tail_lt).1]
    exact hmem

/-- The window after a cycle whose commit leaves the head in place. -/
theorem SysInv.windowStep_of_stay (n : ℕ)
    (hredirects : sys.core.execute.aluResult.redirects = false)
    (hhead : (sys.cycle program t).core.rob.head = (sys.atCommit program t).rob.head) :
    sys.windowStep program t n w = w ++ sys.dispatched program t n := by
  unfold System.windowStep
  rw [hredirects, if_neg Bool.false_ne_true, if_pos (hhead.trans (h.atCommit_head program t))]

/-- The window after a cycle whose commit moves the head. -/
theorem SysInv.windowStep_of_pop (n : ℕ)
    (hredirects : sys.core.execute.aluResult.redirects = false)
    (hhead : (sys.cycle program t).core.rob.head =
      ((sys.atCommit program t).rob.head + 1) % robDepth) :
    sys.windowStep program t n w = (w ++ sys.dispatched program t n).tail := by
  have hne : (sys.cycle program t).core.rob.head ≠ sys.core.rob.head := by
    rw [hhead, h.atCommit_head program t]
    exact succ_mod_ne (by decide) h.window.rob.head_lt
  unfold System.windowStep
  rw [hredirects, if_neg Bool.false_ne_true, if_neg hne]

/-- The redirect cycle: nothing is in flight afterwards. -/
theorem SysInv.cycle_of_redirects (n : ℕ)
    (hredirects : sys.core.execute.aluResult.redirects = true) :
    SysInv (sys.cycle program t) (sys.windowStep program t n w) := by
  have hcore : (sys.cycle program t).core = (sys.coreStep program t).1 := rfl
  rw [h.step.coreStep_of_redirects program t hredirects] at hcore
  have hnone : sys.accepted program t = none := by
    have hresponse := h.step.fetch.response_of_redirects program t hredirects
    unfold System.accepted
    rw [hresponse, ite_self]
  have hexecute := h.step.cycle_execute_of_none t hnone
  have hlsu : (sys.cycle program t).core.lsu = (sys.afterMemory program t).1.lsu := by
    rw [hcore]
    dsimp only
    rw [h.step.beforeCommit_of_none t hnone]
  have hwindow : sys.windowStep program t n w = [] := by
    unfold System.windowStep
    rw [if_pos hredirects]
  have hrob : RobInv (sys.cycle program t).core.rob [] := by
    rw [hcore]
    exact RobInv.flush _
  have hinvalid : ∀ i < robDepth,
      ((sys.cycle program t).core.rob.entries i).awaitsResponse = false := by
    intro i hi
    unfold RobEntry.awaitsResponse
    rw [hrob.outside i hi fun k hk ↦ absurd hk (Nat.not_lt_zero k)]
    rfl
  rw [hwindow]
  refine ⟨h.step.cycle t, ⟨hrob, ?_, ?_, ?_, ?_⟩, ?_, ?_⟩
  · rw [hlsu]
    exact (h.memory program t).1.lsu.idx_lt
  · intro _ hawaits
    rw [hinvalid _ (by rw [hlsu]; exact (h.memory program t).1.lsu.idx_lt)] at hawaits
    simp at hawaits
  · intro i hi hawaits
    rw [hinvalid i hi] at hawaits
    simp at hawaits
  · intro k hk
    exact absurd hk (Nat.not_lt_zero k)
  · rw [hexecute]
    intro hvalid
    simp at hvalid
  · intro k hk
    exact absurd hk (Nat.not_lt_zero k)

/-- A cycle whose commit takes the oldest instruction off the window. -/
theorem SysInv.cycle_of_popped (n : ℕ) {d : Inflight} {w' : List Inflight}
    (hredirects : sys.core.execute.aluResult.redirects = false)
    (hw : w ++ sys.dispatched program t n = d :: w')
    (hpop : Popped (sys.atCommit program t) (sys.cycle program t).core)
    (hnot : d.result.memoryValid = true →
      (sys.atCommit program t).rob.entries (sys.atCommit program t).rob.head ≠
        d.result.entry) :
    SysInv (sys.cycle program t) w' ∧ sys.windowStep program t n w = w' := by
  obtain ⟨hwin, hhanded⟩ := h.atCommit program t n
  rw [hw] at hwin hhanded
  refine ⟨⟨h.step.cycle t, ⟨?_, hwin.lsu.pop hpop⟩, hhanded.pop hpop hwin.rob hnot⟩, ?_⟩
  · exact hwin.rob.pop hpop.other hpop.gone hpop.head hpop.tail hpop.maybeFull
  · rw [h.windowStep_of_pop t n hredirects hpop.head, hw, List.tail_cons]

theorem SysInv.cycle (n : ℕ) :
    SysInv (sys.cycle program t) (sys.windowStep program t n w) := by
  by_cases hredirects : sys.core.execute.aluResult.redirects = true
  · exact h.cycle_of_redirects t n hredirects
  · have hredirects' : sys.core.execute.aluResult.redirects = false := by simpa using hredirects
    obtain ⟨hwin, hhanded⟩ := h.atCommit program t n
    have hcore : (sys.cycle program t).core = (sys.coreStep program t).1 := rfl
    generalize hout : sys.coreStep program t = out at hcore
    have houtcome := h.outcome program t n hredirects'
    rw [hout] at houtcome
    cases houtcome with
    | stall hstall =>
      rw [h.windowStep_of_stay t n hredirects' (by rw [hcore])]
      refine ⟨h.step.cycle t, ?_, ?_⟩ <;> rw [hcore]
      · exact hwin
      · exact hhanded
    | exception d w' hw hstage hbusy hexc =>
      by_cases hecall : ((sys.atCommit program t).rob.entries
          (sys.atCommit program t).rob.head).uop.uopc = .ecall
      · have hspec := hwin.rob.entries
        rw [hw] at hspec
        have hof := hspec.head_cell hwin.rob.head_lt
        have hpop : Popped (sys.atCommit program t) (sys.cycle program t).core := by
          rw [hcore]
          exact commitException_popped hecall
        have hnot := hstage.not_memory_of_ecall hof.dispatched hecall
        obtain ⟨hinv, heq⟩ := h.cycle_of_popped t n hredirects' hw hpop fun hmemory ↦ by
          rw [hnot] at hmemory
          simp at hmemory
        rw [heq]
        exact hinv
      · have htrap : (sys.cycle program t).core =
            { sys.atCommit program t with
              rob := { (sys.atCommit program t).rob with state := .exception }
              ioTrap := true } := by
          rw [hcore]
          unfold commitException
          rw [if_neg hecall]
        rw [h.windowStep_of_stay t n hredirects' (by rw [htrap])]
        refine ⟨h.step.cycle t, ?_, ?_⟩ <;> rw [htrap]
        · exact ⟨hwin.rob.congr rfl rfl rfl rfl, hwin.lsu.congr rfl rfl rfl⟩
        · exact ⟨hhanded.last, hhanded.settled⟩
    | store d w' hw hstore hentry hroom =>
      have hpop : Popped (sys.atCommit program t) (sys.cycle program t).core := by
        rw [hcore]
        exact retire_sendStore_popped _ _ _ _
      have hof := hwin.rob.entries
      rw [hw] at hof
      have hspec := (hof.head_cell hwin.rob.head_lt).dispatched
      obtain ⟨hinv, heq⟩ := h.cycle_of_popped t n hredirects' hw hpop
        ((hentry ▸ Retirable.store hstore).not_handed hspec)
      rw [heq]
      exact hinv
    | retire d w' hw hretire hstore =>
      have hpop : Popped (sys.atCommit program t) (sys.cycle program t).core := by
        rw [hcore]
        exact retire_popped _ _ _
      have hof := hwin.rob.entries
      rw [hw] at hof
      have hspec := (hof.head_cell hwin.rob.head_lt).dispatched
      obtain ⟨hinv, heq⟩ := h.cycle_of_popped t n hredirects' hw hpop (hretire.not_handed hspec)
      rw [heq]
      exact hinv

end Cycle

/-- The reorder buffer holds the window of the run before every cycle. -/
theorem sysInv_run (program : Program) (tick : ℕ → Tick) (n : ℕ) :
    SysInv (System.run program tick n) (System.window program tick n) := by
  induction n with
  | zero => exact sysInv_init
  | succ n ih => exact ih.cycle (tick n) n

end BoomCore
