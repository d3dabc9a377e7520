import BoomCore.Library.Along
import BoomCore.Proof.Simulation
import BoomCore.Properties.Dependence
import BoomCore.Run.Machine

/-!
# The instructions in flight track the sequential machine

The instructions in flight are the next instructions of the sequential machine, in order (`Tracks`):
element `j` of the window has the result that the machine computes `j` steps later, and a
destination register holds its value as soon as the instruction has written (`InStep`). So a
register that is read at dispatch, through the map table, holds what the machine reads there
(`Tracks.reads`), unless it is the destination of a load that still waits. When a load is answered
no older store is in flight, so the memory is the one that the machine has when it comes to the load
(`Tracks.memory_eq`).
-/

set_option autoImplicit false
set_option relaxedAutoImplicit false

namespace BoomCore

open Ring Renaming

/-! ### Results that do not depend on unused operands -/

theorem executeUop_congr {uop : MicroOp} {a a' b b' : BitVec 64}
    (ha : uop.usesRs1 = true → a = a') (hb : uop.usesRs2 = true → b = b') :
    executeUop uop a b = executeUop uop a' b' := by
  have hswitch : uop.executeSwitch a b = uop.executeSwitch a' b' := by
    trans uop.executeSwitch a' b
    · cases hused : uop.usesRs1 with
      | true => rw [ha hused]
      | false => exact uop.executeSwitch_rs1 hused a a' b
    · cases hused : uop.usesRs2 with
      | true => rw [hb hused]
      | false => exact uop.executeSwitch_rs2 hused a' b b'
  unfold executeUop
  rw [hswitch]

/-- The result depends on the pc and on the registers that the instruction uses. -/
theorem ArchState.result_congr {program : Program} {a a' : ArchState} (hpc : a.pc = a'.pc)
    (h1 : (decodeInst a.pc (program a.pc)).usesRs1 = true →
      readOperand a.regs (decodeInst a.pc (program a.pc)).rename.lrs1 =
        readOperand a'.regs (decodeInst a.pc (program a.pc)).rename.lrs1)
    (h2 : (decodeInst a.pc (program a.pc)).usesRs2 = true →
      readOperand a.regs (decodeInst a.pc (program a.pc)).rename.lrs2 =
        readOperand a'.regs (decodeInst a.pc (program a.pc)).rename.lrs2) :
    a.result program = a'.result program := by
  unfold result
  rw [← hpc]
  exact executeUop_congr h1 h2

/-- An instruction in flight writes a register exactly when it has one. -/
theorem DispatchedSpec.rdValid {r : AluResult} (h : DispatchedSpec r) :
    r.uop.rdValid = decide (r.uop.rename.pdst ≠ 0) := by
  unfold MicroOp.rdValid
  by_cases hpdst : r.uop.rename.pdst = 0
  · simp [hpdst]
  · simp [hpdst, (h.pdst hpdst).1]

/-! ### The step of the machine at an instruction in flight -/

theorem AluResult.loaded_uop (r : AluResult) (memory : ByteMemory 64) :
    (r.loaded memory).uop = r.uop := by
  unfold loaded
  split_ifs <;> rfl

theorem AluResult.loaded_of_not_load {r : AluResult} (h : r.isLoad = false)
    (memory : ByteMemory 64) : r.loaded memory = r := by
  unfold loaded
  rw [h, if_neg Bool.false_ne_true]

theorem AluResult.loaded_control (r : AluResult) (memory : ByteMemory 64) :
    (r.loaded memory).mispredict = r.mispredict ∧ (r.loaded memory).redirectPc = r.redirectPc := by
  unfold loaded
  split_ifs <;> exact ⟨rfl, rfl⟩

namespace Machine

variable {program : Program} {m : Machine} {r : AluResult}

theorem running_of_iterate {i j : ℕ} (hij : i ≤ j)
    (h : ((step program)^[j] m).arch.halted = false) :
    ((step program)^[i] m).arch.halted = false :=
  Run.of_iterate (p := fun m : Machine ↦ m.arch.halted = false) (fun _ ↦ running_of_step) hij h

/-- An exception: an `ECALL` is passed over, and everything else halts the machine. -/
theorem step_of_exception (hrun : m.arch.halted = false)
    (hexc : (m.arch.result program).exception = true) :
    m.arch.completes program = false ∧
      m.step program = { m with
        arch := if (m.arch.result program).uop.uopc = .ecall then
            { m.arch with pc := m.arch.pc + 4 }
          else { m.arch with halted := true } } := by
  have hdone : m.arch.completes program = false := by
    unfold ArchState.completes
    rw [hexc, Bool.not_true, Bool.and_false]
  rw [step_of_not_completes hdone]
  unfold ArchState.step
  dsimp only
  rw [hrun, hexc, if_neg Bool.false_ne_true, if_pos rfl]
  exact ⟨hdone, rfl⟩

/-- Assumes: the machine does not halt on the instruction `r` that is in flight. Either it is
executed, or it is an `ECALL`. -/
theorem completes_or_ecall (hrun : (m.step program).arch.halted = false)
    (himp : r.Implements (m.arch.result program)) :
    m.arch.completes program = true ∨
      (r.uop.uopc = .ecall ∧
        m.step program = { m with arch := { m.arch with pc := m.arch.pc + 4 } }) := by
  cases hexc : (m.arch.result program).exception with
  | false =>
    refine Or.inl ?_
    unfold ArchState.completes
    rw [running_of_step hrun, hexc]
    rfl
  | true =>
    have huopc : r.uop.uopc = (m.arch.result program).uop.uopc := by rw [himp.same]
    obtain ⟨-, hstep⟩ := step_of_exception (running_of_step hrun) hexc
    rw [hstep] at hrun ⊢
    by_cases hecall : (m.arch.result program).uop.uopc = .ecall
    · rw [if_pos hecall]
      exact Or.inr ⟨huopc.trans hecall, rfl⟩
    · rw [if_neg hecall] at hrun
      simp at hrun

/-- The registers after a step: the destination has the value of the instruction. -/
theorem step_regs (hspec : DispatchedSpec r) (hrun : (m.step program).arch.halted = false)
    (himp : r.Implements (m.arch.result program)) (x : ℕ) :
    readOperand (m.step program).arch.regs x =
      if r.uop.rename.pdst ≠ 0 ∧ x = r.uop.rename.ldst then (m.result program).result
      else readOperand m.arch.regs x := by
  rcases completes_or_ecall hrun himp with hdone | ⟨hecall, hstep⟩
  · have hldst := himp.ldst
    rw [step_of_completes hdone]
    unfold ArchState.advance Machine.result
    dsimp only
    rw [AluResult.loaded_uop]
    rw [← himp.rdValid, hspec.rdValid] at hldst ⊢
    by_cases hpdst : r.uop.rename.pdst = 0
    · simp [hpdst]
    · have hne := (hspec.pdst hpdst).2
      rw [if_pos (by simpa using hpdst)] at hldst ⊢
      rw [← hldst]
      by_cases hx : x = r.uop.rename.ldst
      · rw [if_pos ⟨hpdst, hx⟩, hx, readOperand_update_self hne]
      · rw [if_neg fun hcontra ↦ hx hcontra.2, readOperand_update_of_ne hx]
  · rw [hstep, if_neg fun hcontra ↦ hcontra.1 (hspec.ecall hecall).2]

/-- The pc after a step. -/
theorem step_pc (hspec : DispatchedSpec r) (hrun : (m.step program).arch.halted = false)
    (himp : r.Implements (m.arch.result program)) (hredirects : r.redirects = r.mispredict) :
    (m.step program).arch.pc =
      if r.redirects then r.redirectPc &&& ~~~3#64 else m.arch.pc + 4 := by
  rcases completes_or_ecall hrun himp with hdone | ⟨hecall, hstep⟩
  · obtain ⟨hmispredict, hpc⟩ := (m.arch.result program).loaded_control m.memory
    rw [step_of_completes hdone, hredirects]
    unfold ArchState.advance Machine.result
    dsimp only
    rw [hmispredict, hpc, himp.same]
  · have hnot : r.redirects = false := by
      by_contra hcontra
      have hexc := (hspec.control (by simpa using hcontra)).1
      rw [(hspec.ecall hecall).1] at hexc
      simp at hexc
    rw [hstep, hnot, if_neg Bool.false_ne_true]

end Machine

/-! ### Instructions in flight -/

/-- The instruction `d` is the one that the machine `m` executes next. -/
structure InStep (program : Program) (s : BoomCoreState) (m : Machine) (d : Inflight) : Prop where
  implements : d.result.Implements (m.arch.result program)
  exception : (s.rob.entries d.cell).exception = d.result.uop.exception
  written : d.result.uop.rename.pdst ≠ 0 →
    d.result.isLoad = false ∨ (s.rob.entries d.cell).arrived = true →
      s.intRf d.result.uop.rename.pdst = (m.result program).result

/-- The instructions in flight are the next ones of the machine, up to one on which it halts. -/
def Tracks (program : Program) (s : BoomCoreState) (m : Machine) (w : List Inflight) : Prop :=
  Run.Along (fun m d ↦ m.arch.halted = false → InStep program s m d) (Machine.step program) m w

/-- Only the entry and the register of the instruction matter. -/
theorem InStep.congr {program : Program} {s s' : BoomCoreState} {m : Machine} {d : Inflight}
    (h : InStep program s m d) (hentry : s'.rob.entries d.cell = s.rob.entries d.cell)
    (hrf : d.result.uop.rename.pdst ≠ 0 →
      s'.intRf d.result.uop.rename.pdst = s.intRf d.result.uop.rename.pdst) :
    InStep program s' m d := by
  refine ⟨h.implements, ?_, fun hpdst hdone ↦ ?_⟩
  · rw [hentry]
    exact h.exception
  · rw [hentry] at hdone
    rw [hrf hpdst]
    exact h.written hpdst hdone

namespace Tracks

variable {program : Program} {s : BoomCoreState} {m : Machine} {w : List Inflight}

/-- Assumes: the machine does not halt on an instruction in flight. A register that the map table
gives a name holds what the machine has there behind them, unless an instruction that has not
written is to write it. -/
theorem reads (h : Tracks program s m w) (hspec : ∀ d ∈ w, DispatchedSpec d.result)
    (hrun : ((Machine.step program)^[w.length] m).arch.halted = false) {map : ℕ → ℕ}
    (unready : ℕ → Prop)
    (hready : ∀ d ∈ w, d.result.uop.rename.pdst ≠ 0 → ¬ unready d.result.uop.rename.pdst →
      d.result.isLoad = false ∨ (s.rob.entries d.cell).arrived = true)
    (hregs : ∀ x, ¬ unready (map x) → readOperand s.intRf (map x) = readOperand m.arch.regs x)
    (x : ℕ) (hx : ¬ unready (replay map (assigns w) x)) :
    readOperand s.intRf (replay map (assigns w) x) =
      readOperand ((Machine.step program)^[w.length] m).arch.regs x := by
  induction w generalizing m map with
  | nil => exact hregs x hx
  | cons d w ih =>
    obtain ⟨hd, hrest⟩ := Run.along_cons_iff.mp h
    have hspec' := hspec d List.mem_cons_self
    have hstep : (m.step program).arch.halted = false :=
      Machine.running_of_iterate (i := 1) (Nat.succ_pos _) hrun
    have hin := hd (Machine.running_of_step hstep)
    have hafter := Machine.step_regs hspec' hstep hin.implements
    have hspecs : ∀ d ∈ w, DispatchedSpec d.result := fun d hd ↦ hspec d (List.mem_cons_of_mem _ hd)
    have hready' : ∀ d ∈ w, d.result.uop.rename.pdst ≠ 0 → ¬ unready d.result.uop.rename.pdst →
        d.result.isLoad = false ∨ (s.rob.entries d.cell).arrived = true :=
      fun d hd ↦ hready d (List.mem_cons_of_mem _ hd)
    by_cases hpdst : d.result.uop.rename.pdst = 0
    · rw [assigns_cons_of_zero hpdst] at hx ⊢
      refine ih hrest hspecs hrun hready' (fun y hy ↦ ?_) hx
      rw [hafter y, if_neg fun hcontra ↦ hcontra.1 hpdst]
      exact hregs y hy
    · rw [assigns_cons_of_ne hpdst, replay_cons] at hx ⊢
      refine ih hrest hspecs hrun hready' (fun y hy ↦ ?_) hx
      unfold install at hy ⊢
      dsimp only at hy ⊢
      rw [hafter y]
      by_cases hyd : y = d.result.uop.rename.ldst
      · rw [hyd, Function.update_self] at hy ⊢
        rw [if_pos ⟨hpdst, rfl⟩, readOperand, if_pos hpdst]
        exact hin.written hpdst (hready d List.mem_cons_self hpdst hy)
      · rw [Function.update_of_ne hyd] at hy ⊢
        rw [if_neg fun hcontra ↦ hyd hcontra.2]
        exact hregs y hy

/-- While no store is among the first instructions in flight, the machine has the same memory behind
them. -/
theorem memory_eq (h : Tracks program s m w) (hspec : ∀ d ∈ w, DispatchedSpec d.result) {j : ℕ}
    (hj : j < w.length)
    (hsta : ∀ i (hi : i < j), (w.get ⟨i, hi.trans hj⟩).result.uop.ctrl.isSta = false) :
    ((Machine.step program)^[j] m).memory = m.memory := by
  induction j with
  | zero => rfl
  | succ j ih =>
    have hj' : j < w.length := Nat.lt_of_succ_lt hj
    have hbefore := ih hj' fun i hi ↦ hsta i (Nat.lt_succ_of_lt hi)
    rw [Function.iterate_succ_apply', Machine.step_memory, hbefore]
    intro hrunning
    have hsame := (h j hj' hrunning).implements.same
    have hnone : w[j].result.isStore = false := by
      have hnot : w[j].result.uop.ctrl.isSta = false := hsta j (Nat.lt_succ_self j)
      rw [(hspec _ (List.getElem_mem hj')).store, hnot]
      rfl
    rw [hsame] at hnone
    exact hnone

end Tracks

/-! ### Answers of the data memory -/

theorem enqueueResult_exception (s : BoomCoreState) (i : ℕ) :
    ((enqueueResult s).rob.entries i).exception = (s.rob.entries i).exception := by
  unfold enqueueResult
  dsimp only
  split_ifs
  · by_cases hi : i = s.execute.aluResult.uop.queue.robIdx
    · rw [hi]
      simp [BoomCoreState.setEntry, RobEntry.asStore]
    · simp [BoomCoreState.setEntry, Function.update_of_ne hi]
  · by_cases hi : i = s.execute.aluResult.uop.queue.robIdx
    · rw [hi]
      simp [BoomCoreState.setEntry, RobEntry.asLoad]
    · simp [BoomCoreState.setEntry, Function.update_of_ne hi]
  · rfl
  · rfl

theorem tryIssueLoad_exception (s : BoomCoreState) (pipe : PipeSignals) (j i : ℕ) :
    ((tryIssueLoad s pipe j).1.rob.entries i).exception = (s.rob.entries i).exception := by
  unfold tryIssueLoad
  split_ifs
  · by_cases hi : i = j
    · rw [hi]
      simp [BoomCoreState.setEntry, RobEntry.sent]
    · simp [BoomCoreState.setEntry, Function.update_of_ne hi]
  · rfl

/-- A response without exception leaves the exception flags of all entries. -/
theorem afterResponse_exception {s : BoomCoreState} {resp : Option DmemResponse}
    (hexc : ∀ r ∈ resp, r.exception = false) (i : ℕ) :
    ((s.afterResponse resp).rob.entries i).exception = (s.rob.entries i).exception := by
  cases resp with
  | none => rfl
  | some r =>
    unfold BoomCoreState.afterResponse
    dsimp only
    by_cases hanswers : s.answers r = true
    · rw [handleResponse_of_answers hanswers]
      dsimp only
      by_cases hi : i = s.lsu.pendingLoadRobIdx
      · rw [hi, Function.update_self, RobEntry.complete_exception, hexc r rfl, Bool.false_or]
      · rw [Function.update_of_ne hi]
    · rw [handleResponse_of_not_answers (by simpa using hanswers)]
      split_ifs <;> rfl

/-- The memory phase raises an exception only with the response of the cycle. -/
theorem System.afterMemory_exception (program : Program) (sys : System) (t : Tick)
    (hexc : ∀ r ∈ t.dmemResp, r.exception = false) (i : ℕ) :
    ((sys.afterMemory program t).1.rob.entries i).exception =
      (sys.core.rob.entries i).exception := by
  have hrob : (resolved sys.core).rob = sys.core.rob := by rw [resolved_eq]
  rw [System.afterMemory_eq, lsuModule_eq (resolved_globalFlush sys.core), System.ports_dmemResp]
  rcases issueLoadsFrom_cases (enqueueResult ((resolved sys.core).afterResponse t.dmemResp))
    (takeDmemResponse (resolved sys.core) (sys.ports program t)).2 robDepth 0 with
    heq | ⟨j, -, -, heq⟩
  · rw [heq, enqueueResult_exception, afterResponse_exception hexc, hrob]
  · rw [heq, tryIssueLoad_exception, enqueueResult_exception, afterResponse_exception hexc, hrob]

section Memory

variable {program : Program} {sys : System} {w : List Inflight} (h : SysInv sys w) {t : Tick}
  {m : Machine} {memory : ByteMemory 64} {queue : List DmemRequest} {answers : List DmemResponse}
  {i : Option ℕ} (hresp : t.dmemResp = i.bind fun i ↦ answers[i]?)
  (hmem : MemoryInv sys.core m.memory memory queue answers)

include hresp hmem

/-- The memory answers without exception. -/
theorem MemoryInv.resp_exception : ∀ r ∈ t.dmemResp, r.exception = false := by
  intro r hr
  rw [hresp] at hr
  obtain ⟨j, -, hget⟩ := Option.bind_eq_some_iff.mp hr
  exact (hmem.answer r (List.mem_of_getElem? hget)).2.2.1

include h

/-- What a load receives: its bytes of the beat, in the memory after the stores that have retired.
No older store is in flight. -/
theorem SysInv.delivery_value {cell : ℕ} {v : BitVec 64}
    (hsome : sys.delivery t = some (cell, v)) :
    ∃ k, ∃ hk : k < w.length, w[k].cell = cell ∧ w[k].result.isLoad = true ∧
      v = loadValue (beat m.memory w[k].result.memoryAddress) w[k].result.memoryAddress
        w[k].result.memorySize w[k].result.signedLoad ∧
      ∀ j (hj : j < k), (w.get ⟨j, hj.trans hk⟩).result.uop.ctrl.isSta = false := by
  obtain ⟨resp, hr, hanswers, hexc, rfl, rfl⟩ := sys.delivery_eq t hsome
  obtain ⟨k, hk, hslot, hload, tx, hentry⟩ := h.window.answered_load hanswers
  have hwaits : sys.core.waiting = true := by
    unfold BoomCoreState.answers LsuState.matchesPending at hanswers
    unfold BoomCoreState.waiting
    simp only [Bool.and_eq_true] at hanswers ⊢
    exact ⟨hanswers.1.1, hanswers.2⟩
  rw [hresp] at hr
  obtain ⟨j, -, hget⟩ := Option.bind_eq_some_iff.mp hr
  have hanswer := List.mem_of_getElem? hget
  obtain ⟨-, -, -, hdata⟩ := hmem.answer resp hanswer
  have hbeat := hmem.waitingAnswer hwaits resp hanswer
  refine ⟨k, hk, ?_, hload, ?_, ?_⟩
  · rw [← hslot]
    exact (h.window.rob.entryOf hk).robIdx
  · rw [hentry] at hbeat ⊢
    unfold RobEntry.responseValue
    rw [hdata, ite_self, hbeat]
    rfl
  · refine h.window.lsu.ordered k hk ?_
    rw [hslot, hentry]
    rfl

/-- The load that receives the value `v` is the one that the machine executes, and `v` is its
value. -/
theorem Tracks.delivered (htr : Tracks program sys.core m w)
    (hbeat : ∀ j, ((Machine.step program)^[j] m).LoadsInBeat program) {cell : ℕ} {v : BitVec 64}
    (hsome : sys.delivery t = some (cell, v)) {k : ℕ} (hk : k < w.length) (hcell : w[k].cell = cell)
    (hrunning : ((Machine.step program)^[k] m).arch.halted = false) :
    v = (((Machine.step program)^[k] m).result program).result := by
  obtain ⟨k', hk', hcell', hload, hv, hsta⟩ := h.delivery_value hresp hmem hsome
  have hspec : ∀ d ∈ w, DispatchedSpec d.result := fun d hd ↦
    (h.window.rob.entryOf_mem hd).dispatched
  obtain rfl : k = k' := by
    have hslot := (h.window.rob.entryOf hk).robIdx.symm.trans
      ((hcell.trans hcell'.symm).trans (h.window.rob.entryOf hk').robIdx)
    exact (h.window.rob.slot_inj hk hk').mp hslot
  have himp := (htr k hk hrunning).implements
  have hmemory := htr.memory_eq hspec hk hsta
  have hin := hbeat k
  rw [← hmemory] at hv
  generalize (Machine.step program)^[k] m = m' at *
  have hsame := himp.same
  have hexc : (m'.arch.result program).exception = false := by
    have hflags := hload
    rw [(hspec _ (List.getElem_mem hk)).load, Bool.and_eq_true, Bool.not_eq_true'] at hflags
    rw [← hflags.2, ← (hspec _ (List.getElem_mem hk)).exception, hsame]
  have hdone : m'.arch.completes program = true := by
    unfold ArchState.completes
    rw [hrunning, hexc]
    rfl
  rw [hsame] at hload hv
  rw [hv, loadValue_beat _ _ _ _ (hin hdone hload)]
  unfold Machine.result AluResult.loaded
  rw [if_pos hload]

/-- The memory phase: what is in flight stays in step. -/
theorem Tracks.afterMemory (htr : Tracks program sys.core m w)
    (hbeat : ∀ j, ((Machine.step program)^[j] m).LoadsInBeat program) {free : List ℕ}
    (hreg : RegInv sys.core.rename.intMapTable sys.core.rename.intFreeList w free) :
    Tracks program (sys.afterMemory program t).1 m w := by
  refine Run.Along.mono htr fun k hk hold hrunning ↦ ?_
  obtain ⟨himp, hexc, hwritten⟩ := hold hrunning
  refine ⟨himp, ?_, fun hpdst hdone ↦ ?_⟩
  · rw [System.afterMemory_exception program sys t (hmem.resp_exception hresp), hexc]
  have hd := List.getElem_mem hk
  cases hdelivery : sys.delivery t with
  | none =>
    obtain ⟨hrf, harrived⟩ := h.memory_of_none program t hdelivery
    rw [hrf]
    refine hwritten hpdst ?_
    by_cases hload : w[k].result.isLoad = true
    · exact hdone.imp_right (harrived _ hd hload)
    · exact Or.inl (by simpa using hload)
  | some cv =>
    obtain ⟨d₀, hd₀, hcell, -, hrf, harrived⟩ := h.memory_of_some program t hdelivery
    by_cases heq : w[k] = d₀
    · rw [hrf, ← heq, if_pos hpdst, Function.update_self]
      exact htr.delivered h hresp hmem hbeat hdelivery hk (by rw [heq, hcell]) hrunning
    · have hrf' : (sys.afterMemory program t).1.intRf w[k].result.uop.rename.pdst =
          sys.core.intRf w[k].result.uop.rename.pdst := by
        rw [hrf]
        split_ifs
        · exact Function.update_of_ne (fun hp ↦ heq (hreg.eq_of_pdst hd hd₀ hpdst hp)) _ _
        · rfl
      rw [hrf']
      refine hwritten hpdst ?_
      by_cases hload : w[k].result.isLoad = true
      · exact hdone.imp_right (harrived _ hd heq hload)
      · exact Or.inl (by simpa using hload)

omit hresp hmem in
/-- The memory phase does not write a committed register. -/
theorem SysInv.memory_committed {free : List ℕ}
    (hreg : RegInv sys.core.rename.intMapTable sys.core.rename.intFreeList w free) (x : ℕ) :
    readOperand (sys.afterMemory program t).1.intRf
        (sys.core.rename.intMapTable.committedMapTable x) =
      readOperand sys.core.intRf (sys.core.rename.intMapTable.committedMapTable x) := by
  cases hdelivery : sys.delivery t with
  | none => rw [(h.memory_of_none program t hdelivery).1]
  | some cv =>
    obtain ⟨d₀, hd₀, -, -, hrf, -⟩ := h.memory_of_some program t hdelivery
    rw [hrf]
    split_ifs with hpdst
    · exact readOperand_update_of_ne (hreg.committed_ne hd₀ hpdst x) _
    · rfl

end Memory

/-! ### The dispatch of an instruction -/

/-- A cycle in which the core stays in step with the sequential machine: what is handed over finds
room, a destination register and sources that do not wait for a load, and a redirect finds nothing
in flight. -/
structure System.InOrder (program : Program) (sys : System) (t : Tick) : Prop where
  room : (sys.accepted program t).isSome = true → sys.core.rob.isFull = false
  register : (sys.accepted program t).isSome = true →
    (decodeInst sys.core.frontend.pc (program sys.core.frontend.pc)).writesInt = true →
      0 < sys.core.rename.intFreeList.count ∧
        (sys.core.rename.intFreeList.count = 1 →
          sys.core.Spare sys.core.rename.intFreeList.front)
  sources : sys.SourcesReady program t
  redirect : sys.core.execute.aluResult.redirects = true → sys.core.rob.isEmpty = true

theorem System.inOrder_iff (program : Program) (sys : System) (t : Tick) :
    sys.InOrder program t ↔
      ((sys.accepted program t).isSome = true → sys.core.rob.isFull = false) ∧
      ((sys.accepted program t).isSome = true →
        (decodeInst sys.core.frontend.pc (program sys.core.frontend.pc)).writesInt = true →
          0 < sys.core.rename.intFreeList.count ∧
            (sys.core.rename.intFreeList.count = 1 →
              sys.core.Spare sys.core.rename.intFreeList.front)) ∧
      sys.SourcesReady program t ∧
      (sys.core.execute.aluResult.redirects = true → sys.core.rob.isEmpty = true) :=
  ⟨fun h ↦ ⟨h.room, h.register, h.sources, h.redirect⟩, fun h ↦ ⟨h.1, h.2.1, h.2.2.1, h.2.2.2⟩⟩

instance (program : Program) (sys : System) (t : Tick) : Decidable (sys.InOrder program t) :=
  decidable_of_iff' _ (sys.inOrder_iff program t)

theorem System.InOrder.renamesSafely {program : Program} {sys : System} {t : Tick}
    (h : sys.InOrder program t) : sys.RenamesSafely program t :=
  fun hacc hwrites ↦ ⟨h.room hacc, (h.register hacc hwrites).2⟩

/-- Register zero is not renamed. -/
theorem RegInv.mapTable_zero {mt : RenameMapTableState} {fl : RenameFreeListState}
    {w : List Inflight} {free : List ℕ} (h : RegInv mt fl w free)
    (hspec : ∀ d ∈ w, DispatchedSpec d.result) : mt.mapTable 0 = 0 := by
  rw [h.map, replay_of_forall_ne]
  · refine h.unwritten 0 fun hcontra ↦ ?_
    exact (mem_writableRegs.mp hcontra).1 rfl
  · intro a ha
    obtain ⟨d, hd, hassign⟩ := List.mem_filterMap.mp ha
    unfold Inflight.assign at hassign
    split_ifs at hassign with hpdst
    rw [← Option.some.inj hassign]
    exact ((hspec d hd).pdst hpdst).2

/-- A machine state with the registers that the core reads through its map table. -/
def System.mappedState (program : Program) (sys : System) (t : Tick) (arch : ArchState) :
    ArchState :=
  { arch with
    regs := fun x ↦ readOperand (sys.afterMemory program t).1.intRf
      (sys.core.rename.intMapTable.mapTable x) }

section Dispatch

variable {program : Program} {sys : System} {w : List Inflight} (h : SysInv sys w) (t : Tick)
  {m : Machine} {free : List ℕ}
  (hreg : RegInv sys.core.rename.intMapTable sys.core.rename.intFreeList w free)

include h

theorem SysInv.dispatchedSpec {d : Inflight} (hd : d ∈ w) : DispatchedSpec d.result :=
  (h.window.rob.entryOf_mem hd).dispatched

/-- A load in flight that writes a source that is ready has arrived. -/
theorem SysInv.arrived_of_sourceReady {p : ℕ} (hready : sys.SourceReady program t p) {d : Inflight}
    (hd : d ∈ w) (hload : d.result.isLoad = true) (hp : d.result.uop.rename.pdst = p) :
    ((sys.afterMemory program t).1.rob.entries d.cell).arrived = true := by
  obtain ⟨hwin, hsettled⟩ := h.memory program t
  have hof := hwin.rob.entryOf_mem hd
  have hmemory : d.result.memoryValid = true := by
    rw [hof.dispatched.memoryValid, hload, Bool.true_or]
  have hlt : d.cell < robDepth := by
    obtain ⟨k, hk, rfl⟩ := List.getElem_of_mem hd
    rw [Inflight.cell, (hwin.rob.entryOf hk).robIdx]
    exact slot_lt (by decide) _
  exact hready d.cell hlt hof.stage.valid
    (hof.stage.isLoad hof.dispatched hload (hsettled.memoryValid hwin.rob hd hmemory))
    (by rw [hof.stage.rename, hp])

include hreg

theorem SysInv.readOperand_mappedState (arch : ArchState) (x : ℕ) :
    readOperand (sys.afterMemory program t).1.intRf (sys.core.rename.intMapTable.mapTable x) =
      readOperand (sys.mappedState program t arch).regs x := by
  by_cases hx : x = 0
  · rw [hx, hreg.mapTable_zero fun d hd ↦ h.dispatchedSpec hd]
    rfl
  · exact (if_pos hx).symm

/-- A register that is ready, read through the map table, holds what the machine has there behind
the instructions in flight. -/
theorem Tracks.readOperand_ready (htr : Tracks program (sys.afterMemory program t).1 m w)
    (hregs : ∀ x, readOperand (sys.afterMemory program t).1.intRf
      (sys.core.rename.intMapTable.committedMapTable x) = readOperand m.arch.regs x)
    (hrun : ((Machine.step program)^[w.length] m).arch.halted = false) {x : ℕ}
    (hready : sys.core.rename.intMapTable.mapTable x ≠ 0 →
      sys.SourceReady program t (sys.core.rename.intMapTable.mapTable x)) :
    readOperand (sys.afterMemory program t).1.intRf (sys.core.rename.intMapTable.mapTable x) =
      readOperand ((Machine.step program)^[w.length] m).arch.regs x := by
  rw [hreg.map]
  refine htr.reads (fun d hd ↦ h.dispatchedSpec hd) hrun
    (fun p ↦ p ≠ 0 ∧ ¬ sys.SourceReady program t p) ?_ (fun y _ ↦ hregs y) x ?_
  · intro d hd hpdst hnot
    by_cases hload : d.result.isLoad = true
    · refine Or.inr (h.arrived_of_sourceReady t ?_ hd hload rfl)
      by_contra hcontra
      exact hnot ⟨hpdst, hcontra⟩
    · exact Or.inl (by simpa using hload)
  · rw [← hreg.map]
    exact fun hcontra ↦ hcontra.2 (hready hcontra.1)

/-- Assumes: the cycle is in order, and the frontend is at the pc of the machine behind the
instructions in flight. What is handed over has the result of the machine. -/
theorem Tracks.implements (hfl : FreeInv sys.core.rename.intFreeList)
    (htr : Tracks program (sys.afterMemory program t).1 m w)
    (hregs : ∀ x, readOperand (sys.afterMemory program t).1.intRf
      (sys.core.rename.intMapTable.committedMapTable x) = readOperand m.arch.regs x)
    (hinOrder : sys.InOrder program t) (hacc : (sys.accepted program t).isSome = true)
    (hrun : ((Machine.step program)^[w.length] m).arch.halted = false)
    (hpc : sys.core.frontend.pc = ((Machine.step program)^[w.length] m).arch.pc) :
    (sys.dispatchedResult program t).Implements
      (((Machine.step program)^[w.length] m).arch.result program) := by
  have hrename := System.afterMemory_rename program sys t
  have hview : ∀ x, readOperand (sys.afterMemory program t).1.intRf
      (sys.core.rename.intMapTable.mapTable x) =
        readOperand (sys.mappedState program t
          ((Machine.step program)^[w.length] m).arch).regs x :=
    h.readOperand_mappedState t hreg _
  have hfull := hinOrder.room hacc
  obtain ⟨hsource1, hsource2⟩ := hinOrder.sources hacc hfull
  have hresult : (sys.mappedState program t ((Machine.step program)^[w.length] m).arch).result
      program = ((Machine.step program)^[w.length] m).arch.result program := by
    refine ArchState.result_congr rfl (fun hused ↦ ?_) fun hused ↦ ?_
    · rw [← hview]
      refine htr.readOperand_ready h t hreg hregs hrun fun hne ↦ ?_
      rw [hpc] at hsource1
      exact hsource1 hused hne
    · rw [← hview]
      refine htr.readOperand_ready h t hreg hregs hrun fun hne ↦ ?_
      rw [hpc] at hsource2
      exact hsource2 hused hne
  rw [← hresult]
  unfold System.dispatchedResult
  rw [hpc]
  refine dispatchedResult_implements (by rw [hrename]; exact hview) fun hwrites ↦ ?_
  rw [hrename]
  have hwrites' : (decodeInst sys.core.frontend.pc
      (program sys.core.frontend.pc)).writesInt = true := by
    rw [hpc]
    exact hwrites
  obtain ⟨hcount, hspare⟩ := hinOrder.register hacc hwrites'
  exact ⟨hcount, (hreg.pop hfl hcount
    (fun hone ↦ h.window.rob.spareRegister (hspare hone)) 0).1.1⟩

omit hreg in
/-- What is dispatched is not in flight before. -/
theorem SysInv.ne_of_dispatched (n : ℕ) {d d' : Inflight} (hd : d ∈ w)
    (hd' : d' ∈ sys.dispatched program t n) : d ≠ d' := by
  rintro rfl
  exact h.dispatched_robIdx_ne t n hd hd' rfl

/-- Between the memory phase and commit no committed register is written. -/
theorem SysInv.atCommit_committedRegs (hfl : FreeInv sys.core.rename.intFreeList)
    (hsafe : sys.RenamesSafely program t) (x : ℕ) :
    readOperand (sys.atCommit program t).intRf (sys.core.rename.intMapTable.committedMapTable x) =
      readOperand sys.core.intRf (sys.core.rename.intMapTable.committedMapTable x) := by
  have hmemory : readOperand (sys.afterMemory program t).1.intRf
      (sys.core.rename.intMapTable.committedMapTable x) =
        readOperand sys.core.intRf (sys.core.rename.intMapTable.committedMapTable x) :=
    h.memory_committed hreg x
  rw [← hmemory]
  rcases h.dispatched_cases program t 0 with ⟨-, -, hrf⟩ | ⟨d, hone, -, -, hacc, -, -, hrf⟩
  · rw [hrf]
  · obtain ⟨resp, hresp⟩ := Option.isSome_iff_exists.mp hacc
    have hquiet := (h.step.fetch.accepted_eq t hresp).2.2.1
    obtain ⟨free', hreg', -⟩ := h.regInv_atCommit hreg hfl t 0 hsafe hquiet
    have hd : d ∈ w ++ sys.dispatched program t 0 := by
      rw [hone]
      exact List.mem_append_right _ (List.mem_singleton_self d)
    rw [hrf]
    unfold writeBack
    split_ifs with hwrites
    · have hpdst : d.result.uop.rename.pdst ≠ 0 := by
        simp only [Bool.and_eq_true, decide_eq_true_eq] at hwrites
        exact hwrites.2
      have hfresh := hreg'.committed_ne hd hpdst x
      rw [h.step.atCommit_committed] at hfresh
      exact readOperand_update_of_ne hfresh _
    · rfl

/-- Dispatch: what is handed over is in step behind the others. -/
theorem Tracks.atCommit (hfl : FreeInv sys.core.rename.intFreeList)
    (htr : Tracks program (sys.afterMemory program t).1 m w)
    (hregs : ∀ x, readOperand (sys.afterMemory program t).1.intRf
      (sys.core.rename.intMapTable.committedMapTable x) = readOperand m.arch.regs x)
    (hinOrder : sys.InOrder program t)
    (hpc : (sys.accepted program t).isSome = true →
      ((Machine.step program)^[w.length] m).arch.halted = false →
        sys.core.frontend.pc = ((Machine.step program)^[w.length] m).arch.pc) (n : ℕ) :
    Tracks program (sys.atCommit program t) m (w ++ sys.dispatched program t n) := by
  rcases h.dispatched_cases program t n with
    ⟨hnone, -, hrf⟩ | ⟨d, hone, -, hresult, hacc, -, hentries, hrf⟩
  · rw [hnone, List.append_nil]
    refine Run.Along.mono htr fun k hk hold hrunning ↦ (hold hrunning).congr ?_ fun _ ↦ by rw [hrf]
    exact h.atCommit_entry t (List.getElem_mem hk)
  · obtain ⟨resp, hresp⟩ := Option.isSome_iff_exists.mp hacc
    have hquiet := (h.step.fetch.accepted_eq t hresp).2.2.1
    obtain ⟨free', hreg', -⟩ := h.regInv_atCommit hreg hfl t n hinOrder.renamesSafely hquiet
    rw [hone] at hreg' ⊢
    have hlast : d ∈ w ++ [d] := List.mem_append_right _ (List.mem_singleton_self d)
    refine Run.along_concat_iff.mpr ⟨Run.Along.mono htr fun k hk hold hrunning ↦ ?_, fun hrun ↦ ?_⟩
    · have hd := List.getElem_mem hk
      refine (hold hrunning).congr (h.atCommit_entry t hd) fun hpdst ↦ ?_
      have hne : w[k].result.uop.rename.pdst ≠ d.result.uop.rename.pdst := fun heq ↦
        h.ne_of_dispatched t n hd (by rw [hone]; exact List.mem_singleton_self d)
          (hreg'.eq_of_pdst (List.mem_append_left _ hd) hlast hpdst heq)
      rw [hrf]
      unfold writeBack
      split_ifs
      · exact Function.update_of_ne hne _ _
      · rfl
    · have himp := htr.implements h t hreg hfl hregs hinOrder hacc hrun (hpc hacc hrun)
      rw [← hresult] at himp
      refine ⟨himp, ?_, fun hpdst hdone ↦ ?_⟩
      · rw [hentries, Function.update_self]
        rfl
      · have hload : d.result.isLoad = false := by
          refine hdone.resolve_right ?_
          rw [hentries, Function.update_self]
          simp [RobEntry.arrived, AluResult.entry]
        have hspec : DispatchedSpec d.result := by
          rw [hresult]
          exact dispatchedResult_spec _ _ _
        have hvalue : (((Machine.step program)^[w.length] m).result program).result =
            d.result.result := by
          have hsame := himp.same
          have hnot : (((Machine.step program)^[w.length] m).arch.result program).isLoad =
              false := by
            rw [hsame] at hload
            exact hload
          unfold Machine.result
          rw [AluResult.loaded_of_not_load hnot, hsame]
        rw [hvalue, hrf]
        unfold writeBack
        rw [hload, (hspec.pdst hpdst).1]
        simp [hpdst]

end Dispatch

end BoomCore
