import BoomCore.Proof.Tracking
import BoomCore.Properties.Redirect

/-!
# A cycle of the core and a step of the sequential machine

`Refines` relates the core and its memory to the state of the sequential machine behind the retired
instructions: the committed registers and the committed memory are those of the machine, and the
instructions in flight track it, or the core has stopped at the exception on which the machine has
halted. Every cycle in order stays at this state and is silent, or advances by one step and emits
what the step produces (`Refines.cycle`).
-/

set_option autoImplicit false
set_option relaxedAutoImplicit false

namespace BoomCore

open Ring Renaming

/-! ### What retires -/

/-- The record of a load. -/
theorem AluResult.Implements.record_load {r a : AluResult} (h : r.Implements a)
    {s : BoomCoreState} {tx : BitVec 32} {resp : DmemResponse} {memory : ByteMemory 64}
    (hload : r.isLoad = true) (hexc : resp.exception = false) (hpriv : s.csr.priv = .m)
    (hdata : (((r.entry.asLoad r).sent tx).complete resp).memoryData = (a.loaded memory).result)
    (hvalue : r.uop.rdValid = true → s.intRf r.uop.rename.pdst = (a.loaded memory).result)
    (hstore : r.isStore = false) :
    commitRecord s (((r.entry.asLoad r).sent tx).complete resp) =
      (a.loaded memory).memoryRecord := by
  have hsame := h.same
  have hyes : a.isLoad = true := by
    rw [hsame] at hload
    exact hload
  have hnot : a.isStore = false := by
    rw [hsame] at hstore
    exact hstore
  have hpc : a.uop.debugPc = r.uop.debugPc := by rw [hsame]
  have hinst : a.uop.inst = r.uop.inst := by rw [hsame]
  have haddress : a.memoryAddress = r.memoryAddress := by rw [hsame]
  have hmask : a.memoryMask = r.memoryMask := by rw [hsame]
  have hldst := h.ldst
  have hrd := h.rdValid
  unfold commitRecord RobEntry.complete at *
  rw [hexc, if_neg Bool.false_ne_true] at hdata ⊢
  dsimp only at hdata ⊢
  rw [hdata]
  unfold AluResult.memoryRecord AluResult.record AluResult.loaded at *
  rw [if_pos hyes] at hdata hvalue ⊢
  dsimp only [RobEntry.sent, RobEntry.asLoad, AluResult.entry] at *
  rw [if_pos hyes, hnot, hpc, hinst, haddress, hmask, hldst, hpriv]
  cases hwrites : a.uop.writesInt with
  | false => simp [hrd, hwrites]
  | true => simp [hrd, hwrites, hvalue (hrd.trans hwrites), haddress]

/-- A step of the machine that executes nothing produces nothing. -/
theorem Machine.silent {program : Program} {m : Machine} (h : m.arch.completes program = false) :
    m.commits program = [] ∧ m.stores program = [] := by
  unfold commits stores ArchState.stores
  rw [h]
  exact ⟨rfl, rfl⟩

/-- The cycle writes the records and sends the stores of a step of the machine. -/
def Emits (program : Program) (sys : System) (t : Tick) (m : Machine) : Prop :=
  (sys.coreStep program t).2.commitTrace.q = m.commits program ∧
    (sys.storeRequests program t).map DmemRequest.payload = m.stores program

theorem Quiet.emits {program : Program} {sys : System} {t : Tick} {m : Machine}
    (h : Quiet program sys t) (hnot : m.arch.completes program = false) :
    Emits program sys t m := by
  obtain ⟨hcommits, hstores⟩ := Machine.silent hnot
  unfold Emits
  rw [h.1, h.2, hcommits, hstores]
  exact ⟨rfl, rfl⟩

section Retired

variable {program : Program} {sys : System} {t : Tick} {n : ℕ} {w w' : List Inflight}
  {d : Inflight} {m : Machine} (h : SysInv sys w) (hret : Retires program sys t n w d w')
  (hin : InStep program (sys.atCommit program t) m d) (hrun : m.arch.halted = false)

include h hret hin hrun

omit h in
/-- The machine executes the instruction that retires. -/
theorem Retires.completes : m.arch.completes program = true := by
  have hsame := hin.implements.same
  have hexc : (m.arch.result program).exception = false := by
    rw [← hret.retirable.exception hret.dispatched, ← hret.dispatched.exception, hsame]
  unfold ArchState.completes
  rw [hrun, hexc]
  rfl

omit hin hrun in
theorem Retires.cell_eq : d.cell = (sys.atCommit program t).rob.head := by
  rw [h.atCommit_head program t]
  exact hret.robIdx

/-- The record of the instruction that retires is that of the machine. -/
theorem Retires.record_eq (hpriv : sys.core.csr.priv = .m) {memory : ByteMemory 64}
    {queue : List DmemRequest} {answers : List DmemResponse}
    (hmem : MemoryInv (sys.atCommit program t) m.memory memory queue answers)
    (hbeat : m.LoadsInBeat program) :
    (sys.cycle program t).core.rob.lastCommit = (m.result program).memoryRecord := by
  have himp := hin.implements
  have hdone := hret.completes hin hrun
  have hcell := hret.cell_eq h
  have hspec := hret.dispatched
  have hpriv' : (sys.atCommit program t).csr.priv = .m := by
    rw [h.step.atCommit_csr]
    exact hpriv
  have hwritten := hin.written
  have hhead := (h.atCommit program t n).1.rob.head_lt
  have hvalue := hmem.value _ hhead
  have hretirable := hret.retirable
  have harrived := hretirable.arrived hspec
  have hpdst : d.result.uop.rdValid = true → d.result.uop.rename.pdst ≠ 0 := fun hrd ↦ by
    rw [hspec.rdValid, decide_eq_true_eq] at hrd
    exact hrd
  rw [hret.record]
  rw [hcell] at hwritten
  generalize (sys.atCommit program t).rob.entries (sys.atCommit program t).rob.head = e at *
  have hkind : (m.arch.result program).isLoad = d.result.isLoad := by rw [himp.same]
  cases hretirable with
  | plain hcompletes hexc =>
    have hload := hspec.isLoad_of_completes hcompletes
    have hnot : (m.arch.result program).isLoad = false := hkind.trans hload
    unfold Machine.result at hwritten ⊢
    rw [AluResult.loaded_of_not_load hnot] at hwritten ⊢
    unfold AluResult.memoryRecord
    rw [hnot, if_neg Bool.false_ne_true]
    refine himp.record (hspec.isStore_of_completes hcompletes) hpriv' fun hrd ↦ ?_
    rw [hwritten (hpdst hrd) (Or.inl hload), himp.same]
  | store hstore =>
    have hnot : (m.arch.result program).isLoad = false :=
      hkind.trans (hspec.isLoad_of_store hstore)
    unfold Machine.result
    rw [AluResult.loaded_of_not_load hnot]
    unfold AluResult.memoryRecord
    rw [hnot, if_neg Bool.false_ne_true]
    exact himp.record_store hspec hstore hpriv'
  | load hload tx resp hexc =>
    have hyes : (m.arch.result program).isLoad = true := hkind.trans hload
    refine himp.record_load hload hexc hpriv' ?_ (fun hrd ↦ hwritten (hpdst hrd) harrived)
      (hspec.isStore_of_load hload)
    have hflags := hload
    rw [hspec.load, Bool.and_eq_true, Bool.not_eq_true'] at hflags
    have hsame := himp.same
    have hin' := hbeat hdone hyes
    unfold AluResult.loaded
    rw [if_pos hyes]
    dsimp only
    have haddress : (m.arch.result program).memoryAddress = d.result.memoryAddress := by rw [hsame]
    have hsize : (m.arch.result program).memorySize = d.result.memorySize := by rw [hsame]
    have hsigned : (m.arch.result program).signedLoad = d.result.signedLoad := by rw [hsame]
    rw [haddress, hsize] at hin'
    rw [haddress, hsize, hsigned]
    unfold RobEntry.complete at hvalue ⊢
    rw [hexc, if_neg Bool.false_ne_true] at hvalue ⊢
    exact hvalue rfl rfl hflags.2 hin'

/-- The stores of the instruction that retires are those of the machine, on the request stream and
in the memory. -/
theorem Retires.stores_eq
    (hrecord : (sys.cycle program t).core.rob.lastCommit = (m.result program).memoryRecord) :
    (sys.storeRequests program t).map DmemRequest.payload = m.stores program ∧
      (sys.retiredStores program t).foldl (fun mem ce ↦ ce.perform mem) m.memory =
        (m.step program).memory := by
  have himp := hin.implements
  have hdone := hret.completes hin hrun
  have hspec := hret.dispatched
  have hkind : (m.arch.result program).isStore = d.result.isStore := by rw [himp.same]
  have hloads : (m.arch.result program).isLoad = d.result.isLoad := by rw [himp.same]
  have hmachine : m.stores program =
      if d.result.isStore then [(m.arch.result program).request] else [] := by
    unfold Machine.stores ArchState.stores
    rw [hdone, Bool.true_and, hkind]
  rw [Machine.step_of_completes hdone, hmachine]
  rcases h.store_cases program t n with
    ⟨hnone, hretired⟩ | ⟨d', w'', hret', hstore, hretired, -, hsent⟩
  · have hstore : d.result.isStore = false := by
      have hrequests := congrArg (List.filter fun req ↦ req.isStore) hret.requests
      by_contra hcontra
      rw [if_pos (by simpa using hcontra), List.filter_append] at hrequests
      unfold System.storeRequests at hnone
      rw [hnone] at hrequests
      simp [storeRequest] at hrequests
    rw [hnone, hretired, hstore, if_neg Bool.false_ne_true]
    exact ⟨rfl, rfl⟩
  · obtain ⟨rfl, rfl⟩ := List.cons.inj (hret'.before.symm.trans hret.before)
    have hload : (m.arch.result program).isLoad = false :=
      hloads.trans (hspec.isLoad_of_store hstore)
    rw [hsent, hretired, hstore, if_pos rfl, List.map_singleton, himp.request, hrecord]
    refine ⟨rfl, ?_⟩
    unfold Machine.result AluResult.memoryRecord
    rw [AluResult.loaded_of_not_load hload, hload, if_neg Bool.false_ne_true]
    have hyes : (m.arch.result program).isStore = true := hkind.trans hstore
    simp only [List.foldl_cons, List.foldl_nil, performAll, CommitEntry.perform,
      DmemRequest.perform, AluResult.record, AluResult.request, hyes, if_true]

/-- The committed registers after the retirement are those of the machine after the step. -/
theorem Retires.regs_eq
    (hregs : ∀ x, readOperand (sys.atCommit program t).intRf
      (sys.core.rename.intMapTable.committedMapTable x) = readOperand m.arch.regs x) (x : ℕ) :
    readOperand (sys.cycle program t).core.intRf
        ((sys.cycle program t).core.rename.intMapTable.committedMapTable x) =
      readOperand (m.step program).arch.regs x := by
  have hdone := hret.completes hin hrun
  have hrunning : (m.step program).arch.halted = false := by
    rw [Machine.step_of_completes hdone]
    exact hrun
  have harrived := hret.retirable.arrived hret.dispatched
  rw [← hret.cell_eq h] at harrived
  rw [Machine.step_regs hret.dispatched hrunning hin.implements, System.cycle_intRf,
    hret.committed h]
  by_cases hpdst : d.result.uop.rename.pdst = 0
  · rw [if_neg (not_not_intro hpdst), if_neg fun hcontra ↦ hcontra.1 hpdst]
    exact hregs x
  · rw [if_pos hpdst]
    by_cases hx : x = d.result.uop.rename.ldst
    · rw [hx, Function.update_self, if_pos ⟨hpdst, rfl⟩, readOperand, if_pos hpdst]
      exact hin.written hpdst harrived
    · rw [Function.update_of_ne hx, if_neg fun hcontra ↦ hx hcontra.2]
      exact hregs x

end Retired

/-! ### The relation -/

/-- The core is at work behind the machine, or has stopped where the machine has halted. With
`lost`, a redirect is under way in a core that has taken a trap; the cycle that processes it is not
in order. -/
inductive Phase (program : Program) (sys : System) (m : Machine) (w : List Inflight) : Prop
  | tracking (state : sys.core.rob.state ≠ .exception) (running : m.arch.halted = false)
      (tracks : Tracks program sys.core m w)
      (pc : ((Machine.step program)^[w.length] m).arch.halted = false →
        sys.redirected.pc = ((Machine.step program)^[w.length] m).arch.pc)
  | trapped (trap : TrapHead sys w) (halted : m.arch.halted = true)
  | lost (redirects : sys.core.execute.aluResult.redirects = true) (nonempty : w ≠ [])

/-- The core with the window `w` and its memory have retired what the machine has executed. -/
structure Refines (program : Program) (sys : System) (memory : ByteMemory 64)
    (queue : List DmemRequest) (answers : List DmemResponse) (m : Machine) (w : List Inflight) :
    Prop where
  inv : SysInv sys w
  registers : ∃ free, RegInv sys.core.rename.intMapTable sys.core.rename.intFreeList w free
  freeList : FreeInv sys.core.rename.intFreeList
  priv : sys.core.csr.priv = .m
  memory : MemoryInv sys.core m.memory memory queue answers
  regs : ∀ x, readOperand sys.core.intRf (sys.core.rename.intMapTable.committedMapTable x) =
    readOperand m.arch.regs x
  phase : Phase program sys m w

theorem refines_init (program : Program) (memory : ByteMemory 64) :
    Refines program {} memory [] [] { memory := memory } [] := by
  refine ⟨sysInv_init, ⟨_, regInv_init⟩, .init, rfl, memoryInv_init memory, fun x ↦ ?_, ?_⟩
  · show (0 : BitVec 64) = if x ≠ 0 then 0 else 0
    rw [ite_self]
  · exact .tracking (by decide) rfl Run.along_nil fun _ ↦ rfl

/-- What a cycle does to the state of the machine. It stays at the state and is silent, or the
machine runs and goes on to the next one, and the cycle emits what the step produces. Unless the
machine halts, what is dispatched joins the instructions in flight, and the one that the machine
executes leaves them. -/
def FollowsMachine (program : Program) (sys : System) (t : Tick) (n : ℕ) (w : List Inflight)
    (m m' : Machine) : Prop :=
  (m' = m ∧ Quiet program sys t ∧ (m.arch.halted = false →
      (sys.windowStep program t n w).length = (w ++ sys.dispatched program t n).length)) ∨
    (m' = m.step program ∧ m.arch.halted = false ∧ Emits program sys t m ∧
      (m'.arch.halted = false →
        (sys.windowStep program t n w).length + 1 = (w ++ sys.dispatched program t n).length))

section Cycle

variable {program : Program} {sys : System} {memory : ByteMemory 64} {queue : List DmemRequest}
  {answers : List DmemResponse} {m : Machine} {w : List Inflight}
  (h : Refines program sys memory queue answers m w) {t : Tick} {i : Option ℕ}
  (hresp : t.dmemResp = i.bind fun i ↦ answers[i]?) (hinOrder : sys.InOrder program t) (n : ℕ)

include h hinOrder

/-- The committed registers that commit finds are those of the machine. -/
theorem Refines.atCommit_regs (x : ℕ) :
    readOperand (sys.atCommit program t).intRf (sys.core.rename.intMapTable.committedMapTable x) =
      readOperand m.arch.regs x := by
  obtain ⟨free, hreg⟩ := h.registers
  rw [h.inv.atCommit_committedRegs t hreg h.freeList hinOrder.renamesSafely]
  exact h.regs x

include hresp

/-- Assumes: the committed registers, the committed memory and the phase after the cycle are those
of the state `m'` of the machine. -/
theorem Refines.next {m' : Machine}
    (hmemory : (sys.retiredStores program t).foldl (fun mem ce ↦ ce.perform mem) m.memory =
      m'.memory)
    (hregs : ∀ x, readOperand (sys.cycle program t).core.intRf
      ((sys.cycle program t).core.rename.intMapTable.committedMapTable x) =
        readOperand m'.arch.regs x)
    (hphase : Phase program (sys.cycle program t) m' (sys.windowStep program t n w)) :
    Refines program (sys.cycle program t) memory
      (queue ++ (sys.coreStep program t).2.dmemReq.q) (undelivered answers i) m'
      (sys.windowStep program t n w) := by
  obtain ⟨free, hreg⟩ := h.registers
  obtain ⟨free', hreg', -⟩ := h.inv.regInv_cycle hreg h.freeList t n hinOrder.renamesSafely
  refine ⟨h.inv.cycle t n, ⟨free', hreg'⟩, freeInv_cycle h.inv.step t h.freeList, ?_, ?_, hregs,
    hphase⟩
  · rw [h.inv.step.cycle_priv]
    exact h.priv
  · rw [← hmemory]
    exact h.inv.memoryInv_cycle program hresp h.memory

/-- A cycle that retires nothing leaves the committed registers and the committed memory. -/
theorem Refines.next_of_not_retired
    (hvalid : (sys.cycle program t).core.rob.commitValid = false) {m' : Machine}
    (hmemory : m'.memory = m.memory) (hregs : m'.arch.regs = m.arch.regs)
    (hphase : Phase program (sys.cycle program t) m' (sys.windowStep program t n w)) :
    Refines program (sys.cycle program t) memory
      (queue ++ (sys.coreStep program t).2.dmemReq.q) (undelivered answers i) m'
      (sys.windowStep program t n w) := by
  refine h.next hresp hinOrder n ?_ (fun x ↦ ?_) hphase
  · unfold System.retiredStores
    rw [hvalid, Bool.false_and, if_neg Bool.false_ne_true, hmemory]
    rfl
  · rw [System.cycle_intRf, (h.inv.not_retired t n hvalid).2.2.1, h.inv.step.atCommit_committed,
      hregs]
    exact h.atCommit_regs hinOrder x

/-- What commit finds in flight tracks the machine, and the frontend is at its pc behind that. -/
theorem Refines.tracks_atCommit
    (hbeat : ∀ j, ((Machine.step program)^[j] m).LoadsInBeat program)
    (htr : Tracks program sys.core m w)
    (hpc : ((Machine.step program)^[w.length] m).arch.halted = false →
      sys.redirected.pc = ((Machine.step program)^[w.length] m).arch.pc) :
    Tracks program (sys.atCommit program t) m (w ++ sys.dispatched program t n) ∧
      (((Machine.step program)^[(w ++ sys.dispatched program t n).length] m).arch.halted = false →
        (sys.cycle program t).redirected.pc =
          ((Machine.step program)^[(w ++ sys.dispatched program t n).length] m).arch.pc) := by
  obtain ⟨free, hreg⟩ := h.registers
  have hafter := htr.afterMemory h.inv hresp h.memory hbeat hreg
  have hregs : ∀ x, readOperand (sys.afterMemory program t).1.intRf
      (sys.core.rename.intMapTable.committedMapTable x) = readOperand m.arch.regs x := fun x ↦ by
    rw [h.inv.memory_committed hreg]
    exact h.regs x
  have hpc' : (sys.accepted program t).isSome = true →
      ((Machine.step program)^[w.length] m).arch.halted = false →
        sys.core.frontend.pc = ((Machine.step program)^[w.length] m).arch.pc := by
    intro hacc hrun
    obtain ⟨resp, hsome⟩ := Option.isSome_iff_exists.mp hacc
    rw [← hpc hrun]
    unfold System.redirected
    rw [(h.inv.step.fetch.accepted_eq t hsome).2.2.1, if_neg Bool.false_ne_true]
  have hat := hafter.atCommit h.inv t hreg h.freeList hregs hinOrder hpc' n
  refine ⟨hat, fun hrun ↦ ?_⟩
  cases hacc : sys.accepted program t with
  | none =>
    rw [h.inv.step.dispatched_idle t n (Or.inl hacc), List.append_nil] at hrun ⊢
    rw [h.inv.step.redirected_of_none t hacc]
    exact hpc hrun
  | some resp =>
    have hsome : (sys.accepted program t).isSome = true := by rw [hacc]; rfl
    have hfull := hinOrder.room hsome
    rw [h.inv.step.dispatched_some t n hacc hfull h.inv.tail_lt] at hat hrun ⊢
    rw [List.length_append, List.length_singleton] at hrun ⊢
    have hbefore := Machine.running_of_iterate (Nat.le_succ w.length) hrun
    have hin := (Run.along_concat_iff.mp hat).2 hbefore
    rw [Function.iterate_succ_apply'] at hrun ⊢
    rw [Machine.step_pc (dispatchedResult_spec _ _ _) hrun hin.implements
      (dispatchedResult_redirects _ _ _), h.inv.step.redirected_of_some t hacc hfull h.inv.tail_lt,
      ← hpc' hsome hbefore]
    rfl

/-- The core takes a trap: the machine halts. -/
theorem Refines.cycle_trap (htrap : sys.TakesTrap program t) (hrun : m.arch.halted = false)
    (hat : Tracks program (sys.atCommit program t) m (w ++ sys.dispatched program t n))
    (hvalid : (sys.cycle program t).core.rob.commitValid = false) :
    ∃ m', Refines program (sys.cycle program t) memory
        (queue ++ (sys.coreStep program t).2.dmemReq.q) (undelivered answers i) m'
        (sys.windowStep program t n w) ∧
      FollowsMachine program sys t n w m m' := by
  have hsilent : Quiet program sys t := h.inv.quiet t hvalid
  have hrob := (h.inv.atCommit program t n).1.rob
  have hcore : (sys.cycle program t).core.rob.head = (sys.atCommit program t).rob.head := by
    show (sys.coreStep program t).1.rob.head = _
    rw [h.inv.coreStep_of_takesTrap t htrap]
  have hstay := h.inv.windowStep_of_stay t n htrap.quiet hcore
  by_cases htransfers : sys.Transfers program t
  · refine ⟨m, h.next_of_not_retired hresp hinOrder n hvalid rfl rfl (.lost ?_ ?_),
      Or.inl ⟨rfl, hsilent, fun _ ↦ by rw [hstay]⟩⟩
    · exact (h.inv.cycle_redirects_iff t).mpr htransfers
    · rw [hstay]
      intro hnil
      have hempty := hrob.isEmpty_iff.mpr hnil
      rw [htrap.nonempty] at hempty
      simp at hempty
  · obtain ⟨d, w', hw⟩ : ∃ d w', w ++ sys.dispatched program t n = d :: w' := by
      refine List.exists_cons_of_ne_nil fun hnil ↦ ?_
      have hempty := hrob.isEmpty_iff.mpr hnil
      rw [htrap.nonempty] at hempty
      simp at hempty
    rw [hw] at hat hrob
    have hin := (Run.along_cons_iff.mp hat).1 hrun
    have hof := hrob.head.2
    have hexc := hin.exception
    rw [Inflight.cell, hof.robIdx, htrap.exception, ← hof.dispatched.exception,
      hin.implements.same] at hexc
    have huopc : (m.arch.result program).uop.uopc ≠ .ecall := by
      have hsame : (m.arch.result program).uop.uopc = d.result.uop.uopc := by
        rw [hin.implements.same]
      rw [hsame, ← hof.stage.uopc]
      exact htrap.notEcall
    obtain ⟨hnot, hstep⟩ := Machine.step_of_exception hrun hexc.symm
    rw [if_neg huopc] at hstep
    refine ⟨m.step program, h.next_of_not_retired hresp hinOrder n hvalid ?_ ?_
      (.trapped (h.inv.trapHead_of_takesTrap t htrap n htransfers) ?_),
      Or.inr ⟨rfl, hrun, hsilent.emits hnot, fun hrunning ↦ ?_⟩⟩
    · rw [hstep]
    · rw [hstep]
    · rw [hstep]
    · rw [hstep] at hrunning
      exact absurd hrunning Bool.noConfusion

/-- The step of a cycle without a redirect, with the core at work before it. -/
theorem Refines.cycle_tracking
    (hbeat : ∀ j, ((Machine.step program)^[j] m).LoadsInBeat program)
    (htrace : 0 < t.commitTraceRoom) (hquiet : sys.core.execute.aluResult.redirects = false)
    (hstate : sys.core.rob.state ≠ .exception) (hrun : m.arch.halted = false)
    (htr : Tracks program sys.core m w)
    (hpc : ((Machine.step program)^[w.length] m).arch.halted = false →
      sys.redirected.pc = ((Machine.step program)^[w.length] m).arch.pc) :
    ∃ m', Refines program (sys.cycle program t) memory
        (queue ++ (sys.coreStep program t).2.dmemReq.q) (undelivered answers i) m'
        (sys.windowStep program t n w) ∧
      FollowsMachine program sys t n w m m' := by
  obtain ⟨hat, hpc'⟩ := h.tracks_atCommit hresp hinOrder n hbeat htr hpc
  have hstays : ∀ {m' : Machine} {w' : List Inflight}, sys.windowStep program t n w = w' →
      Tracks program (sys.atCommit program t) m' w' →
        Tracks program (sys.cycle program t).core m' (sys.windowStep program t n w) := by
    rintro m' w' rfl htr'
    refine Run.Along.mono htr' fun k hk hold hrunning ↦ (hold hrunning).congr ?_ fun _ ↦ ?_
    · exact h.inv.cycle_entry t n (List.getElem_mem hk)
    · rw [System.cycle_intRf]
  by_cases hvalid : (sys.cycle program t).core.rob.commitValid = true
  · obtain ⟨d, w', hret⟩ := h.inv.retires t n hvalid
    rw [hret.before] at hat hpc'
    obtain ⟨hin, hrest⟩ := Run.along_cons_iff.mp hat
    have hin' := hin hrun
    have hdone := hret.completes hin' hrun
    have hmem := h.inv.memoryInv_atCommit program hresp h.memory
    have hrecord := hret.record_eq h.inv hin' hrun h.priv hmem (hbeat 0)
    obtain ⟨hsent, hmemory⟩ := hret.stores_eq h.inv hin' hrun hrecord
    refine ⟨m.step program, h.next hresp hinOrder n hmemory
      (hret.regs_eq h.inv hin' hrun (h.atCommit_regs hinOrder)) ?_,
      Or.inr ⟨rfl, hrun, ⟨?_, hsent⟩, fun _ ↦ by rw [hret.after, hret.before]; rfl⟩⟩
    · refine .tracking (h.inv.state_of_not_takesTrap t hret.not_takesTrap hstate) ?_
        (hstays hret.after hrest) ?_
      · rw [Machine.step_of_completes hdone]
        exact hrun
      · rw [hret.after]
        exact hpc'
    · rw [hret.commitTrace_of_room htrace, hrecord]
      unfold Machine.commits
      rw [hdone, if_pos rfl]
  · have hvalid' : (sys.cycle program t).core.rob.commitValid = false := by simpa using hvalid
    have hsilent : Quiet program sys t := h.inv.quiet t hvalid'
    obtain ⟨-, -, -, ⟨hcontra, -⟩ | ⟨-, hstay | ⟨d, w', hw, hafter, hecall⟩⟩⟩ :=
      h.inv.not_retired t n hvalid'
    · rw [hquiet] at hcontra
      simp at hcontra
    · by_cases htrap : sys.TakesTrap program t
      · exact h.cycle_trap hresp hinOrder n htrap hrun hat hvalid'
      · refine ⟨m, h.next_of_not_retired hresp hinOrder n hvalid' rfl rfl ?_,
          Or.inl ⟨rfl, hsilent, fun _ ↦ by rw [hstay]⟩⟩
        refine .tracking (h.inv.state_of_not_takesTrap t htrap hstate) hrun (hstays hstay hat) ?_
        rw [hstay]
        exact hpc'
    · rw [hw] at hat hpc'
      obtain ⟨hin, hrest⟩ := Run.along_cons_iff.mp hat
      have hin' := hin hrun
      have hrob := (h.inv.atCommit program t n).1.rob
      rw [hw] at hrob
      have hexc := (hrob.head.2.dispatched.ecall hecall).1
      rw [← hrob.head.2.dispatched.exception, hin'.implements.same] at hexc
      have hecall' : (m.arch.result program).uop.uopc = .ecall := by
        have hsame : (m.arch.result program).uop.uopc = d.result.uop.uopc := by
          rw [hin'.implements.same]
        rw [hsame]
        exact hecall
      obtain ⟨hnot, hstep⟩ := Machine.step_of_exception hrun hexc
      rw [if_pos hecall'] at hstep
      have hnotTrap : ¬ sys.TakesTrap program t := fun htrap ↦ by
        refine htrap.notEcall ?_
        rw [hrob.head.2.stage.uopc]
        exact hecall
      refine ⟨m.step program, h.next_of_not_retired hresp hinOrder n hvalid' ?_ ?_ ?_,
        Or.inr ⟨rfl, hrun, hsilent.emits hnot, fun _ ↦ by rw [hafter, hw]; rfl⟩⟩
      · rw [hstep]
      · rw [hstep]
      · refine .tracking (h.inv.state_of_not_takesTrap t hnotTrap hstate) ?_
          (hstays hafter hrest) ?_
        · rw [hstep]
          exact hrun
        · rw [hafter]
          exact hpc'

/-- The cycle that processes a redirect: nothing is in flight. -/
theorem Refines.cycle_redirect (hredirects : sys.core.execute.aluResult.redirects = true)
    (hrun : m.arch.halted = false) (hstate : sys.core.rob.state ≠ .exception)
    (hpc : ((Machine.step program)^[w.length] m).arch.halted = false →
      sys.redirected.pc = ((Machine.step program)^[w.length] m).arch.pc) :
    Refines program (sys.cycle program t) memory
        (queue ++ (sys.coreStep program t).2.dmemReq.q) (undelivered answers i) m
        (sys.windowStep program t n w) ∧ FollowsMachine program sys t n w m m := by
  have hnil : w = [] := h.inv.window.rob.isEmpty_iff.mp (hinOrder.redirect hredirects)
  have hvalid := (h.inv.flushed program t hredirects).2
  have hnone : sys.accepted program t = none := by
    unfold System.accepted
    rw [h.inv.step.fetch.response_of_redirects program t hredirects, ite_self]
  have hafter : sys.windowStep program t n w = [] := by
    unfold System.windowStep
    rw [if_pos hredirects]
  refine ⟨h.next_of_not_retired hresp hinOrder n hvalid rfl rfl ?_,
    Or.inl ⟨rfl, h.inv.quiet t hvalid, fun _ ↦ by
      rw [hafter, hnil, h.inv.step.dispatched_idle t n (Or.inl hnone)]; rfl⟩⟩
  rw [hafter]
  refine .tracking (h.inv.state_of_not_takesTrap t (fun htrap ↦ ?_) hstate) hrun Run.along_nil
    fun _ ↦ ?_
  · have hquiet := htrap.quiet
    rw [hredirects] at hquiet
    simp at hquiet
  · rw [h.inv.step.redirected_of_none t hnone]
    rw [hnil] at hpc
    exact hpc hrun

/-- Assumes: the cycle is in order, the loads of the machine stay in their beats, and there is room
on `commit_trace`. The cycle stays at the state of the machine and is silent, or advances by one
step and emits what the step produces. -/
theorem Refines.cycle (hbeat : ∀ j, ((Machine.step program)^[j] m).LoadsInBeat program)
    (htrace : 0 < t.commitTraceRoom) :
    ∃ m', Refines program (sys.cycle program t) memory
        (queue ++ (sys.coreStep program t).2.dmemReq.q) (undelivered answers i) m'
        (sys.windowStep program t n w) ∧
      FollowsMachine program sys t n w m m' := by
  cases h.phase with
  | tracking state running tracks pc =>
    by_cases hredirects : sys.core.execute.aluResult.redirects = true
    · exact ⟨m, h.cycle_redirect hresp hinOrder n hredirects running state pc⟩
    · exact h.cycle_tracking hresp hinOrder n hbeat htrace (by simpa using hredirects) state running
        tracks pc
  | trapped trap halted =>
    have hstays : sys.StaysTrapped program t := trap.staysTrapped t
    refine ⟨m, h.next_of_not_retired hresp hinOrder n hstays.commitValid rfl rfl
      (.trapped (trap.cycle t n) halted),
      Or.inl ⟨rfl, h.inv.quiet t hstays.commitValid, fun hrunning ↦ ?_⟩⟩
    rw [halted] at hrunning
    exact absurd hrunning Bool.noConfusion
  | lost redirects nonempty =>
    exact absurd (h.inv.window.rob.isEmpty_iff.mp (hinOrder.redirect redirects)) nonempty

end Cycle

/-- The core with its memory has retired what the machine has executed. -/
def MemorySystem.Refines (program : Program) (ms : MemorySystem) (m : Machine)
    (w : List Inflight) : Prop :=
  BoomCore.Refines program ms.sys ms.memory ms.requests ms.answers m w

/-- `Refines.cycle` with the requests that the memory processes before the cycle. -/
theorem MemorySystem.Refines.cycle {program : Program} {ms : MemorySystem} {m : Machine}
    {w : List Inflight} (h : ms.Refines program m w) (mt : MemoryTick) (n : ℕ)
    (hinOrder : ms.sys.InOrder program (ms.tickOf mt))
    (hbeat : ∀ j, ((Machine.step program)^[j] m).LoadsInBeat program)
    (htrace : 0 < mt.tick.commitTraceRoom) :
    ∃ m', (ms.cycle program mt).Refines program m'
        (ms.sys.windowStep program (ms.tickOf mt) n w) ∧
      FollowsMachine program ms.sys (ms.tickOf mt) n w m m' := by
  have hprocessed : BoomCore.Refines program ms.sys (ms.process mt.processed).memory
      (ms.process mt.processed).requests (ms.process mt.processed).answers m w :=
    { h with memory := h.memory.process mt.processed }
  exact hprocessed.cycle (i := mt.answered) rfl hinOrder n hbeat htrace

end BoomCore
