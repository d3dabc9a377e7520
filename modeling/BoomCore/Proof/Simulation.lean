import BoomCore.Proof.LoadFree
import BoomCore.Proof.Trap
import BoomCore.Run.Interpreter

/-!
# The core simulates the sequential interpreter

Without loads an instruction retires in the cycle that dispatches it, a store in the cycle after. So
between two cycles the core is at a state of the interpreter (`Agrees`), it holds a store that the
interpreter has not executed yet, or it has taken a trap (`Simulates`). Every cycle stays at the
step of the interpreter or advances by one, and what it writes to `commit_trace` and what stores it
sends is what that step produces (`Simulates.cycle`).
-/

set_option autoImplicit false
set_option relaxedAutoImplicit false

namespace BoomCore

open Ring Renaming

/-! ### Results -/

/-- `r` is the interpreter's result `a` of the same instruction, on physical registers and with a
cell of the reorder buffer. -/
structure AluResult.Implements (r a : AluResult) : Prop where
  same : r = { a with uop := { a.uop with rename := r.uop.rename, queue := r.uop.queue } }
  rdValid : r.uop.rdValid = a.uop.writesInt
  ldst : r.uop.rename.ldst = if a.uop.writesInt then a.uop.rename.ldst else 0

/-- Execution hands the rename fields and the queue positions of a uop on. -/
theorem executeUop_withRename (uop : MicroOp) (rename : RenameInfo) (queue : QueueInfo)
    (rs1 rs2 : BitVec 64) :
    executeUop { uop with rename := rename, queue := queue } rs1 rs2 =
      { executeUop uop rs1 rs2 with
        uop := { (executeUop uop rs1 rs2).uop with rename := rename, queue := queue } } := rfl

/-- Assumes: both read the same values of their source registers, and an instruction with a
destination finds a register. The dispatched instruction has the result of the interpreter. -/
theorem dispatchedResult_implements {program : Program} {s : BoomCoreState} {a : ArchState}
    (hregs : ∀ x, readOperand s.intRf (s.rename.intMapTable.mapTable x) = readOperand a.regs x)
    (hfree : (decodeInst a.pc (program a.pc)).writesInt = true →
      0 < s.rename.intFreeList.count ∧ s.rename.intFreeList.front ≠ 0) :
    (dispatchedResult s a.pc (program a.pc)).Implements (a.result program) := by
  have hren := renamedInst_spec s a.pc (program a.pc)
  have hrename := dispatchedResult_rename s a.pc (program a.pc)
  constructor
  · unfold dispatchedResult ArchState.result
    dsimp only
    rw [dispatchedUop_eq]
    dsimp only
    rw [hren.prs1, hren.prs2, hregs, hregs, executeUop_withRename]
  · show (dispatchedResult s a.pc (program a.pc)).uop.rdValid =
      (decodeInst a.pc (program a.pc)).writesInt
    unfold MicroOp.rdValid
    rw [hrename]
    by_cases hwrites : (decodeInst a.pc (program a.pc)).writesInt = true
    · obtain ⟨hcount, hfront⟩ := hfree hwrites
      rw [((hren.dst hwrites).2.1 hcount).1, hren.dstRtype, hwrites]
      unfold MicroOp.writesInt at hwrites
      rw [Bool.and_eq_true] at hwrites
      rw [hwrites.1, decide_eq_true hfront]
      rfl
    · have hnot : (decodeInst a.pc (program a.pc)).writesInt = false := by simpa using hwrites
      rw [(hren.noDst hnot).1, hnot]
      simp
  · show _ = if (decodeInst a.pc (program a.pc)).writesInt then _ else 0
    rw [hrename]
    split_ifs with hwrites
    · exact (hren.dst hwrites).1
    · exact (hren.noDst (by simpa using hwrites)).2.1

namespace AluResult.Implements

variable {r a : AluResult} (h : r.Implements a)

include h

/-- The record of an instruction that is no store. -/
theorem record {s : BoomCoreState} (hstore : r.isStore = false) (hpriv : s.csr.priv = .m)
    (hvalue : r.uop.rdValid = true → s.intRf r.uop.rename.pdst = r.result) :
    commitRecord s r.entry = a.record := by
  have hsame := h.same
  have hnot : a.isStore = false := by
    rw [hsame] at hstore
    exact hstore
  have hresult : a.result = r.result := by rw [hsame]
  have hpc : a.uop.debugPc = r.uop.debugPc := by rw [hsame]
  have hinst : a.uop.inst = r.uop.inst := by rw [hsame]
  unfold commitRecord AluResult.record AluResult.entry
  dsimp only
  rw [hnot, hresult, hpc, hinst, h.ldst, h.rdValid, hpriv]
  cases hwrites : a.uop.writesInt with
  | false => rfl
  | true => rw [if_pos rfl, if_pos rfl, hvalue (h.rdValid.trans hwrites)]; rfl

/-- The record of a store. -/
theorem record_store {s : BoomCoreState} (hspec : DispatchedSpec r) (hstore : r.isStore = true)
    (hpriv : s.csr.priv = .m) : commitRecord s (r.entry.asStore r) = a.record := by
  have hsame := h.same
  have hctrl := hstore
  rw [hspec.store, Bool.and_eq_true] at hctrl
  have hnot : a.uop.writesInt = false := by
    rw [← h.rdValid]
    simp [MicroOp.rdValid, hspec.storeDst hctrl.1]
  have hyes : a.isStore = true := by
    rw [hsame] at hstore
    exact hstore
  have hpc : a.uop.debugPc = r.uop.debugPc := by rw [hsame]
  have hinst : a.uop.inst = r.uop.inst := by rw [hsame]
  have haddress : a.memoryAddress = r.memoryAddress := by rw [hsame]
  have hdata : a.storeData = r.storeData := by rw [hsame]
  have hmask : a.memoryMask = r.memoryMask := by rw [hsame]
  unfold commitRecord AluResult.record AluResult.entry RobEntry.asStore
  dsimp only
  rw [hyes, hpc, hinst, haddress, hdata, hmask, h.ldst, h.rdValid, hpriv, hnot]
  rfl

/-- The request of a store. -/
theorem request (tx : BitVec 32) :
    (storeRequest (r.entry.asStore r) tx).payload = a.request := by
  have hsame := h.same
  generalize r.uop.rename = rename at hsame
  generalize r.uop.queue = queue at hsame
  rw [hsame]
  rfl

end AluResult.Implements

/-! ### Agreement between two cycles -/

/-- The core with the window `w` has the registers and the pc of the state `a`, it is not trapped,
and no load is outstanding. -/
structure Agrees (sys : System) (w : List Inflight) (a : ArchState) : Prop where
  inv : SysInv sys w
  registers : ∃ free, RegInv sys.core.rename.intMapTable sys.core.rename.intFreeList w free
  freeList : FreeInv sys.core.rename.intFreeList
  conserved : Conserved sys.core.rename.intMapTable sys.core.rename.intFreeList w
  state : sys.core.rob.state ≠ .exception
  priv : sys.core.csr.priv = .m
  pending : sys.core.lsu.loadResponsePending = false
  regs : ∀ x, readOperand sys.core.intRf (sys.core.rename.intMapTable.committedMapTable x) =
    readOperand a.regs x
  pc : sys.redirected.pc = a.pc
  running : a.halted = false

theorem agrees_init : Agrees {} [] {} := by
  refine ⟨sysInv_init, ⟨_, regInv_init⟩, .init, conserved_init, by decide, rfl, rfl, fun x ↦ ?_,
    rfl, rfl⟩
  show (0 : BitVec 64) = if x ≠ 0 then 0 else 0
  rw [ite_self]

/-- With an empty window the free list holds more than one register. -/
theorem Conserved.one_lt_count {mt : RenameMapTableState} {fl : RenameFreeListState}
    (h : Conserved mt fl []) : 1 < fl.count := by
  have hcard : (mapped IsReg writableRegs mt.committedMapTable).card ≤ logicalRegCount - 1 := by
    refine (Finset.card_filter_le _ _).trans ?_
    rw [writableRegs, Nat.card_Icc]
    omega
  have hregs : intPhysRegs = 52 := rfl
  have hnames : logicalRegCount = 32 := rfl
  unfold Conserved at h
  rw [assigns_nil, List.length_nil] at h
  omega

namespace Agrees

variable {program : Program} {sys : System} {w : List Inflight} {a a' : ArchState}
  (h : Agrees sys w a) (t : Tick) (n : ℕ)

include h

/-- With an empty window rename finds a register and the reorder buffer is not full. -/
theorem renamesSafely (haccepts : (sys.accepted program t).isSome = true → w = []) :
    sys.RenamesSafely program t := by
  intro hacc _
  have hnil := haccepts hacc
  have hcons := h.conserved
  have hrob := h.inv.window.rob
  rw [hnil] at hcons hrob
  refine ⟨?_, fun hone ↦ ?_⟩
  · rw [← Bool.not_eq_true, hrob.isFull_iff]
    exact fun hcontra ↦ nomatch hcontra
  · have hcount := hcons.one_lt_count
    rw [hone] at hcount
    exact absurd hcount (Nat.lt_irrefl 1)

variable (program) in
/-- Assumes: instructions are handed over to an empty window only, the cycle takes no trap, and the
state after it has the registers and the pc of `a'`. -/
theorem next (hloads : ∀ d ∈ w, d.result.isLoad = false)
    (haccepts : (sys.accepted program t).isSome = true → w = [])
    (hassigns : sys.core.execute.aluResult.redirects = true → assigns w = [])
    (htrap : ¬ sys.TakesTrap program t)
    (hregs : ∀ x, readOperand (sys.cycle program t).core.intRf
      ((sys.cycle program t).core.rename.intMapTable.committedMapTable x) =
        readOperand a'.regs x)
    (hpc : (sys.cycle program t).redirected.pc = a'.pc) (hrunning : a'.halted = false) :
    Agrees (sys.cycle program t) (sys.windowStep program t n w) a' := by
  obtain ⟨free, hreg⟩ := h.registers
  obtain ⟨free', hreg', hcons'⟩ :=
    h.inv.regInv_cycle hreg h.freeList t n (h.renamesSafely t haccepts)
  refine ⟨h.inv.cycle t n, ⟨free', hreg'⟩, freeInv_cycle h.inv.step t h.freeList,
    hcons' h.conserved hassigns, h.inv.state_of_not_takesTrap t htrap h.state, ?_,
    h.inv.cycle_of_noLoads t hloads h.pending, hregs, hpc, hrunning⟩
  rw [h.inv.step.cycle_priv]
  exact h.priv

omit h in
/-- Nothing is handed over to a core with an empty window. -/
theorem idle (h : Agrees sys [] a) (hacc : sys.accepted program t = none) :
    Agrees (sys.cycle program t) [] a ∧ sys.windowStep program t n [] = [] ∧
      (sys.cycle program t).core.rob.commitValid = false := by
  have hnone := h.inv.step.dispatched_idle t n (Or.inl hacc)
  have hvalid : (sys.cycle program t).core.rob.commitValid = false := by
    by_contra hcontra
    obtain ⟨d, w', hret⟩ := h.inv.retires t n (by simpa using hcontra)
    have hbefore := hret.before
    rw [hnone] at hbefore
    simp at hbefore
  obtain ⟨-, -, hrename, hwindow⟩ := h.inv.not_retired t n hvalid
  have hnil : sys.windowStep program t n [] = [] := by
    rcases hwindow with ⟨-, hstep⟩ | ⟨-, hstay | ⟨d, w', hbefore, -⟩⟩
    · exact hstep
    · rw [hstay, hnone]
      rfl
    · rw [hnone] at hbefore
      simp at hbefore
  have hrob := (h.inv.atCommit program t n).1.rob
  rw [hnone] at hrob
  refine ⟨hnil ▸ h.next program t n (fun d hd ↦ absurd hd List.not_mem_nil) (fun _ ↦ rfl)
    (fun _ ↦ rfl) ?_ ?_ ?_ h.running, hnil, hvalid⟩
  · intro htrap
    have hempty := hrob.isEmpty_iff.mpr rfl
    rw [htrap.nonempty] at hempty
    simp at hempty
  · intro x
    rw [h.inv.cycle_intRf_of_none t (fun d hd ↦ absurd hd List.not_mem_nil) h.pending hacc, hrename,
      h.inv.step.atCommit_committed]
    exact h.regs x
  · rw [h.inv.step.redirected_of_none t hacc]
    exact h.pc

end Agrees

/-! ### The dispatch of an instruction -/

theorem readOperand_update_self {rf : CArray (BitVec 64)} {p : ℕ} (hp : p ≠ 0) (v : BitVec 64) :
    readOperand (Function.update rf p v) p = v := by
  unfold readOperand
  rw [if_pos hp, Function.update_self]

theorem readOperand_update_of_ne {rf : CArray (BitVec 64)} {p q : ℕ} (hne : q ≠ p)
    (v : BitVec 64) : readOperand (Function.update rf p v) q = readOperand rf q := by
  unfold readOperand
  rw [Function.update_of_ne hne]

/-- The instruction at the pc of `a` is dispatched into an empty window. -/
structure Dispatches (program : Program) (sys : System) (t : Tick) (n : ℕ) (a : ArchState) :
    Prop where
  quiet : sys.core.execute.aluResult.redirects = false
  spec : DispatchedSpec (sys.dispatchedResult program t)
  implements : (sys.dispatchedResult program t).Implements (a.result program)
  inst : (sys.dispatchedResult program t).uop.inst = program a.pc
  storeLegal : (sys.dispatchedResult program t).uop.ctrl.isSta = true →
    ((sys.dispatchedResult program t).uop.exception = true ↔ 3 < funct3Of (program a.pc))
  dispatched : [] ++ sys.dispatched program t n =
    [{ born := n, result := sys.dispatchedResult program t }]
  head : (sys.atCommit program t).rob.isEmpty = false ∧
    EntryOf (sys.atCommit program t).rob.head
      { born := n, result := sys.dispatchedResult program t }
      (sys.dispatchedResult program t).entry
  entry : (sys.atCommit program t).rob.entries (sys.atCommit program t).rob.head =
    (sys.dispatchedResult program t).entry
  execute : (sys.cycle program t).core.execute.aluResult = sys.dispatchedResult program t
  intRf : (sys.cycle program t).core.intRf =
    writeBack sys.core.intRf (sys.dispatchedResult program t)
  fresh : (sys.dispatchedResult program t).uop.rename.pdst ≠ 0 →
    ∀ x, sys.core.rename.intMapTable.committedMapTable x ≠
      (sys.dispatchedResult program t).uop.rename.pdst
  pc : (sys.cycle program t).redirected.pc =
    if (sys.dispatchedResult program t).mispredict then
      (sys.dispatchedResult program t).redirectPc &&& ~~~3#64
    else a.pc + 4

theorem Agrees.dispatches {program : Program} {sys : System} {a : ArchState}
    (h : Agrees sys [] a) (t : Tick) (n : ℕ) {resp : ImemResponse}
    (hacc : sys.accepted program t = some resp) : Dispatches program sys t n a := by
  obtain ⟨-, -, hquiet, -⟩ := h.inv.step.fetch.accepted_eq t hacc
  have hfull : sys.core.rob.isFull = false := by
    rw [← Bool.not_eq_true, h.inv.window.rob.isFull_iff]
    exact fun hcontra ↦ nomatch hcontra
  have hpc : sys.core.frontend.pc = a.pc := by
    rw [← h.pc]
    unfold System.redirected
    rw [hquiet, if_neg Bool.false_ne_true]
  obtain ⟨hrf, -, -⟩ := h.inv.memory_of_noLoads program t
    (fun d hd ↦ absurd hd List.not_mem_nil) h.pending
  have hrename := System.afterMemory_rename program sys t
  have hresult : sys.dispatchedResult program t =
      dispatchedResult (sys.afterMemory program t).1 a.pc (program a.pc) := by
    unfold System.dispatchedResult
    rw [hpc]
  obtain ⟨free, hreg⟩ := h.registers
  have hone := h.conserved.one_lt_count
  have hfront := (hreg.pop h.freeList (Nat.zero_lt_of_lt hone)
    (fun hcount ↦ absurd hcount (Nat.ne_of_gt hone)) 0).1
  have hdispatched := h.inv.step.dispatched_some t n hacc hfull h.inv.tail_lt
  have hwin := (h.inv.atCommit program t n).1.rob
  rw [hdispatched] at hwin
  obtain ⟨hrob, hexecute, -, hwrite⟩ := h.inv.step.atCommit_some t hacc hfull h.inv.tail_lt
  have hentry : (sys.atCommit program t).rob.entries (sys.atCommit program t).rob.head =
      (sys.dispatchedResult program t).entry := by
    rw [← hwin.head.2.robIdx, hrob]
    exact Function.update_self _ _ _
  have hhead := hwin.head
  rw [hentry] at hhead
  refine ⟨hquiet, dispatchedResult_spec _ _ _, ?_, ?_, ?_, ?_, hhead, hentry, ?_, ?_, ?_, ?_⟩
  · rw [hresult]
    refine dispatchedResult_implements (fun x ↦ ?_) fun _ ↦ ?_
    · rw [hrf, hrename, hreg.map]
      exact h.regs x
    · rw [hrename]
      exact ⟨Nat.zero_lt_of_lt hone, hfront.1⟩
  · rw [hresult, dispatchedResult_inst]
  · rw [hresult]
    exact dispatchedResult_storeLegal _ _ _
  · rw [hdispatched]
    rfl
  · rw [System.cycle_execute, hexecute]
  · rw [System.cycle_intRf, hwrite, hrf]
  · intro hne x
    obtain ⟨free', hreg', -⟩ := h.inv.regInv_atCommit hreg h.freeList t n
      (h.renamesSafely t fun _ ↦ rfl) hquiet
    rw [hdispatched] at hreg'
    rw [← h.inv.step.atCommit_committed t]
    exact hreg'.committed_ne (List.mem_singleton_self _) hne x
  · rw [h.inv.step.redirected_of_some t hacc hfull h.inv.tail_lt, hpc, hresult,
      dispatchedResult_redirects]

namespace Dispatches

variable {program : Program} {sys : System} {t : Tick} {n : ℕ} {a : ArchState}
  (hd : Dispatches program sys t n a) (h : Agrees sys [] a)

include hd

theorem exception_eq : (sys.dispatchedResult program t).uop.exception =
    (a.result program).exception := by
  have hsame := hd.implements.same
  rw [← hd.spec.exception, hsame]

theorem isStore_eq : (sys.dispatchedResult program t).isStore = (a.result program).isStore := by
  have hsame := hd.implements.same
  rw [hsame]

/-- An instruction that redirects is neither an exception nor a store, so the pc behind every other
instruction is the next one. -/
theorem pc_of_not_redirects (hnot : (sys.dispatchedResult program t).redirects = false) :
    (sys.cycle program t).redirected.pc = a.pc + 4 := by
  have hmispredict : (sys.dispatchedResult program t).mispredict = false := by
    rw [← hnot]
    exact (dispatchedResult_redirects _ _ _).symm
  rw [hd.pc, hmispredict, if_neg Bool.false_ne_true]

/-- An instruction without an integer destination leaves the register file alone. -/
theorem intRf_of_not_writes (hpdst : (sys.dispatchedResult program t).uop.rename.pdst = 0) :
    (sys.cycle program t).core.intRf = sys.core.intRf := by
  rw [hd.intRf]
  unfold writeBack
  rw [hpdst, if_neg (by simp)]

include h

/-- Assumes: the destination of the instruction is installed in the committed map. The registers are
those of the interpreter after the instruction. -/
theorem regs_of_retired (hload : (sys.dispatchedResult program t).isLoad = false)
    (hcommitted : (sys.cycle program t).core.rename.intMapTable.committedMapTable =
      if (sys.dispatchedResult program t).uop.rename.pdst ≠ 0 then
        Function.update sys.core.rename.intMapTable.committedMapTable
          (sys.dispatchedResult program t).uop.rename.ldst
          (sys.dispatchedResult program t).uop.rename.pdst
      else sys.core.rename.intMapTable.committedMapTable) (x : ℕ) :
    readOperand (sys.cycle program t).core.intRf
        ((sys.cycle program t).core.rename.intMapTable.committedMapTable x) =
      readOperand (a.advance (a.result program)).regs x := by
  have himp := hd.implements
  have hresult : (a.result program).result = (sys.dispatchedResult program t).result := by
    rw [himp.same]
  have hldst := himp.ldst
  rw [hcommitted]
  unfold ArchState.advance
  dsimp only
  rw [← himp.rdValid] at hldst ⊢
  by_cases hpdst : (sys.dispatchedResult program t).uop.rename.pdst = 0
  · have hnot : (sys.dispatchedResult program t).uop.rdValid = false := by
      simp [MicroOp.rdValid, hpdst]
    rw [hd.intRf_of_not_writes hpdst, if_neg (not_not_intro hpdst), hnot,
      if_neg Bool.false_ne_true]
    exact h.regs x
  · obtain ⟨hint, hne⟩ := hd.spec.pdst hpdst
    have hyes : (sys.dispatchedResult program t).uop.rdValid = true := by
      simp [MicroOp.rdValid, hpdst, hint]
    have hrf : (sys.cycle program t).core.intRf =
        Function.update sys.core.intRf (sys.dispatchedResult program t).uop.rename.pdst
          (sys.dispatchedResult program t).result := by
      rw [hd.intRf]
      unfold writeBack
      rw [hload, decide_eq_true hint, decide_eq_true hpdst]
      rfl
    rw [hyes, if_pos rfl] at hldst
    rw [hrf, if_pos hpdst, hyes, if_pos rfl, ← hldst, hresult]
    by_cases hx : x = (sys.dispatchedResult program t).uop.rename.ldst
    · rw [hx, Function.update_self, readOperand_update_self hpdst, readOperand_update_self hne]
    · rw [Function.update_of_ne hx, readOperand_update_of_ne (hd.fresh hpdst x),
        readOperand_update_of_ne hx]
      exact h.regs x

end Dispatches

/-! ### The simulation -/

/-- The core before a cycle is at the state `a` of the interpreter, holds the store that the
interpreter executes next, or has taken a trap on which the interpreter has halted. -/
inductive Simulates (program : Program) (sys : System) (a : ArchState) : List Inflight → Prop
  | idle (h : Agrees sys [] a) : Simulates program sys a []
  | storing (d : Inflight) (h : Agrees sys [d] (a.step program))
      (himp : d.result.Implements (a.result program)) (hstore : d.result.isStore = true)
      (hcompletes : a.completes program = true)
      (hexec : sys.core.execute.aluResult = d.result) : Simulates program sys a [d]
  | halted {w : List Inflight} (h : TrapHead sys w) (hhalted : a.halted = true) :
      Simulates program sys a w

/-- The cycle writes the records and sends the stores of a step of the interpreter. -/
def Follows (program : Program) (sys : System) (t : Tick) (a : ArchState) : Prop :=
  (sys.coreStep program t).2.commitTrace.q = a.commits program ∧
    (sys.storeRequests program t).map DmemRequest.payload = a.stores program

/-- The cycle writes no record and sends no store. -/
def Quiet (program : Program) (sys : System) (t : Tick) : Prop :=
  (sys.coreStep program t).2.commitTrace.q = [] ∧ sys.storeRequests program t = []

/-- A step of the interpreter that completes no instruction produces nothing. -/
theorem Quiet.follows {program : Program} {sys : System} {t : Tick} {a : ArchState}
    (h : Quiet program sys t) (hnot : a.completes program = false) :
    Follows program sys t a := by
  unfold Follows ArchState.commits ArchState.stores
  rw [h.1, h.2, hnot]
  exact ⟨rfl, rfl⟩

theorem ArchState.step_of_completes {program : Program} {a : ArchState}
    (h : a.completes program = true) : a.step program = a.advance (a.result program) := by
  unfold completes at h
  simp only [Bool.and_eq_true, Bool.not_eq_true'] at h
  unfold step
  dsimp only
  rw [h.1, h.2, if_neg Bool.false_ne_true, if_neg Bool.false_ne_true]

theorem Stream.not_full_of_empty {α : Type} {room : ℕ} (hroom : 0 < room) :
    ({ q := [], maxSize := room } : Stream α).full = false :=
  decide_eq_false (Nat.not_le_of_lt hroom)

section Retired

variable {program : Program} {sys : System} {t : Tick} {n : ℕ} {w w' : List Inflight}
  {d : Inflight} (h : SysInv sys w) (hret : Retires program sys t n w d w')

include hret

/-- The record of a retired instruction is written when `commit_trace` has room. -/
theorem Retires.commitTrace_of_room (hroom : 0 < t.commitTraceRoom) :
    (sys.coreStep program t).2.commitTrace.q = [(sys.cycle program t).core.rob.lastCommit] := by
  have hfull : (sys.commitPipe program t).commitTrace.full = false := by
    rw [System.commitPipe_commitTrace]
    exact Stream.not_full_of_empty hroom
  rw [hret.trace, hfull, if_neg Bool.false_ne_true, System.commitPipe_commitTrace]
  rfl

/-- What retires takes no trap. -/
theorem Retires.not_takesTrap : ¬ sys.TakesTrap program t := by
  intro htrap
  have hentry := hret.retirable.not_exception hret.dispatched
  rw [htrap.exception] at hentry
  simp at hentry

include h

/-- Retirement installs the destination in the committed map. -/
theorem Retires.committed :
    (sys.cycle program t).core.rename.intMapTable.committedMapTable =
      if d.result.uop.rename.pdst ≠ 0 then
        Function.update sys.core.rename.intMapTable.committedMapTable d.result.uop.rename.ldst
          d.result.uop.rename.pdst
      else sys.core.rename.intMapTable.committedMapTable := by
  rw [hret.rename, RenameState.commitDst_committed, h.step.atCommit_committed]

end Retired

section Dispatch

variable {program : Program} {sys : System} {t : Tick} {a : ArchState} (h : Agrees sys [] a)
  (n : ℕ) (hd : Dispatches program sys t n a)

include h hd

/-- An instruction without exception that the load/store unit does not wait for retires at once. -/
theorem Agrees.dispatch_plain (htrace : 0 < t.commitTraceRoom)
    (hcompletes : (sys.dispatchedResult program t).completesInRob = true)
    (hexc : (sys.dispatchedResult program t).uop.exception = false) :
    Simulates program (sys.cycle program t) (a.step program) (sys.windowStep program t n []) ∧
      Follows program sys t a := by
  have hload := hd.spec.isLoad_of_completes hcompletes
  have hstore := hd.spec.isStore_of_completes hcompletes
  have hvalid : (sys.cycle program t).core.rob.commitValid = true := by
    refine h.inv.commits_of_complete t n hd.quiet hd.dispatched ?_ ?_ fun hcontra ↦ ?_
    · rw [hd.entry]
      simp [AluResult.entry, hcompletes]
    · rw [hd.entry]
      exact hexc
    · rw [hstore] at hcontra
      simp at hcontra
  obtain ⟨d, w', hret⟩ := h.inv.retires t n hvalid
  have hw := hret.before
  rw [hd.dispatched] at hw
  obtain ⟨rfl, rfl⟩ := List.cons.inj hw
  have hdone : a.completes program = true := by
    unfold ArchState.completes
    rw [h.running, ← hd.exception_eq, hexc]
    rfl
  have hstep := ArchState.step_of_completes hdone
  have hrecord : (sys.cycle program t).core.rob.lastCommit = (a.result program).record := by
    rw [hret.record, hd.entry]
    refine hd.implements.record hstore ?_ fun hrd ↦ ?_
    · rw [h.inv.step.atCommit_csr]
      exact h.priv
    · unfold MicroOp.rdValid at hrd
      rw [← System.cycle_intRf, hd.intRf]
      unfold writeBack
      rw [hload, Bool.not_false, Bool.true_and, if_pos hrd, Function.update_self]
  refine ⟨?_, ?_, ?_⟩
  · rw [hret.after]
    refine .idle (hret.after ▸ h.next program t n (fun d hd ↦ absurd hd List.not_mem_nil)
      (fun _ ↦ rfl) (fun _ ↦ rfl) hret.not_takesTrap ?_ ?_ ?_)
    · rw [hstep]
      exact hd.regs_of_retired h hload (hret.committed h.inv)
    · rw [hstep, hd.pc, hd.implements.same]
      rfl
    · rw [hstep]
      exact h.running
  · rw [hret.commitTrace_of_room htrace, hrecord]
    unfold ArchState.commits
    rw [hdone, if_pos rfl]
  · have hnone : sys.storeRequests program t = [] := by
      unfold System.storeRequests
      rw [hret.requests, hstore, if_neg Bool.false_ne_true, System.commitPipe_noStore]
    unfold ArchState.stores
    rw [hnone, ← hd.isStore_eq, hstore, Bool.and_false, if_neg Bool.false_ne_true]
    rfl

/-- An exception retires nothing. An `ECALL` leaves, and everything else is a trap. -/
theorem Agrees.dispatch_exception
    (hcompletes : (sys.dispatchedResult program t).completesInRob = true)
    (hexc : (sys.dispatchedResult program t).uop.exception = true) :
    Simulates program (sys.cycle program t) (a.step program) (sys.windowStep program t n []) ∧
      Follows program sys t a := by
  have hnot : a.completes program = false := by
    unfold ArchState.completes
    rw [← hd.exception_eq, hexc]
    simp
  have hredirects : (sys.dispatchedResult program t).redirects = false := by
    by_contra hcontra
    have hok := (hd.spec.control (by simpa using hcontra)).1
    rw [hexc] at hok
    simp at hok
  have hbusy : ((sys.atCommit program t).rob.entries (sys.atCommit program t).rob.head).busy =
      false := by
    rw [hd.entry]
    simp [AluResult.entry, hcompletes]
  have hhead : ((sys.atCommit program t).rob.entries
      (sys.atCommit program t).rob.head).exception = true := by
    rw [hd.entry]
    exact hexc
  have hvalid : (sys.cycle program t).core.rob.commitValid = false := by
    by_contra hcontra
    obtain ⟨d, w', hret⟩ := h.inv.retires t n (by simpa using hcontra)
    rw [hret.retirable.not_exception hret.dispatched] at hhead
    simp at hhead
  have hstage : ((sys.atCommit program t).rob.entries
      (sys.atCommit program t).rob.head).valid = true := by
    rw [hd.entry]
    rfl
  have hfollows : Follows program sys t a := Quiet.follows (h.inv.quiet t hvalid) hnot
  refine ⟨?_, hfollows⟩
  have huopc : ((sys.atCommit program t).rob.entries
      (sys.atCommit program t).rob.head).uop.uopc = (a.result program).uop.uopc := by
    rw [hd.entry, hd.implements.same]
    rfl
  have hstop : (a.result program).exception = true := by rw [← hd.exception_eq, hexc]
  by_cases hecall : (a.result program).uop.uopc = .ecall
  · have hcore : (sys.coreStep program t).1 = commitException (sys.atCommit program t)
        ((sys.atCommit program t).rob.entries (sys.atCommit program t).rob.head) := by
      rw [h.inv.step.coreStep_of_not_redirects program t hd.quiet,
        commitStage_of_exception _ hd.head.1 hstage hbusy hhead]
    have hpop : Popped (sys.atCommit program t) (sys.cycle program t).core := by
      show Popped (sys.atCommit program t) (sys.coreStep program t).1
      rw [hcore]
      exact commitException_popped (huopc.trans hecall)
    have hafter : sys.windowStep program t n [] = [] := by
      rw [h.inv.windowStep_of_pop t n hd.quiet hpop.head, hd.dispatched]
      rfl
    have hstep : a.step program = { a with pc := a.pc + 4 } := by
      unfold ArchState.step
      dsimp only
      rw [h.running, hstop, if_neg Bool.false_ne_true, if_pos rfl, if_pos hecall]
    have hcode : (sys.dispatchedResult program t).uop.uopc = .ecall := by
      rw [hd.implements.same]
      exact hecall
    rw [hafter]
    refine .idle (hafter ▸ h.next program t n (fun d hd ↦ absurd hd List.not_mem_nil)
      (fun _ ↦ rfl) (fun _ ↦ rfl) (fun htrap ↦ htrap.notEcall (huopc.trans hecall)) ?_ ?_ ?_)
    · intro x
      rw [hd.intRf_of_not_writes (hd.spec.ecall hcode).2, (h.inv.not_retired t n hvalid).2.2.1,
        h.inv.step.atCommit_committed, hstep]
      exact h.regs x
    · rw [hd.pc_of_not_redirects hredirects, hstep]
    · rw [hstep]
      exact h.running
  · have htrap : sys.TakesTrap program t :=
      ⟨hd.quiet, hd.head.1, hstage, hbusy, hhead, fun hcontra ↦ hecall (huopc.symm.trans hcontra)⟩
    have hstep : a.step program = { a with halted := true } := by
      unfold ArchState.step
      dsimp only
      rw [h.running, hstop, if_neg Bool.false_ne_true, if_pos rfl, if_neg hecall]
    refine .halted (h.inv.trapHead_of_takesTrap t htrap n fun htransfer ↦ ?_) (by rw [hstep])
    rw [htransfer.2.2] at hredirects
    simp at hredirects

/-- A store waits for the load/store unit in the next cycle. -/
theorem Agrees.dispatch_store
    (hcompletes : (sys.dispatchedResult program t).completesInRob = false)
    (hstore : (sys.dispatchedResult program t).isStore = true) :
    Simulates program (sys.cycle program t) a (sys.windowStep program t n []) ∧
      Quiet program sys t := by
  have hctrl := hstore
  rw [hd.spec.store, Bool.and_eq_true, Bool.not_eq_true'] at hctrl
  have hload := hd.spec.isLoad_of_store hstore
  have hpdst := hd.spec.storeDst hctrl.1
  have hbusy : ((sys.atCommit program t).rob.entries (sys.atCommit program t).rob.head).busy =
      true := by
    rw [hd.entry]
    simp [AluResult.entry, hcompletes]
  have hcore : (sys.cycle program t).core = sys.atCommit program t := by
    show (sys.coreStep program t).1 = _
    rw [h.inv.step.coreStep_of_not_redirects program t hd.quiet, commitStage_of_busy _ hbusy]
  have hvalid : (sys.cycle program t).core.rob.commitValid = false := by
    rw [hcore]
    exact (h.inv.step.atCommit_flags program t).1
  have hafter := h.inv.windowStep_of_stay t n hd.quiet (by rw [hcore])
  rw [hd.dispatched] at hafter
  have hredirects : (sys.dispatchedResult program t).redirects = false := by
    by_contra hcontra
    have hdone := (hd.spec.control (by simpa using hcontra)).2
    rw [hcompletes] at hdone
    simp at hdone
  have hdone : a.completes program = true := by
    unfold ArchState.completes
    rw [h.running, ← hd.exception_eq, hctrl.2]
    rfl
  have hstep := ArchState.step_of_completes hdone
  have hwrites : (a.result program).uop.writesInt = false := by
    rw [← hd.implements.rdValid]
    simp [MicroOp.rdValid, hpdst]
  have hmispredict : (a.result program).mispredict = false := by
    have hsame : (a.result program).mispredict = (sys.dispatchedResult program t).mispredict := by
      rw [hd.implements.same]
    rw [hsame, ← hredirects]
    exact (dispatchedResult_redirects _ _ _).symm
  refine ⟨?_, h.inv.quiet t hvalid⟩
  have hagrees : Agrees (sys.cycle program t) (sys.windowStep program t n []) (a.step program) := by
    refine h.next program t n (fun d hd ↦ absurd hd List.not_mem_nil) (fun _ ↦ rfl) (fun _ ↦ rfl)
      (fun htrap ↦ ?_) (fun x ↦ ?_) ?_ ?_
    · rw [htrap.complete] at hbusy
      simp at hbusy
    · rw [hd.intRf_of_not_writes hpdst, (h.inv.not_retired t n hvalid).2.2.1,
        h.inv.step.atCommit_committed, hstep]
      unfold ArchState.advance
      dsimp only
      rw [hwrites, if_neg Bool.false_ne_true]
      exact h.regs x
    · rw [hd.pc_of_not_redirects hredirects, hstep]
      unfold ArchState.advance
      dsimp only
      rw [hmispredict, if_neg Bool.false_ne_true]
    · rw [hstep]
      exact h.running
  rw [hafter] at hagrees ⊢
  exact .storing _ hagrees hd.implements hstore hdone hd.execute

end Dispatch

/-- The store that was dispatched in the previous cycle retires. -/
theorem Agrees.retire_store {program : Program} {sys : System} {t : Tick} {a : ArchState}
    {d : Inflight} (h : Agrees sys [d] (a.step program)) (n : ℕ)
    (himp : d.result.Implements (a.result program)) (hstore : d.result.isStore = true)
    (hcompletes : a.completes program = true)
    (hexec : sys.core.execute.aluResult = d.result) (hreq : 0 < t.dmemReqRoom)
    (htrace : 0 < t.commitTraceRoom) :
    Simulates program (sys.cycle program t) (a.step program) (sys.windowStep program t n [d]) ∧
      Follows program sys t a := by
  have hspec := (h.inv.window.rob.head).2.dispatched
  have hctrl := hstore
  rw [hspec.store, Bool.and_eq_true, Bool.not_eq_true'] at hctrl
  have hloads : ∀ d' ∈ [d], d'.result.isLoad = false := by
    intro d' hd'
    rw [List.mem_singleton.mp hd']
    exact hspec.isLoad_of_store hstore
  have hquiet : sys.core.execute.aluResult.redirects = false := by
    rw [hexec]
    by_contra hcontra
    have hdone := (hspec.control (by simpa using hcontra)).2
    rw [hspec.completes, hctrl.1, Bool.or_true] at hdone
    simp at hdone
  have hacc : sys.accepted program t = none := by
    unfold System.accepted
    cases hresp : sys.response program t with
    | none => rw [ite_self]
    | some resp =>
      have hsent := (h.inv.step.fetch.response_eq t hresp).1
      rw [h.inv.step.fetch.executed (by rw [hexec]; exact hspec.valid)] at hsent
      simp at hsent
  have hnone := h.inv.step.dispatched_idle t n (Or.inl hacc)
  have hbefore : [d] ++ sys.dispatched program t n = [d] := by rw [hnone, List.append_nil]
  obtain ⟨hmem, hsettled⟩ := h.inv.memory program t
  have hhead : (sys.atCommit program t).rob.entries (sys.atCommit program t).rob.head =
      d.result.entry.asStore d.result := by
    have hwin := (h.inv.atCommit program t n).1.rob
    rw [hbefore] at hwin
    have hof := hwin.head.2
    refine hof.stage.of_store hspec hstore ?_
    have hvalid := hsettled.memoryValid hmem.rob (List.mem_singleton_self d)
      (by rw [hspec.memoryValid, hstore, Bool.or_true])
    rw [Inflight.cell, hof.robIdx] at hvalid
    rw [(h.inv.step.atCommit_idle t (Or.inl hacc)).1]
    rw [(h.inv.step.atCommit_idle t (Or.inl hacc)).1] at hvalid
    exact hvalid
  have hpipe := (h.inv.memory_of_noLoads program t hloads h.pending).2.2
  have hvalid : (sys.cycle program t).core.rob.commitValid = true := by
    refine h.inv.commits_of_complete t n hquiet hbefore ?_ ?_ fun _ ↦ ?_
    · rw [hhead]
      rfl
    · rw [hhead]
      exact hctrl.2
    · rw [hpipe]
      exact Stream.not_full_of_empty hreq
  obtain ⟨d', w', hret⟩ := h.inv.retires t n hvalid
  have hw := hret.before
  rw [hbefore] at hw
  obtain ⟨rfl, rfl⟩ := List.cons.inj hw
  have hpdst := hspec.storeDst hctrl.1
  have hrecord : (sys.cycle program t).core.rob.lastCommit = (a.result program).record := by
    rw [hret.record, hhead]
    refine himp.record_store hspec hstore ?_
    rw [h.inv.step.atCommit_csr]
    exact h.priv
  have hisStore : (a.result program).isStore = true := by
    have hsame : (a.result program).isStore = d.result.isStore := by rw [himp.same]
    rw [hsame, hstore]
  refine ⟨?_, ?_, ?_⟩
  · rw [hret.after]
    refine .idle (hret.after ▸ h.next program t n hloads (fun hsome ↦ ?_) (fun hcontra ↦ ?_)
      hret.not_takesTrap (fun x ↦ ?_) ?_ h.running)
    · rw [hacc] at hsome
      simp at hsome
    · rw [hquiet] at hcontra
      simp at hcontra
    · rw [h.inv.cycle_intRf_of_none t hloads h.pending hacc, hret.committed h.inv,
        if_neg (not_not_intro hpdst)]
      exact h.regs x
    · rw [h.inv.step.redirected_of_none t hacc]
      exact h.pc
  · rw [hret.commitTrace_of_room htrace, hrecord]
    unfold ArchState.commits
    rw [hcompletes, if_pos rfl]
  · have hsent : sys.storeRequests program t = [storeRequest (d.result.entry.asStore d.result)
        (sys.atCommit program t).lsu.nextTransactionId] := by
      unfold System.storeRequests
      rw [hret.requests, hstore, if_pos rfl, hpipe, hhead]
      rfl
    unfold ArchState.stores
    rw [hsent, hcompletes, hisStore, Bool.and_self, if_pos rfl, List.map_singleton, himp.request]

/-- A cycle stays at the step of the interpreter or advances by one. Assumes: the instruction at the
pc of the interpreter is no load, and the consumers leave room. -/
theorem Simulates.cycle {program : Program} {sys : System} {a : ArchState} {w : List Inflight}
    (h : Simulates program sys a w) (hfree : a.LoadFree program) (t : Tick) (n : ℕ)
    (hreq : 0 < t.dmemReqRoom) (htrace : 0 < t.commitTraceRoom) :
    (Simulates program (sys.cycle program t) a (sys.windowStep program t n w) ∧
        Quiet program sys t) ∨
      (Simulates program (sys.cycle program t) (a.step program) (sys.windowStep program t n w) ∧
        Follows program sys t a) := by
  cases h with
  | idle h =>
    cases hacc : sys.accepted program t with
    | none =>
      obtain ⟨hagrees, hafter, hvalid⟩ := h.idle t n hacc
      rw [hafter]
      exact Or.inl ⟨.idle hagrees, h.inv.quiet t hvalid⟩
    | some resp =>
      have hd := h.dispatches t n hacc
      obtain ⟨hopcode, hsize⟩ := hfree h.running
      have hload : (sys.dispatchedResult program t).uop.ctrl.isLoad = false := by
        rw [hd.spec.loadFlag, hd.inst, decide_eq_false hopcode]
      have hcompletes := hd.spec.completes
      rw [hload, Bool.false_or] at hcompletes
      by_cases hsta : (sys.dispatchedResult program t).uop.ctrl.isSta = true
      · rw [hsta] at hcompletes
        have hstore : (sys.dispatchedResult program t).isStore = true := by
          have hkind := hsta
          rw [hd.spec.storeFlag, hd.inst, decide_eq_true_eq] at hkind
          have hlegal : (sys.dispatchedResult program t).uop.exception = false := by
            rw [← Bool.not_eq_true, hd.storeLegal hsta]
            exact Nat.not_lt_of_le (hsize hkind)
          rw [hd.spec.store, hsta, hlegal]
          rfl
        exact Or.inl (h.dispatch_store n hd hcompletes hstore)
      · rw [Bool.not_eq_true] at hsta
        rw [hsta] at hcompletes
        by_cases hexc : (sys.dispatchedResult program t).uop.exception = true
        · exact Or.inr (h.dispatch_exception n hd hcompletes hexc)
        · exact Or.inr (h.dispatch_plain n hd htrace hcompletes (by simpa using hexc))
  | storing d h himp hstore hcompletes hexec =>
    exact Or.inr (h.retire_store n himp hstore hcompletes hexec hreq htrace)
  | halted h hhalted =>
    have hstays : sys.StaysTrapped program t := h.staysTrapped t
    refine Or.inl ⟨.halted (h.cycle t n) hhalted, hstays.commitTrace, ?_⟩
    exact List.filter_eq_nil_iff.mpr fun req hreq ↦ by simp [hstays.noStore req hreq]

end BoomCore
