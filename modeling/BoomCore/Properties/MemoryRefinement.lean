import BoomCore.Proof.Refinement
import BoomCore.Properties.MemoryOrder

/-!
# The core with a data memory refines the sequential machine

The core takes new instructions every other cycle, executes them at once, and has several of them in
flight while loads wait for the data memory. As long as its cycles are in order (`System.InOrder`),
none of this can be observed: what it has written to `commit_trace`, what stores it has sent, its
committed registers and the memory behind the requests on their way are those of the sequential
machine before one of its steps (`memoryRefinement_run`). The delays of the two memories decide only
how far the core has come (`delays_unobservable`).
-/

set_option autoImplicit false
set_option relaxedAutoImplicit false

namespace BoomCore

section Runs

variable (program : Program) (memory : ByteMemory 64) (mtick : ℕ → MemoryTick)

/-- Cycle `n` of the run is in order. -/
def InOrderCycle (n : ℕ) : Prop :=
  (MemorySystem.run program memory mtick n).sys.InOrder program
    (MemorySystem.ticks program memory mtick n)

instance (n : ℕ) : Decidable (InOrderCycle program memory mtick n) :=
  inferInstanceAs (Decidable (System.InOrder _ _ _))

/-- What the core writes to `commit_trace` before cycle `n`. -/
def tracedRecords (n : ℕ) : List CommitEntry :=
  Run.outputs (fun m ↦ ((MemorySystem.run program memory mtick m).sys.coreStep program
    (MemorySystem.ticks program memory mtick m)).2.commitTrace.q) n

/-- The stores that the core sends before cycle `n`. -/
def sentStores (n : ℕ) : List DmemRequest :=
  Run.outputs (fun m ↦ ((MemorySystem.run program memory mtick m).sys.storeRequests program
    (MemorySystem.ticks program memory mtick m)).map DmemRequest.payload) n

/-- What the sequential machine records before step `k`. -/
def machineRecords (k : ℕ) : List CommitEntry :=
  Run.outputs (fun j ↦ (Machine.run program memory j).commits program) k

/-- The stores of the sequential machine before step `k`. -/
def machineStores (k : ℕ) : List DmemRequest :=
  Run.outputs (fun j ↦ (Machine.run program memory j).stores program) k

variable (n : ℕ) (hbeat : ∀ k, (Machine.run program memory k).LoadsInBeat program)
  (htrace : ∀ n, 0 < (mtick n).tick.commitTraceRoom)
  (hinOrder : ∀ m < n, InOrderCycle program memory mtick m)

include hbeat htrace hinOrder

/-- The core before cycle `n` is where the machine is before some step, and has emitted what the
machine has. -/
theorem refines_run :
    ∃ k, (MemorySystem.run program memory mtick n).Refines program (Machine.run program memory k)
        (System.window program (MemorySystem.ticks program memory mtick) n) ∧
      tracedRecords program memory mtick n = machineRecords program memory k ∧
      sentStores program memory mtick n = machineStores program memory k := by
  have hwindow : ∀ m, System.window program (MemorySystem.ticks program memory mtick) (m + 1) =
      (MemorySystem.run program memory mtick m).sys.windowStep program
        (MemorySystem.ticks program memory mtick m) m
        (System.window program (MemorySystem.ticks program memory mtick) m) := fun m ↦ by
    rw [MemorySystem.run_sys]
    rfl
  obtain ⟨k, hk, hsame⟩ := Run.outputs_of_simulation_before
    (fun m k ↦ (MemorySystem.run program memory mtick m).Refines program
      (Machine.run program memory k)
      (System.window program (MemorySystem.ticks program memory mtick) m))
    (fun m k ↦ Emits program (MemorySystem.run program memory mtick m).sys
      (MemorySystem.ticks program memory mtick m) (Machine.run program memory k))
    (fun m ↦ Quiet program (MemorySystem.run program memory mtick m).sys
      (MemorySystem.ticks program memory mtick m)) (refines_init program memory) n
    (fun m hm k h ↦ by
      have hstep : Machine.run program memory (k + 1) =
          (Machine.run program memory k).step program := Function.iterate_succ_apply' _ _ _
      have hlater : ∀ j, ((Machine.step program)^[j]
          (Machine.run program memory k)).LoadsInBeat program := fun j ↦ by
        have hadd := hbeat (j + k)
        unfold Machine.run at hadd ⊢
        rwa [Function.iterate_add_apply] at hadd
      rw [hwindow, hstep]
      obtain ⟨m', hnext, ⟨rfl, hquiet, -⟩ | ⟨rfl, -, hemits, -⟩⟩ :=
        h.cycle (mtick m) m (hinOrder m hm) hlater (htrace m)
      · exact Or.inl ⟨hnext, hquiet⟩
      · exact Or.inr ⟨hnext, hemits⟩)
  refine ⟨k, hk, hsame _ _ (fun m h ↦ h.1) fun m j h ↦ h.1,
    hsame _ _ (fun m h ↦ ?_) fun m j h ↦ h.2⟩
  rw [h.2, List.map_nil]

/-- Assumes: the loads of the sequential machine stay in their beats, there is room on
`commit_trace`, and the cycles before `n` are in order. Then the core has recorded and stored what
the machine has before some step `k`; its committed registers are those of the machine, and so is
the memory after the requests on their way. -/
theorem memoryRefinement_run :
    ∃ k, tracedRecords program memory mtick n = machineRecords program memory k ∧
      sentStores program memory mtick n = machineStores program memory k ∧
      (∀ x, readOperand (MemorySystem.run program memory mtick n).sys.core.intRf
          ((MemorySystem.run program memory mtick n).sys.core.rename.intMapTable.committedMapTable
            x) = readOperand (Machine.run program memory k).arch.regs x) ∧
      performAll (MemorySystem.run program memory mtick n).requests
        (MemorySystem.run program memory mtick n).memory =
        (Machine.run program memory k).memory := by
  obtain ⟨k, hrefines, hrecords, hstores⟩ :=
    refines_run program memory mtick n hbeat htrace hinOrder
  exact ⟨k, hrecords, hstores, hrefines.regs, hrefines.memory.stores⟩

/-- Assumes: two schedules of the surroundings under which the cycles before `n` and before `n'` are
in order. The records of one run continue those of the other, and so do the stores: the delays
decide only how far the core has come. -/
theorem delays_unobservable (mtick' : ℕ → MemoryTick) (n' : ℕ)
    (htrace' : ∀ n, 0 < (mtick' n).tick.commitTraceRoom)
    (hinOrder' : ∀ m < n', InOrderCycle program memory mtick' m) :
    (tracedRecords program memory mtick n <+: tracedRecords program memory mtick' n' ∧
        sentStores program memory mtick n <+: sentStores program memory mtick' n') ∨
      (tracedRecords program memory mtick' n' <+: tracedRecords program memory mtick n ∧
        sentStores program memory mtick' n' <+: sentStores program memory mtick n) := by
  obtain ⟨k, -, hrecords, hstores⟩ := refines_run program memory mtick n hbeat htrace hinOrder
  obtain ⟨k', -, hrecords', hstores'⟩ :=
    refines_run program memory mtick' n' hbeat htrace' hinOrder'
  rw [hrecords, hstores, hrecords', hstores']
  rcases Nat.le_total k k' with hle | hle
  · exact Or.inl ⟨Run.outputs_mono _ hle, Run.outputs_mono _ hle⟩
  · exact Or.inr ⟨Run.outputs_mono _ hle, Run.outputs_mono _ hle⟩

end Runs

/-! ### A load behind a store -/

/-- The access of a load that is executed. -/
theorem ArchState.load_access {program : Program} {a : ArchState}
    (hload : (a.result program).isLoad = true) :
    opcodeOf (program a.pc) = 0x03 ∧
      (a.result program).memoryAddress = readOperand a.regs (rs1Of (program a.pc)) +
        (extractImmI (program a.pc)).signExtend 64 ∧
      (a.result program).memorySize = funct3Of (program a.pc) % 4 := by
  have hspec := decodeInst_spec a.pc (program a.pc)
  have hkind : (decodeInst a.pc (program a.pc)).uopc.isLoad = true := by
    rw [← hload]
    exact (executeUop_isLoad _ _ _).symm
  have hopcode : opcodeOf (program a.pc) = 0x03 := by
    rw [hspec.load, Bool.and_eq_true, hspec.loadFlag] at hkind
    exact of_decide_eq_true hkind.1
  have himm : (decodeInst a.pc (program a.pc)).immPacked = extractImmI (program a.pc) := by
    rw [decodeInst_eq_switch]
    unfold decodeSwitch
    have hop : opcodeOf (decodeFields a.pc (program a.pc)).inst = 0x03 := hopcode
    rw [hop]
    show (decodeFields a.pc (program a.pc)).decodeLoad.immPacked = _
    unfold MicroOp.decodeLoad
    dsimp only
    split <;> rfl
  refine ⟨hopcode, ?_, (executeUop_loadSize _ _ _ hkind).1.trans (hspec.loadSize hkind).1⟩
  rw [← himm]
  unfold result executeUop MicroOp.executeSwitch
  dsimp only
  rw [decodeInst_rename]
  cases hcase : (decodeInst a.pc (program a.pc)).uopc <;>
    simp only [hcase, Uopc.isLoad, Bool.false_eq_true] at hkind <;> rfl

theorem storeThenLoad_cases (pc : BitVec 64) :
    storeThenLoad pc = 0x00700093#32 ∨ storeThenLoad pc = 0x00103023#32 ∨
      storeThenLoad pc = 0x00003103#32 ∨ storeThenLoad pc = 0x00000013#32 := by
  have hmem : storeThenLoad pc ∈ [0x00700093#32, 0x00103023#32, 0x00003103#32, 0x00000013#32] := by
    unfold storeThenLoad Program.ofWords
    rw [List.getD_eq_getElem?_getD]
    cases hget : [0x00700093#32, 0x00103023#32, 0x00003103#32][((pc - resetVector) >>>
        2).toNat]? with
    | none => simp
    | some word => exact List.mem_append_left [0x00000013#32] (List.mem_of_getElem? hget)
  simpa only [List.mem_cons, List.not_mem_nil, or_false] using hmem

/-- The only load of the program reads the eight bytes at address zero. -/
theorem storeThenLoad_loadsInBeat (m : Machine) : m.LoadsInBeat storeThenLoad := by
  intro _ hload
  obtain ⟨hopcode, haddress, hsize⟩ := ArchState.load_access hload
  have hword : storeThenLoad m.arch.pc = 0x00003103#32 := by
    rcases storeThenLoad_cases m.arch.pc with heq | heq | heq | heq
    · exact absurd hopcode (by rw [heq]; decide)
    · exact absurd hopcode (by rw [heq]; decide)
    · exact heq
    · exact absurd hopcode (by rw [heq]; decide)
  have hzero : readOperand m.arch.regs (rs1Of 0x00003103#32) = 0 := rfl
  rw [haddress, hsize, hword, hzero]
  decide

/-- A memory that processes a request and delivers an answer in every third cycle only. -/
def slowTick (n : ℕ) : MemoryTick := if n % 3 = 0 then promptTick else { tick := .fetch }

set_option maxRecDepth 100000 in
/-- `memoryRefinement_run` while the load of this program is in flight. -/
theorem memoryRefinement_run_storeThenLoad :
    ∃ k, tracedRecords storeThenLoad (fun _ ↦ 0) slowTick 8 =
        machineRecords storeThenLoad (fun _ ↦ 0) k ∧
      sentStores storeThenLoad (fun _ ↦ 0) slowTick 8 = machineStores storeThenLoad (fun _ ↦ 0) k ∧
      (∀ x, readOperand (MemorySystem.run storeThenLoad (fun _ ↦ 0) slowTick 8).sys.core.intRf
          ((MemorySystem.run storeThenLoad (fun _ ↦ 0) slowTick
            8).sys.core.rename.intMapTable.committedMapTable x) =
        readOperand (Machine.run storeThenLoad (fun _ ↦ 0) k).arch.regs x) ∧
      performAll (MemorySystem.run storeThenLoad (fun _ ↦ 0) slowTick 8).requests
        (MemorySystem.run storeThenLoad (fun _ ↦ 0) slowTick 8).memory =
          (Machine.run storeThenLoad (fun _ ↦ 0) k).memory := by
  refine memoryRefinement_run storeThenLoad (fun _ ↦ 0) slowTick 8
    (fun _ ↦ storeThenLoad_loadsInBeat _) (fun n ↦ ?_) ?_
  · unfold slowTick
    split_ifs <;> decide
  · decide +kernel

set_option maxRecDepth 100000 in
/-- `delays_unobservable` for a prompt and a slow memory. -/
theorem delays_unobservable_storeThenLoad :
    (tracedRecords storeThenLoad (fun _ ↦ 0) (fun _ ↦ promptTick) 8 <+:
        tracedRecords storeThenLoad (fun _ ↦ 0) slowTick 8 ∧
      sentStores storeThenLoad (fun _ ↦ 0) (fun _ ↦ promptTick) 8 <+:
        sentStores storeThenLoad (fun _ ↦ 0) slowTick 8) ∨
    (tracedRecords storeThenLoad (fun _ ↦ 0) slowTick 8 <+:
        tracedRecords storeThenLoad (fun _ ↦ 0) (fun _ ↦ promptTick) 8 ∧
      sentStores storeThenLoad (fun _ ↦ 0) slowTick 8 <+:
        sentStores storeThenLoad (fun _ ↦ 0) (fun _ ↦ promptTick) 8) := by
  refine delays_unobservable storeThenLoad (fun _ ↦ 0) (fun _ ↦ promptTick) 8
    (fun _ ↦ storeThenLoad_loadsInBeat _) (fun _ ↦ by decide) ?_ slowTick 8 (fun n ↦ ?_) ?_
  · decide +kernel
  · unfold slowTick
    split_ifs <;> decide
  · decide +kernel

end BoomCore
