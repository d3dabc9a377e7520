import BoomCore.Proof.DataMemory

/-!
# Loads read the stores that committed before them

The core runs against a data memory that processes its requests in order and answers loads after
any delay. A load that commits has read the memory after exactly the stores that committed before
it (`load_reads_committed`): it was sent when no older store was left in the reorder buffer, and no
store commits while it waits.
-/

set_option autoImplicit false
set_option relaxedAutoImplicit false

namespace BoomCore

section Runs

variable (program : Program) (memory : ByteMemory 64) (mtick : ℕ → MemoryTick)

/-- The stores that commit before cycle `n`, in order. -/
def committedStores (n : ℕ) : List CommitEntry :=
  Run.outputs (fun m ↦ (MemorySystem.run program memory mtick m).sys.retiredStores program
    (MemorySystem.ticks program memory mtick m)) n

/-- The initial memory with the stores that commit before cycle `n`. -/
def committedMemory (n : ℕ) : ByteMemory 64 :=
  (committedStores program memory mtick n).foldl (fun m ce ↦ ce.perform m) memory

theorem sysInv_memoryRun (n : ℕ) :
    SysInv (MemorySystem.run program memory mtick n).sys
      (System.window program (MemorySystem.ticks program memory mtick) n) := by
  rw [MemorySystem.run_sys]
  exact sysInv_run program _ n

/-- The core and the memory agree in every cycle of every run. -/
theorem memoryInv_run (n : ℕ) :
    MemoryInv (MemorySystem.run program memory mtick n).sys.core
      (committedMemory program memory mtick n)
      (MemorySystem.run program memory mtick n).memory
      (MemorySystem.run program memory mtick n).requests
      (MemorySystem.run program memory mtick n).answers := by
  induction n with
  | zero => exact memoryInv_init memory
  | succ n ih =>
    have hcycle := (sysInv_memoryRun program memory mtick n).memoryInv_cycle program
      (t := MemorySystem.ticks program memory mtick n) (i := (mtick n).answered) rfl
      (ih.process (mtick n).processed)
    unfold committedMemory committedStores
    rw [Run.outputs_succ, List.foldl_append]
    exact hcycle

/-- The record of the instruction that commits in cycle `n`, when one does. -/
def committedRecord (n : ℕ) : CommitEntry :=
  (MemorySystem.run program memory mtick (n + 1)).sys.core.rob.lastCommit

/-- A load that commits in cycle `n` and stays in its beat has the value of its bytes, extended by
its kind, in the memory after the stores that committed before it. -/
theorem load_reads_committed (n : ℕ)
    (hvalid : (MemorySystem.run program memory mtick (n + 1)).sys.core.rob.commitValid = true)
    (hopcode : opcodeOf (committedRecord program memory mtick n).inst = 0x03)
    (hin : InBeat (committedRecord program memory mtick n).memoryAddress
      (funct3Of (committedRecord program memory mtick n).inst % 4)) :
    (committedRecord program memory mtick n).memoryData =
      loadResult (committedMemory program memory mtick n)
        (committedRecord program memory mtick n).memoryAddress
        (funct3Of (committedRecord program memory mtick n).inst % 4)
        (decide (funct3Of (committedRecord program memory mtick n).inst < 4)) := by
  have hinv := sysInv_memoryRun program memory mtick n
  have hmem := hinv.memoryInv_atCommit program
    (t := MemorySystem.ticks program memory mtick n) (i := (mtick n).answered) rfl
    ((memoryInv_run program memory mtick n).process (mtick n).processed)
  obtain ⟨d, w', hret⟩ := hinv.retires (MemorySystem.ticks program memory mtick n) n hvalid
  have hrecord : committedRecord program memory mtick n = commitRecord _ _ := hret.record
  have hspec := hret.dispatched
  have hstage := hret.retirable.stage
  have hhead := (hinv.atCommit program (MemorySystem.ticks program memory mtick n) n).1.rob.head_lt
  have hvalue := hmem.value _ hhead
  have hretirable := hret.retirable
  rw [hrecord] at hopcode hin ⊢
  unfold commitRecord at hopcode hin ⊢
  dsimp only at hopcode hin ⊢
  generalize (System.atCommit program _ _).rob.entries _ = e at *
  have hexc := hretirable.exception hspec
  have hload : d.result.isLoad = true := by
    rw [hspec.load, hspec.loadFlag, ← hstage.inst, hexc, decide_eq_true hopcode]
    rfl
  obtain ⟨hsize, hsigned⟩ := hspec.loadSize hload
  rw [← hstage.inst] at hsize hsigned
  rw [← hsize] at hin ⊢
  rw [← hsigned]
  obtain ⟨tx, resp, hok, rfl⟩ := hretirable.of_load hspec hload
  unfold RobEntry.complete at hvalue hin ⊢
  rw [hok, if_neg Bool.false_ne_true] at hvalue hin ⊢
  exact hvalue rfl rfl hexc hin

end Runs

/-! ### A load behind a store -/

/-- `ADDI x1, x0, 7`, `SD x1, 0(x0)`, `LD x2, 0(x0)`, then `NOP`s. -/
def storeThenLoad : Program :=
  .ofWords [0x00700093#32, 0x00103023#32, 0x00003103#32] 0x00000013#32

/-- The memory processes a request and delivers an answer in every cycle. -/
def promptTick : MemoryTick := { tick := .fetch, processed := 1, answered := some 0 }

set_option maxRecDepth 100000 in
/-- `load_reads_committed` for the load of this program, which commits in cycle 7 and reads the
store. -/
theorem load_reads_committed_storeThenLoad :
    (committedRecord storeThenLoad (fun _ ↦ 0) (fun _ ↦ promptTick) 7).memoryData =
      loadResult (committedMemory storeThenLoad (fun _ ↦ 0) (fun _ ↦ promptTick) 7)
        (committedRecord storeThenLoad (fun _ ↦ 0) (fun _ ↦ promptTick) 7).memoryAddress
        (funct3Of (committedRecord storeThenLoad (fun _ ↦ 0) (fun _ ↦ promptTick) 7).inst % 4)
        (decide (funct3Of
          (committedRecord storeThenLoad (fun _ ↦ 0) (fun _ ↦ promptTick) 7).inst < 4)) := by
  refine load_reads_committed storeThenLoad (fun _ ↦ 0) (fun _ ↦ promptTick) 7 ?_ ?_ ?_
  all_goals decide +kernel

end BoomCore
