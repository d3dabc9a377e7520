import BoomCore.Proof.DataMemory
import BoomCore.Run.Interpreter
import Mathlib.Logic.Function.Iterate

/-!
# The sequential machine

The sequential interpreter with a data memory. One instruction after the other is executed: a load
writes the bytes at its address, as the memory is then, and a store writes its bytes before the next
instruction is executed. This is what the core with its memory is compared with.
-/

set_option autoImplicit false
set_option relaxedAutoImplicit false

namespace BoomCore

namespace AluResult

variable (r : AluResult)

/-- The result with the value that the instruction writes: a load reads the memory. -/
def loaded (memory : ByteMemory 64) : AluResult :=
  if r.isLoad then
    { r with result := loadResult memory r.memoryAddress r.memorySize r.signedLoad }
  else r

/-- The commit record of an executed instruction. That of a load carries the access and the value,
also in the fields of stores. -/
def memoryRecord : CommitEntry :=
  if r.isLoad then
    { r.record with
      memoryValid := true, memoryAddress := r.memoryAddress, memoryData := r.result
      memoryMask := r.memoryMask, storeAddr := r.memoryAddress, storeData := r.result
      storeMask := r.memoryMask }
  else r.record

end AluResult

structure Machine where
  arch : ArchState := {}
  memory : ByteMemory 64

namespace Machine

variable (program : Program) (m : Machine)

/-- The instruction at the pc, executed on the registers and the memory. -/
def result : AluResult := (m.arch.result program).loaded m.memory

/-- The commit record that a step produces. -/
def commits : List CommitEntry :=
  if m.arch.completes program then [(m.result program).memoryRecord] else []

/-- The store request that a step produces. -/
def stores : List DmemRequest := m.arch.stores program

def step : Machine :=
  if m.arch.completes program then
    { arch := m.arch.advance (m.result program)
      memory := performAll (m.stores program) m.memory }
  else { m with arch := m.arch.step program }

/-- The machine before step `k`, from reset and a given memory. -/
def run (memory : ByteMemory 64) (k : ℕ) : Machine := (step program)^[k] { memory := memory }

/-- The instruction at the pc is no load that leaves its beat. -/
def LoadsInBeat : Prop :=
  m.arch.completes program = true → (m.arch.result program).isLoad = true →
    InBeat (m.arch.result program).memoryAddress (m.arch.result program).memorySize

instance : Decidable (m.LoadsInBeat program) := inferInstanceAs (Decidable (_ → _ → _))

/-! ### Steps -/

variable {program : Program} {m : Machine}

theorem step_of_completes (h : m.arch.completes program = true) :
    m.step program = { arch := m.arch.advance (m.result program)
                       memory := performAll (m.stores program) m.memory } := by
  unfold step
  rw [if_pos h]

theorem step_of_not_completes (h : m.arch.completes program = false) :
    m.step program = { m with arch := m.arch.step program } := by
  unfold step
  rw [h, if_neg Bool.false_ne_true]

/-- A step that does not store leaves the memory alone. -/
theorem step_memory (h : m.arch.halted = false → (m.arch.result program).isStore = false) :
    (m.step program).memory = m.memory := by
  unfold step
  split_ifs with hdone
  · have hrunning : m.arch.halted = false := by
      unfold ArchState.completes at hdone
      rw [Bool.and_eq_true, Bool.not_eq_true'] at hdone
      exact hdone.1
    have hnone : m.stores program = [] := by
      unfold stores ArchState.stores
      rw [h hrunning, Bool.and_false, if_neg Bool.false_ne_true]
    rw [hnone]
    rfl
  · rfl

/-- A machine that has halted stays halted. -/
theorem running_of_step (h : (m.step program).arch.halted = false) : m.arch.halted = false := by
  by_contra hhalted
  have hhalted' : m.arch.halted = true := by simpa using hhalted
  have hnot : m.arch.completes program = false := by
    unfold ArchState.completes
    rw [hhalted']
    rfl
  rw [step_of_not_completes hnot] at h
  unfold ArchState.step at h
  dsimp only at h
  rw [hhalted', if_pos rfl, hhalted'] at h
  exact Bool.false_ne_true h.symm

/-! ### A machine that has halted -/

section Halted

variable (h : m.arch.halted = true)

include h

theorem not_completes_of_halted : m.arch.completes program = false := by
  unfold ArchState.completes
  rw [h]
  rfl

/-- A machine that has halted stays where it is. -/
theorem step_of_halted : m.step program = m := by
  rw [step_of_not_completes (not_completes_of_halted h)]
  unfold ArchState.step
  dsimp only
  rw [if_pos h]

theorem commits_of_halted : m.commits program = [] := by
  unfold commits
  rw [not_completes_of_halted h, if_neg Bool.false_ne_true]

theorem stores_of_halted : m.stores program = [] := by
  unfold stores ArchState.stores
  rw [not_completes_of_halted h, Bool.false_and, if_neg Bool.false_ne_true]

end Halted

section Iterate

variable {j k : ℕ} (h : ((step program)^[k] m).arch.halted = true) (hle : k ≤ j)

include h hle

theorem iterate_of_halted : (step program)^[j] m = (step program)^[k] m :=
  Run.iterate_of_fixed (step_of_halted h) hle

/-- A machine that has halted emits nothing. -/
theorem outputs_of_halted {ε : Type*} (emit : Machine → List ε)
    (hnone : ∀ m : Machine, m.arch.halted = true → emit m = []) :
    Run.outputs (fun i ↦ emit ((step program)^[i] m)) j =
      Run.outputs (fun i ↦ emit ((step program)^[i] m)) k :=
  Run.outputs_of_fixed (step_of_halted h) hle emit (hnone _ h)

end Iterate

end Machine

end BoomCore
