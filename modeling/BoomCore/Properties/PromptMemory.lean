import BoomCore.Proof.PromptMemory
import BoomCore.Properties.MemoryRefinement
import Mathlib.Data.Nat.Count

/-!
# The core with a memory that answers at once

The test benches answer a load before the next step. Then every cycle is in order, whatever the
instruction memory does, and the core retires what is handed over with at most one instruction left
in flight (`promptMemory_run`). When the instruction memory answers at once too, an instruction is
handed over in every other cycle, so that the core retires one instruction in two cycles until the
machine halts (`promptMemory_throughput`).
-/

set_option autoImplicit false
set_option relaxedAutoImplicit false

namespace BoomCore

section Runs

variable (program : Program) (memory : ByteMemory 64) (mtick : ℕ → MemoryTick)

/-- Cycle `n` hands an instruction over to the core. -/
def handsOver (n : ℕ) : Bool :=
  ((MemorySystem.run program memory mtick n).sys.accepted program
    (MemorySystem.ticks program memory mtick n)).isSome

/-- How many instructions are handed over before cycle `n`. -/
def handedOver (n : ℕ) : ℕ := Nat.count (fun m ↦ handsOver program memory mtick m = true) n

theorem handedOver_succ (n : ℕ) :
    handedOver program memory mtick (n + 1) =
      handedOver program memory mtick n + if handsOver program memory mtick n then 1 else 0 :=
  Nat.count_succ _ n

/-- The core before cycle `n` is where the machine is before step `k`, and what has been handed over
is retired or in flight. -/
structure PromptAt (n k : ℕ) : Prop where
  prompt : (MemorySystem.run program memory mtick n).Prompt program (Machine.run program memory k)
    (System.window program (MemorySystem.ticks program memory mtick) n)
  le : k ≤ handedOver program memory mtick n
  count : (Machine.run program memory k).arch.halted = true ∨
    k + (System.window program (MemorySystem.ticks program memory mtick) n).length =
      handedOver program memory mtick n

variable (horderly : ∀ k, (Machine.run program memory k).Orderly program)
  (hprompt : ∀ n, (mtick n).Prompt)

include horderly hprompt

theorem PromptAt.cycle {n k : ℕ} (h : PromptAt program memory mtick n k) :
    (PromptAt program memory mtick (n + 1) k ∧
        Quiet program (MemorySystem.run program memory mtick n).sys
          (MemorySystem.ticks program memory mtick n)) ∨
      (PromptAt program memory mtick (n + 1) (k + 1) ∧
        Emits program (MemorySystem.run program memory mtick n).sys
          (MemorySystem.ticks program memory mtick n) (Machine.run program memory k)) := by
  have hwindow : System.window program (MemorySystem.ticks program memory mtick) (n + 1) =
      (MemorySystem.run program memory mtick n).sys.windowStep program
        (MemorySystem.ticks program memory mtick n) n
        (System.window program (MemorySystem.ticks program memory mtick) n) := by
    rw [MemorySystem.run_sys]
    rfl
  have hstep : Machine.run program memory (k + 1) =
      (Machine.run program memory k).step program := Function.iterate_succ_apply' _ _ _
  have hlater : ∀ j, ((Machine.step program)^[j] (Machine.run program memory k)).Orderly program :=
    fun j ↦ by
      have hadd := horderly (j + k)
      unfold Machine.run at hadd ⊢
      rwa [Function.iterate_add_apply] at hadd
  have hdispatched := h.prompt.inv.dispatched_length program
    (MemorySystem.ticks program memory mtick n) n (h.prompt.inOrder (hprompt n)).room
  have hhanded := handedOver_succ program memory mtick n
  unfold handsOver at hhanded
  rw [← hdispatched] at hhanded
  obtain ⟨m', hnext, hfollows⟩ := h.prompt.cycle (hprompt n) n hlater
  change FollowsMachine program _ (MemorySystem.ticks program memory mtick n) n _ _ m' at hfollows
  rcases hfollows with ⟨rfl, hquiet, hlength⟩ | ⟨rfl, hrun, hemits, hlength⟩
  · refine Or.inl ⟨⟨by rw [hwindow]; exact hnext, ?_, ?_⟩, hquiet⟩
    · rw [hhanded]
      exact h.le.trans (Nat.le_add_right _ _)
    · cases hrun : (Machine.run program memory k).arch.halted with
      | true => exact Or.inl rfl
      | false =>
        have hcount := h.count.resolve_left (by rw [hrun]; exact Bool.false_ne_true)
        refine Or.inr ?_
        rw [hwindow, hlength hrun, List.length_append, hhanded, ← hcount, Nat.add_assoc]
  · have hcount := h.count.resolve_left (by rw [hrun]; exact Bool.false_ne_true)
    rw [← hcount, Nat.add_assoc, ← List.length_append] at hhanded
    refine Or.inr ⟨?_, hemits⟩
    cases hrun' : ((Machine.run program memory k).step program).arch.halted with
    | true =>
      refine ⟨by rw [hwindow, hstep]; exact hnext, ?_, Or.inl (by rw [hstep, hrun'])⟩
      rw [hhanded]
      refine Nat.add_le_add_left ((List.length_pos_of_ne_nil ?_).trans_le
        (System.windowStep_length_le program _ _ n _)) k
      exact (hnext.trapped hrun').nonempty
    | false =>
      have hlength := hlength hrun'
      refine ⟨by rw [hwindow, hstep]; exact hnext, ?_, Or.inr ?_⟩
      · rw [hhanded, ← hlength]
        exact Nat.add_le_add_left (Nat.le_add_left 1 _) k
      · rw [hwindow, hhanded, ← hlength, Nat.add_assoc, Nat.add_comm 1]

/-- The core before cycle `n` is where the machine is before some step, and has emitted what the
machine has. -/
theorem prompt_run (n : ℕ) :
    ∃ k, PromptAt program memory mtick n k ∧
      tracedRecords program memory mtick n = machineRecords program memory k ∧
      sentStores program memory mtick n = machineStores program memory k := by
  obtain ⟨k, hk, hsame⟩ := Run.outputs_of_simulation (PromptAt program memory mtick)
    (fun m k ↦ Emits program (MemorySystem.run program memory mtick m).sys
      (MemorySystem.ticks program memory mtick m) (Machine.run program memory k))
    (fun m ↦ Quiet program (MemorySystem.run program memory mtick m).sys
      (MemorySystem.ticks program memory mtick m))
    ⟨prompt_init program memory, Nat.zero_le _, Or.inr rfl⟩
    (fun _ _ h ↦ h.cycle program memory mtick horderly hprompt) n
  refine ⟨k, hk, hsame _ _ (fun m h ↦ h.1) fun m j h ↦ h.1,
    hsame _ _ (fun m h ↦ ?_) fun m j h ↦ h.2⟩
  rw [h.2, List.map_nil]

/-- Assumes: the instructions of the sequential machine are orderly, and the data memory answers at
once; the instruction memory may take its time. Then every cycle is in order. The core has recorded
and stored what the machine has before some step `k`, and its registers and its memory are those of
the machine. It has retired all that was handed over but at most one instruction, or it has stopped
where the machine has halted. -/
theorem promptMemory_run (n : ℕ) :
    InOrderCycle program memory mtick n ∧
      ∃ k, tracedRecords program memory mtick n = machineRecords program memory k ∧
        sentStores program memory mtick n = machineStores program memory k ∧
        (∀ x, readOperand (MemorySystem.run program memory mtick n).sys.core.intRf
            ((MemorySystem.run program memory mtick n).sys.core.rename.intMapTable.committedMapTable
              x) = readOperand (Machine.run program memory k).arch.regs x) ∧
        performAll (MemorySystem.run program memory mtick n).requests
          (MemorySystem.run program memory mtick n).memory =
            (Machine.run program memory k).memory ∧
        k ≤ handedOver program memory mtick n ∧
        (((Machine.run program memory k).arch.halted = true ∧
            (MemorySystem.run program memory mtick n).sys.core.rob.state = .exception) ∨
          ((Machine.run program memory k).arch.halted = false ∧
            handedOver program memory mtick n ≤ k + 1)) := by
  obtain ⟨k, hk, hrecords, hstores⟩ := prompt_run program memory mtick horderly hprompt n
  refine ⟨hk.prompt.inOrder (hprompt n), k, hrecords, hstores, hk.prompt.refines.regs,
    hk.prompt.refines.memory.stores, hk.le, ?_⟩
  cases hrun : (Machine.run program memory k).arch.halted with
  | true => exact Or.inl ⟨rfl, (hk.prompt.trapped hrun).state⟩
  | false =>
    refine Or.inr ⟨rfl, ?_⟩
    have hcount := hk.count.resolve_left (by rw [hrun]; exact Bool.false_ne_true)
    rw [← hcount]
    exact Nat.add_le_add_left (hk.prompt.short hrun) k

end Runs

/-! ### Both memories answer at once -/

section Throughput

variable (program : Program) (memory : ByteMemory 64)

variable (horderly : ∀ k, (Machine.run program memory k).Orderly program)

include horderly

/-- The frontend sends a request in the even cycles and takes the response in the odd ones, until
the core stops. -/
theorem cadence (n : ℕ) :
    handedOver program memory (fun _ ↦ promptTick) n ≤ n / 2 ∧
      ((MemorySystem.run program memory (fun _ ↦ promptTick) n).sys.core.rob.state ≠ .exception →
        handedOver program memory (fun _ ↦ promptTick) n = n / 2 ∧
          (MemorySystem.run program memory (fun _ ↦ promptTick) n).sys.core.frontend.requestSent =
            decide (n % 2 = 1)) := by
  induction n with
  | zero => exact ⟨Nat.zero_le _, fun _ ↦ ⟨rfl, rfl⟩⟩
  | succ n ih =>
    obtain ⟨k, hk, -⟩ := prompt_run program memory (fun _ ↦ promptTick) horderly
      (fun _ ↦ promptTick_prompt) n
    have hinv := hk.prompt.inv.step
    have hsucc := handedOver_succ program memory (fun _ ↦ promptTick) n
    have hnext : (MemorySystem.run program memory (fun _ ↦ promptTick) (n + 1)).sys =
        (MemorySystem.run program memory (fun _ ↦ promptTick) n).sys.cycle program
          (MemorySystem.ticks program memory (fun _ ↦ promptTick) n) := rfl
    rw [hnext, hsucc]
    unfold handsOver
    by_cases hstate :
        (MemorySystem.run program memory (fun _ ↦ promptTick) n).sys.core.rob.state = .exception
    · have hhalted : (Machine.run program memory k).arch.halted = true := by
        by_contra hrun
        exact (hk.prompt.tracking (by simpa using hrun)).1 hstate
      rw [hk.prompt.stopped hhalted]
      refine ⟨ih.1.trans (Nat.div_le_div_right (Nat.le_succ n)), fun hcontra ↦ ?_⟩
      exact absurd ((hk.prompt.trapped hhalted).staysTrapped _).state hcontra
    · obtain ⟨hcount, hsent⟩ := ih.2 hstate
      rcases Nat.mod_two_eq_zero_or_one n with heven | hodd
      · have hnot : (MemorySystem.run program memory (fun _ ↦ promptTick)
            n).sys.core.frontend.requestSent = false := by
          rw [hsent, heven]
          rfl
        have hacc := hinv.accepted_of_not_sent program
          (MemorySystem.ticks program memory (fun _ ↦ promptTick) n) hnot
        rw [hacc, hinv.cycle_sent_of_none _ hacc hstate promptTick_prompt.imemReq, hcount]
        refine ⟨by simp; omega, fun _ ↦ ⟨by simp; omega, (decide_eq_true ?_).symm⟩⟩
        omega
      · have hyes : (MemorySystem.run program memory (fun _ ↦ promptTick)
            n).sys.core.frontend.requestSent = true := by
          rw [hsent, hodd]
          rfl
        have hacc := hinv.accepted_of_sent program
          (MemorySystem.ticks program memory (fun _ ↦ promptTick) n) hstate hyes rfl
        rw [hacc, hinv.cycle_sent_of_some _ hacc, hcount]
        refine ⟨by simp; omega, fun _ ↦ ⟨by simp; omega, (decide_eq_false ?_).symm⟩⟩
        omega

/-- Assumes: the instructions of the sequential machine are orderly. With the timing of the test
benches the core has, before cycle `n`, retired what the machine executes in `n / 2` steps but at
most one: its records, its stores, its registers and its memory are those of the machine. -/
theorem promptMemory_throughput (n : ℕ) :
    ∃ k, k ≤ n / 2 ∧ n / 2 ≤ k + 1 ∧
      tracedRecords program memory (fun _ ↦ promptTick) n = machineRecords program memory k ∧
      sentStores program memory (fun _ ↦ promptTick) n = machineStores program memory k ∧
      (∀ x, readOperand (MemorySystem.run program memory (fun _ ↦ promptTick) n).sys.core.intRf
          ((MemorySystem.run program memory (fun _ ↦ promptTick)
            n).sys.core.rename.intMapTable.committedMapTable x) =
        readOperand (Machine.run program memory k).arch.regs x) ∧
      performAll (MemorySystem.run program memory (fun _ ↦ promptTick) n).requests
        (MemorySystem.run program memory (fun _ ↦ promptTick) n).memory =
          (Machine.run program memory k).memory := by
  obtain ⟨k, hk, hrecords, hstores⟩ := prompt_run program memory (fun _ ↦ promptTick) horderly
    (fun _ ↦ promptTick_prompt) n
  have hregs := hk.prompt.refines.regs
  have hmemory := hk.prompt.refines.memory.stores
  obtain ⟨hle, hcadence⟩ := cadence program memory horderly n
  cases hrun : (Machine.run program memory k).arch.halted with
  | false =>
    have hcount := hk.count.resolve_left (by rw [hrun]; exact Bool.false_ne_true)
    have hhalf := (hcadence (hk.prompt.tracking hrun).1).1
    refine ⟨k, hk.le.trans hle, ?_, hrecords, hstores, hregs, hmemory⟩
    rw [← hhalf, ← hcount]
    exact Nat.add_le_add_left (hk.prompt.short hrun) k
  | true =>
    have hkn : k ≤ n / 2 := hk.le.trans hle
    refine ⟨n / 2, le_rfl, Nat.le_succ _, ?_, ?_, ?_, ?_⟩
    · rw [hrecords]
      exact (Machine.outputs_of_halted hrun hkn (Machine.commits program)
        fun _ ↦ Machine.commits_of_halted).symm
    · rw [hstores]
      exact (Machine.outputs_of_halted hrun hkn (Machine.stores program)
        fun _ ↦ Machine.stores_of_halted).symm
    · rw [show Machine.run program memory (n / 2) = Machine.run program memory k from
        Machine.iterate_of_halted hrun hkn]
      exact hregs
    · rw [show Machine.run program memory (n / 2) = Machine.run program memory k from
        Machine.iterate_of_halted hrun hkn]
      exact hmemory

end Throughput

/-! ### A load behind a store -/

/-- No word of the program is a jump or names no size, and its only load stays in its beat. -/
theorem storeThenLoad_orderly (m : Machine) : m.Orderly storeThenLoad := by
  refine ⟨storeThenLoad_loadsInBeat m, fun _ ↦ ?_, fun _ _ ↦ ?_⟩
  · rcases storeThenLoad_cases m.arch.pc with heq | heq | heq | heq
    all_goals rw [heq]; decide
  · generalize (m.step storeThenLoad).arch = a
    by_contra hredirects
    have hmispredict : (a.result storeThenLoad).mispredict = true := by
      simp only [AluResult.redirects, Bool.not_eq_false, Bool.and_eq_true] at hredirects
      exact hredirects.1.2
    have hopcode := decodeInst_control (executeUop_mispredict _ _ _ hmispredict)
    rcases storeThenLoad_cases a.pc with heq | heq | heq | heq
    all_goals rw [heq] at hopcode; revert hopcode; decide

/-- The instruction memory answers in every third cycle only. -/
def slowFetchTick (n : ℕ) : MemoryTick :=
  { tick := if n % 3 = 0 then .fetch else {}, processed := 1, answered := some 0 }

theorem slowFetchTick_prompt (n : ℕ) : (slowFetchTick n).Prompt := by
  unfold slowFetchTick
  constructor <;> split_ifs <;> decide

/-- `promptMemory_run` for this program and a slow instruction memory. -/
theorem promptMemory_run_storeThenLoad :
    InOrderCycle storeThenLoad (fun _ ↦ 0) slowFetchTick 20 ∧
      ∃ k, tracedRecords storeThenLoad (fun _ ↦ 0) slowFetchTick 20 =
          machineRecords storeThenLoad (fun _ ↦ 0) k ∧
        sentStores storeThenLoad (fun _ ↦ 0) slowFetchTick 20 =
          machineStores storeThenLoad (fun _ ↦ 0) k ∧
        (∀ x, readOperand (MemorySystem.run storeThenLoad (fun _ ↦ 0) slowFetchTick
              20).sys.core.intRf
            ((MemorySystem.run storeThenLoad (fun _ ↦ 0) slowFetchTick
              20).sys.core.rename.intMapTable.committedMapTable x) =
          readOperand (Machine.run storeThenLoad (fun _ ↦ 0) k).arch.regs x) ∧
        performAll (MemorySystem.run storeThenLoad (fun _ ↦ 0) slowFetchTick 20).requests
          (MemorySystem.run storeThenLoad (fun _ ↦ 0) slowFetchTick 20).memory =
            (Machine.run storeThenLoad (fun _ ↦ 0) k).memory ∧
        k ≤ handedOver storeThenLoad (fun _ ↦ 0) slowFetchTick 20 ∧
        (((Machine.run storeThenLoad (fun _ ↦ 0) k).arch.halted = true ∧
            (MemorySystem.run storeThenLoad (fun _ ↦ 0) slowFetchTick 20).sys.core.rob.state =
              .exception) ∨
          ((Machine.run storeThenLoad (fun _ ↦ 0) k).arch.halted = false ∧
            handedOver storeThenLoad (fun _ ↦ 0) slowFetchTick 20 ≤ k + 1)) :=
  promptMemory_run storeThenLoad (fun _ ↦ 0) slowFetchTick (fun _ ↦ storeThenLoad_orderly _)
    slowFetchTick_prompt 20

/-- `promptMemory_throughput` for this program. -/
theorem promptMemory_throughput_storeThenLoad :
    ∃ k, k ≤ 20 / 2 ∧ 20 / 2 ≤ k + 1 ∧
      tracedRecords storeThenLoad (fun _ ↦ 0) (fun _ ↦ promptTick) 20 =
        machineRecords storeThenLoad (fun _ ↦ 0) k ∧
      sentStores storeThenLoad (fun _ ↦ 0) (fun _ ↦ promptTick) 20 =
        machineStores storeThenLoad (fun _ ↦ 0) k ∧
      (∀ x, readOperand (MemorySystem.run storeThenLoad (fun _ ↦ 0) (fun _ ↦ promptTick)
            20).sys.core.intRf
          ((MemorySystem.run storeThenLoad (fun _ ↦ 0) (fun _ ↦ promptTick)
            20).sys.core.rename.intMapTable.committedMapTable x) =
        readOperand (Machine.run storeThenLoad (fun _ ↦ 0) k).arch.regs x) ∧
      performAll (MemorySystem.run storeThenLoad (fun _ ↦ 0) (fun _ ↦ promptTick) 20).requests
        (MemorySystem.run storeThenLoad (fun _ ↦ 0) (fun _ ↦ promptTick) 20).memory =
          (Machine.run storeThenLoad (fun _ ↦ 0) k).memory :=
  promptMemory_throughput storeThenLoad (fun _ ↦ 0) (fun _ ↦ storeThenLoad_orderly _) 20

end BoomCore
