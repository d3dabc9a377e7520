import BoomCore.Proof.Simulation

/-!
# The core executes a program in order

For a program whose executed instructions contain no load, the records on `commit_trace` and the
stores on `dmem_req` are what the sequential interpreter produces, in every run: whatever the fetch
delays, the stale data responses and the room on the request stream of the frontend. Fields of a
store request that the interpreter cannot know are its transaction and its cell of the reorder
buffer.
-/

set_option autoImplicit false
set_option relaxedAutoImplicit false

namespace BoomCore

/-- Assumes: the instructions that the interpreter executes contain no load and no store of an
undefined size, and the consumers leave room on `dmem_req` and on `commit_trace`. What the core has
written before cycle `n` is what the interpreter has produced before some step. -/
theorem inOrder_run (program : Program) (tick : ℕ → Tick)
    (hfree : ∀ k, (ArchState.run program k).LoadFree program)
    (hreq : ∀ n, 0 < (tick n).dmemReqRoom) (htrace : ∀ n, 0 < (tick n).commitTraceRoom) (n : ℕ) :
    ∃ k,
      Run.outputs (fun m ↦
          ((System.run program tick m).coreStep program (tick m)).2.commitTrace.q) n =
        Run.outputs (fun j ↦ (ArchState.run program j).commits program) k ∧
      Run.outputs (fun m ↦
          ((System.run program tick m).storeRequests program (tick m)).map DmemRequest.payload) n =
        Run.outputs (fun j ↦ (ArchState.run program j).stores program) k := by
  obtain ⟨k, -, hsame⟩ := Run.outputs_of_simulation
    (fun n k ↦ Simulates program (System.run program tick n) (ArchState.run program k)
      (System.window program tick n))
    (fun n k ↦ Follows program (System.run program tick n) (tick n) (ArchState.run program k))
    (fun n ↦ Quiet program (System.run program tick n) (tick n)) (.idle agrees_init)
    (fun n k h ↦ h.cycle (hfree k) (tick n) n (hreq n) (htrace n)) n
  refine ⟨k, hsame _ _ (fun m h ↦ h.1) fun m j h ↦ h.1, hsame _ _ (fun m h ↦ ?_) fun m j h ↦ h.2⟩
  rw [h.2, List.map_nil]

/-! ### A program without loads -/

theorem ArchState.loadFree_ofWords {words : List (BitVec 32)} {rest : BitVec 32}
    (h : ∀ word ∈ rest :: words,
      opcodeOf word ≠ 0x03 ∧ (opcodeOf word = 0x23 → funct3Of word ≤ 3)) (a : ArchState) :
    a.LoadFree (.ofWords words rest) := by
  intro _
  refine h _ ?_
  unfold Program.ofWords
  rw [List.getD_eq_getElem?_getD]
  cases hword : words[((a.pc - resetVector) >>> 2).toNat]? with
  | none => exact List.mem_cons_self
  | some word => exact List.mem_cons_of_mem _ (List.mem_of_getElem? hword)

/-- `ADDI x1, x0, 7`, `SD x1, 0(x0)`, `ECALL`, `JAL x1, -8`, then `NOP`s. -/
def storeForever : Program :=
  .ofWords [0x00700093#32, 0x00103023#32, 0x00000073#32, 0xFF9FF0EF#32] 0x00000013#32

theorem storeForever_loadFree (a : ArchState) : a.LoadFree storeForever := by
  refine ArchState.loadFree_ofWords ?_ a
  simp [opcodeOf, funct3Of]

/-- `inOrder_run` for a loop over a store. -/
theorem inOrder_run_storeForever :
    ∃ k,
      Run.outputs (fun m ↦ ((System.run storeForever (fun _ ↦ .fetch) m).coreStep storeForever
          .fetch).2.commitTrace.q) 40 =
        Run.outputs (fun j ↦ (ArchState.run storeForever j).commits storeForever) k ∧
      Run.outputs (fun m ↦ ((System.run storeForever (fun _ ↦ .fetch) m).storeRequests storeForever
          .fetch).map DmemRequest.payload) 40 =
        Run.outputs (fun j ↦ (ArchState.run storeForever j).stores storeForever) k :=
  inOrder_run storeForever (fun _ ↦ .fetch) (fun _ ↦ storeForever_loadFree _)
    (fun _ ↦ by decide) (fun _ ↦ by decide) 40

end BoomCore
