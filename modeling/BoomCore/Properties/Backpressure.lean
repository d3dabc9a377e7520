import BoomCore.Proof.Pipeline

/-!
# A full reorder buffer drops the instruction

`rob_allocate` finds out that the reorder buffer is full after the frontend has moved on to the
next pc and after the instruction has been renamed. It invalidates the renamed uop, and nothing
holds the instruction back: it is never allocated, and the frontend asks for the one behind it.
-/

set_option autoImplicit false
set_option relaxedAutoImplicit false

namespace BoomCore

namespace System

variable (program : Program)

/-- The instruction of a cycle is held back: renaming is undone before commit, and the frontend
presents the same pc again. -/
structure HeldBack (sys : System) (t : Tick) : Prop where
  mapTable : (sys.beforeCommit program t).rename.intMapTable.mapTable =
    sys.core.rename.intMapTable.mapTable
  head : (sys.beforeCommit program t).rename.intFreeList.head = sys.core.rename.intFreeList.head
  count : (sys.beforeCommit program t).rename.intFreeList.count =
    sys.core.rename.intFreeList.count
  busyTable : (sys.beforeCommit program t).rename.intFreeList.busyTable =
    sys.core.rename.intFreeList.busyTable
  again : (sys.cycle program t).core.frontend.pc = sys.core.frontend.pc

end System

/-- The pc after a cycle that hands an instruction over is the one behind it. -/
theorem StepInv.cycle_pc {program : Program} {sys : System} (h : StepInv sys) (t : Tick)
    {resp : ImemResponse} (hacc : sys.accepted program t = some resp) :
    (sys.cycle program t).core.frontend.pc = sys.core.frontend.pc + 4 := by
  obtain ⟨-, -, -, hresp, -⟩ := h.fetch.accepted_eq t hacc
  rw [h.cycle_frontend, (h.fetch.afterFetch_of_some t hacc).1, hresp]

/-- Assumes: the reorder buffer is full and the frontend hands an instruction over. The instruction
is not dispatched, and the frontend goes on to the instruction behind it. -/
theorem not_heldBack_of_full (program : Program) (tick : ℕ → Tick) (n : ℕ)
    (hfull : (System.run program tick n).core.rob.isFull = true)
    (hacc : ((System.run program tick n).accepted program (tick n)).isSome = true) :
    (System.run program tick n).dispatched program (tick n) n = [] ∧
      (System.run program tick (n + 1)).core.frontend.pc =
        (System.run program tick n).core.frontend.pc + 4 ∧
      ¬ (System.run program tick n).HeldBack program (tick n) := by
  have hinv := stepInv_run program tick n
  obtain ⟨resp, hresp⟩ := Option.isSome_iff_exists.mp hacc
  have hpc := hinv.cycle_pc (tick n) hresp
  refine ⟨hinv.dispatched_idle (tick n) n (Or.inr hfull), hpc, fun hheld ↦ ?_⟩
  have hne : (System.run program tick n).core.frontend.pc + 4 ≠
      (System.run program tick n).core.frontend.pc := by
    bv_omega
  exact hne (hpc.symm.trans hheld.again)

set_option maxRecDepth 100000 in
/-- The load never gets its response. After 31 younger instructions the reorder buffer is full, and
the next instruction is handed over. -/
theorem loadThenNops_full :
    (System.run loadThenNops (fun _ ↦ .fetch) 65).core.rob.isFull = true ∧
      ((System.run loadThenNops (fun _ ↦ .fetch) 65).accepted loadThenNops .fetch).isSome =
        true := by
  decide +kernel

set_option maxRecDepth 100000 in
/-- The instruction at the pc of that cycle is not held back. -/
theorem loadThenNops_not_heldBack :
    (System.run loadThenNops (fun _ ↦ .fetch) 65).core.rob.isFull = true ∧
      ((System.run loadThenNops (fun _ ↦ .fetch) 65).accepted loadThenNops .fetch).isSome = true ∧
      ¬ (System.run loadThenNops (fun _ ↦ .fetch) 65).HeldBack loadThenNops .fetch := by
  refine ⟨loadThenNops_full.1, loadThenNops_full.2, fun hheld ↦ ?_⟩
  have hagain := hheld.again
  revert hagain
  decide +kernel

/-- `not_heldBack_of_full` at that cycle. -/
theorem not_heldBack_loadThenNops :
    (System.run loadThenNops (fun _ ↦ .fetch) 65).dispatched loadThenNops .fetch 65 = [] ∧
      (System.run loadThenNops (fun _ ↦ .fetch) (65 + 1)).core.frontend.pc =
        (System.run loadThenNops (fun _ ↦ .fetch) 65).core.frontend.pc + 4 ∧
      ¬ (System.run loadThenNops (fun _ ↦ .fetch) 65).HeldBack loadThenNops .fetch :=
  not_heldBack_of_full loadThenNops (fun _ ↦ .fetch) 65 loadThenNops_full.1 loadThenNops_full.2

end BoomCore
