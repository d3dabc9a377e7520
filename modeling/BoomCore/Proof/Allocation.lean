import BoomCore.Proof.Registers
import BoomCore.Proof.Retirement

/-!
# The allocation of registers in a cycle

Two things can break the allocation of physical registers: an instruction that is renamed and then
dropped by a full reorder buffer, and a destination that is taken from the last slot of the free
list. A cycle that does neither (`System.RenamesSafely`) keeps it (`SysInv.regInv_cycle`). It also
keeps the number of registers, unless a redirect drops an instruction with a destination.
-/

set_option autoImplicit false
set_option relaxedAutoImplicit false

namespace BoomCore

open Ring Renaming

/-- The register is not zero, and neither an entry of the committed map nor the destination of a
valid entry of the reorder buffer. -/
def BoomCoreState.Spare (s : BoomCoreState) (p : ℕ) : Prop :=
  p ≠ 0 ∧ (∀ r < logicalRegCount, s.rename.intMapTable.committedMapTable r ≠ p) ∧
    ∀ i < robDepth, (s.rob.entries i).valid = true → (s.rob.entries i).uop.rename.pdst ≠ p

instance (s : BoomCoreState) (p : ℕ) : Decidable (s.Spare p) :=
  inferInstanceAs (Decidable (_ ∧ (∀ r < logicalRegCount, _) ∧ ∀ i < robDepth, _ → _))

/-- An instruction with a destination that is handed over in the cycle finds room in the reorder
buffer, and the free list is not down to its last slot, or that slot holds a spare register. -/
def System.RenamesSafely (program : Program) (sys : System) (t : Tick) : Prop :=
  (sys.accepted program t).isSome = true →
    (decodeInst sys.core.frontend.pc (program sys.core.frontend.pc)).writesInt = true →
      sys.core.rob.isFull = false ∧
        (sys.core.rename.intFreeList.count = 1 →
          sys.core.Spare sys.core.rename.intFreeList.front)

instance (program : Program) (sys : System) (t : Tick) :
    Decidable (sys.RenamesSafely program t) :=
  inferInstanceAs (Decidable (_ → _ → _ ∧ (_ → _)))

/-- A spare register, seen from the window. -/
theorem RobInv.spareRegister {s : BoomCoreState} {w : List Inflight} {p : ℕ} (h : RobInv s.rob w)
    (hspare : s.Spare p) : SpareRegister s.rename.intMapTable w p := by
  obtain ⟨hne, hcommitted, hentries⟩ := hspare
  refine ⟨hne, fun x hx ↦ hcommitted x (mem_writableRegs.mp hx).2, fun d hd ↦ ?_⟩
  obtain ⟨k, hk, rfl⟩ := List.getElem_of_mem hd
  have hof := h.entryOf hk
  rw [← hof.stage.rename]
  exact hentries _ (slot_lt (by decide) _) hof.stage.valid

section Cycle

variable {program : Program} {sys : System} {w : List Inflight} {free : List ℕ}
  (h : SysInv sys w)
  (hreg : RegInv sys.core.rename.intMapTable sys.core.rename.intFreeList w free)
  (hfl : FreeInv sys.core.rename.intFreeList) (t : Tick)

include h hreg hfl

/-- Rename and dispatch keep the allocation and the number of registers. -/
theorem SysInv.regInv_atCommit (n : ℕ) (hsafe : sys.RenamesSafely program t)
    (hquiet : sys.core.execute.aluResult.redirects = false) :
    ∃ free', RegInv (sys.atCommit program t).rename.intMapTable
        (sys.atCommit program t).rename.intFreeList (w ++ sys.dispatched program t n) free' ∧
      (Conserved sys.core.rename.intMapTable sys.core.rename.intFreeList w →
        Conserved (sys.atCommit program t).rename.intMapTable
          (sys.atCommit program t).rename.intFreeList (w ++ sys.dispatched program t n)) := by
  cases hacc : sys.accepted program t with
  | none =>
    obtain ⟨hmap, hfree⟩ := h.step.atCommit_rename_of_none t hacc
    rw [hquiet, if_neg Bool.false_ne_true] at hmap
    rw [hmap, hfree, h.step.dispatched_idle t n (Or.inl hacc), List.append_nil]
    exact ⟨free, hreg, id⟩
  | some resp =>
    obtain ⟨hmap, hfree⟩ := h.step.atCommit_rename_of_some t hacc
    have hbase : (decodeInst sys.core.frontend.pc
        (program sys.core.frontend.pc)).rename.pdst = 0 := by rw [decodeInst_rename]
    by_cases hfull : sys.core.rob.isFull = true
    · have hnot : (decodeInst sys.core.frontend.pc
          (program sys.core.frontend.pc)).writesInt = false := by
        by_contra hwrites
        have hroom := (hsafe (by simp [hacc]) (by simpa using hwrites)).1
        rw [hfull] at hroom
        simp at hroom
      obtain ⟨-, -, hmap', hfree'⟩ := (renamedInst_spec sys.core _ _).noDst hnot
      rw [hmap, hfree, hmap', hfree', h.step.dispatched_idle t n (Or.inr hfull), List.append_nil]
      exact ⟨free, hreg, id⟩
    · have hfull' : sys.core.rob.isFull = false := by simpa using hfull
      have hspare : (decodeInst sys.core.frontend.pc
          (program sys.core.frontend.pc)).writesInt = true →
          sys.core.rename.intFreeList.count = 1 →
            SpareRegister sys.core.rename.intMapTable w sys.core.rename.intFreeList.front :=
        fun hwrites hone ↦
          h.window.rob.spareRegister ((hsafe (by simp [hacc]) hwrites).2 hone)
      have hd : (sys.dispatchedResult program t).uop.rename =
          (renameUop (decodeInst sys.core.frontend.pc (program sys.core.frontend.pc))
            sys.core.rename.intMapTable sys.core.rename.intFreeList).1.rename := by
        rw [System.dispatchedResult, dispatchedResult_rename]
        unfold renamedInst
        rw [System.afterMemory_rename]
      rw [hmap, hfree, h.step.dispatched_some t n hacc hfull' h.tail_lt]
      obtain ⟨free', hreg'⟩ := hreg.rename hfl hbase hspare
        (d := { born := n, result := sys.dispatchedResult program t }) hd
      exact ⟨free', hreg', fun hcons ↦ hcons.rename hreg hfl hbase hspare hd⟩

/-- A cycle that renames safely keeps the allocation. The number of registers is kept when a
redirect finds no destination in flight. -/
theorem SysInv.regInv_cycle (n : ℕ) (hsafe : sys.RenamesSafely program t) :
    ∃ free', RegInv (sys.cycle program t).core.rename.intMapTable
        (sys.cycle program t).core.rename.intFreeList (sys.windowStep program t n w) free' ∧
      (Conserved sys.core.rename.intMapTable sys.core.rename.intFreeList w →
        (sys.core.execute.aluResult.redirects = true → assigns w = []) →
          Conserved (sys.cycle program t).core.rename.intMapTable
            (sys.cycle program t).core.rename.intFreeList (sys.windowStep program t n w)) := by
  by_cases hredirects : sys.core.execute.aluResult.redirects = true
  · obtain ⟨hmap, hfree⟩ := h.step.cycle_rename_of_redirects program t hredirects
    have hwindow : sys.windowStep program t n w = [] := by
      unfold System.windowStep
      rw [if_pos hredirects]
    rw [hmap, hfree, hwindow]
    refine ⟨free, hreg.restore, fun hcons hnone ↦ ?_⟩
    unfold Conserved at hcons ⊢
    rw [hnone hredirects] at hcons
    exact hcons
  · have hquiet : sys.core.execute.aluResult.redirects = false := by simpa using hredirects
    obtain ⟨free', hreg', hcons'⟩ := h.regInv_atCommit hreg hfl t n hsafe hquiet
    have hfl' := freeInv_atCommit program h.step t hfl
    by_cases hvalid : (sys.cycle program t).core.rob.commitValid = true
    · obtain ⟨d, w', hret⟩ := h.retires t n hvalid
      rw [hret.before] at hreg' hcons'
      rw [hret.after, hret.rename]
      obtain ⟨free'', hreg''⟩ := hreg'.commitDst hfl' hret.dispatched
      exact ⟨free'', hreg'', fun hcons _ ↦ (hcons' hcons).commitDst hreg' hret.dispatched⟩
    · obtain ⟨-, -, hrename, ⟨hcontra, -⟩ | ⟨-, hstay | ⟨d, w', hw, hafter, hecall⟩⟩⟩ :=
        h.not_retired t n (by simpa using hvalid)
      · rw [hquiet] at hcontra
        simp at hcontra
      · rw [hrename, hstay]
        exact ⟨free', hreg', fun hcons _ ↦ hcons' hcons⟩
      · rw [hw] at hreg' hcons'
        have hrob := (h.atCommit program t n).1.rob
        rw [hw] at hrob
        have hspec := (hrob.entries.head_cell hrob.head_lt).dispatched
        have hassigns := assigns_cons_of_zero (w := w') (hspec.ecall hecall).2
        unfold Conserved at hcons' ⊢
        rw [hassigns] at hcons'
        rw [hrename, hafter]
        exact ⟨free', ⟨hreg'.ring, hreg'.length, hassigns ▸ hreg'.alloc, hassigns ▸ hreg'.map,
          hreg'.bounded, hreg'.unwritten⟩, fun hcons _ ↦ hcons' hcons⟩

end Cycle

/-- Assumes: every cycle before `n` renames safely. The registers are allocated properly. -/
theorem regInv_run (program : Program) (tick : ℕ → Tick) (n : ℕ)
    (hsafe : ∀ m < n, (System.run program tick m).RenamesSafely program (tick m)) :
    ∃ free, RegInv (System.run program tick n).core.rename.intMapTable
      (System.run program tick n).core.rename.intFreeList (System.window program tick n) free := by
  induction n with
  | zero => exact ⟨_, regInv_init⟩
  | succ n ih =>
    obtain ⟨free, hreg⟩ := ih fun m hm ↦ hsafe m (Nat.lt_succ_of_lt hm)
    obtain ⟨free', hreg', -⟩ := (sysInv_run program tick n).regInv_cycle hreg
      (freeInv_run program tick n) (tick n) n (hsafe n (Nat.lt_succ_self n))
    exact ⟨free', hreg'⟩

end BoomCore
