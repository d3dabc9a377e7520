import BoomCore.Proof.Allocation

/-!
# Registers after a redirect

A redirect restores the map table from the committed map and drops the window, but it gives nothing
back to the free list: the destination of every instruction that it drops is lost for good. In a
run in which no redirect finds a destination in flight, and in which renaming is safe, every
redirect leaves all registers in the free list and in the committed map (`registersReclaimed_run`).
-/

set_option autoImplicit false
set_option relaxedAutoImplicit false

namespace BoomCore

open Renaming

/-- The number of distinct non-zero entries of the committed map. -/
def BoomCoreState.committedCount (s : BoomCoreState) : ℕ :=
  (((Finset.range logicalRegCount).image s.rename.intMapTable.committedMapTable).erase 0).card

/-- Every register but register zero is in the free list or in the committed map. -/
def BoomCoreState.RegistersReclaimed (s : BoomCoreState) : Prop :=
  s.rename.intFreeList.count + s.committedCount = intPhysRegs - 1

instance (s : BoomCoreState) : Decidable s.RegistersReclaimed :=
  inferInstanceAs (Decidable (_ = _))

/-- A redirect that is processed in the cycle finds no destination register in flight. -/
def System.RedirectsClean (sys : System) : Prop :=
  sys.core.execute.aluResult.redirects = true → ∀ i < robDepth,
    (sys.core.rob.entries i).valid = true → (sys.core.rob.entries i).uop.rename.pdst = 0

instance (sys : System) : Decidable sys.RedirectsClean :=
  inferInstanceAs (Decidable (_ → ∀ i < robDepth, _ → _))

/-- The committed registers are distinct, so they can be counted by name. -/
theorem RegInv.committedCount_eq {s : BoomCoreState} {w : List Inflight} {free : List ℕ}
    (h : RegInv s.rename.intMapTable s.rename.intFreeList w free) :
    s.committedCount =
      (mapped IsReg writableRegs s.rename.intMapTable.committedMapTable).card := by
  have hreg : ∀ x, s.rename.intMapTable.committedMapTable x ≠ 0 →
      IsReg (s.rename.intMapTable.committedMapTable x) := fun x hx ↦ ⟨hx, h.bounded x⟩
  have himage : ((Finset.range logicalRegCount).image
      s.rename.intMapTable.committedMapTable).erase 0 =
        (mapped IsReg writableRegs s.rename.intMapTable.committedMapTable).image
          s.rename.intMapTable.committedMapTable := by
    ext p
    simp only [Finset.mem_erase, Finset.mem_image, Finset.mem_range, mapped, Finset.mem_filter]
    constructor
    · rintro ⟨hp, x, hx, rfl⟩
      exact ⟨x, ⟨h.mem_writableRegs_of_ne hp, hreg x hp⟩, rfl⟩
    · rintro ⟨x, ⟨hx, hxreg⟩, rfl⟩
      exact ⟨hxreg.1, x, (mem_writableRegs.mp hx).2, rfl⟩
  unfold BoomCoreState.committedCount
  rw [himage]
  refine Finset.card_image_of_injOn fun x hx y _ hxy ↦ ?_
  exact h.alloc.injective x y (Finset.mem_filter.mp hx).2 hxy

/-- Without a valid entry that has a destination no assignment is in flight. -/
theorem RobInv.assigns_eq_nil {rob : RobInternalState} {w : List Inflight} (h : RobInv rob w)
    (hclean : ∀ i < robDepth, (rob.entries i).valid = true →
      (rob.entries i).uop.rename.pdst = 0) : assigns w = [] := by
  refine List.filterMap_eq_nil_iff.mpr fun d hd ↦ ?_
  obtain ⟨k, hk, rfl⟩ := List.getElem_of_mem hd
  have hof := h.entryOf hk
  have hzero := hclean _ (Ring.slot_lt (by decide) _) hof.stage.valid
  rw [hof.stage.rename] at hzero
  unfold Inflight.assign
  rw [if_neg (not_not.mpr hzero)]

section Runs

variable (program : Program) (tick : ℕ → Tick)

/-- Assumes: the cycles before `n` rename safely and their redirects are clean. No register is
lost. -/
theorem conserved_run (n : ℕ)
    (hsafe : ∀ m < n, (System.run program tick m).RenamesSafely program (tick m))
    (hclean : ∀ m < n, (System.run program tick m).RedirectsClean) :
    Conserved (System.run program tick n).core.rename.intMapTable
      (System.run program tick n).core.rename.intFreeList (System.window program tick n) := by
  induction n with
  | zero => exact conserved_init
  | succ n ih =>
    have hcons := ih (fun m hm ↦ hsafe m (Nat.lt_succ_of_lt hm))
      fun m hm ↦ hclean m (Nat.lt_succ_of_lt hm)
    obtain ⟨free, hreg⟩ := regInv_run program tick n fun m hm ↦ hsafe m (Nat.lt_succ_of_lt hm)
    have hinv := sysInv_run program tick n
    obtain ⟨free', -, hcons'⟩ := hinv.regInv_cycle hreg (freeInv_run program tick n) (tick n) n
      (hsafe n (Nat.lt_succ_self n))
    exact hcons' hcons fun hredirects ↦
      hinv.window.rob.assigns_eq_nil (hclean n (Nat.lt_succ_self n) hredirects)

/-- Assumes: the cycles up to `n` rename safely and their redirects are clean. A redirect that is
processed in cycle `n` leaves all registers in the free list and in the committed map. -/
theorem registersReclaimed_run (n : ℕ)
    (hsafe : ∀ m ≤ n, (System.run program tick m).RenamesSafely program (tick m))
    (hclean : ∀ m ≤ n, (System.run program tick m).RedirectsClean)
    (hredirects : (System.run program tick n).core.execute.aluResult.redirects = true) :
    (System.run program tick (n + 1)).core.RegistersReclaimed := by
  have hcons := conserved_run program tick (n + 1) (fun m hm ↦ hsafe m (Nat.le_of_lt_succ hm))
    fun m hm ↦ hclean m (Nat.le_of_lt_succ hm)
  obtain ⟨free, hreg⟩ := regInv_run program tick (n + 1)
    fun m hm ↦ hsafe m (Nat.le_of_lt_succ hm)
  have hwindow : System.window program tick (n + 1) = [] := by
    show System.windowStep _ _ _ _ _ = []
    unfold System.windowStep
    rw [if_pos hredirects]
  unfold Conserved at hcons
  unfold BoomCoreState.RegistersReclaimed
  rw [hreg.committedCount_eq, ← hcons, hwindow]
  rfl

end Runs

/-! ### A register that is lost -/

set_option maxRecDepth 100000 in
/-- The load in front of the jump has taken register one. After the redirect 50 registers are free
and none is committed. -/
theorem loadThenJump_loses_register :
    (System.run loadThenJump (fun _ ↦ .fetch) 4).core.execute.aluResult.redirects = true ∧
      ¬ (System.run loadThenJump (fun _ ↦ .fetch) 5).core.RegistersReclaimed := by
  decide +kernel

/-- `JAL x1, 8` at the reset vector, and `ADDI x0, x0, 0` behind it. -/
def jump : Program := .ofWords [0x008000EF#32] 0x00000013#32

set_option maxRecDepth 100000 in
/-- `registersReclaimed_run` for the redirect of a jump in an empty reorder buffer. -/
theorem registersReclaimed_jump :
    (System.run jump (fun _ ↦ .fetch) (2 + 1)).core.RegistersReclaimed := by
  refine registersReclaimed_run jump (fun _ ↦ .fetch) 2 (fun m hm ↦ ?_) (fun m hm ↦ ?_)
    (by decide +kernel)
  · have hlt : m < 3 := Nat.lt_succ_of_le hm
    clear hm
    revert m
    decide +kernel
  · have hlt : m < 3 := Nat.lt_succ_of_le hm
    clear hm
    revert m
    decide +kernel

end BoomCore
