import BoomCore.Proof.Retirement

/-!
# Destinations without a register

An instruction with an integer destination takes the register at the front of the free list. When
the list is empty, and when the front holds register zero, it is dispatched all the same with the
destination register zero, and its write is lost. In a run in which every instruction that is
dispatched finds a register (`System.FindsRegister`), every destination is kept up to the committed
map.
-/

set_option autoImplicit false
set_option relaxedAutoImplicit false

namespace BoomCore

/-! ### Statements -/

/-- The entry belongs to an instruction that writes an integer register. -/
def RobEntry.WritesInt (e : RobEntry) : Prop :=
  e.uop.rename.dstRtype = .int ∧ e.exception = false ∧ rdOf e.uop.inst ≠ 0

namespace System

variable (program : Program) (sys : System) (t : Tick)

/-- The instruction that is allocated in the cycle finds a free register for its destination. -/
def FindsRegister : Prop :=
  (sys.accepted program t).isSome = true → sys.core.rob.isFull = false →
    (decodeInst sys.core.frontend.pc (program sys.core.frontend.pc)).writesInt = true →
    (decodeInst sys.core.frontend.pc (program sys.core.frontend.pc)).exception = false →
      0 < sys.core.rename.intFreeList.count ∧ sys.core.rename.intFreeList.front ≠ 0

instance : Decidable (sys.FindsRegister program t) :=
  inferInstanceAs (Decidable (_ → _ → _ → _ → _ ∧ _))

/-- No destination is dropped. `entries`: every valid entry that writes an integer register has one.
`record`, `installed`: when the cycle retires such an entry, its record has a destination, and the
committed map has its register. -/
structure KeepsDestinations : Prop where
  entries : ∀ i < robDepth, (sys.core.rob.entries i).valid = true →
    (sys.core.rob.entries i).WritesInt → (sys.core.rob.entries i).uop.rename.pdst ≠ 0
  record : (sys.cycle program t).core.rob.commitValid = true →
    ((sys.atCommit program t).rob.entries sys.core.rob.head).WritesInt →
      (sys.cycle program t).core.rob.lastCommit.rdValid = true
  installed : (sys.cycle program t).core.rob.commitValid = true →
    ((sys.atCommit program t).rob.entries sys.core.rob.head).WritesInt →
      (sys.cycle program t).core.rename.intMapTable.committedMapTable
          (rdOf ((sys.atCommit program t).rob.entries sys.core.rob.head).uop.inst) =
        ((sys.atCommit program t).rob.entries sys.core.rob.head).uop.rename.pdst

end System

/-! ### The invariant -/

/-- The instruction has a register for its integer destination. -/
def Inflight.HasRegister (d : Inflight) : Prop :=
  d.result.uop.exception = false → d.result.uop.rename.dstRtype = .int →
    rdOf d.result.uop.inst ≠ 0 → d.result.uop.rename.pdst ≠ 0

section Cycle

variable {program : Program} {sys : System} {w : List Inflight} (h : SysInv sys w) (t : Tick)
  (n : ℕ)

include h

/-- Assumes: the instruction of the cycle finds a register. It gets one. -/
theorem SysInv.dispatched_hasRegister (hfinds : sys.FindsRegister program t) :
    ∀ d ∈ sys.dispatched program t n, d.HasRegister := by
  intro d hd
  rcases System.idle_or_accepts program sys t with hidle | ⟨resp, hacc, hfull⟩
  · rw [h.step.dispatched_idle t n hidle] at hd
    simp at hd
  · rw [h.step.dispatched_some t n hacc hfull h.tail_lt, List.mem_singleton] at hd
    rw [hd]
    intro hexc hint hrd
    have hinst : (sys.dispatchedResult program t).uop.inst = program sys.core.frontend.pc :=
      dispatchedResult_inst _ _ _
    have hren := renamedInst_spec (sys.afterMemory program t).1 sys.core.frontend.pc
      (program sys.core.frontend.pc)
    have hrename := dispatchedResult_rename (sys.afterMemory program t).1 sys.core.frontend.pc
      (program sys.core.frontend.pc)
    rw [System.afterMemory_rename] at hren
    have hldst : (decodeInst sys.core.frontend.pc (program sys.core.frontend.pc)).rename.ldst =
        rdOf (program sys.core.frontend.pc) := by
      rw [decodeInst_rename]
    have hwrites :
        (decodeInst sys.core.frontend.pc (program sys.core.frontend.pc)).writesInt = true := by
      rw [hinst] at hrd
      have hint' : (sys.dispatchedResult program t).uop.rename.dstRtype = .int := hint
      rw [System.dispatchedResult, hrename, hren.dstRtype] at hint'
      simp [MicroOp.writesInt, hint', hldst, hrd]
    have hdecoded :
        (decodeInst sys.core.frontend.pc (program sys.core.frontend.pc)).exception = false := by
      rw [← dispatchedResult_exception (sys.afterMemory program t).1]
      exact hexc
    obtain ⟨hcount, hfront⟩ := hfinds (by simp [hacc]) hfull hwrites hdecoded
    have hpdst := ((hren.dst hwrites).2.1 hcount).1
    show (sys.dispatchedResult program t).uop.rename.pdst ≠ 0
    rw [System.dispatchedResult, hrename, hpdst]
    exact hfront

end Cycle

/-- The destination of an instruction that has a register, in its entry. -/
theorem Inflight.HasRegister.entry {d : Inflight} {e : RobEntry} (h : d.HasRegister)
    (hspec : DispatchedSpec d.result) (hstage : Stage d.result e) (hwrites : e.WritesInt) :
    e.uop.rename.pdst ≠ 0 ∧ d.result.uop.rename.ldst = rdOf e.uop.inst := by
  obtain ⟨hint, hexc, hrd⟩ := hwrites
  rw [hstage.rename] at hint ⊢
  rw [hstage.inst] at hrd ⊢
  exact ⟨h (hstage.decoded_of_not_exception hexc) hint hrd, hspec.ldst hint hrd⟩

section Runs

variable (program : Program) (tick : ℕ → Tick)

/-- Assumes: every cycle before `n` finds a register for what it allocates. Every instruction in
flight has one. -/
theorem hasRegister_window (n : ℕ)
    (hfinds : ∀ m < n, (System.run program tick m).FindsRegister program (tick m)) :
    ∀ d ∈ System.window program tick n, d.HasRegister := by
  induction n with
  | zero =>
    intro d hd
    simp [System.window] at hd
  | succ n ih =>
    intro d hd
    have hmem := System.mem_of_mem_windowStep program (System.run program tick n) (tick n) hd
    rcases List.mem_append.mp hmem with hold | hnew
    · exact ih (fun m hm ↦ hfinds m (Nat.lt_succ_of_lt hm)) d hold
    · exact (sysInv_run program tick n).dispatched_hasRegister (tick n) n
        (hfinds n (Nat.lt_succ_self n)) d hnew

/-- Assumes: every cycle up to `n` finds a register for what it allocates. Before cycle `n` no
destination is lost, and none is lost in it. -/
theorem keepsDestinations_run (n : ℕ)
    (hfinds : ∀ m ≤ n, (System.run program tick m).FindsRegister program (tick m)) :
    (System.run program tick n).KeepsDestinations program (tick n) := by
  have hinv := sysInv_run program tick n
  have hwindow := hasRegister_window program tick n fun m hm ↦ hfinds m hm.le
  have hnew := hinv.dispatched_hasRegister (tick n) n (hfinds n le_rfl)
  have hhead := hinv.atCommit_head program (tick n)
  -- What retires in the cycle has a register, whether it was in flight or is dispatched in it.
  have hretired : ((System.run program tick n).cycle program (tick n)).core.rob.commitValid =
      true → ∃ d w', Retires program (System.run program tick n) (tick n) n
        (System.window program tick n) d w' ∧ d.HasRegister := by
    intro hcommit
    obtain ⟨d, w', hret⟩ := hinv.retires (tick n) n hcommit
    refine ⟨d, w', hret, ?_⟩
    have hmem : d ∈ System.window program tick n ++
        (System.run program tick n).dispatched program (tick n) n := by
      rw [hret.before]
      exact List.mem_cons_self
    rcases List.mem_append.mp hmem with hold | hin
    · exact hwindow d hold
    · exact hnew d hin
  refine ⟨fun i hi hvalid hwrites ↦ ?_, fun hcommit hwrites ↦ ?_, fun hcommit hwrites ↦ ?_⟩
  · obtain ⟨k, hk, rfl⟩ := hinv.window.rob.of_valid hi hvalid
    have hof := hinv.window.rob.entryOf hk
    exact ((hwindow _ (List.getElem_mem hk)).entry hof.dispatched hof.stage hwrites).1
  · obtain ⟨d, w', hret, hreg⟩ := hretired hcommit
    rw [← hhead] at hwrites
    have hpdst := (hreg.entry hret.dispatched hret.retirable.stage hwrites).1
    rw [hret.record]
    show MicroOp.rdValid _ = true
    unfold MicroOp.rdValid
    rw [decide_eq_true hwrites.1, decide_eq_true hpdst]
    rfl
  · obtain ⟨d, w', hret, hreg⟩ := hretired hcommit
    rw [← hhead] at hwrites ⊢
    obtain ⟨hpdst, hldst⟩ := hreg.entry hret.dispatched hret.retirable.stage hwrites
    rw [hret.retirable.stage.rename] at hpdst
    rw [hret.rename, hret.retirable.stage.rename]
    unfold RenameState.commitDst
    rw [if_pos hpdst]
    dsimp only
    rw [← hldst, Function.update_self]

end Runs

/-! ### A run that finds none -/

/-- Instruction `k` from the reset vector on: `ADDI x(k+1), x0, k` for the first twenty, `LD x21,
0(x0)`, and then `ADDI x(k % 19 + 1), x0, 1`. -/
def exhaustRegisters : Program := fun address ↦
  let k := ((address - resetVector) >>> 2).toNat
  if k < 20 then 0x00000013#32 ||| BitVec.ofNat 32 (k + 1) <<< 7 ||| BitVec.ofNat 32 k <<< 20
  else if k = 20 then 0x00003A83#32
  else 0x00100013#32 ||| BitVec.ofNat 32 (k % 19 + 1) <<< 7

set_option maxRecDepth 100000 in
theorem exhaustRegisters_entry :
    let e := (System.run exhaustRegisters (fun _ ↦ .fetch) 104).core.rob.entries 19
    e.valid = true ∧ (e.uop.rename.dstRtype = .int ∧ e.exception = false ∧ rdOf e.uop.inst ≠ 0) ∧
      e.uop.rename.pdst = 0 := by
  decide +kernel

/-- With the load waiting for its response, the last of the instructions behind it finds the free
list empty and is in flight without a destination. -/
theorem exhaustRegisters_drops :
    ¬ (System.run exhaustRegisters (fun _ ↦ .fetch) 104).KeepsDestinations exhaustRegisters
      .fetch := by
  obtain ⟨hvalid, hwrites, hpdst⟩ := exhaustRegisters_entry
  exact fun hkeeps ↦ hkeeps.entries 19 (by decide) hvalid hwrites hpdst

set_option maxRecDepth 100000 in
/-- `keepsDestinations_run` for the first cycles of the same run. -/
theorem keepsDestinations_exhaustRegisters :
    (System.run exhaustRegisters (fun _ ↦ .fetch) 3).KeepsDestinations exhaustRegisters
      .fetch := by
  refine keepsDestinations_run exhaustRegisters (fun _ ↦ .fetch) 3 fun m hm ↦ ?_
  have hlt : m < 4 := Nat.lt_succ_of_le hm
  clear hm
  revert m
  decide +kernel

end BoomCore
