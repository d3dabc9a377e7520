import BoomCore.Proof.Registers
import BoomCore.Proof.Retirement

/-!
# The verdict of an ECALL

Commit takes the verdict of an `ECALL` from the speculative map table, not from the committed one. A
younger instruction that writes `a0` behind the `ECALL` and has been renamed already decides it, and
so does one that a full reorder buffer dropped after it was renamed. In every run in which neither
happens the verdict is the architectural one (`verdict_run`): the entry of `a0` in the map table is
the committed one with the destinations in flight installed (`Replays`), and none of these is for
`a0` behind an `ECALL` that leaves.
-/

set_option autoImplicit false
set_option relaxedAutoImplicit false

namespace BoomCore

open Ring Renaming

/-! ### Statements -/

/-- The number of register `a0`. -/
def a0 : ℕ := 10

/-- The architectural value of `a0`. -/
def BoomCoreState.committedA0 (s : BoomCoreState) : BitVec 64 :=
  readOperand s.intRf (s.rename.intMapTable.committedMapTable a0)

/-- An instruction with the destination `x` that takes a register in the cycle takes a non-zero one
and finds room in the reorder buffer. -/
def System.KeepsName (program : Program) (sys : System) (t : Tick) (x : ℕ) : Prop :=
  (sys.accepted program t).isSome = true →
    (decodeInst sys.core.frontend.pc (program sys.core.frontend.pc)).writesInt = true →
      rdOf (program sys.core.frontend.pc) = x → 0 < sys.core.rename.intFreeList.count →
        sys.core.rob.isFull = false ∧ sys.core.rename.intFreeList.front ≠ 0

instance (program : Program) (sys : System) (t : Tick) (x : ℕ) :
    Decidable (sys.KeepsName program t x) :=
  inferInstanceAs (Decidable (_ → _ → _ → _ → _ ∧ _))

/-- An `ECALL` is at the head when commit looks at it, and it leaves. -/
def System.EcallLeaves (program : Program) (sys : System) (t : Tick) : Prop :=
  sys.core.execute.aluResult.redirects = false ∧
    ((sys.atCommit program t).rob.entries (sys.atCommit program t).rob.head).uop.uopc = .ecall ∧
    (sys.cycle program t).core.rob.head ≠ sys.core.rob.head

instance (program : Program) (sys : System) (t : Tick) : Decidable (sys.EcallLeaves program t) :=
  inferInstanceAs (Decidable (_ ∧ _ ∧ _))

/-- When an `ECALL` leaves, no instruction behind it has the destination `a0`. -/
def System.NothingBehind (program : Program) (sys : System) (t : Tick) : Prop :=
  sys.EcallLeaves program t → ∀ i < robDepth, i ≠ (sys.atCommit program t).rob.head →
    ((sys.atCommit program t).rob.entries i).valid = true →
      ((sys.atCommit program t).rob.entries i).uop.rename.pdst ≠ 0 →
        ((sys.atCommit program t).rob.entries i).uop.rename.ldst ≠ a0

instance (program : Program) (sys : System) (t : Tick) :
    Decidable (sys.NothingBehind program t) :=
  inferInstanceAs (Decidable (_ → ∀ i < robDepth, _ → _ → _ → _))

/-- The verdict of an `ECALL` that leaves is the one of the architectural `a0`. -/
def System.VerdictHolds (program : Program) (sys : System) (t : Tick) : Prop :=
  sys.EcallLeaves program t →
    (sys.cycle program t).core.ioSuccess = decide ((sys.atCommit program t).committedA0 = 0) ∧
      (sys.cycle program t).core.ioTrap = decide ((sys.atCommit program t).committedA0 ≠ 0)

instance (program : Program) (sys : System) (t : Tick) : Decidable (sys.VerdictHolds program t) :=
  inferInstanceAs (Decidable (_ → _ ∧ _))

/-! ### The map table -/

/-- The register of the name `x` is the committed one with the destinations in flight installed. -/
def Replays (mt : RenameMapTableState) (w : List Inflight) (x : ℕ) : Prop :=
  mt.mapTable x = replay mt.committedMapTable (assigns w) x

section Step

variable {mt : RenameMapTableState} {w : List Inflight} {x : ℕ}

/-- A register that is not zero is in flight when its instruction has joined the window. -/
theorem Replays.concat_of_ne {mt' : RenameMapTableState} {d : Inflight}
    (h : Replays mt w x) (hcommitted : mt'.committedMapTable = mt.committedMapTable)
    (hpdst : d.result.uop.rename.pdst ≠ 0)
    (hmap : mt'.mapTable = Function.update mt.mapTable d.result.uop.rename.ldst
      d.result.uop.rename.pdst) : Replays mt' (w ++ [d]) x := by
  unfold Replays at h ⊢
  rw [hmap, hcommitted, assigns_concat_of_ne hpdst, replay_concat, install]
  by_cases hx : x = d.result.uop.rename.ldst
  · rw [hx, Function.update_self, Function.update_self]
  · rw [Function.update_of_ne hx, Function.update_of_ne hx, h]

/-- Renaming an instruction and appending it keeps the register of a name, when the instruction has
another destination or takes a register that is not zero. -/
theorem Replays.rename (h : Replays mt w x) {base : MicroOp} (hbase : base.rename.pdst = 0)
    {fl : RenameFreeListState} {d : Inflight}
    (hd : d.result.uop.rename = (renameUop base mt fl).1.rename)
    (hkeeps : base.writesInt = true → base.rename.ldst = x → 0 < fl.count → fl.front ≠ 0) :
    Replays (renameUop base mt fl).2.1 (w ++ [d]) x := by
  have hren := renameUop_spec base mt fl
  by_cases hwrites : base.writesInt = true
  · obtain ⟨hldst, hpos, hzero⟩ := hren.dst hwrites
    rcases Nat.eq_zero_or_pos fl.count with hcount | hcount
    · obtain ⟨hpdst, hmap, -⟩ := hzero hcount
      unfold Replays at h ⊢
      rw [hmap, assigns_concat_of_zero (by rw [hd, hpdst, hbase])]
      exact h
    · obtain ⟨hpdst, hmap, -⟩ := hpos hcount
      by_cases hfront : fl.front = 0
      · -- Register 0 is taken for another name, and is no destination in flight.
        have hne : x ≠ base.rename.ldst := fun hx ↦ hkeeps hwrites hx.symm hcount hfront
        unfold Replays at h ⊢
        rw [hmap, hren.committed, assigns_concat_of_zero (by rw [hd, hpdst, hfront]),
          Function.update_of_ne hne]
        exact h
      · refine h.concat_of_ne hren.committed (by rw [hd, hpdst]; exact hfront) ?_
        rw [hmap, hd, hldst, hpdst]
  · obtain ⟨hpdst, -, hmap, -⟩ := hren.noDst (by simpa using hwrites)
    unfold Replays at h ⊢
    rw [hmap, assigns_concat_of_zero (by rw [hd, hpdst])]
    exact h

/-- An instruction that is renamed and dropped keeps the register of a name, when it takes none for
it. -/
theorem Replays.drop (h : Replays mt w x) {base : MicroOp} {fl : RenameFreeListState}
    (hkeeps : base.writesInt = true → base.rename.ldst = x → fl.count = 0) :
    Replays (renameUop base mt fl).2.1 w x := by
  have hren := renameUop_spec base mt fl
  unfold Replays at h ⊢
  by_cases hwrites : base.writesInt = true
  · obtain ⟨-, hpos, hzero⟩ := hren.dst hwrites
    rcases Nat.eq_zero_or_pos fl.count with hcount | hcount
    · rw [(hzero hcount).2.1]
      exact h
    · have hne : x ≠ base.rename.ldst := fun hx ↦ by
        have hkept := hkeeps hwrites hx.symm
        omega
      rw [(hpos hcount).2.1, hren.committed, Function.update_of_ne hne]
      exact h
  · rw [(hren.noDst (by simpa using hwrites)).2.2.1]
    exact h

/-- The oldest instruction retires. -/
theorem Replays.commitDst {ren : RenameState} {d : Inflight}
    (h : Replays ren.intMapTable (d :: w) x) :
    Replays (ren.commitDst d.result.uop).intMapTable w x := by
  have hmap : (ren.commitDst d.result.uop).intMapTable.mapTable = ren.intMapTable.mapTable := by
    unfold RenameState.commitDst
    split_ifs <;> rfl
  unfold Replays at h ⊢
  rw [hmap, RenameState.commitDst_committed, h]
  split_ifs with hpdst
  · rw [assigns_cons_of_ne hpdst]
    rfl
  · rw [assigns_cons_of_zero (not_not.mp hpdst)]

end Step

/-! ### A cycle -/

section Cycle

variable {program : Program} {sys : System} {w : List Inflight} (h : SysInv sys w) (t : Tick)
  {x : ℕ}

include h

/-- Rename and dispatch keep the register of a name. -/
theorem SysInv.replays_atCommit (n : ℕ) (hmap : Replays sys.core.rename.intMapTable w x)
    (hquiet : sys.core.execute.aluResult.redirects = false) (hkeeps : sys.KeepsName program t x) :
    Replays (sys.atCommit program t).rename.intMapTable (w ++ sys.dispatched program t n) x := by
  cases hacc : sys.accepted program t with
  | none =>
    rw [(h.step.atCommit_rename_of_none t hacc).1, hquiet, if_neg Bool.false_ne_true,
      h.step.dispatched_idle t n (Or.inl hacc), List.append_nil]
    exact hmap
  | some resp =>
    have hbase : (decodeInst sys.core.frontend.pc (program sys.core.frontend.pc)).rename =
        { lrs1 := rs1Of (program sys.core.frontend.pc)
          lrs2 := rs2Of (program sys.core.frontend.pc)
          ldst := rdOf (program sys.core.frontend.pc)
          dstRtype := (decodeInst sys.core.frontend.pc
            (program sys.core.frontend.pc)).rename.dstRtype } := decodeInst_rename _ _
    rw [(h.step.atCommit_rename_of_some t hacc).1]
    unfold renamedInst
    by_cases hfull : sys.core.rob.isFull = true
    · rw [h.step.dispatched_idle t n (Or.inr hfull), List.append_nil]
      refine hmap.drop fun hwrites hx ↦ ?_
      rw [hbase] at hx
      by_contra hcount
      have hroom := (hkeeps (by simp [hacc]) hwrites hx (Nat.pos_of_ne_zero hcount)).1
      rw [hfull] at hroom
      simp at hroom
    · rw [h.step.dispatched_some t n hacc (by simpa using hfull) h.tail_lt]
      refine hmap.rename (by rw [hbase]) ?_ fun hwrites hx hcount ↦ ?_
      · rw [System.dispatchedResult, dispatchedResult_rename]
        unfold renamedInst
        rw [System.afterMemory_rename]
      · rw [hbase] at hx
        exact (hkeeps (by simp [hacc]) hwrites hx hcount).2

theorem SysInv.replays_cycle (n : ℕ) (hmap : Replays sys.core.rename.intMapTable w x)
    (hkeeps : sys.KeepsName program t x) :
    Replays (sys.cycle program t).core.rename.intMapTable (sys.windowStep program t n w) x := by
  by_cases hredirects : sys.core.execute.aluResult.redirects = true
  · have hwindow : sys.windowStep program t n w = [] := by
      unfold System.windowStep
      rw [if_pos hredirects]
    rw [(h.step.cycle_rename_of_redirects program t hredirects).1, hwindow]
    rfl
  · have hquiet : sys.core.execute.aluResult.redirects = false := by simpa using hredirects
    have hat := h.replays_atCommit t n hmap hquiet hkeeps
    by_cases hvalid : (sys.cycle program t).core.rob.commitValid = true
    · obtain ⟨d, w', hret⟩ := h.retires t n hvalid
      rw [hret.before] at hat
      rw [hret.after, hret.rename]
      exact hat.commitDst
    · obtain ⟨-, -, hrename, ⟨hcontra, -⟩ | ⟨-, hstay | ⟨d, w', hw, hafter, hecall⟩⟩⟩ :=
        h.not_retired t n (by simpa using hvalid)
      · rw [hquiet] at hcontra
        simp at hcontra
      · rw [hrename, hstay]
        exact hat
      · have hrob := (h.atCommit program t n).1.rob
        rw [hw] at hat hrob
        have hpdst := (hrob.head.2.dispatched.ecall hecall).2
        unfold Replays at hat ⊢
        rw [assigns_cons_of_zero hpdst] at hat
        rw [hrename, hafter]
        exact hat

/-- Nothing behind the `ECALL` writes `a0`, so the map table and the committed map agree on it. -/
theorem SysInv.mapTable_of_ecall (hmap : Replays sys.core.rename.intMapTable w a0)
    (hkeeps : sys.KeepsName program t a0) (hbehind : sys.NothingBehind program t)
    (hleaves : sys.EcallLeaves program t) :
    (sys.atCommit program t).rename.intMapTable.mapTable a0 =
      (sys.atCommit program t).rename.intMapTable.committedMapTable a0 := by
  have hat := h.replays_atCommit t 0 hmap hleaves.1 hkeeps
  have hrob := (h.atCommit program t 0).1.rob
  unfold Replays at hat
  rw [hat]
  refine replay_of_forall_ne _ fun a ha ↦ ?_
  obtain ⟨d, hd, hassign⟩ := List.mem_filterMap.mp ha
  obtain ⟨k, hk, rfl⟩ := List.getElem_of_mem hd
  have hof := hrob.entryOf hk
  unfold Inflight.assign at hassign
  split_ifs at hassign with hpdst
  obtain rfl := Option.some.inj hassign
  have hne : slot robDepth (sys.atCommit program t).rob.head k ≠
      (sys.atCommit program t).rob.head := by
    intro heq
    have hecall := hleaves.2.1
    rw [← heq, hof.stage.uopc] at hecall
    exact hpdst (hof.dispatched.ecall hecall).2
  have hname := hbehind hleaves _ (slot_lt (by decide) _) hne hof.stage.valid
  rw [hof.stage.rename] at hname
  exact hname hpdst

/-- The outputs of the step in which an `ECALL` leaves. -/
theorem SysInv.verdict_of_ecall (hleaves : sys.EcallLeaves program t) :
    (sys.cycle program t).core.ioSuccess =
        decide (ecallVerdict (sys.atCommit program t) = 0) ∧
      (sys.cycle program t).core.ioTrap =
        decide (ecallVerdict (sys.atCommit program t) ≠ 0) := by
  obtain ⟨hquiet, hecall, hmoves⟩ := hleaves
  obtain ⟨-, htrap, hsuccess⟩ := h.step.atCommit_flags program t
  have hrob := (h.atCommit program t 0).1.rob
  have hhead := h.atCommit_head program t
  have hcore : (sys.cycle program t).core = (sys.coreStep program t).1 := rfl
  generalize hout : sys.coreStep program t = out at hcore
  have houtcome := h.outcome program t 0 hquiet
  rw [hout] at houtcome
  have hspec : ∀ d w', w ++ sys.dispatched program t 0 = d :: w' →
      DispatchedSpec d.result ∧ d.result.uop.uopc = .ecall := by
    intro d w' hw
    rw [hw] at hrob
    obtain ⟨hspec, -, hstage⟩ := hrob.head.2
    exact ⟨hspec, by rw [← hstage.uopc]; exact hecall⟩
  cases houtcome with
  | stall =>
    rw [hcore] at hmoves
    exact absurd hhead hmoves
  | exception d w' hw =>
    rw [hcore]
    unfold commitException
    rw [if_pos hecall]
    dsimp only
    rw [htrap, hsuccess]
    by_cases hzero : ecallVerdict (sys.atCommit program t) = 0 <;> simp [hzero]
  | store d w' hw hstore =>
    obtain ⟨hspec', hcode⟩ := hspec d w' hw
    rw [hspec'.store, (hspec'.ecall hcode).1] at hstore
    simp at hstore
  | retire d w' hw hretire =>
    obtain ⟨hspec', hcode⟩ := hspec d w' hw
    have hexc := hretire.exception hspec'
    rw [(hspec'.ecall hcode).1] at hexc
    simp at hexc

end Cycle

/-! ### Runs -/

section Runs

variable (program : Program) (tick : ℕ → Tick)

theorem replays_run {x : ℕ} (n : ℕ)
    (hkeeps : ∀ m < n, (System.run program tick m).KeepsName program (tick m) x) :
    Replays (System.run program tick n).core.rename.intMapTable
      (System.window program tick n) x := by
  induction n with
  | zero => rfl
  | succ n ih =>
    exact (sysInv_run program tick n).replays_cycle (tick n) n
      (ih fun m hm ↦ hkeeps m (Nat.lt_succ_of_lt hm)) (hkeeps n (Nat.lt_succ_self n))

/-- Assumes: in every step up to `n`, an instruction with the destination `a0` that takes a register
takes a non-zero one and finds room in the reorder buffer, and when an `ECALL` leaves nothing behind
it has the destination `a0`. The verdict in step `n` is the architectural one. -/
theorem verdict_run (n : ℕ)
    (hkeeps : ∀ m ≤ n, (System.run program tick m).KeepsName program (tick m) a0 ∧
      (System.run program tick m).NothingBehind program (tick m)) :
    (System.run program tick n).VerdictHolds program (tick n) := by
  intro hleaves
  have hinv := sysInv_run program tick n
  have hmap := replays_run program tick n fun m hm ↦ (hkeeps m hm.le).1
  obtain ⟨hname, hbehind⟩ := hkeeps n (Nat.le_refl n)
  have htable := hinv.mapTable_of_ecall (tick n) hmap hname hbehind hleaves
  have hverdict : ecallVerdict ((System.run program tick n).atCommit program (tick n)) =
      ((System.run program tick n).atCommit program (tick n)).committedA0 := by
    unfold ecallVerdict BoomCoreState.committedA0
    rw [← htable]
    rfl
  rw [← hverdict]
  exact hinv.verdict_of_ecall (tick n) hleaves

end Runs

/-! ### A verdict of a younger instruction -/

/-- `LD x1, 0(x0)`, `ECALL` and `ADDI x10, x0, 1`, and `ADDI x0, x0, 0` behind them. -/
def loadThenEcall : Program :=
  .ofWords [0x00003083#32, 0x00000073#32, 0x00100513#32] 0x00000013#32

/-- The same without the `ADDI x10, x0, 1`. -/
def loadThenEcallOnly : Program :=
  .ofWords [0x00003083#32, 0x00000073#32] 0x00000013#32

/-- Every fetch is answered in the next step; the load is answered in step 8. -/
def answeredInEight : ℕ → Tick := fun n ↦
  { Tick.fetch with dmemResp := if n = 8 then some { transactionId := 1 } else none }

set_option maxRecDepth 100000 in
/-- The `ECALL` leaves in step 9 with the architectural `a0` zero, and `io_trap` is raised: the
`ADDI` behind it has been renamed and executed. -/
theorem loadThenEcall_verdict :
    (System.run loadThenEcall answeredInEight 9).EcallLeaves loadThenEcall (answeredInEight 9) ∧
      ((System.run loadThenEcall answeredInEight 9).atCommit loadThenEcall
        (answeredInEight 9)).committedA0 = 0 ∧
      (System.run loadThenEcall answeredInEight 10).core.ioTrap = true ∧
      ¬ (System.run loadThenEcall answeredInEight 9).VerdictHolds loadThenEcall
        (answeredInEight 9) := by
  refine ⟨?_, ?_, ?_, ?_⟩ <;> decide +kernel

set_option maxRecDepth 100000 in
/-- `verdict_run` without the `ADDI`. -/
theorem verdict_run_loadThenEcallOnly :
    (System.run loadThenEcallOnly answeredInEight 9).EcallLeaves loadThenEcallOnly
        (answeredInEight 9) ∧
      (System.run loadThenEcallOnly answeredInEight 9).VerdictHolds loadThenEcallOnly
        (answeredInEight 9) :=
  ⟨by decide +kernel, verdict_run loadThenEcallOnly answeredInEight 9 (by decide +kernel)⟩

end BoomCore
