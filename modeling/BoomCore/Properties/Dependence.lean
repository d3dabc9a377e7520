import BoomCore.Proof.Writeback
import BoomCore.Library.Run

/-!
# Operands and their producers

The producer of a source operand is the last instruction that was renamed to its physical register.
An instruction is executed in the cycle in which it is handed over, whatever its sources wait for:
the busy bits are never set. So an operand is the value of its producer when the producer is not a
load that still waits for its response (`operandsWritten_run`), and otherwise it need not be.
-/

set_option autoImplicit false
set_option relaxedAutoImplicit false

namespace BoomCore

open Ring Renaming

/-! ### Operands that are used -/

namespace MicroOp

/-- `execute_module` uses the first source operand of the uop. -/
def usesRs1 (uop : MicroOp) : Bool :=
  match uop.uopc with
  | .add | .addi | .sub | .sll | .slli | .slt | .slti | .xor | .xori | .sra | .srai | .or | .ori
  | .and | .andi => decide (uop.ctrl.op1Sel ≠ .pc)
  | .sltu | .sltiu | .srl | .srli | .addw | .addiw | .subw | .sllw | .slliw | .sraw | .sraiw
  | .mul | .jalr | .beq | .bne | .blt | .bge | .bltu | .bgeu
  | .lb | .lh | .lw | .ld | .lbu | .lhu | .lwu | .sb | .sh | .sw | .sd => true
  | _ => false

/-- `execute_module` uses the second source operand of the uop. -/
def usesRs2 (uop : MicroOp) : Bool :=
  match uop.uopc with
  | .add | .addi | .sub | .sll | .slli | .slt | .slti | .xor | .xori | .srl | .srli | .sra | .srai
  | .or | .ori | .and | .andi =>
    decide (uop.ctrl.op2Sel ≠ .imm ∧ uop.ctrl.op2Sel ≠ .imz ∧ uop.ctrl.op2Sel ≠ .imu)
  | .sltu | .sltiu | .subw | .mul | .beq | .bne | .blt | .bge | .bltu | .bgeu
  | .sb | .sh | .sw | .sd => true
  | _ => false

variable (uop : MicroOp)

/-- An operand that is not used has no influence on the result. -/
theorem executeSwitch_rs1 (h : uop.usesRs1 = false) (a a' b : BitVec 64) :
    uop.executeSwitch a b = uop.executeSwitch a' b := by
  have hop1 : uop.ctrl.op1Sel = .pc → uop.op1 a = uop.op1 a' := fun hsel ↦ by simp [op1, hsel]
  cases huopc : uop.uopc <;> simp_all [usesRs1, executeSwitch]

theorem executeSwitch_rs2 (h : uop.usesRs2 = false) (a b b' : BitVec 64) :
    uop.executeSwitch a b = uop.executeSwitch a b' := by
  have hop2 : (uop.ctrl.op2Sel ≠ .imm ∧ uop.ctrl.op2Sel ≠ .imz → uop.ctrl.op2Sel = .imu) →
      uop.op2 b = uop.op2 b' := fun hsel ↦ by
    unfold op2
    cases hcase : uop.ctrl.op2Sel <;> simp_all
  cases huopc : uop.uopc <;> simp_all [usesRs2, executeSwitch, shamt6]

end MicroOp

/-! ### Producers -/

/-- The uop that decode and rename handle in a cycle, also when the reorder buffer drops it. -/
def System.renamed (program : Program) (sys : System) (t : Tick) : Option MicroOp :=
  let s := sys.beforeCommit program t
  if s.decode.decValid then some s.rename.renamedUop else none

section Statements

variable (program : Program) (tick : ℕ → Tick)

/-- The result of the instruction that is executed in cycle `n`. -/
def executed (n : ℕ) : AluResult := (System.run program tick (n + 1)).core.execute.aluResult

/-- The cycle of the youngest instruction before cycle `n` whose destination is the physical
register `p`. -/
def producer (p n : ℕ) : Option ℕ :=
  Run.lastEvent (fun m ↦ (System.run program tick m).renamed program (tick m))
    (fun uop ↦ decide (uop.rename.pdst = p)) n

/-- The instruction of cycle `m` has written the value `v` to its register before cycle `n`: its
result in cycle `m`, or, for a load, the value of a response that its cell received while no other
instruction had been allocated there. -/
inductive Wrote (m n : ℕ) (v : BitVec 64) : Prop
  | result (hlt : m < n) (hvalid : (executed program tick m).valid = true)
      (hload : (executed program tick m).isLoad = false)
      (hint : (executed program tick m).uop.rename.dstRtype = .int)
      (hv : (executed program tick m).result = v)
  | load (hvalid : (executed program tick m).valid = true)
      (hload : (executed program tick m).isLoad = true) (j : ℕ) (hlt : m < j) (hj : j < n)
      (hv : (System.run program tick j).delivery (tick j) =
        some ((executed program tick m).uop.queue.robIdx, v))
      (halone : ∀ k, m < k → k < j → (executed program tick k).valid = true →
        (executed program tick k).uop.queue.robIdx ≠ (executed program tick m).uop.queue.robIdx)

/-- What the physical register `p` holds when the instruction of cycle `n` is executed: between the
load/store unit and `execute_module` nothing writes the register file. -/
def operand (n p : ℕ) : BitVec 64 :=
  ((System.run program tick n).afterMemory program (tick n)).1.intRf p

/-- The producer of the register `p` has written the value that cycle `n` reads. -/
def OperandWritten (n p : ℕ) : Prop :=
  ∃ m, producer program tick p n = some m ∧ Wrote program tick m (n + 1) (operand program tick n p)

/-- The producers of all operands that the instruction of cycle `n` uses have written. -/
def OperandsWritten (n : ℕ) : Prop :=
  let uop := (executed program tick n).uop
  (executed program tick n).valid = true →
    (uop.usesRs1 = true → uop.rename.prs1 ≠ 0 → OperandWritten program tick n uop.rename.prs1) ∧
    (uop.usesRs2 = true → uop.rename.prs2 ≠ 0 → OperandWritten program tick n uop.rename.prs2)

end Statements

namespace System

variable (program : Program) (sys : System) (t : Tick)

/-- No load in flight that still waits for its value has the destination register `p`. -/
def SourceReady (p : ℕ) : Prop :=
  ∀ i < robDepth,
    ((sys.afterMemory program t).1.rob.entries i).valid = true →
    ((sys.afterMemory program t).1.rob.entries i).isLoad = true →
    ((sys.afterMemory program t).1.rob.entries i).uop.rename.pdst = p →
      ((sys.afterMemory program t).1.rob.entries i).arrived = true

/-- The sources that the instruction of the cycle uses do not wait for a load. -/
def SourcesReady : Prop :=
  let uop := decodeInst sys.core.frontend.pc (program sys.core.frontend.pc)
  let mapTable := sys.core.rename.intMapTable.mapTable
  (sys.accepted program t).isSome = true → sys.core.rob.isFull = false →
    (uop.usesRs1 = true → mapTable uop.rename.lrs1 ≠ 0 →
      sys.SourceReady program t (mapTable uop.rename.lrs1)) ∧
    (uop.usesRs2 = true → mapTable uop.rename.lrs2 ≠ 0 →
      sys.SourceReady program t (mapTable uop.rename.lrs2))

instance (p : ℕ) : Decidable (sys.SourceReady program t p) :=
  inferInstanceAs (Decidable (∀ i < robDepth, _ → _ → _ → _))

instance : Decidable (sys.SourcesReady program t) :=
  inferInstanceAs (Decidable (_ → _ → (_ → _ → _) ∧ (_ → _ → _)))

end System

/-! ### The instruction of a cycle -/

section Cycle

variable {program : Program} {sys : System} {w : List Inflight} (h : SysInv sys w) (t : Tick)
  (n : ℕ)

include h

/-- Assumes: the cycle renames safely. What is renamed in it is dispatched, or has no destination
register. -/
theorem SysInv.renamed_cases (hsafe : sys.RenamesSafely program t) :
    (sys.dispatched program t n = [] ∧
        ∀ uop, sys.renamed program t = some uop → uop.rename.pdst = 0) ∨
      ∃ d, sys.dispatched program t n = [d] ∧ d.born = n ∧
        sys.renamed program t = some d.result.uop := by
  unfold System.renamed
  cases hacc : sys.accepted program t with
  | none =>
    refine Or.inl ⟨h.step.dispatched_idle t n (Or.inl hacc), fun uop huop ↦ ?_⟩
    rw [h.step.beforeCommit_of_none t hacc] at huop
    simp at huop
  | some resp =>
    by_cases hfull : sys.core.rob.isFull = true
    · refine Or.inl ⟨h.step.dispatched_idle t n (Or.inr hfull), fun uop huop ↦ ?_⟩
      rw [h.step.beforeCommit_of_full t hacc hfull] at huop
      simp only [if_true] at huop
      rw [← Option.some.inj huop]
      refine renamedInst_pdst sys.core _ _ ?_
      by_contra hwrites
      have hroom := (hsafe (by simp [hacc]) (by simpa using hwrites)).1
      rw [hfull] at hroom
      simp at hroom
    · have hfull' : sys.core.rob.isFull = false := by simpa using hfull
      refine Or.inr ⟨_, h.step.dispatched_some t n hacc hfull' h.tail_lt, rfl, ?_⟩
      rw [h.step.beforeCommit_of_some t hacc hfull']
      rfl

end Cycle

/-! ### The register file -/

/-- The registers hold what their producers have written: every committed register, and every
register of an instruction in flight that has written. `prod` gives the producer of a register and
`wrote` says what it has written. -/
structure RegisterValues (prod : ℕ → Option ℕ) (wrote : ℕ → BitVec 64 → Prop)
    (s : BoomCoreState) (w : List Inflight) : Prop where
  committed : ∀ x, s.rename.intMapTable.committedMapTable x ≠ 0 →
    ∃ m, prod (s.rename.intMapTable.committedMapTable x) = some m ∧
      wrote m (s.intRf (s.rename.intMapTable.committedMapTable x))
  inFlight : ∀ d ∈ w, d.result.uop.rename.pdst ≠ 0 →
    prod d.result.uop.rename.pdst = some d.born ∧
      (d.result.isLoad = false ∨ (s.rob.entries d.cell).arrived = true →
        wrote d.born (s.intRf d.result.uop.rename.pdst))

theorem Wrote.mono {program : Program} {tick : ℕ → Tick} {m n n' : ℕ} {v : BitVec 64}
    (h : Wrote program tick m n v) (hle : n ≤ n') : Wrote program tick m n' v := by
  cases h with
  | result hlt hvalid hload hint hv => exact .result (hlt.trans_le hle) hvalid hload hint hv
  | load hvalid hload j hlt hj hv halone =>
    exact .load hvalid hload j hlt (hj.trans_le hle) hv halone

/-- What retires has written its register. -/
theorem Retirable.arrived {r : AluResult} {e : RobEntry} (h : Retirable r e)
    (hspec : DispatchedSpec r) : r.isLoad = false ∨ e.arrived = true := by
  cases h with
  | plain hcompletes hexc =>
    unfold AluResult.completesInRob at hcompletes
    simp only [Bool.and_eq_true, Bool.not_eq_true', Bool.or_eq_false_iff] at hcompletes
    exact Or.inl hcompletes.2.1.1.1.2
  | load hload tx resp hexc =>
    rw [hspec.load, Bool.and_eq_true, Bool.not_eq_true'] at hload
    refine Or.inr ?_
    unfold RobEntry.arrived
    rw [RobEntry.complete_completed, RobEntry.complete_exception, hexc]
    show (true && !(false || r.uop.exception)) = true
    rw [hload.2]
    rfl
  | store hstore =>
    refine Or.inl ?_
    rw [hspec.store, Bool.and_eq_true] at hstore
    by_contra hload
    have hload' : r.isLoad = true := by simpa using hload
    rw [hspec.load, Bool.and_eq_true] at hload'
    rw [hspec.notBoth hload'.1] at hstore
    simp at hstore

section Values

variable (program : Program) (tick : ℕ → Tick) (n : ℕ)

/-- A load in flight before cycle `n` that receives a value in it has written that value. -/
theorem wrote_of_delivery {d : Inflight} (hd : d ∈ System.window program tick n)
    (hload : d.result.isLoad = true) {v : BitVec 64}
    (hdelivery : (System.run program tick n).delivery (tick n) = some (d.cell, v)) :
    Wrote program tick d.born (n + 1) v := by
  obtain ⟨hlt, hvalid, hresult, -, halone⟩ := (bornInv_window program tick n).1 d hd
  have hexecuted : executed program tick d.born = d.result := hresult
  refine .load ?_ ?_ n hlt (Nat.lt_succ_self n) ?_ fun k hk hkn hvalid' ↦ ?_
  · rw [hexecuted]
    exact hvalid
  · rw [hexecuted]
    exact hload
  · rw [hexecuted]
    exact hdelivery
  · rw [hexecuted]
    exact halone k hk hkn hvalid'

/-- The memory phase of cycle `n`: a delivery is what the load writes. -/
theorem RegisterValues.memory
    (hval : RegisterValues (producer program tick · n) (Wrote program tick · n)
      (System.run program tick n).core (System.window program tick n))
    {free : List ℕ} (hreg : RegInv (System.run program tick n).core.rename.intMapTable
      (System.run program tick n).core.rename.intFreeList (System.window program tick n) free) :
    RegisterValues (producer program tick · n) (Wrote program tick · (n + 1))
      ((System.run program tick n).afterMemory program (tick n)).1
      (System.window program tick n) := by
  have hinv := sysInv_run program tick n
  have hrename := System.afterMemory_rename program (System.run program tick n) (tick n)
  cases hdelivery : (System.run program tick n).delivery (tick n) with
  | none =>
    obtain ⟨hrf, harrived⟩ := hinv.memory_of_none program (tick n) hdelivery
    constructor
    · rw [hrename, hrf]
      intro x hx
      obtain ⟨m, hm, hwrote⟩ := hval.committed x hx
      exact ⟨m, hm, hwrote.mono (Nat.le_succ n)⟩
    · rw [hrf]
      intro d hd hpdst
      obtain ⟨hprod, hwrote⟩ := hval.inFlight d hd hpdst
      refine ⟨hprod, fun hdone ↦ (hwrote ?_).mono (Nat.le_succ n)⟩
      by_cases hload : d.result.isLoad = true
      · exact hdone.imp_right (harrived d hd hload)
      · exact Or.inl (by simpa using hload)
  | some iv =>
    obtain ⟨d₀, hd₀, hcell, hload₀, hrf, harrived⟩ :=
      hinv.memory_of_some program (tick n) hdelivery
    -- Only the register of the load that receives the value changes.
    have hother : ∀ p, p ≠ d₀.result.uop.rename.pdst →
        ((System.run program tick n).afterMemory program (tick n)).1.intRf p =
          (System.run program tick n).core.intRf p := by
      intro p hp
      rw [hrf]
      split_ifs
      · exact Function.update_of_ne hp _ _
      · rfl
    constructor
    · rw [hrename]
      intro x hx
      have hne : (System.run program tick n).core.rename.intMapTable.committedMapTable x ≠
          d₀.result.uop.rename.pdst := by
        by_cases hpdst : d₀.result.uop.rename.pdst = 0
        · rw [hpdst]
          exact hx
        · exact hreg.committed_ne hd₀ hpdst x
      rw [hother _ hne]
      obtain ⟨m, hm, hwrote⟩ := hval.committed x hx
      exact ⟨m, hm, hwrote.mono (Nat.le_succ n)⟩
    · intro d hd hpdst
      obtain ⟨hprod, hwrote⟩ := hval.inFlight d hd hpdst
      refine ⟨hprod, fun hdone ↦ ?_⟩
      by_cases heq : d = d₀
      · subst heq
        rw [hrf, if_pos hpdst, Function.update_self]
        exact wrote_of_delivery program tick n hd hload₀ (by rw [hdelivery, hcell])
      · rw [hother _ fun hp ↦ heq (hreg.eq_of_pdst hd hd₀ hpdst hp)]
        refine (hwrote ?_).mono (Nat.le_succ n)
        by_cases hload : d.result.isLoad = true
        · exact hdone.imp_right (harrived d hd heq hload)
        · exact Or.inl (by simpa using hload)

/-- The producers after cycle `n`: what is dispatched in it is the producer of its register. -/
theorem producer_succ (hsafe : (System.run program tick n).RenamesSafely program (tick n))
    {p : ℕ} (hp : p ≠ 0) :
    (∀ d ∈ (System.run program tick n).dispatched program (tick n) n,
        d.result.uop.rename.pdst = p → producer program tick p (n + 1) = some n) ∧
      ((∀ d ∈ (System.run program tick n).dispatched program (tick n) n,
        d.result.uop.rename.pdst ≠ p) →
          producer program tick p (n + 1) = producer program tick p n) := by
  unfold producer
  rcases (sysInv_run program tick n).renamed_cases (tick n) n hsafe with
    ⟨hnone, hzero⟩ | ⟨d, hone, -, hrenamed⟩
  · rw [hnone]
    refine ⟨fun d hd ↦ absurd hd List.not_mem_nil, fun _ ↦ ?_⟩
    refine Run.lastEvent_succ_of_not fun uop huop ↦ ?_
    rw [hzero uop huop]
    simpa using hp.symm
  · rw [hone]
    constructor
    · intro d' hd' hpdst
      rw [List.mem_singleton.mp hd'] at hpdst
      exact Run.lastEvent_succ_of_some hrenamed (by simpa using hpdst)
    · intro hne
      refine Run.lastEvent_succ_of_not fun uop huop ↦ ?_
      rw [hrenamed] at huop
      rw [← Option.some.inj huop]
      simpa using hne d (List.mem_singleton_self d)

/-- Dispatch in cycle `n`: the instruction writes its own register, unless it is a load. -/
theorem RegisterValues.dispatch
    (hval : RegisterValues (producer program tick · n) (Wrote program tick · (n + 1))
      ((System.run program tick n).afterMemory program (tick n)).1 (System.window program tick n))
    (hsafe : (System.run program tick n).RenamesSafely program (tick n))
    {free : List ℕ}
    (hreg : RegInv ((System.run program tick n).atCommit program (tick n)).rename.intMapTable
      ((System.run program tick n).atCommit program (tick n)).rename.intFreeList
      (System.window program tick n ++
        (System.run program tick n).dispatched program (tick n) n) free) :
    RegisterValues (producer program tick · (n + 1)) (Wrote program tick · (n + 1))
      ((System.run program tick n).atCommit program (tick n))
      (System.window program tick n ++
        (System.run program tick n).dispatched program (tick n) n) := by
  have hinv := sysInv_run program tick n
  have hcommitted : ((System.run program tick n).atCommit program
      (tick n)).rename.intMapTable.committedMapTable =
        ((System.run program tick n).afterMemory program
          (tick n)).1.rename.intMapTable.committedMapTable := by
    rw [hinv.step.atCommit_committed, System.afterMemory_rename]
  have hother : ∀ p, p ≠ 0 → (∀ d ∈ (System.run program tick n).dispatched program (tick n) n,
      d.result.uop.rename.pdst ≠ p) →
        ((System.run program tick n).atCommit program (tick n)).intRf p =
          ((System.run program tick n).afterMemory program (tick n)).1.intRf p := by
    intro p hp hne
    rcases hinv.dispatched_cases program (tick n) n with
      ⟨-, -, hrf⟩ | ⟨d, hone, -, -, -, -, -, hrf⟩
    · rw [hrf]
    · rw [hone] at hne
      rw [hrf]
      unfold writeBack
      split_ifs
      · exact Function.update_of_ne (hne d (List.mem_singleton_self d)).symm _ _
      · rfl
  constructor
  · intro x hx
    have hne : ∀ d ∈ (System.run program tick n).dispatched program (tick n) n,
        d.result.uop.rename.pdst ≠ ((System.run program tick n).atCommit program
          (tick n)).rename.intMapTable.committedMapTable x := by
      intro d hd heq
      refine hreg.committed_ne (List.mem_append_right _ hd) ?_ x heq.symm
      rw [heq]
      exact hx
    rw [hother _ hx hne, (producer_succ program tick n hsafe hx).2 hne]
    rw [hcommitted] at hx ⊢
    exact hval.committed x hx
  · intro d hd hpdst
    rcases List.mem_append.mp hd with hold | hnew
    · have hne : ∀ d' ∈ (System.run program tick n).dispatched program (tick n) n,
          d'.result.uop.rename.pdst ≠ d.result.uop.rename.pdst := by
        intro d' hd' heq
        have hsame := hreg.eq_of_pdst hd (List.mem_append_right _ hd') hpdst heq.symm
        have hlt := ((bornInv_window program tick n).1 d hold).lt
        have hborn := (born_of_mem_dispatched program tick hd').1
        rw [hsame, hborn] at hlt
        exact Nat.lt_irrefl n hlt
      rw [hother _ hpdst hne, (producer_succ program tick n hsafe hpdst).2 hne,
        hinv.atCommit_entry (tick n) hold]
      exact hval.inFlight d hold hpdst
    · obtain ⟨hborn, hvalid, hresult⟩ := born_of_mem_dispatched program tick hnew
      refine ⟨?_, fun hdone ↦ ?_⟩
      · rw [hborn]
        exact (producer_succ program tick n hsafe hpdst).1 d hnew rfl
      · obtain ⟨-, -, -, hentry, hrf⟩ := hinv.of_dispatched program (tick n) n hnew
        have hload : d.result.isLoad = false := by
          refine hdone.resolve_right ?_
          rw [hentry]
          simp [RobEntry.arrived, AluResult.entry]
        have hspec := ((hinv.atCommit program (tick n) n).1.rob.entryOf_mem hd).dispatched
        rw [hrf, hborn]
        unfold writeBack
        rw [hload, (hspec.pdst hpdst).1]
        simp only [Bool.not_false, decide_true, Bool.and_self, decide_not, hpdst,
          decide_false, if_true, Function.update_self]
        refine .result (Nat.lt_succ_self n) ?_ ?_ ?_ ?_ <;> unfold executed <;> rw [hresult]
        · exact hvalid
        · exact hload
        · exact (hspec.pdst hpdst).1

/-- Commit in cycle `n`: what retires has written its register. -/
theorem RegisterValues.commit
    (hval : RegisterValues (producer program tick · (n + 1)) (Wrote program tick · (n + 1))
      ((System.run program tick n).atCommit program (tick n))
      (System.window program tick n ++
        (System.run program tick n).dispatched program (tick n) n)) :
    RegisterValues (producer program tick · (n + 1)) (Wrote program tick · (n + 1))
      (System.run program tick (n + 1)).core (System.window program tick (n + 1)) := by
  have hinv := sysInv_run program tick n
  show RegisterValues _ _ ((System.run program tick n).cycle program (tick n)).core
    ((System.run program tick n).windowStep program (tick n) n (System.window program tick n))
  constructor
  · rw [System.cycle_intRf]
    by_cases hvalid : ((System.run program tick n).cycle program (tick n)).core.rob.commitValid =
      true
    · obtain ⟨d, w', hret⟩ := hinv.retires (tick n) n hvalid
      have hd : d ∈ System.window program tick n ++
          (System.run program tick n).dispatched program (tick n) n := by
        rw [hret.before]
        exact List.mem_cons_self
      rw [hret.rename, RenameState.commitDst_committed]
      split_ifs with hpdst
      · intro x hx
        by_cases hldst : x = d.result.uop.rename.ldst
        · rw [hldst, Function.update_self]
          obtain ⟨hprod, hwrote⟩ := hval.inFlight d hd hpdst
          refine ⟨d.born, hprod, hwrote ?_⟩
          have hof := (hinv.atCommit program (tick n) n).1.rob.entries
          rw [hret.before] at hof
          have hcell : d.cell = ((System.run program tick n).atCommit program (tick n)).rob.head :=
            (hof.head_cell (hinv.atCommit program (tick n) n).1.rob.head_lt).robIdx
          rw [hcell]
          exact hret.retirable.arrived hret.dispatched
        · rw [Function.update_of_ne hldst] at hx ⊢
          exact hval.committed x hx
      · exact hval.committed
    · rw [(hinv.not_retired (tick n) n (by simpa using hvalid)).2.2.1]
      exact hval.committed
  · intro d hd hpdst
    rw [System.cycle_intRf, hinv.cycle_entry (tick n) n hd]
    exact hval.inFlight d (System.mem_of_mem_windowStep program _ _ hd) hpdst

/-- A redirect drops everything in flight; the committed registers keep their values. -/
theorem RegisterValues.redirect
    (hval : RegisterValues (producer program tick · n) (Wrote program tick · (n + 1))
      ((System.run program tick n).afterMemory program (tick n)).1 (System.window program tick n))
    (hredirects : (System.run program tick n).core.execute.aluResult.redirects = true) :
    RegisterValues (producer program tick · (n + 1)) (Wrote program tick · (n + 1))
      (System.run program tick (n + 1)).core (System.window program tick (n + 1)) := by
  have hinv := sysInv_run program tick n
  have hnone : (System.run program tick n).accepted program (tick n) = none := by
    unfold System.accepted
    rw [hinv.step.fetch.response_of_redirects program (tick n) hredirects, ite_self]
  have hwindow : System.window program tick (n + 1) = [] := by
    show System.windowStep _ _ _ _ _ = []
    unfold System.windowStep
    rw [if_pos hredirects]
  have hprod : ∀ p, producer program tick p (n + 1) = producer program tick p n := by
    intro p
    refine Run.lastEvent_succ_of_not fun uop huop ↦ ?_
    unfold System.renamed at huop
    rw [hinv.step.beforeCommit_of_none (tick n) hnone] at huop
    simp at huop
  rw [hwindow]
  refine ⟨fun x hx ↦ ?_, fun d hd ↦ absurd hd List.not_mem_nil⟩
  have hcommitted : (System.run program tick (n + 1)).core.rename.intMapTable.committedMapTable =
      ((System.run program tick n).afterMemory program
        (tick n)).1.rename.intMapTable.committedMapTable := by
    show ((System.run program tick n).cycle program
      (tick n)).core.rename.intMapTable.committedMapTable = _
    rw [(hinv.step.cycle_rename_of_redirects program (tick n) hredirects).1,
      System.afterMemory_rename]
    rfl
  have hrf : (System.run program tick (n + 1)).core.intRf =
      ((System.run program tick n).afterMemory program (tick n)).1.intRf := by
    show ((System.run program tick n).cycle program (tick n)).core.intRf = _
    rw [System.cycle_intRf, (hinv.step.atCommit_idle (tick n) (Or.inl hnone)).2.2.2]
  rw [hprod, hrf]
  rw [hcommitted] at hx ⊢
  exact hval.committed x hx

/-- Assumes: every cycle before `n` renames safely. The registers hold what their producers have
written. -/
theorem registerValues_run
    (hsafe : ∀ m < n, (System.run program tick m).RenamesSafely program (tick m)) :
    RegisterValues (producer program tick · n) (Wrote program tick · n)
      (System.run program tick n).core (System.window program tick n) := by
  induction n with
  | zero =>
    exact ⟨fun x hx ↦ absurd rfl hx, fun d hd ↦ absurd hd List.not_mem_nil⟩
  | succ n ih =>
    have hbefore : ∀ m < n, (System.run program tick m).RenamesSafely program (tick m) :=
      fun m hm ↦ hsafe m (Nat.lt_succ_of_lt hm)
    have hnow := hsafe n (Nat.lt_succ_self n)
    obtain ⟨free, hreg⟩ := regInv_run program tick n hbefore
    have hmem := (ih hbefore).memory program tick n hreg
    by_cases hredirects : (System.run program tick n).core.execute.aluResult.redirects = true
    · exact hmem.redirect program tick n hredirects
    · obtain ⟨free', hreg', -⟩ := (sysInv_run program tick n).regInv_atCommit hreg
        (freeInv_run program tick n) (tick n) n hnow (by simpa using hredirects)
      exact (hmem.dispatch program tick n hnow hreg').commit program tick n

/-- Assumes: every cycle before `n` renames safely, and a used source of cycle `n` does not wait for
a load. The producer of that source has written the value that is read. -/
theorem operandWritten_of_ready
    (hsafe : ∀ m < n, (System.run program tick m).RenamesSafely program (tick m)) {x : ℕ}
    (hne : (System.run program tick n).core.rename.intMapTable.mapTable x ≠ 0)
    (hready : (System.run program tick n).SourceReady program (tick n)
      ((System.run program tick n).core.rename.intMapTable.mapTable x)) :
    OperandWritten program tick n
      ((System.run program tick n).core.rename.intMapTable.mapTable x) := by
  have hinv := sysInv_run program tick n
  obtain ⟨free, hreg⟩ := regInv_run program tick n hsafe
  have hmem := (registerValues_run program tick n hsafe).memory program tick n hreg
  have hrename := System.afterMemory_rename program (System.run program tick n) (tick n)
  rcases hreg.mapTable_cases x with hcommitted | ⟨d, hd, hpdst⟩
  · rw [hcommitted] at hne ⊢
    obtain ⟨m, hm, hwrote⟩ := hmem.committed x (by rw [hrename]; exact hne)
    rw [hrename] at hm hwrote
    exact ⟨m, hm, hwrote⟩
  · rw [← hpdst] at hne hready ⊢
    obtain ⟨hprod, hwrote⟩ := hmem.inFlight d hd hne
    refine ⟨d.born, hprod, hwrote ?_⟩
    obtain ⟨hwin, hsettled⟩ := hinv.memory program (tick n)
    by_cases hload : d.result.isLoad = true
    · refine Or.inr ?_
      have hof := hwin.rob.entryOf_mem hd
      have hmemory : d.result.memoryValid = true := by
        rw [hof.dispatched.memoryValid, hload, Bool.true_or]
      have hlt : d.cell < robDepth := by
        obtain ⟨k, hk, rfl⟩ := List.getElem_of_mem hd
        rw [Inflight.cell, (hwin.rob.entryOf hk).robIdx]
        exact slot_lt (by decide) _
      exact hready d.cell hlt hof.stage.valid
        (hof.stage.isLoad hof.dispatched hload (hsettled.memoryValid hwin.rob hd hmemory))
        (by rw [hof.stage.rename])
    · exact Or.inl (by simpa using hload)

/-- Assumes: every cycle before `n` renames safely, and the sources of cycle `n` do not wait for a
load. The producers of the operands of cycle `n` have written them. -/
theorem operandsWritten_run
    (hsafe : ∀ m < n, (System.run program tick m).RenamesSafely program (tick m))
    (hready : (System.run program tick n).SourcesReady program (tick n)) :
    OperandsWritten program tick n := by
  intro hvalid
  obtain ⟨hresult, hacc, hfull, -⟩ := (sysInv_run program tick n).of_dispatched program (tick n) n
    (mem_dispatched program tick hvalid)
  have huop : (executed program tick n).uop = dispatchedUop _ _ _ :=
    congrArg AluResult.uop hresult
  have heq := dispatchedUop_eq ((System.run program tick n).afterMemory program (tick n)).1
    (System.run program tick n).core.frontend.pc
    (program (System.run program tick n).core.frontend.pc)
  have hspec := renamedInst_spec ((System.run program tick n).afterMemory program (tick n)).1
    (System.run program tick n).core.frontend.pc
    (program (System.run program tick n).core.frontend.pc)
  rw [System.afterMemory_rename] at hspec
  rw [huop, heq]
  dsimp only
  rw [hspec.prs1, hspec.prs2]
  obtain ⟨hready1, hready2⟩ := hready hacc hfull
  exact ⟨fun hused hne ↦ operandWritten_of_ready program tick n hsafe hne (hready1 hused hne),
    fun hused hne ↦ operandWritten_of_ready program tick n hsafe hne (hready2 hused hne)⟩

end Values

/-! ### A consumer that does not wait -/

/-- `LD x1, 0(x0)`, `ADDI x2, x1, 0`, then `NOP`s. -/
def loadThenUse : Program := .ofWords [0x00003083#32, 0x00008113#32] 0x00000013#32

set_option maxRecDepth 100000 in
theorem loadThenUse_executed :
    let uop := (executed loadThenUse (fun _ ↦ .fetch) 3).uop
    (executed loadThenUse (fun _ ↦ .fetch) 3).valid = true ∧ uop.usesRs1 = true ∧
      uop.rename.prs1 = 1 ∧ producer loadThenUse (fun _ ↦ .fetch) 1 3 = some 1 ∧
      (executed loadThenUse (fun _ ↦ .fetch) 1).isLoad = true := by
  decide +kernel

/-- The `ADDI` is executed two cycles after the `LD`, which has had no response: the producer of its
operand has not written. -/
theorem loadThenUse_not_written :
    producer loadThenUse (fun _ ↦ .fetch) 1 3 = some 1 ∧
      ¬ OperandsWritten loadThenUse (fun _ ↦ .fetch) 3 := by
  obtain ⟨hvalid, hused, hprs, hproducer, hload⟩ := loadThenUse_executed
  refine ⟨hproducer, fun hwritten ↦ ?_⟩
  obtain ⟨m, hm, hwrote⟩ := (hwritten hvalid).1 hused (by rw [hprs]; decide)
  rw [hprs, hproducer] at hm
  rw [← Option.some.inj hm] at hwrote
  cases hwrote with
  | result _ _ hnot =>
    rw [hload] at hnot
    simp at hnot
  | load _ _ j _ _ hv =>
    -- No cycle of the schedule has a response.
    have hnone : (System.run loadThenUse (fun _ ↦ .fetch) j).delivery .fetch = none := rfl
    rw [hnone] at hv
    simp at hv

/-- The response to the load comes in cycle 3. -/
def answeredTick (n : ℕ) : Tick :=
  if n = 3 then { Tick.fetch with dmemResp := some { transactionId := 1, readData := 7 } }
  else .fetch

set_option maxRecDepth 100000 in
/-- `operandsWritten_run` for the same program when the load is answered in time. -/
theorem operandsWritten_answered : OperandsWritten loadThenUse answeredTick 3 := by
  refine operandsWritten_run loadThenUse answeredTick 3 (fun m hm ↦ ?_) ?_
  · revert m
    decide +kernel
  · decide +kernel

end BoomCore
