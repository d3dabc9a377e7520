import BoomCore.Proof.Departure

/-!
# Fetch faults

The frontend keeps the exception flag and the cause of a response (`respException`,
`respExcCause`) and hands neither to the uop, so an instruction that could not be fetched runs like
any other (`fetchFault_retires`). The fault is precise only by chance: when the word that came with
it is one that the decoder marks illegal with the same cause (`illegalCause`) and that takes no
register, when no accepted response finds the reorder buffer full, and when no redirect is processed
with something in flight (`FaultStep`). In every run of such steps every fault is precise
(`faults_precise`).
-/

set_option autoImplicit false
set_option relaxedAutoImplicit false

namespace BoomCore

open BoomCore.Core

/-! ### Statements -/

/-- The cause with which the decoder marks an undefined word. There is none for an `ECALL`, which
leaves the core running, and for a load or a store of undefined size, which is never complete. -/
def illegalCause (inst : BitVec 32) : Option (BitVec 64) :=
  match opcodeOf inst with
  | 0x37 | 0x17 | 0x6F | 0x67 | 0x03 | 0x23 | 0x13 | 0x0F => none
  | 0x63 => if funct3Of inst = 2 ∨ funct3Of inst = 3 then some 2 else none
  | 0x1B | 0x3B =>
    if funct3Of inst = 0 ∨ funct3Of inst = 1 ∨ funct3Of inst = 5 then none else some 0
  | 0x33 => if funct7Of inst = 1 ∧ funct3Of inst ≠ 0 then some 0 else none
  | 0x73 => if funct3Of inst = 4 then some 0 else none
  | _ => some 2

/-- An undefined word is given a destination register, unless its opcode is the one of the
branches. -/
def RenameState.TakesRegister (ren : RenameState) (inst : BitVec 32) : Prop :=
  opcodeOf inst ≠ 0x63 ∧ rdOf inst ≠ 0 ∧ 0 < ren.intFreeList.count ∧ ren.intFreeList.front ≠ 0

instance (ren : RenameState) (inst : BitVec 32) : Decidable (ren.TakesRegister inst) :=
  inferInstanceAs (Decidable (_ ∧ _ ∧ _ ∧ _))

/-- A step in which a fault can be precise. -/
structure FaultStep (input : ℕ → Inputs) (k : ℕ) : Prop where
  room : (accepted input k).isSome = true → (run input k).rob.isFull = false
  keepsOlder : KeepsOlder input k
  word : ∀ resp ∈ accepted input k, resp.exception = true →
    illegalCause resp.instruction = some resp.excCause ∧
      ¬ (run input k).rename.TakesRegister resp.instruction

/-- Up to step `n`, the faulting response `resp` of step `m` is precise: the uop `f` that is
dispatched for it records the fault, it never retires, writes no register and sends no request; when
it is the oldest one the core traps on it, and everything that was fetched before it has left. -/
structure PreciseFault (input : ℕ → Inputs) (m n : ℕ) (resp : ImemResponse) (f : Inflight) :
    Prop where
  dispatched : (run input m).dispatched (input m) m = [f]
  pc : f.result.uop.debugPc = resp.address
  exception : f.result.uop.exception = true
  excCause : f.result.uop.excCause = resp.excCause
  notRetired : ∀ k, m ≤ k → k < n → ¬ Commits input k f
  noWrite : (run input (m + 1)).intRf = (memoryPhase (run input m) (input m).ports).1.intRf
  noDelivery : ∀ k, m < k → k ≤ n → ((run input k).rob.entries f.cell).awaitsResponse = false
  noRequest : ∀ k, m ≤ k → k < n → ∀ req ∈ dataRequests input k, req.robIdx ≠ f.cell
  traps : ∀ k, m ≤ k → k < n → ∀ w, inflight input k = f :: w →
    (run input (k + 1)).rob.state = .exception ∧ (run input (k + 1)).ioTrap = true ∧
      ((run input (k + 1)).rob.entries (run input (k + 1)).rob.head).uop = f.result.uop
  older : ∀ j < m, (accepted input j).isSome = true →
    ∃ d, (run input j).dispatched (input j) j = [d] ∧
      (∀ k, j < k → k ≤ n → d ∈ window input k ∨ ∃ i < k, Leaves input i d) ∧
      ∀ k, m ≤ k → k < n → ∀ w, inflight input k = f :: w → ∃ i < k, Leaves input i d

/-! ### The decoder -/

/-- The uop is marked illegal with the given cause. -/
structure MicroOp.Illegal (uop : MicroOp) (c : BitVec 64) : Prop where
  uopc : uop.uopc = .illegal
  excCause : uop.excCause = c

namespace MicroOp

variable {uop : MicroOp}

theorem decodeBranch_illegal (h : funct3Of uop.inst = 2 ∨ funct3Of uop.inst = 3) :
    uop.decodeBranch.Illegal 2 := by
  unfold decodeBranch
  rcases h with h | h <;>
    (rw [h]; exact ⟨rfl, rfl⟩)

theorem decodeOpImm32_illegal (hcause : uop.excCause = 0)
    (h : ¬ (funct3Of uop.inst = 0 ∨ funct3Of uop.inst = 1 ∨ funct3Of uop.inst = 5)) :
    uop.decodeOpImm32.Illegal 0 := by
  rw [not_or, not_or] at h
  unfold decodeOpImm32
  dsimp only
  split
  · exact absurd ‹_› h.1
  · exact absurd ‹_› h.2.1
  · exact absurd ‹_› h.2.2
  · exact ⟨rfl, hcause⟩

theorem decodeOp32_illegal (hcause : uop.excCause = 0)
    (h : ¬ (funct3Of uop.inst = 0 ∨ funct3Of uop.inst = 1 ∨ funct3Of uop.inst = 5)) :
    uop.decodeOp32.Illegal 0 := by
  rw [not_or, not_or] at h
  unfold decodeOp32
  dsimp only
  split
  · exact absurd ‹_› h.1
  · exact absurd ‹_› h.2.1
  · exact absurd ‹_› h.2.2
  · exact ⟨rfl, hcause⟩

theorem decodeOp_illegal (hcause : uop.excCause = 0) (h7 : funct7Of uop.inst = 1)
    (h3 : funct3Of uop.inst ≠ 0) : uop.decodeOp.Illegal 0 := by
  unfold decodeOp
  rw [if_pos h7]
  dsimp only
  split
  · exact absurd ‹_› h3
  · exact ⟨rfl, hcause⟩

theorem decodeSystem_illegal (hcause : uop.excCause = 0) (h : funct3Of uop.inst = 4) :
    uop.decodeSystem.Illegal 0 := by
  unfold decodeSystem
  dsimp only
  rw [h, if_neg (by decide)]
  exact ⟨rfl, hcause⟩

theorem decodeBranch_dstRtype : uop.decodeBranch.rename.dstRtype = .n := by
  unfold decodeBranch
  dsimp only
  split <;> rfl

end MicroOp

section Decode

variable (pc : BitVec 64) {inst : BitVec 32} {c : BitVec 64}

/-- The decoder marks a word illegal with the cause of `illegalCause`. -/
theorem decodeInst_illegal (h : illegalCause inst = some c) : (decodeInst pc inst).Illegal c := by
  have hfields : (decodeFields pc inst).inst = inst := rfl
  rw [decodeInst_eq_switch]
  unfold illegalCause at h
  unfold decodeSwitch
  rw [hfields]
  split at h <;> rename_i hop
  -- `LUI`, `AUIPC`, the jumps, the memory operations, `OP-IMM` and `FENCE` have no cause.
  iterate 8 contradiction
  · split_ifs at h with hf3
    cases h
    simp only [hop]
    exact MicroOp.decodeBranch_illegal hf3
  · split_ifs at h with hf3
    cases h
    simp only [hop]
    exact MicroOp.decodeOpImm32_illegal rfl hf3
  · split_ifs at h with hf3
    cases h
    simp only [hop]
    exact MicroOp.decodeOp32_illegal rfl hf3
  · split_ifs at h with hf
    cases h
    simp only [hop]
    exact MicroOp.decodeOp_illegal rfl hf.1 hf.2
  · split_ifs at h with hf3
    cases h
    simp only [hop]
    exact MicroOp.decodeSystem_illegal rfl hf3
  · cases h
    split
    iterate 13 contradiction
    exact ⟨rfl, rfl⟩

/-- Loads and stores have no cause. -/
theorem not_memory_of_illegalCause (h : illegalCause inst = some c) :
    opcodeOf inst ≠ 0x03 ∧ opcodeOf inst ≠ 0x23 := by
  constructor <;>
  · intro hop
    unfold illegalCause at h
    rw [hop] at h
    simp at h

/-- An undefined word that takes no register writes none. -/
theorem renamedInst_pdst_of_not_takes {s : BoomCoreState}
    (hnot : ¬ s.rename.TakesRegister inst) : (renamedInst s pc inst).1.rename.pdst = 0 := by
  have hspec := renamedInst_spec s pc inst
  by_cases hwrites : (decodeInst pc inst).writesInt = true
  · obtain ⟨-, hpos, hzero⟩ := hspec.dst hwrites
    have hpdst : (decodeInst pc inst).rename.pdst = 0 := by rw [decodeInst_rename]
    rcases Nat.eq_zero_or_pos s.rename.intFreeList.count with hcount | hcount
    · rw [(hzero hcount).1, hpdst]
    · rw [(hpos hcount).1]
      by_contra hfront
      unfold MicroOp.writesInt at hwrites
      simp only [Bool.and_eq_true, decide_eq_true_eq] at hwrites
      refine hnot ⟨fun hop ↦ ?_, ?_, hcount, hfront⟩
      · have hswitch : decodeSwitch (decodeFields pc inst) =
            (decodeFields pc inst).decodeBranch := by
          have hfields : (decodeFields pc inst).inst = inst := rfl
          simp only [decodeSwitch, hfields, hop]
        rw [decodeInst_eq_switch, hswitch, MicroOp.decodeBranch_dstRtype] at hwrites
        simp at hwrites
      · rw [decodeInst_rename] at hwrites
        exact hwrites.2
  · exact renamedInst_pdst s pc inst (by simpa using hwrites)

/-- The uop that is dispatched for a word with a cause: marked illegal, complete, and of no memory
operation. -/
structure DispatchedFault (r : AluResult) (c : BitVec 64) : Prop where
  exception : r.uop.exception = true
  excCause : r.uop.excCause = c
  uopc : r.uop.uopc ≠ .ecall
  complete : r.entry.busy = false
  memoryValid : r.memoryValid = false

theorem dispatchedResult_fault (s : BoomCoreState) (h : illegalCause inst = some c) :
    DispatchedFault (dispatchedResult s pc inst) c := by
  have hillegal := decodeInst_illegal pc h
  have hspec := dispatchedResult_spec s pc inst
  have huop : (dispatchedResult s pc inst).uop = dispatchedUop s pc inst := rfl
  have hcode : (dispatchedResult s pc inst).uop.uopc = .illegal := by
    rw [huop, dispatchedUop_eq]
    exact hillegal.uopc
  have hexc : (dispatchedResult s pc inst).uop.exception = true := by
    rw [dispatchedResult_exception]
    exact (decodeInst_spec pc inst).exception.mpr (Or.inl hillegal.uopc)
  obtain ⟨hload, hstore⟩ := not_memory_of_illegalCause h
  constructor
  · exact hexc
  · rw [huop, dispatchedUop_eq]
    exact hillegal.excCause
  · rw [hcode]
    decide
  · show (!(dispatchedResult s pc inst).completesInRob) = false
    rw [hspec.completes, hspec.loadFlag, hspec.storeFlag, dispatchedResult_inst,
      decide_eq_false hload, decide_eq_false hstore]
    rfl
  · rw [hspec.memoryValid, hspec.load, hspec.store, hexc, Bool.not_true, Bool.and_false,
      Bool.and_false]
    rfl

end Decode

/-! ### Runs -/

section Runs

variable {input : ℕ → Inputs} {n : ℕ} (hlater : AnsweredLater input n)
  (hsteps : ∀ k < n, FaultStep input k)

include hlater hsteps

/-- The instruction of an accepted response is dispatched, and stays until it leaves. -/
theorem dispatched_stays {j : ℕ} (hj : j < n) (hacc : (accepted input j).isSome = true) :
    ∃ d, (run input j).dispatched (input j) j = [d] ∧
      ∀ k, j < k → k ≤ n → d ∈ window input k ∨ ∃ i < k, Leaves input i d := by
  obtain ⟨resp, hresp⟩ := Option.isSome_iff_exists.mp hacc
  obtain ⟨s, hone, -⟩ := dispatched_of_accepted (fun i hi ↦ hlater i (by omega)) hresp
    ((hsteps j hj).room hacc)
  refine ⟨_, hone, fun k hjk hkn ↦ ?_⟩
  rcases inflight_or_left hjk (fun i hi ↦ hlater i (by omega))
    (fun i hi ↦ (hsteps i (by omega)).keepsOlder)
    (List.mem_append_right _ (by rw [hone]; exact List.mem_singleton_self _)) with
    hstays | ⟨i, -, hik, hleaves⟩
  · exact Or.inl hstays
  · exact Or.inr ⟨i, hik, hleaves⟩

/-- A fault that meets the condition never leaves. -/
theorem fault_not_leaves {k : ℕ} (hk : k < n) {f : Inflight} {c : BitVec 64}
    (hfault : DispatchedFault f.result c) : ¬ Leaves input k f := by
  rintro ⟨hw, hgone⟩
  obtain ⟨-, -, hvalid, -⟩ := traps_of_oldest (fun i hi ↦ hlater i (by omega))
    (hsteps k hk).keepsOlder hw hfault.exception hfault.complete hfault.uopc
  rcases hgone with hretired | hecall
  · rw [hvalid] at hretired
    simp at hretired
  · exact hfault.uopc hecall

/-- Assumes: before step `n` no response carries the identifier of a request of its own step. In a
run whose steps meet the condition every fault is precise. -/
theorem precise_of_steps {m : ℕ} (hm : m < n) {resp : ImemResponse}
    (hacc : accepted input m = some resp) (hexc : resp.exception = true) :
    ∃ f, PreciseFault input m n resp f := by
  obtain ⟨hcause, hnot⟩ := (hsteps m hm).word resp hacc hexc
  obtain ⟨s, hone, hrename, hwrite⟩ := dispatched_of_accepted (fun i hi ↦ hlater i (by omega)) hacc
    ((hsteps m hm).room (by rw [hacc]; rfl))
  have hfault := dispatchedResult_fault resp.address s hcause
  have hpc := dispatchedResult_debugPc s resp.address resp.instruction
  have hpdst := dispatchedResult_rename s resp.address resp.instruction
  generalize hf : ({ born := m, result := dispatchedResult s resp.address resp.instruction } :
    Inflight) = f at hone
  have hresult : dispatchedResult s resp.address resp.instruction = f.result := by rw [← hf]
  have hborn : f.born = m := by rw [← hf]
  rw [hresult] at hfault hpc
  have hstart : f ∈ inflight input m :=
    List.mem_append_right _ (by rw [hone]; exact List.mem_singleton_self _)
  have hwindow : ∀ k, m < k → k ≤ n → f ∈ window input k := fun k hmk hkn ↦ by
    rcases inflight_or_left hmk (fun i hi ↦ hlater i (by omega))
      (fun i hi ↦ (hsteps i (by omega)).keepsOlder) hstart with hstays | ⟨i, -, hik, hleaves⟩
    · exact hstays
    · exact absurd hleaves (fault_not_leaves hlater hsteps (by omega) hfault)
  have hinflight : ∀ k, m ≤ k → k < n → f ∈ inflight input k := fun k hmk hkn ↦ by
    rcases Nat.eq_or_lt_of_le hmk with rfl | hlt
    · exact hstart
    · exact List.mem_append_left _ (hwindow k hlt hkn.le)
  refine ⟨f, hone, hpc, hfault.exception, hfault.excCause, fun k _ hkn hcommits ↦ ?_, ?_,
    fun k hmk hkn ↦ ?_, fun k hmk hkn req hreq hcell ↦ ?_, fun k _ hkn w hw ↦ ?_,
    fun j hj hjacc ↦ ?_⟩
  · exact fault_not_leaves hlater hsteps hkn hfault ⟨hcommits.1, Or.inl hcommits.2⟩
  · rw [hwrite]
    unfold writeBack
    rw [hpdst, renamedInst_pdst_of_not_takes resp.address (by rw [hrename]; exact hnot)]
    simp
  · have hinv := sysInv_coreRun input k fun i hi ↦ hlater i (by omega)
    have hof : EntryOf f.cell f ((run input k).rob.entries f.cell) :=
      hinv.window.rob.entryOf_mem (hwindow k hmk hkn)
    rw [hof.stage.of_exception hof.dispatched hfault.exception]
    exact AluResult.entry_awaits f.result
  · obtain ⟨d, hd, hidx, hmemory⟩ := request_owner (fun i hi ↦ hlater i (by omega)) hreq
    have heq := eq_of_cell (fun i hi ↦ hlater i (by omega)) (hinflight k hmk hkn) hd
      (hcell.symm.trans hidx)
    rw [← heq, hfault.memoryValid] at hmemory
    simp at hmemory
  · obtain ⟨hstate, htrap, -, hentry⟩ := traps_of_oldest (fun i hi ↦ hlater i (by omega))
      (hsteps k hkn).keepsOlder hw hfault.exception hfault.complete hfault.uopc
    rw [hentry]
    exact ⟨hstate, htrap, rfl⟩
  · obtain ⟨d, hd, hstays⟩ := dispatched_stays hlater hsteps (hj.trans hm) hjacc
    have hdborn : d.born = j :=
      born_of_mem_coreDispatched (by rw [hd]; exact List.mem_singleton_self d)
    refine ⟨d, hd, hstays, fun k hmk hkn w hw ↦ ?_⟩
    rcases hstays k (by omega) hkn.le with hmem | hleft
    · exact absurd hmem (not_mem_of_oldest hw (by omega))
    · exact hleft

end Runs

/-- Assumes: no response carries the identifier of a request of its own step. In every run whose
steps meet the condition every fault is precise. -/
theorem faults_precise (input : ℕ → Inputs) (n : ℕ) (hlater : AnsweredLater input n)
    (hsteps : ∀ k < n, FaultStep input k) :
    ∀ m < n, ∀ resp, accepted input m = some resp → resp.exception = true →
      ∃ f, PreciseFault input m n resp f :=
  fun _ hm _ hacc hexc ↦ precise_of_steps hlater hsteps hm hacc hexc

/-! ### Two faults -/

/-- The first fetch is answered in step 1 with an access fault. -/
def faultingFetch (word : BitVec 32) (cause : BitVec 64) : ImemResponse :=
  { address := resetVector, fetchId := 0, instruction := word
    exception := true, excCause := cause }

def faultingFetches (word : BitVec 32) (cause : BitVec 64) : ℕ → Inputs := fun n ↦
  { imemResp := if n = 1 then some (faultingFetch word cause) else none }

set_option maxRecDepth 100000 in
/-- An access fault that comes with `ADDI x0, x0, 0`: the instruction retires. -/
theorem fetchFault_retires :
    AnsweredLater (faultingFetches 0x00000013#32 1) 2 ∧
      accepted (faultingFetches 0x00000013#32 1) 1 = some (faultingFetch 0x00000013#32 1) ∧
      (faultingFetch 0x00000013#32 1).exception = true ∧
      ¬ ∃ f, PreciseFault (faultingFetches 0x00000013#32 1) 1 2
        (faultingFetch 0x00000013#32 1) f := by
  refine ⟨by decide +kernel, by decide +kernel, rfl, ?_⟩
  rintro ⟨f, hf⟩
  have hbefore : window (faultingFetches 0x00000013#32 1) 1 = [] :=
    List.length_eq_zero_iff.mp (by decide +kernel)
  have hafter : window (faultingFetches 0x00000013#32 1) 2 = [] :=
    List.length_eq_zero_iff.mp (by decide +kernel)
  refine hf.notRetired 1 (Nat.le_refl 1) (by decide) ⟨?_, by decide +kernel⟩
  unfold inflight
  rw [hbefore, hafter, hf.dispatched]
  rfl

/-- `LD x1, 0(x0)`, which is answered in step 5, and a fault behind it in step 3. -/
def faultBehindLoad : ℕ → Inputs := fun n ↦
  { imemResp :=
      if n = 1 then some { address := resetVector, fetchId := 0, instruction := 0x00003083#32 }
      else if n = 3 then some { faultingFetch 0 2 with address := resetVector + 4, fetchId := 1 }
      else none
    dmemResp := if n = 5 then some { transactionId := 1, readData := 5 } else none }

set_option maxRecDepth 100000 in
/-- `faults_precise` for an illegal-instruction fault that comes with the word zero. The load leaves
in step 5, the core traps in step 6. -/
theorem faults_precise_behindLoad :
    ∃ f, PreciseFault faultBehindLoad 3 7
      { faultingFetch 0 2 with address := resetVector + 4, fetchId := 1 } f := by
  have hroom : ∀ k < 7, (accepted faultBehindLoad k).isSome = true →
      (run faultBehindLoad k).rob.isFull = false := by decide +kernel
  have hkeeps : ∀ k < 7, KeepsOlder faultBehindLoad k := by decide +kernel
  have hword : ∀ k < 7, ((accepted faultBehindLoad k).all fun resp ↦ !resp.exception ||
      decide (illegalCause resp.instruction = some resp.excCause ∧
        ¬ (run faultBehindLoad k).rename.TakesRegister resp.instruction)) = true := by
    decide +kernel
  refine faults_precise faultBehindLoad 7 (by decide +kernel) (fun k hk ↦ ?_) 3 (by decide) _
    (by decide +kernel) rfl
  refine ⟨hroom k hk, hkeeps k hk, fun resp hresp hexc ↦ ?_⟩
  have hall := hword k hk
  rw [Option.mem_def.mp hresp, Option.all_some, hexc, Bool.not_true, Bool.false_or,
    decide_eq_true_eq] at hall
  exact hall

end BoomCore
