import BoomCore.Proof.Dispatch

/-!
# Instructions in flight

An instruction in flight is what the execution in the step of its dispatch produced. Its entry in
the reorder buffer is a function of that result and of how far its memory access has come
(`Stage`): an entry is never in any other state. `DispatchedSpec` is what the rest of the core
relies on in such a result.
-/

set_option autoImplicit false
set_option relaxedAutoImplicit false

namespace BoomCore

/-! ### Results -/

section Execute

variable (uop : MicroOp) (rs1 rs2 : BitVec 64)

theorem executeUop_isLoad : (executeUop uop rs1 rs2).isLoad = uop.uopc.isLoad := by
  unfold executeUop MicroOp.executeSwitch
  cases uop.uopc <;> rfl

theorem executeUop_isStore : (executeUop uop rs1 rs2).isStore = uop.uopc.isStore := by
  unfold executeUop MicroOp.executeSwitch
  cases uop.uopc <;> rfl

theorem executeUop_memoryValid :
    (executeUop uop rs1 rs2).memoryValid = (uop.uopc.isLoad || uop.uopc.isStore) := by
  unfold executeUop MicroOp.executeSwitch
  cases uop.uopc <;> rfl

/-- Only a control transfer raises `mispredict`. -/
theorem executeUop_mispredict (h : (executeUop uop rs1 rs2).mispredict = true) :
    uop.uopc.isControl = true := by
  unfold executeUop MicroOp.executeSwitch at h
  cases huopc : uop.uopc <;> simp_all [Uopc.isControl, MicroOp.memoryResult]

/-- The size and the sign of a load are those of the decoder. -/
theorem executeUop_loadSize (h : uop.uopc.isLoad = true) :
    (executeUop uop rs1 rs2).memorySize = uop.mem.memSize ∧
      (executeUop uop rs1 rs2).signedLoad = uop.mem.memSigned := by
  unfold executeUop MicroOp.executeSwitch
  cases hcase : uop.uopc <;> simp_all [Uopc.isLoad, MicroOp.memoryResult]

end Execute

/-- What the core relies on in the result of a dispatched instruction. -/
structure DispatchedSpec (r : AluResult) : Prop where
  valid : r.valid = true
  exception : r.exception = r.uop.exception
  memoryValid : r.memoryValid = (r.isLoad || r.isStore)
  load : r.isLoad = (r.uop.ctrl.isLoad && !r.uop.exception)
  store : r.isStore = (r.uop.ctrl.isSta && !r.uop.exception)
  notBoth : r.uop.ctrl.isLoad = true → r.uop.ctrl.isSta = false
  completes : r.completesInRob = !(r.uop.ctrl.isLoad || r.uop.ctrl.isSta)
  storeDst : r.uop.ctrl.isSta = true → r.uop.rename.pdst = 0
  pdst : r.uop.rename.pdst ≠ 0 → r.uop.rename.dstRtype = .int ∧ r.uop.rename.ldst ≠ 0
  ldst : r.uop.rename.dstRtype = .int → rdOf r.uop.inst ≠ 0 → r.uop.rename.ldst = rdOf r.uop.inst
  ldst_lt : r.uop.rename.ldst < logicalRegCount
  control : r.redirects = true → r.uop.exception = false ∧ r.completesInRob = true
  ecall : r.uop.uopc = .ecall → r.uop.exception = true ∧ r.uop.rename.pdst = 0
  loadFlag : r.uop.ctrl.isLoad = decide (opcodeOf r.uop.inst = 0x03)
  storeFlag : r.uop.ctrl.isSta = decide (opcodeOf r.uop.inst = 0x23)
  loadSize : r.isLoad = true → r.memorySize = funct3Of r.uop.inst % 4 ∧
    r.signedLoad = decide (funct3Of r.uop.inst < 4)

section Kinds

variable {r : AluResult} (h : DispatchedSpec r)

include h

/-- A store word is not a load word. -/
theorem DispatchedSpec.load_of_sta (hsta : r.uop.ctrl.isSta = true) :
    r.uop.ctrl.isLoad = false := by
  by_contra hload
  have hnot := h.notBoth (by simpa using hload)
  rw [hsta] at hnot
  exact Bool.false_ne_true hnot.symm

theorem DispatchedSpec.sta_of_store (hstore : r.isStore = true) : r.uop.ctrl.isSta = true := by
  rw [h.store, Bool.and_eq_true] at hstore
  exact hstore.1

theorem DispatchedSpec.sta_of_load (hload : r.isLoad = true) : r.uop.ctrl.isSta = false := by
  rw [h.load, Bool.and_eq_true] at hload
  exact h.notBoth hload.1

/-- A store is not a load. -/
theorem DispatchedSpec.isLoad_of_store (hstore : r.isStore = true) : r.isLoad = false := by
  rw [h.load, h.load_of_sta (h.sta_of_store hstore), Bool.false_and]

/-- A load is not a store. -/
theorem DispatchedSpec.isStore_of_load (hload : r.isLoad = true) : r.isStore = false := by
  rw [h.store, h.sta_of_load hload, Bool.false_and]

/-- What is complete at its dispatch is neither a load word nor a store word. -/
theorem DispatchedSpec.flags_of_completes (hcompletes : r.completesInRob = true) :
    r.uop.ctrl.isLoad = false ∧ r.uop.ctrl.isSta = false := by
  rw [h.completes, Bool.not_eq_true', Bool.or_eq_false_iff] at hcompletes
  exact hcompletes

theorem DispatchedSpec.isLoad_of_completes (hcompletes : r.completesInRob = true) :
    r.isLoad = false := by
  rw [h.load, (h.flags_of_completes hcompletes).1, Bool.false_and]

theorem DispatchedSpec.isStore_of_completes (hcompletes : r.completesInRob = true) :
    r.isStore = false := by
  rw [h.store, (h.flags_of_completes hcompletes).2, Bool.false_and]

/-- A load waits for the load/store unit. -/
theorem DispatchedSpec.completes_of_load (hload : r.isLoad = true) :
    r.completesInRob = false := by
  by_contra hcompletes
  rw [h.isLoad_of_completes (by simpa using hcompletes)] at hload
  exact Bool.false_ne_true hload

end Kinds

section Dispatched

variable (s : BoomCoreState) (pc : BitVec 64) (inst : BitVec 32)

theorem rdOf_lt (inst : BitVec 32) : rdOf inst < logicalRegCount := regField_lt inst 7

theorem dispatchedUop_eq :
    dispatchedUop s pc inst =
      { decodeInst pc inst with
        rename := (renamedInst s pc inst).1.rename, queue := { robIdx := s.rob.tail } } := by
  unfold dispatchedUop MicroOp.atRob
  rw [renamedInst_uop]

/-- The uop of an `ECALL` and of a store has no destination register. -/
theorem renamedInst_pdst (h : (decodeInst pc inst).writesInt = false) :
    (renamedInst s pc inst).1.rename.pdst = 0 :=
  ((renamedInst_spec s pc inst).noDst h).1

theorem dispatchedResult_rename :
    (dispatchedResult s pc inst).uop.rename = (renamedInst s pc inst).1.rename := by
  show (dispatchedUop s pc inst).rename = _
  rw [dispatchedUop_eq]

theorem dispatchedResult_exception :
    (dispatchedResult s pc inst).uop.exception = (decodeInst pc inst).exception := by
  show (dispatchedUop s pc inst).exception = _
  rw [dispatchedUop_eq]

theorem dispatchedResult_inst : (dispatchedResult s pc inst).uop.inst = inst := by
  show (dispatchedUop s pc inst).inst = _
  rw [dispatchedUop_eq]
  exact (decodeInst_spec pc inst).inst

theorem dispatchedResult_debugPc : (dispatchedResult s pc inst).uop.debugPc = pc := by
  show (dispatchedUop s pc inst).debugPc = _
  rw [dispatchedUop_eq]
  exact (decodeInst_spec pc inst).debugPc

/-- Every dispatched instruction that raises `mispredict` is a control transfer. -/
theorem dispatchedResult_redirects :
    (dispatchedResult s pc inst).redirects = (dispatchedResult s pc inst).mispredict := by
  have hvalid : (dispatchedResult s pc inst).valid = true := rfl
  have hbranch : (dispatchedResult s pc inst).uop.branch = (decodeInst pc inst).branch := by
    show (dispatchedUop s pc inst).branch = _
    rw [dispatchedUop_eq]
  unfold AluResult.redirects
  rw [hvalid, Bool.true_and, hbranch]
  cases hmispredict : (dispatchedResult s pc inst).mispredict with
  | false => rfl
  | true =>
    have hcontrol := executeUop_mispredict _ _ _ hmispredict
    rw [dispatchedUop_eq] at hcontrol
    exact (decodeInst_spec pc inst).control hcontrol

theorem dispatchedResult_ctrl :
    (dispatchedResult s pc inst).uop.ctrl = (decodeInst pc inst).ctrl := by
  show (dispatchedUop s pc inst).ctrl = _
  rw [dispatchedUop_eq]

theorem dispatchedResult_uopc :
    (dispatchedResult s pc inst).uop.uopc = (decodeInst pc inst).uopc := by
  show (dispatchedUop s pc inst).uopc = _
  rw [dispatchedUop_eq]

/-- A store is decoded with an exception exactly when its size is undefined. -/
theorem dispatchedResult_storeLegal (hsta : (dispatchedResult s pc inst).uop.ctrl.isSta = true) :
    (dispatchedResult s pc inst).uop.exception = true ↔ 3 < funct3Of inst := by
  rw [dispatchedResult_ctrl] at hsta
  rw [dispatchedResult_exception]
  exact (decodeInst_spec pc inst).storeLegal hsta

/-! #### Loads and stores -/

theorem dispatchedResult_isLoad : (dispatchedResult s pc inst).isLoad =
    ((decodeInst pc inst).ctrl.isLoad && !(decodeInst pc inst).exception) := by
  rw [dispatchedResult, executeUop_isLoad, dispatchedUop_eq]
  exact (decodeInst_spec pc inst).load

theorem dispatchedResult_isStore : (dispatchedResult s pc inst).isStore =
    ((decodeInst pc inst).ctrl.isSta && !(decodeInst pc inst).exception) := by
  rw [dispatchedResult, executeUop_isStore, dispatchedUop_eq]
  exact (decodeInst_spec pc inst).store

theorem dispatchedResult_memoryValid : (dispatchedResult s pc inst).memoryValid =
    ((dispatchedResult s pc inst).isLoad || (dispatchedResult s pc inst).isStore) := by
  rw [dispatchedResult, executeUop_memoryValid, executeUop_isLoad, executeUop_isStore]

/-- The load/store unit completes what has a load or a store bit, also with an exception. -/
theorem dispatchedResult_completesInRob : (dispatchedResult s pc inst).completesInRob =
    !((decodeInst pc inst).ctrl.isLoad || (decodeInst pc inst).ctrl.isSta) := by
  have hvalid : (dispatchedResult s pc inst).valid = true := rfl
  unfold AluResult.completesInRob
  rw [hvalid, dispatchedResult_memoryValid, dispatchedResult_isLoad, dispatchedResult_isStore,
    dispatchedResult_ctrl]
  cases (decodeInst pc inst).ctrl.isLoad <;> cases (decodeInst pc inst).ctrl.isSta <;> simp

/-- The load and the store bit are those of two opcodes. -/
theorem decodeInst_notBoth (hload : (decodeInst pc inst).ctrl.isLoad = true) :
    (decodeInst pc inst).ctrl.isSta = false := by
  have hdec := decodeInst_spec pc inst
  rw [hdec.loadFlag, decide_eq_true_eq] at hload
  rw [hdec.storeFlag, hload]
  rfl

theorem dispatchedResult_loadSize (hload : (dispatchedResult s pc inst).isLoad = true) :
    (dispatchedResult s pc inst).memorySize = funct3Of inst % 4 ∧
      (dispatchedResult s pc inst).signedLoad = decide (funct3Of inst < 4) := by
  have huop := dispatchedUop_eq s pc inst
  rw [dispatchedResult, executeUop_isLoad, huop] at hload
  obtain ⟨hsize, hsigned⟩ := (decodeInst_spec pc inst).loadSize hload
  have hresult := executeUop_loadSize (dispatchedUop s pc inst)
    (readOperand s.intRf (dispatchedUop s pc inst).rename.prs1)
    (readOperand s.intRf (dispatchedUop s pc inst).rename.prs2) (by rw [huop]; exact hload)
  rw [dispatchedResult, hresult.1, hresult.2, huop]
  exact ⟨hsize, hsigned⟩

/-! #### Destinations -/

theorem decodeInst_ldst : (decodeInst pc inst).rename.ldst = rdOf inst := by
  rw [decodeInst_rename]

/-- What does not write an integer register has no physical one. -/
theorem dispatchedResult_noDst
    (h : (decodeInst pc inst).rename.dstRtype ≠ .int ∨ rdOf inst = 0) :
    (dispatchedResult s pc inst).uop.rename.pdst = 0 := by
  rw [dispatchedResult_rename]
  refine renamedInst_pdst s pc inst ?_
  unfold MicroOp.writesInt
  rcases h with htype | hzero
  · simp [htype]
  · simp [decodeInst_ldst, hzero]

theorem dispatchedResult_pdst (hpdst : (dispatchedResult s pc inst).uop.rename.pdst ≠ 0) :
    (dispatchedResult s pc inst).uop.rename.dstRtype = .int ∧
      (dispatchedResult s pc inst).uop.rename.ldst ≠ 0 := by
  have hren := renamedInst_spec s pc inst
  rw [dispatchedResult_rename] at hpdst ⊢
  by_cases hwrites : (decodeInst pc inst).writesInt = true
  · have hldst := (hren.dst hwrites).1
    unfold MicroOp.writesInt at hwrites
    simp only [Bool.and_eq_true, decide_eq_true_eq] at hwrites
    rw [hren.dstRtype, hldst]
    exact hwrites
  · exact absurd (hren.noDst (by simpa using hwrites)).1 hpdst

theorem dispatchedResult_ldst (hint : (dispatchedResult s pc inst).uop.rename.dstRtype = .int)
    (hrd : rdOf inst ≠ 0) : (dispatchedResult s pc inst).uop.rename.ldst = rdOf inst := by
  have hren := renamedInst_spec s pc inst
  rw [dispatchedResult_rename] at hint ⊢
  rw [hren.dstRtype] at hint
  have hwrites : (decodeInst pc inst).writesInt = true := by
    simp [MicroOp.writesInt, hint, decodeInst_ldst, hrd]
  rw [(hren.dst hwrites).1, decodeInst_ldst]

theorem dispatchedResult_ldst_lt :
    (dispatchedResult s pc inst).uop.rename.ldst < logicalRegCount := by
  have hren := renamedInst_spec s pc inst
  rw [dispatchedResult_rename]
  by_cases hwrites : (decodeInst pc inst).writesInt = true
  · rw [(hren.dst hwrites).1, decodeInst_ldst]
    exact rdOf_lt inst
  · rw [(hren.noDst (by simpa using hwrites)).2.1]
    exact Nat.zero_lt_succ _

/-! #### Control transfers and the specification -/

/-- A control transfer has no exception and is complete at its dispatch. -/
theorem dispatchedResult_control (h : (dispatchedResult s pc inst).redirects = true) :
    (dispatchedResult s pc inst).uop.exception = false ∧
      (dispatchedResult s pc inst).completesInRob = true := by
  have hdec := decodeInst_spec pc inst
  have hcontrol : (decodeInst pc inst).uopc.isControl = true := by
    rw [dispatchedResult_redirects] at h
    rw [← dispatchedResult_uopc s]
    exact executeUop_mispredict _ _ _ h
  have hnot : (decodeInst pc inst).exception = false := by
    by_contra hexc
    rcases hdec.exception.mp (by simpa using hexc) with hcode | hcode <;>
      simp [hcode, Uopc.isControl] at hcontrol
  have hplain : (decodeInst pc inst).uopc.isLoad = false ∧
      (decodeInst pc inst).uopc.isStore = false := by
    cases hcode : (decodeInst pc inst).uopc <;>
      simp_all [Uopc.isControl, Uopc.isLoad, Uopc.isStore]
  have hflags := And.intro hdec.load hdec.store
  rw [hplain.1, hplain.2, hnot] at hflags
  simp only [Bool.not_false, Bool.and_true] at hflags
  rw [dispatchedResult_exception, dispatchedResult_completesInRob, ← hflags.1, ← hflags.2]
  exact ⟨hnot, rfl⟩

theorem dispatchedResult_spec : DispatchedSpec (dispatchedResult s pc inst) := by
  have hdec := decodeInst_spec pc inst
  have hctrl := dispatchedResult_ctrl s pc inst
  have hexc := dispatchedResult_exception s pc inst
  have hinst := dispatchedResult_inst s pc inst
  have hcode := dispatchedResult_uopc s pc inst
  exact
    { valid := rfl
      exception := rfl
      memoryValid := dispatchedResult_memoryValid s pc inst
      load := by rw [dispatchedResult_isLoad, hctrl, hexc]
      store := by rw [dispatchedResult_isStore, hctrl, hexc]
      notBoth := by
        rw [hctrl]
        exact decodeInst_notBoth pc inst
      completes := by rw [dispatchedResult_completesInRob, hctrl]
      storeDst := by
        rw [hctrl]
        exact fun hsta ↦ dispatchedResult_noDst s pc inst (.inl (by simp [hdec.storeDst hsta]))
      pdst := dispatchedResult_pdst s pc inst
      ldst := by
        rw [hinst]
        exact dispatchedResult_ldst s pc inst
      ldst_lt := dispatchedResult_ldst_lt s pc inst
      control := dispatchedResult_control s pc inst
      ecall := by
        rw [hcode, hexc]
        exact fun hecall ↦ ⟨hdec.exception.mpr (.inr hecall),
          dispatchedResult_noDst s pc inst (.inr (hdec.ecall hecall))⟩
      loadFlag := by
        rw [hctrl, hinst]
        exact hdec.loadFlag
      storeFlag := by
        rw [hctrl, hinst]
        exact hdec.storeFlag
      loadSize := by
        rw [hinst]
        exact dispatchedResult_loadSize s pc inst }

end Dispatched

/-! ### Entries -/

/-- The entry of an instruction in the step of its dispatch: allocated, and marked complete unless
the load/store unit does that later. -/
def AluResult.entry (r : AluResult) : RobEntry :=
  { valid := true, busy := !r.completesInRob, exception := r.uop.exception, uop := r.uop }

/-- The entries that the instruction with the result `r` can have: as dispatched; with the store or
the load recorded; with the load request sent; with its response. -/
inductive Stage (r : AluResult) : RobEntry → Prop
  | executed : Stage r r.entry
  | stored (hstore : r.isStore = true) : Stage r (r.entry.asStore r)
  | queued (hload : r.isLoad = true) : Stage r (r.entry.asLoad r)
  | sent (hload : r.isLoad = true) (tx : BitVec 32) : Stage r ((r.entry.asLoad r).sent tx)
  | answered (hload : r.isLoad = true) (tx : BitVec 32) (resp : DmemResponse) :
      Stage r (((r.entry.asLoad r).sent tx).complete resp)

namespace Stage

variable {r : AluResult} {e : RobEntry}

theorem valid (h : Stage r e) : e.valid = true := by
  cases h with
  | answered hload tx resp => unfold RobEntry.complete; split_ifs <;> rfl
  | _ => rfl

/-- A response can change the exception fields of the uop and nothing else. -/
theorem uop_eq (h : Stage r e) :
    e.uop = { r.uop with exception := e.uop.exception, excCause := e.uop.excCause } := by
  cases h with
  | answered hload tx resp => unfold RobEntry.complete; split_ifs <;> rfl
  | _ => rfl

theorem rename (h : Stage r e) : e.uop.rename = r.uop.rename := by rw [h.uop_eq]
theorem ctrl (h : Stage r e) : e.uop.ctrl = r.uop.ctrl := by rw [h.uop_eq]
theorem queue (h : Stage r e) : e.uop.queue = r.uop.queue := by rw [h.uop_eq]
theorem uopc (h : Stage r e) : e.uop.uopc = r.uop.uopc := by rw [h.uop_eq]
theorem inst (h : Stage r e) : e.uop.inst = r.uop.inst := by rw [h.uop_eq]
theorem debugPc (h : Stage r e) : e.uop.debugPc = r.uop.debugPc := by rw [h.uop_eq]

/-- The exception flags of the entry and of its uop agree. -/
theorem exception (h : Stage r e) : e.exception = e.uop.exception := by
  cases h with
  | answered hload tx resp => unfold RobEntry.complete; split_ifs <;> rfl
  | _ => rfl

/-- An entry without exception belongs to an instruction that was decoded without exception. -/
theorem decoded_of_not_exception (h : Stage r e) (hexc : e.exception = false) :
    r.uop.exception = false := by
  cases h with
  | answered hload tx resp =>
    unfold RobEntry.complete at hexc
    split_ifs at hexc
    exact hexc
  | _ => exact hexc

/-- The entry of a load is never one of a store. -/
theorem isStore (h : Stage r e) (hspec : DispatchedSpec r) (hload : r.isLoad = true) :
    e.isStore = false := by
  cases h with
  | stored hstore =>
    rw [hspec.isLoad_of_store hstore] at hload
    exact absurd hload Bool.false_ne_true
  | answered hload tx resp => unfold RobEntry.complete; split_ifs <;> rfl
  | _ => rfl

/-- A load that the load/store unit has recorded is marked as a load. -/
theorem isLoad (h : Stage r e) (hspec : DispatchedSpec r) (hload : r.isLoad = true)
    (hmemory : e.memoryValid = true) : e.isLoad = true := by
  cases h with
  | executed => simp [AluResult.entry] at hmemory
  | stored hstore =>
    rw [hspec.isLoad_of_store hstore] at hload
    exact absurd hload Bool.false_ne_true
  | answered hload tx resp => unfold RobEntry.complete; split_ifs <;> rfl
  | _ => rfl

/-- A store that the load/store unit has recorded. -/
theorem of_store (h : Stage r e) (hspec : DispatchedSpec r) (hstore : r.isStore = true)
    (hmemory : e.memoryValid = true) : e = r.entry.asStore r := by
  have hnot : r.isLoad ≠ true := by
    rw [hspec.isLoad_of_store hstore]
    exact Bool.false_ne_true
  cases h with
  | executed => simp [AluResult.entry] at hmemory
  | stored => rfl
  | queued hload => exact absurd hload hnot
  | sent hload => exact absurd hload hnot
  | answered hload => exact absurd hload hnot

theorem awaits (h : Stage r e) (hawaits : e.awaitsResponse = true) :
    r.isLoad = true ∧ ((∃ tx, e = (r.entry.asLoad r).sent tx) ∨
      ∃ tx resp, e = ((r.entry.asLoad r).sent tx).complete resp) := by
  cases h with
  | sent hload tx => exact ⟨hload, Or.inl ⟨tx, rfl⟩⟩
  | answered hload tx resp => exact ⟨hload, Or.inr ⟨tx, resp, rfl⟩⟩
  | _ =>
    simp [RobEntry.awaitsResponse, AluResult.entry, RobEntry.asStore, RobEntry.asLoad] at hawaits

end Stage

end BoomCore
