import BoomCore.Library.Ordered
import BoomCore.Model.CompareTraces

/-!
# What the comparison sees

An architectural comparison passes exactly when the commits that the two normalizers keep agree in
what `Observation` collects. The loop of a normalizer keeps the commits that pass its own checks,
in the order of the sorted trace, and gives each the signature of its observation.
-/

set_option autoImplicit false
set_option relaxedAutoImplicit false

namespace BoomCore.Trace

/-! ### Observations -/

/-- What the architectural comparison looks at in a commit. -/
structure Observation where
  pc : Option ℕ
  instruction : Option ℕ
  rdValid : Bool
  rd : Option ℤ
  rdValue : Option ℕ
  exception : Bool
  exceptionCause : Option ℤ
  deriving DecidableEq, Repr

/-- `rd` and `rd_value` count when `rd_valid` holds, and the cause when there is an exception. -/
def RawRecord.observation (record : RawRecord) : Observation :=
  { pc := record.pc.read, instruction := record.instruction.read
    rdValid := record.rdValid.truthy
    rd := if record.rdValid.truthy then record.rd.read else none
    rdValue := if record.rdValid.truthy then record.rdValue.read else none
    exception := record.exception.truthy
    exceptionCause := if record.exception.truthy then record.exceptionCause.read else none }

def Observation.signature (o : Observation) : List JsonValue :=
  [.str "commit", .ofHex (fmtPc o.pc), .ofHex (fmtInst o.instruction), .bool o.rdValid,
    .ofInt o.rd, .ofHex (fmtPc o.rdValue), .bool o.exception, .ofInt o.exceptionCause]

theorem JsonValue.ofInt_inj {a b : Option ℤ} : JsonValue.ofInt a = JsonValue.ofInt b ↔ a = b := by
  cases a <;> cases b <;> simp [JsonValue.ofInt]

theorem ofHex_fmtPc_inj {a b : Option ℕ} :
    JsonValue.ofHex (fmtPc a) = JsonValue.ofHex (fmtPc b) ↔ a = b := by
  cases a <;> cases b <;> simp [JsonValue.ofHex, fmtPc, fmtHex_inj]

theorem ofHex_fmtInst_inj {a b : Option ℕ} :
    JsonValue.ofHex (fmtInst a) = JsonValue.ofHex (fmtInst b) ↔ a = b := by
  cases a <;> cases b <;> simp [JsonValue.ofHex, fmtInst, fmtHex_inj]

/-- Different observations have different signatures. -/
theorem Observation.signature_injective : Function.Injective Observation.signature := by
  intro o o' h
  simp only [Observation.signature, List.cons.injEq, ofHex_fmtPc_inj, ofHex_fmtInst_inj,
    JsonValue.bool.injEq, JsonValue.ofInt_inj, and_true, true_and] at h
  obtain ⟨hpc, hinst, hvalid, hrd, hvalue, hexc, hcause⟩ := h
  cases o
  cases o'
  simp only [Observation.mk.injEq]
  exact ⟨hpc, hinst, hvalid, hrd, hvalue, hexc, hcause⟩

/-- The signature of a normalized commit depends only on what is observed. -/
theorem eventSignature_commitRecord (source program : String) (record : RawRecord) (index : ℕ)
    (baseCycle : ℤ) :
    eventSignature (.commit (commitRecord source program record index baseCycle)) .arch =
      record.observation.signature := by
  unfold eventSignature baseSignature commitRecord RawRecord.observation Observation.signature
  rw [if_neg (by decide)]
  dsimp only
  by_cases hvalid : record.rdValid.truthy = true <;>
    by_cases hexc : record.exception.truthy = true <;>
    simp [hvalid, hexc, JsonValue.ofInt, JsonValue.ofHex, fmtPc]

/-! ### The verdict -/

theorem compareFrom_status (kind : CompareKind) (result : CompareResult)
    (hresult : result.status = .pass) (idx : ℕ) (pairs : List (NormRecord × NormRecord)) :
    (compareFrom kind result idx pairs).status = .pass ↔
      ∀ pair ∈ pairs, eventSignature pair.1 kind = eventSignature pair.2 kind := by
  induction pairs generalizing idx with
  | nil => simp [compareFrom, hresult]
  | cons pair rest ih =>
    unfold compareFrom
    split_ifs with hdiffer
    · simp [hdiffer]
    · rw [ih, List.forall_mem_cons]
      simp [not_not.mp hdiffer]

/-- Two events at the same place of two lists of one length. -/
theorem forall_mem_zip_iff {α β : Type*} (f : α → β) {l l' : List α} (h : l.length = l'.length) :
    (∀ pair ∈ l.zip l', f pair.1 = f pair.2) ↔ l.map f = l'.map f := by
  induction l generalizing l' with
  | nil =>
    cases l' with
    | nil => simp
    | cons b l' => simp at h
  | cons a l ih =>
    cases l' with
    | nil => simp at h
    | cons b l' =>
      rw [List.zip_cons_cons, List.forall_mem_cons, ih (Nat.succ.inj h), List.map_cons,
        List.map_cons, List.cons.injEq]

/-- The comparison passes when the two lists of events have the same signatures. -/
theorem compareNormalized_status (ref dut : List NormRecord) (kind : CompareKind) :
    (compareNormalized ref dut kind).status = .pass ↔
      (normalizedEvents ref kind).map (eventSignature · kind) =
        (normalizedEvents dut kind).map (eventSignature · kind) := by
  unfold compareNormalized
  dsimp only
  split_ifs with hlength
  · refine iff_of_false (by simp) fun heq ↦ hlength ?_
    simpa using congrArg List.length heq
  · rw [compareFrom_status _ _ rfl, ← forall_mem_zip_iff (eventSignature · kind)
      (not_not.mp hlength)]

/-! ### The loops -/

/-- The architectural signatures of a normalized trace. -/
def archSignatures (records : List NormRecord) : List (List JsonValue) :=
  (records.filter NormRecord.isCommit).map (eventSignature · .arch)

theorem normalizedEvents_arch (records : List NormRecord) :
    normalizedEvents records .arch = records.filter NormRecord.isCommit := by
  unfold normalizedEvents
  rw [if_pos rfl, List.filter_filter]
  congr 1
  funext record
  cases record.isCommit <;> simp

@[simp]
theorem archSignatures_append (a b : List NormRecord) :
    archSignatures (a ++ b) = archSignatures a ++ archSignatures b := by
  unfold archSignatures
  rw [List.filter_append, List.map_append]

theorem archSignatures_commitRecord (source program : String) (record : RawRecord) (index : ℕ)
    (baseCycle : ℤ) :
    archSignatures [.commit (commitRecord source program record index baseCycle)] =
      [record.observation.signature] :=
  congrArg (· :: []) (eventSignature_commitRecord source program record index baseCycle)

theorem archSignatures_of_not_commit {record : NormRecord} (h : record.isCommit = false) :
    archSignatures [record] = [] := by
  unfold archSignatures
  rw [List.filter_cons_of_neg (by simp [h])]
  rfl

/-- A loaded commit that the HLS decoder of the scripts supports. -/
def RawRecord.isSupported (record : RawRecord) : Bool :=
  record.isLoadedCommit && !isUnsupported record.instruction.read

/-- Assumes: each step appends the signature of the record when it is kept and nothing otherwise.
The loop then appends the signatures of the kept records, in order. -/
theorem foldl_archSignatures {step : NormState → RawRecord → NormState} {keep : RawRecord → Bool}
    (hstep : ∀ st record, archSignatures (step st record).normalized =
      archSignatures st.normalized ++ if keep record then [record.observation.signature] else [])
    (records : List RawRecord) (st : NormState) :
    archSignatures (records.foldl step st).normalized =
      archSignatures st.normalized ++
        (records.filter keep).map fun record ↦ record.observation.signature := by
  induction records generalizing st with
  | nil => simp
  | cons record records ih =>
    rw [List.foldl_cons, ih, hstep, List.append_assoc]
    by_cases hkeep : keep record = true
    · rw [List.filter_cons_of_pos hkeep, if_pos hkeep]
      rfl
    · rw [List.filter_cons_of_neg hkeep, if_neg hkeep]
      rfl

namespace RawRecord

variable {record : RawRecord}

theorem isSupported_iff : record.isSupported = true ↔
    record.event = .commit ∧ record.isLoaded = true ∧
      ¬ (record.instruction.read = none ∨ isUnsupported record.instruction.read = true) := by
  unfold isSupported isLoadedCommit
  cases record.instruction.read <;> simp [and_assoc]

theorem isSupported_of_not_commit (h : record.event ≠ .commit) : record.isSupported = false := by
  simpa using fun hsupported ↦ h (isSupported_iff.mp hsupported).1

theorem isSupported_of_not_loaded (h : ¬ record.isLoaded = true) : record.isSupported = false := by
  simpa using fun hsupported ↦ h (isSupported_iff.mp hsupported).2.1

end RawRecord

/-- What the body of the loop of `normalize_boom` does with a record. -/
theorem boomStep_cases (program : String) (key : ℤ ×ₗ ℤ) (baseCycle : ℤ) (insts : ℕ → Option ℕ)
    (st : NormState) (record : RawRecord) :
    (record.isSupported = true ∧ record.orderKey < key ∧
      boomStep program key baseCycle insts st record =
        st.addCommit "boom" program record baseCycle) ∨
    (record.event = .branchResolve ∧ record.isLoaded = true ∧ record.orderKey < key ∧
      boomStep program key baseCycle insts st record =
        st.addBranch "boom" program record baseCycle insts) ∨
    (¬ (record.isSupported = true ∧ record.orderKey < key) ∧
      ¬ (record.event = .branchResolve ∧ record.isLoaded = true ∧ record.orderKey < key) ∧
      boomStep program key baseCycle insts st record = st) := by
  unfold boomStep
  by_cases hloaded : record.isLoaded = true
  · rw [if_neg (by simp [hloaded])]
    by_cases hkey : key ≤ record.orderKey
    · rw [if_pos hkey]
      exact .inr (.inr ⟨fun h ↦ not_lt.mpr hkey h.2, fun h ↦ not_lt.mpr hkey h.2.2, rfl⟩)
    · rw [if_neg hkey]
      have hlt : record.orderKey < key := not_le.mp hkey
      split
      · rename_i hevent
        split_ifs with hskip
        · refine .inr (.inr ⟨fun h ↦ (RawRecord.isSupported_iff.mp h.1).2.2 hskip, ?_, rfl⟩)
          rw [hevent]
          exact fun h ↦ RawEvent.noConfusion h.1
        · exact .inl ⟨RawRecord.isSupported_iff.mpr ⟨hevent, hloaded, hskip⟩, hlt, rfl⟩
      · rename_i hevent
        exact .inr (.inl ⟨hevent, hloaded, hlt, rfl⟩)
      · rename_i hcommit hbranch
        exact .inr (.inr ⟨fun h ↦ hcommit (RawRecord.isSupported_iff.mp h.1).1,
          fun h ↦ hbranch h.1, rfl⟩)
  · rw [if_pos (by simp [hloaded])]
    refine .inr (.inr ⟨fun h ↦ ?_, fun h ↦ hloaded h.2.1, rfl⟩)
    rw [RawRecord.isSupported_of_not_loaded hloaded] at h
    exact Bool.false_ne_true h.1

/-- What the body of the loop of `normalize_hls` does with a record. -/
theorem hlsStep_cases (source program : String) (baseCycle : ℤ) (insts : ℕ → Option ℕ)
    (st : NormState) (record : RawRecord) :
    (record.isSupported = true ∧
      hlsStep source program baseCycle insts st record =
        st.addCommit source program record baseCycle) ∨
    ((record.event = .branch ∨ record.event = .branchResolve) ∧ record.isLoaded = true ∧
      hlsStep source program baseCycle insts st record =
        st.addBranch source program record baseCycle insts) ∨
    (¬ record.isSupported = true ∧
      ¬ ((record.event = .branch ∨ record.event = .branchResolve) ∧ record.isLoaded = true) ∧
      (hlsStep source program baseCycle insts st record = st ∨
        hlsStep source program baseCycle insts st record =
          st.addBoundary (hlsBoundary source program baseCycle record))) := by
  unfold hlsStep
  by_cases hloaded : record.isLoaded = true
  · rw [if_neg (by simp [hloaded])]
    split
    · rename_i hevent
      split_ifs with hskip
      · refine .inr (.inr ⟨fun h ↦ (RawRecord.isSupported_iff.mp h).2.2 hskip, ?_, .inl rfl⟩)
        rw [hevent]
        exact fun h ↦ h.1.elim RawEvent.noConfusion RawEvent.noConfusion
      · exact .inl ⟨RawRecord.isSupported_iff.mpr ⟨hevent, hloaded, hskip⟩, rfl⟩
    · rename_i hevent
      exact .inr (.inl ⟨.inl hevent, hloaded, rfl⟩)
    · rename_i hevent
      exact .inr (.inl ⟨.inr hevent, hloaded, rfl⟩)
    · rename_i hevent
      refine .inr (.inr ⟨fun h ↦ ?_, ?_, .inr rfl⟩)
      · exact RawEvent.noConfusion (hevent.symm.trans (RawRecord.isSupported_iff.mp h).1)
      · rw [hevent]
        exact fun h ↦ h.1.elim RawEvent.noConfusion RawEvent.noConfusion
    · rename_i hcommit hbranch hresolve hboundary
      exact .inr (.inr ⟨fun h ↦ hcommit (RawRecord.isSupported_iff.mp h).1,
        fun h ↦ h.1.elim hbranch hresolve, .inl rfl⟩)
  · rw [if_pos (by simp [hloaded])]
    refine .inr (.inr ⟨?_, fun h ↦ hloaded h.2, .inl rfl⟩)
    rw [RawRecord.isSupported_of_not_loaded hloaded]
    exact Bool.false_ne_true

theorem NormState.archSignatures_addCommit (st : NormState) (source program : String)
    (record : RawRecord) (baseCycle : ℤ) :
    archSignatures (st.addCommit source program record baseCycle).normalized =
      archSignatures st.normalized ++ [record.observation.signature] := by
  unfold NormState.addCommit
  rw [archSignatures_append, archSignatures_commitRecord]

theorem NormState.archSignatures_addBranch (st : NormState) (source program : String)
    (record : RawRecord) (baseCycle : ℤ) (insts : ℕ → Option ℕ) :
    archSignatures (st.addBranch source program record baseCycle insts).normalized =
      archSignatures st.normalized := by
  unfold NormState.addBranch
  rw [archSignatures_append, archSignatures_of_not_commit rfl, List.append_nil]

theorem boomStep_archSignatures (program : String) (key : ℤ ×ₗ ℤ) (baseCycle : ℤ)
    (insts : ℕ → Option ℕ) (st : NormState) (record : RawRecord) :
    archSignatures (boomStep program key baseCycle insts st record).normalized =
      archSignatures st.normalized ++
        if (record.isSupported && decide (record.orderKey < key)) = true then
          [record.observation.signature] else [] := by
  rcases boomStep_cases program key baseCycle insts st record with
    ⟨hkeep, hlt, heq⟩ | ⟨hevent, -, -, heq⟩ | ⟨hskip, -, heq⟩
  · rw [heq, st.archSignatures_addCommit, if_pos (by simp [hkeep, hlt])]
  · rw [heq, st.archSignatures_addBranch, RawRecord.isSupported_of_not_commit (by simp [hevent]),
      if_neg (by simp), List.append_nil]
  · rw [heq, if_neg (by simpa using hskip), List.append_nil]

theorem hlsStep_archSignatures (source program : String) (baseCycle : ℤ) (insts : ℕ → Option ℕ)
    (st : NormState) (record : RawRecord) :
    archSignatures (hlsStep source program baseCycle insts st record).normalized =
      archSignatures st.normalized ++
        if record.isSupported = true then [record.observation.signature] else [] := by
  rcases hlsStep_cases source program baseCycle insts st record with
    ⟨hkeep, heq⟩ | ⟨hevent, -, heq⟩ | ⟨hskip, -, heq | heq⟩
  · rw [heq, st.archSignatures_addCommit, if_pos hkeep]
  · rw [heq, st.archSignatures_addBranch, if_neg, List.append_nil]
    rcases hevent with hevent | hevent <;>
      simp [RawRecord.isSupported_of_not_commit, hevent]
  · rw [heq, if_neg hskip, List.append_nil]
  · rw [heq, if_neg hskip, List.append_nil]
    unfold NormState.addBoundary
    rw [archSignatures_append, archSignatures_of_not_commit rfl, List.append_nil]

/-! ### The normalizers -/

theorem sortedRecords_eq {records : List RawRecord} (h : InOrder RawRecord.orderKey records) :
    sortedRecords records = records :=
  h.insertionSort_eq

section Normalizers

variable {records : List RawRecord} (hloaded : loadedCommits records ≠ [])

include hloaded

/-- Assumes: a loaded commit. `normalize_boom` keeps the supported commits below the boundary. -/
theorem normalizeBoom_archSignatures (program : String) :
    ∃ normalized, normalizeBoom records program = .ok normalized ∧
      archSignatures normalized =
        ((sortedRecords records).filter fun record ↦
          record.isSupported && decide (record.orderKey < boundaryKey records)).map
            fun record ↦ record.observation.signature := by
  obtain ⟨first, rest, hfirst⟩ := List.exists_cons_of_ne_nil hloaded
  unfold normalizeBoom
  rw [hfirst]
  refine ⟨_, rfl, ?_⟩
  rw [archSignatures_append, archSignatures_append,
    foldl_archSignatures (fun st record ↦ boomStep_archSignatures program (boundaryKey records)
      first.cycleNumber (pcToInst (first :: rest)) st record),
    archSignatures_of_not_commit rfl, archSignatures_of_not_commit rfl, List.nil_append,
    List.append_nil]
  cases firstUnsupported records with
  | none => exact List.append_nil _
  | some record => exact List.append_nil _

/-- Assumes: a loaded commit. `normalize_hls` keeps all supported commits. -/
theorem normalizeHls_archSignatures (program source : String) :
    ∃ normalized, normalizeHls records program source = .ok normalized ∧
      archSignatures normalized =
        ((sortedRecords records).filter RawRecord.isSupported).map
          fun record ↦ record.observation.signature := by
  have hcommits : records.filter RawRecord.isHlsCommit ≠ [] := by
    obtain ⟨record, hmem⟩ := List.exists_mem_of_ne_nil _ hloaded
    obtain ⟨hrecord, hcommit⟩ := List.mem_filter.mp hmem
    refine List.ne_nil_of_mem (List.mem_filter.mpr ⟨hrecord, ?_⟩)
    have hevent := (Bool.and_eq_true_iff.mp hcommit).1
    unfold RawRecord.isLoaded at hevent
    unfold RawRecord.isHlsCommit
    cases hpc : record.pc.read with
    | none => simp [hpc] at hevent
    | some pc => simpa [hpc] using hevent
  obtain ⟨first, rest, hfirst⟩ := List.exists_cons_of_ne_nil hcommits
  unfold normalizeHls
  rw [hfirst]
  refine ⟨_, rfl, ?_⟩
  rw [archSignatures_append,
    foldl_archSignatures (fun st record ↦ hlsStep_archSignatures source program
      first.cycleNumber (pcToInst (first :: rest)) st record),
    archSignatures_of_not_commit rfl, archSignatures_of_not_commit rfl, List.nil_append,
    List.append_nil]

end Normalizers

end BoomCore.Trace
