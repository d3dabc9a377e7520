import BoomCore.Proof.Normalize
import BoomCore.Proof.TraceText

/-!
# The two trace comparators

The C++ comparator reads the files that the Python script writes. Its events are the normalized
events, and the signature of one is the plain texts of the Python signature, joined with bars; so
the two comparators give the same verdict.
-/

set_option autoImplicit false
set_option relaxedAutoImplicit false

namespace BoomCore.Trace

open TraceJsonUtil

/-! ### Keys inside a value -/

/-- The keys that the C++ comparator reads of a commit. -/
def commitKeys : List String :=
  ["event", "pc", "instruction", "rd_valid", "rd", "rd_value", "exception", "exception_cause",
    "normalized_cycle"]

/-- No name inside `arch_valid` shows the key. -/
def NormRecord.Hides (key : String) : NormRecord → Prop
  | commit c => ∀ name ∈ c.archValid.names, Hidden key name
  | _ => True

/-- No name inside `arch_valid` shows a key that the C++ comparator reads of a commit. -/
def NormRecord.HidesKeys (record : NormRecord) : Prop := ∀ key ∈ commitKeys, record.Hides key

@[simp]
theorem names_ofBool (b : Option Bool) : (JsonValue.ofBool b).names = [] := by cases b <;> rfl

@[simp]
theorem names_ofInt (i : Option ℤ) : (JsonValue.ofInt i).names = [] := by cases i <;> rfl

@[simp]
theorem names_ofHex (t : Option HexText) : (JsonValue.ofHex t).names = [] := by cases t <;> rfl

theorem hidden_commit {c : CommitRecord} {key : String} (h : (NormRecord.commit c).Hides key) :
    ∀ item ∈ c.toJson, ∀ name ∈ item.2.names, Hidden key name := by
  simp only [CommitRecord.toJson, List.forall_mem_cons, names_ofBool, names_ofInt, names_ofHex,
    JsonValue.names, List.not_mem_nil, false_implies, implies_true, and_true, true_and]
  exact h

theorem names_branch (b : BranchRecord) : ∀ item ∈ b.toJson, item.2.names = [] := by
  simp [BranchRecord.toJson, JsonValue.names]

/-- In front of `event` no record has names inside its values, except a commit. -/
theorem names_before_event {record : NormRecord} (hcommit : ∀ c, record ≠ .commit c) :
    ∀ item ∈ record.toJson, item.1 < "event" → item.2.names = [] := by
  cases record with
  | commit c => exact absurd rfl (hcommit c)
  | branch b => exact fun item hitem _ ↦ names_branch b item hitem
  | metadataStart m => simp [NormRecord.toJson, MetadataStart.toJson, JsonValue.names]
  | metadataEnd m => simp [NormRecord.toJson, MetadataEnd.toJson, JsonValue.names]
  | boundary b =>
    have hreason : ¬ "reason" < "event" := by decide
    simp only [NormRecord.toJson, BoundaryRecord.toJson, List.forall_mem_cons, JsonValue.names,
      names_ofHex, hreason, List.not_mem_nil, false_implies, implies_true, and_true]

theorem hidden_of_names_eq_nil {key : String} {v : JsonValue} (h : v.names = []) :
    ∀ name ∈ v.names, Hidden key name := fun _ hname ↦
  absurd (h ▸ hname) List.not_mem_nil

/-! ### One line -/

/-- The event that the C++ comparator reads from the line of a record. -/
def NormRecord.lineEvent (record : NormRecord) : Event := parseEvent (dumps record.toJson)

theorem value_commit {c : CommitRecord} {key : String} {v : JsonValue}
    (h : (NormRecord.commit c).Hides key) (hmem : (key, v) ∈ c.toJson) :
    value (dumps (NormRecord.commit c).toJson) key = plainText v :=
  value_dumps (toJson_wellKeyed (.commit c)) hmem fun item hitem _ ↦ hidden_commit h item hitem

theorem value_branch (b : BranchRecord) {key : String} {v : JsonValue}
    (hmem : (key, v) ∈ b.toJson) : value (dumps (NormRecord.branch b).toJson) key = plainText v :=
  value_dumps (toJson_wellKeyed (.branch b)) hmem fun item hitem _ ↦
    hidden_of_names_eq_nil (names_branch b item hitem)

theorem event_mem_toJson (record : NormRecord) :
    ("event", JsonValue.str record.event) ∈ record.toJson := by
  cases record <;> exact List.mem_cons_self

theorem lineEvent_type {record : NormRecord} (h : record.Hides "event") :
    record.lineEvent.type = plainText (.str record.event) := by
  refine value_dumps (toJson_wellKeyed record) (event_mem_toJson record) fun item hitem hlt ↦ ?_
  by_cases hcommit : ∃ c, record = .commit c
  · obtain ⟨c, rfl⟩ := hcommit
    exact hidden_commit h item hitem
  · exact hidden_of_names_eq_nil
      (names_before_event (fun c heq ↦ hcommit ⟨c, heq⟩) item hitem hlt)

theorem event_mem (record : NormRecord) :
    record.event ∈ ["metadata", "commit", "branch", "unsupported_boundary"] := by
  cases record <;> simp [NormRecord.event]

theorem plainText_event (record : NormRecord) :
    plainText (.str record.event) = record.event.toList := by
  have hplain : ∀ e ∈ ["metadata", "commit", "branch", "unsupported_boundary"],
      plainText (.str e) = e.toList := by decide
  exact hplain _ (event_mem record)

theorem isCommit_lineEvent {record : NormRecord} (h : record.Hides "event") :
    record.lineEvent.isCommit = record.isCommit := by
  unfold Event.isCommit
  rw [lineEvent_type h, plainText_event]
  cases record <;> simp [NormRecord.event, NormRecord.isCommit]

theorem isBranch_lineEvent {record : NormRecord} (h : record.Hides "event") :
    record.lineEvent.isBranch = record.isBranch := by
  unfold Event.isBranch
  rw [lineEvent_type h, plainText_event]
  cases record <;> simp [NormRecord.event, NormRecord.isBranch]

/-- Assumes: no name inside `arch_valid` shows a key, except that of the `pc`. The texts of a commit
that count; `taken` and `branch_mispredict` do not. -/
theorem lineEvent_commit {c : CommitRecord} {pc : List Char}
    (h : ∀ key ∈ commitKeys, key ≠ "pc" → (NormRecord.commit c).Hides key)
    (hpc : value (dumps (NormRecord.commit c).toJson) "pc" = pc) :
    ∃ taken branchMispredict, (NormRecord.commit c).lineEvent =
      { type := plainText (.str "commit"), pc := pc
        instruction := plainText (.ofHex c.instruction), rdValid := plainText (.bool c.rdValid)
        rd := plainText (.ofInt c.rd), rdValue := plainText (.ofHex c.rdValue)
        exception := plainText (.bool c.exception)
        exceptionCause := plainText (.ofInt c.exceptionCause), taken := taken
        branchMispredict := branchMispredict
        normalizedCycle := plainText (.int c.normalizedCycle) } := by
  refine ⟨value (dumps (NormRecord.commit c).toJson) "taken",
    value (dumps (NormRecord.commit c).toJson) "branch_mispredict", ?_⟩
  unfold NormRecord.lineEvent parseEvent
  rw [Event.mk.injEq]
  refine ⟨?_, hpc, ?_, ?_, ?_, ?_, ?_, ?_, rfl, rfl, ?_⟩ <;>
    exact value_commit (h _ (by decide) (by decide)) (by simp [CommitRecord.toJson])

/-- The same, when the `pc` is not shown either. -/
theorem NormRecord.HidesKeys.lineEvent {c : CommitRecord} (h : (NormRecord.commit c).HidesKeys) :
    ∃ taken branchMispredict, (NormRecord.commit c).lineEvent =
      { type := plainText (.str "commit"), pc := plainText (.ofHex c.pc)
        instruction := plainText (.ofHex c.instruction), rdValid := plainText (.bool c.rdValid)
        rd := plainText (.ofInt c.rd), rdValue := plainText (.ofHex c.rdValue)
        exception := plainText (.bool c.exception)
        exceptionCause := plainText (.ofInt c.exceptionCause), taken := taken
        branchMispredict := branchMispredict
        normalizedCycle := plainText (.int c.normalizedCycle) } :=
  lineEvent_commit (fun key hkey _ ↦ h key hkey)
    (value_commit (h "pc" (by decide)) (by simp [CommitRecord.toJson]))

/-- The texts of a branch that count; it has none of the others. -/
theorem lineEvent_branch (b : BranchRecord) :
    ∃ rdValid rd rdValue exception exceptionCause, (NormRecord.branch b).lineEvent =
      { type := plainText (.str "branch"), pc := plainText (.ofHex b.pc)
        instruction := plainText (.ofHex b.instruction), rdValid := rdValid, rd := rd
        rdValue := rdValue, exception := exception, exceptionCause := exceptionCause
        taken := plainText (.ofBool b.taken)
        branchMispredict := plainText (.ofBool b.branchMispredict)
        normalizedCycle := plainText (.int b.normalizedCycle) } := by
  refine ⟨value (dumps (NormRecord.branch b).toJson) "rd_valid",
    value (dumps (NormRecord.branch b).toJson) "rd",
    value (dumps (NormRecord.branch b).toJson) "rd_value",
    value (dumps (NormRecord.branch b).toJson) "exception",
    value (dumps (NormRecord.branch b).toJson) "exception_cause", ?_⟩
  unfold NormRecord.lineEvent parseEvent
  rw [Event.mk.injEq]
  refine ⟨?_, ?_, ?_, rfl, rfl, rfl, rfl, rfl, ?_, ?_, ?_⟩ <;>
    exact value_branch b (by simp [BranchRecord.toJson])

/-! ### Signatures -/

/-- A signature as the C++ comparator writes it. -/
def joinedSignature (sig : List JsonValue) : List Char := ['|'].intercalate (sig.map plainText)

theorem ifTrue_plainText (b : Bool) (v : JsonValue) :
    ifTrue (plainText (.bool b)) (plainText v) = plainText (if b then v else .null) := by
  cases b <;> rfl

/-- The part of the signature before the cycle. -/
theorem signature_lineEvent_base {record : NormRecord} (h : record.HidesKeys)
    (hevent : (record.isCommit || record.isBranch) = true) :
    signature record.lineEvent false = joinedSignature (baseSignature record) := by
  have hcommit := isCommit_lineEvent (h "event" (by decide))
  have hbranch := isBranch_lineEvent (h "event" (by decide))
  cases record with
  | commit c =>
    obtain ⟨taken, branchMispredict, hline⟩ := h.lineEvent
    unfold signature
    rw [hcommit, hline]
    simp [NormRecord.isCommit, ifTrue_plainText, joinedSignature, baseSignature]
  | branch b =>
    obtain ⟨rdValid, rd, rdValue, exception, exceptionCause, hline⟩ := lineEvent_branch b
    unfold signature
    rw [hcommit, hbranch, hline]
    simp [NormRecord.isCommit, NormRecord.isBranch, joinedSignature, baseSignature]
  | metadataStart m => exact absurd hevent (by simp [NormRecord.isCommit, NormRecord.isBranch])
  | boundary b => exact absurd hevent (by simp [NormRecord.isCommit, NormRecord.isBranch])
  | metadataEnd m => exact absurd hevent (by simp [NormRecord.isCommit, NormRecord.isBranch])

theorem baseSignature_ne_nil (record : NormRecord) : baseSignature record ≠ [] := by
  cases record <;> exact List.cons_ne_nil _ _

theorem eventSignature_ne_nil (record : NormRecord) (kind : CompareKind) :
    eventSignature record kind ≠ [] := by
  unfold eventSignature
  split_ifs
  · exact List.append_ne_nil_of_left_ne_nil (baseSignature_ne_nil record) _
  · exact baseSignature_ne_nil record

theorem lineEvent_normalizedCycle {record : NormRecord} (h : record.HidesKeys)
    (hevent : (record.isCommit || record.isBranch) = true) :
    record.lineEvent.normalizedCycle = plainText record.normalizedCycle := by
  cases record with
  | commit c =>
    obtain ⟨taken, branchMispredict, hline⟩ := h.lineEvent
    exact congrArg Event.normalizedCycle hline
  | branch b =>
    obtain ⟨rdValid, rd, rdValue, exception, exceptionCause, hline⟩ := lineEvent_branch b
    exact congrArg Event.normalizedCycle hline
  | metadataStart m => exact absurd hevent (by simp [NormRecord.isCommit, NormRecord.isBranch])
  | boundary b => exact absurd hevent (by simp [NormRecord.isCommit, NormRecord.isBranch])
  | metadataEnd m => exact absurd hevent (by simp [NormRecord.isCommit, NormRecord.isBranch])

theorem signature_lineEvent {record : NormRecord} (h : record.HidesKeys)
    (hevent : (record.isCommit || record.isBranch) = true) {includeCycle : Bool}
    {kind : CompareKind} (hkind : kind = .cycle ↔ includeCycle = true) :
    signature record.lineEvent includeCycle = joinedSignature (eventSignature record kind) := by
  have hbase := signature_lineEvent_base h hevent
  unfold eventSignature
  cases includeCycle with
  | false =>
    rw [if_neg (by simp [hkind]), hbase]
  | true =>
    have hcycle : signature record.lineEvent true =
        signature record.lineEvent false ++ '|' :: record.lineEvent.normalizedCycle := rfl
    rw [if_pos (hkind.mpr rfl), hcycle, hbase, lineEvent_normalizedCycle h hevent]
    unfold joinedSignature
    rw [List.map_append, List.map_singleton, intercalate_append_singleton]
    simp [baseSignature_ne_nil]

/-! ### Values of signatures -/

theorem legible_event (record : NormRecord) : Legible (.str record.event) := by
  have hall : ∀ e ∈ ["metadata", "commit", "branch", "unsupported_boundary"],
      '|' ∉ plainText (.str e) ∧ readPlain (plainText (.str e)) = .str e := by decide +kernel
  have h := hall _ (event_mem record)
  exact ⟨h.1, h.2⟩

theorem legible_ite {b : Bool} {v : JsonValue} (h : Legible v) :
    Legible (if b then v else .null) := by
  split_ifs
  · exact h
  · exact legible_null

theorem legible_eventSignature (record : NormRecord) (kind : CompareKind) :
    ∀ v ∈ eventSignature record kind, Legible v := by
  have hbase : ∀ v ∈ baseSignature record, Legible v := by
    have hevent := legible_event record
    cases record with
    | commit c =>
      simp only [baseSignature, List.forall_mem_cons]
      exact ⟨hevent, legible_ofHex _, legible_ofHex _, legible_bool _,
        legible_ite (legible_ofInt _), legible_ite (legible_ofHex _), legible_bool _,
        legible_ite (legible_ofInt _), by simp⟩
    | branch b =>
      simp only [baseSignature, List.forall_mem_cons]
      exact ⟨hevent, legible_ofHex _, legible_ofHex _, legible_ofBool _, legible_ofBool _, by simp⟩
    | metadataStart m => exact List.forall_mem_singleton.mpr hevent
    | boundary b => exact List.forall_mem_singleton.mpr hevent
    | metadataEnd m => exact List.forall_mem_singleton.mpr hevent
  unfold eventSignature
  split_ifs
  · rw [List.forall_mem_append]
    refine ⟨hbase, List.forall_mem_singleton.mpr ?_⟩
    cases record with
    | commit c => exact legible_int _
    | branch b => exact legible_int _
    | boundary b => exact legible_int _
    | metadataStart m => exact legible_null
    | metadataEnd m => exact legible_null
  · exact hbase

/-- Reads a joined signature. -/
def readSignature (text : List Char) : List JsonValue := (text.splitOn '|').map readPlain

theorem readSignature_joinedSignature {sig : List JsonValue} (hne : sig ≠ [])
    (h : ∀ v ∈ sig, Legible v) : readSignature (joinedSignature sig) = sig := by
  have hbar : ∀ piece ∈ sig.map plainText, '|' ∉ piece := by
    intro piece hpiece
    obtain ⟨v, hv, rfl⟩ := List.mem_map.mp hpiece
    exact (h v hv).noBar
  unfold readSignature joinedSignature
  rw [List.splitOn_intercalate '|' hbar (by simpa using hne), List.map_map]
  exact (List.map_congr_left fun v hv ↦ (h v hv).read).trans (List.map_id sig)

/-! ### Files -/

theorem loadEvents_writeJsonl {records : List NormRecord}
    (h : ∀ record ∈ records, record.Hides "event") (commitsOnly : Bool) :
    loadEvents (writeJsonl records) commitsOnly =
      (records.filter fun record ↦ record.isCommit || (!commitsOnly && record.isBranch)).map
        NormRecord.lineEvent := by
  have hlines : getlines (writeJsonl records) = records.map fun record ↦ dumps record.toJson := by
    have hflat : ∀ line ∈ records.map fun record ↦ dumps record.toJson, '\n' ∉ line := by
      intro line hline
      obtain ⟨record, -, rfl⟩ := List.mem_map.mp hline
      exact newline_not_mem_jsonText _
    rw [← getlines_flatMap hflat, List.flatMap_map]
    rfl
  unfold loadEvents
  rw [hlines, List.map_map, List.filter_map]
  congr 1
  refine List.filter_congr fun record hrecord ↦ ?_
  show (record.lineEvent.isCommit || (!commitsOnly && record.lineEvent.isBranch)) = _
  rw [isCommit_lineEvent (h record hrecord), isBranch_lineEvent (h record hrecord)]

theorem compareFrom_code (includeCycle : Bool) (compared i : ℕ) (pairs : List (Event × Event)) :
    (TraceJsonUtil.compareFrom includeCycle compared i pairs).code = 0 ↔
      ∀ pair ∈ pairs, signature pair.1 includeCycle = signature pair.2 includeCycle := by
  induction pairs generalizing i with
  | nil => simp [TraceJsonUtil.compareFrom, FileComparison.code]
  | cons pair rest ih =>
    obtain ⟨ref, dut⟩ := pair
    unfold TraceJsonUtil.compareFrom
    split_ifs with hdiffer
    · simp [hdiffer, FileComparison.code]
    · rw [ih, List.forall_mem_cons]
      simp [not_not.mp hdiffer]

theorem compareFiles_code (refFile dutFile : List Char) (commitsOnly includeCycle : Bool) :
    (compareFiles refFile dutFile commitsOnly includeCycle).code = 0 ↔
      (loadEvents refFile commitsOnly).map (signature · includeCycle) =
        (loadEvents dutFile commitsOnly).map (signature · includeCycle) := by
  unfold compareFiles
  dsimp only
  split_ifs with hlength
  · refine iff_of_false (by simp [FileComparison.code]) fun heq ↦ hlength ?_
    simpa using congrArg List.length heq
  · rw [compareFrom_code, forall_mem_zip_iff (signature · includeCycle) (not_not.mp hlength)]

theorem normalizedEvents_eq (records : List NormRecord) {kind : CompareKind} {commitsOnly : Bool}
    (hcommits : kind = .arch ↔ commitsOnly = true) :
    normalizedEvents records kind =
      records.filter fun record ↦ record.isCommit || (!commitsOnly && record.isBranch) := by
  cases commitsOnly with
  | true =>
    rw [hcommits.mpr rfl, normalizedEvents_arch]
    simp
  | false =>
    unfold normalizedEvents
    rw [if_neg (by simp [hcommits])]
    simp

/-- Assumes: no `arch_valid` shows a key. The exit code on two written files is that of the verdict
of the Python comparison with the same events and the same fields. -/
theorem compareFiles_writeJsonl {ref dut : List NormRecord}
    (href : ∀ record ∈ ref, record.HidesKeys) (hdut : ∀ record ∈ dut, record.HidesKeys)
    {commitsOnly includeCycle : Bool} {kind : CompareKind}
    (hkind : kind = .cycle ↔ includeCycle = true) (hcommits : kind = .arch ↔ commitsOnly = true) :
    (compareFiles (writeJsonl ref) (writeJsonl dut) commitsOnly includeCycle).code = 0 ↔
      (compareNormalized ref dut kind).status = .pass := by
  have hloaded : ∀ records : List NormRecord, (∀ record ∈ records, record.HidesKeys) →
      (loadEvents (writeJsonl records) commitsOnly).map (signature · includeCycle) =
        ((normalizedEvents records kind).map (eventSignature · kind)).map joinedSignature := by
    intro records h
    rw [loadEvents_writeJsonl fun record hrecord ↦ h record hrecord "event" (by decide),
      normalizedEvents_eq records hcommits, List.map_map, List.map_map]
    refine List.map_congr_left fun record hrecord ↦
      signature_lineEvent (h record (List.mem_of_mem_filter hrecord)) ?_ hkind
    have hkept := List.of_mem_filter hrecord
    cases hcommit : record.isCommit <;> simp_all
  have hread : ∀ records : List NormRecord,
      (((normalizedEvents records kind).map (eventSignature · kind)).map joinedSignature).map
          readSignature = (normalizedEvents records kind).map (eventSignature · kind) := by
    intro records
    rw [List.map_map, List.map_map]
    exact List.map_congr_left fun record _ ↦ readSignature_joinedSignature
      (eventSignature_ne_nil record kind) (legible_eventSignature record kind)
  rw [compareFiles_code, hloaded ref href, hloaded dut hdut, compareNormalized_status]
  refine ⟨fun heq ↦ ?_, fun heq ↦ by rw [heq]⟩
  rw [← hread ref, heq, hread dut]

/-- Assumes: no name inside an `arch_valid` is one of the keys that the C++ comparator reads of a
commit, or ends in a quote and one of them. The two comparators agree, on the commits and on all
events with their cycles. -/
theorem comparators_agree (ref dut : List NormRecord) (href : ∀ record ∈ ref, record.HidesKeys)
    (hdut : ∀ record ∈ dut, record.HidesKeys) :
    ((compareFiles (writeJsonl ref) (writeJsonl dut) true false).code = 0 ↔
        (compareNormalized ref dut .arch).status = .pass) ∧
      ((compareFiles (writeJsonl ref) (writeJsonl dut) false true).code = 0 ↔
        (compareNormalized ref dut .cycle).status = .pass) :=
  ⟨compareFiles_writeJsonl href hdut (by decide) (by decide),
    compareFiles_writeJsonl href hdut (by decide) (by decide)⟩

/-- A commit with this `arch_valid`. -/
def archCommit (pc : ℕ) (archValid : JsonValue) : CommitRecord :=
  commitRecord "boom" "loop"
    { event := .commit, cycle := .ofInt 10, pc := .ofNat pc, instruction := .ofNat 0x13
      archValid := some archValid } 0 10

/-- `{"lane": [true, null]}` -/
def laneObject : JsonValue :=
  .object (.cons "lane" (.array (.cons (.bool true) (.cons .null .nil))) .nil)

theorem comparators_agree_lane :
    ((compareFiles (writeJsonl [.commit (archCommit 0x80000000 laneObject)])
          (writeJsonl [.commit (archCommit 0x80000004 laneObject)]) true false).code = 0 ↔
        (compareNormalized [.commit (archCommit 0x80000000 laneObject)]
          [.commit (archCommit 0x80000004 laneObject)] .arch).status = .pass) ∧
      ((compareFiles (writeJsonl [.commit (archCommit 0x80000000 laneObject)])
          (writeJsonl [.commit (archCommit 0x80000004 laneObject)]) false true).code = 0 ↔
        (compareNormalized [.commit (archCommit 0x80000000 laneObject)]
          [.commit (archCommit 0x80000004 laneObject)] .cycle).status = .pass) := by
  have hhides : ∀ pc, (NormRecord.commit (archCommit pc laneObject)).HidesKeys := by
    intro pc
    show ∀ key ∈ commitKeys, ∀ name ∈ laneObject.names, Hidden key name
    decide
  exact comparators_agree _ _ (List.forall_mem_singleton.mpr (hhides _))
    (List.forall_mem_singleton.mpr (hhides _))

/-- `{"pc": "A"}` -/
def pcObject : JsonValue := .object (.cons "pc" (.str "A") .nil)

/-- Assumes: with either `pc` the text found for it is the same, and no other key is shown. The
signature does not depend on the `pc`. -/
theorem signature_pc_shown {c : CommitRecord} {pc : Option HexText} {text : List Char}
    (h : ∀ key ∈ commitKeys, key ≠ "pc" → (NormRecord.commit c).Hides key)
    (hpc : value (dumps (NormRecord.commit c).toJson) "pc" = text)
    (hpc' : value (dumps (NormRecord.commit { c with pc := pc }).toJson) "pc" = text) :
    signature (NormRecord.commit c).lineEvent false =
      signature (NormRecord.commit { c with pc := pc }).lineEvent false := by
  have hchanged : ∀ key ∈ commitKeys, key ≠ "pc" →
      (NormRecord.commit { c with pc := pc }).Hides key := h
  obtain ⟨taken, branchMispredict, hline⟩ := lineEvent_commit h hpc
  obtain ⟨taken', branchMispredict', hline'⟩ := lineEvent_commit hchanged hpc'
  have hcommit := isCommit_lineEvent (h "event" (by decide) (by decide))
  have hcommit' := isCommit_lineEvent (hchanged "event" (by decide) (by decide))
  unfold signature
  rw [hcommit, hcommit', hline, hline']
  rfl

/-- Two commits with different `pc` are told apart by the Python comparator only. -/
theorem comparators_disagree :
    ¬ ((compareFiles (writeJsonl [.commit (archCommit 0x80000000 pcObject)])
          (writeJsonl [.commit (archCommit 0x80000004 pcObject)]) true false).code = 0 ↔
        (compareNormalized [.commit (archCommit 0x80000000 pcObject)]
          [.commit (archCommit 0x80000004 pcObject)] .arch).status = .pass) := by
  have hhides : ∀ key ∈ commitKeys, key ≠ "pc" → ∀ name ∈ pcObject.names, Hidden key name := by
    decide
  have hevent : ∀ pc, ∀ record ∈ [NormRecord.commit (archCommit pc pcObject)],
      record.Hides "event" :=
    fun pc ↦ List.forall_mem_singleton.mpr (hhides "event" (by decide) (by decide))
  -- `arch_valid` stands first in a line, so the `pc` inside it is found
  have hpc : ∀ pc ∈ [0x80000000, 0x80000004],
      value (dumps (NormRecord.commit (archCommit pc pcObject)).toJson) "pc" = ['A'] := by
    decide +kernel
  have hsignature : signature (NormRecord.commit (archCommit 0x80000000 pcObject)).lineEvent false =
      signature (NormRecord.commit (archCommit 0x80000004 pcObject)).lineEvent false := by
    have hother : archCommit 0x80000004 pcObject =
        { archCommit 0x80000000 pcObject with pc := (archCommit 0x80000004 pcObject).pc } := by
      simp only [archCommit, commitRecord, RawRecord.cycleNumber, RawRecord.traceSequence]
    rw [hother]
    refine signature_pc_shown hhides (hpc 0x80000000 (by decide)) ?_
    rw [← hother]
    exact hpc 0x80000004 (by decide)
  have hfiles : (compareFiles (writeJsonl [.commit (archCommit 0x80000000 pcObject)])
      (writeJsonl [.commit (archCommit 0x80000004 pcObject)]) true false).code = 0 := by
    rw [compareFiles_code, loadEvents_writeJsonl (hevent _), loadEvents_writeJsonl (hevent _)]
    exact congrArg (fun sig ↦ [sig]) hsignature
  have hrecords : (compareNormalized [.commit (archCommit 0x80000000 pcObject)]
      [.commit (archCommit 0x80000004 pcObject)] .arch).status ≠ .pass := by decide +kernel
  exact fun h ↦ hrecords (h.mp hfiles)

end BoomCore.Trace
