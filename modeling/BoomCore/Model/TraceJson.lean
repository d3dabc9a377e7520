import BoomCore.Model.CompareTraces

/-!
# Normalized traces as JSON lines

The dictionaries of the normalized records, as `scripts/provisional_gate3_lib.py` builds them in
lines 245 to 318, 352 to 376 and 409 to 437, and `write_jsonl` (lines 102 to 107), which writes one
record a line with `json.dumps(record, sort_keys=True, separators=(",", ":"))`. Its strings are
ASCII: other characters are written as escapes of their UTF-16 code units.
-/

set_option autoImplicit false
set_option relaxedAutoImplicit false

namespace BoomCore.Trace

/-! ### JSON text -/

/-- `\uXXXX` -/
def unicodeEscape (unit : ℕ) : List Char :=
  '\\' :: 'u' :: List.leftpad 4 '0' (Nat.toDigits 16 unit)

/-- A character of a JSON string. -/
def escapeChar (c : Char) : List Char :=
  if c = '"' then ['\\', '"']
  else if c = '\\' then ['\\', '\\']
  else if c = '\n' then ['\\', 'n']
  else if c = '\r' then ['\\', 'r']
  else if c = '\t' then ['\\', 't']
  else if c.toNat = 0x08 then ['\\', 'b']
  else if c.toNat = 0x0C then ['\\', 'f']
  else if 0x20 ≤ c.toNat ∧ c.toNat ≤ 0x7E then [c]
  else if c.toNat < 0x10000 then unicodeEscape c.toNat
  else
    unicodeEscape (0xD800 + (c.toNat - 0x10000) / 0x400) ++
      unicodeEscape (0xDC00 + (c.toNat - 0x10000) % 0x400)

def escapeString (s : String) : List Char := s.toList.flatMap escapeChar

def jsonString (s : String) : List Char := '"' :: (escapeString s ++ ['"'])

/-- `str(i)` -/
def intText : ℤ → List Char
  | .ofNat n => Nat.toDigits 10 n
  | .negSucc n => '-' :: Nat.toDigits 10 (n + 1)

mutual

/-- `json.dumps(value, sort_keys=True, separators=(",", ":"))` -/
def jsonText : JsonValue → List Char
  | .null => ['n', 'u', 'l', 'l']
  | .bool true => ['t', 'r', 'u', 'e']
  | .bool false => ['f', 'a', 'l', 's', 'e']
  | .int i => intText i
  | .float t => t.text.toList
  | .str s => jsonString s
  | .array items => '[' :: ([','].intercalate (itemTexts items) ++ [']'])
  | .object fields =>
    '{' :: ([','].intercalate (((fieldTexts fields).insertionSort fun a b ↦ a.1 ≤ b.1).map
      fun field ↦ jsonString field.1 ++ ':' :: field.2) ++ ['}'])

def itemTexts : JsonItems → List (List Char)
  | .nil => []
  | .cons value rest => jsonText value :: itemTexts rest

/-- The names of an object with the texts of their values. -/
def fieldTexts : JsonFields → List (String × List Char)
  | .nil => []
  | .cons name value rest => (name, jsonText value) :: fieldTexts rest

end

/-- The items of a dictionary, in the order of insertion. -/
abbrev JsonObject := List (String × JsonValue)

def JsonObject.toFields : JsonObject → JsonFields
  | [] => .nil
  | item :: rest => .cons item.1 item.2 (JsonObject.toFields rest)

/-- The line of a record. -/
def dumps (o : JsonObject) : List Char := jsonText (.object o.toFields)

/-! ### Records -/

def traceScope : String := "loaded_program_prefix_before_unsupported_tohost_store"

/-- `_base_metadata` -/
def MetadataStart.toJson (m : MetadataStart) : JsonObject :=
  [("event", .str "metadata"), ("phase", .str "start"), ("trace_schema_version", .int 1),
    ("source", .str m.source), ("program", .str m.program), ("scope", .str traceScope),
    ("entry_pc", .ofHex (fmtPc (some entryPc))), ("tohost_addr", .ofHex (fmtPc (some tohostAddr))),
    ("cycle_base", .int m.cycleBase), ("input_records", .int m.inputRecords),
    ("unavailable_fields_are_null", .bool true)]

def CommitRecord.toJson (c : CommitRecord) : JsonObject :=
  [("event", .str "commit"), ("trace_schema_version", .int 1), ("source", .str c.source),
    ("program", .str c.program), ("commit_index", .int c.commitIndex), ("cycle", .int c.cycle),
    ("normalized_cycle", .int c.normalizedCycle), ("slot", .ofInt c.slot), ("pc", .ofHex c.pc),
    ("instruction", .ofHex c.instruction), ("mnemonic", .str c.mnemonic),
    ("rd_valid", .bool c.rdValid), ("rd", .ofInt c.rd), ("rd_value", .ofHex c.rdValue),
    ("exception", .bool c.exception), ("exception_cause", .ofInt c.exceptionCause),
    ("branch_mispredict", .ofBool c.branchMispredict), ("arch_valid", c.archValid),
    ("trace_sequence_id", .int c.traceSequenceId)]

def BranchRecord.toJson (b : BranchRecord) : JsonObject :=
  [("event", .str "branch"), ("trace_schema_version", .int 1), ("source", .str b.source),
    ("program", .str b.program), ("branch_index", .int b.branchIndex), ("cycle", .int b.cycle),
    ("normalized_cycle", .int b.normalizedCycle), ("slot", .ofInt b.slot), ("pc", .ofHex b.pc),
    ("instruction", .ofHex b.instruction), ("mnemonic", .str b.mnemonic),
    ("taken", .ofBool b.taken), ("branch_mispredict", .ofBool b.branchMispredict),
    ("target", .ofHex b.target), ("trace_sequence_id", .int b.traceSequenceId)]

def BoundaryRecord.toJson (b : BoundaryRecord) : JsonObject :=
  [("event", .str "unsupported_boundary"), ("trace_schema_version", .int 1),
    ("source", .str b.source), ("program", .str b.program), ("cycle", .int b.cycle),
    ("normalized_cycle", .int b.normalizedCycle), ("pc", .ofHex b.pc),
    ("instruction", .ofHex b.instruction), ("mnemonic", .str b.mnemonic),
    ("reason", b.reason), ("trace_sequence_id", .int b.traceSequenceId)]

def MetadataEnd.toJson (m : MetadataEnd) : JsonObject :=
  [("event", .str "metadata"), ("phase", .str "end"), ("trace_schema_version", .int 1),
    ("source", .str m.source), ("program", .str m.program), ("scope", .str traceScope),
    ("prefix_commit_records", .int m.prefixCommitRecords),
    ("branch_records", .int m.branchRecords),
    ("unsupported_boundary_pc", .ofHex m.unsupportedBoundaryPc),
    ("unsupported_boundary_instruction", .ofHex m.unsupportedBoundaryInstruction),
    ("stop_reason", .str m.stopReason)]

def NormRecord.toJson : NormRecord → JsonObject
  | metadataStart m => m.toJson
  | commit c => c.toJson
  | branch b => b.toJson
  | boundary b => b.toJson
  | metadataEnd m => m.toJson

/-- The text that `write_jsonl` writes. -/
def writeJsonl (records : List NormRecord) : List Char :=
  records.flatMap fun record ↦ dumps record.toJson ++ ['\n']

end BoomCore.Trace
