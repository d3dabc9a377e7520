import BoomCore.Model.Normalize

/-!
# Comparing normalized traces

`normalized_events`, `event_signature` and `compare_normalized` of
`scripts/provisional_gate3_lib.py`, lines 455 to 525. A signature is a tuple of scalars.
-/

set_option autoImplicit false
set_option relaxedAutoImplicit false

namespace BoomCore.Trace

inductive CompareKind
  | arch
  | event
  | cycle
  deriving DecidableEq, Repr

inductive CompareStatus
  | pass
  | fail
  deriving DecidableEq, Repr

def JsonValue.ofHex : Option HexText → JsonValue
  | none => .null
  | some t => .str t.text

namespace NormRecord

/-- `record.get("event")` -/
def event : NormRecord → String
  | metadataStart _ => "metadata"
  | commit _ => "commit"
  | branch _ => "branch"
  | boundary _ => "unsupported_boundary"
  | metadataEnd _ => "metadata"

/-- `record.get("normalized_cycle")` -/
def normalizedCycle : NormRecord → JsonValue
  | commit c => .int c.normalizedCycle
  | branch b => .int b.normalizedCycle
  | boundary b => .int b.normalizedCycle
  | metadataStart _ => .null
  | metadataEnd _ => .null

def isCommit : NormRecord → Bool
  | commit _ => true
  | _ => false

def isBranch : NormRecord → Bool
  | branch _ => true
  | _ => false

end NormRecord

def normalizedEvents (records : List NormRecord) (kind : CompareKind) : List NormRecord :=
  let events := records.filter fun record ↦ record.isCommit || record.isBranch
  if kind = .arch then events.filter NormRecord.isCommit else events

/-- The signature before the cycle is added. -/
def baseSignature : NormRecord → List JsonValue
  | .commit c =>
    [.str "commit", .ofHex c.pc, .ofHex c.instruction, .bool c.rdValid,
      if c.rdValid then .ofInt c.rd else .null,
      if c.rdValid then .ofHex c.rdValue else .null,
      .bool c.exception,
      if c.exception then .ofInt c.exceptionCause else .null]
  | .branch b =>
    [.str "branch", .ofHex b.pc, .ofHex b.instruction, .ofBool b.taken,
      .ofBool b.branchMispredict]
  | record => [.str record.event]

def eventSignature (record : NormRecord) (kind : CompareKind) : List JsonValue :=
  if kind = .cycle then baseSignature record ++ [record.normalizedCycle]
  else baseSignature record

/-- The value of `first_mismatch`. -/
inductive Mismatch
  | eventCount (refCount dutCount : ℕ)
  | signature (refSignature dutSignature : List JsonValue) (refEvent dutEvent : NormRecord)

structure CompareResult where
  kind : CompareKind
  status : CompareStatus := .pass
  refEvents : ℕ
  dutEvents : ℕ
  comparedEvents : ℕ
  firstMismatchIndex : Option ℕ := none
  firstMismatch : Option Mismatch := none

/-- The loop over the pairs of events, from index `idx` on. -/
def compareFrom (kind : CompareKind) (result : CompareResult) :
    ℕ → List (NormRecord × NormRecord) → CompareResult
  | _, [] => result
  | idx, (ref, dut) :: rest =>
    if eventSignature ref kind ≠ eventSignature dut kind then
      { result with
        status := .fail, firstMismatchIndex := some idx
        firstMismatch := some
          (.signature (eventSignature ref kind) (eventSignature dut kind) ref dut) }
    else compareFrom kind result (idx + 1) rest

def compareNormalized (refRecords dutRecords : List NormRecord) (kind : CompareKind) :
    CompareResult :=
  let refEvents := normalizedEvents refRecords kind
  let dutEvents := normalizedEvents dutRecords kind
  let result : CompareResult :=
    { kind := kind, refEvents := refEvents.length, dutEvents := dutEvents.length
      comparedEvents := min refEvents.length dutEvents.length }
  if refEvents.length ≠ dutEvents.length then
    { result with
      status := .fail
      firstMismatchIndex := some (min refEvents.length dutEvents.length)
      firstMismatch := some (.eventCount refEvents.length dutEvents.length) }
  else compareFrom kind result 0 (refEvents.zip dutEvents)

end BoomCore.Trace
