import BoomCore.Library.Text

/-!
# The C++ trace comparator

`tb/differential/trace_json_util.hpp`. A record is not parsed: the text behind a quoted key is cut
out of its line, and two events are compared by such texts, joined with bars. `FileComparison` is
what `compare_files` prints; its exit code is `FileComparison.code`.
-/

set_option autoImplicit false
set_option relaxedAutoImplicit false

namespace BoomCore.TraceJsonUtil

structure Event where
  type : List Char
  pc : List Char
  instruction : List Char
  rdValid : List Char
  rd : List Char
  rdValue : List Char
  exception : List Char
  exceptionCause : List Char
  taken : List Char
  branchMispredict : List Char
  normalizedCycle : List Char
  deriving DecidableEq

/-- The text of a value that starts right here. -/
def cutValue : List Char → List Char
  | [] => []
  | '"' :: rest => if '"' ∈ rest then rest.takeWhile (· ≠ '"') else []
  | rest => rest.takeWhile fun c ↦ c ≠ ',' ∧ c ≠ '}'

def value (line : List Char) (key : String) : List Char :=
  match afterFirst ('"' :: (key.toList ++ ['"', ':'])) line with
  | none => []
  | some rest => cutValue rest

def parseEvent (line : List Char) : Event :=
  { type := value line "event", pc := value line "pc", instruction := value line "instruction"
    rdValid := value line "rd_valid", rd := value line "rd", rdValue := value line "rd_value"
    exception := value line "exception", exceptionCause := value line "exception_cause"
    taken := value line "taken", branchMispredict := value line "branch_mispredict"
    normalizedCycle := value line "normalized_cycle" }

namespace Event

def isCommit (e : Event) : Bool := e.type = "commit".toList

def isBranch (e : Event) : Bool := e.type = "branch".toList

end Event

/-- The events of a file. -/
def loadEvents (file : List Char) (commitsOnly : Bool) : List Event :=
  ((getlines file).map parseEvent).filter fun e ↦ e.isCommit || (!commitsOnly && e.isBranch)

/-- A field that counts only if its valid bit is the text `true`. -/
def ifTrue (valid text : List Char) : List Char :=
  if valid = "true".toList then text else "null".toList

def signature (e : Event) (includeCycle : Bool) : List Char :=
  let sig := e.type ++ '|' :: (e.pc ++ '|' :: e.instruction)
  let sig :=
    if e.isCommit then
      sig ++ '|' :: e.rdValid ++ '|' :: ifTrue e.rdValid e.rd ++
        '|' :: ifTrue e.rdValid e.rdValue ++
        '|' :: e.exception ++ '|' :: ifTrue e.exception e.exceptionCause
    else if e.isBranch then sig ++ '|' :: e.taken ++ '|' :: e.branchMispredict
    else sig
  if includeCycle then sig ++ '|' :: e.normalizedCycle else sig

inductive FileComparison
  | eventCount (ref dut : ℕ)
  | mismatch (index : ℕ) (ref dut : List Char)
  | pass (compared : ℕ)
  deriving DecidableEq

def FileComparison.code : FileComparison → ℕ
  | pass _ => 0
  | _ => 1

/-- The loop over the events, from index `i` on. -/
def compareFrom (includeCycle : Bool) (compared : ℕ) : ℕ → List (Event × Event) → FileComparison
  | _, [] => .pass compared
  | i, (ref, dut) :: rest =>
    if signature ref includeCycle ≠ signature dut includeCycle then
      .mismatch i (signature ref includeCycle) (signature dut includeCycle)
    else compareFrom includeCycle compared (i + 1) rest

def compareFiles (refFile dutFile : List Char) (commitsOnly includeCycle : Bool) :
    FileComparison :=
  let ref := loadEvents refFile commitsOnly
  let dut := loadEvents dutFile commitsOnly
  if ref.length ≠ dut.length then .eventCount ref.length dut.length
  else compareFrom includeCycle ref.length 0 (ref.zip dut)

end BoomCore.TraceJsonUtil
