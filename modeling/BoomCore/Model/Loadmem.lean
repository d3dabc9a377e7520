import BoomCore.Model.TraceRecord
import Mathlib.Data.Nat.Digits.Defs

/-!
# The three loaders of program images

`SimpleMemory` of `reference/verilator_trace/standalone_boom_trace.cpp`, `IdealMem` of
`tb/differential/hls_prefix_trace_tb.cpp` and `parse_loadmem` of
`scripts/validate_trace_against_elf.py`, each from the text of a file to the word at an address.
Files are UTF-8 texts: on other bytes `parse_loadmem` raises, while the C++ loaders read any bytes.
Addresses are natural numbers: a file is far shorter than `2^64` bytes.
-/

set_option autoImplicit false
set_option relaxedAutoImplicit false

namespace BoomCore.Loadmem

open Trace

inductive LoadError
  | oddLength
  | nonHex
  deriving DecidableEq, Repr

/-! ### Lines -/

/-- What Python reads in text mode: every way to end a line is a newline. -/
def universalNewlines : List Char → List Char
  | [] => []
  | '\r' :: '\n' :: rest => '\n' :: universalNewlines rest
  | '\r' :: rest => '\n' :: universalNewlines rest
  | c :: rest => c :: universalNewlines rest

/-- `std::isspace` -/
def isSpaceC (c : Char) : Bool := c == ' ' || (9 ≤ c.toNat && c.toNat ≤ 13)

def trim (s : List Char) : List Char := trimBy isSpaceC s

/-- `std::string::size` -/
def byteSize (s : List Char) : ℕ := (s.map Char.utf8Size).sum

/-- What stands before a comment. -/
def beforeComment (line : List Char) : List Char := line.takeWhile (· ≠ '#')

def hexNibble (c : Char) : Option ℕ := digitIn 16 c

/-! ### `SimpleMemory` -/

structure SimpleMemory where
  size : ℕ
  bytes : ℕ → Option ℕ := fun _ ↦ none

/-- The bytes of a line, from its end on. -/
def lineBytes : List Char → Option (List ℕ)
  | [] => some []
  | [_] => none
  | hi :: lo :: rest =>
    match hexNibble hi, hexNibble lo, lineBytes rest with
    | some h, some l, some bytes => some (bytes ++ [16 * h + l])
    | _, _, _ => none

namespace SimpleMemory

def wrap (m : SimpleMemory) (addr : ℕ) : ℕ := if m.size = 0 then addr else addr % m.size

def store (m : SimpleMemory) (addr : ℕ) : List ℕ → SimpleMemory
  | [] => m
  | byte :: rest =>
    store { m with bytes := Function.update m.bytes (m.wrap addr) (some byte) } (addr + 1) rest

/-- What `load_hex` takes from a line. -/
def lineData (line : List Char) : List Char :=
  if '#' ∈ trim line then trim (beforeComment (trim line)) else trim line

/-- The body of the loop of `load_hex`. -/
def loadLine (state : SimpleMemory × ℕ) (line : List Char) :
    Except LoadError (SimpleMemory × ℕ) :=
  if lineData line = [] then .ok state
  else if byteSize (lineData line) % 2 = 1 then .error .oddLength
  else
    match lineBytes (lineData line) with
    | none => .error .nonHex
    | some bytes => .ok (state.1.store state.2 bytes, state.2 + byteSize (lineData line) / 2)

def loadHex (m : SimpleMemory) (start : ℕ) (text : List Char) : Except LoadError SimpleMemory :=
  ((getlines text).foldlM loadLine (m, start)).map Prod.fst

/-- `read_u32`; nothing when no byte of the word was loaded. -/
def readU32 (m : SimpleMemory) (addr : ℕ) : Option ℕ :=
  let seen := (List.range 4).filterMap fun i ↦
    (m.bytes (m.wrap (addr + i))).map (· <<< (8 * i))
  if seen = [] then none else some (seen.foldl (· ||| ·) 0)

end SimpleMemory

/-! ### `IdealMem` -/

structure IdealMem where
  words : List ℕ := []

/-- The digits that `strtoull` reads in base sixteen, behind a sign. -/
def strtoullDigits : List Char → List Char
  | '0' :: 'x' :: rest => rest.takeWhile fun c ↦ (digitIn 16 c).isSome
  | '0' :: 'X' :: rest => rest.takeWhile fun c ↦ (digitIn 16 c).isSome
  | text => text.takeWhile fun c ↦ (digitIn 16 c).isSome

def strtoullMagnitude (text : List Char) : ℕ := (readDigits 16 0 (strtoullDigits text)).getD 0

/-- `std::strtoull(text, 0, 16)` on a text without blanks. A number too large for 64 bits is read as
the largest one, behind a minus sign as well. -/
def strtoull : List Char → ℕ
  | '-' :: rest =>
    if 2 ^ 64 ≤ strtoullMagnitude rest then 2 ^ 64 - 1
    else (2 ^ 64 - strtoullMagnitude rest) % 2 ^ 64
  | '+' :: rest => min (strtoullMagnitude rest) (2 ^ 64 - 1)
  | text => min (strtoullMagnitude text) (2 ^ 64 - 1)

namespace IdealMem

def token (line : List Char) : List Char := (beforeComment line).filter fun c ↦ !isSpaceC c

/-- The words that `load_hex` appends for a token. -/
def tokenWords (text : List Char) : List ℕ :=
  if text = [] then []
  else if byteSize text ≤ 8 then [strtoull text % 2 ^ 32]
  else [strtoull text % 2 ^ 32, strtoull text / 2 ^ 32 % 2 ^ 32]

def loadHex (m : IdealMem) (text : List Char) : IdealMem :=
  { words := (getlines text).foldl (fun words line ↦ words ++ tokenWords (token line)) m.words }

def read (m : IdealMem) (addr : ℕ) : ℕ :=
  if addr < entryPc then 0 else m.words.getD ((addr - entryPc) >>> 2) 0

end IdealMem

/-! ### `parse_loadmem` -/

/-- `bytes.fromhex` -/
def fromHex : List Char → Option (List ℕ)
  | [] => some []
  | [c] => if isSpaceC c then some [] else none
  | hi :: lo :: rest =>
    if isSpaceC hi then fromHex (lo :: rest)
    else
      match hexNibble hi, hexNibble lo, fromHex rest with
      | some h, some l, some bytes => some ((16 * h + l) :: bytes)
      | _, _, _ => none

/-- The loop that puts the words of a line into the mapping, four bytes a word. -/
def mapWords (mapping : ℕ → Option String) (addr : ℕ) (data : List ℕ) : ℕ → Option String :=
  (List.range ((data.length + 3) / 4)).foldl
    (fun mapping i ↦ Function.update mapping (addr + 4 * i)
      (some (fmtHex (Nat.ofDigits 256 ((data.drop (4 * i)).take 4)) 8)))
    mapping

def parseLine (state : (ℕ → Option String) × ℕ) (line : List Char) :
    Except LoadError ((ℕ → Option String) × ℕ) :=
  if strip (beforeComment line) = [] then .ok state
  else if (strip (beforeComment line)).length % 2 = 1 then .error .oddLength
  else
    match fromHex (strip (beforeComment line)) with
    | none => .error .nonHex
    | some bytes => .ok (mapWords state.1 state.2 bytes.reverse, state.2 + bytes.length)

/-- `parse_loadmem(path, base)` -/
def parseLoadmem (text : List Char) (base : ℕ) : Except LoadError (ℕ → Option String) :=
  ((getlines (universalNewlines text)).foldlM parseLine (fun _ ↦ none, base)).map Prod.fst

end BoomCore.Loadmem
