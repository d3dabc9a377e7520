import BoomCore.Library.Numeral
import BoomCore.Library.Text

/-!
# Values in trace records

`scripts/provisional_gate3_lib.py`, lines 60 to 89: the values a trace record holds, reading one
as an integer, and the hexadecimal text of a number. Python reads the integers of a record with
`int(text, 0)`; its digits are taken here to be ASCII.
-/

set_option autoImplicit false
set_option relaxedAutoImplicit false

namespace BoomCore.Trace

/-- What `json.dumps` writes for a float. -/
structure FloatText where
  text : String
  plain : ∀ c ∈ text.toList, c ∈ "0123456789+-.eNaInfinity".toList
  deriving DecidableEq

mutual

/-- A value of a trace record, as `json.loads` returns it. -/
inductive JsonValue
  | null
  | bool (b : Bool)
  | int (i : ℤ)
  | float (t : FloatText)
  | str (s : String)
  | array (items : JsonItems)
  | object (fields : JsonFields)

inductive JsonItems
  | nil
  | cons (value : JsonValue) (rest : JsonItems)

/-- The items of a dictionary, in the order of insertion. -/
inductive JsonFields
  | nil
  | cons (name : String) (value : JsonValue) (rest : JsonFields)

end

deriving instance DecidableEq for JsonValue, JsonItems, JsonFields

namespace JsonValue

/-- `bool(value)` -/
def truthy : JsonValue → Bool
  | null => false
  | bool b => b
  | int i => i != 0
  | float t => t.text != "0.0" && t.text != "-0.0"
  | str s => s != ""
  | array items => items != .nil
  | object fields => fields != .nil

def ofBool : Option Bool → JsonValue
  | none => null
  | some b => bool b

def ofInt : Option ℤ → JsonValue
  | none => null
  | some i => int i

end JsonValue

/-- `invalidValue` stands for the literal that is the `str` of a float, a list or a dictionary. -/
inductive ValueError
  | invalidLiteral (text : String)
  | invalidValue (value : JsonValue)
  | message (text : String)
  deriving DecidableEq

/-! ### Python's integer literals -/

/-- The characters `str.strip` removes. -/
def isSpace (c : Char) : Bool :=
  (9 ≤ c.toNat && c.toNat ≤ 13) || (28 ≤ c.toNat && c.toNat ≤ 32) || c.toNat == 0x85 ||
    c.toNat == 0xA0 || c.toNat == 0x1680 || (0x2000 ≤ c.toNat && c.toNat ≤ 0x200A) ||
    c.toNat == 0x2028 || c.toNat == 0x2029 || c.toNat == 0x202F || c.toNat == 0x205F ||
    c.toNat == 0x3000

def strip (text : List Char) : List Char := trimBy isSpace text

/-- Removes the underscores of a literal; each must stand before a digit. -/
def dropUnderscores : List Char → Option (List Char)
  | [] => some []
  | '_' :: [] => none
  | '_' :: c :: rest => if c = '_' then none else (dropUnderscores rest).map (c :: ·)
  | c :: rest => (dropUnderscores rest).map (c :: ·)

/-- The digits after `0x`, `0o` or `0b`. -/
def prefixedNat (base : ℕ) (text : List Char) : Option ℕ :=
  (dropUnderscores text).bind fun digits ↦
    if digits = [] then none else readDigits base 0 digits

/-- A decimal literal, which does not start with a zero unless it is zero. -/
def decimalNat (text : List Char) : Option ℕ :=
  if text.head? = some '_' then none
  else (dropUnderscores text).bind fun digits ↦
    if digits = [] ∨ (digits.head? = some '0' ∧ digits.any (· ≠ '0')) then none
    else readDigits 10 0 digits

def literalNat : List Char → Option ℕ
  | '0' :: 'x' :: rest => prefixedNat 16 rest
  | '0' :: 'X' :: rest => prefixedNat 16 rest
  | '0' :: 'o' :: rest => prefixedNat 8 rest
  | '0' :: 'O' :: rest => prefixedNat 8 rest
  | '0' :: 'b' :: rest => prefixedNat 2 rest
  | '0' :: 'B' :: rest => prefixedNat 2 rest
  | text => decimalNat text

/-- `int(text, 0)` -/
def literalInt : List Char → Option ℤ
  | '-' :: rest => (literalNat rest).map fun n : ℕ ↦ -(n : ℤ)
  | '+' :: rest => (literalNat rest).map fun n : ℕ ↦ (n : ℤ)
  | text => (literalNat text).map fun n : ℕ ↦ (n : ℤ)

def parseInt : JsonValue → Except ValueError (Option ℤ)
  | .null => .ok none
  | .bool b => .ok (some b.toInt)
  | .int i => .ok (some i)
  | .str s =>
    if strip s.toList = [] ∨ (strip s.toList).map Char.toLower = ['n', 'u', 'l', 'l'] then .ok none
    else
      match literalInt (strip s.toList) with
      | some i => .ok (some i)
      | none => .error (.invalidLiteral s)
  | .float t => .error (.invalidValue (.float t))
  | .array items => .error (.invalidValue (.array items))
  | .object fields => .error (.invalidValue (.object fields))

/-- `a or b` on optional integers: zero counts as missing. -/
def orElseInt (a b : Option ℤ) : Option ℤ :=
  match a with
  | some n => if n = 0 then b else some n
  | none => b

/-! ### Hexadecimal text -/

/-- `f"0x{value:0{width}x}"` -/
def hexChars (value width : ℕ) : List Char :=
  '0' :: 'x' :: List.leftpad width '0' (Nat.toDigits 16 value)

def fmtHex (value width : ℕ) : String := String.ofList (hexChars value width)

/-- A text that `fmt_hex` wrote. -/
structure HexText where
  text : String
  formatted : ∃ value width, text = fmtHex value width

instance : DecidableEq HexText := fun s t ↦
  decidable_of_iff (s.text = t.text) ⟨fun h ↦ by cases s; cases t; cases h; rfl, fun h ↦ by rw [h]⟩

def fmtPc (value : Option ℕ) : Option HexText :=
  value.map fun n ↦ ⟨fmtHex n 16, n, 16, rfl⟩

def fmtInst (value : Option ℕ) : Option HexText :=
  value.map fun n ↦ ⟨fmtHex n 8, n, 8, rfl⟩

section HexText

/-- A numeral in base sixteen has no character that `strip` removes and no underscore. -/
theorem hex_digit_plain {d : ℕ} (hd : d < 16) :
    isSpace (Nat.digitChar d) = false ∧ Nat.digitChar d ≠ '_' := by
  revert d
  decide

theorem dropUnderscores_eq_self {text : List Char} (h : ∀ c ∈ text, c ≠ '_') :
    dropUnderscores text = some text := by
  fun_induction dropUnderscores text with
  | case1 => rfl
  | case2 => exact absurd rfl (h '_' List.mem_cons_self)
  | case3 rest => exact absurd rfl (h '_' List.mem_cons_self)
  | case4 c rest => exact absurd rfl (h '_' List.mem_cons_self)
  | case5 c rest _ _ ih => rw [ih fun d hd ↦ h d (List.mem_cons_of_mem _ hd), Option.map_some]

/-- The text of a number is read back as that number. -/
theorem parseInt_fmtHex (value width : ℕ) :
    parseInt (.str (fmtHex value width)) = .ok (some (value : ℤ)) := by
  have hplain : ∀ c ∈ List.leftpad width '0' (Nat.toDigits 16 value),
      isSpace c = false ∧ c ≠ '_' := by
    intro c hc
    obtain ⟨d, hd, rfl⟩ := mem_leftpad_toDigits (by decide) hc
    exact hex_digit_plain hd
  have hstrip : strip (fmtHex value width).toList = hexChars value width := by
    unfold fmtHex
    rw [String.toList_ofList]
    refine trimBy_eq_self fun c hc ↦ ?_
    rcases List.mem_cons.mp hc with rfl | hc
    · rfl
    rcases List.mem_cons.mp hc with rfl | hc
    · rfl
    · exact (hplain c hc).1
  have hne : List.leftpad width '0' (Nat.toDigits 16 value) ≠ [] := by
    unfold List.leftpad
    exact List.append_ne_nil_of_right_ne_nil _ Nat.toDigits_ne_nil
  have hread : literalInt (hexChars value width) = some (value : ℤ) := by
    have hnat : literalNat (hexChars value width) = some value := by
      show prefixedNat 16 (List.leftpad width '0' (Nat.toDigits 16 value)) = _
      unfold prefixedNat
      rw [dropUnderscores_eq_self fun c hc ↦ (hplain c hc).2]
      simp only [Option.bind_some, if_neg hne]
      exact readDigits_leftpad (by decide) (by decide) width value
    show (literalNat (hexChars value width)).map (fun n : ℕ ↦ (n : ℤ)) = _
    rw [hnat, Option.map_some]
  unfold parseInt
  dsimp only
  rw [hstrip, if_neg, hread]
  unfold hexChars
  simp

end HexText

/-! ### Fields of raw records -/

/-- A field whose value `parse_int` reads. -/
structure IntField where
  value : JsonValue
  parses : (parseInt value).isOk = true

namespace IntField

def read (field : IntField) : Option ℤ := (parseInt field.value).toOption.join

def absent : IntField := ⟨.null, rfl⟩

def ofInt (i : ℤ) : IntField := ⟨.int i, rfl⟩

end IntField

/-- A field that the trace schemas call "hex string or null". -/
structure HexField where
  value : JsonValue
  parses : ∃ n : Option ℕ, parseInt value = .ok (n.map Nat.cast)

namespace HexField

def read (field : HexField) : Option ℕ :=
  (parseInt field.value).toOption.join.map Int.toNat

def absent : HexField := ⟨.null, none, rfl⟩

def ofNat (n : ℕ) : HexField := ⟨.str (fmtHex n 16), some n, parseInt_fmtHex n 16⟩

@[simp]
theorem read_absent : absent.read = none := rfl

@[simp]
theorem read_ofNat (n : ℕ) : (ofNat n).read = some n := by
  unfold read ofNat
  dsimp only
  rw [parseInt_fmtHex]
  rfl

end HexField

namespace HexText

/-- `parse_int` of a text that `fmt_hex` wrote, which never fails. -/
def read (t : HexText) : Option ℕ :=
  (parseInt (.str t.text)).toOption.join.map Int.toNat

end HexText

theorem fmtHex_inj {m n width : ℕ} : fmtHex m width = fmtHex n width ↔ m = n := by
  refine ⟨fun h ↦ ?_, fun h ↦ by rw [h]⟩
  have hread := congrArg (fun s ↦ parseInt (.str s)) h
  simp only [parseInt_fmtHex, Except.ok.injEq, Option.some.injEq] at hread
  exact Int.ofNat.inj hread

end BoomCore.Trace
