import Mathlib.Data.Nat.Digits.Defs
import Mathlib.Tactic.IntervalCases

/-!
# Numerals as text

Reading a numeral digit by digit, in any base up to sixteen, and the fact that reading undoes
writing. Core writes numerals with `Nat.toDigits`; leading zeros do not change what is read.
-/

set_option autoImplicit false
set_option relaxedAutoImplicit false

namespace BoomCore

/-- The value of a digit character, letters of either case counting from ten. -/
def digitValue (c : Char) : Option ℕ :=
  if '0' ≤ c ∧ c ≤ '9' then some (c.toNat - '0'.toNat)
  else if 'a' ≤ c ∧ c ≤ 'z' then some (c.toNat - 'a'.toNat + 10)
  else if 'A' ≤ c ∧ c ≤ 'Z' then some (c.toNat - 'A'.toNat + 10)
  else none

/-- A digit of the given base. -/
def digitIn (base : ℕ) (c : Char) : Option ℕ :=
  (digitValue c).filter (· < base)

/-- Reads digits after those whose value is `acc`. -/
def readDigits (base acc : ℕ) (text : List Char) : Option ℕ :=
  text.foldlM (fun value c ↦ (digitIn base c).map (value * base + ·)) acc

section Reading

variable {base : ℕ}

@[simp]
theorem readDigits_nil (acc : ℕ) : readDigits base acc [] = some acc := rfl

theorem readDigits_cons (acc : ℕ) (c : Char) (text : List Char) :
    readDigits base acc (c :: text) =
      (digitIn base c).bind fun d ↦ readDigits base (acc * base + d) text := by
  unfold readDigits
  rw [List.foldlM_cons]
  cases digitIn base c <;> rfl

theorem readDigits_append (acc : ℕ) (text rest : List Char) :
    readDigits base acc (text ++ rest) =
      (readDigits base acc text).bind fun value ↦ readDigits base value rest :=
  List.foldlM_append

theorem digitIn_digitChar (hbase : base ≤ 16) {d : ℕ} (hd : d < base) :
    digitIn base (Nat.digitChar d) = some d := by
  have hvalue : ∀ e < 16, digitValue (Nat.digitChar e) = some e := by decide
  unfold digitIn
  rw [hvalue d (hd.trans_le hbase)]
  simp [hd]

/-- Reading undoes writing. -/
theorem readDigits_toDigits (hone : 1 < base) (hbase : base ≤ 16) (acc n : ℕ) :
    readDigits base acc (Nat.toDigits base n) =
      some (acc * base ^ (Nat.toDigits base n).length + n) := by
  induction n using Nat.strong_induction_on with
  | _ n ih =>
    by_cases hn : n < base
    · rw [Nat.toDigits_of_lt_base hn, readDigits_cons, digitIn_digitChar hbase hn]
      simp
    · have hle : base ≤ n := Nat.le_of_not_lt hn
      have hpos : 0 < base := hone.trans' Nat.one_pos
      rw [Nat.toDigits_of_base_le hone hle, readDigits_append,
        ih (n / base) (Nat.div_lt_self (hpos.trans_le hle) hone), Option.bind_some,
        readDigits_cons, digitIn_digitChar hbase (Nat.mod_lt n hpos), Option.bind_some,
        readDigits_nil, List.length_append, List.length_singleton, pow_succ, Nat.add_mul,
        Nat.mul_assoc, Nat.add_assoc, Nat.div_add_mod' n base]

/-- Zeros in front do not count. -/
theorem readDigits_replicate_zero (hpos : 0 < base) (n : ℕ) (text : List Char) :
    readDigits base 0 (List.replicate n '0' ++ text) = readDigits base 0 text := by
  induction n with
  | zero => rfl
  | succ n ih =>
    have hzero : digitIn base '0' = some 0 := by
      unfold digitIn
      rw [show digitValue '0' = some 0 from rfl]
      simp [hpos]
    rw [List.replicate_succ, List.cons_append, readDigits_cons, hzero, Option.bind_some,
      Nat.zero_mul, Nat.zero_add, ih]

/-- Padding a numeral with zeros leaves its value. -/
theorem readDigits_leftpad (hone : 1 < base) (hbase : base ≤ 16) (width n : ℕ) :
    readDigits base 0 (List.leftpad width '0' (Nat.toDigits base n)) = some n := by
  unfold List.leftpad
  rw [readDigits_replicate_zero (hone.trans' Nat.one_pos), readDigits_toDigits hone hbase,
    Nat.zero_mul, Nat.zero_add]

/-- Every character of a numeral is a digit of its base. -/
theorem mem_toDigits (hone : 1 < base) {n : ℕ} {c : Char} (hc : c ∈ Nat.toDigits base n) :
    ∃ d < base, c = Nat.digitChar d := by
  induction n using Nat.strong_induction_on with
  | _ n ih =>
    by_cases hn : n < base
    · rw [Nat.toDigits_of_lt_base hn] at hc
      exact ⟨n, hn, List.mem_singleton.mp hc⟩
    · have hle : base ≤ n := Nat.le_of_not_lt hn
      have hpos : 0 < base := hone.trans' Nat.one_pos
      rw [Nat.toDigits_of_base_le hone hle, List.mem_append, List.mem_singleton] at hc
      rcases hc with hc | hc
      · exact ih (n / base) (Nat.div_lt_self (hpos.trans_le hle) hone) hc
      · exact ⟨n % base, Nat.mod_lt n hpos, hc⟩

theorem mem_leftpad_toDigits (hone : 1 < base) {width n : ℕ} {c : Char}
    (hc : c ∈ List.leftpad width '0' (Nat.toDigits base n)) : ∃ d < base, c = Nat.digitChar d := by
  unfold List.leftpad at hc
  rcases List.mem_append.mp hc with hc | hc
  · exact ⟨0, hone.trans' Nat.one_pos, List.eq_of_mem_replicate hc⟩
  · exact mem_toDigits hone hc

end Reading

end BoomCore
