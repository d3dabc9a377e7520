import BoomCore.Library.SignExtension
import Mathlib.Algebra.Ring.Divisibility.Basic
import Mathlib.Tactic.IntervalCases

/-!
# The immediate formats of RV64

Where the instruction formats of the base set hold an immediate: `encode` puts one into a word and
leaves the other bits as they are. A format can hold the numbers of `Represents`. Bit by bit,
`holds` is the bit of the immediate that a bit of the word holds, and `source` the bit of the word
that a bit of the immediate, extended to 32 bits, comes from.
-/

set_option autoImplicit false
set_option relaxedAutoImplicit false

namespace Rv64

/-! ### Bits of signed numbers -/

section Bits

variable {w : ℕ} (x : BitVec w)

/-- Assumes: the word has a bit `m`. It is a number of `m` bits and a sign exactly when the bits
above are copies of bit `m`. -/
theorem toInt_range_iff {m : ℕ} (hm : m < w) :
    (-(2 ^ m : ℤ) ≤ x.toInt ∧ x.toInt < 2 ^ m) ↔ ∀ i < w, m ≤ i → x.getLsbD i = x.getLsbD m := by
  constructor
  · intro hrange
    have hsign : x = (BitVec.ofInt (m + 1) x.toInt).signExtend w := by
      apply BitVec.eq_of_toInt_eq
      rw [BitVec.toInt_signExtend_of_le hm, BitVec.toInt_ofInt, Int.bmod_eq_of_le]
      · rw [Nat.pow_succ]
        push_cast
        omega
      · rw [Nat.pow_succ]
        push_cast
        omega
    have hbit : ∀ i < w, m ≤ i →
        x.getLsbD i = (BitVec.ofInt (m + 1) x.toInt).getLsbD m := by
      intro i hi hle
      rw [hsign, BitVec.getLsbD_signExtend, decide_eq_true hi, Bool.true_and, ← hsign]
      split_ifs with hlow
      · rw [Nat.le_antisymm (Nat.le_of_lt_succ hlow) hle]
      · rw [BitVec.msb_eq_getLsbD_last]
        rfl
    intro i hi hle
    rw [hbit i hi hle, hbit m hm (Nat.le_refl m)]
  · intro hbits
    have hsign : x = (x.setWidth (m + 1)).signExtend w := by
      apply BitVec.eq_of_getLsbD_eq
      intro i hi
      rw [BitVec.getLsbD_signExtend, decide_eq_true hi, Bool.true_and]
      split_ifs with hlow
      · rw [BitVec.getLsbD_setWidth, decide_eq_true hlow, Bool.true_and]
      · rw [BitVec.msb_eq_getLsbD_last, BitVec.getLsbD_setWidth, hbits i hi (by omega)]
        simp
    rw [hsign, BitVec.toInt_signExtend_of_le hm]
    exact ⟨BitVec.le_toInt _, BitVec.toInt_lt⟩

/-- Assumes: the word has `z` bits. It is a multiple of `2 ^ z` exactly when they are zero. -/
theorem twoPow_dvd_toInt_iff {z : ℕ} (hz : z ≤ w) :
    (2 ^ z : ℤ) ∣ x.toInt ↔ ∀ i < z, x.getLsbD i = false := by
  have hdvd : (2 ^ z : ℤ) ∣ x.toInt ↔ 2 ^ z ∣ x.toNat := by
    have hpow : (2 ^ z : ℤ) ∣ 2 ^ w := pow_dvd_pow 2 hz
    rw [BitVec.toInt_eq_toNat_cond]
    split_ifs
    · exact_mod_cast Int.natCast_dvd_natCast
    · rw [dvd_sub_left (by exact_mod_cast hpow)]
      exact_mod_cast Int.natCast_dvd_natCast
  have hzero : 2 ^ z ∣ x.toNat ↔ x.setWidth z = 0#z := by
    rw [Nat.dvd_iff_mod_eq_zero, ← BitVec.toNat_setWidth, BitVec.toNat_eq]
    rfl
  rw [hdvd, hzero]
  constructor
  · intro heq i hi
    have hbit := congrArg (fun y ↦ BitVec.getLsbD y i) heq
    simpa [hi] using hbit
  · intro hbits
    apply BitVec.eq_of_getLsbD_eq
    intro i hi
    rw [BitVec.getLsbD_setWidth, hbits i hi, Bool.and_false, BitVec.getLsbD_zero]

end Bits

/-! ### Formats -/

inductive ImmFormat | i | s | b | u | j
  deriving DecidableEq

namespace ImmFormat

/-- The position of the sign bit of an immediate. -/
def sign : ImmFormat → ℕ
  | i => 11
  | s => 11
  | b => 12
  | u => 31
  | j => 20

/-- How many low bits of an immediate are zero and not encoded. -/
def zeros : ImmFormat → ℕ
  | i => 0
  | s => 0
  | b => 1
  | u => 12
  | j => 1

/-- The numbers that the format can hold. -/
def Represents (f : ImmFormat) (imm : ℤ) : Prop :=
  (-(2 ^ f.sign) ≤ imm ∧ imm < 2 ^ f.sign) ∧ 2 ^ f.zeros ∣ imm

instance (f : ImmFormat) (imm : ℤ) : Decidable (f.Represents imm) :=
  inferInstanceAs (Decidable (_ ∧ _))

/-- The word with the bits of `imm` where the format has them; its other bits are those of
`rest`. -/
def encode (f : ImmFormat) (imm rest : BitVec 32) : BitVec 32 :=
  match f with
  | i => imm.extractLsb' 0 12 ++ rest.extractLsb' 0 20
  | s => imm.extractLsb' 5 7 ++ rest.extractLsb' 12 13 ++ imm.extractLsb' 0 5 ++
      rest.extractLsb' 0 7
  | b => imm.extractLsb' 12 1 ++ imm.extractLsb' 5 6 ++ rest.extractLsb' 12 13 ++
      imm.extractLsb' 1 4 ++ imm.extractLsb' 11 1 ++ rest.extractLsb' 0 7
  | u => imm.extractLsb' 12 20 ++ rest.extractLsb' 0 12
  | j => imm.extractLsb' 20 1 ++ imm.extractLsb' 1 10 ++ imm.extractLsb' 11 1 ++
      imm.extractLsb' 12 8 ++ rest.extractLsb' 0 12

/-- The bit of the immediate that bit `k` of a word holds. -/
def holds (f : ImmFormat) (k : ℕ) : Option ℕ :=
  match f with
  | i => if k < 20 then none else some (k - 20)
  | s => if k < 7 then none else if k < 12 then some (k - 7) else if k < 25 then none
      else some (k - 20)
  | b => if k < 7 then none else if k = 7 then some 11 else if k < 12 then some (k - 7)
      else if k < 25 then none else if k < 31 then some (k - 20) else some 12
  | u => if k < 12 then none else some k
  | j => if k < 12 then none else if k < 20 then some k else if k = 20 then some 11
      else if k < 31 then some (k - 20) else some 20

/-- The bit of the word that bit `n` of the extended immediate comes from. -/
def source (f : ImmFormat) (n : ℕ) : Option ℕ :=
  match f with
  | i => if n < 11 then some (20 + n) else some 31
  | s => if n < 5 then some (7 + n) else if n < 11 then some (20 + n) else some 31
  | b => if n = 0 then none else if n < 5 then some (7 + n) else if n < 11 then some (20 + n)
      else if n = 11 then some 7 else some 31
  | u => if n < 12 then none else some n
  | j => if n = 0 then none else if n < 11 then some (20 + n) else if n = 11 then some 20
      else if n < 20 then some n else some 31

theorem getLsbD_encode (f : ImmFormat) (imm rest : BitVec 32) {k : ℕ} (hk : k < 32) :
    (f.encode imm rest).getLsbD k =
      match f.holds k with
      | none => rest.getLsbD k
      | some n => imm.getLsbD n := by
  cases f <;> unfold encode holds <;> dsimp only <;>
    simp only [BitVec.getLsbD_append, BitVec.getLsbD_extractLsb'] <;>
    interval_cases k <;> simp

end ImmFormat

end Rv64
