import BoomCore.Proof.Immediate

/-!
# Immediates round trip

Extraction undoes the encoding of every number that a format can hold, and the encoding of what is
extracted puts every bit back.
-/

set_option autoImplicit false
set_option relaxedAutoImplicit false

namespace Rv64.ImmFormat

variable (f : ImmFormat)

/-! ### Positions -/

/-- The bit that a bit of the immediate comes from holds it, or the sign of which it is a copy. -/
theorem holds_of_source {n : ℕ} (hn : n < 32) :
    ∀ k ∈ f.source n, k < 32 ∧ f.holds k = some (min n f.sign) := by
  cases f <;> revert n <;> decide

theorem source_eq_none_iff {n : ℕ} (hn : n < 32) : f.source n = none ↔ n < f.zeros := by
  cases f <;> revert n <;> decide

/-- Copies of the sign come from where the sign does. -/
theorem source_of_sign_le {n : ℕ} (hn : n < 32) (hle : f.sign ≤ n) :
    f.source n = f.source f.sign := by
  cases f <;> revert n <;> decide

theorem source_of_holds {k : ℕ} (hk : k < 32) :
    ∀ n ∈ f.holds k, n < 32 ∧ f.source n = some k := by
  cases f <;> revert k <;> decide

theorem sign_lt : f.sign < 32 := by
  cases f <;> decide

theorem zeros_lt : f.zeros < 32 := by
  cases f <;> decide

/-! ### The numbers of a format -/

/-- Bit by bit, a number that the format can hold has zeros below and copies of its sign above. -/
theorem represents_toInt_iff (x : BitVec 32) :
    f.Represents x.toInt ↔
      (∀ n < 32, f.sign ≤ n → x.getLsbD n = x.getLsbD f.sign) ∧
        ∀ n < f.zeros, x.getLsbD n = false := by
  unfold Represents
  rw [toInt_range_iff x f.sign_lt, twoPow_dvd_toInt_iff x f.zeros_lt.le]

theorem toInt_ofInt_of_represents {imm : ℤ} (h : f.Represents imm) :
    (BitVec.ofInt 32 imm).toInt = imm := by
  have hpow : (2 ^ f.sign : ℤ) ≤ 2 ^ 31 :=
    pow_le_pow_right₀ (by decide) (Nat.le_of_lt_succ f.sign_lt)
  obtain ⟨⟨hlow, hhigh⟩, -⟩ := h
  rw [BitVec.toInt_ofInt, Int.bmod_eq_of_le]
  · have hbound : (-(2 ^ 31) : ℤ) ≤ imm := (neg_le_neg hpow).trans hlow
    exact hbound
  · have hbound : imm < 2 ^ 31 := hhigh.trans_le hpow
    exact hbound

end Rv64.ImmFormat

namespace BoomCore

open Rv64

section RoundTrip

variable (f : ImmFormat)

/-- The extracted immediate is a number that the format can hold. -/
theorem represents_extractImm (inst : BitVec 32) : f.Represents (extractImm f inst).toInt := by
  rw [f.represents_toInt_iff]
  refine ⟨fun n hn hle ↦ ?_, fun n hn ↦ ?_⟩
  · rw [getLsbD_extractImm inst f hn, getLsbD_extractImm inst f f.sign_lt,
      f.source_of_sign_le hn hle]
  · have hn' : n < 32 := hn.trans f.zeros_lt
    rw [getLsbD_extractImm inst f hn', (f.source_eq_none_iff hn').mpr hn]

/-- Extraction undoes the encoding. -/
theorem extractImm_encode {imm : BitVec 32} (h : f.Represents imm.toInt) (rest : BitVec 32) :
    extractImm f (f.encode imm rest) = imm := by
  obtain ⟨hsign, hzeros⟩ := (f.represents_toInt_iff imm).mp h
  apply BitVec.eq_of_getLsbD_eq
  intro n hn
  rw [getLsbD_extractImm _ f hn]
  cases hsource : f.source n with
  | none => exact (hzeros n ((f.source_eq_none_iff hn).mp hsource)).symm
  | some k =>
    obtain ⟨hk, hholds⟩ := f.holds_of_source hn k hsource
    dsimp only
    rw [f.getLsbD_encode imm rest hk, hholds]
    rcases Nat.le_total n f.sign with hle | hle
    · rw [Nat.min_eq_left hle]
    · rw [Nat.min_eq_right hle, hsign n hn hle]

/-- The encoding puts the extracted bits back. -/
theorem encode_extractImm (inst : BitVec 32) : f.encode (extractImm f inst) inst = inst := by
  apply BitVec.eq_of_getLsbD_eq
  intro k hk
  rw [f.getLsbD_encode _ inst hk]
  cases hholds : f.holds k with
  | none => rfl
  | some n =>
    obtain ⟨hn, hsource⟩ := f.source_of_holds hk n hholds
    dsimp only
    rw [getLsbD_extractImm inst f hn, hsource]

/-- Extraction inverts the encoding: on every number that the format can hold, whatever the other
bits of the word are, and on every word. -/
theorem immediates_roundTrip :
    (∀ (imm : ℤ) (rest : BitVec 32), f.Represents imm →
        (extractImm f (f.encode (BitVec.ofInt 32 imm) rest)).toInt = imm) ∧
      ∀ inst : BitVec 32,
        f.Represents (extractImm f inst).toInt ∧
          f.encode (BitVec.ofInt 32 (extractImm f inst).toInt) inst = inst := by
  refine ⟨fun imm rest h ↦ ?_, fun inst ↦ ⟨represents_extractImm f inst, ?_⟩⟩
  · have hint : (BitVec.ofInt 32 imm).toInt = imm := f.toInt_ofInt_of_represents h
    rw [extractImm_encode f (hint.symm ▸ h) rest, hint]
  · rw [BitVec.ofInt_toInt, encode_extractImm]

/-- The farthest backward branch, over the word with all bits set. -/
theorem immediates_roundTrip_branch :
    ImmFormat.b.Represents (-4096) ∧
      (extractImm .b (ImmFormat.b.encode (BitVec.ofInt 32 (-4096)) 0xFFFFFFFF#32)).toInt = -4096 :=
  ⟨by decide, (immediates_roundTrip .b).1 (-4096) 0xFFFFFFFF#32 (by decide)⟩

end RoundTrip

end BoomCore
