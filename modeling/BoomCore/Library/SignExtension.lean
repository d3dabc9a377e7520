import Mathlib.Data.BitVec
import Mathlib.Data.Nat.Notation
import Mathlib.Tactic.Ring

/-!
# Sign extension against zero extension

What a computation loses when it treats signed words as unsigned ones or only their lower halves:
zero extension is sign extension exactly for words without sign bit
(`signExtend_eq_setWidth_iff`), so is the logical right shift the arithmetic one
(`sshiftRight_eq_ushiftRight_iff`), and the product of the signed lower halves is the product of the
words exactly when the cross terms with the upper halves vanish (`mul_signedLower_iff`). The words
that a shift leaves as they are, or shifts out, are those of `shiftLeft_eq_self_iff`,
`sshiftRight_eq_self_iff` and `ushiftRight_eq_zero_iff`.
-/

set_option autoImplicit false
set_option relaxedAutoImplicit false

namespace SignExtension

variable {w v : ℕ}

/-! ### Extensions -/

theorem setWidth_signExtend (x : BitVec w) {k : ℕ} (hw : k ≤ w) (hv : k ≤ v) :
    (x.signExtend v).setWidth k = x.setWidth k := by
  apply BitVec.eq_of_getLsbD_eq
  intro i hi
  have hiv : i < v := by omega
  have hiw : i < w := by omega
  simp only [BitVec.getLsbD_setWidth, BitVec.getLsbD_signExtend, hi, hiv, hiw, decide_true,
    Bool.true_and, if_true]

theorem signExtend_inj {x y : BitVec w} (hv : w ≤ v) :
    x.signExtend v = y.signExtend v ↔ x = y := by
  constructor
  · intro heq
    rw [← BitVec.setWidth_eq x, ← BitVec.setWidth_eq y,
      ← setWidth_signExtend x (Nat.le_refl w) hv, ← setWidth_signExtend y (Nat.le_refl w) hv, heq]
  · exact fun heq ↦ congrArg _ heq

/-- Extending in two steps is extending at once. -/
theorem signExtend_signExtend (x : BitVec w) {u : ℕ} (hw : w ≤ u) (hu : u ≤ v) :
    (x.signExtend u).signExtend v = x.signExtend v := by
  apply BitVec.eq_of_toInt_eq
  rw [BitVec.toInt_signExtend_of_le hu, BitVec.toInt_signExtend_of_le hw,
    BitVec.toInt_signExtend_of_le (hw.trans hu)]

/-- Assumes: the extension adds a bit. It is the zero extension exactly without sign bit. -/
theorem signExtend_eq_setWidth_iff (x : BitVec w) (hv : w < v) :
    x.signExtend v = x.setWidth v ↔ x.msb = false := by
  constructor
  · intro heq
    have hbit := congrArg (fun y ↦ BitVec.getLsbD y w) heq
    simp only [BitVec.getLsbD_signExtend, BitVec.getLsbD_setWidth, hv, decide_true, Bool.true_and,
      Nat.lt_irrefl, if_false] at hbit
    rw [hbit]
    exact BitVec.getLsbD_of_ge x w (Nat.le_refl w)
  · exact BitVec.signExtend_eq_setWidth_of_msb_false

/-! ### Shifts -/

/-- Assumes: the shift moves a bit. The arithmetic shift is the logical one exactly without sign
bit. -/
theorem sshiftRight_eq_ushiftRight_iff (x : BitVec w) {n : ℕ} (hn : 0 < n) :
    x.sshiftRight n = x >>> n ↔ x.msb = false := by
  constructor
  · intro heq
    have hbit := congrArg BitVec.msb heq
    rw [BitVec.msb_sshiftRight, BitVec.msb_ushiftRight, decide_eq_true hn] at hbit
    exact hbit
  · exact fun hmsb ↦ BitVec.sshiftRight_eq_of_msb_false hmsb

/-- Assumes: the shift moves a bit. Only zero is left as it is. -/
theorem shiftLeft_eq_self_iff (x : BitVec w) {n : ℕ} (hn : 0 < n) : x <<< n = x ↔ x = 0 := by
  constructor
  · intro heq
    -- by induction on the bit: the bits below `n` are shifted in, the others come from below
    have hbit : ∀ k, x.getLsbD k = false := by
      intro k
      induction k using Nat.strong_induction_on with
      | _ k ih =>
        rw [← heq, BitVec.getLsbD_shiftLeft]
        by_cases hk : k < n
        · simp [hk]
        · rw [ih (k - n) (by omega), Bool.and_false]
    apply BitVec.eq_of_getLsbD_eq
    intro k _
    rw [hbit k]
    exact BitVec.getLsbD_zero.symm
  · intro hzero
    rw [hzero]
    exact BitVec.zero_shiftLeft n

/-- Assumes: the shift moves a bit. Only the words of equal bits are left as they are. -/
theorem sshiftRight_eq_self_iff (x : BitVec w) {n : ℕ} (hn : 0 < n) :
    x.sshiftRight n = x ↔ x = 0 ∨ x = BitVec.allOnes w := by
  constructor
  · intro heq
    have hbit : ∀ d k, w - k = d → k < w → x.getLsbD k = x.msb := by
      intro d
      induction d using Nat.strong_induction_on with
      | _ d ih =>
        intro k hd hk
        rw [← heq, BitVec.getLsbD_sshiftRight, BitVec.msb_sshiftRight]
        by_cases hlt : n + k < w
        · simp only [Nat.not_le_of_lt hk, decide_false, Bool.not_false, Bool.true_and, hlt, if_true]
          exact ih (w - (n + k)) (by omega) (n + k) rfl hlt
        · simp only [Nat.not_le_of_lt hk, decide_false, Bool.not_false, Bool.true_and, hlt,
            if_false]
    cases hmsb : x.msb with
    | false =>
      left
      apply BitVec.eq_of_getLsbD_eq
      intro k hk
      rw [hbit _ k rfl hk, hmsb]
      exact BitVec.getLsbD_zero.symm
    | true =>
      right
      apply BitVec.eq_of_getLsbD_eq
      intro k hk
      rw [hbit _ k rfl hk, hmsb, BitVec.getLsbD_allOnes, decide_eq_true hk]
  · intro heq
    rcases heq with hzero | hones
    · rw [hzero]
      exact BitVec.zero_sshiftRight
    · apply BitVec.eq_of_getLsbD_eq
      intro k hk
      rw [hones, BitVec.getLsbD_sshiftRight, BitVec.getLsbD_allOnes, BitVec.getLsbD_allOnes,
        BitVec.msb_allOnes (by omega)]
      by_cases hlt : n + k < w <;> simp [hk, hlt]

theorem ushiftRight_eq_zero_iff (x : BitVec w) (n : ℕ) : x >>> n = 0 ↔ x.toNat < 2 ^ n := by
  constructor
  · intro hzero
    have hdiv : x.toNat / 2 ^ n = 0 := by
      rw [← Nat.shiftRight_eq_div_pow, ← BitVec.toNat_ushiftRight, hzero]
      rfl
    exact (Nat.div_eq_zero_iff_lt (Nat.two_pow_pos n)).mp hdiv
  · intro hlt
    apply BitVec.eq_of_toNat_eq
    rw [BitVec.toNat_ushiftRight, Nat.shiftRight_eq_div_pow, Nat.div_eq_of_lt hlt]
    rfl

/-! ### Halves -/

section Halves

variable (a b : BitVec (w + w))

/-- The lower half of a word as a signed number. -/
def signedLower : BitVec (w + w) := (a.setWidth w).signExtend (w + w)

/-- The upper half that is left when the lower half is taken as a signed number. -/
def upperRest : BitVec w := ((a - signedLower a) >>> w).setWidth w

theorem setWidth_signedLower : (signedLower a).setWidth w = a.setWidth w := by
  unfold signedLower
  rw [setWidth_signExtend _ (Nat.le_refl w) (Nat.le_add_left w w), BitVec.setWidth_eq]

/-- A multiple of the unit of the upper half vanishes exactly when its lower half does. -/
theorem mul_twoPow_eq_zero_iff (c : BitVec (w + w)) :
    c * BitVec.twoPow (w + w) w = 0 ↔ c.setWidth w = 0 := by
  have hpos : 0 < 2 ^ w := Nat.two_pow_pos w
  have hmul : (c * BitVec.twoPow (w + w) w).toNat = c.toNat % 2 ^ w * 2 ^ w := by
    rw [BitVec.toNat_mul, BitVec.toNat_twoPow, Nat.mul_mod_mod, Nat.pow_add,
      Nat.mul_mod_mul_right]
  have hzero : (c * BitVec.twoPow (w + w) w = 0) ↔ c.toNat % 2 ^ w * 2 ^ w = 0 := by
    rw [← hmul]
    exact BitVec.toNat_eq
  have hlower : (c.setWidth w = 0) ↔ c.toNat % 2 ^ w = 0 := by
    rw [← BitVec.toNat_setWidth]
    exact BitVec.toNat_eq
  rw [hzero, hlower, Nat.mul_eq_zero]
  omega

/-- A word whose lower half vanishes is a multiple of the unit of the upper half. -/
theorem eq_mul_twoPow {c : BitVec (w + w)} (hlower : c.setWidth w = 0) :
    c = ((c >>> w).setWidth w).setWidth (w + w) * BitVec.twoPow (w + w) w := by
  have hmod : c.toNat % 2 ^ w = 0 := by
    rw [← BitVec.toNat_setWidth, hlower]
    rfl
  have hupper : c.toNat / 2 ^ w < 2 ^ w := by
    apply Nat.div_lt_of_lt_mul
    rw [← Nat.pow_add]
    exact c.isLt
  apply BitVec.eq_of_toNat_eq
  rw [BitVec.toNat_mul, BitVec.toNat_twoPow, Nat.mul_mod_mod, Nat.pow_add, Nat.mul_mod_mul_right,
    BitVec.toNat_setWidth, BitVec.toNat_setWidth, BitVec.toNat_ushiftRight,
    Nat.shiftRight_eq_div_pow, Nat.mod_mod_of_dvd _ (Nat.pow_dvd_pow 2 (Nat.le_add_left w w)),
    Nat.mod_mod, Nat.mod_eq_of_lt hupper, Nat.div_mul_cancel (Nat.dvd_of_mod_eq_zero hmod)]

/-- A word is its signed lower half and the rest of the upper half. -/
theorem eq_signedLower_add :
    a = signedLower a + (upperRest a).setWidth (w + w) * BitVec.twoPow (w + w) w := by
  have hw : w ≤ w + w := Nat.le_add_left w w
  have hlower : (a - signedLower a).setWidth w = 0 := by
    rw [sub_eq_add_neg, BitVec.setWidth_add _ _ hw, BitVec.setWidth_neg_of_le hw,
      setWidth_signedLower, ← sub_eq_add_neg, sub_self]
  unfold upperRest
  rw [← eq_mul_twoPow hlower]
  ring

/-- The product of the signed lower halves is the product of the words exactly when the lower half
of the cross terms vanishes. -/
theorem mul_signedLower_iff :
    signedLower a * signedLower b = a * b ↔
      upperRest a * b.setWidth w + a.setWidth w * upperRest b = 0 := by
  have hw : w ≤ w + w := Nat.le_add_left w w
  have ha := eq_signedLower_add a
  have hb := eq_signedLower_add b
  have hlowerA := setWidth_signedLower a
  have hlowerB := setWidth_signedLower b
  generalize signedLower a = lowerA at *
  generalize signedLower b = lowerB at *
  generalize upperRest a = restA at *
  generalize upperRest b = restB at *
  have hunit : BitVec.twoPow (w + w) w * BitVec.twoPow (w + w) w = 0 := by
    rw [mul_twoPow_eq_zero_iff]
    apply BitVec.eq_of_toNat_eq
    rw [BitVec.toNat_setWidth, BitVec.toNat_twoPow, Nat.mod_mod_of_dvd _ (Nat.pow_dvd_pow 2 hw),
      Nat.mod_self]
    rfl
  have hproduct : a * b = lowerA * lowerB +
      (restA.setWidth (w + w) * lowerB + lowerA * restB.setWidth (w + w)) *
        BitVec.twoPow (w + w) w := by
    calc a * b
        = (lowerA + restA.setWidth (w + w) * BitVec.twoPow (w + w) w) *
            (lowerB + restB.setWidth (w + w) * BitVec.twoPow (w + w) w) := by rw [← ha, ← hb]
      _ = lowerA * lowerB +
            (restA.setWidth (w + w) * lowerB + lowerA * restB.setWidth (w + w)) *
              BitVec.twoPow (w + w) w +
            restA.setWidth (w + w) * restB.setWidth (w + w) *
              (BitVec.twoPow (w + w) w * BitVec.twoPow (w + w) w) := by ring
      _ = _ := by rw [hunit, mul_zero, add_zero]
  rw [hproduct, left_eq_add, mul_twoPow_eq_zero_iff, BitVec.setWidth_add _ _ hw,
    BitVec.setWidth_mul _ _ hw, BitVec.setWidth_mul _ _ hw, hlowerA, hlowerB,
    BitVec.setWidth_setWidth_of_le _ hw, BitVec.setWidth_setWidth_of_le _ hw, BitVec.setWidth_eq,
    BitVec.setWidth_eq]

end Halves

end SignExtension
