import Mathlib.Data.List.Basic
import Mathlib.Tactic.Common
import Mathlib.Tactic.Ring

/-!
# Byte memories

A memory maps addresses to bytes. `readNat` is the little-endian value of consecutive bytes; a lane
of it is the value of the bytes of the lane (`readNat_div`, `readNat_mod`), and the value is put
together lane by lane (`foldl_or_eq`). `signExtend_eq_xor_sub` is the branch-free sign extension.
-/

set_option autoImplicit false
set_option relaxedAutoImplicit false

/-- A memory of bytes with addresses of `w` bits. -/
abbrev ByteMemory (w : ℕ) := BitVec w → BitVec 8

namespace ByteMemory

variable {w : ℕ}

/-- The value of the `k` bytes from the address `a` on, the first one the lowest. -/
def readNat (m : ByteMemory w) (a : BitVec w) : ℕ → ℕ
  | 0 => 0
  | k + 1 => readNat m a k + 256 ^ k * (m (a + BitVec.ofNat w k)).toNat

/-- Write byte `i` of `data` to the address `a + i` for every set bit `i` of `mask`, `k` bytes in
all. -/
def writeMasked {v u : ℕ} (m : ByteMemory w) (a : BitVec w) (data : BitVec v) (mask : BitVec u)
    (k : ℕ) : ByteMemory w :=
  (List.range k).foldl
    (fun m i ↦
      if mask.getLsbD i then
        Function.update m (a + BitVec.ofNat w i) (data.extractLsb' (8 * i) 8)
      else m) m

theorem readNat_lt (m : ByteMemory w) (a : BitVec w) (k : ℕ) : readNat m a k < 256 ^ k := by
  induction k with
  | zero => exact Nat.zero_lt_one
  | succ k ih =>
    have hbyte : (m (a + BitVec.ofNat w k)).toNat ≤ 255 :=
      Nat.le_of_lt_succ (m (a + BitVec.ofNat w k)).isLt
    calc readNat m a k + 256 ^ k * (m (a + BitVec.ofNat w k)).toNat
        ≤ readNat m a k + 256 ^ k * 255 := Nat.add_le_add_left (Nat.mul_le_mul_left _ hbyte) _
      _ < 256 ^ k + 256 ^ k * 255 := Nat.add_lt_add_right ih _
      _ = 256 ^ (k + 1) := by ring

/-- The bytes from `a` on, split after the first `j`. -/
theorem readNat_add (m : ByteMemory w) (a : BitVec w) (j k : ℕ) :
    readNat m a (j + k) = readNat m a j + 256 ^ j * readNat m (a + BitVec.ofNat w j) k := by
  induction k with
  | zero => rfl
  | succ k ih =>
    have haddr : a + BitVec.ofNat w (j + k) = a + BitVec.ofNat w j + BitVec.ofNat w k := by
      rw [BitVec.ofNat_add, BitVec.add_assoc]
    rw [← Nat.add_assoc, readNat, readNat, ih, haddr, pow_add]
    ring

/-- Dropping the lowest bytes of a value. -/
theorem readNat_div (m : ByteMemory w) (a : BitVec w) {i k : ℕ} (h : i ≤ k) :
    readNat m a k / 256 ^ i = readNat m (a + BitVec.ofNat w i) (k - i) := by
  obtain ⟨l, rfl⟩ := Nat.exists_eq_add_of_le h
  rw [readNat_add, Nat.add_mul_div_left _ _ (Nat.pow_pos (by decide)),
    Nat.div_eq_of_lt (readNat_lt m a i), Nat.zero_add, Nat.add_sub_cancel_left]

/-- Taking the lowest bytes of a value. -/
theorem readNat_mod (m : ByteMemory w) (a : BitVec w) (k j : ℕ) :
    readNat m a k % 256 ^ j = readNat m a (min j k) := by
  rcases Nat.le_total j k with hle | hle
  · obtain ⟨l, rfl⟩ := Nat.exists_eq_add_of_le hle
    rw [Nat.min_eq_left hle, readNat_add, Nat.add_mul_mod_self_left]
    exact Nat.mod_eq_of_lt (readNat_lt m a j)
  · rw [Nat.min_eq_right hle]
    exact Nat.mod_eq_of_lt ((readNat_lt m a k).trans_le (Nat.pow_le_pow_right (by decide) hle))

/-- The bytes of a value, put together lane by lane. -/
theorem foldl_or_eq (m : ByteMemory w) (a : BitVec w) {v k : ℕ} (hk : 8 * k ≤ v) :
    (List.range k).foldl
      (fun value i ↦ value ||| (m (a + BitVec.ofNat w i)).setWidth v <<< (8 * i)) 0#v =
        BitVec.ofNat v (readNat m a k) := by
  induction k with
  | zero => rfl
  | succ k ih =>
    have hlow := readNat_lt m a k
    have hbyte : (m (a + BitVec.ofNat w k)).toNat < 256 := (m (a + BitVec.ofNat w k)).isLt
    have hpow : (256 : ℕ) ^ k = 2 ^ (8 * k) := by rw [pow_mul]; rfl
    have hpow' : (256 : ℕ) ^ (k + 1) = 2 ^ (8 * (k + 1)) := by rw [pow_mul]; rfl
    have hfits : (256 : ℕ) ^ (k + 1) ≤ 2 ^ v := by
      rw [hpow']
      exact Nat.pow_le_pow_right (by decide) hk
    have hlt := readNat_lt m a (k + 1)
    have hlow' : 256 ^ k ≤ 2 ^ v := (Nat.pow_le_pow_right (by decide) (Nat.le_succ k)).trans hfits
    have hlane : (m (a + BitVec.ofNat w k)).toNat * 2 ^ (8 * k) < 2 ^ v := by
      rw [← hpow]
      calc (m (a + BitVec.ofNat w k)).toNat * 256 ^ k
          < 256 * 256 ^ k := Nat.mul_lt_mul_of_pos_right hbyte (Nat.pow_pos (by decide))
        _ = 256 ^ (k + 1) := by ring
        _ ≤ 2 ^ v := hfits
    have hsmall : (m (a + BitVec.ofNat w k)).toNat < 2 ^ v :=
      (Nat.le_mul_of_pos_right _ (Nat.pow_pos (by decide))).trans_lt hlane
    rw [List.range_succ, List.foldl_append, ih (by omega)]
    refine BitVec.eq_of_toNat_eq ?_
    simp only [List.foldl_cons, List.foldl_nil, BitVec.toNat_or, BitVec.toNat_ofNat,
      BitVec.toNat_shiftLeft, BitVec.toNat_setWidth, Nat.shiftLeft_eq]
    rw [Nat.mod_eq_of_lt hsmall, Nat.mod_eq_of_lt hlane, Nat.mod_eq_of_lt (hlow.trans_le hlow'),
      Nat.mod_eq_of_lt (hlt.trans_le hfits), readNat, hpow, Nat.or_comm, Nat.mul_comm _ (2 ^ _),
      ← Nat.two_pow_add_eq_or_of_lt (hpow ▸ hlow), Nat.add_comm]

/-- Writing the first `n` bytes is writing under the mask of the first `n` bytes. -/
theorem writeMasked_eq_foldl {v u : ℕ} (m : ByteMemory w) (a : BitVec w) (data : BitVec v)
    {mask : BitVec u} {n k : ℕ} (hn : n ≤ k)
    (hmask : ∀ i < k, mask.getLsbD i = decide (i < n)) :
    m.writeMasked a data mask k =
      (List.range n).foldl
        (fun m i ↦ Function.update m (a + BitVec.ofNat w i) (data.extractLsb' (8 * i) 8)) m := by
  obtain ⟨l, rfl⟩ := Nat.exists_eq_add_of_le hn
  unfold writeMasked
  induction l with
  | zero =>
    refine List.foldl_ext _ _ _ fun m i hi ↦ ?_
    have hlt : i < n := List.mem_range.mp hi
    rw [hmask i (by omega), decide_eq_true hlt, if_pos rfl]
  | succ l ih =>
    rw [← Nat.add_assoc, List.range_succ, List.foldl_append,
      ih (Nat.le_add_right n l) fun i hi ↦ hmask i (by omega)]
    show (if mask.getLsbD (n + l) then _ else _) = _
    rw [hmask (n + l) (by omega), decide_eq_false (by omega), if_neg Bool.false_ne_true]

end ByteMemory

/-! ### Sign extension -/

namespace SignExtension

theorem xor_two_pow_of_lt {x b : ℕ} (h : x < 2 ^ b) : x ^^^ 2 ^ b = 2 ^ b + x := by
  refine Nat.eq_of_testBit_eq fun i ↦ ?_
  rw [Nat.testBit_xor, Nat.testBit_two_pow]
  rcases Nat.lt_trichotomy i b with hi | rfl | hi
  · rw [Nat.testBit_two_pow_add_gt hi, decide_eq_false (by omega), Bool.xor_false]
  · rw [Nat.testBit_two_pow_add_eq, decide_eq_true rfl, Bool.xor_true]
  · have hpow : 2 ^ (b + 1) ≤ 2 ^ i := Nat.pow_le_pow_right (by decide) hi
    rw [pow_succ] at hpow
    rw [Nat.testBit_lt_two_pow (by omega), Nat.testBit_lt_two_pow (by omega),
      decide_eq_false (by omega), Bool.xor_false]

/-- Flipping bit `b` of a number below `2 ^ (b + 1)` adds or takes away `2 ^ b`. -/
theorem xor_two_pow {x b : ℕ} (h : x < 2 ^ (b + 1)) :
    x ^^^ 2 ^ b = if x < 2 ^ b then 2 ^ b + x else x - 2 ^ b := by
  split_ifs with hlt
  · exact xor_two_pow_of_lt hlt
  · rw [pow_succ] at h
    have hrest := xor_two_pow_of_lt (x := x - 2 ^ b) (b := b) (by omega)
    rw [show 2 ^ b + (x - 2 ^ b) = x by omega] at hrest
    rw [← hrest, Nat.xor_assoc, Nat.xor_self, Nat.xor_zero]
    omega

/-- Sign extension of the low `b + 1` bits without a branch. -/
theorem signExtend_eq_xor_sub {v b x : ℕ} (hb : b + 1 < v) (hx : x < 2 ^ (b + 1)) :
    (BitVec.ofNat v x ^^^ BitVec.ofNat v (2 ^ b)) - BitVec.ofNat v (2 ^ b) =
      (BitVec.ofNat (b + 1) x).signExtend v := by
  have hpow : 2 ^ (b + 1) < 2 ^ v := Nat.pow_lt_pow_right (by decide) hb
  have hdouble : 2 ^ (b + 1) = 2 ^ b * 2 := pow_succ 2 b
  have hpos : 0 < 2 ^ b := Nat.pow_pos (by decide)
  refine BitVec.eq_of_toNat_eq ?_
  rw [BitVec.toNat_sub, BitVec.toNat_xor, BitVec.toNat_signExtend, BitVec.toNat_setWidth,
    BitVec.msb_eq_decide]
  simp only [BitVec.toNat_ofNat, Nat.add_sub_cancel, Nat.mod_eq_of_lt hx,
    Nat.mod_eq_of_lt (hx.trans hpow), Nat.mod_eq_of_lt (show 2 ^ b < 2 ^ v by omega),
    xor_two_pow hx, decide_eq_true_eq]
  split_ifs with hlt hle hle
  · omega
  · rw [show 2 ^ v - 2 ^ b + (2 ^ b + x) = x + 2 ^ v by omega, Nat.add_mod_right,
      Nat.mod_eq_of_lt (hx.trans hpow), Nat.add_zero]
  · rw [Nat.mod_eq_of_lt (by omega)]
    omega
  · omega

end SignExtension
