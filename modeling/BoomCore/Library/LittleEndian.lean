import Mathlib.Data.Nat.Digits.Lemmas
import Mathlib.Tactic.IntervalCases

/-!
# Words of a byte list

A list of bytes as words of four bytes, the lowest byte first; bytes behind the end count as zero.
-/

set_option autoImplicit false
set_option relaxedAutoImplicit false

namespace BoomCore

/-- The word at the given position. -/
def wordAt (bytes : List ℕ) (w : ℕ) : ℕ := Nat.ofDigits 256 ((bytes.drop (4 * w)).take 4)

/-- All words of the list. -/
def wordsOf (bytes : List ℕ) : List ℕ := (List.range ((bytes.length + 3) / 4)).map (wordAt bytes)

section Words

variable {bytes : List ℕ}

theorem ofDigits_take_four (l : List ℕ) :
    Nat.ofDigits 256 (l.take 4) =
      l.getD 0 0 + 256 * (l.getD 1 0 + 256 * (l.getD 2 0 + 256 * l.getD 3 0)) := by
  match l with
  | [] => rfl
  | [a] => simp [Nat.ofDigits_cons]
  | [a, b] => simp [Nat.ofDigits_cons]
  | [a, b, c] => simp [Nat.ofDigits_cons]
  | a :: b :: c :: d :: rest => simp [Nat.ofDigits_cons]

theorem getD_drop (l : List ℕ) (n i : ℕ) : (l.drop n).getD i 0 = l.getD (n + i) 0 := by
  rw [List.getD_eq_getElem?_getD, List.getD_eq_getElem?_getD, List.getElem?_drop]

/-- A word is the sum of its four bytes. -/
theorem wordAt_eq (bytes : List ℕ) (w : ℕ) :
    wordAt bytes w = bytes.getD (4 * w) 0 + 256 * (bytes.getD (4 * w + 1) 0 +
      256 * (bytes.getD (4 * w + 2) 0 + 256 * bytes.getD (4 * w + 3) 0)) := by
  unfold wordAt
  rw [ofDigits_take_four, getD_drop, getD_drop, getD_drop, getD_drop, Nat.add_zero]

theorem getD_lt (hbytes : ∀ b ∈ bytes, b < 256) (i : ℕ) : bytes.getD i 0 < 256 := by
  rw [List.getD_eq_getElem?_getD]
  cases h : bytes[i]? with
  | none => decide
  | some b => exact hbytes b (List.mem_of_getElem? h)

/-- Equal words have equal bytes. -/
theorem getD_eq_of_wordAt_eq {bytes' : List ℕ} (hbytes : ∀ b ∈ bytes, b < 256)
    (hbytes' : ∀ b ∈ bytes', b < 256) {w : ℕ} (h : wordAt bytes w = wordAt bytes' w) {i : ℕ}
    (hi : i < 4) : bytes.getD (4 * w + i) 0 = bytes'.getD (4 * w + i) 0 := by
  have h0 := getD_lt hbytes (4 * w)
  have h1 := getD_lt hbytes (4 * w + 1)
  have h2 := getD_lt hbytes (4 * w + 2)
  have h0' := getD_lt hbytes' (4 * w)
  have h1' := getD_lt hbytes' (4 * w + 1)
  have h2' := getD_lt hbytes' (4 * w + 2)
  rw [wordAt_eq, wordAt_eq] at h
  interval_cases i
  · show bytes.getD (4 * w) 0 = bytes'.getD (4 * w) 0
    omega
  all_goals omega

theorem getD_wordsOf (bytes : List ℕ) (w : ℕ) : (wordsOf bytes).getD w 0 = wordAt bytes w := by
  unfold wordsOf
  rw [List.getD_eq_getElem?_getD, List.getElem?_map]
  by_cases hw : w < (bytes.length + 3) / 4
  · rw [List.getElem?_range hw]
    rfl
  · have hnone : (List.range ((bytes.length + 3) / 4))[w]? = none :=
      List.getElem?_eq_none (by rw [List.length_range]; omega)
    have hdrop : bytes.drop (4 * w) = [] := List.drop_eq_nil_of_le (by omega)
    rw [hnone]
    unfold wordAt
    rw [hdrop]
    rfl

/-- Whole words in front do not change the words behind them. -/
theorem wordAt_append (front : List ℕ) {n : ℕ} (hfront : front.length = 4 * n) (w : ℕ) :
    wordAt (front ++ bytes) (n + w) = wordAt bytes w := by
  unfold wordAt
  rw [Nat.mul_add, ← hfront, List.drop_append, List.drop_eq_nil_of_le (Nat.le_add_right _ _),
    Nat.add_sub_cancel_left, List.nil_append]

theorem wordAt_append_left {front : List ℕ} {w : ℕ} (hw : 4 * w + 4 ≤ front.length) :
    wordAt (front ++ bytes) w = wordAt front w := by
  unfold wordAt
  rw [List.drop_append_of_le_length (by omega),
    List.take_append_of_le_length (by rw [List.length_drop]; omega)]

/-- Whole words in front are the first words. -/
theorem wordsOf_append (front : List ℕ) {n : ℕ} (hfront : front.length = 4 * n) :
    wordsOf (front ++ bytes) = wordsOf front ++ wordsOf bytes := by
  have hlength : ((front ++ bytes).length + 3) / 4 = n + (bytes.length + 3) / 4 := by
    rw [List.length_append, hfront]
    omega
  have hn : (front.length + 3) / 4 = n := by omega
  unfold wordsOf
  rw [hlength, hn, List.range_add, List.map_append, List.map_map]
  congr 1
  · refine List.map_congr_left fun w hw ↦ wordAt_append_left ?_
    rw [List.mem_range] at hw
    omega
  · exact List.map_congr_left fun w _ ↦ wordAt_append front hfront w

end Words

end BoomCore
