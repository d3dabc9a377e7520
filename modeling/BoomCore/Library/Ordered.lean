import Mathlib.Order.Lattice
import Mathlib.Data.List.TakeWhile

/-!
# Lists in the order of a key

A list whose keys do not decrease is cut in two by any bound: the elements with smaller keys come
first. And a predicate cuts any list at the first element where it fails.
-/

set_option autoImplicit false
set_option relaxedAutoImplicit false

namespace BoomCore

variable {α : Type*}

section Key

variable {κ : Type*} [LinearOrder κ]

/-- The keys do not decrease along the list. -/
def InOrder (key : α → κ) (l : List α) : Prop := l.Pairwise fun a b ↦ key a ≤ key b

theorem InOrder.filter {key : α → κ} {l : List α} (h : InOrder key l) (p : α → Bool) :
    InOrder key (l.filter p) :=
  List.Pairwise.filter p h

theorem InOrder.takeWhile {key : α → κ} {l : List α} (h : InOrder key l) (p : α → Bool) :
    InOrder key (l.takeWhile p) :=
  List.Pairwise.sublist (List.takeWhile_sublist p) h

/-- Assumes: the keys do not decrease. What is below a bound comes before what is not. -/
theorem InOrder.split {key : α → κ} {l : List α} (h : InOrder key l) (bound : κ) :
    (l.filter fun a ↦ key a < bound) ++ (l.filter fun a ↦ bound ≤ key a) = l := by
  induction l with
  | nil => rfl
  | cons a l ih =>
    obtain ⟨hhead, htail⟩ := List.pairwise_cons.mp h
    by_cases ha : key a < bound
    · rw [List.filter_cons_of_pos (by simpa using ha),
        List.filter_cons_of_neg (by simpa using ha), List.cons_append, ih htail]
    · have hle : bound ≤ key a := le_of_not_gt ha
      have hnone : ∀ b ∈ a :: l, ¬ key b < bound := by
        intro b hb
        rcases List.mem_cons.mp hb with rfl | hb
        · exact ha
        · exact not_lt.mpr (le_trans hle (hhead b hb))
      rw [List.filter_eq_nil_iff.mpr (by simpa using hnone), List.nil_append]
      exact List.filter_eq_self.mpr fun b hb ↦ by simpa using hnone b hb

end Key

section Predicate

variable (p : α → Bool) (l : List α)

theorem filter_takeWhile : (l.takeWhile p).filter p = l.takeWhile p :=
  List.filter_eq_self.mpr fun _ ha ↦ List.mem_takeWhile_imp ha

/-- What satisfies a predicate is what stands before its first failure, and the rest. -/
theorem filter_eq_takeWhile_append : l.filter p = l.takeWhile p ++ (l.dropWhile p).filter p := by
  calc l.filter p = (l.takeWhile p ++ l.dropWhile p).filter p := by
        rw [List.takeWhile_append_dropWhile]
    _ = l.takeWhile p ++ (l.dropWhile p).filter p := by
        rw [List.filter_append, filter_takeWhile]

/-- The first failure is the head of what is left. -/
theorem find?_not_eq_head?_dropWhile : l.find? (fun a ↦ !p a) = (l.dropWhile p).head? := by
  induction l with
  | nil => rfl
  | cons a l ih =>
    by_cases ha : p a = true
    · rw [List.find?_cons_of_neg (by simpa using ha), List.dropWhile_cons_of_pos ha, ih]
    · rw [List.find?_cons_of_pos (by simpa using ha), List.dropWhile_cons_of_neg ha]
      rfl

end Predicate

end BoomCore
