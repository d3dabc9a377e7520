import Mathlib.Data.Nat.Notation
import Mathlib.Logic.Function.Basic

/-!
# Arrays of a fixed size with checked accesses

An array is a function on the natural numbers of which the first `size` cells exist. `readCell` and
`writeCell` are the accesses that have no result outside of them, and `readCell_of_lt` and
`writeCell_of_lt` say that inside they are the plain accesses. `AllCells size p a` says that every
cell that exists satisfies `p`.
-/

set_option autoImplicit false
set_option relaxedAutoImplicit false

namespace CheckedArray

variable {α : Type*} {size i : ℕ} {a : ℕ → α}

/-! ### Accesses -/

/-- `a[i]`, when the index is below the size. -/
def readCell (size : ℕ) (a : ℕ → α) (i : ℕ) : Option α := if i < size then some (a i) else none

/-- `a[i] = v`, when the index is below the size. -/
def writeCell (size : ℕ) (a : ℕ → α) (i : ℕ) (v : α) : Option (ℕ → α) :=
  if i < size then some (Function.update a i v) else none

theorem readCell_of_lt (hi : i < size) : readCell size a i = some (a i) := if_pos hi

theorem writeCell_of_lt (hi : i < size) (v : α) :
    writeCell size a i v = some (Function.update a i v) := if_pos hi

/-- Writing behind the elements of a list that fill the first cells appends to the list. -/
theorem update_getD_length (l : List α) (v d : α) :
    Function.update (fun j ↦ l.getD j d) l.length v = fun j ↦ (l ++ [v]).getD j d := by
  funext j
  simp only [List.getD_eq_getElem?_getD]
  rcases Nat.lt_trichotomy j l.length with hlt | heq | hgt
  · rw [Function.update_of_ne (Nat.ne_of_lt hlt), List.getElem?_append_left hlt]
  · rw [heq, Function.update_self, List.getElem?_concat_length, Option.getD_some]
  · rw [Function.update_of_ne (Nat.ne_of_gt hgt), List.getElem?_eq_none (Nat.le_of_lt hgt),
      List.getElem?_eq_none (by simpa using Nat.succ_le_of_lt hgt)]

/-! ### Properties of all cells -/

/-- Every cell below the size satisfies `p`. -/
def AllCells (size : ℕ) (p : α → Prop) (a : ℕ → α) : Prop := ∀ i < size, p (a i)

namespace AllCells

variable {p : α → Prop} {v : α}

/-- An array keeps the property when it is overwritten, anywhere, by a value that has it. -/
theorem update (h : AllCells size p a) (i : ℕ) (hv : p v) :
    AllCells size p (Function.update a i v) := by
  intro j hj
  by_cases hji : j = i
  · rw [hji, Function.update_self]
    exact hv
  · rw [Function.update_of_ne hji]
    exact h j hj

theorem const (hv : p v) : AllCells size p fun _ ↦ v := fun _ _ ↦ hv

end AllCells

end CheckedArray
