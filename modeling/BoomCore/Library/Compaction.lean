import Mathlib.Data.List.Nodup
import Mathlib.Data.Nat.Notation
import Mathlib.Logic.Function.Basic

/-!
# Arrays that are compacted

An array of cells holds a list in its first cells, in order (`cells f n`). An element is taken out
by marking its cell and moving the cells that are kept to the front. What stays is the list without
the first element that satisfies the test by which the cell was found (`filter_cells_update`).
-/

set_option autoImplicit false
set_option relaxedAutoImplicit false

namespace Compaction

variable {α : Type*} {f : ℕ → α} {n : ℕ}

/-- The elements of the first `n` cells. -/
def cells (f : ℕ → α) (n : ℕ) : List α := (List.range n).map f

@[simp]
theorem length_cells (f : ℕ → α) (n : ℕ) : (cells f n).length = n := by
  simp [cells]

theorem mem_cells {x : α} : x ∈ cells f n ↔ ∃ i < n, f i = x := by
  simp [cells]

theorem cells_succ (f : ℕ → α) (n : ℕ) : cells f (n + 1) = cells f n ++ [f n] := by
  simp [cells, List.range_succ]

theorem cells_congr {g : ℕ → α} (h : ∀ i < n, f i = g i) : cells f n = cells g n :=
  List.map_congr_left fun i hi ↦ h i (List.mem_range.mp hi)

/-- Writing the cell behind the list appends to it. -/
theorem cells_push (f : ℕ → α) (n : ℕ) (x : α) :
    cells (Function.update f n x) (n + 1) = cells f n ++ [x] := by
  rw [cells_succ, Function.update_self]
  congr 1
  exact cells_congr fun i hi ↦ Function.update_of_ne (Nat.ne_of_lt hi) _ _

/-- The cells that a list has been written to. -/
theorem cells_getD (l : List α) (d : α) : cells (fun i ↦ l.getD i d) l.length = l := by
  refine List.ext_getElem (by simp) fun i hi hi' ↦ ?_
  simp [cells, List.getElem?_eq_getElem hi']

section Keep

variable {keep : α → Bool}

/-- Assumes: none of the cells from `n` on is kept. -/
theorem filter_cells {N : ℕ} (hn : n ≤ N) (hdrop : ∀ i, n ≤ i → i < N → keep (f i) = false) :
    (cells f N).filter keep = (cells f n).filter keep := by
  obtain ⟨k, rfl⟩ := Nat.exists_eq_add_of_le hn
  have hsplit : cells f (n + k) = cells f n ++ cells (fun i ↦ f (n + i)) k := by
    unfold cells
    rw [List.range_add, List.map_append, List.map_map]
    rfl
  have hback : (cells (fun i ↦ f (n + i)) k).filter keep = [] := by
    refine List.filter_eq_nil_iff.mpr fun x hx ↦ ?_
    obtain ⟨i, hi, rfl⟩ := mem_cells.mp hx
    rw [hdrop (n + i) (Nat.le_add_right _ _) (Nat.add_lt_add_left hi n)]
    exact Bool.false_ne_true
  rw [hsplit, List.filter_append, hback, List.append_nil]

theorem filter_cells_self (hkeep : ∀ i < n, keep (f i) = true) :
    (cells f n).filter keep = cells f n := by
  refine List.filter_eq_self.mpr fun x hx ↦ ?_
  obtain ⟨i, hi, rfl⟩ := mem_cells.mp hx
  exact hkeep i hi

end Keep

section Find

variable {p : α → Bool}

/-- The scan of the cells finds the first element of the list. -/
theorem find?_cells (f : ℕ → α) (p : α → Bool) (n : ℕ) :
    (cells f n).find? p = ((List.range n).find? fun i ↦ p (f i)).map f :=
  List.find?_map

/-- Assumes: the scan finds cell `i`. Marking it so that it alone is not kept removes the first
element that satisfies the test. -/
theorem filter_cells_update {keep : α → Bool} {i : ℕ} {x : α}
    (hfind : (List.range n).find? (fun j ↦ p (f j)) = some i) (hdrop : keep x = false)
    (hkeep : ∀ j < n, keep (f j) = true) :
    (cells (Function.update f i x) n).filter keep = (cells f n).eraseP p := by
  obtain ⟨htest, front, back, hrange, hfront⟩ := List.find?_eq_some_iff_append.mp hfind
  have hnodup : (front ++ i :: back).Nodup := hrange ▸ List.nodup_range
  have hne : ∀ j ∈ front ++ back, j ≠ i := by
    rintro j hj rfl
    exact (List.nodup_middle.mp hnodup).notMem hj
  have hkept : ∀ l : List ℕ, (∀ j ∈ l, j ∈ front ++ back) →
      (l.map (Function.update f i x)).filter keep = l.map f := by
    intro l hl
    rw [List.map_congr_left fun j hj ↦ Function.update_of_ne (hne j (hl j hj)) _ _]
    refine List.filter_eq_self.mpr fun y hy ↦ ?_
    obtain ⟨j, hj, rfl⟩ := List.mem_map.mp hy
    refine hkeep j (List.mem_range.mp ?_)
    rw [hrange]
    rcases List.mem_append.mp (hl j hj) with hj | hj
    · exact List.mem_append_left _ hj
    · exact List.mem_append_right _ (List.mem_cons_of_mem _ hj)
  unfold cells
  rw [hrange, List.map_append, List.map_cons, List.filter_append, List.map_append, List.map_cons,
    Function.update_self, List.filter_cons_of_neg (by rw [hdrop]; exact Bool.false_ne_true),
    hkept front fun j hj ↦ List.mem_append_left _ hj,
    hkept back fun j hj ↦ List.mem_append_right _ hj, List.eraseP_append_right,
    List.eraseP_cons_of_pos htest]
  intro y hy
  obtain ⟨j, hj, rfl⟩ := List.mem_map.mp hy
  simpa using hfront j hj

end Find

end Compaction
