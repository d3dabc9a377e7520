import Mathlib.Data.Finset.Card
import Mathlib.Data.List.Nodup

/-!
# Renaming with a committed map and assignments in flight

Names are mapped to registers. A committed map is followed by a list of assignments in flight, each
of which gives a name a new register and remembers the register that it replaces. `replay` is the
map after the assignments, and `Chained` says that each of them remembers the right register.

`Allocation` is the invariant of such a state together with a list of free registers: all registers
in use are distinct and none of them is free. A new assignment takes a register that is not in use
(`Allocation.assign`, `Allocation.take`), the oldest one can be committed (`Allocation.retire`), the
register that it replaces can be released (`Allocation.retire_release`), and all assignments can be
squashed (`Allocation.squash`). `card_mapped_install` counts the names that have a register.
-/

set_option autoImplicit false
set_option relaxedAutoImplicit false

namespace Renaming

variable {α β : Type*} [DecidableEq α]

/-! ### Assignments -/

/-- The name `dst` gets the register `reg` in place of the register `old`. -/
structure Assign (α β : Type*) where
  dst : α
  reg : β
  old : β

/-- The map after one assignment. -/
def install (m : α → β) (a : Assign α β) : α → β := Function.update m a.dst a.reg

/-- The map after the assignments of a list, the first one first. -/
def replay (m : α → β) (l : List (Assign α β)) : α → β := l.foldl install m

@[simp] theorem replay_nil (m : α → β) : replay m [] = m := rfl

theorem replay_cons (m : α → β) (a : Assign α β) (l : List (Assign α β)) :
    replay m (a :: l) = replay (install m a) l := rfl

theorem replay_concat (m : α → β) (l : List (Assign α β)) (a : Assign α β) :
    replay m (l ++ [a]) = install (replay m l) a := by
  simp [replay]

/-- A name has its old register or one of the assigned ones. -/
theorem replay_mem (m : α → β) (l : List (Assign α β)) (x : α) :
    replay m l x = m x ∨ replay m l x ∈ l.map Assign.reg := by
  induction l generalizing m with
  | nil => exact Or.inl rfl
  | cons a l ih =>
    rw [replay_cons, List.map_cons]
    rcases ih (install m a) with h | h
    · by_cases hx : x = a.dst
      · refine Or.inr ?_
        rw [h, hx, install, Function.update_self]
        exact List.mem_cons_self
      · refine Or.inl ?_
        rw [h, install, Function.update_of_ne hx]
    · exact Or.inr (List.mem_cons_of_mem _ h)

/-- A name that is not assigned keeps its register. -/
theorem replay_of_forall_ne {l : List (Assign α β)} {x : α} (m : α → β)
    (h : ∀ a ∈ l, a.dst ≠ x) : replay m l x = m x := by
  induction l generalizing m with
  | nil => rfl
  | cons a l ih =>
    have hne : x ≠ a.dst := (h a List.mem_cons_self).symm
    rw [replay_cons, ih (install m a) fun b hb ↦ h b (List.mem_cons_of_mem _ hb), install,
      Function.update_of_ne hne]

/-- Every assignment of the list remembers the register that its name had before. -/
def Chained : (α → β) → List (Assign α β) → Prop
  | _, [] => True
  | m, a :: l => a.old = m a.dst ∧ Chained (install m a) l

theorem chained_concat {m : α → β} {l : List (Assign α β)} {a : Assign α β} :
    Chained m (l ++ [a]) ↔ Chained m l ∧ a.old = replay m l a.dst := by
  induction l generalizing m with
  | nil => simp [Chained]
  | cons b l ih =>
    rw [List.cons_append, Chained, Chained, ih, replay_cons]
    exact and_assoc.symm

/-! ### Allocations -/

/-- The registers of the committed map, of the assignments in flight and of the free list are
distinct. `IsReg` tells registers from the value of a name that has none. -/
structure Allocation (IsReg : β → Prop) (committed : α → β) (l : List (Assign α β))
    (free : List β) : Prop where
  chained : Chained committed l
  isReg : ∀ p ∈ l.map Assign.reg ++ free, IsReg p
  nodup : (l.map Assign.reg ++ free).Nodup
  injective : ∀ x y, IsReg (committed x) → committed x = committed y → x = y
  fresh : ∀ x, committed x ∉ l.map Assign.reg ++ free

namespace Allocation

variable {IsReg : β → Prop} {committed : α → β} {l : List (Assign α β)} {free : List β}
  {a : Assign α β} {p : β}

/-- The assignments in flight are dropped, and their registers are lost. -/
theorem squash (h : Allocation IsReg committed l free) : Allocation IsReg committed [] free := by
  refine ⟨trivial, fun p hp ↦ h.isReg p (List.mem_append_right _ hp), ?_, h.injective,
    fun x hx ↦ h.fresh x (List.mem_append_right _ hx)⟩
  exact h.nodup.of_append_right

/-- A new assignment takes a register that is not in use. -/
theorem assign (h : Allocation IsReg committed l free) (x : α) (hreg : IsReg p)
    (hnot : p ∉ l.map Assign.reg ++ free) (hcommitted : ∀ y, committed y ≠ p) :
    Allocation IsReg committed (l ++ [⟨x, p, replay committed l x⟩]) free := by
  have hperm : List.Perm
      ((l ++ [(⟨x, p, replay committed l x⟩ : Assign α β)]).map Assign.reg ++ free)
      (p :: (l.map Assign.reg ++ free)) := by
    rw [List.map_append, List.map_singleton, List.append_assoc, List.singleton_append]
    exact List.perm_middle
  refine ⟨chained_concat.mpr ⟨h.chained, rfl⟩, fun q hq ↦ ?_, ?_, h.injective, fun y hy ↦ ?_⟩
  · rcases List.mem_cons.mp (hperm.mem_iff.mp hq) with rfl | hq
    · exact hreg
    · exact h.isReg q hq
  · exact hperm.nodup_iff.mpr (List.nodup_cons.mpr ⟨hnot, h.nodup⟩)
  · rcases List.mem_cons.mp (hperm.mem_iff.mp hy) with heq | hy
    · exact hcommitted y heq
    · exact h.fresh y hy

/-- A new assignment takes the first free register. -/
theorem take (h : Allocation IsReg committed l (p :: free)) (x : α) :
    Allocation IsReg committed (l ++ [⟨x, p, replay committed l x⟩]) free := by
  have hperm : (l.map Assign.reg ++ p :: free).Perm (p :: (l.map Assign.reg ++ free)) :=
    List.perm_middle
  have hnodup := List.nodup_cons.mp (hperm.nodup_iff.mp h.nodup)
  have hrest : Allocation IsReg committed l free := by
    refine ⟨h.chained, fun q hq ↦ ?_, hnodup.2, h.injective, fun y hy ↦ ?_⟩
    · exact h.isReg q (hperm.mem_iff.mpr (List.mem_cons_of_mem _ hq))
    · exact h.fresh y (hperm.mem_iff.mpr (List.mem_cons_of_mem _ hy))
  refine hrest.assign x (h.isReg p (by simp)) hnodup.1 fun y hy ↦ h.fresh y ?_
  rw [hy]
  simp

/-- The oldest assignment is committed. -/
theorem retire (h : Allocation IsReg committed (a :: l) free) :
    Allocation IsReg (install committed a) l free := by
  have hnodup := h.nodup
  rw [List.map_cons, List.cons_append, List.nodup_cons] at hnodup
  have hold : ∀ y, committed y ≠ a.reg := fun y hy ↦ h.fresh y (by rw [hy]; simp)
  refine ⟨h.chained.2, fun q hq ↦ h.isReg q (List.mem_cons_of_mem _ hq), hnodup.2,
    fun x y hx hxy ↦ ?_, fun x hx ↦ ?_⟩
  · unfold install at hx hxy
    by_cases hxa : x = a.dst <;> by_cases hya : y = a.dst
    · rw [hxa, hya]
    · rw [hxa, Function.update_self, Function.update_of_ne hya] at hxy
      exact absurd hxy.symm (hold y)
    · rw [hya, Function.update_self, Function.update_of_ne hxa] at hxy
      exact absurd hxy (hold x)
    · rw [Function.update_of_ne hxa] at hx hxy
      rw [Function.update_of_ne hya] at hxy
      exact h.injective x y hx hxy
  · unfold install at hx
    by_cases hxa : x = a.dst
    · rw [hxa, Function.update_self] at hx
      exact hnodup.1 hx
    · rw [Function.update_of_ne hxa] at hx
      exact h.fresh x (List.mem_cons_of_mem _ hx)

/-- The oldest assignment is committed, and the register that it replaces becomes free. -/
theorem retire_release (h : Allocation IsReg committed (a :: l) free) (hreg : IsReg a.old) :
    Allocation IsReg (install committed a) l (free ++ [a.old]) := by
  have hold : a.old = committed a.dst := h.chained.1
  have hnot : a.old ∉ l.map Assign.reg ++ free := fun hmem ↦
    h.fresh a.dst (by rw [← hold]; exact List.mem_cons_of_mem _ hmem)
  have hne : a.reg ≠ a.old := fun heq ↦ h.fresh a.dst (by rw [← hold, ← heq]; simp)
  have hperm : (l.map Assign.reg ++ (free ++ [a.old])).Perm
      (a.old :: (l.map Assign.reg ++ free)) := by
    rw [← List.append_assoc]
    exact List.perm_append_singleton _ _
  have hrest := h.retire
  refine ⟨hrest.chained, fun q hq ↦ ?_, ?_, hrest.injective, fun x hx ↦ ?_⟩
  · rcases List.mem_cons.mp (hperm.mem_iff.mp hq) with rfl | hq
    · exact hreg
    · exact hrest.isReg q hq
  · exact hperm.nodup_iff.mpr (List.nodup_cons.mpr ⟨hnot, hrest.nodup⟩)
  · rcases List.mem_cons.mp (hperm.mem_iff.mp hx) with heq | hx
    · unfold install at heq
      by_cases hxa : x = a.dst
      · rw [hxa, Function.update_self] at heq
        exact hne heq
      · rw [Function.update_of_ne hxa, hold] at heq
        exact hxa (h.injective x a.dst (by rw [heq, ← hold]; exact hreg) heq)
    · exact hrest.fresh x hx

end Allocation

/-! ### Counting -/

section Counting

variable (IsReg : β → Prop) [DecidablePred IsReg] (names : Finset α)

/-- The names that have a register. -/
def mapped (m : α → β) : Finset α := names.filter fun x ↦ IsReg (m x)

/-- An assignment gives its name a register. -/
theorem mapped_install {m : α → β} {a : Assign α β} (hdst : a.dst ∈ names) (hreg : IsReg a.reg) :
    mapped IsReg names (install m a) = insert a.dst (mapped IsReg names m) := by
  ext x
  unfold mapped install
  rw [Finset.mem_insert, Finset.mem_filter, Finset.mem_filter]
  by_cases hx : x = a.dst
  · simp [hx, hdst, hreg]
  · simp [hx]

/-- The number of names that have a register grows when the assigned name had none. -/
theorem card_mapped_install {m : α → β} {a : Assign α β} (hdst : a.dst ∈ names)
    (hreg : IsReg a.reg) :
    (mapped IsReg names (install m a)).card =
      (mapped IsReg names m).card + if IsReg (m a.dst) then 0 else 1 := by
  rw [mapped_install IsReg names hdst hreg]
  split_ifs with hold
  · have hmem : a.dst ∈ mapped IsReg names m := by simp [mapped, hdst, hold]
    rw [Finset.insert_eq_of_mem hmem, Nat.add_zero]
  · have hmem : a.dst ∉ mapped IsReg names m := by simp [mapped, hold]
    rw [Finset.card_insert_of_notMem hmem]

end Counting

end Renaming
