import Mathlib.Data.List.GetD
import Mathlib.Logic.Function.Iterate

/-!
# Pending work along a run

A pipeline works on the next steps of a machine before the machine has taken them. `Along` says that
the elements of a list belong to the successive states of the machine, the first one to the state
that it is in. When the machine takes a step the first element leaves (`along_cons_iff`), and new
work joins at the end, for the state behind all the others (`along_concat_iff`).
-/

set_option autoImplicit false
set_option relaxedAutoImplicit false

namespace Run

variable {σ α : Type*} {R R' : σ → α → Prop} {step : σ → σ} {s : σ} {l : List α} {a : α}

/-- Element `i` of the list belongs to the state that is `i` steps behind `s`. -/
def Along (R : σ → α → Prop) (step : σ → σ) (s : σ) (l : List α) : Prop :=
  ∀ i (hi : i < l.length), R (step^[i] s) l[i]

theorem along_nil : Along R step s [] := fun _ hi ↦ absurd hi (Nat.not_lt_zero _)

theorem along_cons_iff : Along R step s (a :: l) ↔ R s a ∧ Along R step (step s) l := by
  constructor
  · intro h
    exact ⟨h 0 (Nat.zero_lt_succ _), fun i hi ↦ h (i + 1) (Nat.succ_lt_succ hi)⟩
  · rintro ⟨hhead, htail⟩ i hi
    cases i with
    | zero => exact hhead
    | succ i => exact htail i (Nat.lt_of_succ_lt_succ hi)

theorem along_concat_iff :
    Along R step s (l ++ [a]) ↔ Along R step s l ∧ R (step^[l.length] s) a := by
  constructor
  · intro h
    refine ⟨fun i hi ↦ ?_, ?_⟩
    · have hlast := h i (by rw [List.length_append]; exact Nat.lt_add_right _ hi)
      rwa [List.getElem_append_left hi] at hlast
    · have hlast := h l.length (by simp)
      rwa [List.getElem_concat_length rfl] at hlast
  · rintro ⟨hinit, hlast⟩ i hi
    rw [List.length_append, List.length_singleton] at hi
    by_cases hend : i = l.length
    · subst hend
      rwa [List.getElem_concat_length rfl]
    · rw [List.getElem_append_left (by omega)]
      exact hinit i (by omega)

theorem Along.mono (h : Along R step s l)
    (himp : ∀ i (hi : i < l.length), R (step^[i] s) l[i] → R' (step^[i] s) l[i]) :
    Along R' step s l := fun i hi ↦ himp i hi (h i hi)

/-- A property that no step restores holds in every state before one in which it holds. -/
theorem of_iterate {p : σ → Prop} (hback : ∀ s, p (step s) → p s) {i j : ℕ} (hij : i ≤ j)
    (h : p (step^[j] s)) : p (step^[i] s) := by
  induction j with
  | zero => rwa [Nat.le_zero.mp hij]
  | succ j ih =>
    rcases Nat.lt_or_eq_of_le hij with hlt | rfl
    · rw [Function.iterate_succ_apply'] at h
      exact ih (Nat.le_of_lt_succ hlt) (hback _ h)
    · exact h

end Run
