import Mathlib.Order.Lattice

/-!
# Choices in turn

Items choose in turn among positions: each takes a position of least rank that no item in front of
it has taken, and none when there is no such position. The ranks of an item order the positions it
can take. Whether every item ends with its own position or none can be read off the ranks and the
own positions (`IsGreedy.own_iff`): no item in front of it can take its own position, and no free
position ranks before.
-/

set_option autoImplicit false
set_option relaxedAutoImplicit false

namespace BoomCore

section Greedy

variable {β : Type*} [LinearOrder β] (rank : ℕ → ℕ → Option β)

/-- What each item takes is a least position that no item in front of it has taken. -/
structure IsGreedy (taken : ℕ → Option ℕ) : Prop where
  least : ∀ {i q : ℕ}, taken i = some q → (∀ j < i, taken j ≠ some q) ∧
    ∃ best, rank i q = some best ∧
      ∀ {p : ℕ} {c : β}, rank i p = some c → (∀ j < i, taken j ≠ some p) → best ≤ c
  exhausted : ∀ {i p : ℕ} {c : β}, taken i = none → rank i p = some c → ∃ j < i, taken j = some p

/-- An item can take a position, and it is not the own position of an item in front that can take
it. -/
structure Free (own : ℕ → Option ℕ) (i p : ℕ) (c : β) : Prop where
  ranked : rank i p = some c
  unclaimed : ∀ j < i, own j = some p → rank j p = none

/-- While anything is free for an item, its own position is, and it ranks first. -/
def OwnFirst (own : ℕ → Option ℕ) (i : ℕ) : Prop :=
  ∀ (p : ℕ) (c : β), Free rank own i p c →
    ∃ q best, own i = some q ∧ Free rank own i q best ∧ best ≤ c

namespace IsGreedy

variable {rank} {taken own : ℕ → Option ℕ} {i : ℕ}

/-- Where no position is ranked, none is taken. -/
theorem of_rank_none (hrank : ∀ i p, rank i p = none) : IsGreedy rank fun _ ↦ none where
  least := fun htaken ↦ absurd htaken (Option.some_ne_none _).symm
  exhausted := fun _ hranked ↦
    absurd ((hrank _ _).symm.trans hranked) (Option.some_ne_none _).symm

/-- As long as the items in front have taken their own positions or none, they have taken those that
they can take. -/
theorem untaken_iff (h : IsGreedy rank taken) (hown : ∀ j < i, taken j = none ∨ taken j = own j)
    (p : ℕ) : (∀ j < i, taken j ≠ some p) ↔ ∀ j < i, own j = some p → rank j p = none := by
  constructor
  · intro huntaken j hj howns
    cases hrank : rank j p with
    | none => rfl
    | some c =>
      -- the item could take its own position, so it has taken it, or an item in front of it has
      exfalso
      rcases hown j hj with hnone | hsame
      · obtain ⟨k, hk, htaken⟩ := h.exhausted hnone hrank
        exact huntaken k (Nat.lt_trans hk hj) htaken
      · exact huntaken j hj (hsame.trans howns)
  · intro hclaim j hj htaken
    obtain ⟨-, best, hrank, -⟩ := h.least htaken
    have howns : own j = some p := by
      rcases hown j hj with hnone | hsame
      · exact absurd (hnone.symm.trans htaken) (Option.some_ne_none p).symm
      · exact hsame.symm.trans htaken
    exact absurd (hrank.symm.trans (hclaim j hj howns)) (Option.some_ne_none best)

theorem free_iff (h : IsGreedy rank taken) (hown : ∀ j < i, taken j = none ∨ taken j = own j)
    (p : ℕ) (c : β) : Free rank own i p c ↔ rank i p = some c ∧ ∀ j < i, taken j ≠ some p :=
  ⟨fun hfree ↦ ⟨hfree.ranked, (h.untaken_iff hown p).mpr hfree.unclaimed⟩,
    fun hfree ↦ ⟨hfree.1, (h.untaken_iff hown p).mp hfree.2⟩⟩

/-- Assumes: the items in front have taken their own positions or none. What an item takes is
free. -/
theorem free_of_taken (h : IsGreedy rank taken)
    (hown : ∀ j < i, taken j = none ∨ taken j = own j) {q : ℕ} (htaken : taken i = some q) :
    ∃ best, Free rank own i q best ∧ ∀ p c, Free rank own i p c → best ≤ c := by
  obtain ⟨huntaken, best, hrank, hleast⟩ := h.least htaken
  refine ⟨best, (h.free_iff hown q best).mpr ⟨hrank, huntaken⟩, fun p c hfree ↦ ?_⟩
  obtain ⟨hrank', huntaken'⟩ := (h.free_iff hown p c).mp hfree
  exact hleast hrank' huntaken'

/-- Assumes: the items in front have taken their own positions or none. An item takes none exactly
when nothing is free. -/
theorem taken_eq_none_iff (h : IsGreedy rank taken)
    (hown : ∀ j < i, taken j = none ∨ taken j = own j) :
    taken i = none ↔ ∀ p c, ¬ Free rank own i p c := by
  constructor
  · intro hnone p c hfree
    obtain ⟨hrank, huntaken⟩ := (h.free_iff hown p c).mp hfree
    obtain ⟨j, hj, htaken⟩ := h.exhausted hnone hrank
    exact huntaken j hj htaken
  · intro hfree
    cases htaken : taken i with
    | none => rfl
    | some q =>
      obtain ⟨best, hbest, -⟩ := h.free_of_taken hown htaken
      exact absurd hbest (hfree q best)

/-- Assumes: two positions of one rank are equal, and the items in front have taken their own
positions or none. -/
theorem own_iff_of_front (h : IsGreedy rank taken)
    (hrank : ∀ {i p q : ℕ} {c : β}, rank i p = some c → rank i q = some c → p = q)
    (hown : ∀ j < i, taken j = none ∨ taken j = own j) :
    (taken i = none ∨ taken i = own i) ↔ OwnFirst rank own i := by
  constructor
  · rintro (hnone | hsame) p c hfree
    · exact absurd hfree ((h.taken_eq_none_iff hown).mp hnone p c)
    · cases htaken : taken i with
      | none => exact absurd hfree ((h.taken_eq_none_iff hown).mp htaken p c)
      | some q =>
        obtain ⟨best, hbest, hleast⟩ := h.free_of_taken hown htaken
        exact ⟨q, best, hsame.symm.trans htaken, hbest, hleast p c hfree⟩
  · intro hfirst
    cases htaken : taken i with
    | none => exact .inl rfl
    | some q =>
      obtain ⟨best, hbest, hleast⟩ := h.free_of_taken hown htaken
      obtain ⟨q', best', howns, hbest', hle⟩ := hfirst q best hbest
      obtain rfl : best = best' := le_antisymm (hleast q' best' hbest') hle
      obtain rfl := hrank hbest.ranked hbest'.ranked
      exact .inr howns.symm

/-- Assumes: two positions of one rank are equal. Every item takes its own position or none exactly
when the own positions rank first. -/
theorem own_iff (h : IsGreedy rank taken)
    (hrank : ∀ {i p q : ℕ} {c : β}, rank i p = some c → rank i q = some c → p = q) :
    (∀ i, taken i = none ∨ taken i = own i) ↔ ∀ i, OwnFirst rank own i := by
  constructor
  · exact fun hown i ↦ (h.own_iff_of_front hrank fun j _ ↦ hown j).mp (hown i)
  · intro hfirst i
    induction i using Nat.strongRecOn with
    | ind i ih => exact (h.own_iff_of_front hrank ih).mpr (hfirst i)

end IsGreedy

end Greedy

end BoomCore
