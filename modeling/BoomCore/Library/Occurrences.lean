import Mathlib.Data.List.Induction
import Mathlib.Data.List.Sort
import Mathlib.Logic.Function.Basic

/-!
# Elements that share a key

A pass over a list that looks its elements up by a key, skipping those without one. A dictionary by
the key alone ends with the last element of every key (`latestByKey_eq`); one by the key and the
number of elements of that key so far has them all (`numbering_dict`). Positions in the list and in
the list of one key are related by `getElem?_occurrences_iff`.
-/

set_option autoImplicit false
set_option relaxedAutoImplicit false

namespace BoomCore

section Occurrences

variable {α κ : Type*} [DecidableEq κ] (key : α → Option κ)

/-- The elements of a key, in the order of the list. -/
def occurrences (l : List α) (c : κ) : List α := l.filter fun a ↦ key a = some c

@[simp]
theorem occurrences_nil (c : κ) : occurrences key [] c = [] := rfl

theorem occurrences_append (l l' : List α) (c : κ) :
    occurrences key (l ++ l') c = occurrences key l c ++ occurrences key l' c :=
  List.filter_append l l'

theorem occurrences_singleton (a : α) (c : κ) :
    occurrences key [a] c = if key a = some c then [a] else [] := by
  unfold occurrences
  by_cases h : key a = some c <;> simp [h]

theorem occurrences_map {β : Type*} (key : β → Option κ) (f : α → β) (l : List α) (c : κ) :
    occurrences key (l.map f) c = (occurrences (fun a ↦ key (f a)) l c).map f :=
  List.filter_map

/-- A further element is the next one of its key. -/
theorem getElem?_occurrences_append_singleton (l : List α) (a : α) (c : κ) (k : ℕ) :
    (occurrences key (l ++ [a]) c)[k]? =
      if key a = some c ∧ k = (occurrences key l c).length then some a
      else (occurrences key l c)[k]? := by
  rw [occurrences_append, occurrences_singleton]
  by_cases hkey : key a = some c
  · rw [if_pos hkey]
    rcases Nat.lt_trichotomy k (occurrences key l c).length with hlt | heq | hgt
    · rw [List.getElem?_append_left hlt, if_neg (by omega)]
    · rw [if_pos ⟨hkey, heq⟩, heq, List.getElem?_concat_length]
    · rw [if_neg (by omega), List.getElem?_eq_none hgt.le, List.getElem?_eq_none]
      rw [List.length_append, List.length_singleton]
      exact hgt
  · rw [if_neg hkey, List.append_nil, if_neg (by simp [hkey])]

/-! ### The last element of a key -/

/-- A dictionary in which a later element replaces an earlier one. -/
def latestByKey (l : List α) : κ → Option α :=
  l.foldl
    (fun dict a ↦
      match key a with
      | none => dict
      | some c => Function.update dict c (some a))
    fun _ ↦ none

theorem latestByKey_eq (l : List α) (c : κ) :
    latestByKey key l c = (occurrences key l c).getLast? := by
  induction l using List.reverseRecOn with
  | nil => rfl
  | append_singleton l a ih =>
    unfold latestByKey at ih ⊢
    rw [List.foldl_append, List.foldl_cons, List.foldl_nil, occurrences_append,
      occurrences_singleton]
    cases hkey : key a with
    | none => simp [ih]
    | some d =>
      by_cases hd : d = c
      · subst hd
        simp
      · simp [hd, Function.update_of_ne (Ne.symm hd), ih]

/-! ### Numbered elements -/

/-- The state of a pass that numbers the elements of each key. -/
structure Numbering (α κ : Type*) where
  seen : κ → ℕ
  dict : κ × ℕ → Option α

namespace Numbering

def empty : Numbering α κ := ⟨fun _ ↦ 0, fun _ ↦ none⟩

def add (st : Numbering α κ) (a : α) : Numbering α κ :=
  match key a with
  | none => st
  | some c =>
    { seen := Function.update st.seen c (st.seen c + 1)
      dict := Function.update st.dict (c, st.seen c) (some a) }

end Numbering

/-- Numbers the elements of each key, from zero on. -/
def numbering (l : List α) : Numbering α κ := l.foldl (Numbering.add key) .empty

theorem numbering_append_singleton (l : List α) (a : α) :
    numbering key (l ++ [a]) = (numbering key l).add key a := by
  unfold numbering
  rw [List.foldl_append]
  rfl

theorem numbering_seen (l : List α) (c : κ) :
    (numbering key l).seen c = (occurrences key l c).length := by
  induction l using List.reverseRecOn with
  | nil => rfl
  | append_singleton l a ih =>
    rw [numbering_append_singleton, occurrences_append, occurrences_singleton, List.length_append,
      ← ih]
    unfold Numbering.add
    cases hkey : key a with
    | none => simp
    | some d =>
      by_cases hd : d = c
      · subst hd
        simp
      · simp [hd, Function.update_of_ne (Ne.symm hd)]

/-- The element of a key with a number. -/
theorem numbering_dict (l : List α) (c : κ) (k : ℕ) :
    (numbering key l).dict (c, k) = (occurrences key l c)[k]? := by
  induction l using List.reverseRecOn with
  | nil => rfl
  | append_singleton l a ih =>
    rw [numbering_append_singleton, getElem?_occurrences_append_singleton]
    unfold Numbering.add
    cases hkey : key a with
    | none => simp [ih]
    | some d =>
      dsimp only
      rw [numbering_seen, Function.update_apply, ih]
      by_cases hd : d = c
      · subst hd
        simp
      · simp [hd, Ne.symm hd]

/-! ### Positions -/

/-- The element of a key with number `k` is the one in front of which `k` elements have the key. -/
theorem getElem?_occurrences_iff (l : List α) (c : κ) (k : ℕ) (a : α) :
    (occurrences key l c)[k]? = some a ↔
      ∃ i, l[i]? = some a ∧ key a = some c ∧ (occurrences key (l.take i) c).length = k := by
  induction l generalizing k with
  | nil => simp
  | cons b l ih =>
    have hcons : ∀ t : List α, occurrences key (b :: t) c =
        if key b = some c then b :: occurrences key t c else occurrences key t c := by
      intro t
      show occurrences key ([b] ++ t) c = _
      rw [occurrences_append, occurrences_singleton]
      split_ifs <;> rfl
    rw [hcons, ← Nat.or_exists_add_one]
    simp only [List.getElem?_cons_zero, List.getElem?_cons_succ, List.take_zero,
      List.take_succ_cons, occurrences_nil, List.length_nil, Option.some.injEq, hcons]
    split_ifs with hb
    · cases k with
      | zero =>
        simp only [List.getElem?_cons_zero, Option.some.injEq, List.length_cons, Nat.succ_ne_zero,
          and_false, exists_false, or_false, and_true]
        exact ⟨fun heq ↦ ⟨heq, heq ▸ hb⟩, And.left⟩
      | succ k =>
        rw [List.getElem?_cons_succ, ih]
        simp
    · rw [ih]
      refine ⟨.inr, fun h ↦ h.resolve_left ?_⟩
      rintro ⟨rfl, hkey, -⟩
      exact hb hkey

end Occurrences

/-! ### The first in order -/

section First

variable {β : Type*} [LinearOrder β] {l : List β} {b : β}

/-- What stands first after sorting is a least element. -/
theorem head?_insertionSort (h : (l.insertionSort (· ≤ ·)).head? = some b) :
    b ∈ l ∧ ∀ b' ∈ l, b ≤ b' := by
  have hperm := List.perm_insertionSort (· ≤ ·) l
  obtain ⟨rest, hrest⟩ := List.head?_eq_some_iff.mp h
  have hsorted := List.pairwise_insertionSort (· ≤ ·) l
  rw [hrest] at hsorted hperm
  refine ⟨hperm.mem_iff.mp List.mem_cons_self, fun b' hb' ↦ ?_⟩
  rcases List.mem_cons.mp (hperm.mem_iff.mpr hb') with rfl | hmem
  · exact le_rfl
  · exact List.rel_of_pairwise_cons hsorted hmem

theorem head?_insertionSort_eq_none (h : (l.insertionSort (· ≤ ·)).head? = none) : l = [] := by
  have hlength := List.length_insertionSort (· ≤ ·) l
  rw [List.head?_eq_none_iff.mp h] at hlength
  exact List.length_eq_zero_iff.mp hlength.symm

end First

end BoomCore
