import Mathlib.Data.List.DropRight

/-!
# Texts

Cutting the blanks off both ends of a list, for any notion of a blank; the lines of a text; what
stands behind the first occurrence of a text in another one; and texts joined by a separator.
-/

set_option autoImplicit false
set_option relaxedAutoImplicit false

namespace BoomCore

/-! ### Blanks -/

section Trim

variable {α : Type*} (p : α → Bool)

/-- The list without the elements at its two ends that satisfy `p`. -/
def trimBy (l : List α) : List α := (l.dropWhile p).rdropWhile p

variable {p}

theorem rdropWhile_append {l b : List α} (hb : ∀ c ∈ b, p c = true) :
    (l ++ b).rdropWhile p = l.rdropWhile p := by
  unfold List.rdropWhile
  rw [List.reverse_append, List.dropWhile_append_of_pos fun c hc ↦ hb c (List.mem_reverse.mp hc)]

/-- Blanks around a list are cut off. -/
theorem trimBy_append {a l b : List α} (ha : ∀ c ∈ a, p c = true) (hb : ∀ c ∈ b, p c = true) :
    trimBy p (a ++ l ++ b) = trimBy p l := by
  unfold trimBy
  rw [List.append_assoc, List.dropWhile_append_of_pos ha, List.dropWhile_append]
  split_ifs with hempty
  · have hnil : l.dropWhile p = [] := List.isEmpty_iff.mp hempty
    rw [hnil, List.dropWhile_eq_nil_iff.mpr hb]
  · exact rdropWhile_append hb

/-- A list is its trimmed form with blanks around it. -/
theorem exists_trimBy (l : List α) :
    ∃ a b, (∀ c ∈ a, p c = true) ∧ (∀ c ∈ b, p c = true) ∧ l = a ++ trimBy p l ++ b := by
  refine ⟨l.takeWhile p, (l.dropWhile p).rtakeWhile p, fun c hc ↦ List.mem_takeWhile_imp hc,
    fun c hc ↦ List.mem_rtakeWhile_imp hc, ?_⟩
  unfold trimBy
  rw [List.append_assoc, List.rdropWhile_append_rtakeWhile, List.takeWhile_append_dropWhile]

theorem trimBy_eq_self {l : List α} (h : ∀ c ∈ l, p c = false) : trimBy p l = l := by
  have hhead : l.dropWhile p = l :=
    List.dropWhile_eq_self_iff.mpr fun hpos ↦ by simp [h _ (List.getElem_mem hpos)]
  unfold trimBy
  rw [hhead]
  exact List.rdropWhile_eq_self_iff.mpr fun hne ↦ by simp [h _ (List.getLast_mem hne)]

/-- What is left of a text when all blanks are left out, if its trimmed form has none. -/
theorem filter_eq_trimBy {l : List α} (h : ∀ c ∈ trimBy p l, p c = false) :
    l.filter (fun c ↦ !p c) = trimBy p l := by
  obtain ⟨a, b, ha, hb, heq⟩ := exists_trimBy (p := p) l
  have hnil : ∀ x : List α, (∀ c ∈ x, p c = true) → x.filter (fun c ↦ !p c) = [] := fun x hx ↦
    List.filter_eq_nil_iff.mpr fun c hc ↦ by simp [hx c hc]
  calc l.filter (fun c ↦ !p c)
      = (a ++ trimBy p l ++ b).filter (fun c ↦ !p c) := congrArg _ heq
    _ = (trimBy p l).filter (fun c ↦ !p c) := by
        rw [List.filter_append, List.filter_append, hnil a ha, hnil b hb, List.nil_append,
          List.append_nil]
    _ = trimBy p l := List.filter_eq_self.mpr fun c hc ↦ by simp [h c hc]

end Trim

/-! ### Lines -/

/-- The lines of the rest of a text, when `line` has been read of the current one. A last line that
is empty does not count. -/
def getlinesFrom (line : List Char) : List Char → List (List Char)
  | [] => if line = [] then [] else [line]
  | '\n' :: rest => line :: getlinesFrom [] rest
  | c :: rest => getlinesFrom (line ++ [c]) rest

/-- The lines that repeated calls of `std::getline` read. -/
def getlines (text : List Char) : List (List Char) := getlinesFrom [] text

theorem getlinesFrom_line {line rest : List Char} (h : '\n' ∉ line) (acc : List Char) :
    getlinesFrom acc (line ++ '\n' :: rest) = (acc ++ line) :: getlinesFrom [] rest := by
  induction line generalizing acc with
  | nil =>
    rw [List.append_nil]
    rfl
  | cons c line ih =>
    rw [List.mem_cons, not_or] at h
    rw [List.cons_append, getlinesFrom.eq_3 _ _ _ (Ne.symm h.1), ih h.2, List.append_assoc]
    rfl

/-- Lines that are written one after the other are read back. -/
theorem getlines_flatMap {lines : List (List Char)} (h : ∀ line ∈ lines, '\n' ∉ line) :
    getlines (lines.flatMap (· ++ ['\n'])) = lines := by
  induction lines with
  | nil => rfl
  | cons line lines ih =>
    unfold getlines
    rw [List.flatMap_cons, List.append_assoc]
    show getlinesFrom [] (line ++ '\n' :: lines.flatMap (· ++ ['\n'])) = _
    rw [getlinesFrom_line (h line List.mem_cons_self)]
    exact congrArg _ (ih fun l hl ↦ h l (List.mem_cons_of_mem _ hl))

/-! ### Search -/

/-- What stands behind the first occurrence of `needle`. -/
def afterFirst (needle : List Char) : List Char → Option (List Char)
  | [] => if needle = [] then some [] else none
  | c :: rest =>
    if needle.isPrefixOf (c :: rest) then some ((c :: rest).drop needle.length)
    else afterFirst needle rest

section Search

variable {needle text rest : List Char}

theorem afterFirst_append (needle rest : List Char) :
    afterFirst needle (needle ++ rest) = some rest := by
  cases h : needle ++ rest with
  | nil =>
    obtain ⟨rfl, rfl⟩ := List.append_eq_nil_iff.mp h
    rfl
  | cons c text =>
    have hprefix : needle.isPrefixOf (c :: text) = true :=
      List.isPrefixOf_iff_prefix.mpr (h ▸ List.prefix_append needle rest)
    unfold afterFirst
    rw [if_pos hprefix, ← h, List.drop_left]

theorem afterFirst_cons {c : Char} (h : ¬ needle <+: c :: text) :
    afterFirst needle (c :: text) = afterFirst needle text :=
  if_neg fun hprefix ↦ h (List.isPrefixOf_iff_prefix.mp hprefix)

/-- The search passes over a text that does not have the first character of `needle`. -/
theorem afterFirst_skip {q : Char} (h : q ∉ text) :
    afterFirst (q :: needle) (text ++ rest) = afterFirst (q :: needle) rest := by
  induction text with
  | nil => rfl
  | cons c text ih =>
    rw [List.mem_cons, not_or] at h
    rw [List.cons_append, afterFirst_cons, ih h.2]
    exact fun hprefix ↦ h.1 (List.cons_prefix_cons.mp hprefix).1

end Search

/-! ### Joined texts -/

theorem mem_intercalate {c : Char} {sep : List Char} {pieces : List (List Char)}
    (h : c ∈ sep.intercalate pieces) : c ∈ sep ∨ ∃ piece ∈ pieces, c ∈ piece := by
  induction pieces with
  | nil => simp at h
  | cons piece pieces ih =>
    by_cases hnil : pieces = []
    · subst hnil
      rw [List.intercalate_singleton] at h
      exact .inr ⟨piece, List.mem_cons_self, h⟩
    rw [List.intercalate_cons_of_ne_nil hnil, List.append_assoc, List.mem_append,
      List.mem_append] at h
    rcases h with h | h | h
    · exact .inr ⟨piece, List.mem_cons_self, h⟩
    · exact .inl h
    rcases ih h with hsep | ⟨other, hother, hmem⟩
    · exact .inl hsep
    · exact .inr ⟨other, List.mem_cons_of_mem _ hother, hmem⟩

theorem intercalate_append_singleton {sep : Char} {pieces : List (List Char)} (h : pieces ≠ [])
    (last : List Char) :
    [sep].intercalate (pieces ++ [last]) = [sep].intercalate pieces ++ sep :: last := by
  induction pieces with
  | nil => exact absurd rfl h
  | cons piece pieces ih =>
    by_cases hnil : pieces = []
    · subst hnil
      rw [List.singleton_append, List.intercalate_cons_cons, List.intercalate_singleton,
        List.intercalate_singleton, List.append_assoc]
      rfl
    · have hne : pieces ++ [last] ≠ [] := List.append_ne_nil_of_left_ne_nil hnil _
      rw [List.cons_append, List.intercalate_cons_of_ne_nil hne, ih hnil,
        List.intercalate_cons_of_ne_nil hnil, List.append_assoc, List.append_assoc,
        List.append_assoc]

end BoomCore
