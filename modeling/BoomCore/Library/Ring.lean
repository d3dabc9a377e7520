import Mathlib.Data.List.Nodup
import Mathlib.Data.Nat.ModEq
import Mathlib.Data.Nat.Notation
import Mathlib.Logic.Function.Basic

/-!
# Circular buffers as queues

A ring of `N` cells is read from a head position on: position `k` of the queue is the cell
`slot N head k`. `Tracks R N cells head l` says that the cells from the head on are related by `R`
to the elements of the list `l` in order, and `Holds N cells head l` that they are these elements.
Appending writes the cell behind the last element (`Tracks.push`), removing the first element moves
the head (`Tracks.pop`), and a cell may be overwritten by one that is still related to its element
(`Tracks.update`). What the other cells hold is not restricted. A `Queue` also has a tail and a
count, and its other cells are empty. `read N view head` lists what the cells show, from the head
on.
-/

set_option autoImplicit false
set_option relaxedAutoImplicit false

namespace Ring

variable {α β : Type*} {N head : ℕ}

/-! ### Positions -/

/-- The cell of position `k` of a ring of `N` cells that is read from `head` on. -/
def slot (N head k : ℕ) : ℕ := (head + k) % N

theorem slot_lt (hN : 0 < N) (k : ℕ) : slot N head k < N := Nat.mod_lt _ hN

theorem slot_zero (hhead : head < N) : slot N head 0 = head := Nat.mod_eq_of_lt hhead

/-- Moving the head by one shifts the positions by one. -/
theorem slot_succ_head (k : ℕ) : slot N ((head + 1) % N) k = slot N head (k + 1) := by
  unfold slot
  rw [Nat.mod_add_mod, Nat.add_assoc, Nat.add_comm 1 k]

/-- The cell behind position `k` is the cell of position `k + 1`. -/
theorem slot_succ (k : ℕ) : (slot N head k + 1) % N = slot N head (k + 1) := by
  unfold slot
  rw [Nat.mod_add_mod, Nat.add_assoc]

/-- Different positions have different cells. -/
theorem slot_inj {j k : ℕ} (hj : j < N) (hk : k < N) :
    slot N head j = slot N head k ↔ j = k := by
  constructor
  · intro h
    have hmod : j ≡ k [MOD N] := Nat.ModEq.add_left_cancel' head h
    exact hmod.eq_of_lt_of_lt hj hk
  · rintro rfl
    rfl

/-- The head moves to another cell. -/
theorem succ_mod_ne (hN : 1 < N) (hhead : head < N) : (head + 1) % N ≠ head := by
  intro heq
  by_cases hwrap : head + 1 < N
  · rw [Nat.mod_eq_of_lt hwrap] at heq
    omega
  · rw [show head + 1 = N by omega, Nat.mod_self] at heq
    omega

/-- Position `N` is the cell of the head again. -/
theorem slot_self (hhead : head < N) : slot N head N = head := by
  unfold slot
  rw [Nat.add_mod_right, Nat.mod_eq_of_lt hhead]

/-- Every cell is the cell of some position. -/
theorem exists_slot {i : ℕ} (hhead : head < N) (hi : i < N) : ∃ k < N, slot N head k = i := by
  by_cases h : head ≤ i
  · refine ⟨i - head, by omega, ?_⟩
    unfold slot
    rw [Nat.add_sub_of_le h, Nat.mod_eq_of_lt hi]
  · refine ⟨N + i - head, by omega, ?_⟩
    unfold slot
    rw [show head + (N + i - head) = N + i by omega, Nat.add_mod_left, Nat.mod_eq_of_lt hi]

/-- The position of a cell, counted from the head on. -/
def position (N head i : ℕ) : ℕ := (i + N - head) % N

theorem position_slot (hhead : head < N) {k : ℕ} (hk : k < N) :
    position N head (slot N head k) = k := by
  unfold position slot
  by_cases hwrap : head + k < N
  · rw [Nat.mod_eq_of_lt hwrap, show head + k + N - head = k + N by omega, Nat.add_mod_right,
      Nat.mod_eq_of_lt hk]
  · have hcell : (head + k) % N = head + k - N := by
      rw [Nat.mod_eq_sub_mod (by omega), Nat.mod_eq_of_lt (by omega)]
    rw [hcell, show head + k - N + N - head = k by omega, Nat.mod_eq_of_lt hk]

theorem slot_position (hhead : head < N) {i : ℕ} (hi : i < N) :
    slot N head (position N head i) = i := by
  obtain ⟨k, hk, rfl⟩ := exists_slot hhead hi
  rw [position_slot hhead hk]

/-! ### Contents -/

/-- The cells of a ring, from `head` on, are related to the elements of `l` in order. The relation
may depend on the cell. -/
structure Tracks (R : ℕ → α → β → Prop) (N : ℕ) (cells : ℕ → β) (head : ℕ) (l : List α) :
    Prop where
  length_le : l.length ≤ N
  get : ∀ k (hk : k < l.length), R (slot N head k) l[k] (cells (slot N head k))

namespace Tracks

variable {R : ℕ → α → β → Prop} {cells cells' : ℕ → β} {l : List α}

theorem nil (R : ℕ → α → β → Prop) (cells : ℕ → β) (head : ℕ) :
    Tracks R N cells head [] :=
  ⟨Nat.zero_le _, fun k hk ↦ absurd hk (Nat.not_lt_zero k)⟩

/-- The head cell is related to the first element. -/
theorem head_cell {a : α} (h : Tracks R N cells head (a :: l)) (hhead : head < N) :
    R head a (cells head) := by
  have hzero := h.get 0 (Nat.zero_lt_succ _)
  rwa [slot_zero hhead] at hzero

/-- Only the cells of the positions in use matter. -/
theorem congr (h : Tracks R N cells head l)
    (heq : ∀ k, k < l.length → cells' (slot N head k) = cells (slot N head k)) :
    Tracks R N cells' head l :=
  ⟨h.length_le, fun k hk ↦ by rw [heq k hk]; exact h.get k hk⟩

/-- Overwriting a cell that no position in use has leaves the contents alone. -/
theorem update_of_ne (h : Tracks R N cells head l) {i : ℕ} (v : β)
    (hi : ∀ k, k < l.length → slot N head k ≠ i) :
    Tracks R N (Function.update cells i v) head l :=
  h.congr fun k hk ↦ Function.update_of_ne (hi k hk) v cells

/-- Overwrite the cell of position `k` by one that is related to its element. -/
theorem update (h : Tracks R N cells head l) {k : ℕ} (hk : k < l.length) {v : β}
    (hv : R (slot N head k) l[k] v) :
    Tracks R N (Function.update cells (slot N head k) v) head l := by
  refine ⟨h.length_le, fun j hj ↦ ?_⟩
  have hle := h.length_le
  by_cases hjk : j = k
  · subst hjk
    rwa [Function.update_self]
  · have hne : slot N head j ≠ slot N head k := fun heq ↦
      hjk ((slot_inj (by omega) (by omega)).mp heq)
    rw [Function.update_of_ne hne]
    exact h.get j hj

/-- Append at the cell behind the last element. -/
theorem push (h : Tracks R N cells head l) (hroom : l.length < N) {a : α} {v : β}
    (hv : R (slot N head l.length) a v) :
    Tracks R N (Function.update cells (slot N head l.length) v) head (l ++ [a]) := by
  refine ⟨by simpa using Nat.succ_le_of_lt hroom, fun k hk ↦ ?_⟩
  rw [List.length_append, List.length_singleton] at hk
  by_cases hlast : k = l.length
  · subst hlast
    rw [Function.update_self, List.getElem_concat_length rfl]
    exact hv
  · have hk' : k < l.length := by omega
    have hne : slot N head k ≠ slot N head l.length := fun heq ↦
      hlast ((slot_inj (by omega) hroom).mp heq)
    rw [Function.update_of_ne hne, List.getElem_append_left hk']
    exact h.get k hk'

/-- Remove the first element by moving the head. -/
theorem pop {a : α} (h : Tracks R N cells head (a :: l)) :
    Tracks R N cells ((head + 1) % N) l := by
  refine ⟨Nat.le_of_succ_le h.length_le, fun k hk ↦ ?_⟩
  rw [slot_succ_head]
  exact h.get (k + 1) (by simpa using hk)

end Tracks

/-- The cells of a ring, from `head` on, hold the elements of `l` in order. -/
abbrev Holds (N : ℕ) (cells : ℕ → α) (head : ℕ) (l : List α) : Prop :=
  Tracks (fun _ a b ↦ b = a) N cells head l

/-! ### Queues with a count -/

section Queues

variable {cells : ℕ → Option α} {tail count : ℕ} {l : List α}

/-- From the head on the cells hold the elements of `l` in order, and the other cells are empty. The
tail is the cell behind the last element. -/
structure Queue (N : ℕ) (cells : ℕ → Option α) (head tail count : ℕ) (l : List α) : Prop where
  length_le : l.length ≤ N
  count_eq : count = l.length
  tail_eq : tail = slot N head l.length
  cell : ∀ k < N, cells (slot N head k) = l[k]?

theorem Queue.empty (hhead : head < N) (hcells : ∀ i < N, cells i = none) :
    Queue N cells head head 0 [] :=
  ⟨Nat.zero_le N, rfl, (slot_zero hhead).symm,
    fun k _ ↦ hcells _ (slot_lt (Nat.zero_lt_of_lt hhead) k)⟩

theorem Queue.push (h : Queue N cells head tail count l) (hroom : count < N) (a : α) :
    Queue N (Function.update cells tail (some a)) head ((tail + 1) % N) (count + 1) (l ++ [a]) := by
  have hlen := h.count_eq
  refine ⟨by rw [List.length_append, List.length_singleton]; omega, ?_, ?_, fun k hk ↦ ?_⟩
  · rw [List.length_append, List.length_singleton, hlen]
  · rw [h.tail_eq, slot_succ, List.length_append, List.length_singleton]
  · rw [h.tail_eq, ← hlen]
    by_cases hlast : k = count
    · rw [hlast, Function.update_self, hlen, List.getElem?_concat_length]
    · have hne : slot N head k ≠ slot N head count := fun heq ↦ hlast ((slot_inj hk hroom).mp heq)
      rw [Function.update_of_ne hne, h.cell k hk]
      rcases Nat.lt_or_gt_of_ne hlast with hlt | hgt
      · rw [List.getElem?_append_left (by omega)]
      · rw [List.getElem?_eq_none (by omega), List.getElem?_eq_none (by simp; omega)]

/-- The cells determine the list. -/
theorem Queue.unique {tail' count' : ℕ} {l' : List α} (h : Queue N cells head tail count l)
    (h' : Queue N cells head tail' count' l') : l = l' := by
  refine List.ext_getElem? fun k ↦ ?_
  by_cases hk : k < N
  · rw [← h.cell k hk, h'.cell k hk]
  · have hle := h.length_le
    have hle' := h'.length_le
    rw [List.getElem?_eq_none (by omega), List.getElem?_eq_none (by omega)]

end Queues

/-! ### What the cells show -/

section Read

variable {view view' : ℕ → Option α}

/-- What the cells of a ring show, from the head on. -/
def read (N : ℕ) (view : ℕ → Option α) (head : ℕ) : List α :=
  (List.range N).filterMap fun k ↦ view (slot N head k)

theorem read_congr (hN : 0 < N) (h : ∀ i < N, view' i = view i) :
    read N view' head = read N view head :=
  List.filterMap_congr fun k _ ↦ h _ (slot_lt hN k)

theorem read_nil (hN : 0 < N) (h : ∀ i < N, view i = none) : read N view head = [] :=
  List.filterMap_eq_nil_iff.mpr fun k _ ↦ h _ (slot_lt hN k)

/-- What the ring shows before position `k`, there, and behind it. -/
theorem read_split {k : ℕ} (hk : k < N) (view : ℕ → Option α) :
    read N view head = (List.range k).filterMap (fun j ↦ view (slot N head j)) ++
      ((view (slot N head k)).toList ++
        (List.range (N - (k + 1))).filterMap fun j ↦ view (slot N head (k + 1 + j))) := by
  obtain ⟨m, hm⟩ := Nat.exists_eq_add_of_le hk
  have hrest : N - (k + 1) = m := by omega
  have hrange : List.range N = List.range k ++ (k :: (List.range m).map (k + 1 + ·)) := by
    rw [hm, List.range_add, List.range_succ, List.append_assoc]
    rfl
  unfold read
  rw [hrest, hrange, List.filterMap_append, List.filterMap_cons, List.filterMap_map]
  cases view (slot N head k) <;> rfl

/-- A cell behind which no cell shows anything comes last. -/
theorem read_push {k : ℕ} (hk : k < N) (hbehind : ∀ j, k ≤ j → j < N → view (slot N head j) = none)
    (a : α) :
    read N (Function.update view (slot N head k) (some a)) head = read N view head ++ [a] := by
  have hsame : ∀ j < N, j ≠ k →
      Function.update view (slot N head k) (some a) (slot N head j) = view (slot N head j) :=
    fun j hj hjk ↦ Function.update_of_ne (fun heq ↦ hjk ((slot_inj hj hk).mp heq)) _ _
  have hback : (List.range (N - (k + 1))).filterMap (fun j ↦ view (slot N head (k + 1 + j))) = [] :=
    List.filterMap_eq_nil_iff.mpr fun j hj ↦ by
      rw [List.mem_range] at hj
      exact hbehind _ (by omega) (by omega)
  have hback' : (List.range (N - (k + 1))).filterMap (fun j ↦
      Function.update view (slot N head k) (some a) (slot N head (k + 1 + j))) = [] := by
    rw [← hback]
    refine List.filterMap_congr fun j hj ↦ ?_
    rw [List.mem_range] at hj
    exact hsame _ (by omega) (by omega)
  have hfront : (List.range k).filterMap (fun j ↦
      Function.update view (slot N head k) (some a) (slot N head j)) =
        (List.range k).filterMap fun j ↦ view (slot N head j) := by
    refine List.filterMap_congr fun j hj ↦ ?_
    rw [List.mem_range] at hj
    exact hsame j (by omega) (by omega)
  rw [read_split hk, read_split hk view, hback, hback', hfront, Function.update_self,
    hbehind k le_rfl hk, Option.toList_none, Option.toList_some, List.append_nil, List.append_nil,
    List.append_nil]

/-- When the head shows nothing any more, the rest is what the ring shows from the next cell on. -/
theorem read_pop (hhead : head < N) (hgone : view' head = none)
    (hother : ∀ i < N, i ≠ head → view' i = view i) :
    read N view head = (view head).toList ++ read N view' ((head + 1) % N) := by
  have hN : 0 < N := Nat.zero_lt_of_lt hhead
  have hlast : N - 1 < N := Nat.sub_lt hN Nat.one_pos
  have hend : view' (slot N ((head + 1) % N) (N - 1)) = none := by
    rw [slot_succ_head, Nat.sub_add_cancel hN, slot_self hhead]
    exact hgone
  rw [read_split hN, read_split hlast, slot_zero hhead, hend, Nat.sub_add_cancel hN, Nat.sub_self,
    Nat.zero_add]
  simp only [List.range_zero, List.filterMap_nil, List.nil_append, Option.toList_none,
    List.append_nil]
  congr 1
  refine List.filterMap_congr fun k hk ↦ ?_
  rw [List.mem_range] at hk
  rw [slot_succ_head, Nat.add_comm 1 k, hother _ (slot_lt hN _)]
  intro heq
  have hzero := (slot_inj (by omega) hN).mp (heq.trans (slot_zero hhead).symm)
  omega

/-- Assumes: no two cells show the same. -/
theorem read_nodup (hinj : ∀ i j a, view i = some a → view j = some a → i = j) :
    (read N view head).Nodup := by
  have hcells : ((List.range N).map (slot N head)).Nodup :=
    List.Nodup.map_on (fun j hj k hk heq ↦
      (slot_inj (List.mem_range.mp hj) (List.mem_range.mp hk)).mp heq) List.nodup_range
  have hnodup := hcells.filterMap hinj
  rw [List.filterMap_map] at hnodup
  exact hnodup

end Read

end Ring
