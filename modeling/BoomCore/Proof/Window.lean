import BoomCore.Library.Ring
import BoomCore.Model.Step
import BoomCore.Proof.Inflight

/-!
# The reorder buffer as a window of instructions in flight

The reorder buffer refines a queue of the instructions in flight: `RobInv rob w` says that the
entries from the head on belong to the elements of `w` in order and that every other entry is
invalid. `LsuInv` is what the load/store unit keeps besides: at most one load of the window waits
for a response, and no store is older than a load whose request was sent. `Handed` is the memory
operation that the previous step executed and the load/store unit has not seen yet.
-/

set_option autoImplicit false
set_option relaxedAutoImplicit false

namespace BoomCore

open Ring

/-- An instruction in flight: the cycle of its dispatch, and the result of its execution there. -/
structure Inflight where
  born : ℕ
  result : AluResult

/-- The cell of the reorder buffer in which the instruction was allocated. -/
abbrev Inflight.cell (d : Inflight) : ℕ := d.result.uop.queue.robIdx

/-- The entry `e` in cell `i` of the reorder buffer belongs to the instruction `d`. -/
structure EntryOf (i : ℕ) (d : Inflight) (e : RobEntry) : Prop where
  dispatched : DispatchedSpec d.result
  robIdx : d.result.uop.queue.robIdx = i
  stage : Stage d.result e

/-! ### The window -/

/-- The reorder buffer holds the window `w`. -/
structure RobInv (rob : RobInternalState) (w : List Inflight) : Prop where
  entries : Tracks EntryOf robDepth rob.entries rob.head w
  head_lt : rob.head < robDepth
  tail : rob.tail = slot robDepth rob.head w.length
  maybeFull : rob.maybeFull = decide (w.length = robDepth)
  outside : ∀ i < robDepth, (∀ k < w.length, slot robDepth rob.head k ≠ i) →
    (rob.entries i).valid = false

theorem robInv_init : RobInv {} [] :=
  ⟨Tracks.nil _ _ _, by decide, rfl, rfl, fun _ _ _ ↦ rfl⟩

namespace RobInv

variable {rob rob' : RobInternalState} {w : List Inflight} {d : Inflight} (h : RobInv rob w)

include h

theorem length_le : w.length ≤ robDepth := h.entries.length_le

/-- Only the ring itself matters. -/
theorem congr (hentries : rob'.entries = rob.entries) (hhead : rob'.head = rob.head)
    (htail : rob'.tail = rob.tail) (hfull : rob'.maybeFull = rob.maybeFull) : RobInv rob' w := by
  constructor
  · rw [hentries, hhead]
    exact h.entries
  · rw [hhead]
    exact h.head_lt
  · rw [htail, hhead]
    exact h.tail
  · rw [hfull]
    exact h.maybeFull
  · rw [hentries, hhead]
    exact h.outside

/-- The head meets the tail when the window is empty and when it fills the ring. -/
theorem head_eq_tail : rob.head = rob.tail ↔ w.length = 0 ∨ w.length = robDepth := by
  have hle := h.length_le
  have hhead := h.head_lt
  rw [h.tail]
  unfold slot
  constructor
  · intro heq
    by_contra hne
    by_cases hwrap : rob.head + w.length < robDepth
    · rw [Nat.mod_eq_of_lt hwrap] at heq
      omega
    · rw [Nat.mod_eq_sub_mod (by omega), Nat.mod_eq_of_lt (by omega)] at heq
      omega
  · rintro (hzero | hfull)
    · rw [hzero, Nat.add_zero, Nat.mod_eq_of_lt hhead]
    · rw [hfull, Nat.add_mod_right, Nat.mod_eq_of_lt hhead]

theorem isFull_iff : rob.isFull = true ↔ w.length = robDepth := by
  unfold RobInternalState.isFull
  rw [h.maybeFull, Bool.and_eq_true, decide_eq_true_eq, decide_eq_true_eq, h.head_eq_tail]
  omega

/-- A buffer that is not full has room for one more instruction. -/
theorem length_lt (hfull : rob.isFull = false) : w.length < robDepth := by
  have hle := h.length_le
  have hne : w.length ≠ robDepth := fun heq ↦ by simp [h.isFull_iff.mpr heq] at hfull
  omega

theorem isEmpty_iff : rob.isEmpty = true ↔ w = [] := by
  have hpos : 0 < robDepth := by decide
  unfold RobInternalState.isEmpty
  rw [h.maybeFull, Bool.and_eq_true, decide_eq_true_eq, h.head_eq_tail, Bool.not_eq_true',
    decide_eq_false_iff_not, ← List.length_eq_zero_iff]
  omega

/-- A valid entry belongs to an instruction of the window. -/
theorem of_valid {i : ℕ} (hi : i < robDepth) (hvalid : (rob.entries i).valid = true) :
    ∃ k, k < w.length ∧ slot robDepth rob.head k = i := by
  by_contra hcontra
  have hnot := h.outside i hi fun k hk heq ↦ hcontra ⟨k, hk, heq⟩
  rw [hnot] at hvalid
  simp at hvalid

theorem entryOf {k : ℕ} (hk : k < w.length) :
    EntryOf (slot robDepth rob.head k) w[k] (rob.entries (slot robDepth rob.head k)) :=
  h.entries.get k hk

omit h in
/-- The oldest instruction has the entry at the head. -/
theorem head (h : RobInv rob (d :: w)) :
    rob.isEmpty = false ∧ EntryOf rob.head d (rob.entries rob.head) := by
  refine ⟨?_, h.entries.head_cell h.head_lt⟩
  rw [← Bool.not_eq_true, h.isEmpty_iff]
  exact List.cons_ne_nil d w

/-- The cell of an instruction of the window is in its uop. -/
theorem entryOf_mem {d : Inflight} (hd : d ∈ w) : EntryOf d.cell d (rob.entries d.cell) := by
  obtain ⟨k, hk, rfl⟩ := List.getElem_of_mem hd
  have hof := h.entryOf hk
  rw [← hof.robIdx] at hof
  exact hof

/-- Different instructions have different cells. -/
theorem slot_inj {j k : ℕ} (hj : j < w.length) (hk : k < w.length) :
    slot robDepth rob.head j = slot robDepth rob.head k ↔ j = k :=
  Ring.slot_inj (hj.trans_le h.length_le) (hk.trans_le h.length_le)

theorem eq_of_cell {d d' : Inflight} (hd : d ∈ w) (hd' : d' ∈ w) (heq : d.cell = d'.cell) :
    d = d' := by
  obtain ⟨j, hj, rfl⟩ := List.getElem_of_mem hd
  obtain ⟨k, hk, rfl⟩ := List.getElem_of_mem hd'
  rw [Inflight.cell, Inflight.cell, (h.entryOf hj).robIdx, (h.entryOf hk).robIdx] at heq
  have hjk := (h.slot_inj hj hk).mp heq
  subst hjk
  rfl

/-- Move one instruction of the window to another stage. -/
theorem update {k : ℕ} (hk : k < w.length) {e : RobEntry} (hstage : Stage w[k].result e) :
    RobInv
      { rob with entries := Function.update rob.entries (slot robDepth rob.head k) e } w := by
  have hold := h.entryOf hk
  refine ⟨h.entries.update hk ⟨hold.dispatched, hold.robIdx, hstage⟩, h.head_lt, h.tail,
    h.maybeFull, fun i hi hout ↦ ?_⟩
  have hne : i ≠ slot robDepth rob.head k := Ne.symm (hout k hk)
  show (Function.update rob.entries (slot robDepth rob.head k) e i).valid = false
  rw [Function.update_of_ne hne]
  exact h.outside i hi hout

/-- Append an instruction at the tail. -/
theorem push (hroom : w.length < robDepth) {e : RobEntry} (he : EntryOf rob.tail d e) :
    RobInv
      { rob with
        entries := Function.update rob.entries rob.tail e
        tail := (rob.tail + 1) % robDepth
        maybeFull := if (rob.tail + 1) % robDepth = rob.head then true else rob.maybeFull }
      (w ++ [d]) := by
  have htail := h.tail
  have hnext : (rob.tail + 1) % robDepth = slot robDepth rob.head (w.length + 1) := by
    rw [htail, slot_succ]
  have hwrap : slot robDepth rob.head (w.length + 1) = rob.head ↔ w.length + 1 = robDepth := by
    constructor
    · intro heq
      by_contra hne
      have hlt : w.length + 1 < robDepth := by omega
      have hzero : slot robDepth rob.head (w.length + 1) = slot robDepth rob.head 0 := by
        rw [heq, slot_zero h.head_lt]
      have hsucc : w.length + 1 = 0 := (Ring.slot_inj hlt (by omega)).mp hzero
      omega
    · intro heq
      rw [heq, slot_self h.head_lt]
  constructor
  · show Tracks EntryOf robDepth (Function.update rob.entries rob.tail e) rob.head (w ++ [d])
    rw [htail]
    rw [htail] at he
    exact h.entries.push hroom he
  · exact h.head_lt
  · show (rob.tail + 1) % robDepth = slot robDepth rob.head (w ++ [d]).length
    rw [hnext, List.length_append, List.length_singleton]
  · show (if (rob.tail + 1) % robDepth = rob.head then true else rob.maybeFull) = _
    rw [hnext, List.length_append, List.length_singleton, h.maybeFull]
    by_cases hlast : w.length + 1 = robDepth
    · rw [if_pos (hwrap.mpr hlast), decide_eq_true hlast]
    · rw [if_neg fun heq ↦ hlast (hwrap.mp heq), decide_eq_false hlast,
        decide_eq_false (by omega)]
  · intro i hi hout
    rw [List.length_append, List.length_singleton] at hout
    have hne : i ≠ rob.tail := by
      rw [htail]
      exact Ne.symm (hout w.length (by omega))
    show (Function.update rob.entries rob.tail e i).valid = false
    rw [Function.update_of_ne hne]
    exact h.outside i hi fun k hk ↦ hout k (by omega)

omit h in
/-- The oldest instruction leaves: its entry is invalid and the head is behind it. -/
theorem pop (h : RobInv rob (d :: w))
    (hentries : ∀ i, i ≠ rob.head → rob'.entries i = rob.entries i)
    (hinvalid : (rob'.entries rob.head).valid = false)
    (hhead : rob'.head = (rob.head + 1) % robDepth) (htail : rob'.tail = rob.tail)
    (hfull : rob'.maybeFull = false) : RobInv rob' w := by
  have hle := h.length_le
  rw [List.length_cons] at hle
  have hne : ∀ k, k < w.length →
      slot robDepth ((rob.head + 1) % robDepth) k ≠ rob.head := fun k hk heq ↦ by
    rw [slot_succ_head] at heq
    have hzero := heq.trans (slot_zero h.head_lt).symm
    have hsucc : k + 1 = 0 := (Ring.slot_inj (by omega) (by omega)).mp hzero
    omega
  constructor
  · rw [hhead]
    exact h.entries.pop.congr fun k hk ↦ hentries _ (hne k hk)
  · rw [hhead]
    exact Nat.mod_lt _ (by decide)
  · rw [htail, hhead, slot_succ_head, h.tail, List.length_cons]
  · rw [hfull, decide_eq_false (by omega)]
  · intro i hi hout
    by_cases hcell : i = rob.head
    · rw [hcell]
      exact hinvalid
    · rw [hentries i hcell]
      refine h.outside i hi fun k hk ↦ ?_
      cases k with
      | zero =>
        rw [slot_zero h.head_lt]
        exact Ne.symm hcell
      | succ k =>
        rw [← slot_succ_head, ← hhead]
        exact hout k (by simpa using hk)

omit h in
/-- After the flush of a redirect nothing is in flight. -/
theorem flush (rob : RobInternalState) : RobInv rob.flush [] := by
  refine ⟨Tracks.nil _ _ _, Nat.zero_lt_succ _, rfl, rfl, fun i hi _ ↦ ?_⟩
  by_cases hvalid : (rob.entries i).valid = true
  · simp [RobInternalState.flush, hi, hvalid]
  · simp [RobInternalState.flush, hvalid]

end RobInv

end BoomCore
