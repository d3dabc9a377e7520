import Mathlib.Data.List.Find
import BoomCore.Library.Compaction
import BoomCore.Proof.Ports
import BoomCore.Properties.ArrayBounds

/-!
# The issue queue

A well-formed queue holds a list of slots in its first cells. `issue_module` appends the slot of the
offered uop, grants the first slot of the list that nothing blocks, and leaves the list without it
(`issuesOldest`). In every step of every run the queue has room for the uop that is offered, so each
uop with an entry in the reorder buffer gets its slot (`issueQueue`).
-/

set_option autoImplicit false
set_option relaxedAutoImplicit false

namespace BoomCore

open Compaction

/-! ### Statements -/

/-- The slot waits to be granted. -/
structure IssueSlotEntry.Live (s : IssueSlotEntry) : Prop where
  valid : s.valid = true
  request : s.request = true
  granted : s.granted = false

structure IssueQueueState.WellFormed (iq : IssueQueueState) : Prop where
  count_le : iq.count ≤ issueQueueAluDepth
  tail_eq : iq.tail = iq.count % issueQueueAluDepth
  live : ∀ i < iq.count, (iq.entries i).Live
  free : ∀ i, iq.count ≤ i → i < issueQueueAluDepth → (iq.entries i).valid = false

/-- The slots of the queue, the oldest one first. -/
def IssueQueueState.slots (iq : IssueQueueState) : List IssueSlotEntry := cells iq.entries iq.count

/-- The slot is not killed and waits for no register. -/
def IssueSlotEntry.unblocked (s : IssueSlotEntry) : Bool :=
  !s.killed && !s.prs1Busy && !s.prs2Busy && !s.pdstBusy

/-- The slot of the uop that rename offers. -/
def RenameState.offered (ren : RenameState) : List IssueSlotEntry :=
  if ren.renamedValid then [dispatchSlot ren.renamedUop] else []

/-- An offered uop goes to this queue, and finds room in it. -/
structure IssueQueueState.Accepts (iq : IssueQueueState) (ren : RenameState) : Prop where
  room : ren.renamedValid = true → iq.count < issueQueueAluDepth
  kind : ren.renamedValid = true → ren.renamedUop.iqType = .alu ∨ ren.renamedUop.iqType = .mem

/-- The slots that the selection finds. -/
def BoomCoreState.candidates (s : BoomCoreState) : List IssueSlotEntry :=
  s.issue.aluIq.slots ++ s.rename.offered

/-- `issue_module` grants the oldest candidate that nothing blocks, or nothing if there is none, and
keeps the others in order. -/
structure IssuesOldest (s : BoomCoreState) : Prop where
  wellFormed : (issueModule s).issue.aluIq.WellFormed
  slots : (issueModule s).issue.aluIq.slots = s.candidates.eraseP IssueSlotEntry.unblocked
  none : s.candidates.find? IssueSlotEntry.unblocked = none →
    (issueModule s).issue.issuedValid = false
  some : ∀ e, s.candidates.find? IssueSlotEntry.unblocked = some e →
    (issueModule s).issue.issuedValid = true ∧ (issueModule s).issue.issuedUop = e.uop

/-! ### The loops -/

section Queue

variable {iq : IssueQueueState}

theorem IssueQueueState.WellFormed.dispatch (h : iq.WellFormed) {ren : RenameState}
    (haccepts : iq.Accepts ren) :
    (iq.dispatch ren).WellFormed ∧ (iq.dispatch ren).slots = iq.slots ++ ren.offered := by
  unfold RenameState.offered IssueQueueState.dispatch
  cases hvalid : ren.renamedValid with
  | false => simpa using h
  | true =>
    have hroom := haccepts.room hvalid
    have htail : iq.tail = iq.count := by rw [h.tail_eq, Nat.mod_eq_of_lt hroom]
    have htest : (true && decide (iq.count < issueQueueAluDepth) &&
        (decide (ren.renamedUop.iqType = .alu) || decide (ren.renamedUop.iqType = .mem))) =
          true := by
      simpa [hroom] using haccepts.kind hvalid
    rw [if_pos htest, if_pos rfl, htail]
    refine ⟨⟨hroom, rfl, fun i hi ↦ ?_, fun i hi hlt ↦ ?_⟩, cells_push _ _ _⟩
    · dsimp only at hi ⊢
      by_cases hlast : i = iq.count
      · rw [hlast, Function.update_self]
        exact ⟨rfl, rfl, rfl⟩
      · rw [Function.update_of_ne hlast]
        exact h.live i (by omega)
    · dsimp only at hi ⊢
      rw [Function.update_of_ne (by omega)]
      exact h.free i (by omega) hlt

/-- The selection tests the slots of the list only, and only for what blocks them. -/
theorem IssueQueueState.WellFormed.select (h : iq.WellFormed) :
    iq.select = (List.range iq.count).find? fun i ↦ (iq.entries i).unblocked := by
  obtain ⟨k, hk⟩ := Nat.exists_eq_add_of_le h.count_le
  have hlive : (List.range iq.count).find? (fun i ↦ (iq.entries i).ready) =
      (List.range iq.count).find? fun i ↦ (iq.entries i).unblocked := by
    refine List.find?_congr fun i hi ↦ ?_
    have hslot := h.live i (List.mem_range.mp hi)
    simp [IssueSlotEntry.ready, IssueSlotEntry.unblocked, hslot.valid, hslot.request]
  have hfree : ((List.range k).map (iq.count + ·)).find? (fun i ↦ (iq.entries i).ready) = none := by
    refine List.find?_eq_none.mpr fun i hi ↦ ?_
    obtain ⟨j, hj, rfl⟩ := List.mem_map.mp hi
    rw [List.mem_range] at hj
    simp [IssueSlotEntry.ready, h.free (iq.count + j) (by omega) (by omega)]
  unfold IssueQueueState.select
  rw [hk, List.range_add, List.find?_append, hlive, hfree, Option.or_none]

/-- Assumes: the slots that stay are live and fit in the queue. -/
theorem IssueQueueState.compact_wellFormed (hlen : iq.remaining.length ≤ issueQueueAluDepth)
    (hlive : ∀ s ∈ iq.remaining, s.Live) :
    iq.compact.WellFormed ∧ iq.compact.slots = iq.remaining := by
  refine ⟨⟨hlen, rfl, fun i hi ↦ ?_, fun i hi _ ↦ ?_⟩, cells_getD _ _⟩
  · have hi' : i < iq.remaining.length := hi
    show (iq.remaining.getD i {}).Live
    rw [List.getD_eq_getElem?_getD, List.getElem?_eq_getElem hi']
    exact hlive _ (List.getElem_mem hi')
  · have hi' : iq.remaining.length ≤ i := hi
    show (iq.remaining.getD i {}).valid = false
    rw [List.getD_eq_getElem?_getD, List.getElem?_eq_none hi']
    rfl

theorem IssueQueueState.WellFormed.mem_live (h : iq.WellFormed) {s : IssueSlotEntry}
    (hs : s ∈ iq.slots) : s.Live := by
  obtain ⟨i, hi, rfl⟩ := mem_cells.mp hs
  exact h.live i hi

/-- The slot stays in the queue. -/
def IssueSlotEntry.kept (s : IssueSlotEntry) : Bool := s.valid && !s.granted

theorem IssueQueueState.WellFormed.kept (h : iq.WellFormed) :
    (∀ i < iq.count, (iq.entries i).kept = true) ∧
      ∀ i, iq.count ≤ i → i < issueQueueAluDepth → (iq.entries i).kept = false := by
  refine ⟨fun i hi ↦ ?_, fun i hi hlt ↦ ?_⟩
  · unfold IssueSlotEntry.kept
    rw [(h.live i hi).valid, (h.live i hi).granted]
    rfl
  · unfold IssueSlotEntry.kept
    rw [h.free i hi hlt]
    rfl

/-- The slots that stay when none is granted. -/
theorem IssueQueueState.WellFormed.remaining (h : iq.WellFormed) : iq.remaining = iq.slots := by
  show (cells iq.entries issueQueueAluDepth).filter IssueSlotEntry.kept = _
  rw [filter_cells h.count_le h.kept.2, filter_cells_self h.kept.1]
  rfl

/-- The slots that stay when one is granted. -/
theorem IssueQueueState.WellFormed.remaining_grant (h : iq.WellFormed) {i : ℕ}
    (hselect : iq.select = some i) :
    (iq.grant i).remaining = iq.slots.eraseP IssueSlotEntry.unblocked := by
  rw [h.select] at hselect
  have hi : i < iq.count := List.mem_range.mp (List.mem_of_find?_eq_some hselect)
  show (cells (Function.update iq.entries i _) issueQueueAluDepth).filter IssueSlotEntry.kept = _
  rw [filter_cells h.count_le, filter_cells_update hselect _ h.kept.1]
  · rfl
  · exact Bool.and_false _
  · intro j hj hlt
    rw [Function.update_of_ne (by omega)]
    exact h.kept.2 j hj hlt

end Queue

/-! ### The module -/

/-- Assumes: a well-formed queue, no flush, and room for an offered uop, which is of a type that
goes to this queue. -/
theorem issuesOldest {s : BoomCoreState} (hqueue : s.issue.aluIq.WellFormed)
    (hflush : s.globalFlush = false) (haccepts : s.issue.aluIq.Accepts s.rename) :
    IssuesOldest s := by
  obtain ⟨hdispatched, hslots⟩ := hqueue.dispatch haccepts
  have hcandidates : s.candidates = (s.issue.aluIq.dispatch s.rename).slots := hslots.symm
  have hlen : (s.issue.aluIq.dispatch s.rename).slots.length ≤ issueQueueAluDepth := by
    rw [IssueQueueState.slots, length_cells]
    exact hdispatched.count_le
  have hfind : s.candidates.find? IssueSlotEntry.unblocked =
      (s.issue.aluIq.dispatch s.rename).select.map (s.issue.aluIq.dispatch s.rename).entries := by
    rw [hcandidates, hdispatched.select]
    exact find?_cells _ _ _
  cases hselect : (s.issue.aluIq.dispatch s.rename).select with
  | none =>
    rw [hselect, Option.map_none] at hfind
    have hremaining := hdispatched.remaining
    obtain ⟨hwf, hkept⟩ := IssueQueueState.compact_wellFormed (by rw [hremaining]; exact hlen)
      (by rw [hremaining]; exact fun _ hs ↦ hdispatched.mem_live hs)
    have hissue : (issueModule s).issue =
        { aluIq := (s.issue.aluIq.dispatch s.rename).compact } := by
      simp [issueModule, hflush, hselect]
    rw [hremaining, ← hcandidates] at hkept
    refine ⟨by rw [hissue]; exact hwf, ?_, fun _ ↦ by rw [hissue], fun e he ↦ ?_⟩
    · rw [hissue, hkept, List.eraseP_of_forall_not]
      exact List.find?_eq_none.mp hfind
    · rw [hfind] at he
      cases he
  | some i =>
    rw [hselect, Option.map_some] at hfind
    have hremaining := hdispatched.remaining_grant hselect
    have hsub := List.eraseP_sublist (p := IssueSlotEntry.unblocked)
      (l := (s.issue.aluIq.dispatch s.rename).slots)
    obtain ⟨hwf, hkept⟩ := IssueQueueState.compact_wellFormed
      (by rw [hremaining]; exact hsub.length_le.trans hlen)
      (by rw [hremaining]; exact fun _ hs ↦ hdispatched.mem_live (hsub.mem hs))
    have hissue : (issueModule s).issue =
        { aluIq := ((s.issue.aluIq.dispatch s.rename).grant i).compact
          issuedUop := ((s.issue.aluIq.dispatch s.rename).entries i).uop
          issuedValid := true } := by
      simp [issueModule, hflush, hselect]
    rw [hremaining, ← hcandidates] at hkept
    refine ⟨by rw [hissue]; exact hwf, by rw [hissue, hkept], fun hnone ↦ ?_, fun e he ↦ ?_⟩
    · rw [hfind] at hnone
      cases hnone
    · rw [hfind, Option.some_inj] at he
      rw [hissue, ← he]
      exact ⟨rfl, rfl⟩

/-! ### Every run -/

/-- The state that `rob_allocate` gets in a step. -/
def allocateInput (s : BoomCoreState) (pipe : PipeSignals) : BoomCoreState :=
  renameModule (decodeModule (fetchPhase s pipe).1)

/-- The state that `issue_module` gets in a step. -/
def issueInput (s : BoomCoreState) (pipe : PipeSignals) : BoomCoreState :=
  robAllocate (allocateInput s pipe)

/-- In the step the queue takes every uop that is offered, the one with a new entry in the reorder
buffer in particular. -/
structure QueueTakes (s : BoomCoreState) (pipe : PipeSignals) : Prop where
  wellFormed : (issueInput s pipe).issue.aluIq.WellFormed
  noFlush : (issueInput s pipe).globalFlush = false
  accepts : (issueInput s pipe).issue.aluIq.Accepts (issueInput s pipe).rename
  allocated : (issueInput s pipe).rob.tail ≠ (allocateInput s pipe).rob.tail →
    ∃ e ∈ (issueInput s pipe).candidates,
      e.uop = ((issueInput s pipe).rob.entries (allocateInput s pipe).rob.tail).uop

/-- A uop that gets an entry is offered to the issue queue. -/
theorem robAllocate_offers {s : BoomCoreState} (htail : (robAllocate s).rob.tail ≠ s.rob.tail) :
    ∃ e ∈ (robAllocate s).rename.offered, e.uop = ((robAllocate s).rob.entries s.rob.tail).uop := by
  unfold robAllocate at htail ⊢
  dsimp only at htail ⊢
  split_ifs at htail ⊢ with hskip
  · exact absurd rfl htail
  · exact absurd rfl htail
  · exact absurd rfl htail
  · simp only [Bool.or_eq_true, Bool.not_eq_true', not_or, Bool.not_eq_false] at hskip
    refine ⟨dispatchSlot (s.rename.renamedUop.atRob s.rob.tail), ?_, ?_⟩
    · simp [RenameState.offered, hskip.2, RobInternalState.wake]
    · simp [RobInternalState.allocate, RobInternalState.wake, dispatchSlot]

theorem wellFormed_empty : IssueQueueState.WellFormed {} :=
  ⟨Nat.zero_le _, rfl, fun i hi ↦ absurd hi (Nat.not_lt_zero i), fun _ _ _ ↦ rfl⟩

theorem StoresMarked.queueTakes {s : BoomCoreState} (h : StoresMarked s) (pipe : PipeSignals) :
    QueueTakes s pipe := by
  obtain ⟨hqueue, hflush, -⟩ := h.fetchPhase pipe
  obtain ⟨hempty, hflush', hready⟩ : (issueInput s pipe).issue.aluIq = {} ∧
      (issueInput s pipe).globalFlush = false ∧ (issueInput s pipe).rename.Ready :=
    robAllocate_renamed hqueue hflush
  refine ⟨?_, hflush', ⟨fun _ ↦ ?_, fun hvalid ↦ ?_⟩, fun htail ↦ ?_⟩
  · rw [hempty]
    exact wellFormed_empty
  · rw [hempty]
    exact Nat.succ_pos 7
  · have hkind := (hready hvalid).1
    cases htype : (issueInput s pipe).rename.renamedUop.iqType with
    | mem => exact Or.inr rfl
    | alu => exact Or.inl rfl
    | fpu => exact absurd htype hkind
  · obtain ⟨e, he, huop⟩ := robAllocate_offers htail
    exact ⟨e, List.mem_append_right _ he, huop⟩

theorem storesMarked_run (pipes : ℕ → PipeSignals) (n : ℕ) :
    StoresMarked (BoomCoreState.run pipes n) :=
  Run.invariant storesMarked_init (fun _ pipe hs ↦ (boomCoreStep_writes hs pipe).1) n

/-- For every well-formed queue and every offered uop that goes to it and finds room, `issue_module`
grants the oldest candidate that nothing blocks and keeps the others in order; and in every step of
every run the queue is well formed, and finds room for the uop that is offered to it. -/
theorem issueQueue :
    (∀ s : BoomCoreState, s.issue.aluIq.WellFormed → s.globalFlush = false →
      s.issue.aluIq.Accepts s.rename → IssuesOldest s) ∧
    ∀ (pipes : ℕ → PipeSignals) (n : ℕ), QueueTakes (BoomCoreState.run pipes n) (pipes n) :=
  ⟨fun _ hqueue hflush haccepts ↦ issuesOldest hqueue hflush haccepts,
    fun pipes n ↦ (storesMarked_run pipes n).queueTakes (pipes n)⟩

/-- A slot that waits for its first source, and one that waits for nothing. -/
def blockedAndReady : BoomCoreState :=
  { issue :=
      { aluIq :=
          { entries := fun i ↦
              if i = 0 then { valid := true, request := true, prs1Busy := true }
              else if i = 1 then { valid := true, request := true }
              else {}
            tail := 2, count := 2 } } }

/-- The second slot is granted, and the first one stays. -/
theorem issueQueue_blockedAndReady :
    IssuesOldest blockedAndReady ∧
      blockedAndReady.candidates.eraseP IssueSlotEntry.unblocked =
        [{ valid := true, request := true, prs1Busy := true }] := by
  have hqueue : blockedAndReady.issue.aluIq.WellFormed :=
    { count_le := by decide
      tail_eq := by decide
      live := fun i hi ↦ by
        have hcases : i = 0 ∨ i = 1 := by
          have hlt : i < 2 := hi
          omega
        rcases hcases with rfl | rfl <;> exact ⟨rfl, rfl, rfl⟩
      free := fun i hi _ ↦ by
        have hle : 2 ≤ i := hi
        show (if i = 0 then _ else if i = 1 then _ else ({} : IssueSlotEntry)).valid = false
        rw [if_neg (by omega), if_neg (by omega)] }
  exact ⟨issueQueue.1 blockedAndReady hqueue rfl ⟨nofun, nofun⟩, by decide⟩

end BoomCore
