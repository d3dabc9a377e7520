import BoomCore.Proof.Environment

/-!
# The ring of the reorder buffer

`head`, `tail` and `maybe_full` describe the valid entries of the reorder buffer exactly: an entry
is valid when its index lies in the cyclic window that begins at the head, and it carries its own
index. The memory result that `execute` holds for the load/store unit belongs to a valid entry with
the same uop that has not been written back yet (`robRing_run`). This needs no more of the
instruction memory than that it answers no request in the step that sends it.
-/

set_option autoImplicit false
set_option relaxedAutoImplicit false

namespace BoomCore

open Ring

/-- The length of the window from the head to the tail. -/
def RobInternalState.occupancy (rob : RobInternalState) : ℕ :=
  if rob.maybeFull then robDepth else (rob.tail + robDepth - rob.head) % robDepth

/-- The index lies in the cyclic window from the head to the tail. -/
def RobInternalState.InWindow (rob : RobInternalState) (i : ℕ) : Prop :=
  position robDepth rob.head i < rob.occupancy

/-- The reorder buffer is a ring, and the memory result that has not been written back belongs to
an entry of it. -/
structure BoomCoreState.RobRing (s : BoomCoreState) : Prop where
  head_lt : s.rob.head < robDepth
  tail_lt : s.rob.tail < robDepth
  full : s.rob.maybeFull = true → s.rob.head = s.rob.tail
  valid : ∀ i < robDepth, (s.rob.entries i).valid = true ↔ s.rob.InWindow i
  robIdx : ∀ i < robDepth, (s.rob.entries i).valid = true →
    (s.rob.entries i).uop.queue.robIdx = i
  result : s.execute.aluResult.valid = true → s.execute.aluResult.memoryValid = true →
    ∃ i < robDepth, s.execute.aluResult.uop.queue.robIdx = i ∧
      (s.rob.entries i).valid = true ∧ (s.rob.entries i).uop = s.execute.aluResult.uop ∧
      (s.rob.entries i).memoryValid = false

section Ring

variable {rob : RobInternalState} {w : List Inflight} (h : RobInv rob w)

include h

/-- The occupancy is the length of the window. -/
theorem RobInv.occupancy_eq : rob.occupancy = w.length := by
  unfold RobInternalState.occupancy
  rw [h.maybeFull]
  by_cases hfull : w.length = robDepth
  · rw [decide_eq_true hfull, if_pos rfl, hfull]
  · have hlt : w.length < robDepth := Nat.lt_of_le_of_ne h.length_le hfull
    rw [decide_eq_false hfull, if_neg Bool.false_ne_true, h.tail]
    exact position_slot h.head_lt hlt

/-- The valid entries are the cells of the window. -/
theorem RobInv.valid_iff {i : ℕ} (hi : i < robDepth) :
    (rob.entries i).valid = true ↔ rob.InWindow i := by
  unfold RobInternalState.InWindow
  rw [h.occupancy_eq]
  constructor
  · intro hvalid
    obtain ⟨k, hk, rfl⟩ := h.of_valid hi hvalid
    rwa [position_slot h.head_lt (hk.trans_le h.length_le)]
  · intro hlt
    have hstage := (h.entryOf hlt).stage
    rw [slot_position h.head_lt hi] at hstage
    exact hstage.valid

end Ring

/-- The invariant of the window says that the reorder buffer is a ring. -/
theorem SysInv.robRing {sys : System} {w : List Inflight} (h : SysInv sys w) :
    sys.core.RobRing := by
  have hrob := h.window.rob
  refine ⟨hrob.head_lt, h.tail_lt, ?_, fun i hi ↦ hrob.valid_iff hi, fun i hi hvalid ↦ ?_,
    fun hvalid hmemory ↦ ?_⟩
  · rw [hrob.maybeFull, decide_eq_true_eq]
    intro hfull
    exact hrob.head_eq_tail.mpr (Or.inr hfull)
  · obtain ⟨k, hk, rfl⟩ := hrob.of_valid hi hvalid
    have hof := hrob.entryOf hk
    rw [hof.stage.queue, hof.robIdx]
  · obtain ⟨w', d, rfl, hd, hentry⟩ := h.handed.last hvalid hmemory
    have hof := hrob.entryOf (k := w'.length) (by simp)
    rw [List.getElem_concat_length rfl] at hof
    refine ⟨_, slot_lt (by decide) _, ?_, hof.stage.valid, ?_, ?_⟩
    · rw [← hd]
      exact hof.robIdx
    · rw [hentry, ← hd]
      rfl
    · rw [hentry]
      rfl

/-- Assumes: before step `n` no response carries the identifier of a request of its own step. The
reorder buffer is a ring before step `n`. -/
theorem robRing_run (input : ℕ → Inputs) (n : ℕ) (hlater : Core.AnsweredLater input n) :
    (Core.run input n).RobRing :=
  (sysInv_coreRun input n hlater).robRing

/-- `robRing_run` for a core that waits for its load, with the instructions behind it in the
ring. -/
theorem robRing_loadThenNops :
    (Core.run (System.inputs loadThenNops fun _ ↦ .fetch) 40).RobRing :=
  robRing_run _ 40 (System.answeredLater_inputs loadThenNops (fun _ ↦ .fetch) 40)

/-- The reorder buffer of the system is a ring before every cycle. -/
theorem robRing_system (program : Program) (tick : ℕ → Tick) (n : ℕ) :
    (System.run program tick n).core.RobRing := by
  rw [← System.coreRun_inputs]
  exact robRing_run _ n (System.answeredLater_inputs program tick n)

end BoomCore
