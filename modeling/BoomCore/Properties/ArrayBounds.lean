import BoomCore.Library.Run
import BoomCore.Proof.Checked

/-!
# Every array access is in bounds

The core steps on streams that hold anything before every step: any instruction words and responses,
with any delays, and any room. Every state that a module leaves in such a run has all its indices in
range, and the step with checked accesses always has a result, the one of the core.
-/

set_option autoImplicit false
set_option relaxedAutoImplicit false

namespace BoomCore

/-- The state before step `n`, when the streams of the steps are `pipes`. -/
def BoomCoreState.run (pipes : ℕ → PipeSignals) : ℕ → BoomCoreState :=
  Run.states (fun s pipe ↦ (boomCoreStep s pipe).1) {} pipes

/-- The states in the course of a step, from the one that the step starts from to the one that it
leaves, as the modules make them from one another. -/
def moduleStates (s : BoomCoreState) (pipe : PipeSignals) : List BoomCoreState :=
  let memory := memoryPhase s pipe
  let fetched := frontendModule memory.1 memory.2
  let renamed := renameModule (decodeModule fetched.1)
  let issued := issueModule (robAllocate renamed)
  [s, resolved s, memory.1, fetched.1, decodeModule fetched.1, renamed, robAllocate renamed, issued,
    executeModule issued, (boomCoreStep s pipe).1]

/-- Every module of a step keeps the indices in range. -/
theorem BoomCoreState.InBounds.moduleStates {s : BoomCoreState} (h : s.InBounds)
    (pipe : PipeSignals) : ∀ t ∈ moduleStates s pipe, t.InBounds := by
  have hmemory : (memoryPhase s pipe).1.InBounds := h.resolved.lsuModule pipe
  have hfetched := hmemory.frontendModule (memoryPhase s pipe).2
  have hrenamed := hfetched.decodeModule.renameModule
  have hissued := hrenamed.robAllocate.issueModule
  have hexecuted := hissued.executeModule
  simp only [BoomCore.moduleStates, List.forall_mem_cons]
  exact ⟨h, h.resolved, hmemory, hfetched, hfetched.decodeModule, hrenamed, hrenamed.robAllocate,
    hissued, hexecuted, hexecuted.robCommitModule _, fun t ht ↦ absurd ht List.not_mem_nil⟩

theorem BoomCoreState.InBounds.boomCoreStep {s : BoomCoreState} (h : s.InBounds)
    (pipe : PipeSignals) : (boomCoreStep s pipe).1.InBounds :=
  h.moduleStates pipe _ (by simp [BoomCore.moduleStates])

theorem inBounds_run (pipes : ℕ → PipeSignals) (n : ℕ) : (BoomCoreState.run pipes n).InBounds :=
  Run.invariant inBounds_init (fun _ pipe hs ↦ hs.boomCoreStep pipe) n

/-- In every step of every run each module leaves all indices in range, and no access of the step is
outside of its array. -/
theorem accesses_inBounds (pipes : ℕ → PipeSignals) (n : ℕ) :
    (∀ t ∈ moduleStates (BoomCoreState.run pipes n) (pipes n), t.InBounds) ∧
      Checked.boomCoreStep (BoomCoreState.run pipes n) (pipes n) =
        some (boomCoreStep (BoomCoreState.run pipes n) (pipes n)) :=
  ⟨(inBounds_run pipes n).moduleStates _, checked_boomCoreStep (inBounds_run pipes n) _⟩

end BoomCore
