import BoomCore.Proof.PrefixTrace

/-!
# The core of the bench on the way of the machine

Between two cycles of the bench the core is at a place on the way of the sequential machine
(`Place`): the machine before step `k`, and the number `j` of instructions that have been handed
over. While the machine runs, one is handed over in every cycle with an odd number
(`Place.dispatched_length`), and it is the one that the machine comes to in step `j`
(`Place.branch`).
-/

set_option autoImplicit false
set_option relaxedAutoImplicit false

namespace BoomCore

/-! ### What is dispatched -/

section Dispatched

variable {program : Program} {ms : MemorySystem} {m : Machine} {w : List Inflight}
  (h : ms.Prompt program m w) {mt : MemoryTick} (hmt : mt.Prompt) (n : ℕ)
  (horderly : ∀ j, ((Machine.step program)^[j] m).Orderly program)

include h

/-- The machine has not halted where it comes to what is handed over. -/
theorem MemorySystem.Prompt.running_behind (hrun : m.arch.halted = false)
    (hacc : (ms.sys.accepted program (ms.tickOf mt)).isSome = true) :
    ((Machine.step program)^[w.length] m).arch.halted = false := by
  cases h.rest hrun with
  | fetching sent =>
    rw [h.inv.step.accepted_of_not_sent program _ sent] at hacc
    exact absurd hacc Bool.false_ne_true
  | empty _ _ _ none =>
    subst none
    exact hrun
  | loading _ d _ _ window load =>
    subst window
    have hin := (Run.along_cons_iff.mp (h.tracking hrun).2).1 hrun
    have hspec := (h.inv.window.rob.entryOf_mem (List.mem_singleton_self d)).dispatched
    have hlegal := load
    rw [hspec.load, Bool.and_eq_true, Bool.not_eq_true', ← hspec.exception,
      hin.implements.same] at hlegal
    have hdone : m.arch.completes program = true := by
      unfold ArchState.completes
      rw [hrun, show (m.arch.result program).exception = false from hlegal.2]
      rfl
    show (m.step program).arch.halted = false
    rw [Machine.step_of_completes hdone]
    exact hrun

include hmt horderly

/-- What is dispatched is the instruction that the machine comes to behind those in flight. -/
theorem MemorySystem.Prompt.dispatched_implements (hrun : m.arch.halted = false) {d : Inflight}
    (hd : ms.sys.dispatched program (ms.tickOf mt) n = [d]) :
    ((Machine.step program)^[w.length] m).arch.halted = false ∧
      d.result.Implements (((Machine.step program)^[w.length] m).arch.result program) := by
  have hacc : (ms.sys.accepted program (ms.tickOf mt)).isSome = true := by
    have hlength := h.inv.dispatched_length program (ms.tickOf mt) n (h.inOrder hmt).room
    by_contra hnot
    rw [hd, if_neg hnot] at hlength
    exact absurd hlength Nat.one_ne_zero
  have hprocessed : BoomCore.Refines program ms.sys (ms.process mt.processed).memory
      (ms.process mt.processed).requests (ms.process mt.processed).answers m w :=
    { h.refines with memory := h.refines.memory.process mt.processed }
  have hrunning := h.running_behind hrun hacc
  have htracks : Tracks program (ms.sys.atCommit program (ms.tickOf mt)) m
      (w ++ ms.sys.dispatched program (ms.tickOf mt) n) := by
    cases h.refines.phase with
    | tracking _ _ tracks pc =>
      exact (hprocessed.tracks_atCommit (i := mt.answered) rfl (h.inOrder hmt) n
        (fun j ↦ (horderly j).beat) tracks pc).1
    | trapped _ halted =>
      rw [hrun] at halted
      exact absurd halted Bool.false_ne_true
    | lost redirects nonempty => exact absurd (h.redirect redirects) nonempty
  rw [hd] at htracks
  exact ⟨hrunning, ((Run.along_concat_iff.mp htracks).2 hrunning).implements⟩

end Dispatched

/-- The cycle counter counts the cycles. -/
theorem StepInv.cycle_counter {program : Program} {sys : System} (h : StepInv sys) (t : Tick) :
    (sys.cycle program t).core.csr.cycle = sys.core.csr.cycle + 1 := by
  have hcommit : ∀ (s : BoomCoreState) (pipe : PipeSignals),
      (commitStage s pipe).1.csr.cycle = s.csr.cycle := by
    intro s pipe
    unfold commitStage commitException commitHead
    dsimp only
    split_ifs <;> rfl
  have hat : (sys.atCommit program t).csr.cycle = sys.core.csr.cycle + 1 := by rw [h.atCommit_csr]
  show (sys.coreStep program t).1.csr.cycle = _
  by_cases hredirects : sys.core.execute.aluResult.redirects = true
  · rw [h.coreStep_of_redirects program t hredirects]
    exact hat
  · rw [h.coreStep_of_not_redirects program t (by simpa using hredirects), hcommit, hat]

/-- In the cycle in which the core stops there is one instruction, the one that stops it. -/
theorem MemorySystem.Prompt.halting_length {program : Program} {ms : MemorySystem} {m : Machine}
    {w : List Inflight} (h : ms.Prompt program m w) {mt : MemoryTick} (hmt : mt.Prompt) (n : ℕ)
    (hrun : m.arch.halted = false) (htrap : ms.sys.TakesTrap program (ms.tickOf mt)) :
    (w ++ ms.sys.dispatched program (ms.tickOf mt) n).length = 1 := by
  have hne : w ++ ms.sys.dispatched program (ms.tickOf mt) n ≠ [] := fun hnil ↦ by
    have hempty := (h.inv.atCommit program (ms.tickOf mt) n).1.rob.isEmpty_iff.mpr hnil
    rw [htrap.nonempty] at hempty
    exact Bool.false_ne_true hempty
  refine Nat.le_antisymm ?_ (List.length_pos_of_ne_nil hne)
  have hlength := h.inv.dispatched_length program (ms.tickOf mt) n (h.inOrder hmt).room
  rw [List.length_append, hlength]
  cases h.rest hrun with
  | fetching sent pending drained short =>
    rw [h.inv.step.accepted_of_not_sent program _ sent]
    exact short
  | empty _ _ _ none =>
    subst none
    rw [List.length_nil, Nat.zero_add]
    split_ifs
    · exact Nat.le_refl 1
    · exact Nat.zero_le 1
  | loading _ d tx req window load entry request isLoad =>
    subst window
    obtain ⟨-, resp, hresp, hexc, hmatches⟩ := h.refines.memory.answered hmt request isLoad
    have hcontra := htrap.exception
    rw [h.inv.head_entry program _ rfl,
      (h.inv.loading_arrived program load entry hresp hmatches hexc).2.1] at hcontra
    exact absurd hcontra Bool.false_ne_true

namespace PrefixTrace

/-! ### The machine behind the trace -/

/-- The events that the bench prints for a step of the machine. -/
def commitEvents (program : Program) (m : Machine) : List Event := commitPart (m.commits program)

def tohostEvents (program : Program) (m : Machine) : List Event :=
  (m.stores program).flatMap tohostPart

def branchEvents (program : Program) (m : Machine) : List Event :=
  if m.arch.halted then [] else branchPart (m.arch.result program)

theorem branchPart_implements {r a : AluResult} (h : r.Implements a) :
    branchPart r = branchPart a := by
  rw [h.same]
  rfl

/-- The core with the window `w` and its memory before cycle `n`, the machine `m` before step `k`,
and the number `j` of instructions that have been handed over. -/
structure Place (program : Program) (m : Machine) (ms : MemorySystem) (w : List Inflight)
    (n k j : ℕ) : Prop where
  prompt : ms.Prompt program m w
  idle : m.arch.halted = true → ms.Idle w
  cycle : ms.sys.core.csr.cycle = BitVec.ofNat 64 n
  le : j ≤ n / 2
  stopped : m.arch.halted = true → j = k
  running : m.arch.halted = false → j = k + w.length ∧ j = n / 2 ∧
    ms.sys.core.frontend.requestSent = decide (n % 2 = 1)

section Place

variable {program : Program} {m : Machine} {ms : MemorySystem} {w : List Inflight} {n k j : ℕ}
  (h : Place program m ms w n k j)
  (horderly : ∀ i, ((Machine.step program)^[i] m).Orderly program)

include h

/-- In a cycle with an odd number an instruction is handed over, unless the core has stopped. -/
theorem Place.dispatched_length :
    (ms.sys.dispatched program (ms.tickOf promptTick) n).length =
      if m.arch.halted = false ∧ n % 2 = 1 then 1 else 0 := by
  rw [h.prompt.inv.dispatched_length program _ n (h.prompt.inOrder promptTick_prompt).room]
  cases hrun : m.arch.halted with
  | true =>
    rw [h.prompt.stopped hrun, if_neg (by simp), if_neg (by simp)]
  | false =>
    obtain ⟨-, -, hsent⟩ := h.running hrun
    have hinv := h.prompt.inv.step
    rcases Nat.mod_two_eq_zero_or_one n with heven | hodd
    · rw [heven] at hsent
      rw [hinv.accepted_of_not_sent program _ hsent, heven, if_neg (by simp), if_neg (by simp)]
    · rw [hodd] at hsent
      rw [hinv.accepted_of_sent program (ms.tickOf promptTick) (h.prompt.tracking hrun).1 hsent rfl,
        if_pos rfl, if_pos ⟨rfl, hodd⟩]

include horderly

/-- The branch that is printed is that of the instruction that is handed over. -/
theorem Place.branch :
    branchPart (ms.sys.cycle program (ms.tickOf promptTick)).core.execute.aluResult =
      if m.arch.halted = false ∧ n % 2 = 1 then
        branchEvents program ((Machine.step program)^[j - k] m) else [] := by
  have hlength := h.dispatched_length
  have hnone : ∀ {r : AluResult}, r.valid = false → branchPart r = [] := fun hvalid ↦ by
    unfold branchPart
    rw [hvalid]
    rfl
  split_ifs at hlength ⊢ with hodd
  · obtain ⟨d, hd⟩ := List.length_eq_one_iff.mp hlength
    obtain ⟨hrunning, himplements⟩ :=
      h.prompt.dispatched_implements promptTick_prompt n horderly hodd.1 hd
    have hresult : d.result =
        (ms.sys.cycle program (ms.tickOf promptTick)).core.execute.aluResult := by
      unfold System.dispatched at hd
      dsimp only at hd
      split_ifs at hd
      rw [← List.singleton_inj.mp hd]
    rw [← hresult, branchPart_implements himplements,
      show j - k = w.length by rw [(h.running hodd.1).1, Nat.add_sub_cancel_left]]
    unfold branchEvents
    rw [hrunning, if_neg Bool.false_ne_true]
  · refine hnone ?_
    by_contra hvalid
    unfold System.dispatched at hlength
    dsimp only at hlength
    rw [if_pos (by simpa using hvalid)] at hlength
    exact absurd hlength Nat.one_ne_zero

/-- A cycle of the core with its memory, on the way of the machine. -/
theorem Place.cycle_place :
    ∃ m' k', ((m' = m ∧ k' = k ∧ Quiet program ms.sys (ms.tickOf promptTick)) ∨
        (m' = m.step program ∧ k' = k + 1 ∧ m.arch.halted = false ∧
          Emits program ms.sys (ms.tickOf promptTick) m)) ∧
      Place program m' (ms.cycle program promptTick)
        (ms.sys.windowStep program (ms.tickOf promptTick) n w) (n + 1) k'
        (j + (ms.sys.dispatched program (ms.tickOf promptTick) n).length) := by
  obtain ⟨m', hnext, hfollows⟩ := h.prompt.cycle promptTick_prompt n horderly
  have hlength := h.dispatched_length
  have hcounter : (ms.cycle program promptTick).sys.core.csr.cycle = BitVec.ofNat 64 (n + 1) := by
    rw [BitVec.ofNat_add, ← h.cycle]
    exact h.prompt.inv.step.cycle_counter _
  have hidle := h.prompt.cycle_idle promptTick_prompt n h.idle hnext
  have hle : j + (ms.sys.dispatched program (ms.tickOf promptTick) n).length ≤ (n + 1) / 2 := by
    have hj := h.le
    rw [hlength]
    split_ifs <;> omega
  have hhalf : m.arch.halted = false →
      j + (ms.sys.dispatched program (ms.tickOf promptTick) n).length = (n + 1) / 2 := fun hrun ↦ by
    have hj := (h.running hrun).2.1
    rw [hlength]
    split_ifs with hodd
    · omega
    · have heven : ¬ n % 2 = 1 := fun hodd' ↦ hodd ⟨hrun, hodd'⟩
      omega
  have hsent : m.arch.halted = false → (ms.cycle program promptTick).sys.core.frontend.requestSent =
      decide ((n + 1) % 2 = 1) := fun hrun ↦ by
    have hinv := h.prompt.inv.step
    have hstate := (h.prompt.tracking hrun).1
    have hreq := (h.running hrun).2.2
    rcases Nat.mod_two_eq_zero_or_one n with heven | hodd
    · rw [heven] at hreq
      rw [decide_eq_true (by omega)]
      have himem : 0 < (ms.tickOf promptTick).imemReqRoom := promptTick_prompt.imemReq
      exact hinv.cycle_sent_of_none _ (hinv.accepted_of_not_sent program _ hreq) hstate himem
    · rw [hodd] at hreq
      rw [decide_eq_false (by omega)]
      exact hinv.cycle_sent_of_some _ (hinv.accepted_of_sent program _ hstate hreq rfl)
  rcases hfollows with ⟨rfl, hquiet, hstay⟩ | ⟨rfl, hrun, hemits, hleave⟩
  · refine ⟨m', k, Or.inl ⟨rfl, rfl, hquiet⟩, hnext, hidle, hcounter, hle, fun hhalted ↦ ?_,
      fun hrun ↦ ⟨?_, hhalf hrun, hsent hrun⟩⟩
    · rw [hlength, if_neg (by simp [hhalted]), h.stopped hhalted, Nat.add_zero]
    · rw [hstay hrun, List.length_append, (h.running hrun).1, Nat.add_assoc]
  · refine ⟨m.step program, k + 1, Or.inr ⟨rfl, rfl, hrun, hemits⟩, hnext, hidle, hcounter, hle,
      fun hhalted ↦ ?_, fun hrun' ↦ ⟨?_, hhalf hrun, hsent hrun⟩⟩
    · have htrap : ms.sys.TakesTrap program (ms.tickOf promptTick) := by
        by_contra hnot
        exact h.prompt.inv.state_of_not_takesTrap _ hnot (h.prompt.tracking hrun).1
          (hnext.trapped hhalted).state
      have hone := h.prompt.halting_length promptTick_prompt n hrun htrap
      rw [List.length_append] at hone
      rw [(h.running hrun).1, Nat.add_assoc, hone]
    · have hlen := hleave hrun'
      rw [List.length_append] at hlen
      rw [(h.running hrun).1]
      omega

end Place

end PrefixTrace

end BoomCore
