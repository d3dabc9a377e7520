import BoomCore.Model.State

/-!
# The issue queue

`src/issue.cpp`. The renamed uop is appended at the tail, the oldest ready slot is granted, and
the slots that remain are compacted to the front of the queue.
-/

set_option autoImplicit false
set_option relaxedAutoImplicit false

namespace BoomCore

/-- The slot that a dispatched uop fills. The source overwrites every field of the slot that is
kept here. -/
def dispatchSlot (uop : MicroOp) : IssueSlotEntry :=
  { valid := true, request := true, granted := false, killed := false, uop := uop
    prs1Busy := uop.rename.prs1Busy, prs2Busy := uop.rename.prs2Busy, pdstBusy := false }

/-- The dispatch loop, for its one lane. -/
def IssueQueueState.dispatch (iq : IssueQueueState) (ren : RenameState) : IssueQueueState :=
  if ren.renamedValid && decide (iq.count < issueQueueAluDepth) &&
      (decide (ren.renamedUop.iqType = .alu) || decide (ren.renamedUop.iqType = .mem)) then
    { iq with
      entries := Function.update iq.entries iq.tail (dispatchSlot ren.renamedUop)
      tail := (iq.tail + 1) % issueQueueAluDepth
      count := iq.count + 1 }
  else iq

def IssueSlotEntry.ready (s : IssueSlotEntry) : Bool :=
  s.valid && s.request && !s.killed && !s.prs1Busy && !s.prs2Busy && !s.pdstBusy

/-- The selection loop. It stops at the first grant, because `implemented_alu_lanes` is one. -/
def IssueQueueState.select (iq : IssueQueueState) : Option Nat :=
  (List.range issueQueueAluDepth).find? fun i ↦ (iq.entries i).ready

/-- Mark the selected slot. -/
def IssueQueueState.grant (iq : IssueQueueState) (i : Nat) : IssueQueueState :=
  { iq with
    entries := Function.update iq.entries i
      { iq.entries i with granted := true, request := false } }

/-- The slots that stay after the grant, in queue order. -/
def IssueQueueState.remaining (iq : IssueQueueState) : List IssueSlotEntry :=
  ((List.range issueQueueAluDepth).map iq.entries).filter fun s ↦ s.valid && !s.granted

/-- Rebuild the queue from the slots that stay. -/
def IssueQueueState.compact (iq : IssueQueueState) : IssueQueueState :=
  let temp := iq.remaining
  { iq with
    entries := fun i ↦ temp.getD i {}
    tail := temp.length % issueQueueAluDepth
    count := temp.length }

/-- The block under `state.global_flush`. -/
def IssueQueueState.cleared (iq : IssueQueueState) : IssueQueueState :=
  { entries := fun i ↦ { iq.entries i with valid := false }, head := 0, tail := 0, count := 0 }

/-- `issue_module`. -/
def issueModule (state : BoomCoreState) : BoomCoreState :=
  if state.globalFlush then
    { state with
      issue := { aluIq := state.issue.aluIq.cleared, issuedUop := {}, issuedValid := false } }
  else
    let iq := state.issue.aluIq.dispatch state.rename
    match iq.select with
    | none =>
      { state with issue := { aluIq := iq.compact, issuedUop := {}, issuedValid := false } }
    | some i =>
      { state with
        issue :=
          { aluIq := (iq.grant i).compact, issuedUop := (iq.entries i).uop, issuedValid := true } }

end BoomCore
