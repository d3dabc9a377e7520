import BoomCore.Proof.LoadStore

/-!
# Commit on the window

`commit_stage` looks at the oldest instruction of the window only. Either it stays, because it is
not complete or because a store finds no room; or it carries an exception; or it retires, as a store
with its request or as anything else (`commitStage_outcome`). Retirement and `ECALL` take it off
the window, and what remains is in order again.
-/

set_option autoImplicit false
set_option relaxedAutoImplicit false

namespace BoomCore

open Ring

/-! ### What can retire -/

/-- The entries that retire: a store with its operands, a load with its response, and anything that
is marked complete at dispatch. -/
inductive Retirable (r : AluResult) : RobEntry → Prop
  | plain (hcompletes : r.completesInRob = true) (hexc : r.uop.exception = false) :
      Retirable r r.entry
  | load (hload : r.isLoad = true) (tx : BitVec 32) (resp : DmemResponse)
      (hexc : resp.exception = false) :
      Retirable r (((r.entry.asLoad r).sent tx).complete resp)
  | store (hstore : r.isStore = true) : Retirable r (r.entry.asStore r)

theorem Retirable.stage {r : AluResult} {e : RobEntry} (h : Retirable r e) : Stage r e := by
  cases h with
  | plain => exact .executed
  | load hload tx resp => exact .answered hload tx resp
  | store hstore => exact .stored hstore

/-- What retires was decoded without exception. -/
theorem Retirable.exception {r : AluResult} {e : RobEntry} (h : Retirable r e)
    (hspec : DispatchedSpec r) : r.uop.exception = false := by
  cases h with
  | plain hcompletes hexc => exact hexc
  | load hload tx resp hexc =>
    rw [hspec.load, Bool.and_eq_true, Bool.not_eq_true'] at hload
    exact hload.2
  | store hstore =>
    rw [hspec.store, Bool.and_eq_true, Bool.not_eq_true'] at hstore
    exact hstore.2

/-- A load retires with a response. -/
theorem Retirable.of_load {r : AluResult} {e : RobEntry} (h : Retirable r e)
    (hspec : DispatchedSpec r) (hload : r.isLoad = true) :
    ∃ tx resp, resp.exception = false ∧ e = ((r.entry.asLoad r).sent tx).complete resp := by
  cases h with
  | plain hcompletes hexc =>
    rw [hspec.completes_of_load hload] at hcompletes
    simp at hcompletes
  | load hload tx resp hexc => exact ⟨tx, resp, hexc, rfl⟩
  | store hstore =>
    rw [hspec.isStore_of_load hload] at hstore
    simp at hstore

/-- An entry that retires in the cycle of its dispatch is not a memory operation. -/
theorem Retirable.not_handed {r : AluResult} {e : RobEntry} (h : Retirable r e)
    (hspec : DispatchedSpec r) (hmemory : r.memoryValid = true) : e ≠ r.entry := by
  intro heq
  have hvalid : e.memoryValid = true := by
    cases h with
    | plain hcompletes hexc =>
      rw [hspec.memoryValid, hspec.isLoad_of_completes hcompletes,
        hspec.isStore_of_completes hcompletes] at hmemory
      simp at hmemory
    | load hload tx resp hexc => rw [RobEntry.complete_memoryValid]; rfl
    | store hstore => rfl
  rw [heq] at hvalid
  simp [AluResult.entry] at hvalid

/-- An `ECALL` is not a memory operation. -/
theorem Stage.not_memory_of_ecall {r : AluResult} {e : RobEntry} (h : Stage r e)
    (hspec : DispatchedSpec r) (hecall : e.uop.uopc = .ecall) : r.memoryValid = false := by
  rw [h.uopc] at hecall
  have hexc := (hspec.ecall hecall).1
  rw [hspec.memoryValid, hspec.load, hspec.store, hexc]
  simp

theorem Retirable.not_busy {r : AluResult} {e : RobEntry} (h : Retirable r e) :
    e.busy = false := by
  cases h with
  | plain hcompletes => simp [AluResult.entry, hcompletes]
  | load hload tx resp hexc =>
    unfold RobEntry.complete
    split_ifs <;> rfl
  | store => rfl

theorem Retirable.not_exception {r : AluResult} {e : RobEntry} (h : Retirable r e)
    (hspec : DispatchedSpec r) : e.exception = false := by
  have hexc := h.exception hspec
  cases h with
  | plain => exact hexc
  | load hload tx resp hok =>
    rw [RobEntry.complete_exception, hok]
    exact hexc
  | store => exact hexc

/-- `commit_stage` waits for the entry at the head. -/
theorem commitStage_of_busy {s : BoomCoreState} (pipe : PipeSignals)
    (hbusy : (s.rob.entries s.rob.head).busy = true) : commitStage s pipe = (s, pipe) := by
  simp [commitStage, hbusy]

/-- `commit_stage` on an exception at the head. -/
theorem commitStage_of_exception {s : BoomCoreState} (pipe : PipeSignals)
    (hnonempty : s.rob.isEmpty = false) (hvalid : (s.rob.entries s.rob.head).valid = true)
    (hbusy : (s.rob.entries s.rob.head).busy = false)
    (hexc : (s.rob.entries s.rob.head).exception = true) :
    commitStage s pipe = (commitException s (s.rob.entries s.rob.head), pipe) := by
  simp [commitStage, hnonempty, hvalid, hbusy, hexc]

/-- The outcomes of `commit_stage` on a window. -/
inductive CommitOutcome (s : BoomCoreState) (pipe : PipeSignals) (w : List Inflight) :
    BoomCoreState × PipeSignals → Prop
  | stall (hstall : ∀ d w', w = d :: w' → (s.rob.entries s.rob.head).busy = true ∨
      (d.result.isStore = true ∧ pipe.dmemReq.full = true)) : CommitOutcome s pipe w (s, pipe)
  | exception (d : Inflight) (w' : List Inflight) (hw : w = d :: w')
      (hstage : Stage d.result (s.rob.entries s.rob.head))
      (hbusy : (s.rob.entries s.rob.head).busy = false)
      (hexc : (s.rob.entries s.rob.head).exception = true) :
      CommitOutcome s pipe w (commitException s (s.rob.entries s.rob.head), pipe)
  | store (d : Inflight) (w' : List Inflight) (hw : w = d :: w')
      (hstore : d.result.isStore = true)
      (hentry : s.rob.entries s.rob.head = d.result.entry.asStore d.result)
      (hroom : pipe.dmemReq.full = false) :
      CommitOutcome s pipe w
        (retire (sendStore s pipe (s.rob.entries s.rob.head)).1
          (sendStore s pipe (s.rob.entries s.rob.head)).2
          { s.rob.entries s.rob.head with memoryRequestSent := true, memoryCompleted := true })
  | retire (d : Inflight) (w' : List Inflight) (hw : w = d :: w')
      (hretire : Retirable d.result (s.rob.entries s.rob.head))
      (hstore : d.result.isStore = false) :
      CommitOutcome s pipe w (retire s pipe (s.rob.entries s.rob.head))

section Outcome

variable {s : BoomCoreState} {w : List Inflight}

/-- The flags of an entry that is not busy and has no exception, as `commit_head` tests them. -/
theorem commitHead_eq {r : AluResult} {e : RobEntry} (hspec : DispatchedSpec r) (hstage : Stage r e)
    (hbusy : e.busy = false) (hexc : e.exception = false) (pipe : PipeSignals) :
    (r.isStore = true ∧ e = r.entry.asStore r ∧
        commitHead s pipe e =
          if pipe.dmemReq.full then (s, pipe)
          else retire (sendStore s pipe e).1 (sendStore s pipe e).2
            { e with memoryRequestSent := true, memoryCompleted := true }) ∨
      (r.isStore = false ∧ Retirable r e ∧ commitHead s pipe e = retire s pipe e) := by
  cases hstage with
  | executed =>
    have hcompletes : r.completesInRob = true := by simpa [AluResult.entry] using hbusy
    have hflags := hspec.flags_of_completes hcompletes
    refine Or.inr ⟨hspec.isStore_of_completes hcompletes, .plain hcompletes hexc, ?_⟩
    simp [commitHead, AluResult.entry, hflags]
  | stored hstore =>
    have hctrl := hspec.load_of_sta (hspec.sta_of_store hstore)
    refine Or.inl ⟨hstore, rfl, ?_⟩
    simp [commitHead, AluResult.entry, RobEntry.asStore, hctrl]
  | queued hload =>
    simp [AluResult.entry, RobEntry.asLoad, hspec.completes_of_load hload] at hbusy
  | sent hload tx =>
    simp [AluResult.entry, RobEntry.asLoad, RobEntry.sent,
      hspec.completes_of_load hload] at hbusy
  | answered hload tx resp =>
    have hresp : resp.exception = false := by
      rw [RobEntry.complete_exception, Bool.or_eq_false_iff] at hexc
      exact hexc.1
    have hctrl := hspec.sta_of_load hload
    refine Or.inr ⟨hspec.isStore_of_load hload, .load hload tx resp hresp, ?_⟩
    simp [commitHead, RobEntry.complete, hresp, RobEntry.sent, RobEntry.asLoad, AluResult.entry,
      hctrl]

theorem commitStage_outcome (h : RobInv s.rob w) (pipe : PipeSignals) :
    CommitOutcome s pipe w (commitStage s pipe) := by
  unfold commitStage
  dsimp only
  cases w with
  | nil =>
    rw [h.isEmpty_iff.mpr rfl, Bool.not_true, Bool.false_and, Bool.false_and,
      if_neg Bool.false_ne_true]
    refine .stall fun d w' hw ↦ ?_
    simp at hw
  | cons d w' =>
    have hempty : s.rob.isEmpty = false := by
      by_contra hcontra
      have hnil := h.isEmpty_iff.mp (by simpa using hcontra)
      simp at hnil
    have hof := h.entries.head_cell h.head_lt
    rw [hempty, hof.stage.valid, Bool.not_false, Bool.and_true, Bool.true_and]
    by_cases hbusy : (s.rob.entries s.rob.head).busy = true
    · rw [hbusy, Bool.not_true, if_neg Bool.false_ne_true]
      exact .stall fun _ _ _ ↦ Or.inl hbusy
    · have hbusy' : (s.rob.entries s.rob.head).busy = false := by simpa using hbusy
      rw [hbusy', Bool.not_false, if_pos rfl]
      split_ifs with hexc
      · exact .exception d w' rfl hof.stage hbusy' hexc
      · rcases commitHead_eq hof.dispatched hof.stage hbusy' (by simpa using hexc) pipe with
          ⟨hstore, hentry, heq⟩ | ⟨hstore, hretire, heq⟩
        · rw [heq]
          split_ifs with hfull
          · refine .stall fun d' w'' hw ↦ Or.inr ⟨?_, hfull⟩
            rw [← (List.cons.inj hw).1]
            exact hstore
          · exact .store d w' rfl hstore hentry (by simpa using hfull)
        · rw [heq]
          exact .retire d w' rfl hretire hstore

end Outcome

/-! ### The window after commit -/

/-- What every step does that takes the oldest instruction off the window. -/
structure Popped (s s' : BoomCoreState) : Prop where
  head : s'.rob.head = (s.rob.head + 1) % robDepth
  tail : s'.rob.tail = s.rob.tail
  maybeFull : s'.rob.maybeFull = false
  other : ∀ i, i ≠ s.rob.head → s'.rob.entries i = s.rob.entries i
  gone : (s'.rob.entries s.rob.head).valid = false
  pending : s'.lsu.loadResponsePending = s.lsu.loadResponsePending
  idx : s'.lsu.pendingLoadRobIdx = s.lsu.pendingLoadRobIdx
  tx : s'.lsu.pendingLoadTransactionId = s.lsu.pendingLoadTransactionId
  execute : s'.execute = s.execute

section Fields

variable (s : BoomCoreState) (pipe : PipeSignals) (he : RobEntry)

theorem retire_ioTrap : (retire s pipe he).1.ioTrap = s.ioTrap := rfl

theorem sendStore_ioTrap : (sendStore s pipe he).1.ioTrap = s.ioTrap := rfl

theorem retire_rename : (retire s pipe he).1.rename = s.rename.commitDst he.uop := rfl

theorem sendStore_rename : (sendStore s pipe he).1.rename = s.rename := rfl

end Fields

theorem retire_popped (s : BoomCoreState) (pipe : PipeSignals) (he : RobEntry) :
    Popped s (retire s pipe he).1 := by
  constructor
  · rfl
  · rfl
  · rfl
  · intro i hi
    exact Function.update_of_ne hi _ _
  · simp [retire, RobInternalState.popHead]
  · rfl
  · rfl
  · rfl
  · rfl

theorem retire_sendStore_popped (s : BoomCoreState) (pipe : PipeSignals) (he he' : RobEntry) :
    Popped s (retire (sendStore s pipe he).1 (sendStore s pipe he).2 he').1 := by
  constructor
  · rfl
  · rfl
  · rfl
  · intro i hi
    simp [retire, RobInternalState.popHead, sendStore, BoomCoreState.setEntry,
      Function.update_of_ne hi]
  · simp [retire, RobInternalState.popHead, sendStore, BoomCoreState.setEntry]
  · rfl
  · rfl
  · rfl
  · rfl

theorem commitException_popped {s : BoomCoreState} {he : RobEntry} (h : he.uop.uopc = .ecall) :
    Popped s (commitException s he) := by
  unfold commitException
  rw [if_pos h]
  constructor
  · rfl
  · rfl
  · rfl
  · intro i hi
    exact Function.update_of_ne hi _ _
  · simp [RobInternalState.popHead]
  · rfl
  · rfl
  · rfl
  · rfl

/-- An exception retires nothing. -/
theorem commitException_keeps (s : BoomCoreState) (he : RobEntry) :
    (commitException s he).rob.commitValid = s.rob.commitValid ∧
      (commitException s he).rename = s.rename := by
  unfold commitException
  dsimp only
  split_ifs <;> exact ⟨rfl, rfl⟩

section After

variable {s s' : BoomCoreState} {d : Inflight} {w : List Inflight} (hpop : Popped s s')

include hpop

/-- What is left of the load/store unit's invariant when the oldest instruction leaves. -/
theorem LsuInv.pop (h : LsuInv s (d :: w)) : LsuInv s' w := by
  have hawaits : ∀ i, (s'.rob.entries i).awaitsResponse = true → i ≠ s.rob.head := by
    rintro i hi rfl
    unfold RobEntry.awaitsResponse at hi
    rw [hpop.gone] at hi
    simp at hi
  refine ⟨by rw [hpop.idx]; exact h.idx_lt, ?_, ?_, ?_⟩
  · rw [hpop.pending, hpop.idx]
    intro hpend haw
    have hne := hawaits _ haw
    rw [hpop.other _ hne] at haw ⊢
    exact h.outstanding hpend haw
  · intro i hi haw hopen
    have hne := hawaits _ haw
    rw [hpop.other _ hne] at haw hopen ⊢
    rw [hpop.pending, hpop.idx, hpop.tx]
    exact h.inFlight i hi haw hopen
  · intro k hk haw j hj
    have hne := hawaits _ haw
    rw [hpop.other _ hne, hpop.head, slot_succ_head] at haw
    exact h.ordered (k + 1) (by simpa using hk) haw (j + 1) (by omega)

/-- The entries behind the oldest one keep their contents. -/
theorem Popped.entry (hrob : RobInv s.rob (d :: w)) {k : ℕ} (hk : k < w.length) :
    s'.rob.entries (slot robDepth s'.rob.head k) =
      s.rob.entries (slot robDepth s.rob.head (k + 1)) := by
  have hne : slot robDepth s.rob.head (k + 1) ≠ s.rob.head := fun heq ↦ by
    have hzero := heq.trans (slot_zero hrob.head_lt).symm
    have hsucc : k + 1 = 0 := (hrob.slot_inj (by simpa using hk) (by simp)).mp hzero
    omega
  rw [hpop.head, slot_succ_head, hpop.other _ hne]

/-- The memory operation of the previous step stays in the window when the oldest one leaves. -/
theorem Handed.pop (h : Handed s (d :: w)) (hrob : RobInv s.rob (d :: w))
    (hnot : d.result.memoryValid = true → s.rob.entries s.rob.head ≠ d.result.entry) :
    Handed s' w := by
  constructor
  · rw [hpop.execute]
    intro hvalid hmemory
    obtain ⟨w', d', hw, hd', hentry⟩ := h.last hvalid hmemory
    cases w' with
    | nil =>
      obtain ⟨rfl, rfl⟩ := List.cons.inj hw
      refine absurd ?_ (hnot (by rw [hd']; exact hmemory))
      rw [← hentry]
      congr 1
      exact (slot_zero hrob.head_lt).symm
    | cons d'' w' =>
      obtain ⟨rfl, rfl⟩ := List.cons.inj hw
      refine ⟨w', d', rfl, hd', ?_⟩
      rw [hpop.entry hrob (by simp)]
      exact hentry
  · intro k hk hmemory
    rw [hpop.entry hrob hk, hpop.execute]
    rcases h.settled (k + 1) (by simpa using hk) hmemory with ⟨hend, hold⟩ | hold
    · exact Or.inl ⟨by simpa using hend, hold⟩
    · exact Or.inr hold

end After

/-! ### Entries that stay -/

theorem popHead_entries {rob : RobInternalState} {j : ℕ}
    (hvalid : (rob.popHead.entries j).valid = true) :
    j ≠ rob.head ∧ rob.popHead.entries j = rob.entries j := by
  have hne : j ≠ rob.head := by
    rintro rfl
    simp [RobInternalState.popHead] at hvalid
  exact ⟨hne, Function.update_of_ne hne _ _⟩

/-- Commit does not touch the entries that stay valid. -/
theorem commitStage_entries {s : BoomCoreState} {pipe : PipeSignals} {j : ℕ}
    (hvalid : ((commitStage s pipe).1.rob.entries j).valid = true) :
    (commitStage s pipe).1.rob.entries j = s.rob.entries j := by
  have hretire : ∀ (pipe : PipeSignals) (he : RobEntry),
      ((retire s pipe he).1.rob.entries j).valid = true →
        (retire s pipe he).1.rob.entries j = s.rob.entries j :=
    fun _ _ h ↦ (popHead_entries h).2
  unfold commitStage at hvalid ⊢
  dsimp only at hvalid ⊢
  split_ifs at hvalid ⊢
  · unfold commitException at hvalid ⊢
    dsimp only at hvalid ⊢
    split_ifs at hvalid ⊢
    · exact (popHead_entries hvalid).2
    · rfl
  · unfold commitHead at hvalid ⊢
    dsimp only at hvalid ⊢
    split_ifs at hvalid ⊢
    · rfl
    · rfl
    · rfl
    · obtain ⟨hne, heq⟩ := popHead_entries hvalid
      refine heq.trans ?_
      exact Function.update_of_ne hne _ _
    · exact hretire _ _ hvalid
    · exact hretire _ _ hvalid
  · rfl

/-- Commit does not touch the outstanding load. -/
theorem commitStage_pending (s : BoomCoreState) (pipe : PipeSignals) :
    (commitStage s pipe).1.lsu.loadResponsePending = s.lsu.loadResponsePending ∧
      (commitStage s pipe).1.lsu.pendingLoadRobIdx = s.lsu.pendingLoadRobIdx ∧
      (commitStage s pipe).1.lsu.pendingLoadTransactionId = s.lsu.pendingLoadTransactionId := by
  unfold commitStage commitException commitHead
  dsimp only
  split_ifs <;> exact ⟨rfl, rfl, rfl⟩

end BoomCore
