import BoomCore.Proof.Outstanding
import BoomCore.Proof.Progress

/-!
# The head is never stuck

An instruction that is at the head of the reorder buffer and is not complete has a reason to wait
(`headProgress`): it has just been executed, its request waits for the response, or its request
could not be sent yet. The unit sends loads before commit retires the store at the head, so a load
that becomes the head in a step in which a store retires is sent one step later, although nothing
holds it back any more (`loadStoreLoad_no_cause`).

A load or store word of undefined size is decoded with an exception but is not marked complete;
nothing is said about it here.
-/

set_option autoImplicit false
set_option relaxedAutoImplicit false

namespace BoomCore

open Ring

/-! ### Statements -/

/-- A load or a store word whose `funct3` names no size. -/
def UndefinedSize (inst : BitVec 32) : Prop :=
  (opcodeOf inst = 0x03 ∧ funct3Of inst = 7) ∨ (opcodeOf inst = 0x23 ∧ 3 < funct3Of inst)

instance (inst : BitVec 32) : Decidable (UndefinedSize inst) :=
  inferInstanceAs (Decidable (_ ∨ _))

namespace BoomCoreState

variable (s : BoomCoreState)

/-- The entry at the head of the reorder buffer. -/
def headEntry : RobEntry := s.rob.entries s.rob.head

/-- The head is not complete. -/
structure HeadBusy : Prop where
  nonempty : s.rob.isEmpty = false
  state : s.rob.state ≠ .exception
  busy : s.headEntry.busy = true

/-- The result of the head is in `execute`; or the head is a load that was sent under the
outstanding transaction; or it is a recorded load that was not sent, and a response is outstanding
or `dmem_req` had no room. -/
def HasCause (full : Bool) : Prop :=
  (s.execute.aluResult.valid = true ∧ s.execute.aluResult.uop.queue.robIdx = s.rob.head) ∨
  ((s.headEntry.isLoad && s.headEntry.memoryRequestSent) = true ∧
    s.lsu.loadResponsePending = true ∧
      s.lsu.pendingLoadTransactionId = s.headEntry.memoryTransactionId) ∨
  (s.headEntry.queuedLoad = true ∧ (s.lsu.loadResponsePending || full) = true)

instance (full : Bool) : Decidable (s.HasCause full) := inferInstanceAs (Decidable (_ ∨ _ ∨ _))

/-- The head is a recorded load that was not sent, and a store retired in the last step. -/
def BehindRetiredStore : Prop :=
  s.headEntry.queuedLoad = true ∧ s.rob.commitValid = true ∧ s.rob.lastCommit.isStore = true

/-- An exception at the head has been taken: an `ECALL` left with its verdict, everything else
stopped the core. -/
def TookException (uop : MicroOp) : Prop :=
  if uop.uopc = .ecall then s.ioSuccess = true ∨ s.ioTrap = true
  else s.rob.state = .exception ∧ s.ioTrap = true

end BoomCoreState

/-! ### Decoded exceptions -/

theorem MicroOp.decodeLoad_legal {uop : MicroOp} (hfresh : uop.Fresh)
    (hexc : uop.decodeLoad.exception = true) : funct3Of uop.inst = 7 := by
  have hlt := funct3Of_lt uop.inst
  by_contra hne
  have hsize : funct3Of uop.inst = 0 ∨ funct3Of uop.inst = 1 ∨ funct3Of uop.inst = 2 ∨
      funct3Of uop.inst = 3 ∨ funct3Of uop.inst = 4 ∨ funct3Of uop.inst = 5 ∨
      funct3Of uop.inst = 6 := by omega
  unfold decodeLoad at hexc
  rcases hsize with h | h | h | h | h | h | h <;>
    simp [h, asMemory, withDst, withOperands, hfresh.exception] at hexc

/-- A load word is decoded with an exception only when its size is undefined. -/
theorem decodeInst_loadLegal (pc : BitVec 64) {inst : BitVec 32} (hop : opcodeOf inst = 0x03)
    (hexc : (decodeInst pc inst).exception = true) : funct3Of inst = 7 := by
  have hfields : (decodeFields pc inst).inst = inst := rfl
  have hswitch : decodeSwitch (decodeFields pc inst) = (decodeFields pc inst).decodeLoad := by
    simp only [decodeSwitch, hfields, hop]
  rw [decodeInst_eq_switch, hswitch] at hexc
  have hlegal := MicroOp.decodeLoad_legal (decodeFields_fresh pc inst) hexc
  rw [hfields] at hlegal
  exact hlegal

/-- What is in flight in a cycle is the decoded word, renamed and executed, when this holds before
the cycle. -/
theorem SysInv.decoded {program : Program} {sys : System} {w : List Inflight} (h : SysInv sys w)
    (t : Tick) (n : ℕ) (hw : ∀ d ∈ w, ∃ s pc inst, d.result = dispatchedResult s pc inst) :
    ∀ d ∈ w ++ sys.dispatched program t n, ∃ s pc inst, d.result = dispatchedResult s pc inst := by
  intro d hd
  rcases List.mem_append.mp hd with hold | hnew
  · exact hw d hold
  · exact ⟨_, _, _, (h.of_dispatched program t n hnew).1⟩

theorem decoded_window (program : Program) (tick : ℕ → Tick) (n : ℕ) :
    ∀ d ∈ System.window program tick n, ∃ s pc inst, d.result = dispatchedResult s pc inst := by
  induction n with
  | zero => exact fun d hd ↦ absurd hd List.not_mem_nil
  | succ n ih =>
    intro d hd
    exact (sysInv_run program tick n).decoded (tick n) n ih d
      (System.mem_of_mem_windowStep program (System.run program tick n) (tick n) hd)

/-- An instruction that was decoded with an exception is complete when it is dispatched, unless it
is a load or a store of undefined size. -/
theorem dispatchedResult_complete {s : BoomCoreState} {pc : BitVec 64} {inst : BitVec 32}
    (hexc : (decodeInst pc inst).exception = true) (hdefined : ¬ UndefinedSize inst) :
    (dispatchedResult s pc inst).entry.busy = false := by
  have hspec := dispatchedResult_spec s pc inst
  have hload : (dispatchedResult s pc inst).uop.ctrl.isLoad = false := by
    rw [hspec.loadFlag, dispatchedResult_inst, decide_eq_false_iff_not]
    exact fun hop ↦ hdefined (Or.inl ⟨hop, decodeInst_loadLegal pc hop hexc⟩)
  have hstore : (dispatchedResult s pc inst).uop.ctrl.isSta = false := by
    by_contra hcontra
    have hsta : (dispatchedResult s pc inst).uop.ctrl.isSta = true := by simpa using hcontra
    have hlegal := (dispatchedResult_storeLegal s pc inst hsta).mp
      (by rw [dispatchedResult_exception]; exact hexc)
    rw [hspec.storeFlag, dispatchedResult_inst, decide_eq_true_eq] at hsta
    exact hdefined (Or.inr ⟨hsta, hlegal⟩)
  show (!(dispatchedResult s pc inst).completesInRob) = false
  rw [hspec.completes, hload, hstore]
  rfl

/-- An instruction that is decoded with an exception is dispatched with it, and complete. -/
theorem exception_of_decoded {r : AluResult}
    (hdecoded : ∃ s pc inst, r = dispatchedResult s pc inst)
    (hexc : (decodeInst r.uop.debugPc r.uop.inst).exception = true)
    (hdefined : ¬ UndefinedSize r.uop.inst) :
    DispatchedSpec r ∧ r.uop.exception = true ∧ r.entry.busy = false := by
  obtain ⟨s, pc, inst, rfl⟩ := hdecoded
  rw [dispatchedResult_debugPc, dispatchedResult_inst] at hexc
  rw [dispatchedResult_inst] at hdefined
  refine ⟨dispatchedResult_spec s pc inst, ?_, dispatchedResult_complete hexc hdefined⟩
  rw [dispatchedResult_exception]
  exact hexc

section Runs

variable {program : Program} {tick : ℕ → Tick} {n : ℕ}

/-- The entry of an instruction in flight that was decoded with an exception is the one of its
dispatch, and complete. -/
theorem entry_of_exception {d : Inflight} {e : RobEntry}
    (hdecoded : ∃ s pc inst, d.result = dispatchedResult s pc inst) (hstage : Stage d.result e)
    (hexc : (decodeInst d.result.uop.debugPc d.result.uop.inst).exception = true)
    (hdefined : ¬ UndefinedSize d.result.uop.inst) :
    e = d.result.entry ∧ e.busy = false ∧ e.exception = true := by
  obtain ⟨hspec, hflag, hcomplete⟩ := exception_of_decoded hdecoded hexc hdefined
  have hentry := hstage.of_exception hspec hflag
  refine ⟨hentry, ?_, ?_⟩
  · rw [hentry]
    exact hcomplete
  · rw [hentry]
    exact hflag

/-- The head of the buffer, in the window. -/
theorem window_of_headBusy (hbusy : (System.run program tick n).core.HeadBusy) :
    ∃ d w', System.window program tick n = d :: w' ∧
      EntryOf (System.run program tick n).core.rob.head d
        (System.run program tick n).core.headEntry := by
  have hrob := (sysInv_run program tick n).window.rob
  have hne : System.window program tick n ≠ [] := fun hnil ↦ by
    have hempty := hrob.isEmpty_iff.mpr hnil
    rw [hbusy.nonempty] at hempty
    simp at hempty
  obtain ⟨d, w', hw⟩ := List.exists_cons_of_ne_nil hne
  rw [hw] at hrob
  exact ⟨d, w', hw, hrob.head.2⟩

/-- An executed memory operation at the head that has not been recorded is the last result. -/
theorem executing_of_entry {d : Inflight} {w' : List Inflight}
    (hw : System.window program tick n = d :: w')
    (hentry : (System.run program tick n).core.headEntry = d.result.entry)
    (hmemory : d.result.memoryValid = true) :
    (System.run program tick n).core.execute.aluResult.valid = true ∧
      (System.run program tick n).core.execute.aluResult.uop.queue.robIdx =
        (System.run program tick n).core.rob.head := by
  have hinv := sysInv_run program tick n
  have hzero : 0 < (System.window program tick n).length := by simp [hw]
  have hfirst : (System.window program tick n)[0] = d := by simp [hw]
  have hslot := slot_zero hinv.window.rob.head_lt
  rcases hinv.handed.settled 0 hzero (by rw [hfirst]; exact hmemory) with
    ⟨hlen, hvalid, hmem⟩ | hrecorded
  · refine ⟨hvalid, ?_⟩
    obtain ⟨w'', d', hw', hd', -⟩ := hinv.handed.last hvalid hmem
    have hnil : w'' = [] := by
      have hlength := congrArg List.length hw'
      rw [List.length_append, List.length_singleton] at hlength
      exact List.length_eq_zero_iff.mp (by omega)
    have hlast : d' = d := by
      rw [hnil, hw] at hw'
      exact (List.cons.inj hw').1.symm
    rw [← hd', hlast, ← hfirst, (hinv.window.rob.entryOf hzero).robIdx, hslot]
  · rw [hslot] at hrecorded
    rw [show (System.run program tick n).core.rob.entries
      (System.run program tick n).core.rob.head = d.result.entry from hentry] at hrecorded
    simp [AluResult.entry] at hrecorded

/-- What is at the head after a step without a redirect was in flight before the step: it was the
oldest instruction, or the second one and the oldest one left. -/
theorem position_of_head
    (hquiet : (System.run program tick n).core.execute.aluResult.redirects = false)
    {d : Inflight} {w' : List Inflight} (hw : System.window program tick (n + 1) = d :: w')
    (hmem : d ∈ System.window program tick n) :
    (∃ hk : 0 < (System.window program tick n).length, (System.window program tick n)[0] = d) ∨
      ∃ hk : 1 < (System.window program tick n).length, (System.window program tick n)[1] = d ∧
        System.window program tick n ++
            (System.run program tick n).dispatched program (tick n) n =
          (System.window program tick n)[0] :: System.window program tick (n + 1) := by
  have hstep : System.window program tick (n + 1) =
    (System.run program tick n).windowStep program (tick n) n (System.window program tick n) := rfl
  obtain ⟨a, l, hcons⟩ := List.exists_cons_of_ne_nil (List.ne_nil_of_mem hmem)
  unfold System.windowStep at hstep
  rw [hquiet, if_neg Bool.false_ne_true, hcons, List.cons_append, List.tail_cons] at hstep
  split_ifs at hstep with hhead
  · rw [hw] at hstep
    exact Or.inl ⟨by simp [hcons], by simp [hcons, (List.cons.inj hstep).1]⟩
  · cases l with
    | nil =>
      -- Behind the only instruction in flight there is the dispatched one.
      have hnew : d ∈ (System.run program tick n).dispatched program (tick n) n := by
        rw [List.nil_append] at hstep
        rw [← hstep, hw]
        exact List.mem_cons_self
      have hlt := ((bornInv_window program tick n).1 d hmem).lt
      have heq := (born_of_mem_dispatched program tick hnew).1
      omega
    | cons b l =>
      have hfirst := hstep
      rw [hw, List.cons_append] at hfirst
      refine Or.inr ⟨by simp [hcons], by simp [hcons, (List.cons.inj hfirst).1], ?_⟩
      simp [hcons, hstep]

/-- A recorded load at the head that was not sent. -/
theorem cause_of_queued {d : Inflight} {w' : List Inflight}
    (hw : System.window program tick (n + 1) = d :: w')
    (hcell : d.cell = (System.run program tick (n + 1)).core.rob.head)
    (hqueued : (System.run program tick (n + 1)).core.headEntry.queuedLoad = true) :
    ((System.run program tick (n + 1)).core.lsu.loadResponsePending ||
        decide ((tick n).dmemReqRoom = 0)) = true ∨
      (System.run program tick (n + 1)).core.BehindRetiredStore := by
  have hinv := sysInv_run program tick n
  have hstep : System.window program tick (n + 1) =
    (System.run program tick n).windowStep program (tick n) n (System.window program tick n) := rfl
  have hd : d ∈ (System.run program tick n).windowStep program (tick n) n
      (System.window program tick n) := by
    rw [← hstep, hw]
    exact List.mem_cons_self
  have hentry : (System.run program tick (n + 1)).core.headEntry =
      ((System.run program tick n).atCommit program (tick n)).rob.entries d.cell := by
    rw [← hinv.cycle_entry (tick n) n hd, hcell]
    rfl
  have hpending : (System.run program tick (n + 1)).core.lsu.loadResponsePending =
      ((System.run program tick n).afterMemory program (tick n)).1.lsu.loadResponsePending :=
    (hinv.cycle_pending program (tick n)).1
  have hquiet : (System.run program tick n).core.execute.aluResult.redirects = false := by
    by_contra hcontra
    unfold System.windowStep at hd
    rw [if_pos (by simpa using hcontra)] at hd
    simp at hd
  -- The load was in flight before the step: what is dispatched in it has not been recorded.
  have hmem : d ∈ System.window program tick n := by
    rcases List.mem_append.mp (System.mem_of_mem_windowStep program _ _ hd) with hold | hnew
    · exact hold
    · obtain ⟨-, -, -, hdispatched, -⟩ := hinv.of_dispatched program (tick n) n hnew
      rw [hentry, hdispatched] at hqueued
      simp [RobEntry.queuedLoad, AluResult.entry] at hqueued
  have hold := hqueued
  rw [hentry, hinv.atCommit_entry (tick n) hmem] at hold
  have hposition := position_of_head hquiet hw hmem
  rcases hposition with ⟨hk, hget⟩ | ⟨hk, hget, hcons⟩
  · rw [← hget] at hold
    rcases hinv.queued_waits (tick n) hk hold with hcause | hcause | ⟨j, hj, -⟩
    · rw [hpending, hcause]
      exact Or.inl rfl
    · rw [decide_eq_true hcause, Bool.or_true]
      exact Or.inl rfl
    · exact absurd hj (Nat.not_lt_zero j)
  · rw [← hget] at hold
    rcases hinv.queued_waits (tick n) hk hold with hcause | hcause | ⟨j, hj, hsta⟩
    · rw [hpending, hcause]
      exact Or.inl rfl
    · rw [decide_eq_true hcause, Bool.or_true]
      exact Or.inl rfl
    · obtain rfl : j = 0 := by omega
      exact Or.inr ⟨hqueued, hinv.popped_store (tick n) n hquiet hcons hstep.symm hsta⟩

/-- An exception at the head is taken, unless a redirect flushes the buffer. -/
theorem tookException_of_head
    (hquiet : (System.run program tick n).core.execute.aluResult.redirects = false)
    {d : Inflight} {w' : List Inflight}
    (hw : System.window program tick n ++
      (System.run program tick n).dispatched program (tick n) n = d :: w')
    (hexc : (decodeInst d.result.uop.debugPc d.result.uop.inst).exception = true)
    (hdefined : ¬ UndefinedSize d.result.uop.inst) :
    (System.run program tick (n + 1)).core.TookException d.result.uop := by
  have hinv := sysInv_run program tick n
  have hdecoded := hinv.decoded (tick n) n (decoded_window program tick n) d
    (by rw [hw]; exact List.mem_cons_self)
  obtain ⟨-, hflag, hcomplete⟩ := exception_of_decoded hdecoded hexc hdefined
  obtain ⟨-, hstep⟩ := hinv.cycle_of_exception (tick n) n hquiet hw hflag hcomplete
  rw [show (System.run program tick (n + 1)).core =
    ((System.run program tick n).cycle program (tick n)).core from rfl, hstep]
  unfold BoomCoreState.TookException commitException
  rw [show d.result.entry.uop = d.result.uop from rfl]
  split_ifs
  · dsimp only
    cases decide (ecallVerdict ((System.run program tick n).atCommit program (tick n)) = 0) <;> simp
  · exact ⟨rfl, rfl⟩

/-- When the head is not complete, and is no load or store word of undefined size, it has a cause
to wait, or it is a load behind a store that retired in the last step. An instruction that was
decoded with an exception, and is no such word, is complete when it is dispatched, and the exception
is taken when the instruction is the oldest one and no redirect flushes it. -/
theorem headProgress (program : Program) (tick : ℕ → Tick) :
    (System.run program tick 0).core.rob.isEmpty = true ∧
    (∀ n, (System.run program tick (n + 1)).core.HeadBusy →
      ¬ UndefinedSize (System.run program tick (n + 1)).core.headEntry.uop.inst →
        (System.run program tick (n + 1)).core.HasCause (decide ((tick n).dmemReqRoom = 0)) ∨
          (System.run program tick (n + 1)).core.BehindRetiredStore) ∧
    (∀ n, ∀ i < robDepth, ((System.run program tick n).core.rob.entries i).valid = true →
      (decodeInst ((System.run program tick n).core.rob.entries i).uop.debugPc
        ((System.run program tick n).core.rob.entries i).uop.inst).exception = true →
      ¬ UndefinedSize ((System.run program tick n).core.rob.entries i).uop.inst →
        ((System.run program tick n).core.rob.entries i).busy = false ∧
          ((System.run program tick n).core.rob.entries i).exception = true) ∧
    ∀ n d w', (System.run program tick n).core.execute.aluResult.redirects = false →
      System.window program tick n ++
        (System.run program tick n).dispatched program (tick n) n = d :: w' →
      (decodeInst d.result.uop.debugPc d.result.uop.inst).exception = true →
      ¬ UndefinedSize d.result.uop.inst →
        (System.run program tick (n + 1)).core.TookException d.result.uop := by
  refine ⟨rfl, fun n hbusy hdefined ↦ ?_, fun n i hi hvalid hexc hdefined ↦ ?_,
    fun n d w' hquiet hw hexc hdefined ↦ tookException_of_head hquiet hw hexc hdefined⟩
  · obtain ⟨d, w', hw, hspec, hcell, hstage⟩ := window_of_headBusy hbusy
    have hdecoded := decoded_window program tick (n + 1) d (by rw [hw]; exact List.mem_cons_self)
    rw [hstage.inst] at hdefined
    have hexc : d.result.uop.exception = false := by
      by_contra hcontra
      obtain ⟨s, pc, inst, hresult⟩ := hdecoded
      have hflag : (decodeInst d.result.uop.debugPc d.result.uop.inst).exception = true := by
        rw [hresult, dispatchedResult_debugPc, dispatchedResult_inst,
          ← dispatchedResult_exception s, ← hresult]
        simpa using hcontra
      have hdone := (entry_of_exception ⟨s, pc, inst, hresult⟩ hstage hflag hdefined).2.1
      rw [hbusy.busy] at hdone
      simp at hdone
    rcases hstage.of_busy hspec hexc hbusy.busy with ⟨hentry, hmemory⟩ | hqueued | ⟨hawaits, hopen⟩
    · exact Or.inl (Or.inl (executing_of_entry hw hentry hmemory))
    · rcases cause_of_queued hw hcell hqueued with hcause | hbehind
      · exact Or.inl (Or.inr (Or.inr ⟨hqueued, hcause⟩))
      · exact Or.inr hbehind
    · have hlsu := (sysInv_run program tick (n + 1)).window.lsu
      have hhead := (sysInv_run program tick (n + 1)).window.rob.head_lt
      obtain ⟨hpending, -, htx⟩ := hlsu.inFlight _ hhead hawaits hopen
      have hsent := hawaits
      unfold RobEntry.awaitsResponse at hsent
      rw [Bool.and_assoc, Bool.and_eq_true] at hsent
      exact Or.inl (Or.inr (Or.inl ⟨hsent.2, hpending, htx.symm⟩))
  · have hrob := (sysInv_run program tick n).window.rob
    obtain ⟨k, hk, hslot⟩ := hrob.of_valid hi hvalid
    have hstage := (hrob.entryOf hk).stage
    rw [hslot] at hstage
    rw [hstage.debugPc, hstage.inst] at hexc
    rw [hstage.inst] at hdefined
    exact (entry_of_exception (decoded_window program tick n _ (List.getElem_mem hk)) hstage hexc
      hdefined).2

end Runs

/-! ### A load behind a store -/

/-- `LD x1, 0(x0)`, `SD x0, 8(x0)` and `LD x2, 0(x0)`, and `ADDI x0, x0, 0` behind them. -/
def loadStoreLoad : Program :=
  .ofWords [0x00003083#32, 0x00003423#32, 0x00003103#32] 0x00000013#32

/-- Every fetch is answered in the next step; the first load is answered in step 8. -/
def loadStoreLoadTicks : ℕ → Tick := fun n ↦
  { Tick.fetch with dmemResp := if n = 8 then some { transactionId := 1 } else none }

set_option maxRecDepth 100000 in
/-- After step 9, in which the store retires, the second load is at the head. -/
theorem loadStoreLoad_headBusy : (System.run loadStoreLoad loadStoreLoadTicks 10).core.HeadBusy :=
  ⟨by decide +kernel, by decide +kernel, by decide +kernel⟩

set_option maxRecDepth 100000 in
/-- The second load has not been sent, no load is outstanding, and `dmem_req` has room. -/
theorem loadStoreLoad_no_cause :
    (System.run loadStoreLoad loadStoreLoadTicks 10).core.HeadBusy ∧
      ¬ (System.run loadStoreLoad loadStoreLoadTicks 10).core.HasCause
        (decide ((loadStoreLoadTicks 9).dmemReqRoom = 0)) :=
  ⟨loadStoreLoad_headBusy, by decide +kernel⟩

set_option maxRecDepth 100000 in
/-- `headProgress` for this load. -/
theorem headProgress_loadStoreLoad :
    (System.run loadStoreLoad loadStoreLoadTicks 10).core.HasCause
        (decide ((loadStoreLoadTicks 9).dmemReqRoom = 0)) ∨
      (System.run loadStoreLoad loadStoreLoadTicks 10).core.BehindRetiredStore :=
  (headProgress loadStoreLoad loadStoreLoadTicks).2.1 9 loadStoreLoad_headBusy (by decide +kernel)

end BoomCore
