import BoomCore.Proof.Retirement
import BoomCore.Proof.Writeback

/-!
# Why the head waits

An instruction that was decoded with an exception never reaches the load/store unit
(`Stage.of_exception`), and a load that has been recorded but not sent when the unit is done found
another load outstanding, no room in `dmem_req`, or an older store (`SysInv.queued_waits`). An
exception at the head is taken at once (`SysInv.cycle_of_exception`).
-/

set_option autoImplicit false
set_option relaxedAutoImplicit false

namespace BoomCore

open Ring

/-- The entry is of a load that has been recorded and not been sent. -/
def RobEntry.queuedLoad (e : RobEntry) : Bool :=
  e.isLoad && e.memoryValid && !e.memoryRequestSent

/-! ### The stages of an entry -/

namespace Stage

variable {r : AluResult} {e : RobEntry} (h : Stage r e) (hspec : DispatchedSpec r)

include h hspec

/-- An instruction that was decoded with an exception keeps the entry of its dispatch. -/
theorem of_exception (hexc : r.uop.exception = true) : e = r.entry := by
  have hload : r.isLoad = false := by rw [hspec.load, hexc, Bool.not_true, Bool.and_false]
  have hstore : r.isStore = false := by rw [hspec.store, hexc, Bool.not_true, Bool.and_false]
  cases h with
  | executed => rfl
  | stored hstore' =>
    rw [hstore] at hstore'
    simp at hstore'
  | _ hload' =>
    rw [hload] at hload'
    simp at hload'

/-- The entry of a store word is the one of its dispatch until the store is recorded. -/
theorem of_sta (hsta : r.uop.ctrl.isSta = true) :
    (e = r.entry ∧ e.busy = true) ∨ (e = r.entry.asStore r ∧ r.isStore = true) := by
  have hload : r.isLoad = false := by rw [hspec.load, hspec.load_of_sta hsta, Bool.false_and]
  cases h with
  | executed =>
    refine Or.inl ⟨rfl, ?_⟩
    show (!r.completesInRob) = true
    rw [hspec.completes, hsta, Bool.or_true]
    rfl
  | stored hstore => exact Or.inr ⟨rfl, hstore⟩
  | _ hload' =>
    rw [hload] at hload'
    simp at hload'

/-- A busy entry without an exception at decode is one of a memory operation: it waits to be
recorded, it waits to be sent, or it waits for its response. -/
theorem of_busy (hexc : r.uop.exception = false) (hbusy : e.busy = true) :
    (e = r.entry ∧ r.memoryValid = true) ∨ e.queuedLoad = true ∨
      (e.awaitsResponse = true ∧ e.memoryCompleted = false) := by
  cases h with
  | executed =>
    refine Or.inl ⟨rfl, ?_⟩
    have hnot : (!r.completesInRob) = true := hbusy
    rw [hspec.completes, Bool.not_not] at hnot
    rw [hspec.memoryValid, hspec.load, hspec.store, hexc, Bool.not_false, Bool.and_true,
      Bool.and_true]
    exact hnot
  | stored => simp [RobEntry.asStore] at hbusy
  | queued => exact Or.inr (Or.inl rfl)
  | sent => exact Or.inr (Or.inr ⟨rfl, rfl⟩)
  | answered hload tx resp =>
    unfold RobEntry.complete at hbusy
    split_ifs at hbusy

end Stage

/-! ### The issue loop -/

/-- A scan that finds a store finds it at a position before the entry that it looks for. -/
theorem olderStoreFrom_true {entries : CArray RobEntry} {head k : ℕ} :
    ∀ {fuel i : ℕ}, i ≤ k →
      olderStoreFrom entries (slot robDepth head k) fuel (slot robDepth head i) = true →
      ∃ j, i ≤ j ∧ j < k ∧ (entries (slot robDepth head j)).valid = true ∧
        (entries (slot robDepth head j)).uop.ctrl.isSta = true := by
  intro fuel
  induction fuel with
  | zero =>
    intro i _ hscan
    simp [olderStoreFrom] at hscan
  | succ fuel ih =>
    intro i hik hscan
    unfold olderStoreFrom at hscan
    split_ifs at hscan with heq hstore
    · have hlt : i < k := by
        rcases Nat.eq_or_lt_of_le hik with rfl | hlt
        · exact absurd rfl heq
        · exact hlt
      rw [Bool.and_eq_true] at hstore
      exact ⟨i, Nat.le_refl i, hlt, hstore.1, hstore.2⟩
    · have hlt : i < k := by
        rcases Nat.eq_or_lt_of_le hik with rfl | hlt
        · exact absurd rfl heq
        · exact hlt
      rw [slot_succ] at hscan
      obtain ⟨j, hij, hjk, hfound⟩ := ih hlt hscan
      exact ⟨j, by omega, hjk, hfound⟩

/-- The issue loop ends with a load outstanding, or no load on its way could be sent. -/
theorem issueLoadsFrom_blocked (s : BoomCoreState) (pipe : PipeSignals) (fuel i : ℕ) :
    (issueLoadsFrom s pipe fuel i).1.lsu.loadResponsePending = true ∨
      (issueLoadsFrom s pipe fuel i = (s, pipe) ∧
        ∀ j, i ≤ j → j < i + fuel → canIssueLoad s pipe (slot robDepth s.rob.head j) = false) := by
  induction fuel generalizing i with
  | zero => exact Or.inr ⟨rfl, fun j hij hj ↦ absurd hj (by omega)⟩
  | succ fuel ih =>
    unfold issueLoadsFrom
    by_cases hcan : canIssueLoad s pipe (slot robDepth s.rob.head i) = true
    · have hpending : (tryIssueLoad s pipe
          ((s.rob.head + i) % robDepth)).1.lsu.loadResponsePending = true := by
        unfold tryIssueLoad
        rw [if_pos (show canIssueLoad s pipe ((s.rob.head + i) % robDepth) = true from hcan)]
      refine Or.inl ?_
      simp only [hpending, if_true]
    · have htry : tryIssueLoad s pipe ((s.rob.head + i) % robDepth) = (s, pipe) := by
        unfold tryIssueLoad
        exact if_neg hcan
      simp only [htry]
      split_ifs with hpending
      · exact Or.inl hpending
      · rcases ih (i + 1) with hleft | ⟨heq, hnone⟩
        · exact Or.inl hleft
        · refine Or.inr ⟨heq, fun j hij hj ↦ ?_⟩
          rcases Nat.eq_or_lt_of_le hij with rfl | hlt
          · simpa using hcan
          · exact hnone j hlt (by omega)

/-- A load that has been recorded and not been sent when the unit is done: another load is
outstanding, `dmem_req` has no room, or a store is older. -/
theorem lsuModule_queued {s : BoomCoreState} (hflush : s.globalFlush = false) (pipe : PipeSignals)
    {k : ℕ} (hk : k < robDepth) (hhead : s.rob.head < robDepth)
    (hvalid : ((lsuModule s pipe).1.rob.entries (slot robDepth s.rob.head k)).valid = true)
    (hqueued : ((lsuModule s pipe).1.rob.entries (slot robDepth s.rob.head k)).queuedLoad = true) :
    (lsuModule s pipe).1.lsu.loadResponsePending = true ∨ pipe.dmemReq.full = true ∨
      ∃ j < k, ((lsuModule s pipe).1.rob.entries (slot robDepth s.rob.head j)).valid = true ∧
        ((lsuModule s pipe).1.rob.entries
          (slot robDepth s.rob.head j)).uop.ctrl.isSta = true := by
  have hrob : (lsuModule s pipe).1.rob.head = s.rob.head := by
    rw [lsuModule_memoryOnly s pipe]
    rfl
  have hdmem := (takeDmemResponse_eq s pipe).2
  rw [lsuModule_eq hflush] at hvalid hqueued hrob ⊢
  rcases issueLoadsFrom_blocked (enqueueResult (s.afterResponse pipe.dmemResp.q.head?))
    (takeDmemResponse s pipe).2 robDepth 0 with hpending | ⟨heq, hnone⟩
  · exact Or.inl hpending
  · rw [heq] at hvalid hqueued hrob ⊢
    generalize enqueueResult (s.afterResponse pipe.dmemResp.q.head?) = r at *
    dsimp only at hvalid hqueued hrob ⊢
    have hblocked := hnone k (Nat.zero_le k) (by omega)
    rw [hrob] at hblocked
    unfold RobEntry.queuedLoad at hqueued
    simp only [Bool.and_eq_true, Bool.not_eq_true'] at hqueued
    unfold canIssueLoad at hblocked
    dsimp only at hblocked
    rw [hvalid, hqueued.1.1, hqueued.1.2, hqueued.2, hdmem] at hblocked
    cases hpending : r.lsu.loadResponsePending with
    | true => exact Or.inl rfl
    | false =>
      cases hfull : pipe.dmemReq.full with
      | true => exact Or.inr (Or.inl rfl)
      | false =>
        rw [hpending, hfull] at hblocked
        simp only [Bool.and_true, Bool.true_and, Bool.not_false, Bool.not_eq_false'] at hblocked
        unfold olderStoreInRob at hblocked
        rw [hrob] at hblocked
        have hzero : s.rob.head = slot robDepth s.rob.head 0 := (slot_zero hhead).symm
        nth_rewrite 2 [hzero] at hblocked
        obtain ⟨j, -, hjk, hfound⟩ := olderStoreFrom_true (Nat.zero_le k) hblocked
        exact Or.inr (Or.inr ⟨j, hjk, hfound⟩)

/-! ### A cycle -/

section Cycle

variable {program : Program} {sys : System} {w : List Inflight} (h : SysInv sys w) (t : Tick)

include h

/-- A load in flight that is still to be sent when the load/store unit is done. -/
theorem SysInv.queued_waits {k : ℕ} (hk : k < w.length)
    (hqueued : ((sys.afterMemory program t).1.rob.entries w[k].cell).queuedLoad = true) :
    (sys.afterMemory program t).1.lsu.loadResponsePending = true ∨ t.dmemReqRoom = 0 ∨
      ∃ j, ∃ hj : j < k, w[j].result.uop.ctrl.isSta = true := by
  have hrob := (h.memory program t).1.rob
  have hhead : (sys.afterMemory program t).1.rob.head = (resolved sys.core).rob.head := by
    rw [System.afterMemory_rob, resolved_eq]
  have hcell := (hrob.entryOf hk).robIdx
  have hvalid := (hrob.entryOf hk).stage.valid
  rw [show w[k].cell = w[k].result.uop.queue.robIdx from rfl, hcell] at hqueued
  rw [hhead] at hqueued hvalid
  rcases lsuModule_queued (resolved_globalFlush sys.core) (sys.ports program t)
    (hk.trans_le hrob.length_le) (h.beforeMemory.1.rob.head_lt) hvalid hqueued with
    hpending | hfull | ⟨j, hj, -, hsta⟩
  · exact Or.inl hpending
  · refine Or.inr (Or.inl ?_)
    simpa [System.ports, Stream.full] using hfull
  · have hstage := (hrob.entryOf (hj.trans hk)).stage
    rw [hhead] at hstage
    exact Or.inr (Or.inr ⟨j, hj, by rw [← hstage.ctrl]; exact hsta⟩)

/-- A store word that leaves the window retires as a store. -/
theorem SysInv.popped_store (n : ℕ) (hquiet : sys.core.execute.aluResult.redirects = false)
    {d : Inflight} {w' : List Inflight} (hw : w ++ sys.dispatched program t n = d :: w')
    (hleaves : sys.windowStep program t n w = w') (hsta : d.result.uop.ctrl.isSta = true) :
    (sys.cycle program t).core.rob.commitValid = true ∧
      (sys.cycle program t).core.rob.lastCommit.isStore = true := by
  have hof := (h.atCommit program t n).1.rob
  rw [hw] at hof
  obtain ⟨hspec, -, hstage⟩ := hof.head.2
  have hstays : sys.windowStep program t n w ≠ w ++ sys.dispatched program t n := by
    rw [hleaves, hw]
    exact (List.cons_ne_self d w').symm
  have hcore : (sys.cycle program t).core = (sys.coreStep program t).1 := rfl
  generalize hout : sys.coreStep program t = out at hcore
  have houtcome := h.outcome program t n hquiet
  rw [hout] at houtcome
  cases houtcome with
  | stall => exact absurd (h.windowStep_of_stay t n hquiet (by rw [hcore])) hstays
  | exception d' w'' hw' hstage' hbusy hexc =>
    rcases hstage.of_sta hspec hsta with ⟨-, hbusy'⟩ | ⟨heq, hstore⟩
    · rw [hbusy] at hbusy'
      simp at hbusy'
    · rw [heq] at hexc
      rw [hspec.store, Bool.and_eq_true, Bool.not_eq_true'] at hstore
      rw [show (d.result.entry.asStore d.result).exception = d.result.uop.exception from rfl,
        hstore.2] at hexc
      simp at hexc
  | store d' w'' hw' hstore hentry =>
    rw [hcore, hentry]
    exact ⟨rfl, rfl⟩
  | retire d' w'' hw' hretire hstore =>
    have hd : d' = d := (List.cons.inj (hw'.symm.trans hw)).1
    rw [hd] at hretire hstore
    rcases hretire.stage.of_sta hspec hsta with ⟨-, hbusy⟩ | ⟨-, hstore'⟩
    · rw [hretire.not_busy] at hbusy
      simp at hbusy
    · rw [hstore] at hstore'
      simp at hstore'

/-- Assumes: the oldest instruction was decoded with an exception and was complete when it was
dispatched. Its entry is still the one of its dispatch, and commit takes the exception. -/
theorem SysInv.cycle_of_exception (n : ℕ)
    (hquiet : sys.core.execute.aluResult.redirects = false)
    {d : Inflight} {w' : List Inflight} (hw : w ++ sys.dispatched program t n = d :: w')
    (hexc : d.result.uop.exception = true) (hbusy : d.result.entry.busy = false) :
    (sys.atCommit program t).rob.entries (sys.atCommit program t).rob.head = d.result.entry ∧
      (sys.cycle program t).core = commitException (sys.atCommit program t) d.result.entry := by
  have hrob := (h.atCommit program t n).1.rob
  rw [hw] at hrob
  obtain ⟨hnonempty, hspec, -, hstage⟩ := hrob.head
  have hentry := hstage.of_exception hspec hexc
  refine ⟨hentry, ?_⟩
  show (sys.coreStep program t).1 = _
  rw [h.step.coreStep_of_not_redirects program t hquiet,
    commitStage_of_exception _ hnonempty hstage.valid (by rw [hentry]; exact hbusy)
      (by rw [hentry]; exact hexc), hentry]

end Cycle

end BoomCore
