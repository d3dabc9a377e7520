import BoomCore.Proof.Allocation
import BoomCore.Proof.History

/-!
# How values reach the register file

The register file is written in two places: by a response that answers a load
(`System.afterMemory_intRf`), and by the instruction of the cycle unless it is a load
(`SysInv.atCommit_intRf`). A response without exception is a delivery (`System.delivery`), and an
entry has `RobEntry.arrived` after its delivery and only then (`SysInv.memory_arrived`). Distinct
instructions in flight write distinct registers, and none of them is in the committed map
(`RegInv.eq_of_pdst`, `RegInv.committed_ne`).
-/

set_option autoImplicit false
set_option relaxedAutoImplicit false

namespace BoomCore

open Ring Renaming

/-- A response without exception has been received for the entry. -/
def RobEntry.arrived (e : RobEntry) : Bool := e.memoryCompleted && !e.exception

/-- The response of a cycle delivers a value to a load: the cell of the load and the value. -/
def System.delivery (sys : System) (t : Tick) : Option (ℕ × BitVec 64) :=
  match t.dmemResp with
  | none => none
  | some resp =>
    if sys.core.answers resp && !resp.exception then
      some (sys.core.lsu.pendingLoadRobIdx,
        (sys.core.rob.entries sys.core.lsu.pendingLoadRobIdx).responseValue resp)
    else none

/-! ### The load/store unit -/

theorem enqueueResult_intRf (s : BoomCoreState) : (enqueueResult s).intRf = s.intRf := by
  unfold enqueueResult
  dsimp only
  split_ifs <;> rfl

theorem tryIssueLoad_intRf (s : BoomCoreState) (pipe : PipeSignals) (i : ℕ) :
    (tryIssueLoad s pipe i).1.intRf = s.intRf := by
  unfold tryIssueLoad
  split_ifs <;> rfl

theorem lsuModule_intRf {s : BoomCoreState} (hflush : s.globalFlush = false)
    (pipe : PipeSignals) :
    (lsuModule s pipe).1.intRf = (s.afterResponse pipe.dmemResp.q.head?).intRf := by
  rw [lsuModule_eq hflush]
  rcases issueLoadsFrom_cases (enqueueResult (s.afterResponse pipe.dmemResp.q.head?))
    (takeDmemResponse s pipe).2 robDepth 0 with heq | ⟨j, -, -, heq⟩
  · rw [heq, enqueueResult_intRf]
  · rw [heq, tryIssueLoad_intRf, enqueueResult_intRf]

/-- Recording a load does not make it arrive. -/
theorem enqueueResult_arrived (s : BoomCoreState) (i : ℕ)
    (hstore : ((enqueueResult s).rob.entries i).isStore = false) :
    ((enqueueResult s).rob.entries i).arrived = (s.rob.entries i).arrived := by
  unfold enqueueResult at hstore ⊢
  dsimp only at hstore ⊢
  split_ifs at hstore ⊢
  · by_cases hi : i = s.execute.aluResult.uop.queue.robIdx
    · simp [BoomCoreState.setEntry, RobEntry.asStore, hi] at hstore
    · simp [BoomCoreState.setEntry, Function.update_of_ne hi]
  · by_cases hi : i = s.execute.aluResult.uop.queue.robIdx
    · rw [hi]
      simp [BoomCoreState.setEntry, RobEntry.asLoad, RobEntry.arrived]
    · simp [BoomCoreState.setEntry, Function.update_of_ne hi]
  · rfl
  · rfl

theorem tryIssueLoad_arrived (s : BoomCoreState) (pipe : PipeSignals) (j i : ℕ) :
    ((tryIssueLoad s pipe j).1.rob.entries i).arrived = (s.rob.entries i).arrived ∧
      ((tryIssueLoad s pipe j).1.rob.entries i).isStore = (s.rob.entries i).isStore := by
  unfold tryIssueLoad
  split_ifs
  · by_cases hi : i = j
    · rw [hi]
      simp [BoomCoreState.setEntry, RobEntry.sent, RobEntry.arrived]
    · simp [BoomCoreState.setEntry, Function.update_of_ne hi]
  · exact ⟨rfl, rfl⟩

/-- Only the response makes an entry arrive, unless it is the entry of a store. -/
theorem lsuModule_arrived {s : BoomCoreState} (hflush : s.globalFlush = false)
    (pipe : PipeSignals) {i : ℕ} (hstore : ((lsuModule s pipe).1.rob.entries i).isStore = false) :
    ((lsuModule s pipe).1.rob.entries i).arrived =
      ((s.afterResponse pipe.dmemResp.q.head?).rob.entries i).arrived := by
  rw [lsuModule_eq hflush] at hstore ⊢
  rcases issueLoadsFrom_cases (enqueueResult (s.afterResponse pipe.dmemResp.q.head?))
    (takeDmemResponse s pipe).2 robDepth 0 with heq | ⟨j, -, -, heq⟩
  · rw [heq] at hstore ⊢
    exact enqueueResult_arrived _ i hstore
  · obtain ⟨harrived, hsame⟩ := tryIssueLoad_arrived
      (enqueueResult (s.afterResponse pipe.dmemResp.q.head?)) (takeDmemResponse s pipe).2 j i
    rw [heq, hsame] at hstore
    rw [heq, harrived]
    exact enqueueResult_arrived _ i hstore

/-! ### The memory phase of a cycle -/

section Memory

variable (program : Program) (sys : System) (t : Tick)

theorem System.afterMemory_eq :
    (sys.afterMemory program t).1 = (lsuModule (resolved sys.core) (sys.ports program t)).1 := rfl

/-- The response of the cycle, on the state that the load/store unit finds. -/
theorem System.afterResponse_of_none (hnone : sys.delivery t = none) :
    ((resolved sys.core).afterResponse t.dmemResp).intRf = sys.core.intRf ∧
      ∀ i, (((resolved sys.core).afterResponse t.dmemResp).rob.entries i).arrived = true →
        (sys.core.rob.entries i).arrived = true := by
  have hrf : (resolved sys.core).intRf = sys.core.intRf := by rw [resolved_eq]
  have hrob : (resolved sys.core).rob = sys.core.rob := by rw [resolved_eq]
  have hlsu : (resolved sys.core).lsu = sys.core.lsu := by rw [resolved_eq]
  unfold delivery at hnone
  cases hresp : t.dmemResp with
  | none =>
    show (resolved sys.core).intRf = _ ∧ ∀ i, ((resolved sys.core).rob.entries i).arrived = _ → _
    rw [hrf, hrob]
    exact ⟨rfl, fun _ ↦ id⟩
  | some resp =>
    rw [hresp] at hnone
    dsimp only at hnone
    unfold BoomCoreState.afterResponse
    dsimp only
    by_cases hanswers : sys.core.answers resp = true
    · have hexc : resp.exception = true := by simpa [hanswers] using hnone
      have hanswers' : (resolved sys.core).answers resp = true := by
        unfold BoomCoreState.answers at hanswers ⊢
        rw [hrob, hlsu]
        exact hanswers
      rw [handleResponse_of_answers hanswers']
      dsimp only
      rw [hexc, hrf, hrob, hlsu]
      refine ⟨rfl, fun i harrived ↦ ?_⟩
      by_cases hi : i = sys.core.lsu.pendingLoadRobIdx
      · rw [hi, Function.update_self] at harrived
        simp [RobEntry.arrived, RobEntry.complete_exception, hexc] at harrived
      · rwa [Function.update_of_ne hi] at harrived
    · have hanswers' : (resolved sys.core).answers resp = false := by
        unfold BoomCoreState.answers at hanswers ⊢
        rw [hrob, hlsu]
        simpa using hanswers
      rw [handleResponse_of_not_answers hanswers']
      split_ifs
      · dsimp only
        rw [hrf, hrob]
        exact ⟨rfl, fun _ ↦ id⟩
      · rw [hrf, hrob]
        exact ⟨rfl, fun _ ↦ id⟩

theorem System.delivery_eq {i : ℕ} {v : BitVec 64} (hsome : sys.delivery t = some (i, v)) :
    ∃ resp, t.dmemResp = some resp ∧ sys.core.answers resp = true ∧ resp.exception = false ∧
      i = sys.core.lsu.pendingLoadRobIdx ∧ v = (sys.core.rob.entries i).responseValue resp := by
  unfold delivery at hsome
  cases hresp : t.dmemResp with
  | none => simp [hresp] at hsome
  | some resp =>
    rw [hresp] at hsome
    dsimp only at hsome
    split_ifs at hsome with hboth
    rw [Bool.and_eq_true, Bool.not_eq_true'] at hboth
    have hpair := Option.some.inj hsome
    have hi : sys.core.lsu.pendingLoadRobIdx = i := congrArg Prod.fst hpair
    have hv := congrArg Prod.snd hpair
    dsimp only at hv
    rw [hi] at hv
    exact ⟨resp, rfl, hboth.1, hboth.2, hi.symm, hv.symm⟩

theorem System.afterResponse_of_some {i : ℕ} {v : BitVec 64}
    (hsome : sys.delivery t = some (i, v)) :
    ((resolved sys.core).afterResponse t.dmemResp).intRf =
        (if (sys.core.rob.entries i).uop.rename.pdst ≠ 0 then
          Function.update sys.core.intRf (sys.core.rob.entries i).uop.rename.pdst v
        else sys.core.intRf) ∧
      ∀ j, j ≠ i → ((resolved sys.core).afterResponse t.dmemResp).rob.entries j =
        sys.core.rob.entries j := by
  have hrf : (resolved sys.core).intRf = sys.core.intRf := by rw [resolved_eq]
  have hrob : (resolved sys.core).rob = sys.core.rob := by rw [resolved_eq]
  have hlsu : (resolved sys.core).lsu = sys.core.lsu := by rw [resolved_eq]
  obtain ⟨resp, hresp, hanswers, hexc, rfl, rfl⟩ := sys.delivery_eq t hsome
  have hanswers' : (resolved sys.core).answers resp = true := by
    unfold BoomCoreState.answers at hanswers ⊢
    rw [hrob, hlsu]
    exact hanswers
  rw [hresp]
  unfold BoomCoreState.afterResponse
  dsimp only
  rw [handleResponse_of_answers hanswers']
  dsimp only
  rw [hrf, hrob, hlsu, hexc]
  refine ⟨by simp, fun j hj ↦ Function.update_of_ne hj _ _⟩

end Memory

section Window

variable {program : Program} {sys : System} {w : List Inflight} (h : SysInv sys w) (t : Tick)

include h

/-- The entry of a load arrives with the response only. -/
theorem SysInv.memory_arrived {d : Inflight} (hd : d ∈ w) (hload : d.result.isLoad = true) :
    ((sys.afterMemory program t).1.rob.entries d.cell).arrived =
      (((resolved sys.core).afterResponse t.dmemResp).rob.entries d.cell).arrived := by
  have hof := (h.memory program t).1.rob.entryOf_mem hd
  have hstore := hof.stage.isStore hof.dispatched hload
  rw [System.afterMemory_eq] at hstore ⊢
  rw [lsuModule_arrived (resolved_globalFlush sys.core) _ hstore, System.ports_dmemResp]

variable (program) in
/-- Without a delivery the memory phase keeps the register file, and no load arrives. -/
theorem SysInv.memory_of_none (hnone : sys.delivery t = none) :
    (sys.afterMemory program t).1.intRf = sys.core.intRf ∧
      ∀ d ∈ w, d.result.isLoad = true →
        ((sys.afterMemory program t).1.rob.entries d.cell).arrived = true →
          (sys.core.rob.entries d.cell).arrived = true := by
  obtain ⟨hrf, harrived⟩ := sys.afterResponse_of_none t hnone
  constructor
  · rw [System.afterMemory_eq, lsuModule_intRf (resolved_globalFlush sys.core),
      System.ports_dmemResp, hrf]
  · intro d hd hload harr
    rw [h.memory_arrived t hd hload] at harr
    exact harrived _ harr

variable (program) in
/-- A delivery is for a load in flight. It writes the register of the load, and no other load
arrives. -/
theorem SysInv.memory_of_some {i : ℕ} {v : BitVec 64} (hsome : sys.delivery t = some (i, v)) :
    ∃ d ∈ w, d.cell = i ∧ d.result.isLoad = true ∧
      (sys.afterMemory program t).1.intRf =
        (if d.result.uop.rename.pdst ≠ 0 then
          Function.update sys.core.intRf d.result.uop.rename.pdst v
        else sys.core.intRf) ∧
      ∀ d' ∈ w, d' ≠ d → d'.result.isLoad = true →
        ((sys.afterMemory program t).1.rob.entries d'.cell).arrived = true →
          (sys.core.rob.entries d'.cell).arrived = true := by
  obtain ⟨hrf, hother⟩ := sys.afterResponse_of_some t hsome
  obtain ⟨resp, -, hanswers, -, rfl, -⟩ := sys.delivery_eq t hsome
  obtain ⟨k, hk, hslot, hload, -⟩ := h.window.answered_load hanswers
  have hcell : w[k].cell = sys.core.lsu.pendingLoadRobIdx := by
    rw [← hslot]
    exact (h.window.rob.entryOf hk).robIdx
  have hstage := (h.window.rob.entryOf_mem (List.getElem_mem hk)).stage
  rw [hcell] at hstage
  refine ⟨w[k], List.getElem_mem hk, hcell, hload, ?_, fun d' hd' hne hload' harr ↦ ?_⟩
  · rw [System.afterMemory_eq, lsuModule_intRf (resolved_globalFlush sys.core),
      System.ports_dmemResp, hrf, hstage.rename]
  · rw [h.memory_arrived t hd' hload', hother] at harr
    · exact harr
    · rw [← hcell]
      exact fun heq ↦ hne (h.window.rob.eq_of_cell hd' (List.getElem_mem hk) heq)

end Window

/-! ### Dispatch and commit -/

section Dispatch

variable {program : Program} {sys : System} {w : List Inflight} (h : SysInv sys w) (t : Tick)
  (n : ℕ)

theorem System.cycle_intRf :
    (sys.cycle program t).core.intRf = (sys.atCommit program t).intRf :=
  (cycle_frame program sys t).intRf

include h

variable (program) in
/-- Either nothing is dispatched in the cycle, or one instruction is: it has the cell at the tail,
and its result is written back unless it is a load. -/
theorem SysInv.dispatched_cases :
    (sys.dispatched program t n = [] ∧
        (sys.atCommit program t).rob.entries = (sys.afterMemory program t).1.rob.entries ∧
        (sys.atCommit program t).intRf = (sys.afterMemory program t).1.intRf) ∨
      ∃ d, sys.dispatched program t n = [d] ∧ d.born = n ∧
        d.result = sys.dispatchedResult program t ∧
        (sys.accepted program t).isSome = true ∧ sys.core.rob.isFull = false ∧
        (sys.atCommit program t).rob.entries =
          Function.update (sys.afterMemory program t).1.rob.entries d.cell d.result.entry ∧
        (sys.atCommit program t).intRf =
          writeBack (sys.afterMemory program t).1.intRf d.result := by
  rcases System.idle_or_accepts program sys t with hidle | ⟨resp, hacc, hfull⟩
  · obtain ⟨hrob, -, -, hrf⟩ := h.step.atCommit_idle t hidle
    exact Or.inl ⟨h.step.dispatched_idle t n hidle, by rw [hrob]; rfl, hrf⟩
  · obtain ⟨hrob, -, -, hrf⟩ := h.step.atCommit_some t hacc hfull h.tail_lt
    exact Or.inr ⟨_, h.step.dispatched_some t n hacc hfull h.tail_lt, rfl, rfl, by simp [hacc],
      hfull, by rw [hrob]; rfl, hrf⟩

variable (program) in
/-- An instruction that is dispatched in the cycle, as commit finds it. -/
theorem SysInv.of_dispatched {d : Inflight} (hd : d ∈ sys.dispatched program t n) :
    d.result = sys.dispatchedResult program t ∧
      (sys.accepted program t).isSome = true ∧ sys.core.rob.isFull = false ∧
      (sys.atCommit program t).rob.entries d.cell = d.result.entry ∧
      (sys.atCommit program t).intRf =
        writeBack (sys.afterMemory program t).1.intRf d.result := by
  rcases h.dispatched_cases program t n with
    ⟨hnone, -⟩ | ⟨d', hone, -, hresult, hacc, hfull, hentries, hrf⟩
  · rw [hnone] at hd
    exact absurd hd List.not_mem_nil
  · rw [hone, List.mem_singleton] at hd
    subst hd
    refine ⟨hresult, hacc, hfull, ?_, hrf⟩
    rw [hentries, Function.update_self]

/-- The cells of the instructions in flight are as the memory phase left them. -/
theorem SysInv.atCommit_entry {d : Inflight} (hd : d ∈ w) :
    (sys.atCommit program t).rob.entries d.cell =
      (sys.afterMemory program t).1.rob.entries d.cell := by
  rcases h.dispatched_cases program t 0 with
    ⟨-, hentries, -⟩ | ⟨d', hone, -, -, -, -, hentries, -⟩
  · rw [hentries]
  · have hne := h.dispatched_robIdx_ne t 0 hd (by rw [hone]; exact List.mem_singleton_self d')
    rw [hentries, Function.update_of_ne hne.symm]

/-- An instruction that is in flight after a cycle has the entry that commit found. -/
theorem SysInv.cycle_entry {d : Inflight} (hd : d ∈ sys.windowStep program t n w) :
    (sys.cycle program t).core.rob.entries d.cell =
      (sys.atCommit program t).rob.entries d.cell := by
  have hvalid := ((h.cycle t n).window.rob.entryOf_mem hd).stage.valid
  have hredirects : sys.core.execute.aluResult.redirects = false := by
    by_contra hcontra
    unfold System.windowStep at hd
    rw [if_pos (by simpa using hcontra)] at hd
    simp at hd
  have hcore : (sys.cycle program t).core = (sys.coreStep program t).1 := rfl
  rw [hcore, h.step.coreStep_of_not_redirects program t hredirects] at hvalid ⊢
  exact commitStage_entries hvalid

end Dispatch

/-! ### Registers in flight -/

namespace RegInv

variable {mt : RenameMapTableState} {fl : RenameFreeListState} {w : List Inflight}
  {free : List ℕ} (h : RegInv mt fl w free)

include h

/-- Two instructions in flight do not write one register. -/
theorem eq_of_pdst {d d' : Inflight} (hd : d ∈ w) (hd' : d' ∈ w)
    (hne : d.result.uop.rename.pdst ≠ 0)
    (heq : d.result.uop.rename.pdst = d'.result.uop.rename.pdst) : d = d' := by
  have hnodup := h.alloc.nodup.of_append_left
  unfold assigns at hnodup
  rw [List.Nodup, List.pairwise_map, List.pairwise_filterMap] at hnodup
  by_contra hdiff
  have hsymm : Std.Symm fun d d' : Inflight ↦ ∀ a, d.assign = some a → ∀ a', d'.assign = some a' →
      a.reg ≠ a'.reg := ⟨fun _ _ hrel a ha a' ha' ↦ (hrel a' ha' a ha).symm⟩
  exact hnodup.forall hd hd' hdiff _ (if_pos hne) _ (if_pos (heq ▸ hne)) heq

/-- The committed map does not hold a register that an instruction in flight writes. -/
theorem committed_ne {d : Inflight} (hd : d ∈ w) (hne : d.result.uop.rename.pdst ≠ 0) (x : ℕ) :
    mt.committedMapTable x ≠ d.result.uop.rename.pdst := by
  intro heq
  refine h.alloc.fresh x (List.mem_append_left _ ?_)
  rw [heq]
  exact List.mem_map.mpr ⟨_, List.mem_filterMap.mpr ⟨d, hd, if_pos hne⟩, rfl⟩

/-- A register of the map table is committed or written by an instruction in flight. -/
theorem mapTable_cases (x : ℕ) :
    mt.mapTable x = mt.committedMapTable x ∨
      ∃ d ∈ w, d.result.uop.rename.pdst = mt.mapTable x := by
  rw [h.map]
  rcases replay_mem mt.committedMapTable (assigns w) x with heq | hmem
  · exact Or.inl heq
  · obtain ⟨a, ha, hreg⟩ := List.mem_map.mp hmem
    obtain ⟨d, hd, hassign⟩ := List.mem_filterMap.mp ha
    unfold Inflight.assign at hassign
    split_ifs at hassign
    rw [← Option.some.inj hassign] at hreg
    exact Or.inr ⟨d, hd, hreg⟩

end RegInv

end BoomCore
