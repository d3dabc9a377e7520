import BoomCore.Proof.Ports
import BoomCore.Proof.Retirement

/-!
# The queues of the load/store unit

A memory operation that the load/store unit has recorded is a reference to a cell of the reorder
buffer with an address and a size. `RobInternalState.refs` lists the references of the loads, or of
the stores, that are in flight, the oldest one first; `LsuState.queue` shows the load queue or the
store queue. A step appends the reference of the previous result to both
(`SysInv.afterMemory_refs`), unless the queue is full; what retires or is squashed leaves the first
list only (`SysInv.cycle_refs`).
-/

set_option autoImplicit false
set_option relaxedAutoImplicit false

namespace BoomCore

open Ring

/-! ### References -/

/-- A recorded memory operation: its cell in the reorder buffer, its address and its size. -/
structure MemoryRef where
  robIdx : ℕ
  address : BitVec 64
  size : ℕ
  deriving DecidableEq

def LoadQueueEntry.ref (q : LoadQueueEntry) : Option MemoryRef :=
  if q.valid then some { robIdx := q.robIdx, address := q.address, size := q.size } else none

def StoreQueueEntry.ref (q : StoreQueueEntry) : Option MemoryRef :=
  if q.valid then some { robIdx := q.robIdx, address := q.address, size := q.size } else none

/-- The store queue or the load queue, as references. -/
structure MemoryQueue where
  depth : ℕ
  cells : ℕ → Option MemoryRef
  head : ℕ
  tail : ℕ
  count : ℕ

def LsuState.queue (lsu : LsuState) : Bool → MemoryQueue
  | true =>
    { depth := stqDepth, cells := fun i ↦ (lsu.stq i).ref
      head := lsu.stqHead, tail := lsu.stqTail, count := lsu.stqCount }
  | false =>
    { depth := ldqDepth, cells := fun i ↦ (lsu.ldq i).ref
      head := lsu.ldqHead, tail := lsu.ldqTail, count := lsu.ldqCount }

/-- The entry is marked as a store, or as a load. -/
def RobEntry.ofKind (e : RobEntry) : Bool → Bool
  | true => e.isStore
  | false => e.isLoad

/-- The entry in cell `i`, when it is valid and recorded as a store, or as a load. -/
def RobEntry.ref (store : Bool) (i : ℕ) (e : RobEntry) : Option MemoryRef :=
  if e.valid && e.memoryValid && e.ofKind store then
    some { robIdx := i, address := e.memoryAddress, size := e.memorySize }
  else none

/-- The stores, or the loads, that are in flight and recorded, the oldest one first. -/
def RobInternalState.refs (rob : RobInternalState) (store : Bool) : List MemoryRef :=
  read robDepth (fun i ↦ (rob.entries i).ref store i) rob.head

namespace AluResult

def ofKind (r : AluResult) : Bool → Bool
  | true => r.isStore
  | false => r.isLoad

def memoryRef (r : AluResult) : MemoryRef :=
  { robIdx := r.uop.queue.robIdx, address := r.memoryAddress, size := r.memorySize }

/-- The memory operation of a result, when it is a store, or a load. -/
def ref (store : Bool) (r : AluResult) : Option MemoryRef :=
  if r.valid && r.memoryValid && r.ofKind store then some r.memoryRef else none

end AluResult

/-- A reference is appended unless the queue is full. -/
def MemoryQueue.record (q : MemoryQueue) : Option MemoryRef → MemoryQueue
  | none => q
  | some r =>
    if q.count < q.depth then
      { q with
        cells := Function.update q.cells q.tail (some r)
        tail := (q.tail + 1) % q.depth, count := q.count + 1 }
    else q

section Views

variable {rob : RobInternalState} {store : Bool}

/-- Only what the entries show, from the head on, matters. -/
theorem RobInternalState.refs_congr {rob' : RobInternalState} (hhead : rob'.head = rob.head)
    (hsame : ∀ i < robDepth, (rob'.entries i).ref store i = (rob.entries i).ref store i) :
    rob'.refs store = rob.refs store := by
  unfold refs
  rw [hhead]
  exact read_congr (by decide) hsame

/-- Overwriting an entry by one that shows the same changes nothing. -/
theorem RobInternalState.refs_update {j : ℕ} {e : RobEntry}
    (hsame : e.ref store j = (rob.entries j).ref store j) :
    ({ rob with entries := Function.update rob.entries j e } : RobInternalState).refs store =
      rob.refs store := by
  refine refs_congr rfl fun i _ ↦ ?_
  by_cases hij : i = j
  · rw [hij]
    dsimp only
    rw [Function.update_self]
    exact hsame
  · dsimp only
    rw [Function.update_of_ne hij]

/-- Recording a memory operation behind the last one appends it. -/
theorem RobInternalState.refs_push {k : ℕ} (hk : k < robDepth)
    (hbehind : ∀ j, k ≤ j → j < robDepth →
      (rob.entries (slot robDepth rob.head j)).ref store (slot robDepth rob.head j) = none)
    {e : RobEntry} {r : MemoryRef} (he : e.ref store (slot robDepth rob.head k) = some r) :
    ({ rob with
        entries := Function.update rob.entries (slot robDepth rob.head k) e } :
          RobInternalState).refs store = rob.refs store ++ [r] := by
  have hview :
      (fun i ↦ (Function.update rob.entries (slot robDepth rob.head k) e i).ref store i) =
      Function.update (fun i ↦ (rob.entries i).ref store i) (slot robDepth rob.head k)
        (some r) := by
    rw [← he]
    exact funext fun i ↦ Function.apply_update (fun i e ↦ RobEntry.ref store i e) _ _ _ i
  unfold refs
  dsimp only
  rw [hview]
  exact read_push hk hbehind r

theorem RobEntry.ref_of_invalid {e : RobEntry} {i : ℕ} (h : e.valid = false) :
    e.ref store i = none := by
  simp [ref, h]

theorem RobEntry.ref_of_not_recorded {e : RobEntry} {i : ℕ} (h : e.memoryValid = false) :
    e.ref store i = none := by
  simp [ref, h]

@[simp] theorem RobEntry.ref_complete (e : RobEntry) (resp : DmemResponse) (i : ℕ) :
    (e.complete resp).ref store i = e.ref store i := by
  unfold complete
  split_ifs <;> rfl

@[simp] theorem RobEntry.ref_sent (e : RobEntry) (tx : BitVec 32) (i : ℕ) :
    (e.sent tx).ref store i = e.ref store i := rfl

/-- Different cells show different references. -/
theorem RobInternalState.refs_nodup (rob : RobInternalState) (store : Bool) :
    (rob.refs store).Nodup := by
  refine read_nodup fun i j r hi hj ↦ ?_
  have hcell : ∀ k, (rob.entries k).ref store k = some r → r.robIdx = k := by
    intro k hk
    unfold RobEntry.ref at hk
    split_ifs at hk
    rw [← Option.some_inj.mp hk]
  rw [← hcell i hi, hcell j hj]

end Views

/-! ### The load/store unit -/

section Memory

variable {s : BoomCoreState} {w : List Inflight} {store : Bool}

/-- A response changes neither list. -/
theorem afterResponse_refs (resp : Option DmemResponse) :
    (s.afterResponse resp).rob.refs store = s.rob.refs store ∧
      (s.afterResponse resp).lsu.queue store = s.lsu.queue store := by
  cases resp with
  | none => exact ⟨rfl, rfl⟩
  | some resp =>
    show (handleResponse s resp).rob.refs store = _ ∧ (handleResponse s resp).lsu.queue store = _
    by_cases hanswers : s.answers resp = true
    · rw [handleResponse_of_answers hanswers]
      exact ⟨RobInternalState.refs_update (RobEntry.ref_complete _ _ _), rfl⟩
    · rw [handleResponse_of_not_answers (by simpa using hanswers)]
      split_ifs <;> exact ⟨rfl, rfl⟩

/-- A load request changes neither list. -/
theorem tryIssueLoad_refs {pipe : PipeSignals} {j : ℕ} (hcan : canIssueLoad s pipe j = true) :
    (tryIssueLoad s pipe j).1.rob.refs store = s.rob.refs store ∧
      (tryIssueLoad s pipe j).1.lsu.queue store = s.lsu.queue store := by
  rw [tryIssueLoad_of_can hcan]
  exact ⟨RobInternalState.refs_update (RobEntry.ref_sent _ _ _), rfl⟩

/-- A recorded store goes to the store queue. -/
theorem pushStore_queue (lsu : LsuState) (r : AluResult) :
    (lsu.pushStore r).queue true = (lsu.queue true).record (some r.memoryRef) ∧
      (lsu.pushStore r).queue false = lsu.queue false := by
  unfold LsuState.pushStore
  by_cases hroom : lsu.stqCount < stqDepth
  · have hrecord : (lsu.queue true).record (some r.memoryRef) =
        { lsu.queue true with
          cells := Function.update (lsu.queue true).cells lsu.stqTail (some r.memoryRef)
          tail := (lsu.stqTail + 1) % stqDepth, count := lsu.stqCount + 1 } := if_pos hroom
    rw [if_pos hroom, hrecord]
    refine ⟨?_, rfl⟩
    unfold LsuState.queue
    dsimp only
    congr 1
    exact Function.comp_update StoreQueueEntry.ref lsu.stq _ _
  · rw [if_neg hroom]
    exact ⟨(if_neg hroom).symm, rfl⟩

/-- A recorded load goes to the load queue. -/
theorem pushLoad_queue (lsu : LsuState) (r : AluResult) :
    (lsu.pushLoad r).queue false = (lsu.queue false).record (some r.memoryRef) ∧
      (lsu.pushLoad r).queue true = lsu.queue true := by
  unfold LsuState.pushLoad
  by_cases hroom : lsu.ldqCount < ldqDepth
  · have hrecord : (lsu.queue false).record (some r.memoryRef) =
        { lsu.queue false with
          cells := Function.update (lsu.queue false).cells lsu.ldqTail (some r.memoryRef)
          tail := (lsu.ldqTail + 1) % ldqDepth, count := lsu.ldqCount + 1 } := if_pos hroom
    rw [if_pos hroom, hrecord]
    refine ⟨?_, rfl⟩
    unfold LsuState.queue
    dsimp only
    congr 1
    exact Function.comp_update LoadQueueEntry.ref lsu.ldq _ _
  · rw [if_neg hroom]
    exact ⟨(if_neg hroom).symm, rfl⟩

/-- What the entry of a recorded memory operation shows. -/
theorem DispatchedSpec.recorded_ref {r : AluResult} (h : DispatchedSpec r)
    (hmemory : r.memoryValid = true) :
    r.recorded.ref store r.uop.queue.robIdx =
      if r.ofKind store then some r.memoryRef else none := by
  rw [h.memoryValid] at hmemory
  unfold AluResult.recorded
  by_cases hstore : r.isStore = true
  · have hload := h.isLoad_of_store hstore
    rw [if_pos hstore]
    cases store with
    | true => simp [AluResult.ofKind, hstore, RobEntry.ref, RobEntry.asStore, AluResult.entry,
        RobEntry.ofKind, AluResult.memoryRef]
    | false => simp [AluResult.ofKind, hload, RobEntry.ref, RobEntry.asStore, RobEntry.ofKind]
  · have hload : r.isLoad = true := by simpa [hstore] using hmemory
    rw [if_neg hstore]
    cases store with
    | true => simp [AluResult.ofKind, hstore, RobEntry.ref, RobEntry.asLoad, RobEntry.ofKind]
    | false => simp [AluResult.ofKind, hload, RobEntry.ref, RobEntry.asLoad, AluResult.entry,
        RobEntry.ofKind, AluResult.memoryRef]

theorem AluResult.entry_ref (r : AluResult) (i : ℕ) : r.entry.ref store i = none :=
  RobEntry.ref_of_not_recorded rfl

/-- The record of the previous result appends its reference to the list of its kind. -/
theorem enqueueResult_refs (h : WindowInv s w) (hhanded : Handed s w) :
    (enqueueResult s).rob.refs store =
        s.rob.refs store ++ (s.execute.aluResult.ref store).toList ∧
      (enqueueResult s).lsu.queue store =
        (s.lsu.queue store).record (s.execute.aluResult.ref store) := by
  by_cases hmemory : (s.execute.aluResult.valid && s.execute.aluResult.memoryValid) = true
  · obtain ⟨w', d, hw, hd, hentry, lsu, heq, -, -, -, -, hlsu⟩ :=
      enqueueResult_of_memory h hhanded hmemory
    have hk : w'.length < w.length := by simp [hw]
    have hof := h.rob.entryOf hk
    have hlast : w[w'.length] = d := by simp [hw]
    rw [hlast] at hof
    have hvalid := (Bool.and_eq_true_iff.mp hmemory).2
    have href : s.execute.aluResult.ref store =
        if d.result.ofKind store then some d.result.memoryRef else none := by
      rw [hd]
      unfold AluResult.ref
      rw [hmemory, Bool.true_and]
    have hrecorded : d.result.recorded.ref store d.result.uop.queue.robIdx =
        if d.result.ofKind store then some d.result.memoryRef else none :=
      hof.dispatched.recorded_ref (by rw [hd]; exact hvalid)
    rw [hof.robIdx] at hrecorded
    rw [heq, hlsu, href]
    refine ⟨?_, ?_⟩
    · by_cases hkind : d.result.ofKind store = true
      · rw [if_pos hkind] at hrecorded ⊢
        refine RobInternalState.refs_push (hk.trans_le h.rob.length_le) (fun j hj hlt ↦ ?_)
          hrecorded
        by_cases hlast' : j = w'.length
        · rw [hlast', hentry]
          exact AluResult.entry_ref _ _
        · refine RobEntry.ref_of_invalid (h.rob.outside _ (slot_lt (by decide) _) fun i hi heq ↦ ?_)
          have hij := (slot_inj (hi.trans_le h.rob.length_le) hlt).mp heq
          rw [hw, List.length_append, List.length_singleton] at hi
          omega
      · rw [if_neg hkind] at hrecorded ⊢
        rw [Option.toList_none, List.append_nil]
        refine RobInternalState.refs_update ?_
        rw [hrecorded, hentry, AluResult.entry_ref]
    · have hkind := hof.dispatched.memoryValid
      rw [hd, hvalid, ← hd] at hkind
      by_cases hstore : d.result.isStore = true
      · have hload := hof.dispatched.isLoad_of_store hstore
        obtain ⟨hsame, hother⟩ := pushStore_queue s.lsu d.result
        rw [if_pos hstore]
        cases store with
        | true => rw [show d.result.ofKind true = true from hstore, if_pos rfl]; exact hsame
        | false =>
          rw [show d.result.ofKind false = false from hload, if_neg Bool.false_ne_true]
          exact hother
      · have hload : d.result.isLoad = true := by simpa [hstore] using hkind.symm
        obtain ⟨hsame, hother⟩ := pushLoad_queue s.lsu d.result
        rw [if_neg hstore]
        cases store with
        | false => rw [show d.result.ofKind false = true from hload, if_pos rfl]; exact hsame
        | true =>
          rw [show d.result.ofKind true = false from Bool.eq_false_iff.mpr hstore,
            if_neg Bool.false_ne_true]
          exact hother
  · have hnone : s.execute.aluResult.ref store = none := by
      unfold AluResult.ref
      rw [if_neg]
      simp [hmemory]
    rw [enqueueResult_of_none (by simpa using hmemory), hnone]
    exact ⟨(List.append_nil _).symm, rfl⟩

/-- A step of the load/store unit appends the reference of the previous result. -/
theorem lsuModule_refs (h : WindowInv s w) (hhanded : Handed s w) (hflush : s.globalFlush = false)
    (pipe : PipeSignals) :
    (lsuModule s pipe).1.rob.refs store =
        s.rob.refs store ++ (s.execute.aluResult.ref store).toList ∧
      (lsuModule s pipe).1.lsu.queue store =
        (s.lsu.queue store).record (s.execute.aluResult.ref store) := by
  have hexecute : (s.afterResponse pipe.dmemResp.q.head?).execute = s.execute := by
    rw [← (takeDmemResponse_eq s pipe).1, takeDmemResponse_memoryOnly s pipe]
    rfl
  obtain ⟨hrefs, hqueue⟩ : (s.afterResponse pipe.dmemResp.q.head?).rob.refs store =
      s.rob.refs store ∧
      (s.afterResponse pipe.dmemResp.q.head?).lsu.queue store = s.lsu.queue store :=
    afterResponse_refs pipe.dmemResp.q.head?
  have hrecord : (enqueueResult (s.afterResponse pipe.dmemResp.q.head?)).rob.refs store = _ ∧
      (enqueueResult (s.afterResponse pipe.dmemResp.q.head?)).lsu.queue store = _ :=
    enqueueResult_refs (h.afterResponse pipe.dmemResp.q.head?)
      (hhanded.afterResponse pipe.dmemResp.q.head?)
  rw [hexecute, hrefs, hqueue] at hrecord
  rw [lsuModule_eq hflush]
  rcases issueLoadsFrom_cases (enqueueResult (s.afterResponse pipe.dmemResp.q.head?))
    (takeDmemResponse s pipe).2 robDepth 0 with heq | ⟨j, hj, hcan, heq⟩
  · rw [heq]
    exact hrecord
  · rw [heq, (tryIssueLoad_refs hcan).1, (tryIssueLoad_refs hcan).2]
    exact hrecord

end Memory

/-! ### A cycle -/

section Cycle

/-- Commit leaves the queues alone. -/
theorem robCommitModule_queue (s : BoomCoreState) (pipe : PipeSignals) (store : Bool) :
    (robCommitModule s pipe).1.lsu.queue store = s.lsu.queue store := by
  have hstage : ∀ s' : BoomCoreState,
      (commitStage s' pipe).1.lsu.queue store = s'.lsu.queue store := by
    intro s'
    rcases commitStage_cases s' pipe with heq | heq | heq | ⟨-, -, heq⟩
    · rw [heq]
    · rw [heq]
      unfold commitException
      split_ifs <;> rfl
    · rw [heq]
      rfl
    · rw [heq]
      cases store <;> rfl
  unfold robCommitModule
  dsimp only
  split_ifs
  · rfl
  · exact hstage _

variable {program : Program} {sys : System} {w : List Inflight} (h : SysInv sys w) (t : Tick)
  (n : ℕ) (store : Bool)

include h

/-- The load/store unit appends the reference of the previous result to both lists. -/
theorem SysInv.afterMemory_refs :
    (sys.afterMemory program t).1.rob.refs store =
        sys.core.rob.refs store ++ (sys.core.execute.aluResult.ref store).toList ∧
      (sys.afterMemory program t).1.lsu.queue store =
        (sys.core.lsu.queue store).record (sys.core.execute.aluResult.ref store) := by
  have heq := resolved_eq sys.core
  have hrob : (resolved sys.core).rob = sys.core.rob := by rw [heq]
  have hlsu : (resolved sys.core).lsu = sys.core.lsu := by rw [heq]
  have hexecute : (resolved sys.core).execute = sys.core.execute := by rw [heq]
  have hmodule : (lsuModule (resolved sys.core) (sys.ports program t)).1.rob.refs store = _ ∧
      (lsuModule (resolved sys.core) (sys.ports program t)).1.lsu.queue store = _ :=
    lsuModule_refs h.beforeMemory.1 h.beforeMemory.2 (resolved_globalFlush sys.core)
      (sys.ports program t)
  rw [hrob, hlsu, hexecute] at hmodule
  exact hmodule

/-- Nothing after the load/store unit changes the queues. -/
theorem SysInv.cycle_queue :
    (sys.cycle program t).core.lsu.queue store =
      (sys.core.lsu.queue store).record (sys.core.execute.aluResult.ref store) := by
  have hbefore : (sys.beforeCommit program t).lsu = (sys.afterMemory program t).1.lsu := by
    cases hacc : sys.accepted program t with
    | none => rw [h.step.beforeCommit_of_none t hacc]
    | some resp =>
      by_cases hfull : sys.core.rob.isFull = true
      · rw [h.step.beforeCommit_of_full t hacc hfull]
      · rw [h.step.beforeCommit_of_some t hacc (by simpa using hfull)]
  show (sys.coreStep program t).1.lsu.queue store = _
  rw [System.coreStep_eq, robCommitModule_queue, hbefore]
  exact (h.afterMemory_refs t store).2

/-- The entry of a new instruction shows nothing. -/
theorem SysInv.atCommit_refs :
    (sys.atCommit program t).rob.refs store = (sys.afterMemory program t).1.rob.refs store := by
  rcases System.idle_or_accepts program sys t with hidle | ⟨resp, hacc, hfull⟩
  · rw [(h.step.atCommit_idle t hidle).1]
    rfl
  · have hmem := (h.memory program t).1.rob
    have hroom := h.window.rob.length_lt hfull
    have htail : ((sys.afterMemory program t).1.rob.entries
        (sys.afterMemory program t).1.rob.tail).valid = false := by
      rw [hmem.tail]
      refine hmem.outside _ (slot_lt (by decide) _) fun k hk heq ↦ ?_
      have hkw := (slot_inj (hk.trans hroom) hroom).mp heq
      omega
    rw [(h.step.atCommit_some t hacc hfull h.tail_lt).1]
    refine (RobInternalState.refs_congr rfl fun i _ ↦ rfl).trans
      (RobInternalState.refs_update (j := (sys.afterMemory program t).1.rob.tail) ?_)
    rw [AluResult.entry_ref, RobEntry.ref_of_invalid htail]

omit h in
/-- What leaves at the head leaves the list of its kind. -/
theorem Popped.refs {s s' : BoomCoreState} (hpop : Popped s s') (hhead : s.rob.head < robDepth) :
    s.rob.refs store =
      ((s.rob.entries s.rob.head).ref store s.rob.head).toList ++ s'.rob.refs store := by
  unfold RobInternalState.refs
  rw [hpop.head]
  exact read_pop hhead (RobEntry.ref_of_invalid hpop.gone) fun i _ hi ↦ by rw [hpop.other i hi]

omit h in
/-- An entry that retires shows a reference of one kind if it is one of a memory operation, and none
otherwise. -/
theorem Retirable.refs {r : AluResult} {e : RobEntry} (hretire : Retirable r e) (i : ℕ) :
    (e.memoryValid = true ∧ ∃ store ref, e.ref store i = some ref ∧ e.ref (!store) i = none) ∨
      (e.memoryValid = false ∧ ∀ store, e.ref store i = none) := by
  cases hretire with
  | plain hcompletes hexc => exact Or.inr ⟨rfl, fun store ↦ AluResult.entry_ref r i⟩
  | load hload tx resp hexc =>
    refine Or.inl ⟨by rw [RobEntry.complete_memoryValid]; rfl, false,
      { robIdx := i, address := r.memoryAddress, size := r.memorySize }, ?_, ?_⟩
    · rw [RobEntry.ref_complete]
      rfl
    · rw [RobEntry.ref_complete]
      rfl
  | store hstore => exact Or.inl ⟨rfl, true, _, rfl, rfl⟩

omit h in
/-- Only a memory operation is ever recorded. -/
theorem Stage.not_recorded {r : AluResult} {e : RobEntry} (hstage : Stage r e)
    (hspec : DispatchedSpec r) (hmemory : r.memoryValid = false) : e.memoryValid = false := by
  rw [hspec.memoryValid, Bool.or_eq_false_iff] at hmemory
  cases hstage with
  | executed => rfl
  | stored hstore =>
    rw [hmemory.2] at hstore
    exact absurd hstore Bool.false_ne_true
  | _ hload =>
    rw [hmemory.1] at hload
    exact absurd hload Bool.false_ne_true

/-- The cycle commits a memory operation. -/
def System.CommitsMemory (program : Program) (sys : System) (t : Tick) : Prop :=
  (sys.cycle program t).core.rob.commitValid = true ∧
    (sys.cycle program t).core.rob.lastCommit.memoryValid = true

/-- The end of a cycle without a redirect: a memory operation retires and leaves the list of its
kind, or both lists stay. -/
theorem SysInv.cycle_refs (hredirects : sys.core.execute.aluResult.redirects = false) :
    (sys.CommitsMemory program t ∧ ∃ store r, (sys.afterMemory program t).1.rob.refs store =
          r :: (sys.cycle program t).core.rob.refs store ∧
        (sys.afterMemory program t).1.rob.refs (!store) =
          (sys.cycle program t).core.rob.refs (!store)) ∨
      (¬ sys.CommitsMemory program t ∧ ∀ store, (sys.afterMemory program t).1.rob.refs store =
        (sys.cycle program t).core.rob.refs store) := by
  have hcore : (sys.cycle program t).core = (sys.coreStep program t).1 := rfl
  have hwin := (h.atCommit program t 0).1
  simp only [← h.atCommit_refs t]
  by_cases hvalid : (sys.cycle program t).core.rob.commitValid = true
  · obtain ⟨d, w', hretires⟩ := h.retires t 0 hvalid
    have hpop := fun store ↦ hretires.popped.refs store hwin.rob.head_lt
    have hrecord : (sys.cycle program t).core.rob.lastCommit.memoryValid =
        ((sys.atCommit program t).rob.entries (sys.atCommit program t).rob.head).memoryValid := by
      rw [hretires.record]
      rfl
    unfold System.CommitsMemory
    rw [hrecord]
    rcases hretires.retirable.refs (sys.atCommit program t).rob.head with
      ⟨hmemory, store, ref, href, hother⟩ | ⟨hmemory, hnone⟩
    · refine Or.inl ⟨⟨hvalid, hmemory⟩, store, ref, ?_, ?_⟩
      · rw [hpop store, href]
        rfl
      · rw [hpop (!store), hother]
        rfl
    · refine Or.inr ⟨fun hcontra ↦ ?_, fun store ↦ ?_⟩
      · rw [hmemory] at hcontra
        exact Bool.false_ne_true hcontra.2
      · rw [hpop store, hnone store]
        rfl
  · refine Or.inr ⟨fun hcontra ↦ hvalid hcontra.1, fun store ↦ ?_⟩
    have houtcome := h.outcome program t 0 hredirects
    generalize hout : sys.coreStep program t = out at hcore houtcome
    cases houtcome with
    | stall => rw [hcore]
    | exception d w' hw hstage hbusy hexc =>
      by_cases hecall : ((sys.atCommit program t).rob.entries
          (sys.atCommit program t).rob.head).uop.uopc = .ecall
      · have hof := hwin.rob.entries
        rw [hw] at hof
        have hspec := (hof.head_cell hwin.rob.head_lt).dispatched
        have hpop := (commitException_popped hecall).refs store hwin.rob.head_lt
        have hnone := hstage.not_recorded hspec (hstage.not_memory_of_ecall hspec hecall)
        rw [RobEntry.ref_of_not_recorded hnone] at hpop
        rw [hcore]
        exact hpop
      · rw [hcore]
        unfold commitException
        rw [if_neg hecall]
        rfl
    | store =>
      rw [hcore] at hvalid
      exact absurd rfl hvalid
    | retire =>
      rw [hcore] at hvalid
      exact absurd rfl hvalid

end Cycle

end BoomCore
