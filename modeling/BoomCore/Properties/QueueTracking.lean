import BoomCore.Proof.MemoryQueues

/-!
# What the load queue and the store queue track

A queue tracks the memory operations in flight when it holds their references, the oldest one first,
and nothing else (`QueuesTrack`). The load/store unit appends every operation that it records as
long as there is room, and removes none: `clear_lsu_queues` waits for a flush flag that is clear
whenever the unit runs. So the queues track what is in flight up to the first step that commits or
squashes a memory operation, or records one that finds no room (`queuesTrack_iff`).
-/

set_option autoImplicit false
set_option relaxedAutoImplicit false

namespace BoomCore

open Ring

/-! ### Statements -/

/-- From its head to its tail the queue holds the references, in order, and its other entries are
invalid. -/
def MemoryQueue.Holds (q : MemoryQueue) (refs : List MemoryRef) : Prop :=
  Queue q.depth q.cells q.head q.tail q.count refs

/-- The load queue and the store queue hold the recorded loads and stores that are in flight. -/
def QueuesTrack (s : BoomCoreState) : Prop :=
  ∀ store, (s.lsu.queue store).Holds (s.rob.refs store)

/-- In the cycle no memory operation commits, a redirect squashes none, and one that is recorded
finds room in its queue. -/
structure KeepsQueues (program : Program) (sys : System) (t : Tick) : Prop where
  noCommit : ¬ sys.CommitsMemory program t
  noSquash : sys.core.execute.aluResult.redirects = true → ∀ store, sys.core.rob.refs store = []
  room : ∀ store, sys.core.execute.aluResult.ref store ≠ none →
    (sys.core.lsu.queue store).count < (sys.core.lsu.queue store).depth

/-! ### One record -/

section Record

variable {q : MemoryQueue} {refs refs' : List MemoryRef} {r : MemoryRef}

theorem MemoryQueue.record_of_room (hroom : q.count < q.depth) :
    q.record (some r) =
      { q with
        cells := Function.update q.cells q.tail (some r)
        tail := (q.tail + 1) % q.depth, count := q.count + 1 } := if_pos hroom

theorem MemoryQueue.record_of_full (hfull : ¬ q.count < q.depth) : q.record (some r) = q :=
  if_neg hfull

theorem MemoryQueue.Holds.record (h : q.Holds refs) (hroom : q.count < q.depth) :
    (q.record (some r)).Holds (refs ++ [r]) := by
  rw [record_of_room hroom]
  exact h.push hroom r

/-- Assumes: after the record the queue holds the references that were in flight and the new one. It
had room. -/
theorem MemoryQueue.Holds.room (h : q.Holds refs) (h' : (q.record (some r)).Holds (refs ++ [r])) :
    q.count < q.depth := by
  by_contra hfull
  rw [record_of_full hfull] at h'
  have heq := congrArg List.length (h.unique h')
  rw [List.length_append, List.length_singleton] at heq
  omega

/-- A reference that leaves stays in the queue. -/
theorem MemoryQueue.Holds.not_left {new : Option MemoryRef} (hdepth : 0 < q.depth)
    (h : q.Holds refs) (h' : (q.record new).Holds refs') (hleft : refs ++ new.toList = r :: refs')
    (hnodup : (r :: refs').Nodup) : False := by
  cases new with
  | none =>
    rw [h.unique h', Option.toList_none, List.append_nil] at hleft
    exact List.ne_cons_self hleft
  | some a =>
    rw [Option.toList_some] at hleft
    by_cases hroom : q.count < q.depth
    · rw [(h.record hroom).unique h'] at hleft
      exact List.ne_cons_self hleft
    · rw [record_of_full hroom] at h'
      rw [← h.unique h'] at hleft hnodup
      -- The full queue still starts with the reference that has left.
      cases refs with
      | nil => exact hroom (by rw [h.count_eq]; exact hdepth)
      | cons b l =>
        rw [List.cons_append, List.cons.injEq] at hleft
        rw [hleft.1] at hnodup
        exact (List.nodup_cons.mp hnodup).1 List.mem_cons_self

end Record

/-! ### One cycle -/

theorem queue_depth_pos (lsu : LsuState) (store : Bool) : 0 < (lsu.queue store).depth := by
  cases store <;> exact Nat.succ_pos 7

section Cycle

variable {program : Program} {sys : System} {w : List Inflight} (h : SysInv sys w) (t : Tick)

include h

/-- In the cycle of a redirect nothing is recorded or committed, and nothing is in flight
afterwards. -/
theorem SysInv.redirect_refs (hredirects : sys.core.execute.aluResult.redirects = true) :
    ¬ sys.CommitsMemory program t ∧ ∀ store, sys.core.execute.aluResult.ref store = none ∧
      (sys.cycle program t).core.rob.refs store = [] := by
  have hrob : RobInv (sys.cycle program t).core.rob [] := by
    have hwindow := (h.cycle t 0 : SysInv (sys.cycle program t) _).window.rob
    unfold System.windowStep at hwindow
    rw [if_pos hredirects] at hwindow
    exact hwindow
  refine ⟨fun hcommit ↦ ?_, fun store ↦ ⟨?_, ?_⟩⟩
  · have hvalid := hcommit.1
    rw [show (sys.cycle program t).core = (sys.coreStep program t).1 from rfl,
      h.step.coreStep_of_redirects program t hredirects] at hvalid
    exact Bool.false_ne_true hvalid
  · unfold AluResult.ref
    rw [if_neg]
    intro hmemory
    simp only [Bool.and_eq_true] at hmemory
    obtain ⟨w', d, hw, hd, -⟩ := h.handed.last hmemory.1.1 hmemory.1.2
    have hmem : d ∈ w := hw ▸ List.mem_append_right _ (List.mem_singleton_self d)
    have hspec := (h.window.rob.entryOf_mem hmem).dispatched
    rw [hd] at hspec
    have hcompletes := (hspec.control hredirects).2
    unfold AluResult.completesInRob at hcompletes
    rw [hmemory.1.2] at hcompletes
    simp at hcompletes
  · exact read_nil (by decide) fun i hi ↦ RobEntry.ref_of_invalid
      (hrob.outside i hi fun k hk ↦ absurd hk (Nat.not_lt_zero k))

/-- Assumes: the queues track what is in flight. They do so after the cycle exactly when the cycle
keeps them. -/
theorem SysInv.queuesTrack_cycle (htrack : QueuesTrack sys.core) :
    QueuesTrack (sys.cycle program t).core ↔ KeepsQueues program sys t := by
  have hqueue : ∀ store, (sys.cycle program t).core.lsu.queue store =
      (sys.core.lsu.queue store).record (sys.core.execute.aluResult.ref store) := h.cycle_queue t
  have hmemory : ∀ store, (sys.afterMemory program t).1.rob.refs store =
      sys.core.rob.refs store ++ (sys.core.execute.aluResult.ref store).toList :=
    fun store ↦ (h.afterMemory_refs t store).1
  by_cases hredirects : sys.core.execute.aluResult.redirects = true
  · obtain ⟨hcommit, hrefs⟩ := h.redirect_refs t hredirects
    have hiff : ∀ store, ((sys.cycle program t).core.lsu.queue store).Holds
        ((sys.cycle program t).core.rob.refs store) ↔ sys.core.rob.refs store = [] := by
      intro store
      rw [hqueue, (hrefs store).1, (hrefs store).2]
      refine ⟨fun hempty ↦ (htrack store).unique hempty, fun hnil ↦ ?_⟩
      have hold := htrack store
      rw [hnil] at hold
      exact hold
    refine ⟨fun hnext ↦ ⟨hcommit, fun _ store ↦ (hiff store).mp (hnext store), fun store hne ↦ ?_⟩,
      fun hkeeps store ↦ (hiff store).mpr (hkeeps.noSquash hredirects store)⟩
    exact absurd (hrefs store).1 hne
  · have hquiet : sys.core.execute.aluResult.redirects = false := by simpa using hredirects
    rcases h.cycle_refs t hquiet with
      ⟨hcommit, store, r, hleft, -⟩ | ⟨hcommit, hsame⟩
    · refine ⟨fun hnext ↦ ?_, fun hkeeps ↦ absurd hcommit hkeeps.noCommit⟩
      have hnodup := (sys.afterMemory program t).1.rob.refs_nodup store
      have hholds := hnext store
      rw [hqueue] at hholds
      rw [hleft] at hnodup
      exact ((htrack store).not_left (queue_depth_pos _ store) hholds
        ((hmemory store).symm.trans hleft) hnodup).elim
    · have hrefs : ∀ store, (sys.cycle program t).core.rob.refs store =
          sys.core.rob.refs store ++ (sys.core.execute.aluResult.ref store).toList :=
        fun store ↦ (hsame store).symm.trans (hmemory store)
      have hiff : ∀ store, ((sys.cycle program t).core.lsu.queue store).Holds
          ((sys.cycle program t).core.rob.refs store) ↔
            (sys.core.execute.aluResult.ref store ≠ none →
              (sys.core.lsu.queue store).count < (sys.core.lsu.queue store).depth) := by
        intro store
        rw [hqueue, hrefs]
        cases hnew : sys.core.execute.aluResult.ref store with
        | none =>
          rw [Option.toList_none, List.append_nil]
          exact ⟨fun _ hne ↦ absurd rfl hne, fun _ ↦ htrack store⟩
        | some r =>
          exact ⟨fun hnext _ ↦ (htrack store).room hnext,
            fun hroom ↦ (htrack store).record (hroom (Option.some_ne_none r))⟩
      refine ⟨fun hnext ↦ ⟨hcommit, fun hcontra ↦ absurd hcontra hredirects,
        fun store ↦ (hiff store).mp (hnext store)⟩,
        fun hkeeps store ↦ (hiff store).mpr (hkeeps.room store)⟩

end Cycle

/-! ### Every run -/

theorem queuesTrack_init : QueuesTrack {} := by
  intro store
  have hrefs : RobInternalState.refs {} store = [] :=
    read_nil (by decide) fun i _ ↦ RobEntry.ref_of_invalid rfl
  show MemoryQueue.Holds _ (RobInternalState.refs {} store)
  rw [hrefs]
  cases store <;> exact Queue.empty (Nat.succ_pos 7) fun i _ ↦ rfl

/-- For every program and every timing: the queues track what is in flight in every state up to
cycle `N` exactly when every cycle before keeps them. -/
theorem queuesTrack_iff (program : Program) (tick : ℕ → Tick) (N : ℕ) :
    (∀ n ≤ N, QueuesTrack (System.run program tick n).core) ↔
      ∀ n < N, KeepsQueues program (System.run program tick n) (tick n) := by
  constructor
  · intro htrack n hn
    exact ((sysInv_run program tick n).queuesTrack_cycle (tick n) (htrack n hn.le)).mp
      (htrack (n + 1) hn)
  · intro hkeeps n hn
    induction n with
    | zero => exact queuesTrack_init
    | succ n ih =>
      exact ((sysInv_run program tick n).queuesTrack_cycle (tick n) (ih (by omega))).mpr
        (hkeeps n hn)

/-- `SD x0, 0(x0)`, and `ADDI x0, x0, 0` behind it. -/
def storeThenNops : Program := .ofWords [0x00003023#32] 0x00000013#32

/-- A store that has committed stays in the store queue. -/
theorem committed_store_stays :
    ¬∀ (program : Program) (tick : ℕ → Tick) (n : ℕ),
      QueuesTrack (System.run program tick n).core := by
  intro hall
  have hcount := (hall storeThenNops (fun _ ↦ .fetch) 3 true).count_eq
  revert hcount
  decide +kernel

end BoomCore
