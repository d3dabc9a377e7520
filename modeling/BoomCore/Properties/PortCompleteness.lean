import BoomCore.Proof.Ports
import BoomCore.Run.Top

/-!
# Nothing is lost at the ports

An iteration of `CORE_CYCLE` moves at most one element of each output stream to its port, and the
core writes at most one (`boomCoreStep_writes`). So the streams are empty whenever an iteration
ends, no test for a full stream ever succeeds, and what is written to the ports is what the core
produced (`ports_complete`).
-/

set_option autoImplicit false
set_option relaxedAutoImplicit false

namespace BoomCore

open BoomCoreTop

/-! ### Statements -/

/-- One of the streams that the core writes is full. -/
def PipeSignals.anyFull (pipe : PipeSignals) : Bool :=
  pipe.imemReq.full || pipe.dmemReq.full || pipe.commitTrace.full

/-- The streams that the core writes are empty. -/
structure PipeSignals.Drained (pipe : PipeSignals) : Prop where
  imemReq : pipe.imemReq.q = []
  dmemReq : pipe.dmemReq.q = []
  commitTrace : pipe.commitTrace.q = []

/-- Iteration `n`: the core writes at most one element to each stream, and a load request and a
store request never together; wherever it tests whether a stream is full, none is; and the streams
are empty at the end. -/
structure CompleteIteration (arrivals : ℕ → Arrivals) (n : ℕ) : Prop where
  imemReq : (imemRequests arrivals n).length ≤ 1
  dmemReq : (dmemRequests arrivals n).length ≤ 1
  commitTrace : (started arrivals n).coreStep.2.commitTrace.q.length ≤ 1
  notBoth : ∀ req ∈ dmemRequests arrivals n, ∀ req' ∈ dmemRequests arrivals n,
    req.isStore = req'.isStore
  loadTests : (started arrivals n).pulled.anyFull = false
  fetchTests :
    (memoryPhase (started arrivals n).state (started arrivals n).pulled).2.anyFull = false
  commitTests :
    (fetchPhase (started arrivals n).state (started arrivals n).pulled).2.anyFull = false
  drained : (run arrivals (n + 1)).pipe.Drained

/-! ### Streams of at most one element -/

section Streams

variable {α : Type} {s : Stream α} (h : s = {} ∨ ∃ v, s = ({} : Stream α).write v)

include h

theorem Stream.drain_of_one (sink : Stream α) :
    (s.drain sink).1 = {} ∧ (s.drain sink).2.q = sink.q ++ s.q := by
  rcases h with rfl | ⟨v, rfl⟩
  · exact ⟨rfl, (List.append_nil _).symm⟩
  · exact ⟨rfl, rfl⟩

theorem Stream.length_of_one : s.q.length ≤ 1 := by
  rcases h with rfl | ⟨v, rfl⟩
  · exact Nat.zero_le 1
  · exact Nat.le_refl 1

theorem Stream.not_full_of_one : s.full = false := by
  rcases h with rfl | ⟨v, rfl⟩ <;> rfl

theorem Stream.eq_of_one {v v' : α} (hv : v ∈ s.q) (hv' : v' ∈ s.q) : v = v' := by
  rcases h with rfl | ⟨u, rfl⟩
  · exact absurd hv List.not_mem_nil
  · rw [show (({} : Stream α).write u).q = [u] from rfl, List.mem_singleton] at hv hv'
    rw [hv, hv']

end Streams

/-! ### Iterations -/

/-- Between two iterations recorded stores are marked and the streams that the core writes are as at
reset. -/
structure TopInv (top : BoomCoreTop) : Prop where
  marked : StoresMarked top.state
  imemReq : top.pipe.imemReq = {}
  dmemReq : top.pipe.dmemReq = {}
  commitTrace : top.pipe.commitTrace = {}

theorem topInv_init : TopInv {} := ⟨storesMarked_init, rfl, rfl, rfl⟩

section Iteration

variable {top : BoomCoreTop} (h : TopInv top)

include h

/-- What arrives plays no part. -/
theorem TopInv.arrive (a : Arrivals) : TopInv (top.arrive a) :=
  ⟨h.marked, h.imemReq, h.dmemReq, h.commitTrace⟩

/-- Every stream that the core writes in the iteration holds at most one element, after the
load/store unit, after the frontend and at the end. -/
theorem TopInv.streams :
    ((top.coreStep.2.imemReq = {} ∨ ∃ req, top.coreStep.2.imemReq = ({} : Stream _).write req) ∧
      (top.coreStep.2.dmemReq = {} ∨ ∃ req, top.coreStep.2.dmemReq = ({} : Stream _).write req)) ∧
    top.coreStep.2.commitTrace =
      (if top.coreStep.1.rob.commitValid then
        ({} : Stream _).write top.coreStep.1.rob.lastCommit else {}) := by
  obtain ⟨-, hwrites⟩ := boomCoreStep_writes h.marked top.pulled
  have himem := hwrites.imemReq
  have hdmem := hwrites.dmemReq
  have htrace := hwrites.commitTrace
  unfold WritesRecord at htrace
  rw [show top.pulled.imemReq = {} from h.imemReq] at himem
  rw [show top.pulled.dmemReq = {} from h.dmemReq] at hdmem
  rw [show top.pulled.commitTrace = {} from h.commitTrace,
    show (({} : Stream CommitEntry).full) = false from rfl, Bool.not_false, Bool.and_true] at htrace
  exact ⟨⟨himem, hdmem⟩, htrace⟩

theorem TopInv.traceStream : top.coreStep.2.commitTrace = {} ∨
    ∃ ce, top.coreStep.2.commitTrace = ({} : Stream _).write ce := by
  rw [h.streams.2]
  split_ifs
  · exact Or.inr ⟨_, rfl⟩
  · exact Or.inl rfl

/-- The invariant holds after the iteration, and what the core wrote is on the ports. -/
theorem TopInv.coreCycle : TopInv top.coreCycle ∧
    top.coreCycle.ports.imemReqOut.q = top.ports.imemReqOut.q ++ top.coreStep.2.imemReq.q ∧
    top.coreCycle.ports.dmemReqOut.q = top.ports.dmemReqOut.q ++ top.coreStep.2.dmemReq.q ∧
    top.coreCycle.ports.commitTraceOut.q =
      top.ports.commitTraceOut.q ++ top.coreStep.2.commitTrace.q := by
  obtain ⟨⟨himem, hdmem⟩, -⟩ := h.streams
  have htrace := h.traceStream
  have hfetch := Stream.drain_of_one himem top.ports.imemReqOut
  have hdata := Stream.drain_of_one hdmem top.ports.dmemReqOut
  have hcommit := Stream.drain_of_one htrace top.ports.commitTraceOut
  exact ⟨⟨(boomCoreStep_writes h.marked top.pulled).1, hfetch.1, hdata.1, hcommit.1⟩, hfetch.2,
    hdata.2, hcommit.2⟩

/-- No stream is full where the core looks. -/
theorem TopInv.tests : top.pulled.anyFull = false ∧
    (memoryPhase top.state top.pulled).2.anyFull = false ∧
      (fetchPhase top.state top.pulled).2.anyFull = false := by
  have hdata : DataOnly top.pulled (memoryPhase top.state top.pulled).2 := lsuModule_dataOnly _ _
  have himem : (memoryPhase top.state top.pulled).2.imemReq = {} := by
    rw [hdata]
    exact h.imemReq
  have htrace : (memoryPhase top.state top.pulled).2.commitTrace = {} := by
    rw [hdata]
    exact h.commitTrace
  have hdmem : (memoryPhase top.state top.pulled).2.dmemReq = {} ∨
      ∃ req, (memoryPhase top.state top.pulled).2.dmemReq = ({} : Stream _).write req := by
    rw [← show top.pulled.dmemReq = {} from h.dmemReq]
    exact (h.marked.fetchPhase top.pulled).2.2.2.2.imp_right And.right
  have hframe := frontendModule_frame (memoryPhase top.state top.pulled).1
    (memoryPhase top.state top.pulled).2
  have hfetch := frontendModule_imemReq (memoryPhase top.state top.pulled).1
    (memoryPhase top.state top.pulled).2
  rw [himem] at hfetch
  refine ⟨?_, ?_, ?_⟩
  · unfold PipeSignals.anyFull
    rw [show top.pulled.imemReq = {} from h.imemReq, show top.pulled.dmemReq = {} from h.dmemReq,
      show top.pulled.commitTrace = {} from h.commitTrace]
    rfl
  · unfold PipeSignals.anyFull
    rw [himem, htrace, Stream.not_full_of_one hdmem]
    rfl
  · have hdmem' : (fetchPhase top.state top.pulled).2.dmemReq =
        (memoryPhase top.state top.pulled).2.dmemReq := hframe.2.1
    have htrace' : (fetchPhase top.state top.pulled).2.commitTrace = {} := hframe.2.2.trans htrace
    have hfull : (fetchPhase top.state top.pulled).2.imemReq.full = false :=
      Stream.not_full_of_one hfetch
    unfold PipeSignals.anyFull
    rw [hfull, hdmem', Stream.not_full_of_one hdmem, htrace']
    rfl

end Iteration

/-! ### Runs -/

theorem topInv_run (arrivals : ℕ → Arrivals) (n : ℕ) : TopInv (run arrivals n) :=
  Run.invariant topInv_init (fun _ a htop ↦ (htop.arrive a).coreCycle.1) n

/-- For every sequence of responses at the input ports and every number of iterations: every
iteration is complete, and the output ports carry, in order and without loss, the requests and the
records that the core produced. -/
theorem ports_complete (arrivals : ℕ → Arrivals) (n : ℕ) :
    CompleteIteration arrivals n ∧
      (run arrivals n).ports.imemReqOut.q = Run.outputs (imemRequests arrivals) n ∧
      (run arrivals n).ports.dmemReqOut.q = Run.outputs (dmemRequests arrivals) n ∧
      (run arrivals n).ports.commitTraceOut.q = Run.outputs (commitRecords arrivals) n := by
  have hstart : ∀ k, TopInv (started arrivals k) :=
    fun k ↦ (topInv_run arrivals k).arrive (arrivals k)
  refine ⟨?_, ?_⟩
  · obtain ⟨⟨himem, hdmem⟩, -⟩ := (hstart n).streams
    obtain ⟨hload, hfetch, hcommit⟩ := (hstart n).tests
    have hnext := topInv_run arrivals (n + 1)
    exact ⟨Stream.length_of_one himem, Stream.length_of_one hdmem,
      Stream.length_of_one (hstart n).traceStream,
      fun req hreq req' hreq' ↦ by rw [Stream.eq_of_one hdmem hreq hreq'], hload, hfetch, hcommit,
      ⟨by rw [hnext.imemReq], by rw [hnext.dmemReq], by rw [hnext.commitTrace]⟩⟩
  · induction n with
    | zero => exact ⟨rfl, rfl, rfl⟩
    | succ n ih =>
      obtain ⟨-, himem, hdmem, htrace⟩ := (hstart n).coreCycle
      obtain ⟨ihFetch, ihData, ihCommit⟩ := ih
      rw [Run.outputs_succ, Run.outputs_succ, Run.outputs_succ, ← ihFetch, ← ihData, ← ihCommit,
        run_succ]
      refine ⟨himem, hdmem, htrace.trans (congrArg _ ?_)⟩
      have hrecord := (hstart n).streams.2
      show (started arrivals n).coreStep.2.commitTrace.q =
        if (started arrivals n).coreStep.1.rob.commitValid then
          [(started arrivals n).coreStep.1.rob.lastCommit] else []
      rw [show (started arrivals n).coreStep.2.commitTrace = _ from hrecord]
      split_ifs <;> rfl

end BoomCore
