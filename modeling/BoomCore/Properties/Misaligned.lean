import BoomCore.Properties.LoadProtocol
import BoomCore.Properties.MemoryOrder

/-!
# Loads across the boundary of a beat

The core runs against the data memory of `Run.Memory`. A store is sent with its own address and
reaches every byte of it, but a load is answered with the one beat that contains its address, and
the load/store unit takes the bytes behind that beat for zero. It raises no exception, so a load is
right exactly when these bytes are zero in the memory that it reads (`handlesLoad_iff`).
-/

set_option autoImplicit false
set_option relaxedAutoImplicit false

namespace BoomCore

section Statements

variable (program : Program) (memory : ByteMemory 64) (mtick : ℕ → MemoryTick)

/-- The core before cycle `n`. -/
def coreBefore (n : ℕ) : BoomCoreState := (MemorySystem.run program memory mtick n).sys.core

/-- The core in cycle `n` after the load/store unit has taken the response. -/
def coreAnswered (n : ℕ) : BoomCoreState :=
  (MemorySystem.run program memory mtick n).sys.afterDmemResponse program
    (MemorySystem.ticks program memory mtick n)

/-- The response of cycle `n` completes the load in cell `i`, which has a destination. -/
structure CompletesInto (n i : ℕ) : Prop where
  changed : (coreAnswered program memory mtick n).rob.entries i ≠
    (coreBefore program memory mtick n).rob.entries i
  dest : ((coreBefore program memory mtick n).rob.entries i).uop.rename.pdst ≠ 0

/-- The destination gets the bytes of the load, extended by its kind, as they are after the stores
that committed before; or the load raises an exception and no register is written. -/
def HandlesLoad (n i : ℕ) : Prop :=
  (coreAnswered program memory mtick n).intRf
      ((coreBefore program memory mtick n).rob.entries i).uop.rename.pdst =
    loadResult (committedMemory program memory mtick n)
      ((coreBefore program memory mtick n).rob.entries i).memoryAddress
      (funct3Of ((coreBefore program memory mtick n).rob.entries i).uop.inst % 4)
      (decide (funct3Of ((coreBefore program memory mtick n).rob.entries i).uop.inst < 4)) ∨
  (((coreAnswered program memory mtick n).rob.entries i).exception = true ∧
    (coreAnswered program memory mtick n).intRf = (coreBefore program memory mtick n).intRf)

/-- The bytes of the load in cell `i` behind the beat of its address are zero. -/
def BeyondBeatZero (n i : ℕ) : Prop :=
  beyondBeat (committedMemory program memory mtick n)
    ((coreBefore program memory mtick n).rob.entries i).memoryAddress
    (funct3Of ((coreBefore program memory mtick n).rob.entries i).uop.inst % 4) = 0

end Statements

/-! ### The response -/

/-- Assumes: an answer of the memory is for the load that waits, which has a destination. The load
takes its value from the beat in the committed memory, without exception. -/
theorem MemoryInv.answered_value {s : BoomCoreState} {committed memory : ByteMemory 64}
    {queue : List DmemRequest} {answers : List DmemResponse} {w : List Inflight}
    (h : MemoryInv s committed memory queue answers) (hwin : WindowInv s w) {j : ℕ}
    {resp : DmemResponse} (hj : answers[j]? = some resp) (hanswers : s.answers resp = true)
    {e : RobEntry} (he : s.rob.entries s.lsu.pendingLoadRobIdx = e)
    (hdest : e.uop.rename.pdst ≠ 0) :
    ((BoomCore.handleResponse s resp).rob.entries s.lsu.pendingLoadRobIdx).exception = false ∧
      (BoomCore.handleResponse s resp).intRf e.uop.rename.pdst =
        loadValue (beat committed e.memoryAddress) e.memoryAddress (funct3Of e.uop.inst % 4)
          (decide (funct3Of e.uop.inst < 4)) := by
  obtain ⟨-, -, -, hexc, hdata⟩ := h.delivered hj
  have hwaits : s.waiting = true := by
    unfold BoomCoreState.answers LsuState.matchesPending at hanswers
    unfold BoomCoreState.waiting
    simp only [Bool.and_eq_true] at hanswers ⊢
    exact ⟨hanswers.1.1, hanswers.2⟩
  have hbeat := h.waitingAnswer hwaits resp (List.mem_of_getElem? hj)
  obtain ⟨k, hk, -, hload, tx, hentry⟩ := hwin.answered_load hanswers
  have hspec := (hwin.rob.entryOf hk).dispatched
  obtain ⟨hsize, hsigned⟩ := hspec.loadSize hload
  have hdecoded : w[k].result.uop.exception = false := by
    rw [hspec.load, Bool.and_eq_true, Bool.not_eq_true'] at hload
    exact hload.2
  rw [he] at hbeat hentry
  rw [handleResponse_of_answers hanswers]
  dsimp only
  rw [he, Function.update_self, RobEntry.complete_exception, hexc, Bool.false_or, Bool.not_false,
    Bool.true_and, if_pos (decide_eq_true hdest), Function.update_self]
  unfold RobEntry.responseValue
  rw [hdata, ite_self, hbeat]
  have hfields : e.exception = w[k].result.uop.exception ∧
      e.memorySize = funct3Of e.uop.inst % 4 ∧
        e.signedLoad = decide (funct3Of e.uop.inst < 4) := by
    rw [hentry]
    exact ⟨rfl, hsize, hsigned⟩
  rw [hfields.1, hfields.2.1, hfields.2.2]
  exact ⟨hdecoded, rfl⟩

section Runs

variable {program : Program} {memory : ByteMemory 64} {mtick : ℕ → MemoryTick}

/-- Assumes: a response of cycle `n` completes the load in cell `i`. It carries the beat of the load
in the committed memory; the load takes its value from it, without exception. -/
theorem CompletesInto.value {n i : ℕ} (h : CompletesInto program memory mtick n i) :
    ((coreAnswered program memory mtick n).rob.entries i).exception = false ∧
      (coreAnswered program memory mtick n).intRf
          ((coreBefore program memory mtick n).rob.entries i).uop.rename.pdst =
        loadValue (beat (committedMemory program memory mtick n)
            ((coreBefore program memory mtick n).rob.entries i).memoryAddress)
          ((coreBefore program memory mtick n).rob.entries i).memoryAddress
          (funct3Of ((coreBefore program memory mtick n).rob.entries i).uop.inst % 4)
          (decide (funct3Of ((coreBefore program memory mtick n).rob.entries i).uop.inst < 4)) := by
  have hinv := sysInv_memoryRun program memory mtick n
  have hmem := (memoryInv_run program memory mtick n).process (mtick n).processed
  have hchanged := h.changed
  have hdest := h.dest
  have hrob : (resolved (coreBefore program memory mtick n)).rob =
      (coreBefore program memory mtick n).rob := by rw [resolved_eq]
  have hlsu : (resolved (coreBefore program memory mtick n)).lsu =
      (coreBefore program memory mtick n).lsu := by rw [resolved_eq]
  have hafter : coreAnswered program memory mtick n =
      (resolved (coreBefore program memory mtick n)).afterResponse
        (MemorySystem.ticks program memory mtick n).dmemResp := System.afterDmemResponse_eq _ _ _
  rw [hafter] at hchanged ⊢
  cases hresp : (MemorySystem.ticks program memory mtick n).dmemResp with
  | none =>
    rw [hresp, ← hrob] at hchanged
    exact absurd rfl hchanged
  | some resp =>
    rw [hresp, ← hrob] at hchanged
    obtain ⟨hanswers, rfl⟩ := afterResponse_entry_ne hchanged
    obtain ⟨j, hj⟩ : ∃ j, ((MemorySystem.run program memory mtick n).process
        (mtick n).processed).answers[j]? = some resp := by
      obtain ⟨j, -, hj⟩ := Option.bind_eq_some_iff.mp hresp
      exact ⟨j, hj⟩
    have hmem' : MemoryInv (resolved (coreBefore program memory mtick n)) _ _ _ _ :=
      hmem.congr hinv.window.lsu.idx_lt (congrArg _ hlsu) (congrArg _ hlsu) (congrArg _ hlsu)
        (by rw [hrob]; exact fun _ _ _ ↦ rfl)
    exact hmem'.answered_value hinv.beforeMemory.1 hj hanswers (by rw [hrob]) hdest

/-- Assumes: the response of cycle `n` completes the load in cell `i`, which has a destination. The
load is handled exactly when its bytes behind the beat are zero. -/
theorem handlesLoad_iff (n i : ℕ) (h : CompletesInto program memory mtick n i) :
    HandlesLoad program memory mtick n i ↔ BeyondBeatZero program memory mtick n i := by
  obtain ⟨hexc, hvalue⟩ := h.value
  unfold HandlesLoad BeyondBeatZero
  rw [hvalue, hexc]
  refine (or_iff_left fun hcontra ↦ absurd hcontra.1 Bool.false_ne_true).trans ?_
  exact loadValue_eq_result_iff _ _ _ (Nat.mod_lt _ (by decide))

end Runs

/-! ### A load behind a store of the same eight bytes -/

/-- `ADDI x1, x0, -1`, `SD x1, 1(x0)`, `LD x2, 1(x0)`, then `NOP`s. -/
def storeThenLoadAcross : Program :=
  .ofWords [0xFFF00093#32, 0x001030A3#32, 0x00103103#32] 0x00000013#32

theorem storeThenLoadAcross_completes :
    CompletesInto storeThenLoadAcross (fun _ ↦ 0) (fun _ ↦ promptTick) 7 2 :=
  ⟨by decide +kernel, by decide +kernel⟩

/-- The load gets seven of the bytes that the store has written, and a zero. -/
theorem load_across_beat_truncated :
    ¬∀ (program : Program) (memory : ByteMemory 64) (mtick : ℕ → MemoryTick) (n i : ℕ),
      CompletesInto program memory mtick n i → HandlesLoad program memory mtick n i := by
  intro hall
  rcases hall _ _ _ 7 2 storeThenLoadAcross_completes with hvalue | ⟨hexc, -⟩
  · revert hvalue
    decide +kernel
  · revert hexc
    decide +kernel

/-- `handlesLoad_iff` for this load. -/
theorem handlesLoad_iff_storeThenLoadAcross :
    HandlesLoad storeThenLoadAcross (fun _ ↦ 0) (fun _ ↦ promptTick) 7 2 ↔
      BeyondBeatZero storeThenLoadAcross (fun _ ↦ 0) (fun _ ↦ promptTick) 7 2 :=
  handlesLoad_iff 7 2 ⟨by decide +kernel, by decide +kernel⟩

end BoomCore
