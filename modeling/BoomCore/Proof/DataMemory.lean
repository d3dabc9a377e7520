import BoomCore.Library.SignExtension
import BoomCore.Proof.Retirement
import BoomCore.Run.Memory
import Mathlib.Tactic.IntervalCases

/-!
# Loads and the data memory

A response carries a whole beat, and the load/store unit takes the bytes of the load out of it
(`loadValue_beat`). `MemoryInv` relates the core to the data memory: the stores that wait, performed
on the memory as it is, give the memory after the stores that the core has retired; at most one load
is outstanding; and while it waits in the reorder buffer, no store is sent after it.
-/

set_option autoImplicit false
set_option relaxedAutoImplicit false

namespace BoomCore

open Ring

/-! ### Byte lanes -/

/-- The value of a load: the `2 ^ size` bytes at its address, sign extended or zero extended. -/
def loadResult (memory : ByteMemory 64) (address : BitVec 64) (size : ℕ) (signedLoad : Bool) :
    BitVec 64 :=
  let value := BitVec.ofNat (8 * 2 ^ size) (memory.readNat address (2 ^ size))
  if signedLoad then value.signExtend 64 else value.setWidth 64

/-- The `2 ^ size` bytes at an address are in one beat. -/
def InBeat (address : BitVec 64) (size : ℕ) : Prop := address.toNat % 8 + 2 ^ size ≤ 8

instance (address : BitVec 64) (size : ℕ) : Decidable (InBeat address size) :=
  inferInstanceAs (Decidable (_ ≤ _))

theorem toNat_and_seven (address : BitVec 64) : (address &&& 7#64).toNat = address.toNat % 8 := by
  rw [BitVec.toNat_and]
  exact Nat.and_two_pow_sub_one_eq_mod address.toNat 3

theorem and_not_add_and {w : ℕ} (x y : BitVec w) : (x &&& ~~~y) + (x &&& y) = x := by
  have hdisjoint : (x &&& ~~~y) &&& (x &&& y) = 0#w := by
    ext i
    simp only [BitVec.getElem_and, BitVec.getElem_not, BitVec.getElem_zero]
    cases x[i] <;> cases y[i] <;> rfl
  rw [BitVec.add_eq_or_of_and_eq_zero _ _ hdisjoint]
  ext i
  simp only [BitVec.getElem_or, BitVec.getElem_and, BitVec.getElem_not]
  cases x[i] <;> cases y[i] <;> rfl

/-- An address is the start of its beat and the offset in it. -/
theorem beat_add_offset (address : BitVec 64) :
    (address &&& ~~~7#64) + BitVec.ofNat 64 (address.toNat % 8) = address := by
  rw [← toNat_and_seven, BitVec.ofNat_toNat, BitVec.setWidth_eq, and_not_add_and]

theorem toNat_beat (memory : ByteMemory 64) (address : BitVec 64) :
    (beat memory address).toNat = memory.readNat (address &&& ~~~7#64) 8 := by
  unfold beat
  rw [BitVec.toNat_ofNat]
  exact Nat.mod_eq_of_lt (ByteMemory.readNat_lt memory _ 8)

/-- The bytes at an address that are in its beat. -/
def bytesInBeat (address : BitVec 64) : ℕ := 8 - address.toNat % 8

/-- The lane of a beat that a load takes: as many of its bytes as the beat has. -/
theorem toNat_lane (memory : ByteMemory 64) (address : BitVec 64) {size : ℕ} {mask : BitVec 64}
    (hmask : mask.toNat = 2 ^ (8 * 2 ^ size) - 1) :
    ((beat memory address >>> ((address &&& 7#64).toNat * 8)) &&& mask).toNat =
      memory.readNat address (min (2 ^ size) (bytesInBeat address)) := by
  have hpow : ∀ k, (2 : ℕ) ^ (8 * k) = 256 ^ k := fun k ↦ by
    rw [pow_mul]
    rfl
  have hoffset : address.toNat % 8 ≤ 8 := (Nat.mod_lt _ (by decide)).le
  rw [BitVec.toNat_and, hmask, Nat.and_two_pow_sub_one_eq_mod, BitVec.toNat_ushiftRight,
    Nat.shiftRight_eq_div_pow, toNat_beat, toNat_and_seven, Nat.mul_comm, hpow, hpow,
    ByteMemory.readNat_div memory _ hoffset, beat_add_offset, ByteMemory.readNat_mod]
  rfl

/-- The branch-free sign extension of `sign_extend`. -/
theorem signExtendValue_ofNat {x b : ℕ} (hb : b + 1 < 64) (hx : x < 2 ^ (b + 1)) :
    signExtendValue (BitVec.ofNat 64 x) (b + 1) = (BitVec.ofNat (b + 1) x).signExtend 64 := by
  have hmask : (1#64 <<< b) = BitVec.ofNat 64 (2 ^ b) := by
    refine BitVec.eq_of_toNat_eq ?_
    rw [BitVec.toNat_shiftLeft, BitVec.toNat_ofNat, BitVec.toNat_ofNat, Nat.shiftLeft_eq]
    simp
  unfold signExtendValue
  rw [if_neg (by omega)]
  dsimp only
  rw [Nat.add_sub_cancel, hmask]
  exact SignExtension.signExtend_eq_xor_sub hb hx

/-- `sign_extend` on the widths of the signed loads. A load of eight bytes is not extended. -/
theorem signExtendValue_size {size x : ℕ} (hsize : size < 4) (hx : x < 2 ^ (8 * 2 ^ size)) :
    signExtendValue (BitVec.ofNat 64 x) (bytesForSize size * 8) =
      (BitVec.ofNat (8 * 2 ^ size) x).signExtend 64 := by
  interval_cases size
  · exact signExtendValue_ofNat (b := 7) (by decide) hx
  · exact signExtendValue_ofNat (b := 15) (by decide) hx
  · exact signExtendValue_ofNat (b := 31) (by decide) hx
  · exact (BitVec.signExtend_eq (BitVec.ofNat 64 x)).symm

theorem laneMask_toNat : ∀ size < 4,
    (if 64 ≤ bytesForSize size * 8 then ~~~0#64
      else (1#64 <<< (bytesForSize size * 8)) - 1).toNat = 2 ^ (8 * 2 ^ size) - 1 := by
  decide

/-- A number of `size` bytes as the value of a load. -/
def extendLoad (x size : ℕ) (signedLoad : Bool) : BitVec 64 :=
  if signedLoad then (BitVec.ofNat (8 * 2 ^ size) x).signExtend 64
  else (BitVec.ofNat (8 * 2 ^ size) x).setWidth 64

/-- The load/store unit takes the bytes of a load out of the beat; those behind it are zero. -/
theorem loadValue_eq_extend (memory : ByteMemory 64) (address : BitVec 64) {size : ℕ}
    (signedLoad : Bool) (hsize : size < 4) :
    loadValue (beat memory address) address size signedLoad =
      extendLoad (memory.readNat address (min (2 ^ size) (bytesInBeat address))) size
        signedLoad := by
  generalize hk : min (2 ^ size) (bytesInBeat address) = k
  have hx : memory.readNat address k < 2 ^ (8 * 2 ^ size) := by
    rw [pow_mul]
    refine (ByteMemory.readNat_lt memory address k).trans_le (Nat.pow_le_pow_right (by decide) ?_)
    rw [← hk]
    exact Nat.min_le_left _ _
  have hwidth : 8 * 2 ^ size ≤ 64 :=
    Nat.mul_le_mul_left 8 (Nat.pow_le_pow_right (by decide) (by omega : size ≤ 3))
  have hlt : memory.readNat address k < 2 ^ 64 :=
    hx.trans_le (Nat.pow_le_pow_right (by decide) hwidth)
  have hvalue : (beat memory address >>> ((address &&& 7#64).toNat * 8)) &&&
      (if 64 ≤ bytesForSize size * 8 then ~~~0#64
        else (1#64 <<< (bytesForSize size * 8)) - 1) =
      BitVec.ofNat 64 (memory.readNat address k) := by
    refine BitVec.eq_of_toNat_eq ?_
    rw [toNat_lane memory address (laneMask_toNat size hsize), hk, BitVec.toNat_ofNat,
      Nat.mod_eq_of_lt hlt]
  unfold loadValue extendLoad
  dsimp only
  rw [hvalue]
  split_ifs
  · exact signExtendValue_size hsize hx
  · refine BitVec.eq_of_toNat_eq ?_
    rw [BitVec.toNat_setWidth, BitVec.toNat_ofNat, BitVec.toNat_ofNat, Nat.mod_eq_of_lt hx]

/-- A load in one beat has the value of its bytes. -/
theorem loadValue_beat (memory : ByteMemory 64) (address : BitVec 64) (size : ℕ)
    (signedLoad : Bool) (hin : InBeat address size) :
    loadValue (beat memory address) address size signedLoad =
      loadResult memory address size signedLoad := by
  unfold InBeat at hin
  have hsize : size < 4 := by
    by_contra hcontra
    have hpow : 2 ^ 4 ≤ 2 ^ size := Nat.pow_le_pow_right (by decide) (by omega)
    omega
  rw [loadValue_eq_extend memory address signedLoad hsize,
    Nat.min_eq_left (by unfold bytesInBeat; omega)]
  rfl

/-- The bytes of a load behind its beat, as a number. -/
def beyondBeat (memory : ByteMemory 64) (address : BitVec 64) (size : ℕ) : ℕ :=
  memory.readNat (address + BitVec.ofNat 64 (bytesInBeat address))
    (2 ^ size - bytesInBeat address)

/-- The value of a load is the part in the beat and the part behind it. -/
theorem readNat_split (memory : ByteMemory 64) (address : BitVec 64) (size : ℕ) :
    memory.readNat address (2 ^ size) =
      memory.readNat address (min (2 ^ size) (bytesInBeat address)) +
        256 ^ min (2 ^ size) (bytesInBeat address) * beyondBeat memory address size := by
  unfold beyondBeat
  rcases Nat.le_total (2 ^ size) (bytesInBeat address) with hin | hcross
  · rw [Nat.min_eq_left hin, Nat.sub_eq_zero_of_le hin]
    rfl
  · rw [Nat.min_eq_right hcross, ← ByteMemory.readNat_add, Nat.add_sub_cancel' hcross]

theorem extendLoad_inj {x y size : ℕ} (hsize : size < 4) (hx : x < 256 ^ 2 ^ size)
    (hy : y < 256 ^ 2 ^ size) (signedLoad : Bool) :
    extendLoad x size signedLoad = extendLoad y size signedLoad ↔ x = y := by
  have hpow : 256 ^ 2 ^ size = 2 ^ (8 * 2 ^ size) := by
    rw [pow_mul]
    rfl
  have hwidth : 8 * 2 ^ size ≤ 64 :=
    Nat.mul_le_mul_left 8 (Nat.pow_le_pow_right (by decide) (by omega : size ≤ 3))
  rw [hpow] at hx hy
  have hnum : BitVec.ofNat (8 * 2 ^ size) x = BitVec.ofNat (8 * 2 ^ size) y ↔ x = y := by
    rw [← BitVec.toNat_inj, BitVec.toNat_ofNat, BitVec.toNat_ofNat, Nat.mod_eq_of_lt hx,
      Nat.mod_eq_of_lt hy]
  unfold extendLoad
  cases signedLoad with
  | false =>
    rw [if_neg Bool.false_ne_true, if_neg Bool.false_ne_true, ← hnum]
    refine ⟨fun heq ↦ ?_, fun heq ↦ congrArg _ heq⟩
    have hback := congrArg (BitVec.setWidth (8 * 2 ^ size)) heq
    rwa [BitVec.setWidth_setWidth_of_le _ hwidth, BitVec.setWidth_setWidth_of_le _ hwidth,
      BitVec.setWidth_eq, BitVec.setWidth_eq] at hback
  | true => exact (SignExtension.signExtend_inj hwidth).trans hnum

/-- The load/store unit gets a load right exactly when the bytes behind the beat are zero. -/
theorem loadValue_eq_result_iff (memory : ByteMemory 64) (address : BitVec 64) {size : ℕ}
    (signedLoad : Bool) (hsize : size < 4) :
    loadValue (beat memory address) address size signedLoad =
        loadResult memory address size signedLoad ↔
      beyondBeat memory address size = 0 := by
  have hlow := (ByteMemory.readNat_lt memory address
    (min (2 ^ size) (bytesInBeat address))).trans_le
    (Nat.pow_le_pow_right (by decide) (Nat.min_le_left (2 ^ size) (bytesInBeat address)))
  have hresult : loadResult memory address size signedLoad =
      extendLoad (memory.readNat address (2 ^ size)) size signedLoad := rfl
  rw [loadValue_eq_extend memory address signedLoad hsize, hresult,
    extendLoad_inj hsize hlow (ByteMemory.readNat_lt memory address _), readNat_split, left_eq_add,
    Nat.mul_eq_zero]
  exact or_iff_right (Nat.pow_pos (by decide)).ne'

/-! ### The invariant -/

/-- The outstanding load waits in the reorder buffer. -/
def BoomCoreState.waiting (s : BoomCoreState) : Bool :=
  s.lsu.loadResponsePending && (s.rob.entries s.lsu.pendingLoadRobIdx).awaitsResponse

/-- The memory after all the requests of a queue. -/
def performAll (queue : List DmemRequest) (memory : ByteMemory 64) : ByteMemory 64 :=
  queue.foldl (fun m req ↦ req.perform m) memory

/-- The core, the memory as it is, the requests that it has not processed and the answers that it
has not delivered. `committed` is the memory after the stores that the core has retired. -/
structure MemoryInv (s : BoomCoreState) (committed memory : ByteMemory 64)
    (queue : List DmemRequest) (answers : List DmemResponse) : Prop where
  stores : performAll queue memory = committed
  count : (queue.filter fun req ↦ !req.isStore).length + answers.length ≤ 1
  request : ∀ req ∈ queue, req.isStore = false →
    s.lsu.loadResponsePending = true ∧ req.transactionId = s.lsu.pendingLoadTransactionId
  answer : ∀ a ∈ answers, s.lsu.loadResponsePending = true ∧
    a.transactionId = s.lsu.pendingLoadTransactionId ∧ a.exception = false ∧ a.readData = a.data
  waitingRequest : s.waiting = true → ∀ pre req post, queue = pre ++ req :: post →
    req.isStore = false →
      post = [] ∧ req.address = (s.rob.entries s.lsu.pendingLoadRobIdx).memoryAddress
  waitingAnswer : s.waiting = true → ∀ a ∈ answers,
    a.data = beat committed (s.rob.entries s.lsu.pendingLoadRobIdx).memoryAddress
  value : ∀ i < robDepth, (s.rob.entries i).awaitsResponse = true →
    (s.rob.entries i).memoryCompleted = true → (s.rob.entries i).exception = false →
      InBeat (s.rob.entries i).memoryAddress (s.rob.entries i).memorySize →
        (s.rob.entries i).memoryData = loadResult committed (s.rob.entries i).memoryAddress
          (s.rob.entries i).memorySize (s.rob.entries i).signedLoad

theorem memoryInv_init (memory : ByteMemory 64) : MemoryInv {} memory memory [] [] := by
  refine ⟨rfl, Nat.zero_le 1, fun _ h ↦ absurd h List.not_mem_nil,
    fun _ h ↦ absurd h List.not_mem_nil, fun h ↦ ?_, fun h ↦ ?_, fun i _ h ↦ ?_⟩
  · simp [BoomCoreState.waiting] at h
  · simp [BoomCoreState.waiting] at h
  · simp [RobEntry.awaitsResponse] at h

namespace MemoryInv

variable {s : BoomCoreState} {committed memory : ByteMemory 64} {queue : List DmemRequest}
  {answers : List DmemResponse} {req : DmemRequest}

/-- A step of the core that sends nothing, leaves the outstanding load alone, and does not touch the
entries of loads that were sent. -/
theorem congr {s' : BoomCoreState} (h : MemoryInv s committed memory queue answers)
    (hidx : s.lsu.pendingLoadRobIdx < robDepth)
    (hpending : s'.lsu.loadResponsePending = s.lsu.loadResponsePending)
    (hsame : s'.lsu.pendingLoadRobIdx = s.lsu.pendingLoadRobIdx)
    (htx : s'.lsu.pendingLoadTransactionId = s.lsu.pendingLoadTransactionId)
    (hentries : ∀ i < robDepth, (s'.rob.entries i).awaitsResponse = true →
      s'.rob.entries i = s.rob.entries i) :
    MemoryInv s' committed memory queue answers := by
  have hwaiting : s'.waiting = true → s.waiting = true ∧
      s'.rob.entries s'.lsu.pendingLoadRobIdx = s.rob.entries s.lsu.pendingLoadRobIdx := by
    unfold BoomCoreState.waiting
    rw [hpending, hsame, Bool.and_eq_true, Bool.and_eq_true]
    rintro ⟨hpend, hawaits⟩
    have heq := hentries _ hidx hawaits
    rw [heq] at hawaits ⊢
    exact ⟨⟨hpend, hawaits⟩, rfl⟩
  refine ⟨h.stores, h.count, ?_, ?_, fun hw ↦ ?_, fun hw ↦ ?_, fun i hi hawaits ↦ ?_⟩
  · rw [hpending, htx]
    exact h.request
  · rw [hpending, htx]
    exact h.answer
  · rw [(hwaiting hw).2]
    exact h.waitingRequest (hwaiting hw).1
  · rw [(hwaiting hw).2]
    exact h.waitingAnswer (hwaiting hw).1
  · have heq := hentries i hi hawaits
    rw [heq] at hawaits ⊢
    exact h.value i hi hawaits

/-- While no load is outstanding the queue holds stores only, and no answer waits. -/
theorem idle (h : MemoryInv s committed memory queue answers)
    (hpending : s.lsu.loadResponsePending = false) :
    (∀ r ∈ queue, r.isStore = true) ∧ answers = [] := by
  constructor
  · intro r hr
    by_contra hload
    have hcontra := (h.request r hr (by simpa using hload)).1
    rw [hpending] at hcontra
    simp at hcontra
  · refine List.eq_nil_iff_forall_not_mem.mpr fun a ha ↦ ?_
    have hcontra := (h.answer a ha).1
    rw [hpending] at hcontra
    simp at hcontra

/-! ### The data memory -/

theorem process_store (h : MemoryInv s committed memory (req :: queue) answers)
    (hstore : req.isStore = true) :
    MemoryInv s committed (req.perform memory) queue answers := by
  have hcount := h.count
  rw [List.filter_cons_of_neg (by simp [hstore])] at hcount
  exact ⟨h.stores, hcount, fun r hr ↦ h.request r (List.mem_cons_of_mem _ hr), h.answer,
    fun hw pre r post heq ↦ h.waitingRequest hw (req :: pre) r post (by rw [heq]; rfl),
    h.waitingAnswer, h.value⟩

theorem process_load (h : MemoryInv s committed memory (req :: queue) answers)
    (hload : req.isStore = false) :
    MemoryInv s committed memory queue (answers ++ [req.answer memory]) := by
  have hcount := h.count
  rw [List.filter_cons_of_pos (by simp [hload]), List.length_cons] at hcount
  have hstores := h.stores
  have hperform : req.perform memory = memory := by
    unfold DmemRequest.perform
    rw [hload, if_neg Bool.false_ne_true]
  rw [performAll, List.foldl_cons, hperform] at hstores
  refine ⟨hstores, ?_, fun r hr ↦ h.request r (List.mem_cons_of_mem _ hr), fun a ha ↦ ?_,
    fun hw pre r post heq ↦ h.waitingRequest hw (req :: pre) r post (by rw [heq]; rfl),
    fun hw a ha ↦ ?_, h.value⟩
  · rw [List.length_append, List.length_singleton]
    omega
  · rcases List.mem_append.mp ha with hold | hnew
    · exact h.answer a hold
    · obtain ⟨hpending, htx⟩ := h.request req List.mem_cons_self hload
      rw [List.mem_singleton.mp hnew]
      exact ⟨hpending, htx, rfl, rfl⟩
  · rcases List.mem_append.mp ha with hold | hnew
    · exact h.waitingAnswer hw a hold
    · obtain ⟨hlast, haddress⟩ := h.waitingRequest hw [] req queue rfl hload
      rw [hlast] at hstores
      rw [List.mem_singleton.mp hnew, ← hstores, ← haddress]
      rfl

/-- The memory processes one request. -/
theorem processOne {ms : MemorySystem}
    (h : MemoryInv s committed ms.memory ms.requests ms.answers) :
    MemoryInv s committed ms.processOne.memory ms.processOne.requests ms.processOne.answers := by
  unfold MemorySystem.processOne
  cases hqueue : ms.requests with
  | nil =>
    dsimp only
    rw [hqueue] at h ⊢
    exact h
  | cons r rest =>
    rw [hqueue] at h
    dsimp only
    by_cases hstore : r.isStore = true
    · rw [if_pos hstore]
      exact h.process_store hstore
    · have hload : r.isStore = false := by simpa using hstore
      have hperform : r.perform ms.memory = ms.memory := by
        unfold DmemRequest.perform
        rw [hload, if_neg Bool.false_ne_true]
      rw [if_neg hstore, hperform]
      exact h.process_load hload

theorem process {ms : MemorySystem} (k : ℕ)
    (h : MemoryInv s committed ms.memory ms.requests ms.answers) :
    MemoryInv s committed (ms.process k).memory (ms.process k).requests (ms.process k).answers := by
  induction k generalizing ms with
  | zero => exact h
  | succ k ih => exact ih h.processOne

/-! ### The load/store unit -/

/-- The answer that is delivered is the only one, and the load that it is for is outstanding. -/
theorem delivered (h : MemoryInv s committed memory queue answers) {i : ℕ} {resp : DmemResponse}
    (hi : answers[i]? = some resp) :
    answers.eraseIdx i = [] ∧ (∀ r ∈ queue, r.isStore = true) ∧
      s.lsu.matchesPending resp = true ∧ resp.exception = false ∧ resp.readData = resp.data := by
  obtain ⟨hlt, hget⟩ := List.getElem?_eq_some_iff.mp hi
  have hmem : resp ∈ answers := hget ▸ List.getElem_mem hlt
  obtain ⟨hpending, htx, hexc, hdata⟩ := h.answer resp hmem
  have hcount := h.count
  have hlen : (answers.eraseIdx i).length = 0 := by
    rw [List.length_eraseIdx_of_lt hlt]
    omega
  refine ⟨List.length_eq_zero_iff.mp hlen, fun r hr ↦ ?_, ?_, hexc, hdata⟩
  · by_contra hload
    have hfilter : r ∈ queue.filter fun req ↦ !req.isStore :=
      List.mem_filter.mpr ⟨hr, by simpa using hload⟩
    have hpos := List.length_pos_of_mem hfilter
    omega
  · unfold LsuState.matchesPending
    rw [hpending, htx]
    simp

/-- The core takes the answer: the load that waits for it gets the bytes of the memory after the
retired stores. -/
theorem handleResponse (h : MemoryInv s committed memory queue answers) {i : ℕ}
    {resp : DmemResponse} (hi : answers[i]? = some resp) :
    MemoryInv (handleResponse s resp) committed memory queue (answers.eraseIdx i) := by
  obtain ⟨hnil, hstores, hmatch, hexc, hdata⟩ := h.delivered hi
  have hmem : resp ∈ answers := List.mem_of_getElem? hi
  have hnoLoad : ∀ req ∈ queue, req.isStore = false → False := fun r hr hload ↦ by
    rw [hstores r hr] at hload
    simp at hload
  have hcount := h.count
  rw [hnil]
  by_cases hanswers : s.answers resp = true
  · have hwaits : s.waiting = true := by
      unfold BoomCoreState.answers LsuState.matchesPending at hanswers
      unfold BoomCoreState.waiting
      simp only [Bool.and_eq_true] at hanswers ⊢
      exact ⟨hanswers.1.1, hanswers.2⟩
    rw [handleResponse_of_answers hanswers]
    refine ⟨h.stores, by simp; omega, fun r hr hload ↦ (hnoLoad r hr hload).elim,
      fun a ha ↦ absurd ha List.not_mem_nil, fun hw ↦ ?_, fun hw ↦ ?_, ?_⟩
    · simp [BoomCoreState.waiting] at hw
    · simp [BoomCoreState.waiting] at hw
    · intro j hj hawaits hcompleted hexc' hin
      dsimp only at hawaits hcompleted hexc' hin ⊢
      by_cases hidx : j = s.lsu.pendingLoadRobIdx
      · subst hidx
        rw [Function.update_self] at hin ⊢
        unfold RobEntry.complete at hin ⊢
        rw [hexc, if_neg Bool.false_ne_true] at hin ⊢
        dsimp only at hin ⊢
        unfold RobEntry.responseValue
        rw [hdata, ite_self, h.waitingAnswer hwaits resp hmem]
        exact loadValue_beat committed _ _ _ hin
      · rw [Function.update_of_ne hidx] at hawaits hcompleted hexc' hin ⊢
        exact h.value j hj hawaits hcompleted hexc' hin
  · rw [handleResponse_of_not_answers (by simpa using hanswers), if_pos hmatch]
    refine ⟨h.stores, by simp; omega, fun r hr hload ↦ (hnoLoad r hr hload).elim,
      fun a ha ↦ absurd ha List.not_mem_nil, fun hw ↦ ?_, fun hw ↦ ?_, h.value⟩
    · simp [BoomCoreState.waiting] at hw
    · simp [BoomCoreState.waiting] at hw

theorem afterResponse (h : MemoryInv s committed memory queue answers) (i : Option ℕ) :
    MemoryInv (s.afterResponse (i.bind fun i ↦ answers[i]?)) committed memory queue
      (undelivered answers i) := by
  cases i with
  | none => exact h
  | some i =>
    dsimp only [Option.bind_some, undelivered]
    cases hi : answers[i]? with
    | none =>
      rw [List.eraseIdx_of_length_le (List.getElem?_eq_none_iff.mp hi)]
      exact h
    | some resp => exact h.handleResponse hi

theorem enqueueResult (h : MemoryInv s committed memory queue answers) {w : List Inflight}
    (hwin : WindowInv s w) (hhanded : Handed s w) :
    MemoryInv (enqueueResult s) committed memory queue answers := by
  by_cases hmemory : (s.execute.aluResult.valid && s.execute.aluResult.memoryValid) = true
  · obtain ⟨w', d, -, -, -, lsu, heq, hpending, htx, hidx, -⟩ :=
      enqueueResult_of_memory hwin hhanded hmemory
    rw [heq]
    refine h.congr hwin.lsu.idx_lt hpending hidx htx fun i _ hawaits ↦ ?_
    dsimp only at hawaits ⊢
    by_cases hi : i = slot robDepth s.rob.head w'.length
    · rw [hi, Function.update_self, AluResult.recorded_awaits] at hawaits
      simp at hawaits
    · exact Function.update_of_ne hi _ _
  · rw [enqueueResult_of_none (by simpa using hmemory)]
    exact h

/-- A load request goes to the end of the queue. No other load is outstanding, so nothing comes
after it as long as it waits. -/
theorem tryIssueLoad (h : MemoryInv s committed memory queue answers) {w : List Inflight}
    {pipe : PipeSignals} {j : ℕ} (hwin : WindowInv s w) (hj : j < robDepth)
    (hcan : canIssueLoad s pipe j = true) :
    MemoryInv (tryIssueLoad s pipe j).1 committed memory
      (queue ++ [loadRequest (s.rob.entries j) j s.lsu.nextTransactionId]) answers := by
  obtain ⟨k, hk, hslot, hload, hentry, hpending, -, -⟩ := hwin.issued_load hj hcan
  obtain ⟨hstores, hnil⟩ := h.idle hpending
  have hnoLoad : ∀ req ∈ queue, req.isStore = false → False := fun r hr hnot ↦ by
    rw [hstores r hr] at hnot
    simp at hnot
  have hfilter : (queue.filter fun req ↦ !req.isStore) = [] :=
    List.filter_eq_nil_iff.mpr fun r hr ↦ by simp [hstores r hr]
  rw [tryIssueLoad_of_can hcan, hnil]
  refine ⟨?_, ?_, fun r hr hnot ↦ ?_, fun a ha ↦ absurd ha List.not_mem_nil, ?_,
    fun _ a ha ↦ absurd ha List.not_mem_nil, ?_⟩
  · rw [performAll, List.foldl_append]
    exact h.stores
  · rw [List.filter_append, hfilter]
    rfl
  · rcases List.mem_append.mp hr with hold | hnew
    · exact (hnoLoad r hold hnot).elim
    · rw [List.mem_singleton.mp hnew]
      exact ⟨rfl, rfl⟩
  · intro _ pre r post heq hnot
    dsimp only
    rcases List.eq_nil_or_concat post with rfl | ⟨post', x, rfl⟩
    · have hlast := List.append_inj' heq rfl
      rw [← (List.cons.inj hlast.2).1, Function.update_self]
      exact ⟨rfl, rfl⟩
    · have hsplit : queue ++ [loadRequest (s.rob.entries j) j s.lsu.nextTransactionId] =
          (pre ++ r :: post') ++ [x] := by
        rw [heq]
        simp
      have hin : r ∈ queue := by
        rw [(List.append_inj' hsplit rfl).1]
        simp
      exact (hnoLoad r hin hnot).elim
  · intro i hi hawaits hcompleted hexc hin
    dsimp only at hawaits hcompleted hexc hin ⊢
    by_cases hij : i = j
    · rw [hij, Function.update_self, hentry] at hcompleted
      simp [RobEntry.sent, RobEntry.asLoad, AluResult.entry] at hcompleted
    · rw [Function.update_of_ne hij] at hawaits hcompleted hexc hin ⊢
      exact h.value i hi hawaits hcompleted hexc hin

/-- The load/store unit as a whole. -/
theorem lsuModule (h : MemoryInv s committed memory queue answers) {w : List Inflight}
    (hwin : WindowInv s w) (hhanded : Handed s w) (hflush : s.globalFlush = false)
    {pipe : PipeSignals} (i : Option ℕ)
    (hresp : pipe.dmemResp.q.head? = i.bind fun i ↦ answers[i]?) (hempty : pipe.dmemReq.q = []) :
    MemoryInv (lsuModule s pipe).1 committed memory (queue ++ (lsuModule s pipe).2.dmemReq.q)
      (undelivered answers i) := by
  have hwin' := hwin.afterResponse pipe.dmemResp.q.head?
  have hhanded' := hhanded.afterResponse pipe.dmemResp.q.head?
  have hrecord := (h.afterResponse i).enqueueResult (hresp ▸ hwin') (hresp ▸ hhanded')
  have hpipe : (takeDmemResponse s pipe).2.dmemReq = pipe.dmemReq := (takeDmemResponse_eq s pipe).2
  rw [lsuModule_eq hflush, hresp]
  rcases issueLoadsFrom_cases
    (BoomCore.enqueueResult (s.afterResponse (i.bind fun i ↦ answers[i]?)))
    (takeDmemResponse s pipe).2 robDepth 0 with heq | ⟨j, hj, hcan, heq⟩
  · rw [heq, hpipe, hempty, List.append_nil]
    exact hrecord
  · have hissue := hrecord.tryIssueLoad ((hresp ▸ hwin').enqueueResult (hresp ▸ hhanded')) hj hcan
    rw [heq]
    refine Eq.mp ?_ hissue
    rw [tryIssueLoad_of_can hcan]
    dsimp only [Stream.write]
    rw [hpipe, hempty, List.nil_append]

/-! ### Commit -/

/-- A store retires: its request goes to the end of the queue, and no load waits for a response. -/
theorem store {s' : BoomCoreState} (h : MemoryInv s committed memory queue answers)
    (hstore : req.isStore = true)
    (hpending : s'.lsu.loadResponsePending = s.lsu.loadResponsePending)
    (htx : s'.lsu.pendingLoadTransactionId = s.lsu.pendingLoadTransactionId)
    (hidx : s'.lsu.pendingLoadRobIdx < robDepth)
    (hnone : ∀ i < robDepth, (s'.rob.entries i).awaitsResponse = false) :
    MemoryInv s' (req.perform committed) memory (queue ++ [req]) answers := by
  have hwaiting : s'.waiting = true → False := by
    unfold BoomCoreState.waiting
    rw [hnone _ hidx, Bool.and_false]
    exact Bool.false_ne_true
  refine ⟨?_, ?_, fun r hr hload ↦ ?_, ?_, fun hw ↦ (hwaiting hw).elim,
    fun hw ↦ (hwaiting hw).elim, fun i hi hawaits ↦ ?_⟩
  · rw [← h.stores, performAll, List.foldl_append]
    rfl
  · rw [List.filter_append, List.filter_cons_of_neg (by simp [hstore]), List.filter_nil,
      List.append_nil]
    exact h.count
  · rw [hpending, htx]
    rcases List.mem_append.mp hr with hold | hnew
    · exact h.request r hold hload
    · rw [List.mem_singleton.mp hnew, hstore] at hload
      simp at hload
  · rw [hpending, htx]
    exact h.answer
  · rw [hnone i hi] at hawaits
    simp at hawaits

end MemoryInv

/-! ### One cycle -/

/-- The memory after a retired store. -/
def CommitEntry.perform (ce : CommitEntry) (memory : ByteMemory 64) : ByteMemory 64 :=
  memory.writeMasked ce.memoryAddress ce.memoryData ce.memoryMask 8

section Cycle

variable {program : Program} {sys : System} {w : List Inflight} (h : SysInv sys w) {t : Tick}
  {committed memory : ByteMemory 64} {queue : List DmemRequest} {answers : List DmemResponse}
  {i : Option ℕ} (hresp : t.dmemResp = i.bind fun i ↦ answers[i]?)
  (hmem : MemoryInv sys.core committed memory queue answers)

include h hresp hmem

variable (program) in
/-- The invariant when commit starts, with the load request of the cycle in the queue. -/
theorem SysInv.memoryInv_atCommit :
    MemoryInv (sys.atCommit program t) committed memory
      (queue ++ (sys.afterMemory program t).2.dmemReq.q) (undelivered answers i) := by
  have hresolved : MemoryInv (resolved sys.core) committed memory queue answers :=
    hmem.congr h.window.lsu.idx_lt (by rw [resolved_eq]) (by rw [resolved_eq])
      (by rw [resolved_eq]) (by rw [resolved_eq]; exact fun _ _ _ ↦ rfl)
  have hdelivered : (sys.ports program t).dmemResp.q.head? = i.bind fun i ↦ answers[i]? := by
    rw [System.ports_dmemResp]
    exact hresp
  have hafter' : MemoryInv (sys.afterMemory program t).1 committed memory
      (queue ++ (sys.afterMemory program t).2.dmemReq.q) (undelivered answers i) :=
    hresolved.lsuModule h.beforeMemory.1 h.beforeMemory.2 (resolved_globalFlush sys.core) i
      hdelivered rfl
  have hidx := (h.memory program t).1.lsu.idx_lt
  rcases System.idle_or_accepts program sys t with hidle | ⟨resp, hacc, hfull⟩
  · obtain ⟨hrob, -, hlsu, -⟩ := h.step.atCommit_idle t hidle
    refine hafter'.congr hidx ?_ ?_ ?_ fun _ _ _ ↦ ?_
    · rw [hlsu]
    · rw [hlsu]
    · rw [hlsu]
    · rw [hrob]
      rfl
  · obtain ⟨hrob, -, hlsu, -⟩ :=
      h.step.atCommit_some t hacc hfull h.tail_lt
    refine hafter'.congr hidx ?_ ?_ ?_ fun j _ hawaits ↦ ?_
    · rw [hlsu]
    · rw [hlsu]
    · rw [hlsu]
    · rw [hrob] at hawaits ⊢
      dsimp only at hawaits ⊢
      by_cases hj : j = (sys.afterMemory program t).1.rob.tail
      · rw [hj, Function.update_self, AluResult.entry_awaits] at hawaits
        simp at hawaits
      · exact Function.update_of_ne hj _ _

variable (program) in
/-- A cycle keeps the invariant: what it sends goes into the queue, and the store that it retires is
performed on the committed memory. -/
theorem SysInv.memoryInv_cycle :
    MemoryInv (sys.cycle program t).core
      ((sys.retiredStores program t).foldl (fun m ce ↦ ce.perform m) committed) memory
      (queue ++ (sys.coreStep program t).2.dmemReq.q) (undelivered answers i) := by
  have hat := h.memoryInv_atCommit program hresp hmem
  have hwin := (h.atCommit program t 0).1
  have hcore : (sys.cycle program t).core = (sys.coreStep program t).1 := rfl
  rw [h.requests_eq, ← List.append_assoc]
  have hvalid : ∀ {e : RobEntry}, e.awaitsResponse = true → e.valid = true := by
    intro e hawaits
    unfold RobEntry.awaitsResponse at hawaits
    simp only [Bool.and_eq_true] at hawaits
    exact hawaits.1.1
  rcases h.store_cases program t 0 with
    ⟨hnone, hretired⟩ | ⟨d, w', hret, hstore, hretired, hrecord, hsent⟩
  · rw [hnone, hretired, List.append_nil]
    by_cases hredirects : sys.core.execute.aluResult.redirects = true
    · have hflushed := h.step.coreStep_of_redirects program t hredirects
      have hrob : RobInv (sys.cycle program t).core.rob [] := by
        rw [hcore, hflushed]
        exact RobInv.flush _
      refine hat.congr hwin.lsu.idx_lt ?_ ?_ ?_ fun j hj hawaits ↦ ?_
      · rw [hcore, hflushed]
        rfl
      · rw [hcore, hflushed]
        rfl
      · rw [hcore, hflushed]
        rfl
      · have hgone := hrob.outside j hj fun k hk ↦ absurd hk (Nat.not_lt_zero k)
        rw [hvalid hawaits] at hgone
        simp at hgone
    · have hstage := h.step.coreStep_of_not_redirects program t (by simpa using hredirects)
      obtain ⟨hpending, hidx, htx⟩ :=
        commitStage_pending (sys.atCommit program t) (sys.commitPipe program t)
      rw [← hstage] at hpending hidx htx
      refine hat.congr hwin.lsu.idx_lt hpending hidx htx fun j _ hawaits ↦ ?_
      rw [hcore, hstage] at hawaits ⊢
      exact commitStage_entries (hvalid hawaits)
  · have hpop := hret.popped
    rw [hsent, hretired, hrecord]
    have hkind : (storeRequest (d.result.entry.asStore d.result)
        (sys.atCommit program t).lsu.nextTransactionId).isStore = true := rfl
    refine hat.store hkind hpop.pending
      hpop.tx (by rw [hpop.idx]; exact hwin.lsu.idx_lt) fun j hj ↦ ?_
    -- A load that was sent has no older store, and every entry is younger than the head.
    by_contra hcontra
    have hawaits : ((sys.cycle program t).core.rob.entries j).awaitsResponse = true := by
      simpa using hcontra
    have hne : j ≠ (sys.atCommit program t).rob.head := by
      rintro rfl
      have hgone := hpop.gone
      rw [hvalid hawaits] at hgone
      simp at hgone
    rw [hpop.other j hne] at hawaits
    obtain ⟨k, hk, hslot⟩ := hwin.rob.of_valid hj (hvalid hawaits)
    have hpos : 0 < k := by
      by_contra hzero
      rw [Nat.eq_zero_of_not_pos hzero, slot_zero hwin.rob.head_lt] at hslot
      exact hne hslot.symm
    have hnot := hwin.lsu.ordered k hk (by rw [hslot]; exact hawaits) 0 hpos
    simp only [hret.before, List.getElem_cons_zero] at hnot
    rw [hret.dispatched.store, hnot, Bool.false_and] at hstore
    simp at hstore

end Cycle

end BoomCore
