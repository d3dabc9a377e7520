import BoomCore.Model.PrefixTrace
import BoomCore.Proof.PromptMemory
import BoomCore.Proof.Streams

/-!
# The bench that writes prefix traces

The bench runs the core with a memory that answers at once: what its streams and its bytes hold
between two cycles is what the system of the core and its memory holds (`Bench.Follows`). In a cycle
it prints the branch that has been executed, the record that the core has retired and the store to
`tohost` that the core has sent (`Bench.Follows.cycle`).
-/

set_option autoImplicit false
set_option relaxedAutoImplicit false

namespace BoomCore

theorem getLsbD_maskForSize (size : ℕ) {i : ℕ} (hi : i < 8) :
    (maskForSize size).getLsbD i = decide (i < if 3 ≤ size then 8 else 1 <<< size) := by
  unfold maskForSize
  split_ifs with hsize
  · interval_cases i <;> decide
  · interval_cases size <;> interval_cases i <;> decide

/-- The mask of a store is that of its size. -/
theorem executeUop_mask {uop : MicroOp} {rs1 rs2 : BitVec 64}
    (hstore : (executeUop uop rs1 rs2).isStore = true) :
    (executeUop uop rs1 rs2).memoryMask = maskForSize (executeUop uop rs1 rs2).memorySize := by
  revert hstore
  unfold executeUop MicroOp.executeSwitch
  dsimp only
  split
  all_goals first
    | exact fun _ ↦ rfl
    | exact fun hcontra ↦ absurd hcontra Bool.false_ne_true

namespace PrefixTrace

namespace IdealMem

variable (m : IdealMem) {capacity : ℕ}

/-- The address of a byte that the vector of bytes holds, or can be resized to hold. -/
def Holds (capacity : ℕ) (addr : BitVec 64) : Prop :=
  entryPc ≤ addr ∧ (addr - entryPc).toNat < capacity

instance (capacity : ℕ) (addr : BitVec 64) : Decidable (Holds capacity addr) :=
  inferInstanceAs (Decidable (_ ∧ _))

/-- A byte that is held is replaced. -/
theorem writeByte_spec {addr : BitVec 64} (haddr : Holds capacity addr) (value : BitVec 8) :
    ∃ m', m.writeByte capacity addr value = some m' ∧ m'.words = m.words ∧
      m'.readByte = Function.update m.readByte addr value := by
  have hnot : ¬ addr < entryPc := BitVec.not_lt.mpr haddr.1
  have hfits : ¬ (m.bytes.length ≤ (addr - entryPc).toNat ∧ capacity ≤ (addr - entryPc).toNat) :=
    fun h ↦ Nat.not_lt.mpr h.2 haddr.2
  unfold writeByte
  dsimp only
  rw [if_neg hnot, if_neg hfits]
  refine ⟨_, rfl, rfl, ?_⟩
  ext1 a
  unfold readByte
  by_cases ha : a = addr
  · subst ha
    rw [Function.update_self, if_neg hnot, List.getD_eq_getElem?_getD]
    have hlen : (a - entryPc).toNat < (m.bytes.rightpad ((a - entryPc).toNat + 1) 0).length := by
      rw [List.length_rightpad]
      omega
    rw [List.getElem?_set_self hlen, Option.getD_some]
  · rw [Function.update_of_ne ha]
    split_ifs with hlow
    · rfl
    · have hne : (addr - entryPc).toNat ≠ (a - entryPc).toNat := fun heq ↦
        ha (by simpa using (BitVec.eq_of_toNat_eq heq).symm)
      rw [List.getD_eq_getElem?_getD, List.getD_eq_getElem?_getD, List.getElem?_set_ne hne]
      unfold List.rightpad
      rw [List.getElem?_append]
      split_ifs with hin
      · rfl
      · rw [List.getElem?_eq_none (Nat.le_of_not_lt hin), List.getElem?_replicate]
        split_ifs <;> rfl

/-- A beat of the bytes. -/
theorem readBeat_eq (addr : BitVec 64) : m.readBeat addr = beat m.readByte addr :=
  ByteMemory.foldl_or_eq m.readByte _ (by decide)

/-- Assumes: the bytes that a store names are held. It writes them, and leaves the program alone. -/
theorem write_spec {addr : BitVec 64} (data : BitVec 64) {size : ℕ}
    (haddr : ∀ i < 8, (maskForSize size).getLsbD i = true →
      Holds capacity (addr + BitVec.ofNat 64 i)) :
    ∃ m', m.write capacity addr data size = some m' ∧ m'.words = m.words ∧
      m'.readByte = ByteMemory.writeMasked m.readByte addr data (maskForSize size) 8 := by
  have hle : (if 3 ≤ size then 8 else 1 <<< size) ≤ 8 := by
    split_ifs with hsize
    · exact Nat.le_refl 8
    · interval_cases size <;> decide
  rw [ByteMemory.writeMasked_eq_foldl _ _ _ hle fun i hi ↦ getLsbD_maskForSize size hi]
  unfold write
  have hbytes : ∀ i ∈ List.range (if 3 ≤ size then 8 else 1 <<< size),
      Holds capacity (addr + BitVec.ofNat 64 i) := fun i hi ↦ by
    have hlt := List.mem_range.mp hi
    refine haddr i (hlt.trans_le hle) ?_
    rw [getLsbD_maskForSize size (hlt.trans_le hle), decide_eq_true hlt]
  generalize List.range (if 3 ≤ size then 8 else 1 <<< size) = lanes at hbytes ⊢
  induction lanes generalizing m with
  | nil => exact ⟨m, rfl, rfl, rfl⟩
  | cons i rest ih =>
    have hlane : ((data >>> (8 * i)) &&& 0xff#64).setWidth 8 = data.extractLsb' (8 * i) 8 := by
      ext j hj
      simp only [BitVec.getElem_setWidth, BitVec.getLsbD_and, BitVec.getLsbD_ushiftRight,
        BitVec.getElem_extractLsb']
      have hmask : (0xff#64).getLsbD j = true := by interval_cases j <;> decide
      rw [hmask, Bool.and_true]
    obtain ⟨m', hm', hwords, hupdate⟩ := m.writeByte_spec (hbytes i List.mem_cons_self)
      (((data >>> (8 * i)) &&& 0xff#64).setWidth 8)
    obtain ⟨m'', hm'', hwords', hrest⟩ := ih m' fun j hj ↦ hbytes j (List.mem_cons_of_mem _ hj)
    refine ⟨m'', ?_, hwords'.trans hwords, ?_⟩
    · rw [List.foldlM_cons, hm']
      exact hm''
    · rw [List.foldl_cons, hrest, hupdate, hlane]

end IdealMem

end PrefixTrace

namespace PipeSignals

/-- Streams of the same sizes with the same elements are the same. -/
theorem SameRoom.eq {pipe pipe' : PipeSignals} (h : pipe.SameRoom pipe')
    (himemReq : pipe'.imemReq.q = pipe.imemReq.q) (himemResp : pipe'.imemResp.q = pipe.imemResp.q)
    (hdmemReq : pipe'.dmemReq.q = pipe.dmemReq.q) (hdmemResp : pipe'.dmemResp.q = pipe.dmemResp.q)
    (hcommitTrace : pipe'.commitTrace.q = pipe.commitTrace.q) : pipe' = pipe := by
  obtain ⟨⟨_, _⟩, ⟨_, _⟩, ⟨_, _⟩, ⟨_, _⟩, ⟨_, _⟩⟩ := pipe
  obtain ⟨⟨_, _⟩, ⟨_, _⟩, ⟨_, _⟩, ⟨_, _⟩, ⟨_, _⟩⟩ := pipe'
  obtain ⟨h1, h2, h3, h4, h5⟩ := h
  dsimp only at *
  subst_vars
  rfl

end PipeSignals

namespace PrefixTrace

/-! ### One cycle of the bench -/

/-- The lines of events that are printed one after the other. -/
def linesFrom (cycle : BitVec 64) : ℕ → List Event → List Line
  | _, [] => []
  | seq, event :: events =>
    { event := event, cycle := cycle, seq := seq } :: linesFrom cycle (seq + 1) events

theorem linesFrom_append (cycle : BitVec 64) (seq : ℕ) (events events' : List Event) :
    linesFrom cycle seq (events ++ events') =
      linesFrom cycle seq events ++ linesFrom cycle (seq + events.length) events' := by
  induction events generalizing seq with
  | nil => rfl
  | cons event rest ih =>
    rw [List.cons_append, linesFrom, ih, List.length_cons, Nat.add_assoc, Nat.add_comm 1]
    rfl

/-- The branch that is printed for a result. -/
def branchPart (r : AluResult) : List Event :=
  if !r.valid || !isControlInst r.uop.inst || decide (r.uop.debugPc < entryPc) then []
  else [.branch r.uop.debugPc r.uop.inst r.mispredict r.redirectPc]

/-- The commits that are printed for records. -/
def commitPart (records : List CommitEntry) : List Event :=
  (records.filter fun ce ↦ !decide (ce.pc < entryPc)).map .commit

/-- What is printed for a store. -/
def tohostPart (req : DmemRequest) : List Event :=
  if req.address = tohostAddr then
    [.tohost req.address req.writeData req.writeMask req.committed]
  else []

namespace Bench

variable (b : Bench)

/-- The bench with more lines. -/
def printAll (events : List Event) : Bench :=
  { b with
    lines := b.lines ++ linesFrom b.state.csr.cycle b.seq events
    seq := b.seq + events.length }

theorem printAll_nil : b.printAll [] = b := by
  unfold printAll
  rw [linesFrom, List.append_nil]
  rfl

theorem printAll_append (events events' : List Event) :
    (b.printAll events).printAll events' = b.printAll (events ++ events') := by
  unfold printAll
  dsimp only
  rw [linesFrom_append, List.append_assoc, List.length_append, Nat.add_assoc]

theorem answerFetch_eq : b.answerFetch = { b with pipe := b.answerFetch.pipe } := by
  unfold answerFetch
  cases b.pipe.imemReq.read <;> rfl

theorem printBranch_eq : b.printBranch = b.printAll (branchPart b.state.execute.aluResult) := by
  unfold printBranch branchPart
  dsimp only
  split_ifs
  · rw [printAll_nil]
  · rfl

/-- Assumes: the target is not reached before the records are printed. -/
theorem drainCommits_eq (target : ℕ) (records : List CommitEntry)
    (hfits : b.prefixCommits + records.length ≤ target) :
    b.drainCommits target records =
      { (b.printAll (commitPart records)).leaveCommits [] with
        prefixCommits := b.prefixCommits + (commitPart records).length } := by
  induction records generalizing b with
  | nil =>
    rw [show commitPart [] = [] from rfl, printAll_nil]
    rfl
  | cons ce rest ih =>
    rw [List.length_cons] at hfits
    unfold drainCommits
    rw [if_pos (by omega)]
    by_cases hlow : ce.pc < entryPc
    · have hpart : commitPart (ce :: rest) = commitPart rest := by
        unfold commitPart
        rw [List.filter_cons_of_neg (by simp [hlow])]
      rw [if_pos hlow, hpart]
      exact ih b (by omega)
    · have hpart : commitPart (ce :: rest) = .commit ce :: commitPart rest := by
        unfold commitPart
        rw [List.filter_cons_of_pos (by simp [hlow])]
        rfl
      rw [if_neg hlow, hpart, ih _ (by show b.prefixCommits + 1 + _ ≤ _; omega)]
      unfold printAll leaveCommits print
      simp only [linesFrom, List.append_assoc, List.length_cons, List.cons_append, List.nil_append]
      congr 1
      · omega
      · omega

/-- The requests of a cycle are served: there is none, a store or a load. -/
theorem serveRequests_nil (capacity : ℕ) (hnone : b.pipe.dmemReq.q = []) :
    b.serveRequests capacity = some b := by
  unfold serveRequests
  rw [hnone]
  show some { b with pipe := { b.pipe with dmemReq := { b.pipe.dmemReq with q := [] } } } = some b
  rw [← hnone]

section Serve

variable {b} {req : DmemRequest} (hreq : b.pipe.dmemReq.q = [req])

include hreq

theorem serveRequests_store {capacity : ℕ} {mem : IdealMem} (hstore : req.isStore = true)
    (hdata : req.data = req.writeData) (hmask : req.mask = req.writeMask)
    (hmem : b.mem.write capacity req.address req.writeData req.size = some mem) :
    b.serveRequests capacity = some
      { b.printAll (tohostPart req) with
        mem := mem
        pipe := { b.pipe with dmemReq := { b.pipe.dmemReq with q := [] } }
        sawTohost :=
          if req.address = tohostAddr then decide (req.writeData = 1) else b.sawTohost } := by
  unfold serveRequests
  rw [hreq]
  unfold serve tohostPart
  simp only [List.foldlM_cons, List.foldlM_nil]
  rw [hstore, Bool.true_or, if_pos rfl, hdata, hmask, ite_self, ite_self, hmem]
  show some _ = some _
  congr 1
  split_ifs
  · rfl
  · rw [printAll_nil]

theorem serveRequests_load (capacity : ℕ) (hload : req.isStore = false)
    (hcommand : req.command = .load) (hroom : b.pipe.dmemResp.full = false) :
    b.serveRequests capacity = some
      { b with
        pipe := { b.pipe with
          dmemReq := { b.pipe.dmemReq with q := [] }
          dmemResp := b.pipe.dmemResp.write (req.answer b.mem.readByte) } } := by
  unfold serveRequests
  rw [hreq]
  unfold serve DmemRequest.answer
  simp only [List.foldlM_cons, List.foldlM_nil]
  rw [hload, hcommand, hroom, IdealMem.readBeat_eq]
  rfl

end Serve

/-- The request that waits is answered. -/
theorem answerFetch_streams (hreq : b.pipe.imemReq.q.length ≤ 1)
    (hroom : b.pipe.imemResp.q.length < b.pipe.imemResp.maxSize) :
    b.pipe.SameRoom b.answerFetch.pipe ∧ b.answerFetch.pipe.imemReq.q = [] ∧
      b.answerFetch.pipe.imemResp.q =
        b.pipe.imemResp.q ++ b.pipe.imemReq.q.map (Program.answer b.mem.read) ∧
      b.answerFetch.pipe.dmemReq = b.pipe.dmemReq ∧
      b.answerFetch.pipe.dmemResp = b.pipe.dmemResp ∧
      b.answerFetch.pipe.commitTrace = b.pipe.commitTrace := by
  have hnot : b.pipe.imemResp.full = false := by
    unfold Stream.full
    exact decide_eq_false (Nat.not_le.mpr hroom)
  unfold answerFetch Stream.read
  cases hq : b.pipe.imemReq.q with
  | nil => exact ⟨.refl _, hq, (List.append_nil _).symm, rfl, rfl, rfl⟩
  | cons req rest =>
    rw [hq] at hreq
    obtain rfl : rest = [] := by simpa using hreq
    dsimp only
    rw [hnot, if_neg Bool.false_ne_true]
    exact ⟨⟨rfl, rfl, rfl, rfl, rfl⟩, rfl, rfl, rfl, rfl, rfl⟩

/-- The bench when the core has taken its step and the trace of the commits is printed. -/
def drained (out : BoomCoreState × PipeSignals) : Bench :=
  let events := branchPart out.1.execute.aluResult ++ commitPart out.2.commitTrace.q
  { b with
    state := out.1
    pipe := { out.2 with commitTrace := { out.2.commitTrace with q := [] } }
    lines := b.lines ++ linesFrom out.1.csr.cycle b.seq events
    seq := b.seq + events.length
    prefixCommits := b.prefixCommits + (commitPart out.2.commitTrace.q).length }

theorem cycle_eq {out : BoomCoreState × PipeSignals} {capacity target : ℕ}
    (hout : boomCoreStep b.state b.answerFetch.pipe = out)
    (hfits : b.prefixCommits + out.2.commitTrace.q.length ≤ target) :
    b.cycle capacity target = (b.drained out).serveRequests capacity := by
  have hstep : b.answerFetch.stepCore = { b with state := out.1, pipe := out.2 } := by
    unfold stepCore
    rw [answerFetch_eq, ← hout]
  unfold cycle
  dsimp only
  rw [hstep, printBranch_eq]
  show (drainCommits target out.2.commitTrace.q
    (printAll _ (branchPart out.1.execute.aluResult))).serveRequests capacity = _
  rw [drainCommits_eq, printAll_append]
  · rfl
  · exact hfits

end Bench

/-! ### The bench follows the core with its memory -/

/-- The bytes that the stores of the machine write are held. -/
def StoresHeld (capacity : ℕ) (program : Program) (m : Machine) : Prop :=
  ∀ req ∈ m.stores program, ∀ i < 8, req.writeMask.getLsbD i = true →
    IdealMem.Holds capacity (req.address + BitVec.ofNat 64 i)

/-- A store that ends the program. -/
def finishes (req : DmemRequest) : Bool :=
  decide (req.address = tohostAddr) && decide (req.writeData = 1)

/-- The bench is where the core with its memory is. -/
structure Bench.Follows (program : Program) (b : Bench) (ms : MemorySystem) : Prop where
  state : b.state = ms.sys.core
  words : b.mem.read = program
  bytes : b.mem.readByte = ms.processOne.memory
  pipe : b.answerFetch.pipe = ms.sys.ports program (ms.tickOf promptTick)

/-- The fields of the request of a store. -/
theorem stores_fields {program : Program} {m : Machine} {req : DmemRequest}
    (hreq : req ∈ m.stores program) :
    req.isStore = true ∧ req.data = req.writeData ∧ req.mask = req.writeMask ∧
      req.writeMask = maskForSize req.size := by
  unfold Machine.stores ArchState.stores at hreq
  split_ifs at hreq with hstore
  · obtain rfl := List.mem_singleton.mp hreq
    exact ⟨rfl, rfl, rfl, executeUop_mask (Bool.and_eq_true _ _ ▸ hstore).2⟩
  · exact absurd hreq List.not_mem_nil

section Follows

variable {program : Program} {b : Bench} {ms : MemorySystem} {m m' : Machine}
  {w w' : List Inflight} (hf : b.Follows program ms) (h : ms.Prompt program m w)
  (hidle : m.arch.halted = true → ms.Idle w)

omit hf in
include h hidle in
/-- At most one request waits for the data memory. -/
theorem requests_length : ms.requests.length ≤ 1 := by
  cases hrun : m.arch.halted with
  | true => exact (hidle hrun).requests
  | false =>
    cases h.rest hrun with
    | fetching _ _ drained _ =>
      rw [drained]
      exact Nat.zero_le 1
    | empty _ _ short _ => exact short
    | loading _ _ _ _ _ _ _ request _ =>
      rw [request]
      exact Nat.le_refl 1

omit hf in
include h hidle in
/-- The memory after a cycle, when no load and no answer is left over. -/
theorem cycle_memory :
    (ms.cycle program promptTick).requests =
        (ms.sys.coreStep program (ms.tickOf promptTick)).2.dmemReq.q ∧
      (ms.cycle program promptTick).answers = [] ∧
      (ms.cycle program promptTick).memory = ms.processOne.memory := by
  obtain ⟨hrequests, hanswers⟩ := h.served promptTick_prompt hidle
  refine ⟨?_, ?_, rfl⟩
  · show ms.processOne.requests ++ _ = _
    rw [hrequests, List.nil_append]
  · show ms.processOne.answers.eraseIdx 0 = []
    rw [hanswers]
    cases (ms.tickOf promptTick).dmemResp <;> rfl

end Follows

section Step

variable {program : Program} {b : Bench} {ms : MemorySystem} {m m' : Machine}
  {w w' : List Inflight} {target : ℕ}

/-- What a request of a cycle is: a load, or a store of the machine. -/
theorem request_cases (h : SysInv ms.sys w) {t : Tick}
    (hemits : (ms.sys.storeRequests program t).map DmemRequest.payload = [] ∨
      (ms.sys.storeRequests program t).map DmemRequest.payload = m.stores program)
    (hshort : (ms.sys.coreStep program t).2.dmemReq.q.length ≤ 1) :
    (ms.sys.coreStep program t).2.dmemReq.q = [] ∧ ms.sys.storeRequests program t = [] ∨
      (∃ req, (ms.sys.coreStep program t).2.dmemReq.q = [req] ∧ req.isStore = false ∧
        req.command = .load ∧ ms.sys.storeRequests program t = []) ∨
      ∃ req, (ms.sys.coreStep program t).2.dmemReq.q = [req] ∧
        ms.sys.storeRequests program t = [req] ∧ req.payload ∈ m.stores program := by
  have heq : _ = _ ++ ms.sys.storeRequests program t := h.requests_eq t
  rw [← System.commitPipe_dmemReq] at heq
  cases hstores : ms.sys.storeRequests program t with
  | nil =>
    rw [hstores, List.append_nil] at heq
    rcases ms.sys.commitPipe_requests program t with hpipe | ⟨entry, i, tx, hpipe⟩
    · exact Or.inl ⟨by rw [heq, hpipe], rfl⟩
    · exact Or.inr (Or.inl ⟨loadRequest entry i tx, by rw [heq, hpipe], rfl, rfl, rfl⟩)
  | cons req rest =>
    rw [hstores] at heq hemits
    rw [heq, List.length_append, List.length_cons] at hshort
    have hrest : rest = [] := List.length_eq_zero_iff.mp (by omega)
    have hpipe : (ms.sys.commitPipe program t).dmemReq.q = [] :=
      List.length_eq_zero_iff.mp (by omega)
    subst hrest
    rw [hpipe, List.nil_append] at heq
    refine Or.inr (Or.inr ⟨req, heq, rfl, ?_⟩)
    rcases hemits with hnone | hsame
    · simp at hnone
    · rw [← hsame]
      exact List.mem_singleton_self _

section Next

variable (h : ms.Prompt program m w) (hidle : m.arch.halted = true → ms.Idle w)
  (hnext : (ms.cycle program promptTick).Prompt program m' w')
  (hidle' : m'.arch.halted = true → (ms.cycle program promptTick).Idle w')

include h hnext hidle'

/-- Assumes: the bench has the state and the bytes of the next cycle. What the core has left on the
streams is on them, but for the records and the requests, which have been taken, and the answer,
which has been put there. The bench then follows the system into the next cycle. -/
theorem follows_next
    (hstate : b.state = (ms.sys.coreStep program (ms.tickOf promptTick)).1)
    (hwords : b.mem.read = program)
    (hbytes : b.mem.readByte = (ms.cycle program promptTick).processOne.memory)
    (hroom : (ms.sys.ports program (ms.tickOf promptTick)).SameRoom b.pipe)
    (himemReq : b.pipe.imemReq =
      (ms.sys.coreStep program (ms.tickOf promptTick)).2.imemReq)
    (himemResp : b.pipe.imemResp =
      (ms.sys.coreStep program (ms.tickOf promptTick)).2.imemResp)
    (hdmemReq : b.pipe.dmemReq.q = []) (hcommitTrace : b.pipe.commitTrace.q = [])
    (hdmemResp : b.pipe.dmemResp.q = (ms.cycle program promptTick).processOne.answers) :
    b.Follows program (ms.cycle program promptTick) := by
  refine ⟨hstate, hwords, hbytes, ?_⟩
  obtain ⟨himem, hlength⟩ :
      _ ∧ (ms.sys.coreStep program (ms.tickOf promptTick)).2.imemReq.q.length ≤ 1 :=
    h.inv.step.fetch.coreStep_imem (ms.tickOf promptTick) rfl
  have hfetch := hnext.inv.step.fetch
  have hresponse : (System.response program (ms.cycle program promptTick).sys
      ((ms.cycle program promptTick).tickOf promptTick)).toList = _ :=
    hfetch.response_toList ((ms.cycle program promptTick).tickOf promptTick) rfl
  have hsize : b.pipe.imemResp.maxSize = 1024 := hroom.imemResp
  have hshort : b.pipe.imemResp.q.length ≤ 1 := by
    have hle := hfetch.imem_length
    have heq := congrArg List.length himem
    simp only [List.length_append, List.length_map] at heq
    rw [himemResp]
    exact (Nat.le_add_right _ _).trans (heq.le.trans hle)
  obtain ⟨hsame, hreq, hresp, hdreq, hdresp, htrace⟩ := b.answerFetch_streams
    (by rw [himemReq]; exact hlength) (by rw [hsize]; omega)
  have hports : ((ms.cycle program promptTick).sys.ports program
      ((ms.cycle program promptTick).tickOf promptTick)).SameRoom
        (ms.sys.ports program (ms.tickOf promptTick)) := ⟨rfl, rfl, rfl, rfl, rfl⟩
  refine (hports.trans (hroom.trans hsame)).eq hreq ?_ ?_ ?_ ?_
  · rw [hresp, himemReq, himemResp, hwords]
    exact himem.trans hresponse.symm
  · rw [hdreq]
    exact hdmemReq
  · rw [hdresp, hdmemResp, (hnext.served promptTick_prompt hidle').2]
    rfl
  · rw [htrace]
    exact hcommitTrace

/-- What a cycle of the bench prints. -/
def cycleEvents (program : Program) (sys : System) (t : Tick) : List Event :=
  branchPart (sys.cycle program t).core.execute.aluResult ++
    commitPart (sys.coreStep program t).2.commitTrace.q ++
    (sys.storeRequests program t).flatMap tohostPart

/-- The counters of the bench and its lines after a cycle. -/
structure Printed (program : Program) (sys : System) (t : Tick) (b b' : Bench) : Prop where
  lines : b'.lines = b.lines ++
    linesFrom (sys.cycle program t).core.csr.cycle b.seq (cycleEvents program sys t)
  seq : b'.seq = b.seq + (cycleEvents program sys t).length
  prefixCommits : b'.prefixCommits = b.prefixCommits +
    (commitPart (sys.coreStep program t).2.commitTrace.q).length
  sawTohost : b.sawTohost = false →
    b'.sawTohost = (sys.storeRequests program t).any finishes

omit h hnext hidle' in
/-- The bench before it serves the requests has printed what a cycle without a store prints. -/
theorem drained_printed {t : Tick} (hnone : ms.sys.storeRequests program t = []) :
    Printed program ms.sys t b (b.drained (ms.sys.coreStep program t)) := by
  have hevents : cycleEvents program ms.sys t =
      branchPart (ms.sys.coreStep program t).1.execute.aluResult ++
        commitPart (ms.sys.coreStep program t).2.commitTrace.q := by
    unfold cycleEvents
    rw [hnone, List.flatMap_nil, List.append_nil]
    rfl
  refine ⟨?_, ?_, rfl, fun hsaw ↦ ?_⟩
  · rw [hevents]
    rfl
  · rw [hevents]
    rfl
  · rw [hnone]
    exact hsaw

omit h hnext hidle' in
theorem drained_room (b : Bench) : (ms.sys.ports program (ms.tickOf promptTick)).SameRoom
    (b.drained (ms.sys.coreStep program (ms.tickOf promptTick))).pipe := by
  obtain ⟨hroom, -⟩ := ms.sys.coreStep_streams program (ms.tickOf promptTick)
  exact ⟨hroom.imemReq, hroom.imemResp, hroom.dmemReq, hroom.dmemResp, hroom.commitTrace⟩

section Serve

variable {capacity : ℕ} {req : DmemRequest} (hf : b.Follows program ms)

include hidle hf

omit hnext hidle' in
theorem Bench.Follows.memory : b.mem.readByte = (ms.cycle program promptTick).memory := by
  rw [(cycle_memory h hidle).2.2]
  exact hf.bytes

/-- Nothing is requested. -/
theorem served_nil (hq : (ms.sys.coreStep program (ms.tickOf promptTick)).2.dmemReq.q = [])
    (hnone : ms.sys.storeRequests program (ms.tickOf promptTick) = []) :
    ∃ b', (b.drained (ms.sys.coreStep program (ms.tickOf promptTick))).serveRequests capacity =
        some b' ∧ b'.Follows program (ms.cycle program promptTick) ∧
      Printed program ms.sys (ms.tickOf promptTick) b b' := by
  obtain ⟨hrequests, hanswers, -⟩ := cycle_memory h hidle
  have hbytes := hf.memory h hidle
  have hprocessed : (ms.cycle program promptTick).processOne = ms.cycle program promptTick := by
    unfold MemorySystem.processOne
    rw [hrequests, hq]
  refine ⟨_, Bench.serveRequests_nil _ capacity hq,
    follows_next h hnext hidle' rfl hf.words ?_ (drained_room b) rfl rfl hq rfl ?_,
    drained_printed hnone⟩
  · rw [hprocessed]
    exact hbytes
  · rw [hprocessed, hanswers]
    exact (ms.sys.coreStep_streams program (ms.tickOf promptTick)).2

/-- A load is answered with the bytes as they are. -/
theorem served_load (hq : (ms.sys.coreStep program (ms.tickOf promptTick)).2.dmemReq.q = [req])
    (hload : req.isStore = false) (hcommand : req.command = .load)
    (hnone : ms.sys.storeRequests program (ms.tickOf promptTick) = []) :
    ∃ b', (b.drained (ms.sys.coreStep program (ms.tickOf promptTick))).serveRequests capacity =
        some b' ∧ b'.Follows program (ms.cycle program promptTick) ∧
      Printed program ms.sys (ms.tickOf promptTick) b b' := by
  obtain ⟨hrequests, hanswers, -⟩ := cycle_memory h hidle
  have hbytes := hf.memory h hidle
  have hdrained := (ms.sys.coreStep_streams program (ms.tickOf promptTick)).2
  have hroom : (ms.sys.ports program (ms.tickOf promptTick)).SameRoom
      (b.drained (ms.sys.coreStep program (ms.tickOf promptTick))).pipe := drained_room b
  have hprocessed : (ms.cycle program promptTick).processOne =
      { ms.cycle program promptTick with
        requests := [], answers := [req.answer (ms.cycle program promptTick).memory] } := by
    unfold MemorySystem.processOne
    rw [hrequests, hq]
    dsimp only
    rw [hload, if_neg Bool.false_ne_true, hanswers]
    unfold DmemRequest.perform
    rw [hload, if_neg Bool.false_ne_true]
    rfl
  have hnotFull : (b.drained (ms.sys.coreStep program
      (ms.tickOf promptTick))).pipe.dmemResp.full = false := by
    unfold Stream.full
    rw [hroom.dmemResp]
    refine decide_eq_false (Nat.not_le.mpr ?_)
    show (ms.sys.coreStep program (ms.tickOf promptTick)).2.dmemResp.q.length < 1024
    rw [hdrained]
    decide
  have hprinted : Printed program ms.sys (ms.tickOf promptTick) b
      (b.drained (ms.sys.coreStep program (ms.tickOf promptTick))) := drained_printed hnone
  refine ⟨_, Bench.serveRequests_load hq capacity hload hcommand hnotFull,
    follows_next h hnext hidle' rfl hf.words ?_
      ⟨hroom.imemReq, hroom.imemResp, hroom.dmemReq, hroom.dmemResp, hroom.commitTrace⟩
      rfl rfl rfl rfl ?_,
    ⟨hprinted.lines, hprinted.seq, hprinted.prefixCommits, hprinted.sawTohost⟩⟩
  · rw [hprocessed]
    exact hbytes
  · rw [hprocessed, ← hbytes]
    show (ms.sys.coreStep program (ms.tickOf promptTick)).2.dmemResp.q ++ [_] = [_]
    rw [hdrained]
    rfl

/-- A store is performed, and ends the program when it writes one to `tohost`. -/
theorem served_store (hq : (ms.sys.coreStep program (ms.tickOf promptTick)).2.dmemReq.q = [req])
    (hstore : ms.sys.storeRequests program (ms.tickOf promptTick) = [req])
    (hmachine : req.payload ∈ m.stores program) (hheld : StoresHeld capacity program m) :
    ∃ b', (b.drained (ms.sys.coreStep program (ms.tickOf promptTick))).serveRequests capacity =
        some b' ∧ b'.Follows program (ms.cycle program promptTick) ∧
      Printed program ms.sys (ms.tickOf promptTick) b b' := by
  obtain ⟨hrequests, hanswers, -⟩ := cycle_memory h hidle
  have hroom : (ms.sys.ports program (ms.tickOf promptTick)).SameRoom
      (b.drained (ms.sys.coreStep program (ms.tickOf promptTick))).pipe := drained_room b
  have hfields := stores_fields hmachine
  obtain ⟨hisStore, hdata, hmask, hsize⟩ : req.isStore = true ∧ req.data = req.writeData ∧
    req.mask = req.writeMask ∧ req.writeMask = maskForSize req.size := hfields
  have hprocessed : (ms.cycle program promptTick).processOne =
      { ms.cycle program promptTick with
        requests := [], answers := []
        memory := req.perform (ms.cycle program promptTick).memory } := by
    unfold MemorySystem.processOne
    rw [hrequests, hq]
    dsimp only
    rw [hisStore, if_pos rfl, hanswers]
  have hlanes : ∀ i < 8, (maskForSize req.size).getLsbD i = true →
      IdealMem.Holds capacity (req.address + BitVec.ofNat 64 i) := fun i hi hbit ↦ by
    rw [← hsize] at hbit
    exact hheld _ hmachine i hi hbit
  obtain ⟨mem, hmem, hwords, hbytes⟩ := b.mem.write_spec req.writeData hlanes
  refine ⟨_, Bench.serveRequests_store hq hisStore hdata hmask hmem,
    follows_next h hnext hidle' rfl ?_ ?_
      ⟨hroom.imemReq, hroom.imemResp, hroom.dmemReq, hroom.dmemResp, hroom.commitTrace⟩
      rfl rfl rfl rfl ?_, ?_⟩
  · refine Eq.trans ?_ hf.words
    show mem.read = b.mem.read
    unfold IdealMem.read
    rw [hwords]
  · rw [hprocessed]
    show mem.readByte = _
    rw [hbytes]
    unfold DmemRequest.perform
    rw [hisStore, if_pos rfl, hsize, ← hf.memory h hidle]
  · rw [hprocessed]
    exact (ms.sys.coreStep_streams program (ms.tickOf promptTick)).2
  · have hevents : cycleEvents program ms.sys (ms.tickOf promptTick) =
        (branchPart (ms.sys.coreStep program (ms.tickOf promptTick)).1.execute.aluResult ++
          commitPart (ms.sys.coreStep program (ms.tickOf promptTick)).2.commitTrace.q) ++
            tohostPart req := by
      unfold cycleEvents
      rw [hstore, List.flatMap_singleton]
      rfl
    refine ⟨?_, ?_, rfl, fun hsaw ↦ ?_⟩
    · rw [hevents, linesFrom_append, ← List.append_assoc]
      rfl
    · rw [hevents, List.length_append, ← Nat.add_assoc]
      rfl
    · rw [hstore, List.any_cons, List.any_nil, Bool.or_false]
      unfold finishes
      show (if req.address = tohostAddr then decide (req.writeData = 1) else b.sawTohost) = _
      rw [hsaw]
      split_ifs with htohost
      · rw [decide_eq_true htohost, Bool.true_and]
      · rw [decide_eq_false htohost, Bool.false_and]

/-- Assumes: the bytes that the machine stores are held, and there is room for what the core
retires. A cycle of the bench is a cycle of the core with its memory, and prints what it emits. -/
theorem Bench.Follows.cycle (hheld : StoresHeld capacity program m)
    (hemits : (ms.sys.storeRequests program (ms.tickOf promptTick)).map DmemRequest.payload = [] ∨
      (ms.sys.storeRequests program (ms.tickOf promptTick)).map DmemRequest.payload =
        m.stores program)
    (hfits : b.prefixCommits +
      (ms.sys.coreStep program (ms.tickOf promptTick)).2.commitTrace.q.length ≤ target) :
    ∃ b', b.cycle capacity target = some b' ∧ b'.Follows program (ms.cycle program promptTick) ∧
      Printed program ms.sys (ms.tickOf promptTick) b b' := by
  have hshort := requests_length hnext hidle'
  rw [(cycle_memory h hidle).1] at hshort
  have hout : boomCoreStep b.state b.answerFetch.pipe =
      ms.sys.coreStep program (ms.tickOf promptTick) := by
    rw [hf.state, hf.pipe]
    rfl
  rw [b.cycle_eq hout hfits]
  rcases request_cases h.inv hemits hshort with
    ⟨hq, hnone⟩ | ⟨req, hq, hload, hcommand, hnone⟩ | ⟨req, hq, hstore, hmachine⟩
  · exact served_nil h hidle hnext hidle' hf hq hnone
  · exact served_load h hidle hnext hidle' hf hq hload hcommand hnone
  · exact served_store h hidle hnext hidle' hf hq hstore hmachine hheld

end Serve

end Next

end Step

end PrefixTrace

end BoomCore
