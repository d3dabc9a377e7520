import BoomCore.Model.Loadmem
import BoomCore.Model.Step

/-!
# The test bench that writes prefix traces

`tb/differential/hls_prefix_trace_tb.cpp`, from the text of a program image to the lines of the
trace. The instruction memory answers with the words as they were loaded, the data memory holds
bytes that stores change. A store behind the end of the bytes resizes their vector; `capacity` is
the largest size that this can give, at most `max_size()`, and a larger one throws, so that the
bench ends without a verdict: `none`. A line is kept as the event that it prints; `Line.raw` is the
record that the scripts read from it.
-/

set_option autoImplicit false
set_option relaxedAutoImplicit false

namespace BoomCore.PrefixTrace

open Loadmem

structure ProgramSpec where
  prefixCommits : ℕ
  unsupportedPc : BitVec 64
  unsupportedInst : BitVec 32

def entryPc : BitVec 64 := 0x80000000#64

def tohostAddr : BitVec 64 := 0x80000080#64

def maxCycles : ℕ := 500

/-! ### The memory -/

structure IdealMem where
  words : List (BitVec 32) := []
  bytes : List (BitVec 8) := []

namespace IdealMem

variable (m : IdealMem)

def appendWord (word : BitVec 32) : IdealMem :=
  { words := m.words ++ [word]
    bytes := m.bytes ++ [(word &&& 0xff#32).setWidth 8, ((word >>> 8) &&& 0xff#32).setWidth 8,
      ((word >>> 16) &&& 0xff#32).setWidth 8, ((word >>> 24) &&& 0xff#32).setWidth 8] }

/-- What `load_hex` does with the token of a line. -/
def appendToken (text : List Char) : IdealMem :=
  let value := BitVec.ofNat 64 (strtoull text)
  if text = [] then m
  else if Loadmem.byteSize text ≤ 8 then m.appendWord ((value &&& 0xffffffff#64).setWidth 32)
  else (m.appendWord ((value &&& 0xffffffff#64).setWidth 32)).appendWord
    (((value >>> 32) &&& 0xffffffff#64).setWidth 32)

def loadHex (text : List Char) : IdealMem :=
  (getlines text).foldl (fun m line ↦ m.appendToken (Loadmem.IdealMem.token line)) {}

def read (addr : BitVec 64) : BitVec 32 :=
  if addr < entryPc then 0 else m.words.getD ((addr - entryPc) >>> 2).toNat 0

def readByte (addr : BitVec 64) : BitVec 8 :=
  if addr < entryPc then 0 else m.bytes.getD (addr - entryPc).toNat 0

def readBeat (addr : BitVec 64) : BitVec 64 :=
  (List.range 8).foldl
    (fun value i ↦ value |||
      (m.readByte ((addr &&& ~~~7#64) + BitVec.ofNat 64 i)).setWidth 64 <<< (8 * i)) 0

variable (capacity : ℕ)

/-- Nothing when `resize` throws. -/
def writeByte (addr : BitVec 64) (value : BitVec 8) : Option IdealMem :=
  let offset := (addr - entryPc).toNat
  if addr < entryPc then some m
  else if m.bytes.length ≤ offset ∧ capacity ≤ offset then none
  else some { m with bytes := (m.bytes.rightpad (offset + 1) 0).set offset value }

def write (addr data : BitVec 64) (size : ℕ) : Option IdealMem :=
  (List.range (if 3 ≤ size then 8 else 1 <<< size)).foldlM
    (fun m i ↦ writeByte m capacity (addr + BitVec.ofNat 64 i)
      (((data >>> (8 * i)) &&& 0xff#64).setWidth 8))
    m

end IdealMem

/-! ### The trace -/

inductive Event
  | metadata (commits : ℕ) (status : String)
  | branch (pc : BitVec 64) (inst : BitVec 32) (mispredict : Bool) (target : BitVec 64)
  | commit (ce : CommitEntry)
  | tohost (address value : BitVec 64) (mask : BitVec 8) (committed : Bool)
  | unsupportedBoundary (pc : BitVec 64) (inst : BitVec 32)

structure Line where
  event : Event
  cycle : BitVec 64
  seq : ℕ

/-- `is_control_inst` -/
def isControlInst (inst : BitVec 32) : Bool :=
  let opcode := inst &&& 0x7f#32
  opcode == 0x63#32 || opcode == 0x6f#32 || opcode == 0x67#32

/-! ### The loop -/

structure Bench where
  state : BoomCoreState
  pipe : PipeSignals := {}
  mem : IdealMem
  lines : List Line := []
  seq : ℕ := 0
  prefixCommits : ℕ := 0
  sawTohost : Bool := false

namespace Bench

variable (b : Bench)

/-- Prints a line, with the cycle counter of the core and the next number of the sequence. -/
def print (event : Event) : Bench :=
  { b with
    lines := b.lines ++ [{ event := event, cycle := b.state.csr.cycle, seq := b.seq }]
    seq := b.seq + 1 }

/-- The block under `!pipe.imem_req.empty()`. -/
def answerFetch : Bench :=
  match b.pipe.imemReq.read with
  | none => b
  | some (req, rest) =>
    { b with
      pipe := { b.pipe with
        imemReq := rest
        imemResp :=
          if b.pipe.imemResp.full then b.pipe.imemResp
          else b.pipe.imemResp.write
            { address := req.address, fetchId := req.fetchId
              instruction := b.mem.read req.address } } }

def stepCore : Bench :=
  let out := boomCoreStep b.state b.pipe
  { b with state := out.1, pipe := out.2 }

/-- The loop over the lanes, of which there is one. -/
def printBranch : Bench :=
  let r := b.state.execute.aluResult
  if !r.valid || !isControlInst r.uop.inst || decide (r.uop.debugPc < entryPc) then b
  else b.print (.branch r.uop.debugPc r.uop.inst r.mispredict r.redirectPc)

/-- What is left on `commit_trace`. -/
def leaveCommits (rest : List CommitEntry) : Bench :=
  { b with pipe := { b.pipe with commitTrace := { b.pipe.commitTrace with q := rest } } }

/-- The loop under `!pipe.commit_trace.empty() && prefix_commits < target_commits`, over what is on
the stream. -/
def drainCommits (target : ℕ) : List CommitEntry → Bench → Bench
  | [], b => b.leaveCommits []
  | ce :: rest, b =>
    if b.prefixCommits < target then
      if ce.pc < entryPc then drainCommits target rest b
      else drainCommits target rest
        { b.print (.commit ce) with prefixCommits := b.prefixCommits + 1 }
    else b.leaveCommits (ce :: rest)

/-- What happens to a request from `dmem_req`. -/
def serve (capacity : ℕ) (b : Bench) (req : DmemRequest) : Option Bench :=
  if req.isStore || req.command == .store then
    let storeData := if req.writeData ≠ 0 then req.writeData else req.data
    let storeMask := if req.writeMask ≠ 0 then req.writeMask else req.mask
    (b.mem.write capacity req.address storeData req.size).map fun mem ↦
      let b := { b with mem := mem }
      if req.address = tohostAddr then
        { b.print (.tohost req.address storeData storeMask req.committed) with
          sawTohost := decide (storeData = 1) }
      else b
  else
    some
      { b with
        pipe := { b.pipe with
          dmemResp :=
            if b.pipe.dmemResp.full then b.pipe.dmemResp
            else b.pipe.dmemResp.write
              { transactionId := req.transactionId, data := b.mem.readBeat req.address
                readData := b.mem.readBeat req.address } } }

/-- The loop under `!pipe.dmem_req.empty()`. -/
def serveRequests (capacity : ℕ) : Option Bench :=
  (b.pipe.dmemReq.q.foldlM (serve capacity) b).map fun served ↦
    { served with pipe := { served.pipe with dmemReq := { served.pipe.dmemReq with q := [] } } }

/-- The body of the loop of `run_program`. -/
def cycle (capacity target : ℕ) : Option Bench :=
  let stepped := b.answerFetch.stepCore.printBranch
  (stepped.drainCommits target stepped.pipe.commitTrace.q).serveRequests capacity

/-- `prefix_commits < target_commits && !saw_tohost` -/
def running (target : ℕ) : Bool := decide (b.prefixCommits < target) && !b.sawTohost

/-- The loop of `run_program`, for at most the given number of cycles. -/
def loop (capacity target : ℕ) : ℕ → Bench → Option Bench
  | 0, b => some b
  | fuel + 1, b =>
    if b.running target then (b.cycle capacity target).bind (loop capacity target fuel) else some b

end Bench

/-- The state of the core that `run_program` starts with. -/
def startState : BoomCoreState := { frontend := { pc := entryPc, resetDone := true } }

variable (spec : ProgramSpec) (complete : Bool)

def ProgramSpec.target : ℕ := spec.prefixCommits + if complete then 1 else 0

/-- What `run_program` has before its loop. -/
def Bench.start (mem : IdealMem) : Bench :=
  ({ state := startState, mem := mem } : Bench).print (.metadata 0 "running")

/-- The two tests that set `ok`. -/
def Bench.ok (b : Bench) : Bool :=
  if complete then b.sawTohost && b.prefixCommits == spec.target complete
  else b.prefixCommits == spec.prefixCommits

/-- The status in the last line. -/
def endStatus (ok : Bool) : String :=
  if ok then if complete then "complete_tohost" else "prefix_complete"
  else if complete then "complete_incomplete" else "prefix_incomplete"

/-- What `run_program` prints behind its loop. -/
def Bench.finish (b : Bench) : Bench :=
  let bounded :=
    if !complete && b.prefixCommits == spec.prefixCommits then
      b.print (.unsupportedBoundary spec.unsupportedPc spec.unsupportedInst)
    else b
  bounded.print (.metadata b.prefixCommits (endStatus complete (b.ok spec complete)))

/-- `run_program` on the text of the image: its verdict and the lines of the trace. Nothing is
written when the image holds no word. -/
def runProgram (capacity : ℕ) (text : List Char) : Option (Bool × List Line) :=
  if (IdealMem.loadHex text).words = [] then some (false, [])
  else
    ((Bench.start (.loadHex text)).loop capacity (spec.target complete) maxCycles).map fun b ↦
      (b.ok spec complete, (b.finish spec complete).lines)

/-! ### The records -/

open Trace

/-- A number that is printed with the given number of digits. -/
def hexField (n width : ℕ) : HexField := ⟨.str (fmtHex n width), some n, parseInt_fmtHex n width⟩

/-- The record that the scripts read from a line. -/
def Line.raw (line : Line) : RawRecord :=
  let cycle : IntField := .ofInt line.cycle.toNat
  let traceSequenceId : IntField := .ofInt line.seq
  match line.event with
  | .metadata _ _ => { event := .metadata, cycle := cycle, traceSequenceId := traceSequenceId }
  | .branch pc inst mispredict target =>
    { event := .branch, cycle := cycle, traceSequenceId := traceSequenceId, slot := .ofInt 0
      pc := hexField pc.toNat 16, instruction := hexField inst.toNat 8
      taken := some mispredict, branchMispredict := some mispredict
      target := hexField target.toNat 16 }
  | .commit ce =>
    { event := .commit, cycle := cycle, traceSequenceId := traceSequenceId, slot := .ofInt 0
      pc := hexField ce.pc.toNat 16, instruction := hexField ce.inst.toNat 8
      rdValid := .bool ce.rdValid
      rd := if ce.rdValid then .ofInt ce.rd else .absent
      rdValue := if ce.rdValid then hexField ce.rdValue.toNat 16 else .absent
      exception := .bool ce.exception
      exceptionCause := if ce.exception then .ofInt 0 else .absent
      archValid := some (.bool true) }
  | .tohost _ _ _ _ => { event := .tohost, cycle := cycle, traceSequenceId := traceSequenceId }
  | .unsupportedBoundary pc inst =>
    { event := .unsupportedBoundary, cycle := cycle, traceSequenceId := traceSequenceId
      pc := hexField pc.toNat 16, instruction := hexField inst.toNat 8
      reason := .str "prefix trace mode excludes the retired store-to-tohost boundary" }

end BoomCore.PrefixTrace
