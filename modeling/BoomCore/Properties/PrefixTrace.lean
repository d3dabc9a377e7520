import BoomCore.Proof.PrefixRun
import BoomCore.Properties.MemoryRefinement

/-!
# The trace of the bench is the trace of the machine

`run_program` prints the commits, the branches and the stores to `tohost` of the sequential machine,
from the entry of the image on (`runProgram_trace`): it stops with the first step of the machine
with which the target is reached or a one is written to `tohost`, and its verdict is whether that
step is the one that the program table names, unless this takes more than half of the cycles
(`runProgram_verdict`).
-/

set_option autoImplicit false
set_option relaxedAutoImplicit false

namespace BoomCore

namespace PrefixTrace

/-! ### Statements -/

/-- The values of `event` in the lines. -/
inductive Kind
  | metadata
  | branch
  | commit
  | tohost
  | unsupportedBoundary
  deriving DecidableEq

def Event.kind : Event → Kind
  | metadata _ _ => .metadata
  | branch _ _ _ _ => .branch
  | commit _ => .commit
  | tohost _ _ _ _ => .tohost
  | unsupportedBoundary _ _ => .unsupportedBoundary

/-- The events of one kind, in order. -/
def ofKind (kind : Kind) (events : List Event) : List Event :=
  events.filter fun event ↦ decide (event.kind = kind)

section Statements

variable (mem : IdealMem)

/-- The sequential machine on the image, before step `k`. -/
def machine (k : ℕ) : Machine :=
  (Machine.step mem.read)^[k] { arch := { pc := entryPc }, memory := mem.readByte }

/-- The commits of the machine before step `k`, as the bench prints them. -/
def machineCommits (k : ℕ) : List Event :=
  Run.outputs (fun i ↦ commitEvents mem.read (machine mem i)) k

/-- The stores of the machine to `tohost` before step `k`. -/
def machineTohosts (k : ℕ) : List Event :=
  Run.outputs (fun i ↦ tohostEvents mem.read (machine mem i)) k

/-- The control transfers of the machine before step `j`. -/
def machineBranches (j : ℕ) : List Event :=
  Run.outputs (fun i ↦ branchEvents mem.read (machine mem i)) j

/-- The machine has written a one to `tohost` before step `k`. -/
def machineEnded (k : ℕ) : Bool :=
  (Run.outputs (fun i ↦ (machine mem i).stores mem.read) k).any finishes

/-- The bench stops when the machine is before step `k`. -/
def stops (target k : ℕ) : Bool :=
  decide (target ≤ (machineCommits mem k).length) || machineEnded mem k

/-- The verdict on the machine before step `k`. -/
def accepts (spec : ProgramSpec) (complete : Bool) (k : ℕ) : Bool :=
  if complete then machineEnded mem k && (machineCommits mem k).length == spec.target complete
  else (machineCommits mem k).length == spec.prefixCommits

end Statements

/-! ### The events of a cycle -/

theorem linesFrom_event (cycle : BitVec 64) (seq : ℕ) (events : List Event) :
    (linesFrom cycle seq events).map Line.event = events := by
  induction events generalizing seq with
  | nil => rfl
  | cons event rest ih => rw [linesFrom, List.map_cons, ih]

@[simp]
theorem ofKind_append (kind : Kind) (events events' : List Event) :
    ofKind kind (events ++ events') = ofKind kind events ++ ofKind kind events' :=
  List.filter_append _ _

theorem ofKind_of_forall {events : List Event} {kind kind' : Kind}
    (h : ∀ event ∈ events, event.kind = kind') :
    ofKind kind events = if kind' = kind then events else [] := by
  unfold ofKind
  split_ifs with heq
  · exact List.filter_eq_self.mpr fun event hevent ↦ decide_eq_true ((h event hevent).trans heq)
  · exact List.filter_eq_nil_iff.mpr fun event hevent ↦ by
      rw [h event hevent]
      simpa using heq

theorem branchPart_kind (r : AluResult) : ∀ event ∈ branchPart r, event.kind = .branch := by
  intro event hevent
  unfold branchPart at hevent
  split_ifs at hevent
  · exact absurd hevent List.not_mem_nil
  · rw [List.mem_singleton.mp hevent]
    rfl

theorem commitPart_kind (records : List CommitEntry) :
    ∀ event ∈ commitPart records, event.kind = .commit := by
  intro event hevent
  obtain ⟨ce, -, rfl⟩ := List.mem_map.mp hevent
  rfl

theorem tohostPart_kind (reqs : List DmemRequest) :
    ∀ event ∈ reqs.flatMap tohostPart, event.kind = .tohost := by
  intro event hevent
  obtain ⟨req, -, hpart⟩ := List.mem_flatMap.mp hevent
  unfold tohostPart at hpart
  split_ifs at hpart
  · rw [List.mem_singleton.mp hpart]
    rfl
  · exact absurd hpart List.not_mem_nil

/-- The events of a cycle by their kind. -/
theorem cycleEvents_kinds (program : Program) (sys : System) (t : Tick) :
    ofKind .commit (cycleEvents program sys t) =
        commitPart (sys.coreStep program t).2.commitTrace.q ∧
      ofKind .branch (cycleEvents program sys t) =
        branchPart (sys.cycle program t).core.execute.aluResult ∧
      ofKind .tohost (cycleEvents program sys t) =
        (sys.storeRequests program t).flatMap tohostPart := by
  unfold cycleEvents
  simp only [ofKind_append, ofKind_of_forall (branchPart_kind _),
    ofKind_of_forall (commitPart_kind _), ofKind_of_forall (tohostPart_kind _), reduceCtorEq,
    if_false, if_true, List.append_nil, List.nil_append]
  exact ⟨trivial, trivial, trivial⟩

/-- Only the payload of a store is printed and looked at. -/
theorem stores_payload {reqs : List DmemRequest} {stores : List DmemRequest}
    (h : reqs.map DmemRequest.payload = stores) :
    reqs.flatMap tohostPart = stores.flatMap tohostPart ∧
      reqs.any finishes = stores.any finishes := by
  rw [← h, List.flatMap_map, List.any_map]
  exact ⟨rfl, rfl⟩

/-! ### The loop -/

def Bench.events (b : Bench) : List Event := b.lines.map Line.event

/-- The bench before cycle `n`, with what it has printed: the commits and the stores of the machine
before step `k`, and the control transfers of the `j` instructions that have been handed over. The
machine has not come to the end before step `k`. -/
structure Logged (mem : IdealMem) (target : ℕ) (b : Bench) (n k j : ℕ) : Prop where
  place : ∃ ms w, Place mem.read (machine mem k) ms w n k j ∧ b.Follows mem.read ms
  commits : ofKind .commit b.events = machineCommits mem k
  tohosts : ofKind .tohost b.events = machineTohosts mem k
  branches : ofKind .branch b.events = machineBranches mem j
  prefixCommits : b.prefixCommits = (machineCommits mem k).length
  sawTohost : b.sawTohost = machineEnded mem k
  before : ∀ i < k, stops mem target i = false

section Loop

variable {mem : IdealMem} {capacity target : ℕ} {b : Bench} {n k j : ℕ}

theorem Logged.running_eq (h : Logged mem target b n k j) :
    b.running target = !stops mem target k := by
  unfold Bench.running stops
  rw [h.prefixCommits, h.sawTohost, Bool.not_or, ← decide_not]
  simp only [Nat.not_le]

/-- At most one instruction is in flight. -/
theorem Place.le_succ {program : Program} {m : Machine} {ms : MemorySystem} {w : List Inflight}
    (h : Place program m ms w n k j) : k ≤ j ∧ j ≤ k + 1 := by
  cases hrun : m.arch.halted with
  | true =>
    rw [h.stopped hrun]
    exact ⟨Nat.le_refl k, Nat.le_succ k⟩
  | false =>
    rw [(h.running hrun).1]
    exact ⟨Nat.le_add_right _ _, Nat.add_le_add_left (h.prompt.short hrun) k⟩

theorem machine_succ (mem : IdealMem) (k : ℕ) :
    machine mem (k + 1) = (machine mem k).step mem.read := Function.iterate_succ_apply' _ _ _

theorem machine_add (mem : IdealMem) (i k : ℕ) :
    machine mem (i + k) = (Machine.step mem.read)^[i] (machine mem k) :=
  Function.iterate_add_apply _ _ _ _

theorem Bench.running_iff :
    b.running target = true ↔ b.prefixCommits < target ∧ b.sawTohost = false := by
  unfold Bench.running
  rw [Bool.and_eq_true, decide_eq_true_eq, Bool.not_eq_true']

section Output

variable {program : Program} {m : Machine} {sys : System} {t : Tick} {b' : Bench}

theorem commitTrace_length_le (h : Quiet program sys t ∨ Emits program sys t m) :
    (sys.coreStep program t).2.commitTrace.q.length ≤ 1 := by
  rcases h with hquiet | hemits
  · rw [hquiet.1]
    exact Nat.zero_le 1
  · rw [hemits.1]
    unfold Machine.commits
    split_ifs
    · exact Nat.le_refl 1
    · exact Nat.zero_le 1

theorem payload_storeRequests (h : Quiet program sys t ∨ Emits program sys t m) :
    (sys.storeRequests program t).map DmemRequest.payload = [] ∨
      (sys.storeRequests program t).map DmemRequest.payload = m.stores program := by
  rcases h with hquiet | hemits
  · exact Or.inl (by rw [hquiet.2, List.map_nil])
  · exact Or.inr hemits.2

theorem Printed.events (h : Printed program sys t b b') :
    b'.events = b.events ++ cycleEvents program sys t := by
  unfold Bench.events
  rw [h.lines, List.map_append, linesFrom_event]

end Output

section Cycle

variable {sys : System} {t : Tick} {b' : Bench} {j' : ℕ} (h : Logged mem target b n k j)
  (hrunning : b.running target = true) (hprinted : Printed mem.read sys t b b')
  (hbranches : ofKind .branch b'.events = machineBranches mem j')

include h hrunning hprinted hbranches

/-- A cycle without a record and without a store. -/
theorem Logged.quiet (hquiet : Quiet mem.read sys t)
    (hplace : ∃ ms w, Place mem.read (machine mem k) ms w (n + 1) k j' ∧
      b'.Follows mem.read ms) : Logged mem target b' (n + 1) k j' := by
  obtain ⟨hcommit, -, htohost⟩ := cycleEvents_kinds mem.read sys t
  have hsaw := (Bench.running_iff.mp hrunning).2
  refine ⟨hplace, ?_, ?_, hbranches, ?_, ?_, h.before⟩
  · rw [hprinted.events, ofKind_append, h.commits, hcommit, hquiet.1]
    exact List.append_nil _
  · rw [hprinted.events, ofKind_append, h.tohosts, htohost, hquiet.2]
    exact List.append_nil _
  · rw [hprinted.prefixCommits, hquiet.1, h.prefixCommits]
    rfl
  · rw [hprinted.sawTohost hsaw, hquiet.2, ← h.sawTohost, hsaw]
    rfl

/-- A cycle with what the machine produces in step `k`. -/
theorem Logged.emits (hemits : Emits mem.read sys t (machine mem k))
    (hplace : ∃ ms w, Place mem.read (machine mem (k + 1)) ms w (n + 1) (k + 1) j' ∧
      b'.Follows mem.read ms) : Logged mem target b' (n + 1) (k + 1) j' := by
  obtain ⟨hcommit, -, htohost⟩ := cycleEvents_kinds mem.read sys t
  obtain ⟨htohosts, hfinish⟩ := stores_payload hemits.2
  have hsaw := (Bench.running_iff.mp hrunning).2
  have hstop : stops mem target k = false := by
    rw [h.running_eq] at hrunning
    simpa using hrunning
  refine ⟨hplace, ?_, ?_, hbranches, ?_, ?_, fun i hi ↦ ?_⟩
  · rw [hprinted.events, ofKind_append, h.commits, hcommit, hemits.1]
    exact (Run.outputs_succ _ k).symm
  · rw [hprinted.events, ofKind_append, h.tohosts, htohost, htohosts]
    exact (Run.outputs_succ _ k).symm
  · unfold machineCommits
    rw [Run.outputs_succ, List.length_append, hprinted.prefixCommits, h.prefixCommits, hemits.1]
    rfl
  · have hold := h.sawTohost
    rw [hsaw] at hold
    unfold machineEnded at hold ⊢
    rw [hprinted.sawTohost hsaw, hfinish, Run.outputs_succ, List.any_append, ← hold,
      Bool.false_or]
  · rcases Nat.lt_succ_iff_lt_or_eq.mp hi with hlt | rfl
    · exact h.before i hlt
    · exact hstop

end Cycle

variable (horderly : ∀ k, (machine mem k).Orderly mem.read)
  (hheld : ∀ k, StoresHeld capacity mem.read (machine mem k))

include horderly hheld

/-- A cycle of the loop, when it is taken. -/
theorem Logged.cycle (h : Logged mem target b n k j) (hrunning : b.running target = true) :
    ∃ b' k' j', b.cycle capacity target = some b' ∧ Logged mem target b' (n + 1) k' j' := by
  obtain ⟨ms, w, hplace, hfollows⟩ := h.place
  have horderly' : ∀ i, ((Machine.step mem.read)^[i] (machine mem k)).Orderly mem.read := fun i ↦ by
    rw [← machine_add]
    exact horderly (i + k)
  obtain ⟨m', k', hstep, hplace'⟩ := hplace.cycle_place horderly'
  have houtput : Quiet mem.read ms.sys (ms.tickOf promptTick) ∨
      Emits mem.read ms.sys (ms.tickOf promptTick) (machine mem k) :=
    hstep.imp (fun hquiet ↦ hquiet.2.2) fun hemits ↦ hemits.2.2.2
  have hroom := (Bench.running_iff.mp hrunning).1
  have hfits := Nat.add_le_of_le_sub' hroom.le
    ((commitTrace_length_le houtput).trans (Nat.sub_pos_of_lt hroom))
  obtain ⟨b', hb', hfollows', hprinted⟩ := hfollows.cycle hplace.prompt hplace.idle hplace'.prompt
    hplace'.idle (hheld k) (payload_storeRequests houtput) hfits
  have hbranches : ofKind .branch b'.events = machineBranches mem
      (j + (ms.sys.dispatched mem.read (ms.tickOf promptTick) n).length) := by
    rw [hprinted.events, ofKind_append, h.branches,
      (cycleEvents_kinds mem.read ms.sys (ms.tickOf promptTick)).2.1, hplace.branch horderly',
      hplace.dispatched_length]
    split_ifs
    · unfold machineBranches
      rw [Run.outputs_succ, ← machine_add, Nat.sub_add_cancel hplace.le_succ.1]
    · exact List.append_nil _
  rcases hstep with ⟨rfl, rfl, hquiet⟩ | ⟨rfl, rfl, -, hemits⟩
  · exact ⟨b', k', _, hb',
      h.quiet hrunning hprinted hbranches hquiet ⟨_, _, hplace', hfollows'⟩⟩
  · exact ⟨b', k + 1, _, hb', h.emits hrunning hprinted hbranches hemits
      ⟨_, _, machine_succ mem k ▸ hplace', hfollows'⟩⟩

end Loop

/-! ### The start -/

/-- The core that the bench starts with has nothing in flight. -/
theorem sysInv_start : SysInv { core := startState } [] :=
  ⟨⟨⟨rfl, rfl, fun h ↦ absurd h (by decide), rfl, fun h ↦ absurd h (by decide)⟩, rfl⟩,
    ⟨robInv_init, windowInv_init.lsu.congr rfl rfl rfl⟩, ⟨handed_init.last, handed_init.settled⟩⟩

theorem prompt_start (mem : IdealMem) :
    MemorySystem.Prompt mem.read
      { sys := { core := startState }, memory := mem.readByte } (machine mem 0) [] := by
  have hmem := memoryInv_init mem.readByte
  refine ⟨⟨sysInv_start, ⟨_, regInv_init⟩, .init, rfl, ⟨hmem.stores, hmem.count, hmem.request,
    hmem.answer, hmem.waitingRequest, hmem.waitingAnswer, hmem.value⟩, fun x ↦ ?_,
    .tracking (show RobState.init ≠ .exception by decide) rfl Run.along_nil fun _ ↦ rfl⟩,
    conserved_init, fun _ ↦ rfl, fun _ ↦ .fetching rfl rfl rfl (Nat.zero_le 1)⟩
  show (if (0 : ℕ) ≠ 0 then (0 : BitVec 64) else 0) = if x ≠ 0 then 0 else 0
  rw [ite_self, ite_self]

theorem logged_start (mem : IdealMem) (target : ℕ) :
    Logged mem target (Bench.start mem) 0 0 0 := by
  refine ⟨⟨_, [], ⟨prompt_start mem, fun h ↦ absurd h Bool.false_ne_true, rfl, Nat.le_refl 0,
    fun _ ↦ rfl, fun _ ↦ ⟨rfl, rfl, rfl⟩⟩, ⟨rfl, rfl, rfl, rfl⟩⟩, rfl, rfl, rfl, rfl, rfl,
    fun i hi ↦ ?_⟩
  exact absurd hi (Nat.not_lt_zero i)

/-- Assumes: while the test holds the body gives a bench again and keeps the invariant. The loop
then ends with a bench, within its cycles, and early only when the test fails. -/
theorem Bench.loop_spec {capacity target : ℕ} (inv : ℕ → Bench → Prop)
    (hstep : ∀ n b, inv n b → b.running target = true →
      ∃ b', b.cycle capacity target = some b' ∧ inv (n + 1) b')
    (fuel n : ℕ) (b : Bench) (h : inv n b) :
    ∃ b' n', b.loop capacity target fuel = some b' ∧ n' ≤ n + fuel ∧ inv n' b' ∧
      (n' < n + fuel → b'.running target = false) := by
  induction fuel generalizing n b with
  | zero => exact ⟨b, n, rfl, Nat.le_refl n, h, fun hlt ↦ absurd hlt (Nat.lt_irrefl n)⟩
  | succ fuel ih =>
    unfold loop
    by_cases hrunning : b.running target = true
    · obtain ⟨b', hb', hnext⟩ := hstep n b h hrunning
      obtain ⟨b'', n', hloop, hle, hinv, hend⟩ := ih (n + 1) b' hnext
      rw [if_pos hrunning, hb', Option.bind_some]
      rw [Nat.succ_add_eq_add_succ] at hle hend
      exact ⟨b'', n', hloop, hle, hinv, hend⟩
    · rw [if_neg hrunning]
      exact ⟨b, n, rfl, Nat.le_add_right _ _, h, fun _ ↦ by simpa using hrunning⟩

section Run

variable {mem : IdealMem} {capacity : ℕ} (horderly : ∀ k, (machine mem k).Orderly mem.read)
  (hheld : ∀ k, StoresHeld capacity mem.read (machine mem k))

include horderly hheld

/-- The bench behind its loop, with an invariant that its body keeps. -/
theorem logged_loop (target : ℕ) (inv : ℕ → Bench → Prop) (hinit : inv 0 (Bench.start mem))
    (hstep : ∀ n b b' k j, inv n b → Logged mem target b' (n + 1) k j →
      b.cycle capacity target = some b' → inv (n + 1) b') :
    ∃ b n k j, (Bench.start mem).loop capacity target maxCycles = some b ∧ n ≤ maxCycles ∧
      Logged mem target b n k j ∧ (n < maxCycles → stops mem target k = true) ∧ inv n b := by
  obtain ⟨b, n, hloop, hle, ⟨⟨k, j, h⟩, hinv⟩, hend⟩ := Bench.loop_spec
    (fun n b ↦ (∃ k j, Logged mem target b n k j) ∧ inv n b)
    (fun n b hb hrunning ↦ by
      obtain ⟨⟨k, j, hlogged⟩, hinv⟩ := hb
      obtain ⟨b', k', j', hb', hnext⟩ := hlogged.cycle horderly hheld hrunning
      exact ⟨b', hb', ⟨k', j', hnext⟩, hstep n b b' k' j' hinv hnext hb'⟩)
    maxCycles 0 (Bench.start mem) ⟨⟨0, 0, logged_start mem target⟩, hinit⟩
  rw [Nat.zero_add] at hle hend
  refine ⟨b, n, k, j, hloop, hle, h, fun hlt ↦ ?_, hinv⟩
  have hstop := hend hlt
  rw [h.running_eq] at hstop
  simpa using hstop

end Run

/-! ### The verdict -/

theorem Logged.ok_eq {mem : IdealMem} {b : Bench} {spec : ProgramSpec} {complete : Bool}
    {n k j : ℕ} (h : Logged mem (spec.target complete) b n k j) :
    b.ok spec complete = accepts mem spec complete k := by
  unfold Bench.ok accepts
  rw [h.sawTohost, h.prefixCommits]

/-- What is printed behind the loop is neither a commit nor a branch nor a store. -/
theorem finish_events (spec : ProgramSpec) (complete : Bool) (b : Bench) {kind : Kind}
    (hmetadata : kind ≠ .metadata) (hboundary : kind ≠ .unsupportedBoundary) :
    ofKind kind (b.finish spec complete).events = ofKind kind b.events := by
  have hprint : ∀ (b : Bench) (event : Event), event.kind ≠ kind →
      ofKind kind (b.print event).events = ofKind kind b.events := by
    intro b event hne
    have hnone : ofKind kind [event] = [] := by
      unfold ofKind
      rw [List.filter_cons_of_neg (by simpa using hne), List.filter_nil]
    have hevents : (b.print event).events = b.events ++ [event] := List.map_append
    rw [hevents, ofKind_append, hnone, List.append_nil]
  have hfirst := hprint b (.unsupportedBoundary spec.unsupportedPc spec.unsupportedInst)
    hboundary.symm
  unfold Bench.finish
  dsimp only
  split_ifs
  · exact (hprint _ (.metadata _ _) hmetadata.symm).trans hfirst
  · exact hprint _ (.metadata _ _) hmetadata.symm

theorem runProgram_eq {spec : ProgramSpec} {complete : Bool} {capacity : ℕ} {text : List Char}
    {b : Bench} (hwords : (IdealMem.loadHex text).words ≠ [])
    (hloop :
      (Bench.start (.loadHex text)).loop capacity (spec.target complete) maxCycles = some b) :
    runProgram spec complete capacity text =
      some (b.ok spec complete, (b.finish spec complete).lines) := by
  unfold runProgram
  rw [if_neg hwords, hloop]
  rfl

/-- A machine that has halted has printed everything. -/
theorem stops_of_halted {mem : IdealMem} {target k i : ℕ}
    (h : (machine mem k).arch.halted = true) (hle : k ≤ i) :
    stops mem target i = stops mem target k := by
  unfold stops machineCommits machineEnded machine at *
  rw [Machine.outputs_of_halted h hle (commitEvents mem.read) fun m hm ↦ by
      unfold commitEvents
      rw [Machine.commits_of_halted hm]
      rfl,
    Machine.outputs_of_halted h hle (Machine.stores mem.read) fun m hm ↦
      Machine.stores_of_halted hm]

section Verdict

variable (spec : ProgramSpec) (complete : Bool) (capacity : ℕ) (text : List Char)
  (hwords : (IdealMem.loadHex text).words ≠ [])
  (horderly : ∀ k, (machine (.loadHex text) k).Orderly (IdealMem.loadHex text).read)
  (hheld : ∀ k, StoresHeld capacity (IdealMem.loadHex text).read (machine (.loadHex text) k))

include hwords horderly hheld

/-- Assumes: the image holds a word, the instructions of the sequential machine on it are orderly,
and the bytes it stores are held. Then `run_program` ends, and it prints the commits and the stores
to `tohost` that the machine produces before some step `k`, and the control transfers before step
`k` or `k + 1`. It did not go on behind the step with which it had to stop, and its verdict is the
one on the machine before step `k`. -/
theorem runProgram_trace :
    ∃ ok lines, runProgram spec complete capacity text = some (ok, lines) ∧
      ∃ k j, k ≤ j ∧ j ≤ k + 1 ∧ j ≤ maxCycles / 2 ∧
        (∀ i < k, stops (.loadHex text) (spec.target complete) i = false) ∧
        ofKind .commit (lines.map Line.event) = machineCommits (.loadHex text) k ∧
        ofKind .tohost (lines.map Line.event) = machineTohosts (.loadHex text) k ∧
        ofKind .branch (lines.map Line.event) = machineBranches (.loadHex text) j ∧
        ok = accepts (.loadHex text) spec complete k := by
  obtain ⟨b, n, k, j, hloop, hn, h, -, -⟩ := logged_loop horderly hheld (spec.target complete)
    (fun _ _ ↦ True) trivial fun _ _ _ _ _ _ _ _ ↦ trivial
  obtain ⟨ms, w, hplace, -⟩ := h.place
  refine ⟨_, _, runProgram_eq hwords hloop, k, j, hplace.le_succ.1, hplace.le_succ.2,
    hplace.le.trans (Nat.div_le_div_right hn), h.before, ?_, ?_, ?_, h.ok_eq⟩
  · exact (finish_events spec complete b (by decide) (by decide)).trans h.commits
  · exact (finish_events spec complete b (by decide) (by decide)).trans h.tohosts
  · exact (finish_events spec complete b (by decide) (by decide)).trans h.branches

/-- Assumes: as before. When the machine comes to the end with its first 249 steps, `run_program`
prints everything up to there and its verdict is the one on the machine there. When it does not come
to the end with its first 250 steps, the verdict is false. -/
theorem runProgram_verdict :
    ∃ ok lines, runProgram spec complete capacity text = some (ok, lines) ∧
      (∀ k < maxCycles / 2, stops (.loadHex text) (spec.target complete) k = true →
        (∀ i < k, stops (.loadHex text) (spec.target complete) i = false) →
          ok = accepts (.loadHex text) spec complete k ∧
            ofKind .commit (lines.map Line.event) = machineCommits (.loadHex text) k ∧
            ofKind .tohost (lines.map Line.event) = machineTohosts (.loadHex text) k) ∧
      ((∀ k ≤ maxCycles / 2, stops (.loadHex text) (spec.target complete) k = false) →
        ok = false) := by
  obtain ⟨b, n, k, j, hloop, hn, h, hend, -⟩ := logged_loop horderly hheld (spec.target complete)
    (fun _ _ ↦ True) trivial fun _ _ _ _ _ _ _ _ ↦ trivial
  obtain ⟨ms, w, hplace, -⟩ := h.place
  refine ⟨_, _, runProgram_eq hwords hloop, ?_⟩
  refine ⟨fun K hK hstops hfirst ↦ ?_, fun hnever ↦ ?_⟩
  · obtain rfl : k = K := by
      have hle : k ≤ K := by
        by_contra hlt
        have hbefore := h.before K (Nat.lt_of_not_le hlt)
        rw [hstops] at hbefore
        exact Bool.false_ne_true hbefore.symm
      by_contra hne
      have hlt : k < K := Nat.lt_of_le_of_ne hle hne
      have hnot := hfirst k hlt
      -- The loop went through all of its cycles, so the machine has come far or has halted.
      have hall : n = maxCycles := by
        by_contra hless
        rw [hend (Nat.lt_of_le_of_ne hn hless)] at hnot
        exact Bool.false_ne_true hnot.symm
      cases hrun : (machine (.loadHex text) k).arch.halted with
      | true =>
        rw [stops_of_halted hrun hle, hnot] at hstops
        exact Bool.false_ne_true hstops
      | false =>
        have hj := (hplace.running hrun).2.1
        have hjk := hplace.le_succ.2
        rw [hall] at hj
        omega
    refine ⟨h.ok_eq, ?_, ?_⟩
    · exact (finish_events spec complete b (by decide) (by decide)).trans h.commits
    · exact (finish_events spec complete b (by decide) (by decide)).trans h.tohosts
  · have hk : k ≤ maxCycles / 2 :=
      hplace.le_succ.1.trans (hplace.le.trans (Nat.div_le_div_right hn))
    have hnot := hnever k hk
    unfold stops at hnot
    rw [Bool.or_eq_false_iff, decide_eq_false_iff_not, Nat.not_le] at hnot
    rw [h.ok_eq]
    unfold accepts
    rw [hnot.2]
    cases complete with
    | true => rfl
    | false => exact beq_false_of_ne (Nat.ne_of_lt hnot.1)

end Verdict

/-! ### An image without loads -/

/-- An instruction that is no load, and no store of undefined size, is orderly. -/
theorem orderly_of_not_load {program : Program} {m : Machine}
    (hload : opcodeOf (program m.arch.pc) ≠ 0x03) (hsize : ¬ UndefinedSize (program m.arch.pc)) :
    m.Orderly program := by
  have hnot : (m.arch.result program).isLoad ≠ true := fun h ↦ hload (ArchState.load_access h).1
  exact ⟨fun _ h ↦ absurd h hnot, fun _ ↦ hsize, fun _ h ↦ absurd h hnot⟩

theorem IdealMem.read_mem (m : IdealMem) (addr : BitVec 64) : m.read addr ∈ 0 :: m.words := by
  unfold read
  split_ifs
  · exact List.mem_cons_self
  · rw [List.getD_eq_getElem?_getD]
    cases hget : m.words[((addr - entryPc) >>> 2).toNat]? with
    | none => exact List.mem_cons_self
    | some word => exact List.mem_cons_of_mem _ (List.mem_of_getElem? hget)

/-- An image none of whose words is a load or names no size is orderly. -/
theorem orderly_of_words {mem : IdealMem}
    (h : ∀ word ∈ 0 :: mem.words, opcodeOf word ≠ 0x03 ∧ ¬ UndefinedSize word) (k : ℕ) :
    (machine mem k).Orderly mem.read :=
  orderly_of_not_load (h _ (mem.read_mem _)).1 (h _ (mem.read_mem _)).2

/-- A step that writes a register, stores nothing and goes on behind the instruction. -/
theorem step_of_writes {program : Program} {m : Machine} {x : ℕ} {v : BitVec 64}
    (hdone : m.arch.completes program = true) (hstores : m.stores program = [])
    (hwrites : (m.result program).uop.writesInt = true)
    (hx : (m.result program).uop.rename.ldst = x) (hvalue : (m.result program).result = v)
    (hpredicted : (m.result program).mispredict = false) :
    m.step program =
      { m with arch := { m.arch with regs := Function.update m.arch.regs x v
                                     pc := m.arch.pc + 4 } } := by
  rw [Machine.step_of_completes hdone, hstores]
  unfold ArchState.advance
  rw [hwrites, hx, hvalue, hpredicted]
  rfl

/-- `AUIPC x5, 0`, `ADDI x6, x0, 1`, `SD x6, 128(x5)`, `JAL x0, 0`. -/
def endingImage : List Char := "0010031300000297\n0000006f0862b023\n".toList

/-- The program of the image and the number of its commits before the store. -/
def endingSpec : ProgramSpec := ⟨2, 0x80000008#64, 0x0862b023#32⟩

/-- The image when it is loaded. -/
def endingMem : IdealMem :=
  { words := [0x00000297#32, 0x00100313#32, 0x0862b023#32, 0x0000006f#32]
    bytes := [0x97#8, 0x02#8, 0#8, 0#8, 0x13#8, 0x03#8, 0x10#8, 0#8, 0x23#8, 0xb0#8, 0x62#8, 0x08#8,
      0x6f#8, 0#8, 0#8, 0#8] }

theorem loadHex_endingImage : IdealMem.loadHex endingImage = endingMem := by
  have hwords : (IdealMem.loadHex endingImage).words = endingMem.words := by decide +kernel
  have hbytes : (IdealMem.loadHex endingImage).bytes = endingMem.bytes := by decide +kernel
  rw [← show IdealMem.mk (IdealMem.loadHex endingImage).words (IdealMem.loadHex endingImage).bytes =
    IdealMem.loadHex endingImage from rfl, hwords, hbytes]

/-- The machine after the first instruction. -/
def endingMachine₁ : Machine :=
  { arch := { regs := Function.update (fun _ ↦ 0) 5 entryPc, pc := 0x80000004#64 }
    memory := endingMem.readByte }

/-- The machine before the store. -/
def endingMachine₂ : Machine :=
  { arch := { regs := Function.update endingMachine₁.arch.regs 6 1#64, pc := 0x80000008#64 }
    memory := endingMem.readByte }

theorem machine_one : machine endingMem 1 = endingMachine₁ := by
  change Machine.step endingMem.read (machine endingMem 0) = _
  rw [step_of_writes (m := machine endingMem 0) (x := 5) (v := entryPc) (by decide +kernel)
    (by decide +kernel) (by decide +kernel) (by decide +kernel) (by decide +kernel)
    (by decide +kernel)]
  rfl

theorem machine_two : machine endingMem 2 = endingMachine₂ := by
  rw [machine, Function.iterate_succ_apply', ← machine, machine_one]
  rw [step_of_writes (m := endingMachine₁) (x := 6) (v := 1#64) (by decide +kernel)
    (by decide +kernel) (by decide +kernel) (by decide +kernel) (by decide +kernel)
    (by decide +kernel)]
  rfl

/-- The machine in the jump behind the store. -/
def endingMachine₃ : Machine :=
  { arch := { endingMachine₂.arch with pc := 0x8000000c#64 }
    memory := performAll (endingMachine₂.stores endingMem.read) endingMem.readByte }

theorem machine_three : machine endingMem 3 = endingMachine₃ := by
  have hwrites : (endingMachine₂.result endingMem.read).uop.writesInt = false := by decide +kernel
  have hpredicted : (endingMachine₂.result endingMem.read).mispredict = false := by decide +kernel
  rw [machine, Function.iterate_succ_apply', ← machine, machine_two,
    Machine.step_of_completes (by decide +kernel)]
  unfold ArchState.advance
  rw [hwrites, hpredicted]
  rfl

theorem endingMachine₃_step : endingMachine₃.step endingMem.read = endingMachine₃ := by
  have hwrites : (endingMachine₃.result endingMem.read).uop.writesInt = false := by decide +kernel
  have htaken : (endingMachine₃.result endingMem.read).mispredict = true := by decide +kernel
  have hpc : (endingMachine₃.result endingMem.read).redirectPc &&& ~~~3#64 =
      endingMachine₃.arch.pc := by decide +kernel
  have hstores : endingMachine₃.stores endingMem.read = [] := by decide +kernel
  rw [Machine.step_of_completes (by decide +kernel), hstores]
  unfold ArchState.advance
  rw [hwrites, htaken, if_neg Bool.false_ne_true, if_pos rfl, hpc]
  rfl

instance (capacity : ℕ) (program : Program) (m : Machine) :
    Decidable (StoresHeld capacity program m) :=
  inferInstanceAs (Decidable (∀ req ∈ m.stores program, ∀ i < 8, _ → _))

/-- The vector of bytes as large as it can be. -/
def maxSize : ℕ := 2 ^ 63 - 1

theorem endingMem_held (k : ℕ) : StoresHeld maxSize endingMem.read (machine endingMem k) := by
  have hrest : ∀ k, 3 ≤ k → StoresHeld maxSize endingMem.read (machine endingMem k) := by
    intro k hle
    have hfixed : machine endingMem k = machine endingMem 3 :=
      Run.iterate_of_fixed (by rw [← machine, machine_three, endingMachine₃_step]) hle
    rw [hfixed, machine_three]
    decide +kernel
  match k with
  | 0 => decide +kernel
  | 1 =>
    rw [machine_one]
    decide +kernel
  | 2 =>
    rw [machine_two]
    decide +kernel
  | k + 3 => exact hrest _ (Nat.le_add_left 3 k)

theorem endingImage_words : (IdealMem.loadHex endingImage).words ≠ [] := by
  rw [loadHex_endingImage]
  exact List.cons_ne_nil _ _

theorem endingImage_orderly (k : ℕ) :
    (machine (.loadHex endingImage) k).Orderly (IdealMem.loadHex endingImage).read := by
  refine orderly_of_words ?_ k
  rw [loadHex_endingImage]
  intro word hword
  have hall : (0 :: endingMem.words).all fun word ↦
      decide (opcodeOf word ≠ 0x03 ∧ ¬ UndefinedSize word) := by decide +kernel
  exact of_decide_eq_true (List.all_eq_true.mp hall word hword)

theorem endingImage_held (k : ℕ) :
    StoresHeld maxSize (IdealMem.loadHex endingImage).read
      (machine (.loadHex endingImage) k) := by
  rw [loadHex_endingImage]
  exact endingMem_held k

/-- `runProgram_trace` for this image. -/
theorem runProgram_trace_ending :
    ∃ ok lines, runProgram endingSpec true maxSize endingImage = some (ok, lines) ∧
      ∃ k j, k ≤ j ∧ j ≤ k + 1 ∧ j ≤ maxCycles / 2 ∧
        (∀ i < k, stops (.loadHex endingImage) (endingSpec.target true) i = false) ∧
        ofKind .commit (lines.map Line.event) = machineCommits (.loadHex endingImage) k ∧
        ofKind .tohost (lines.map Line.event) = machineTohosts (.loadHex endingImage) k ∧
        ofKind .branch (lines.map Line.event) = machineBranches (.loadHex endingImage) j ∧
        ok = accepts (.loadHex endingImage) endingSpec true k :=
  runProgram_trace endingSpec true maxSize endingImage endingImage_words endingImage_orderly
    endingImage_held

/-- `runProgram_verdict` for this image. -/
theorem runProgram_verdict_ending :
    ∃ ok lines, runProgram endingSpec true maxSize endingImage = some (ok, lines) ∧
      (∀ k < maxCycles / 2, stops (.loadHex endingImage) (endingSpec.target true) k = true →
        (∀ i < k, stops (.loadHex endingImage) (endingSpec.target true) i = false) →
          ok = accepts (.loadHex endingImage) endingSpec true k ∧
            ofKind .commit (lines.map Line.event) = machineCommits (.loadHex endingImage) k ∧
            ofKind .tohost (lines.map Line.event) = machineTohosts (.loadHex endingImage) k) ∧
      ((∀ k ≤ maxCycles / 2,
          stops (.loadHex endingImage) (endingSpec.target true) k = false) → ok = false) :=
  runProgram_verdict endingSpec true maxSize endingImage endingImage_words endingImage_orderly
    endingImage_held

end PrefixTrace

end BoomCore
