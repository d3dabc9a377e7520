import BoomCore.Proof.Normalize
import BoomCore.Proof.PrefixTrace

/-!
# The records of the bench

The lines of the bench carry the cycle counter and consecutive numbers, so they are in the order in
which the scripts sort them (`Bench.Chronological`). The record of a commit line shows the commit
that was printed, and no other line is taken for a commit.
-/

set_option autoImplicit false
set_option relaxedAutoImplicit false

namespace BoomCore.PrefixTrace

/-! ### Lines in order -/

namespace Bench

/-- The second bench has the lines of the first one and those of some events, printed in its own
cycle. -/
def Adds (b b' : Bench) : Prop :=
  ∃ events, b'.lines = b.lines ++ linesFrom b'.state.csr.cycle b.seq events ∧
    b'.seq = b.seq + events.length

variable {b b' b'' : Bench}

theorem Adds.of_eq (hlines : b'.lines = b.lines) (hseq : b'.seq = b.seq) : b.Adds b' :=
  ⟨[], by rw [hlines]; exact (List.append_nil _).symm, hseq⟩

/-- Assumes: the second bench is in the cycle of the third one. -/
theorem Adds.trans (h : b.Adds b') (h' : b'.Adds b'') (hstate : b''.state = b'.state) :
    b.Adds b'' := by
  obtain ⟨events, hlines, hseq⟩ := h
  obtain ⟨events', hlines', hseq'⟩ := h'
  refine ⟨events ++ events', ?_, ?_⟩
  · rw [hlines', hlines, linesFrom_append, hseq, hstate, List.append_assoc]
  · rw [hseq', hseq, List.length_append, Nat.add_assoc]

theorem adds_print (b : Bench) (event : Event) : b.Adds (b.print event) := ⟨[event], rfl, rfl⟩

theorem printBranch_adds (b : Bench) : b.Adds b.printBranch ∧ b.printBranch.state = b.state := by
  rw [printBranch_eq]
  exact ⟨⟨_, rfl, rfl⟩, rfl⟩

theorem drainCommits_adds (target : ℕ) (records : List CommitEntry) (b : Bench) :
    b.Adds (b.drainCommits target records) ∧ (b.drainCommits target records).state = b.state := by
  induction records generalizing b with
  | nil => exact ⟨.of_eq rfl rfl, rfl⟩
  | cons ce rest ih =>
    unfold drainCommits
    split_ifs
    · exact ih b
    · obtain ⟨hadds, hstate⟩ :=
        ih { b.print (.commit ce) with prefixCommits := b.prefixCommits + 1 }
      exact ⟨Adds.trans ⟨[.commit ce], rfl, rfl⟩ hadds hstate, hstate⟩
    · exact ⟨.of_eq rfl rfl, rfl⟩

theorem serve_adds {capacity : ℕ} {req : DmemRequest} (h : serve capacity b req = some b') :
    b.Adds b' ∧ b'.state = b.state := by
  unfold serve at h
  dsimp only at h
  by_cases hstore : (req.isStore || req.command == .store) = true
  · rw [if_pos hstore] at h
    obtain ⟨mem, -, rfl⟩ := Option.map_eq_some_iff.mp h
    by_cases haddr : req.address = tohostAddr
    · rw [if_pos haddr]
      exact ⟨⟨[_], rfl, rfl⟩, rfl⟩
    · rw [if_neg haddr]
      exact ⟨.of_eq rfl rfl, rfl⟩
  · rw [if_neg hstore] at h
    obtain rfl := Option.some.inj h
    exact ⟨.of_eq rfl rfl, rfl⟩

theorem serveRequests_adds {capacity : ℕ} (h : b.serveRequests capacity = some b') :
    b.Adds b' ∧ b'.state = b.state := by
  have hfold : ∀ (reqs : List DmemRequest) (b b' : Bench),
      reqs.foldlM (serve capacity) b = some b' → b.Adds b' ∧ b'.state = b.state := by
    intro reqs
    induction reqs with
    | nil =>
      rintro b b' ⟨⟩
      exact ⟨.of_eq rfl rfl, rfl⟩
    | cons req rest ih =>
      intro b b' h
      rw [List.foldlM_cons] at h
      obtain ⟨middle, hreq, hrest⟩ := Option.bind_eq_some_iff.mp h
      obtain ⟨hadds, hstate⟩ := serve_adds hreq
      obtain ⟨hadds', hstate'⟩ := ih middle b' hrest
      exact ⟨hadds.trans hadds' hstate', hstate'.trans hstate⟩
  obtain ⟨served, hserved, rfl⟩ := Option.map_eq_some_iff.mp h
  obtain ⟨hadds, hstate⟩ := hfold _ b served hserved
  exact ⟨hadds, hstate⟩

/-- What a cycle prints carries the cycle counter behind the step of the core. -/
theorem cycle_adds {capacity target : ℕ} (h : b.cycle capacity target = some b') : b.Adds b' := by
  have hfirst : b.Adds b.answerFetch.stepCore := by
    rw [answerFetch_eq]
    exact .of_eq rfl rfl
  obtain ⟨hbranch, hstate⟩ := b.answerFetch.stepCore.printBranch_adds
  obtain ⟨hcommit, hstate'⟩ := drainCommits_adds target
    b.answerFetch.stepCore.printBranch.pipe.commitTrace.q b.answerFetch.stepCore.printBranch
  obtain ⟨hserve, hstate''⟩ := serveRequests_adds h
  exact ((hfirst.trans hbranch hstate).trans hcommit hstate').trans hserve hstate''

theorem finish_adds (spec : ProgramSpec) (complete : Bool) (b : Bench) :
    b.Adds (b.finish spec complete) := by
  unfold finish
  dsimp only
  split_ifs
  · exact (b.adds_print _).trans (adds_print _ _) rfl
  · exact b.adds_print _

theorem finish_state (spec : ProgramSpec) (complete : Bool) (b : Bench) :
    (b.finish spec complete).state = b.state := by
  unfold finish
  dsimp only
  split_ifs <;> rfl

end Bench

theorem mem_linesFrom {cycle : BitVec 64} {seq : ℕ} {events : List Event} {line : Line}
    (h : line ∈ linesFrom cycle seq events) :
    line.cycle = cycle ∧ seq ≤ line.seq ∧ line.seq < seq + events.length := by
  induction events generalizing seq with
  | nil => exact absurd h List.not_mem_nil
  | cons event rest ih =>
    rw [List.length_cons]
    rcases List.mem_cons.mp h with rfl | hrest
    · exact ⟨rfl, Nat.le_refl _, Nat.lt_add_of_pos_right (Nat.succ_pos _)⟩
    · obtain ⟨hcycle, hle, hlt⟩ := ih hrest
      exact ⟨hcycle, Nat.le_of_succ_le hle, by omega⟩

/-- Neither the cycle nor the number goes back. -/
def Line.Before (line line' : Line) : Prop :=
  line.cycle.toNat ≤ line'.cycle.toNat ∧ line.seq < line'.seq

theorem linesFrom_before (cycle : BitVec 64) (seq : ℕ) (events : List Event) :
    (linesFrom cycle seq events).Pairwise Line.Before := by
  induction events generalizing seq with
  | nil => exact List.Pairwise.nil
  | cons event rest ih =>
    refine List.Pairwise.cons (fun line hline ↦ ?_) (ih (seq + 1))
    obtain ⟨hcycle, hle, -⟩ := mem_linesFrom hline
    exact ⟨Nat.le_of_eq (by rw [hcycle]), hle⟩

/-- The lines are in order, and before everything that is still to be printed. -/
structure Bench.Chronological (b : Bench) : Prop where
  lines : b.lines.Pairwise Line.Before
  cycles : ∀ line ∈ b.lines, line.cycle.toNat ≤ b.state.csr.cycle.toNat
  seqs : ∀ line ∈ b.lines, line.seq < b.seq

theorem Bench.Chronological.adds {b b' : Bench} (h : b.Chronological) (hadds : b.Adds b')
    (hcycle : b.state.csr.cycle.toNat ≤ b'.state.csr.cycle.toNat) : b'.Chronological := by
  obtain ⟨events, hlines, hseq⟩ := hadds
  refine ⟨?_, fun line hline ↦ ?_, fun line hline ↦ ?_⟩
  · rw [hlines]
    refine List.pairwise_append.mpr ⟨h.lines, linesFrom_before _ _ _, fun old hold new hnew ↦ ?_⟩
    obtain ⟨hnow, hle, -⟩ := mem_linesFrom hnew
    rw [Line.Before, hnow]
    exact ⟨(h.cycles old hold).trans hcycle, Nat.lt_of_lt_of_le (h.seqs old hold) hle⟩
  · rw [hlines] at hline
    rcases List.mem_append.mp hline with hold | hnew
    · exact (h.cycles line hold).trans hcycle
    · rw [(mem_linesFrom hnew).1]
  · rw [hlines] at hline
    rw [hseq]
    rcases List.mem_append.mp hline with hold | hnew
    · exact Nat.lt_add_right _ (h.seqs line hold)
    · exact (mem_linesFrom hnew).2.2

/-! ### Records -/

section Records

open Trace

@[simp]
theorem read_hexField (n width : ℕ) : (hexField n width).read = some n := by
  unfold HexField.read hexField
  dsimp only
  rw [parseInt_fmtHex]
  rfl

theorem orderKey_raw (line : Line) :
    line.raw.orderKey = toLex ((line.cycle.toNat : ℤ), (line.seq : ℤ)) := by
  have hcycle : line.raw.cycleNumber = line.cycle.toNat := by
    have hzero : ∀ i : ℤ, (orElseInt (some i) none).getD 0 = i := by
      intro i
      unfold orElseInt
      dsimp only
      split_ifs with h
      · exact h.symm
      · rfl
    unfold Line.raw
    cases line.event <;> exact hzero _
  have hseq : line.raw.traceSequence = line.seq := by
    unfold Line.raw
    cases line.event <;> rfl
  unfold RawRecord.orderKey
  rw [hcycle, hseq]

/-- The records are in the order in which the scripts sort them. -/
theorem Bench.Chronological.inOrder {b : Bench} (h : b.Chronological) :
    InOrder RawRecord.orderKey (b.lines.map Line.raw) := by
  refine List.pairwise_map.mpr (h.lines.imp fun {line line'} hbefore ↦ ?_)
  rw [orderKey_raw, orderKey_raw, Prod.Lex.toLex_le_toLex]
  rcases Nat.lt_or_eq_of_le hbefore.1 with hlt | heq
  · exact Or.inl (Int.ofNat_lt.mpr hlt)
  · exact Or.inr ⟨congrArg Nat.cast heq, Int.ofNat_le.mpr (Nat.le_of_lt hbefore.2)⟩

end Records

end BoomCore.PrefixTrace

namespace BoomCore

/-- A commit record of the core whose line the scripts compare. -/
def CommitEntry.isCompared (ce : CommitEntry) : Bool :=
  !decide (ce.pc < PrefixTrace.entryPc) && !Trace.isUnsupported (some ce.inst.toNat)

/-- What the comparison sees in a commit record of the core. -/
def CommitEntry.observation (ce : CommitEntry) : Trace.Observation :=
  { pc := some ce.pc.toNat, instruction := some ce.inst.toNat, rdValid := ce.rdValid
    rd := if ce.rdValid then some ce.rd else none
    rdValue := if ce.rdValid then some ce.rdValue.toNat else none
    exception := ce.exception, exceptionCause := if ce.exception then some 0 else none }

namespace PrefixTrace

open Trace

theorem observation_raw {line : Line} {ce : CommitEntry} (h : line.event = .commit ce) :
    line.raw.observation = ce.observation := by
  unfold Line.raw RawRecord.observation CommitEntry.observation
  rw [h]
  dsimp only [JsonValue.truthy]
  rw [read_hexField, read_hexField]
  congr 1
  · split_ifs <;> rfl
  · split_ifs
    · exact read_hexField _ _
    · rfl
  · split_ifs <;> rfl

/-- What the comparison sees in an event of the bench. -/
def Event.observed : Event → Option Observation
  | commit ce => if ce.isCompared then some ce.observation else none
  | _ => none

theorem Event.observed_commit (ce : CommitEntry) :
    (Event.commit ce).observed = if ce.isCompared then some ce.observation else none := rfl

/-- The line of a commit is compared, and no other line. -/
theorem isSupported_raw (line : Line) : line.raw.isSupported = line.event.observed.isSome := by
  cases hcommit : line.event with
  | commit ce =>
    have hloaded : line.raw.isLoadedCommit = !decide (ce.pc < entryPc) := by
      unfold Line.raw RawRecord.isLoadedCommit RawRecord.isLoaded
      rw [hcommit]
      dsimp only
      rw [read_hexField, read_hexField, ← decide_not]
      simp only [BitVec.lt_def, Nat.not_lt]
      exact Bool.and_true _
    have hinst : line.raw.instruction.read = some ce.inst.toNat := by
      unfold Line.raw
      rw [hcommit]
      exact read_hexField _ _
    unfold RawRecord.isSupported
    rw [hloaded, hinst, Event.observed_commit]
    change ce.isCompared = _
    cases ce.isCompared <;> rfl
  | _ =>
    unfold Line.raw RawRecord.isSupported RawRecord.isLoadedCommit
    rw [hcommit]
    rfl

/-- What the normalizer keeps of the records of some lines, as the comparison sees it. -/
theorem supported_observations (lines : List Line) :
    ((lines.map Line.raw).filter RawRecord.isSupported).map RawRecord.observation =
      (lines.map Line.event).filterMap Event.observed := by
  induction lines with
  | nil => rfl
  | cons line rest ih =>
    rw [List.map_cons, List.map_cons, List.filter_cons, isSupported_raw, List.filterMap_cons]
    cases hevent : line.event with
    | commit ce =>
      rw [Event.observed_commit]
      by_cases h : ce.isCompared = true
      · rw [if_pos h, Option.isSome_some, if_pos rfl, List.map_cons, ih, observation_raw hevent]
      · rw [if_neg h]
        exact ih
    | _ => exact ih

end PrefixTrace

end BoomCore
