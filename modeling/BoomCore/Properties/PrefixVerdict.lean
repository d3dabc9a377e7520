import BoomCore.Proof.PrefixRecords
import BoomCore.Properties.PrefixTrace
import BoomCore.Properties.TraceComparison

/-!
# The architectural comparison against the bench

The trace of the bench goes through `normalize_hls` and is compared with the one of the reference.
Its records are in order, so the comparison passes exactly when the reference has kept the commits
of the sequential machine on the image (`archVerdict_runProgram`).
-/

set_option autoImplicit false
set_option relaxedAutoImplicit false

namespace BoomCore.PrefixTrace

open Trace

/-! ### Statements -/

/-- The commits of the machine before step `k` that the comparison looks at. -/
def comparedCommits (mem : IdealMem) (k : ℕ) : List CommitEntry :=
  (Run.outputs (fun i ↦ (machine mem i).commits mem.read) k).filter CommitEntry.isCompared

/-! ### The order of the lines -/

theorem chronological_start (mem : IdealMem) : (Bench.start mem).Chronological := by
  refine ⟨List.pairwise_singleton _ _, fun line hline ↦ ?_, fun line hline ↦ ?_⟩
  · obtain rfl := List.mem_singleton.mp hline
    exact Nat.le_refl _
  · obtain rfl := List.mem_singleton.mp hline
    exact Nat.zero_lt_one

/-- The lines of the bench before cycle `n` are in order, and its core has counted the cycles. -/
structure Counted (n : ℕ) (b : Bench) : Prop where
  lines : b.Chronological
  cycle : b.state.csr.cycle.toNat = n

/-- A cycle of a bench that follows the machine keeps the lines in order. -/
theorem Counted.cycle_counted {mem : IdealMem} {capacity target n k j : ℕ} {b b' : Bench}
    (h : Counted n b) (hnext : Logged mem target b' (n + 1) k j) (hn : n + 1 ≤ maxCycles)
    (hb' : b.cycle capacity target = some b') : Counted (n + 1) b' := by
  obtain ⟨ms, w, hplace, hfollows⟩ := hnext.place
  have hcycle : b'.state.csr.cycle.toNat = n + 1 := by
    rw [hfollows.state, hplace.cycle, BitVec.toNat_ofNat]
    have hmax : n + 1 ≤ 500 := hn
    exact Nat.mod_eq_of_lt (by omega)
  refine ⟨h.lines.adds (Bench.cycle_adds hb') ?_, hcycle⟩
  rw [h.cycle, hcycle]
  exact Nat.le_succ n

/-! ### What is compared -/

/-- What the comparison sees in the commit lines of a run of the machine. -/
theorem observed_machineCommits (mem : IdealMem) (k : ℕ) :
    (machineCommits mem k).filterMap Event.observed =
      (comparedCommits mem k).map CommitEntry.observation := by
  have hpart : ∀ commits : List CommitEntry, (commitPart commits).filterMap Event.observed =
      (commits.filter CommitEntry.isCompared).map CommitEntry.observation := by
    intro commits
    induction commits with
    | nil => rfl
    | cons ce rest ih =>
      unfold commitPart at ih ⊢
      by_cases hpc : ce.pc < entryPc
      · have hnot : ce.isCompared = false := by
          unfold CommitEntry.isCompared
          rw [decide_eq_true hpc]
          rfl
        rw [List.filter_cons_of_neg (by simpa using hpc),
          List.filter_cons_of_neg (Bool.eq_false_iff.mp hnot)]
        exact ih
      · rw [List.filter_cons_of_pos (by simpa using hpc), List.map_cons, List.filterMap_cons,
          Event.observed_commit]
        by_cases h : ce.isCompared = true
        · rw [if_pos h, List.filter_cons_of_pos h, List.map_cons, ih]
        · rw [if_neg h, List.filter_cons_of_neg h]
          exact ih
  unfold machineCommits comparedCommits Run.outputs commitEvents
  rw [List.filterMap_flatMap, List.filter_flatMap, List.map_flatMap]
  exact List.flatMap_congr fun i _ ↦ hpart _

/-- Only commits are seen. -/
theorem observed_ofKind (events : List Event) :
    (ofKind .commit events).filterMap Event.observed = events.filterMap Event.observed := by
  induction events with
  | nil => rfl
  | cons event rest ih =>
    unfold ofKind at ih ⊢
    cases event with
    | commit ce =>
      rw [List.filter_cons_of_pos rfl, List.filterMap_cons, List.filterMap_cons, ih]
    | _ =>
      rw [List.filter_cons_of_neg Bool.false_ne_true]
      exact ih

/-- The commit lines are the commits that the normalizer takes, and what the scripts call loaded. -/
theorem isLoadedCommit_raw (line : Line) :
    line.raw.isLoadedCommit = line.raw.isHlsCommit ∧
      (line.raw.isHlsCommit = true ↔ ∃ ce, line.event = .commit ce ∧ entryPc ≤ ce.pc) := by
  unfold Line.raw RawRecord.isLoadedCommit RawRecord.isLoaded RawRecord.isHlsCommit
  cases line.event with
  | commit ce =>
    dsimp only
    rw [read_hexField, read_hexField]
    simp only [Event.commit.injEq, exists_eq_left', BitVec.le_def]
    exact ⟨Bool.and_true _, decide_eq_true_iff⟩
  | _ => simp

theorem loadedCommits_raw (lines : List Line) :
    loadedCommits (lines.map Line.raw) = (lines.map Line.raw).filter RawRecord.isHlsCommit := by
  refine List.filter_congr fun record hrecord ↦ ?_
  obtain ⟨line, -, rfl⟩ := List.mem_map.mp hrecord
  exact (isLoadedCommit_raw line).1

/-- Assumes: the commit lines are the commits of the machine. Then the scripts find a commit when
the machine has produced one. -/
theorem hlsCommits_eq_nil_iff {mem : IdealMem} {k : ℕ} {lines : List Line}
    (hcommits : ofKind .commit (lines.map Line.event) = machineCommits mem k) :
    (lines.map Line.raw).filter RawRecord.isHlsCommit = [] ↔ machineCommits mem k = [] := by
  constructor
  · intro hnone
    refine List.eq_nil_iff_forall_not_mem.mpr fun event hevent ↦ ?_
    obtain ⟨i, -, hpart⟩ := List.mem_flatMap.mp hevent
    obtain ⟨ce, hce, rfl⟩ := List.mem_map.mp hpart
    rw [← hcommits] at hevent
    obtain ⟨line, hline, hcommit⟩ := List.mem_map.mp (List.mem_of_mem_filter hevent)
    have hpc : entryPc ≤ ce.pc := by simpa using (List.mem_filter.mp hce).2
    have hhls := (isLoadedCommit_raw line).2.mpr ⟨ce, hcommit, hpc⟩
    exact List.filter_eq_nil_iff.mp hnone _ (List.mem_map_of_mem hline) hhls
  · intro hnone
    refine List.filter_eq_nil_iff.mpr fun record hrecord hhls ↦ ?_
    obtain ⟨line, hline, rfl⟩ := List.mem_map.mp hrecord
    obtain ⟨ce, hcommit, -⟩ := (isLoadedCommit_raw line).2.mp hhls
    have hmem : line.event ∈ ofKind .commit (lines.map Line.event) :=
      List.mem_filter.mpr ⟨List.mem_map_of_mem hline, by rw [hcommit]; rfl⟩
    rw [hcommits, hnone] at hmem
    exact List.not_mem_nil hmem

/-! ### The verdict -/

section Verdict

variable (spec : ProgramSpec) (complete : Bool) (capacity : ℕ) (text : List Char)
  (hwords : (IdealMem.loadHex text).words ≠ [])
  (horderly : ∀ k, (machine (.loadHex text) k).Orderly (IdealMem.loadHex text).read)
  (hheld : ∀ k, StoresHeld capacity (IdealMem.loadHex text).read (machine (.loadHex text) k))

include hwords horderly hheld

/-- The records of the trace are in the order in which the scripts sort them. -/
theorem runProgram_inOrder {ok : Bool} {lines : List Line}
    (hrun : runProgram spec complete capacity text = some (ok, lines)) :
    InOrder RawRecord.orderKey (lines.map Line.raw) := by
  obtain ⟨b, n, k, j, hloop, hn, -, -, hcounted⟩ := logged_loop horderly hheld
    (spec.target complete) (fun n b ↦ n ≤ maxCycles → Counted n b)
    (fun _ ↦ ⟨chronological_start _, rfl⟩)
    fun n b b' k j h hnext hb' hn ↦ (h (Nat.le_of_succ_le hn)).cycle_counted hnext hn hb'
  rw [runProgram_eq hwords hloop] at hrun
  obtain ⟨-, rfl⟩ := Prod.mk.inj (Option.some.inj hrun)
  have hfinish := (hcounted hn).lines.adds (b.finish_adds spec complete)
    (Nat.le_of_eq (by rw [Bench.finish_state]))
  exact hfinish.inOrder

/-- Assumes: the image holds a word, the instructions of the sequential machine on it are orderly,
and the bytes it stores are held. The machine comes to the end with step `k`, within half of the
cycles. The reference trace is in order and has a loaded commit. Then `run_program` ends, and the
architectural comparison of the two traces passes exactly when the machine has produced a commit and
the commits of the reference before its first unsupported one, without those tied with that one, are
the compared commits of the machine. -/
theorem archVerdict_runProgram {boom : List RawRecord} (hboom : InOrder RawRecord.orderKey boom)
    (hloaded : loadedCommits boom ≠ []) {k : ℕ} (hk : k < maxCycles / 2)
    (hstops : stops (.loadHex text) (spec.target complete) k = true)
    (hfirst : ∀ i < k, stops (.loadHex text) (spec.target complete) i = false)
    (program source : String) :
    ∃ ok lines, runProgram spec complete capacity text = some (ok, lines) ∧
      (archVerdict boom (lines.map Line.raw) program source = .ok .pass ↔
        machineCommits (.loadHex text) k ≠ [] ∧
          observations (prefixCommits boom) =
            (comparedCommits (.loadHex text) k).map CommitEntry.observation ++
              observations (tiedCommits boom)) := by
  obtain ⟨ok, lines, hrun, hends, -⟩ :=
    runProgram_verdict spec complete capacity text hwords horderly hheld
  obtain ⟨-, hcommits, -⟩ := hends k hk hstops hfirst
  refine ⟨ok, lines, hrun, ?_⟩
  have hinOrder := runProgram_inOrder spec complete capacity text hwords horderly hheld hrun
  have hobserved : observations (prefixCommits (lines.map Line.raw) ++
      laterCommits (lines.map Line.raw)) =
        (comparedCommits (.loadHex text) k).map CommitEntry.observation := by
    rw [← hls_keeps hinOrder, sortedRecords_eq hinOrder, ← observed_machineCommits, ← hcommits,
      observed_ofKind]
    exact supported_observations _
  by_cases hnone : machineCommits (.loadHex text) k = []
  · refine ⟨fun hpass ↦ ?_, fun h ↦ absurd hnone h.1⟩
    have hhls := (hlsCommits_eq_nil_iff hcommits).mpr hnone
    have herror : ∃ e, normalizeHls (lines.map Line.raw) program source = .error e := by
      unfold normalizeHls
      rw [hhls]
      exact ⟨_, rfl⟩
    obtain ⟨e, he⟩ := herror
    obtain ⟨ref, href, -⟩ := normalizeBoom_archSignatures hloaded program
    unfold archVerdict at hpass
    rw [href, he] at hpass
    have hfail : (Except.error e : Except ValueError CompareStatus) = .ok .pass := hpass
    cases hfail
  · have hhls : loadedCommits (lines.map Line.raw) ≠ [] := by
      rw [loadedCommits_raw]
      exact fun h ↦ hnone ((hlsCommits_eq_nil_iff hcommits).mp h)
    rw [archVerdict_pass_iff program source hboom hinOrder hloaded hhls, observations_append,
      hobserved]
    exact ⟨fun h ↦ ⟨hnone, h⟩, fun h ↦ h.2⟩

end Verdict

/-! ### The image without loads -/

/-- The machine on the image comes to the end with its third step. -/
theorem endingMem_stops : stops endingMem (endingSpec.target true) 3 = true ∧
    ∀ i < 3, stops endingMem (endingSpec.target true) i = false := by
  have hcommits : (commitEvents endingMem.read (machine endingMem 0)).length = 1 := by
    decide +kernel
  have hcommits₁ : (commitEvents endingMem.read (machine endingMem 1)).length = 1 := by
    rw [machine_one]
    decide +kernel
  have hcommits₂ : (commitEvents endingMem.read (machine endingMem 2)).length = 1 := by
    rw [machine_two]
    decide +kernel
  have hstores : (machine endingMem 0).stores endingMem.read = [] := by decide +kernel
  have hstores₁ : (machine endingMem 1).stores endingMem.read = [] := by
    rw [machine_one]
    decide +kernel
  have htarget : endingSpec.target true = 3 := rfl
  unfold stops machineCommits machineEnded
  rw [htarget]
  refine ⟨?_, fun i hi ↦ ?_⟩
  · simp [Run.outputs_succ, hcommits, hcommits₁, hcommits₂]
  · interval_cases i <;> simp [Run.outputs_succ, hcommits, hcommits₁, hstores, hstores₁]

/-- `archVerdict_runProgram` for this image. -/
theorem archVerdict_runProgram_ending :
    ∃ ok lines, runProgram endingSpec true maxSize endingImage = some (ok, lines) ∧
      (archVerdict plainTrace (lines.map Line.raw) "ending" "hls_cpp" = .ok .pass ↔
        machineCommits (.loadHex endingImage) 3 ≠ [] ∧
          observations (prefixCommits plainTrace) =
            (comparedCommits (.loadHex endingImage) 3).map CommitEntry.observation ++
              observations (tiedCommits plainTrace)) :=
  archVerdict_runProgram endingSpec true maxSize endingImage endingImage_words endingImage_orderly
    endingImage_held (by unfold InOrder; decide +kernel) (by decide +kernel) (by decide)
    (by rw [loadHex_endingImage]; exact endingMem_stops.1)
    (by rw [loadHex_endingImage]; exact endingMem_stops.2) "ending" "hls_cpp"

end BoomCore.PrefixTrace
