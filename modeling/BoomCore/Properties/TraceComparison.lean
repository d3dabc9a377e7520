import BoomCore.Proof.Normalize

/-!
# What an architectural PASS means

The comparison is meant to stop before the first unsupported instruction of a trace:
`prefixCommits`. `normalize_boom` cuts there, and loses with the boundary the commits that have the
same key; `normalize_hls` does not cut, it only leaves the unsupported commits out, so it also keeps
what comes after them. `archVerdict_iff` says for which traces the verdict is still the one about
the prefixes.
-/

set_option autoImplicit false
set_option relaxedAutoImplicit false

namespace BoomCore.Trace

/-! ### Statements -/

def observations (records : List RawRecord) : List Observation :=
  records.map RawRecord.observation

theorem observations_append (a b : List RawRecord) :
    observations (a ++ b) = observations a ++ observations b := List.map_append

/-- `compare_normalized(normalize_boom(boom), normalize_hls(hls), "arch")`, its status. -/
def archVerdict (boom hls : List RawRecord) (program source : String) :
    Except ValueError CompareStatus := do
  let ref ← normalizeBoom boom program
  let dut ← normalizeHls hls program source
  return (compareNormalized ref dut .arch).status

def isComparable (record : RawRecord) : Bool := !isUnsupported record.instruction.read

/-- The loaded commits before the first unsupported one. -/
def prefixCommits (records : List RawRecord) : List RawRecord :=
  (loadedCommits records).takeWhile isComparable

/-- The commits of the prefix that are not below the key at which `normalize_boom` cuts. -/
def tiedCommits (records : List RawRecord) : List RawRecord :=
  (prefixCommits records).filter fun record ↦ boundaryKey records ≤ record.orderKey

/-- The supported loaded commits after the first unsupported one. -/
def laterCommits (records : List RawRecord) : List RawRecord :=
  ((loadedCommits records).dropWhile isComparable).filter isComparable

/-- Nothing is tied with the boundary of the BOOM trace and nothing supported comes after that of
the HLS trace; or the BOOM prefix differs from the HLS prefix, and also from the HLS prefix
followed by what comes later in the HLS trace and what is tied in the BOOM trace. -/
def PrefixesDecide (boom hls : List RawRecord) : Prop :=
  (tiedCommits boom = [] ∧ laterCommits hls = []) ∨
    (observations (prefixCommits boom) ≠ observations (prefixCommits hls) ∧
      observations (prefixCommits boom) ≠
        observations (prefixCommits hls ++ laterCommits hls ++ tiedCommits boom))

/-! ### What each normalizer keeps of a trace in order -/

theorem filter_isSupported (records : List RawRecord) :
    records.filter RawRecord.isSupported = (loadedCommits records).filter isComparable := by
  unfold loadedCommits
  rw [List.filter_filter]
  exact List.filter_congr fun record _ ↦ Bool.and_comm _ _

section Trace

variable {records : List RawRecord} (hordered : InOrder RawRecord.orderKey records)

include hordered

/-- `normalize_hls` keeps the prefix and what is supported after it. -/
theorem hls_keeps :
    (sortedRecords records).filter RawRecord.isSupported =
      prefixCommits records ++ laterCommits records := by
  rw [sortedRecords_eq hordered, filter_isSupported, filter_eq_takeWhile_append]
  rfl

/-- Nothing behind the boundary is below its key. -/
theorem boundaryKey_le_of_mem {record : RawRecord}
    (hmem : record ∈ (loadedCommits records).dropWhile isComparable) :
    boundaryKey records ≤ record.orderKey := by
  obtain ⟨first, rest, hfirst⟩ := List.exists_cons_of_ne_nil (List.ne_nil_of_mem hmem)
  have hkey : boundaryKey records = first.orderKey := by
    have hfind : firstUnsupported records = some first := by
      have hhead := find?_not_eq_head?_dropWhile isComparable (loadedCommits records)
      rw [hfirst, List.head?_cons] at hhead
      rw [← hhead]
      unfold firstUnsupported isComparable
      simp only [Bool.not_not]
    unfold boundaryKey
    rw [hfind]
  have hdrop : InOrder RawRecord.orderKey (first :: rest) :=
    hfirst ▸ List.Pairwise.sublist (List.dropWhile_sublist _) (hordered.filter _)
  rw [hkey]
  rw [hfirst] at hmem
  rcases List.mem_cons.mp hmem with rfl | hmem
  · exact le_rfl
  · exact (List.pairwise_cons.mp hdrop).1 record hmem

/-- `normalize_boom` keeps the prefix up to what is tied with the boundary. -/
theorem boom_keeps :
    ((sortedRecords records).filter fun record ↦
      record.isSupported && decide (record.orderKey < boundaryKey records)) ++
        tiedCommits records = prefixCommits records := by
  have hfilter : (records.filter fun record ↦
      record.isSupported && decide (record.orderKey < boundaryKey records)) =
      (prefixCommits records).filter fun record ↦
        decide (record.orderKey < boundaryKey records) := by
    have hswap : (records.filter fun record ↦
        record.isSupported && decide (record.orderKey < boundaryKey records)) =
        (records.filter RawRecord.isSupported).filter fun record ↦
          decide (record.orderKey < boundaryKey records) := by
      rw [List.filter_filter]
      exact List.filter_congr fun record _ ↦ Bool.and_comm _ _
    have hnone : ((laterCommits records).filter fun record ↦
        decide (record.orderKey < boundaryKey records)) = [] := by
      refine List.filter_eq_nil_iff.mpr fun record hmem ↦ ?_
      have hle := boundaryKey_le_of_mem hordered (List.mem_of_mem_filter hmem)
      simpa using hle
    rw [hswap, filter_isSupported, filter_eq_takeWhile_append isComparable, List.filter_append]
    exact (congrArg _ hnone).trans (List.append_nil _)
  rw [sortedRecords_eq hordered, hfilter]
  exact ((hordered.filter _).takeWhile _).split (boundaryKey records)

end Trace

/-! ### The verdict -/

/-- Assumes: loaded commits in both traces, in order. The verdict is PASS when the BOOM prefix,
without what is tied with its boundary, shows what the HLS prefix and the later HLS commits show. -/
theorem archVerdict_pass_iff {boom hls : List RawRecord} (program source : String)
    (hboom : InOrder RawRecord.orderKey boom) (hhls : InOrder RawRecord.orderKey hls)
    (hboomLoaded : loadedCommits boom ≠ []) (hhlsLoaded : loadedCommits hls ≠ []) :
    archVerdict boom hls program source = .ok .pass ↔
      observations (prefixCommits boom) =
        observations (prefixCommits hls ++ laterCommits hls ++ tiedCommits boom) := by
  obtain ⟨ref, href, hrefs⟩ := normalizeBoom_archSignatures hboomLoaded program
  obtain ⟨dut, hdut, hduts⟩ := normalizeHls_archSignatures hhlsLoaded program source
  have hverdict : archVerdict boom hls program source =
      .ok (compareNormalized ref dut .arch).status := by
    unfold archVerdict
    rw [href, hdut]
    rfl
  have hsignatures : ∀ records : List RawRecord,
      (records.map fun record ↦ record.observation.signature) =
        (observations records).map Observation.signature := fun records ↦ by
    unfold observations
    rw [List.map_map]
    rfl
  rw [hverdict, Except.ok.injEq, compareNormalized_status, normalizedEvents_arch,
    normalizedEvents_arch]
  show archSignatures ref = archSignatures dut ↔ _
  rw [hrefs, hduts, hls_keeps hhls, hsignatures, hsignatures,
    (List.map_injective_iff.mpr Observation.signature_injective).eq_iff, ← boom_keeps hboom]
  simp only [observations_append, List.append_left_inj]

/-- Assumes: loaded commits in both traces, in order. PASS means that the prefixes show the same
exactly when the prefixes decide. -/
theorem archVerdict_iff {boom hls : List RawRecord} (program source : String)
    (hboom : InOrder RawRecord.orderKey boom) (hhls : InOrder RawRecord.orderKey hls)
    (hboomLoaded : loadedCommits boom ≠ []) (hhlsLoaded : loadedCommits hls ≠ []) :
    (archVerdict boom hls program source = .ok .pass ↔
        observations (prefixCommits boom) = observations (prefixCommits hls)) ↔
      PrefixesDecide boom hls := by
  rw [archVerdict_pass_iff program source hboom hhls hboomLoaded hhlsLoaded]
  unfold PrefixesDecide
  constructor
  · intro h
    by_cases hsame : observations (prefixCommits boom) = observations (prefixCommits hls)
    · have hlength := congrArg List.length ((h.mpr hsame).symm.trans hsame)
      simp only [observations, List.length_map, List.length_append] at hlength
      exact .inl ⟨List.eq_nil_of_length_eq_zero (by omega),
        List.eq_nil_of_length_eq_zero (by omega)⟩
    · exact .inr ⟨hsame, fun hpass ↦ hsame (h.mp hpass)⟩
  · rintro (⟨htied, hlater⟩ | ⟨hdiffer, hfail⟩)
    · rw [htied, hlater, List.append_nil, List.append_nil]
    · exact iff_of_false hfail hdiffer

/-! ### Two traces -/

/-- A commit that writes no register. -/
def commitAt (cycle pc inst : ℕ) : RawRecord :=
  { event := .commit, cycle := .ofInt cycle, traceSequenceId := .ofInt cycle
    pc := .ofNat pc, instruction := .ofNat inst
    rdValid := .bool false, exception := .bool false }

def plainTrace : List RawRecord := [commitAt 1 0x80000000 0x13, commitAt 3 0x80000008 0x13]

/-- The same commits with a store between them. -/
def storeTrace : List RawRecord :=
  [commitAt 1 0x80000000 0x13, commitAt 2 0x80000004 0x0062B023, commitAt 3 0x80000008 0x13]

theorem archVerdict_iff_plainTrace :
    (archVerdict plainTrace plainTrace "plain" "hls_cpp" = .ok .pass ↔
        observations (prefixCommits plainTrace) = observations (prefixCommits plainTrace)) ↔
      PrefixesDecide plainTrace plainTrace :=
  archVerdict_iff "plain" "hls_cpp" (by unfold InOrder; decide +kernel)
    (by unfold InOrder; decide +kernel) (by decide +kernel) (by decide +kernel)

/-- A store that only the HLS trace has is not noticed, and a trace with a store before other
commits fails against itself. -/
theorem store_before_commits_misjudged :
    InOrder RawRecord.orderKey plainTrace ∧ InOrder RawRecord.orderKey storeTrace ∧
      loadedCommits plainTrace ≠ [] ∧ loadedCommits storeTrace ≠ [] ∧
      archVerdict plainTrace storeTrace "plain" "hls_cpp" = .ok .pass ∧
      observations (prefixCommits plainTrace) ≠ observations (prefixCommits storeTrace) ∧
      archVerdict storeTrace storeTrace "store" "hls_cpp" = .ok .fail := by
  refine ⟨?_, ?_, by decide +kernel, by decide +kernel, by decide +kernel, by decide +kernel,
    by decide +kernel⟩ <;>
    (unfold InOrder; decide +kernel)

end BoomCore.Trace
