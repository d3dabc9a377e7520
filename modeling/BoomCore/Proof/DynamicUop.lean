import BoomCore.Model.DynamicUop

/-!
# The fields of a dynamic uop

What each loop of `build_uops` does to the uop at a position: the loop over the commits gives it its
key and registers, the loop over the branches the branch with its number, and the last loop an
allocation that no uop in front of it has taken.
-/

set_option autoImplicit false
set_option relaxedAutoImplicit false

namespace BoomCore.Trace

/-- The key by which uops are counted. -/
def uopKey (u : Uop) : Option PcInst := some u.key

/-- How many uops in front of position `i` have the key. -/
def occurrenceAt (uops : List Uop) (i : ℕ) (key : PcInst) : ℕ :=
  (occurrences uopKey (uops.take i) key).length

/-! ### The loop over the branches -/

section Branches

variable {uops : List Uop}

/-- The dictionary by key and occurrence finds the positions. -/
theorem byPcInstOcc_eq_some_iff {key : PcInst} {k i : ℕ} :
    byPcInstOcc uops (key, k) = some i ↔
      ∃ u, uops[i]? = some u ∧ u.key = key ∧ occurrenceAt uops i key = k := by
  have htake : ∀ j, occurrenceAt uops j key =
      (occurrences (fun entry : Uop × ℕ ↦ some entry.1.key) (uops.zipIdx.take j) key).length := by
    intro j
    have hmap : uops.take j = (uops.zipIdx.take j).map Prod.fst := by
      rw [List.map_take, List.zipIdx_map_fst]
    unfold occurrenceAt
    rw [hmap, occurrences_map, List.length_map]
    rfl
  unfold byPcInstOcc
  rw [Option.map_eq_some_iff, numbering_dict]
  constructor
  · rintro ⟨⟨u, j⟩, hentry, rfl⟩
    obtain ⟨n, hn, hkey, hcount⟩ := (getElem?_occurrences_iff _ _ _ _ _).mp hentry
    rw [List.getElem?_zipIdx, Option.map_eq_some_iff] at hn
    obtain ⟨v, hv, heq⟩ := hn
    obtain ⟨rfl, hj⟩ := Prod.mk.inj heq
    rw [Nat.zero_add] at hj
    subst hj
    exact ⟨v, hv, Option.some.inj hkey, (htake n).trans hcount⟩
  · rintro ⟨u, hu, hkey, hcount⟩
    refine ⟨(u, i), (getElem?_occurrences_iff _ _ _ _ _).mpr ⟨i, ?_, ?_, ?_⟩, rfl⟩
    · rw [List.getElem?_zipIdx, hu, Nat.zero_add]
      rfl
    · exact congrArg some hkey
    · exact (htake i).symm.trans hcount

/-- A uop with the branch of its number. -/
def withBranch (rawBranch : PcInst × ℕ → Option RawRecord) (processed : List BranchRecord) (k : ℕ)
    (u : Uop) : Uop :=
  match (occurrences BranchRecord.key processed u.key)[k]? with
  | none => u
  | some branch => u.resolveBranch branch (rawBranch (u.key, k))

variable (rawBranch : PcInst × ℕ → Option RawRecord)

theorem withBranch_append_singleton (processed : List BranchRecord) (branch : BranchRecord) (k : ℕ)
    (u : Uop) :
    withBranch rawBranch (processed ++ [branch]) k u =
      if branch.key = some u.key ∧ k = (occurrences BranchRecord.key processed u.key).length then
        u.resolveBranch branch (rawBranch (u.key, k))
      else withBranch rawBranch processed k u := by
  unfold withBranch
  rw [getElem?_occurrences_append_singleton]
  split_ifs <;> rfl

theorem withBranch_length (processed : List BranchRecord) (u : Uop) :
    withBranch rawBranch processed (occurrences BranchRecord.key processed u.key).length u = u := by
  unfold withBranch
  rw [List.getElem?_eq_none le_rfl]

/-- The dictionary finds a uop for a branch exactly when the branch has its key and its number. -/
theorem byPcInstOcc_eq_iff_of_getElem? {i k : ℕ} {u : Uop} (hu : uops[i]? = some u)
    {key : PcInst} : byPcInstOcc uops (key, k) = some i ↔
      key = u.key ∧ occurrenceAt uops i u.key = k := by
  rw [byPcInstOcc_eq_some_iff]
  constructor
  · rintro ⟨v, hv, rfl, hcount⟩
    obtain rfl : u = v := Option.some.inj (hu.symm.trans hv)
    exact ⟨rfl, hcount⟩
  · rintro ⟨rfl, hcount⟩
    exact ⟨u, hu, rfl, hcount⟩

/-- The state of the loop behind some branches: how many of each key there were, and every uop with
its branch. -/
structure BranchState.Holds (uops : List Uop) (rawBranch : PcInst × ℕ → Option RawRecord)
    (st : BranchState) (processed : List BranchRecord) : Prop where
  seen : st.branchSeen = fun key ↦ (occurrences BranchRecord.key processed key).length
  uops : ∀ i, st.uops[i]? =
    uops[i]?.map fun u ↦ withBranch rawBranch processed (occurrenceAt uops i u.key) u

namespace BranchState.Holds

variable {rawBranch} {st : BranchState} {processed : List BranchRecord} {branch : BranchRecord}
  (h : st.Holds uops rawBranch processed)

include h

theorem step_of_key_none (hkey : branch.key = none) :
    (branchStep (byPcInstOcc uops) rawBranch st branch).Holds uops rawBranch
      (processed ++ [branch]) := by
  have hstep : branchStep (byPcInstOcc uops) rawBranch st branch = st := by
    unfold branchStep
    rw [hkey]
  rw [hstep]
  refine ⟨h.seen.trans (funext fun key ↦ ?_), fun i ↦ (h.uops i).trans ?_⟩
  · rw [occurrences_append, occurrences_singleton, hkey]
    simp
  · simp [withBranch_append_singleton, hkey]

theorem step_seen {key : PcInst} (hkey : branch.key = some key) :
    (branchStep (byPcInstOcc uops) rawBranch st branch).branchSeen =
      fun key ↦ (occurrences BranchRecord.key (processed ++ [branch]) key).length := by
  unfold branchStep
  rw [hkey]
  dsimp only
  rw [h.seen]
  funext other
  rw [Function.update_apply, occurrences_append, occurrences_singleton, hkey]
  by_cases hother : other = key
  · subst hother
    simp
  · simp [hother, Ne.symm hother]

/-- The uop that the branch belongs to gets it, and the others stay. -/
theorem step_uops {key : PcInst} (hkey : branch.key = some key) (i : ℕ) :
    (branchStep (byPcInstOcc uops) rawBranch st branch).uops[i]? =
      uops[i]?.map fun u ↦
        withBranch rawBranch (processed ++ [branch]) (occurrenceAt uops i u.key) u := by
  have hold := h.uops i
  simp only [withBranch_append_singleton]
  unfold branchStep
  rw [hkey]
  dsimp only
  rw [h.seen]
  cases hu : uops[i]? with
  | none =>
    rw [hu] at hold
    cases byPcInstOcc uops (key, (occurrences BranchRecord.key processed key).length) with
    | none => exact hold
    | some j =>
      dsimp only
      rw [List.getElem?_modify, hold]
      split_ifs <;> rfl
  | some u =>
    rw [hu, Option.map_some] at hold
    rw [Option.map_some]
    have hown : byPcInstOcc uops (key, (occurrences BranchRecord.key processed key).length) =
          some i ↔ some key = some u.key ∧ occurrenceAt uops i u.key =
            (occurrences BranchRecord.key processed u.key).length := by
      rw [byPcInstOcc_eq_iff_of_getElem? hu, Option.some_inj]
      exact and_congr_right fun heq ↦ by rw [heq]
    cases hpos : byPcInstOcc uops (key, (occurrences BranchRecord.key processed key).length) with
    | none =>
      rw [if_neg (by rw [← hown, hpos]; simp)]
      exact hold
    | some j =>
      dsimp only
      rw [List.getElem?_modify, hold, Option.map_eq_map, Option.map_some]
      by_cases hj : j = i
      · subst hj
        obtain ⟨heq, hcount⟩ := hown.mp hpos
        obtain rfl := Option.some.inj heq
        rw [if_pos rfl, if_pos ⟨rfl, hcount⟩, hcount, withBranch_length]
      · rw [if_neg hj, if_neg (by rw [← hown, hpos]; simpa using hj)]

theorem step : (branchStep (byPcInstOcc uops) rawBranch st branch).Holds uops rawBranch
    (processed ++ [branch]) := by
  cases hkey : branch.key with
  | none => exact h.step_of_key_none hkey
  | some key => exact ⟨h.step_seen hkey, h.step_uops hkey⟩

end BranchState.Holds

theorem holds_foldl_branchStep (processed : List BranchRecord) :
    (processed.foldl (branchStep (byPcInstOcc uops) rawBranch) { uops := uops }).Holds uops
      rawBranch processed := by
  induction processed using List.reverseRecOn with
  | nil => exact ⟨rfl, fun i ↦ (congrFun Option.map_id uops[i]?).symm⟩
  | append_singleton processed branch ih =>
    rw [List.foldl_append, List.foldl_cons, List.foldl_nil]
    exact ih.step

/-- The uop at a position after the loop over the branches. -/
theorem getElem?_branchUops (normalized : List NormRecord) (raw : List RawRecord) (i : ℕ) :
    (branchUops uops normalized raw)[i]? =
      uops[i]?.map fun u ↦
        withBranch (rawBranchByKey uops raw) (branches normalized) (occurrenceAt uops i u.key) u :=
  (holds_foldl_branchStep (rawBranchByKey uops raw) (branches normalized)).uops i

end Branches

/-! ### The loop over the allocations -/

section Annotate

variable (allocs : List Allocation)

/-- The allocations that the uops in front of position `i` have taken. -/
def usedBefore (uops : List Uop) (i : ℕ) : List ℕ :=
  ((uops.take i).foldl (annotateStep allocs) {}).used

theorem getElem?_annotateStep (uops : List Uop) (i : ℕ) :
    (uops.foldl (annotateStep allocs) {}).uops[i]? =
      uops[i]?.map (annotateUop allocs (usedBefore allocs uops i)) := by
  have hlength : ∀ l : List Uop, (l.foldl (annotateStep allocs) {}).uops.length = l.length := by
    intro l
    induction l using List.reverseRecOn with
    | nil => rfl
    | append_singleton l u ih =>
      rw [List.foldl_append, List.foldl_cons, List.foldl_nil]
      unfold annotateStep at ih ⊢
      rw [List.length_append, List.length_append, ih]
      rfl
  induction uops using List.reverseRecOn with
  | nil => rfl
  | append_singleton uops u ih =>
    rw [List.foldl_append, List.foldl_cons, List.foldl_nil]
    show (_ ++ [annotateUop allocs (uops.foldl (annotateStep allocs) {}).used u])[i]? = _
    rcases Nat.lt_trichotomy i uops.length with hlt | heq | hgt
    · have hbefore : usedBefore allocs (uops ++ [u]) i = usedBefore allocs uops i := by
        unfold usedBefore
        rw [List.take_append_of_le_length hlt.le]
      rw [List.getElem?_append_left ((hlength uops).symm ▸ hlt), ih,
        List.getElem?_append_left hlt, hbefore]
    · have hbefore : usedBefore allocs (uops ++ [u]) i =
          (uops.foldl (annotateStep allocs) {}).used := by
        unfold usedBefore
        rw [heq, List.take_left]
      rw [hbefore, heq, List.getElem?_concat_length, ← hlength uops, List.getElem?_concat_length]
      rfl
    · rw [List.getElem?_eq_none, List.getElem?_eq_none]
      · rfl
      · rw [List.length_append, List.length_singleton]
        exact hgt
      · rw [List.length_append, List.length_singleton, hlength]
        exact hgt

/-- What the uop at position `i` takes. -/
def takenAt (uops : List Uop) (i : ℕ) : Option ℕ :=
  uops[i]?.bind fun u ↦ (pickAllocation allocs (usedBefore allocs uops i) u).map Prod.fst

theorem mem_usedBefore {uops : List Uop} {i p : ℕ} :
    p ∈ usedBefore allocs uops i ↔ ∃ j < i, takenAt allocs uops j = some p := by
  induction i with
  | zero => exact ⟨fun h ↦ absurd h List.not_mem_nil, fun ⟨j, hj, _⟩ ↦ absurd hj j.not_lt_zero⟩
  | succ i ih =>
    have hsucc : usedBefore allocs uops (i + 1) =
        (takenAt allocs uops i).toList ++ usedBefore allocs uops i := by
      unfold takenAt usedBefore
      rw [List.take_add_one, List.foldl_append]
      cases uops[i]? with
      | none => rfl
      | some u =>
        generalize (uops.take i).foldl (annotateStep allocs) {} = st
        show (annotateStep allocs st u).used =
          ((pickAllocation allocs st.used u).map Prod.fst).toList ++ st.used
        unfold annotateStep
        cases pickAllocation allocs st.used u <;> rfl
    rw [hsucc, List.mem_append, ih, Option.mem_toList]
    constructor
    · rintro (htaken | ⟨j, hj, htaken⟩)
      · exact ⟨i, i.lt_succ_self, htaken⟩
      · exact ⟨j, hj.trans i.lt_succ_self, htaken⟩
    · rintro ⟨j, hj, htaken⟩
      rcases Nat.lt_succ_iff_lt_or_eq.mp hj with hlt | rfl
      · exact .inr ⟨j, hlt, htaken⟩
      · exact .inl htaken

variable {allocs} {used : List ℕ} {u : Uop}

theorem candidate_position {entry : Allocation × ℕ} {c : ℕ ×ₗ ℕ ×ₗ ℕ}
    (h : candidate used u entry = some c) : (ofLex (ofLex c).2).2 = entry.2 := by
  unfold candidate at h
  split_ifs at h
  · exact Option.some.inj h ▸ rfl
  · exact Option.some.inj h ▸ rfl

/-- A uop takes a least candidate. -/
theorem pickAllocation_some {i : ℕ} {alloc : Allocation}
    (h : pickAllocation allocs used u = some (i, alloc)) :
    allocs[i]? = some alloc ∧ ∃ best, candidate used u (alloc, i) = some best ∧
      ∀ (entry : Allocation × ℕ) (c : ℕ ×ₗ ℕ ×ₗ ℕ), allocs[entry.2]? = some entry.1 →
        candidate used u entry = some c → best ≤ c := by
  unfold pickAllocation at h
  obtain ⟨best, hbest, hpick⟩ := Option.bind_eq_some_iff.mp h
  obtain ⟨alloc', halloc, heq⟩ := Option.map_eq_some_iff.mp hpick
  obtain ⟨rfl, rfl⟩ := Prod.mk.inj heq
  obtain ⟨hin, hleast⟩ := head?_insertionSort hbest
  obtain ⟨entry, hentry, hcandidate⟩ := List.mem_filterMap.mp hin
  have hposition := List.mem_zipIdx_iff_getElem?.mp hentry
  have hsame := candidate_position hcandidate
  rw [hsame] at halloc ⊢
  have hentryEq : entry = (alloc', entry.2) :=
    Prod.ext (Option.some.inj (hposition.symm.trans halloc)) rfl
  refine ⟨halloc, best, hentryEq ▸ hcandidate, fun other c hother hc ↦ ?_⟩
  exact hleast c (List.mem_filterMap.mpr ⟨other, List.mem_zipIdx_iff_getElem?.mpr hother, hc⟩)

theorem pickAllocation_none (h : pickAllocation allocs used u = none) {entry : Allocation × ℕ}
    (hentry : allocs[entry.2]? = some entry.1) : candidate used u entry = none := by
  unfold pickAllocation at h
  rw [Option.bind_eq_none_iff] at h
  cases hbest : ((allocs.zipIdx.filterMap (candidate used u)).insertionSort (· ≤ ·)).head? with
  | none =>
    exact List.filterMap_eq_nil_iff.mp (head?_insertionSort_eq_none hbest) entry
      (List.mem_zipIdx_iff_getElem?.mpr hentry)
  | some best =>
    -- the position of the first candidate is one of the list
    obtain ⟨other, hother, hcandidate⟩ := List.mem_filterMap.mp (head?_insertionSort hbest).1
    have hnone := Option.map_eq_none_iff.mp (h best hbest)
    rw [candidate_position hcandidate, List.mem_zipIdx_iff_getElem?.mp hother] at hnone
    exact absurd hnone (Option.some_ne_none _)

end Annotate

/-! ### The list of allocations -/

section Allocations

/-- The `rob_allocate` records with a ROB index, in order. -/
def allocationRecords (records : List RawRecord) : List (RawRecord × ℤ) :=
  records.filterMap fun record ↦
    if record.event = .robAllocate then record.robIdx.read.map fun robIdx ↦ (record, robIdx)
    else none

/-- How often a ROB index is below the one in front of it. -/
def wraps : List ℤ → ℕ
  | last :: robIdx :: rest => (if robIdx < last then 1 else 0) + wraps (robIdx :: rest)
  | _ => 0

/-- An allocation record at its position, with the number of wraps up to it. -/
def allocationAt (records : List (RawRecord × ℤ)) (p : ℕ) : Option Allocation :=
  records[p]?.map fun entry ↦
    { record := entry.1, robIdx := entry.2
      robGeneration := wraps ((records.take (p + 1)).map Prod.snd) }

theorem wraps_append_singleton (l : List ℤ) (robIdx : ℤ) :
    wraps (l ++ [robIdx]) =
      match l.getLast? with
      | some last => if robIdx < last then wraps l + 1 else wraps l
      | none => wraps l := by
  induction l with
  | nil => rfl
  | cons first rest ih =>
    cases rest with
    | nil =>
      show (if robIdx < first then 1 else 0) + 0 = if robIdx < first then 0 + 1 else 0
      split_ifs <;> rfl
    | cons second rest =>
      have hcons : wraps (first :: second :: rest) =
          (if second < first then 1 else 0) + wraps (second :: rest) := rfl
      show (if second < first then 1 else 0) + wraps (second :: rest ++ [robIdx]) = _
      rw [ih, List.getLast?_cons_cons, hcons]
      cases (second :: rest).getLast? with
      | none => rfl
      | some last => split_ifs <;> dsimp only <;> split_ifs <;> omega

/-- The state of the loop behind some allocation records. -/
structure AllocState.Holds (st : AllocState) (records : List (RawRecord × ℤ)) : Prop where
  length : st.allocs.length = records.length
  allocs : ∀ p, st.allocs[p]? = allocationAt records p
  generation : st.generation = wraps (records.map Prod.snd)
  lastIdx : st.lastIdx = (records.map Prod.snd).getLast?

theorem allocationAt_append_of_lt {records more : List (RawRecord × ℤ)} {p : ℕ}
    (hp : p < records.length) : allocationAt (records ++ more) p = allocationAt records p := by
  unfold allocationAt
  rw [List.getElem?_append_left hp, List.take_append_of_le_length hp]

theorem allocationAt_concat_length (records : List (RawRecord × ℤ)) (entry : RawRecord × ℤ) :
    allocationAt (records ++ [entry]) records.length =
      some ⟨entry.1, entry.2, wraps ((records ++ [entry]).map Prod.snd)⟩ := by
  unfold allocationAt
  rw [List.getElem?_concat_length, List.take_of_length_le (by simp)]
  rfl

theorem allocationAt_of_le {records : List (RawRecord × ℤ)} {p : ℕ} (hp : records.length ≤ p) :
    allocationAt records p = none := by
  unfold allocationAt
  rw [List.getElem?_eq_none hp]
  rfl

/-- Assumes: the record is no allocation with a ROB index. -/
theorem allocStep_of_not_mem {st : AllocState} {record : RawRecord}
    (h : allocationRecords [record] = []) : allocStep st record = st := by
  by_cases hevent : record.event = .robAllocate
  · cases hidx : record.robIdx.read with
    | none => simp [allocStep, hevent, hidx]
    | some robIdx => simp [allocationRecords, hevent, hidx] at h
  · simp [allocStep, hevent]

/-- An allocation with a ROB index is added, with the number of wraps up to it. -/
theorem AllocState.Holds.allocStep {st : AllocState} {records : List (RawRecord × ℤ)}
    (h : st.Holds records) {record : RawRecord} {robIdx : ℤ}
    (hevent : record.event = .robAllocate) (hidx : record.robIdx.read = some robIdx) :
    (allocStep st record).Holds (records ++ [(record, robIdx)]) := by
  have hwraps : wraps ((records ++ [(record, robIdx)]).map Prod.snd) =
      match st.lastIdx with
      | some last => if robIdx < last then st.generation + 1 else st.generation
      | none => st.generation := by
    rw [List.map_append, List.map_singleton, wraps_append_singleton, h.lastIdx, h.generation]
  have hstep : Trace.allocStep st record =
      { allocs := st.allocs ++
          [⟨record, robIdx, wraps ((records ++ [(record, robIdx)]).map Prod.snd)⟩]
        generation := wraps ((records ++ [(record, robIdx)]).map Prod.snd)
        lastIdx := some robIdx } := by
    rw [hwraps]
    unfold Trace.allocStep
    rw [if_neg (not_not_intro hevent)]
    generalize record.robIdx.read = index at hidx
    subst hidx
    rfl
  rw [hstep]
  constructor
  · rw [List.length_append, List.length_append, h.length, List.length_singleton,
      List.length_singleton]
  · intro p
    rcases Nat.lt_trichotomy p records.length with hlt | rfl | hgt
    · rw [List.getElem?_append_left (h.length.symm ▸ hlt), h.allocs,
        allocationAt_append_of_lt hlt]
    · rw [allocationAt_concat_length, ← h.length, List.getElem?_concat_length]
    · have hle : (records ++ [(record, robIdx)]).length ≤ p := by
        rw [List.length_append, List.length_singleton]
        exact hgt
      rw [allocationAt_of_le hle, List.getElem?_eq_none]
      rw [List.length_append, List.length_singleton, h.length]
      exact hgt
  · rfl
  · rw [List.map_append, List.map_singleton, List.getLast?_concat]

theorem holds_foldl_allocStep (records : List RawRecord) :
    (records.foldl allocStep {}).Holds (allocationRecords records) := by
  induction records using List.reverseRecOn with
  | nil => exact ⟨rfl, fun _ ↦ rfl, rfl, rfl⟩
  | append_singleton records record ih =>
    have happend : allocationRecords (records ++ [record]) =
        allocationRecords records ++ allocationRecords [record] := List.filterMap_append
    rw [List.foldl_append, List.foldl_cons, List.foldl_nil, happend]
    cases hone : allocationRecords [record] with
    | nil =>
      rw [allocStep_of_not_mem hone, List.append_nil]
      exact ih
    | cons entry rest =>
      by_cases hevent : record.event = .robAllocate
      · cases hidx : record.robIdx.read with
        | none => simp [allocationRecords, hevent, hidx] at hone
        | some robIdx =>
          have hrecord : allocationRecords [record] = [(record, robIdx)] := by
            simp [allocationRecords, hevent, hidx]
          rw [← hone, hrecord]
          exact ih.allocStep hevent hidx
      · simp [allocationRecords, hevent] at hone

theorem getElem?_allocations (raw : List RawRecord) (p : ℕ) :
    (allocations raw)[p]? = allocationAt (allocationRecords (sortedRecords raw)) p :=
  (holds_foldl_allocStep (sortedRecords raw)).allocs p

end Allocations

end BoomCore.Trace
