import BoomCore.Library.Renaming
import BoomCore.Proof.Pipeline
import Mathlib.Order.Interval.Finset.Nat

/-!
# Physical registers

The rename tables and the window together are an allocation of physical registers (`RegInv`): the
registers of the committed map, the destinations of the window and the free registers are distinct,
and the map table is the committed map with the destinations of the window installed.

The pointers of the free list are off by one: `tail` points at the last of the `count` entries, not
behind it (`FreeInv.ends`), so the first release overwrites that entry. The free registers are the
first `count - 1` entries, and what rename takes from a list with one entry left is whatever that
slot holds. `RegInv` survives such a step only when the register happens to be unused
(`SpareRegister`), and a dropped instruction only when it has no destination.
-/

set_option autoImplicit false
set_option relaxedAutoImplicit false

namespace BoomCore

open Ring Renaming

/-! ### The rename tables in one cycle -/

section Tables

variable {program : Program} {sys : System} (h : StepInv sys) (t : Tick)

include h

theorem StepInv.atCommit_rename_of_none (hacc : sys.accepted program t = none) :
    (sys.atCommit program t).rename.intMapTable =
        (if sys.core.execute.aluResult.redirects then sys.core.rename.intMapTable.restore
          else sys.core.rename.intMapTable) ∧
      (sys.atCommit program t).rename.intFreeList = sys.core.rename.intFreeList := by
  unfold System.atCommit
  dsimp only
  rw [h.beforeCommit_of_none t hacc]
  exact ⟨rfl, rfl⟩

/-- The tables after an instruction was renamed, also when it is dropped afterwards. -/
theorem StepInv.atCommit_rename_of_some {resp : ImemResponse}
    (hacc : sys.accepted program t = some resp) :
    (sys.atCommit program t).rename.intMapTable =
        (renamedInst sys.core sys.core.frontend.pc (program sys.core.frontend.pc)).2.1 ∧
      (sys.atCommit program t).rename.intFreeList =
        (renamedInst sys.core sys.core.frontend.pc (program sys.core.frontend.pc)).2.2 := by
  unfold System.atCommit
  dsimp only
  by_cases hfull : sys.core.rob.isFull = true
  · rw [h.beforeCommit_of_full t hacc hfull]
    exact ⟨rfl, rfl⟩
  · rw [h.beforeCommit_of_some t hacc (by simpa using hfull)]
    exact ⟨rfl, rfl⟩

/-- Rename does not touch the committed map. -/
theorem StepInv.atCommit_committed :
    (sys.atCommit program t).rename.intMapTable.committedMapTable =
      sys.core.rename.intMapTable.committedMapTable := by
  cases hacc : sys.accepted program t with
  | none =>
    rw [(h.atCommit_rename_of_none t hacc).1]
    split_ifs <;> rfl
  | some resp =>
    rw [(h.atCommit_rename_of_some t hacc).1]
    exact (renamedInst_spec _ _ _).committed

variable (program) in
/-- The redirect cycle leaves the tables as rename restored them. -/
theorem StepInv.cycle_rename_of_redirects
    (hredirects : sys.core.execute.aluResult.redirects = true) :
    (sys.cycle program t).core.rename.intMapTable = sys.core.rename.intMapTable.restore ∧
      (sys.cycle program t).core.rename.intFreeList = sys.core.rename.intFreeList := by
  have hnone : sys.accepted program t = none := by
    unfold System.accepted
    rw [h.fetch.response_of_redirects program t hredirects, ite_self]
  have hcore : (sys.cycle program t).core.rename = (sys.atCommit program t).rename := by
    show (sys.coreStep program t).1.rename = _
    rw [h.coreStep_of_redirects program t hredirects]
    rfl
  rw [hcore]
  obtain ⟨hmap, hfree⟩ := h.atCommit_rename_of_none t hnone
  rw [if_pos hredirects] at hmap
  exact ⟨hmap, hfree⟩

end Tables

/-- Retirement installs the destination in the committed map. -/
theorem RenameState.commitDst_committed (ren : RenameState) (uop : MicroOp) :
    (ren.commitDst uop).intMapTable.committedMapTable =
      if uop.rename.pdst ≠ 0 then
        Function.update ren.intMapTable.committedMapTable uop.rename.ldst uop.rename.pdst
      else ren.intMapTable.committedMapTable := by
  unfold commitDst
  split_ifs <;> rfl

/-! ### The free list -/

/-- What holds of the free list in every run. -/
structure FreeInv (fl : RenameFreeListState) : Prop where
  head_lt : fl.head < intPhysRegs
  tail_lt : fl.tail < intPhysRegs
  ends : (fl.head + fl.count) % intPhysRegs = (fl.tail + 1) % intPhysRegs
  bounded : ∀ i < intPhysRegs, fl.freeList i < intPhysRegs

namespace FreeInv

variable {fl : RenameFreeListState}

theorem init : FreeInv {} := ⟨by decide, by decide, by decide, fun _ hi ↦ hi⟩

theorem pop (h : FreeInv fl) (hcount : 0 < fl.count) : FreeInv fl.pop := by
  refine ⟨Nat.mod_lt _ (by decide), h.tail_lt, ?_, h.bounded⟩
  show ((fl.head + 1) % intPhysRegs + (fl.count - 1)) % intPhysRegs = (fl.tail + 1) % intPhysRegs
  rw [Nat.mod_add_mod, show fl.head + 1 + (fl.count - 1) = fl.head + fl.count by omega]
  exact h.ends

theorem push (h : FreeInv fl) {preg : ℕ} (hpreg : preg < intPhysRegs) :
    FreeInv (fl.push preg) := by
  refine ⟨h.head_lt, Nat.mod_lt _ (by decide), ?_, fun i hi ↦ ?_⟩
  · show (fl.head + (fl.count + 1)) % intPhysRegs = ((fl.tail + 1) % intPhysRegs + 1) % intPhysRegs
    rw [← h.ends, Nat.mod_add_mod, Nat.add_assoc]
  · show Function.update fl.freeList fl.tail preg i < intPhysRegs
    by_cases htail : i = fl.tail
    · rw [htail, Function.update_self]
      exact hpreg
    · rw [Function.update_of_ne htail]
      exact h.bounded i hi

theorem renameUop (h : FreeInv fl) (uop : MicroOp) (mt : RenameMapTableState) :
    FreeInv (renameUop uop mt fl).2.2 := by
  have hspec := renameUop_spec uop mt fl
  by_cases hwrites : uop.writesInt = true
  · obtain ⟨-, hpop, hempty⟩ := hspec.dst hwrites
    by_cases hcount : 0 < fl.count
    · rw [(hpop hcount).2.2]
      exact h.pop hcount
    · rw [(hempty (by omega)).2.2]
      exact h
  · rw [(hspec.noDst (by simpa using hwrites)).2.2.2]
    exact h

theorem commitDst {ren : RenameState} (h : FreeInv ren.intFreeList) (uop : MicroOp) :
    FreeInv (ren.commitDst uop).intFreeList := by
  unfold RenameState.commitDst
  split_ifs with hpdst hstale
  · exact h.push hstale.2.1
  · exact h
  · exact h

/-- `tail` is the cell of the last entry, not the cell behind it. -/
theorem tail_eq (h : FreeInv fl) (hcount : 0 < fl.count) :
    fl.tail = slot intPhysRegs fl.head (fl.count - 1) := by
  have hends := h.ends
  have hmod : fl.head + (fl.count - 1) ≡ fl.tail [MOD intPhysRegs] := by
    refine Nat.ModEq.add_right_cancel' 1 ?_
    rw [show fl.head + (fl.count - 1) + 1 = fl.head + fl.count by omega]
    exact hends
  unfold slot
  rw [hmod, Nat.mod_eq_of_lt h.tail_lt]

end FreeInv

/-- Commit either leaves the rename tables alone or retires the uop of the head entry. -/
theorem commitStage_rename (s : BoomCoreState) (pipe : PipeSignals) :
    (commitStage s pipe).1.rename = s.rename ∨
      (commitStage s pipe).1.rename = s.rename.commitDst (s.rob.entries s.rob.head).uop := by
  unfold commitStage commitException commitHead
  dsimp only
  split_ifs <;> first | exact Or.inl rfl | exact Or.inr rfl

theorem freeInv_atCommit (program : Program) {sys : System} (h : StepInv sys) (t : Tick)
    (hfree : FreeInv sys.core.rename.intFreeList) :
    FreeInv (sys.atCommit program t).rename.intFreeList := by
  cases hacc : sys.accepted program t with
  | none =>
    rw [(h.atCommit_rename_of_none t hacc).2]
    exact hfree
  | some resp =>
    rw [(h.atCommit_rename_of_some t hacc).2]
    exact hfree.renameUop _ _

theorem freeInv_cycle {program : Program} {sys : System} (h : StepInv sys) (t : Tick)
    (hfree : FreeInv sys.core.rename.intFreeList) :
    FreeInv (sys.cycle program t).core.rename.intFreeList := by
  by_cases hredirects : sys.core.execute.aluResult.redirects = true
  · rw [(h.cycle_rename_of_redirects program t hredirects).2]
    exact hfree
  · have hat := freeInv_atCommit program h t hfree
    show FreeInv (sys.coreStep program t).1.rename.intFreeList
    rw [h.coreStep_of_not_redirects program t (by simpa using hredirects)]
    rcases commitStage_rename (sys.atCommit program t) (sys.commitPipe program t) with heq | heq
    · rw [heq]
      exact hat
    · rw [heq]
      exact hat.commitDst _

/-- The pointers of the free list are off by one in every state of every run. -/
theorem freeInv_run (program : Program) (tick : ℕ → Tick) (n : ℕ) :
    FreeInv (System.run program tick n).core.rename.intFreeList := by
  induction n with
  | zero => exact .init
  | succ n ih => exact freeInv_cycle (stepInv_run program tick n) (tick n) ih

/-! ### The allocation -/

/-- A physical register that can be assigned to a name. -/
def IsReg (p : ℕ) : Prop := p ≠ 0 ∧ p < intPhysRegs

instance : DecidablePred IsReg := fun _ ↦ inferInstanceAs (Decidable (_ ∧ _))

/-- The names that can be assigned a register: every integer register but `x0`. -/
def writableRegs : Finset ℕ := Finset.Icc 1 (logicalRegCount - 1)

theorem mem_writableRegs {x : ℕ} : x ∈ writableRegs ↔ x ≠ 0 ∧ x < logicalRegCount := by
  unfold writableRegs
  rw [Finset.mem_Icc, Nat.one_le_iff_ne_zero]
  exact and_congr_right fun _ ↦ Nat.le_sub_one_iff_lt (by decide)

/-- The assignment of an instruction in flight, if it has a destination register. -/
def Inflight.assign (d : Inflight) : Option (Assign ℕ ℕ) :=
  if d.result.uop.rename.pdst ≠ 0 then
    some ⟨d.result.uop.rename.ldst, d.result.uop.rename.pdst, d.result.uop.rename.stalePdst⟩
  else none

/-- The assignments in flight. -/
def assigns (w : List Inflight) : List (Assign ℕ ℕ) := w.filterMap Inflight.assign

@[simp] theorem assigns_nil : assigns [] = [] := rfl

theorem assigns_concat_of_zero {w : List Inflight} {d : Inflight}
    (h : d.result.uop.rename.pdst = 0) : assigns (w ++ [d]) = assigns w := by
  simp [assigns, Inflight.assign, h]

theorem assigns_concat_of_ne {w : List Inflight} {d : Inflight}
    (h : d.result.uop.rename.pdst ≠ 0) :
    assigns (w ++ [d]) = assigns w ++
      [⟨d.result.uop.rename.ldst, d.result.uop.rename.pdst, d.result.uop.rename.stalePdst⟩] := by
  simp [assigns, Inflight.assign, h]

theorem assigns_cons_of_zero {w : List Inflight} {d : Inflight}
    (h : d.result.uop.rename.pdst = 0) : assigns (d :: w) = assigns w := by
  simp [assigns, Inflight.assign, h]

theorem assigns_cons_of_ne {w : List Inflight} {d : Inflight}
    (h : d.result.uop.rename.pdst ≠ 0) :
    assigns (d :: w) =
      ⟨d.result.uop.rename.ldst, d.result.uop.rename.pdst, d.result.uop.rename.stalePdst⟩ ::
        assigns w := by
  simp [assigns, Inflight.assign, h]

/-- The registers of the maps, of the window and of the free list. `free` is what the free list
really holds: all of its entries but the last. -/
structure RegInv (mt : RenameMapTableState) (fl : RenameFreeListState) (w : List Inflight)
    (free : List ℕ) : Prop where
  ring : Holds intPhysRegs fl.freeList fl.head free
  length : free.length = fl.count - 1
  alloc : Allocation IsReg mt.committedMapTable (assigns w) free
  map : mt.mapTable = replay mt.committedMapTable (assigns w)
  bounded : ∀ x, mt.committedMapTable x < intPhysRegs
  unwritten : ∀ x, x ∉ writableRegs → mt.committedMapTable x = 0

/-- The register is not zero and neither in the committed map nor the destination of an instruction
in flight. -/
structure SpareRegister (mt : RenameMapTableState) (w : List Inflight) (p : ℕ) : Prop where
  ne_zero : p ≠ 0
  committed : ∀ x ∈ writableRegs, mt.committedMapTable x ≠ p
  inFlight : ∀ d ∈ w, d.result.uop.rename.pdst ≠ p

theorem regInv_init : RegInv {} {} [] ((List.range 50).map (· + 1)) := by
  have hregs : intPhysRegs = 52 := rfl
  have hfree : ∀ p ∈ (List.range 50).map (· + 1), p ≠ 0 ∧ p < intPhysRegs := by
    intro p hp
    obtain ⟨k, hk, rfl⟩ := List.mem_map.mp hp
    have hlt := List.mem_range.mp hk
    exact ⟨by omega, by omega⟩
  refine ⟨⟨by decide, fun k hk ↦ ?_⟩, by decide, ⟨trivial, hfree, ?_, ?_, fun x hx ↦ ?_⟩, rfl,
    fun _ ↦ Nat.zero_lt_succ _, fun _ _ ↦ rfl⟩
  · rw [List.length_map, List.length_range] at hk
    rw [List.getElem_map, List.getElem_range]
    show (1 + k) % intPhysRegs = k + 1
    rw [Nat.mod_eq_of_lt (by omega), Nat.add_comm]
  · exact List.Nodup.map (fun a b h ↦ by simpa using h) List.nodup_range
  · intro x y hx
    exact absurd rfl hx.1
  · exact (hfree _ hx).1 rfl

namespace RegInv

variable {mt : RenameMapTableState} {fl : RenameFreeListState} {w : List Inflight}
  {free : List ℕ}

/-- A redirect drops the window; the registers of the window are lost. -/
theorem restore (h : RegInv mt fl w free) : RegInv mt.restore fl [] free :=
  ⟨h.ring, h.length, h.alloc.squash, rfl, h.bounded, h.unwritten⟩

/-- The name of a committed register. -/
theorem mem_writableRegs_of_ne (h : RegInv mt fl w free) {x : ℕ}
    (hx : mt.committedMapTable x ≠ 0) : x ∈ writableRegs := by
  by_contra hcontra
  exact hx (h.unwritten x hcontra)

/-- Assumes: the free list is not down to its last entry, or that entry is spare. The register at
the front of the list goes to the name `x`. -/
theorem pop (h : RegInv mt fl w free) (hfl : FreeInv fl) (hcount : 0 < fl.count)
    (hspare : fl.count = 1 → SpareRegister mt w fl.front) (x : ℕ) :
    IsReg fl.front ∧ ∃ free',
      Holds intPhysRegs fl.pop.freeList fl.pop.head free' ∧
      free'.length = fl.pop.count - 1 ∧
      Allocation IsReg mt.committedMapTable
        (assigns w ++ [⟨x, fl.front, mt.mapTable x⟩]) free' := by
  rw [h.map]
  cases hfree : free with
  | nil =>
    have hone : fl.count = 1 := by
      have hlength := h.length
      rw [hfree, List.length_nil] at hlength
      omega
    obtain ⟨hne, hcommitted, hinFlight⟩ := hspare hone
    have hreg : IsReg fl.front := ⟨hne, hfl.bounded _ hfl.head_lt⟩
    have halloc := h.alloc
    rw [hfree] at halloc
    refine ⟨hreg, [], Tracks.nil _ _ _, ?_, halloc.assign x hreg ?_ fun y hy ↦ ?_⟩
    · show 0 = fl.count - 1 - 1
      omega
    · rw [List.append_nil]
      intro hmem
      obtain ⟨a, ha, heq⟩ := List.mem_map.mp hmem
      obtain ⟨d, hd, hassign⟩ := List.mem_filterMap.mp ha
      unfold Inflight.assign at hassign
      split_ifs at hassign
      rw [← Option.some.inj hassign] at heq
      exact hinFlight d hd heq
    · refine hcommitted y (h.mem_writableRegs_of_ne ?_) hy
      rw [hy]
      exact hne
  | cons p rest =>
    have hring := h.ring
    have halloc := h.alloc
    have hlength := h.length
    rw [hfree] at hring halloc hlength
    have hfront : fl.front = p := hring.head_cell hfl.head_lt
    rw [hfront]
    refine ⟨halloc.isReg p (by simp), rest, hring.pop, ?_, halloc.take x⟩
    show rest.length = fl.count - 1 - 1
    rw [List.length_cons] at hlength
    omega

/-- Renaming keeps the allocation, with the renamed instruction at the end of the window. -/
theorem rename (h : RegInv mt fl w free) (hfl : FreeInv fl) {base : MicroOp}
    (hbase : base.rename.pdst = 0)
    (hspare : base.writesInt = true → fl.count = 1 → SpareRegister mt w fl.front) {d : Inflight}
    (hd : d.result.uop.rename = (renameUop base mt fl).1.rename) :
    ∃ free', RegInv (renameUop base mt fl).2.1 (renameUop base mt fl).2.2 (w ++ [d]) free' := by
  have hspec := renameUop_spec base mt fl
  by_cases hwrites : base.writesInt = true
  · obtain ⟨hldst, htake, hempty⟩ := hspec.dst hwrites
    by_cases hcount : 0 < fl.count
    · obtain ⟨hpdst, hmap, hfree⟩ := htake hcount
      obtain ⟨hreg, free', hring, hlength, halloc⟩ :=
        h.pop hfl hcount (hspare hwrites) base.rename.ldst
      have hne : d.result.uop.rename.pdst ≠ 0 := by
        rw [hd, hpdst]
        exact hreg.1
      have hassigns : assigns (w ++ [d]) =
          assigns w ++ [⟨base.rename.ldst, fl.front, mt.mapTable base.rename.ldst⟩] := by
        rw [assigns_concat_of_ne hne, hd, hpdst, hldst, hspec.stalePdst]
      refine ⟨free', ?_, ?_, ?_, ?_, ?_, ?_⟩
      · rw [hfree]
        exact hring
      · rw [hfree]
        exact hlength
      · rw [hspec.committed, hassigns]
        exact halloc
      · rw [hspec.committed, hassigns, replay_concat, ← h.map, hmap]
        rfl
      · rw [hspec.committed]
        exact h.bounded
      · rw [hspec.committed]
        exact h.unwritten
    · obtain ⟨hpdst, hmap, hfree⟩ := hempty (by omega)
      have hzero : d.result.uop.rename.pdst = 0 := by rw [hd, hpdst, hbase]
      rw [hmap, hfree]
      exact ⟨free, h.ring, h.length, by rw [assigns_concat_of_zero hzero]; exact h.alloc,
        by rw [assigns_concat_of_zero hzero]; exact h.map, h.bounded, h.unwritten⟩
  · obtain ⟨hpdst, -, hmap, hfree⟩ := hspec.noDst (by simpa using hwrites)
    have hzero : d.result.uop.rename.pdst = 0 := by rw [hd, hpdst]
    rw [hmap, hfree]
    exact ⟨free, h.ring, h.length, by rw [assigns_concat_of_zero hzero]; exact h.alloc,
      by rw [assigns_concat_of_zero hzero]; exact h.map, h.bounded, h.unwritten⟩

/-- A released register goes behind the free registers. With an empty list it is lost. -/
theorem push_ring (h : RegInv mt fl w free) (hfl : FreeInv fl) (hroom : fl.count < intPhysRegs)
    (p : ℕ) :
    (0 < fl.count ∧ Holds intPhysRegs (fl.push p).freeList (fl.push p).head (free ++ [p]) ∧
        (free ++ [p]).length = (fl.push p).count - 1) ∨
      (free = [] ∧ fl.count = 0) := by
  by_cases hcount : 0 < fl.count
  · refine Or.inl ⟨hcount, ?_, ?_⟩
    · show Holds intPhysRegs (Function.update fl.freeList fl.tail p) fl.head (free ++ [p])
      rw [hfl.tail_eq hcount, ← h.length]
      exact h.ring.push (by rw [h.length]; omega) rfl
    · show (free ++ [p]).length = fl.count + 1 - 1
      rw [List.length_append, h.length, List.length_singleton]
      omega
  · have hlength := h.length
    exact Or.inr ⟨List.eq_nil_of_length_eq_zero (by omega), by omega⟩

end RegInv

/-- Retirement keeps the allocation: the destination of the oldest instruction goes to the committed
map, and the register that it replaces to the free list. -/
theorem RegInv.commitDst {ren : RenameState} {w : List Inflight} {d : Inflight} {free : List ℕ}
    (h : RegInv ren.intMapTable ren.intFreeList (d :: w) free) (hfl : FreeInv ren.intFreeList)
    (hspec : DispatchedSpec d.result) :
    ∃ free', RegInv (ren.commitDst d.result.uop).intMapTable
      (ren.commitDst d.result.uop).intFreeList w free' := by
  by_cases hpdst : d.result.uop.rename.pdst = 0
  · have hsame : ren.commitDst d.result.uop = ren := by simp [RenameState.commitDst, hpdst]
    have hassigns := assigns_cons_of_zero (w := w) hpdst
    rw [hsame]
    exact ⟨free, h.ring, h.length, hassigns ▸ h.alloc, hassigns ▸ h.map, h.bounded, h.unwritten⟩
  · have hassigns := assigns_cons_of_ne (w := w) hpdst
    have halloc := h.alloc
    have hmap := h.map
    rw [hassigns] at halloc hmap
    have hreg : IsReg d.result.uop.rename.pdst := halloc.isReg _ (by simp)
    have hldst : d.result.uop.rename.ldst ∈ writableRegs :=
      mem_writableRegs.mpr ⟨(hspec.pdst hpdst).2, hspec.ldst_lt⟩
    have hbounded : ∀ x, Function.update ren.intMapTable.committedMapTable
        d.result.uop.rename.ldst d.result.uop.rename.pdst x < intPhysRegs := by
      intro x
      by_cases hx : x = d.result.uop.rename.ldst
      · rw [hx, Function.update_self]
        exact hreg.2
      · rw [Function.update_of_ne hx]
        exact h.bounded x
    have hunwritten : ∀ x, x ∉ writableRegs → Function.update ren.intMapTable.committedMapTable
        d.result.uop.rename.ldst d.result.uop.rename.pdst x = 0 := by
      intro x hx
      have hne : x ≠ d.result.uop.rename.ldst := fun heq ↦ hx (heq ▸ hldst)
      rw [Function.update_of_ne hne]
      exact h.unwritten x hx
    unfold RenameState.commitDst
    rw [if_pos hpdst]
    dsimp only
    split_ifs with hrelease
    · rcases h.push_ring hfl hrelease.2.2 d.result.uop.rename.stalePdst with
        ⟨-, hring, hlength⟩ | ⟨hnil, hzero⟩
      · exact ⟨_, hring, hlength, halloc.retire_release ⟨hrelease.1, hrelease.2.1⟩, hmap,
          hbounded, hunwritten⟩
      · rw [hnil] at halloc
        refine ⟨[], Tracks.nil _ _ _, ?_, halloc.retire, hmap, hbounded, hunwritten⟩
        show 0 = ren.intFreeList.count + 1 - 1
        omega
    · exact ⟨free, h.ring, h.length, halloc.retire, hmap, hbounded, hunwritten⟩

/-! ### Counting -/

/-- No register is lost: every register but register zero is counted in the free list, mapped by the
committed map, or the destination of an instruction in flight. -/
def Conserved (mt : RenameMapTableState) (fl : RenameFreeListState) (w : List Inflight) : Prop :=
  fl.count + (mapped IsReg writableRegs mt.committedMapTable).card + (assigns w).length =
    intPhysRegs - 1

theorem conserved_init : Conserved {} {} [] := by
  unfold Conserved
  decide

section Counting

variable {mt : RenameMapTableState} {fl : RenameFreeListState} {w : List Inflight}
  {free : List ℕ}

theorem Conserved.rename (hcons : Conserved mt fl w) (h : RegInv mt fl w free) (hfl : FreeInv fl)
    {base : MicroOp} (hbase : base.rename.pdst = 0)
    (hspare : base.writesInt = true → fl.count = 1 → SpareRegister mt w fl.front) {d : Inflight}
    (hd : d.result.uop.rename = (renameUop base mt fl).1.rename) :
    Conserved (renameUop base mt fl).2.1 (renameUop base mt fl).2.2 (w ++ [d]) := by
  have hspec := renameUop_spec base mt fl
  unfold Conserved at hcons ⊢
  rw [hspec.committed]
  by_cases hwrites : base.writesInt = true
  · obtain ⟨-, htake, hempty⟩ := hspec.dst hwrites
    by_cases hcount : 0 < fl.count
    · obtain ⟨hpdst, -, hfree⟩ := htake hcount
      have hreg := (h.pop hfl hcount (hspare hwrites) 0).1
      have hne : d.result.uop.rename.pdst ≠ 0 := by
        rw [hd, hpdst]
        exact hreg.1
      rw [hfree, assigns_concat_of_ne hne, List.length_append, List.length_singleton, ← hcons]
      show fl.count - 1 + _ + _ = _
      omega
    · obtain ⟨hpdst, -, hfree⟩ := hempty (by omega)
      have hzero : d.result.uop.rename.pdst = 0 := by rw [hd, hpdst, hbase]
      rw [hfree, assigns_concat_of_zero hzero]
      exact hcons
  · obtain ⟨hpdst, -, -, hfree⟩ := hspec.noDst (by simpa using hwrites)
    have hzero : d.result.uop.rename.pdst = 0 := by rw [hd, hpdst]
    rw [hfree, assigns_concat_of_zero hzero]
    exact hcons

theorem Conserved.commitDst {ren : RenameState} {d : Inflight}
    (hcons : Conserved ren.intMapTable ren.intFreeList (d :: w))
    (h : RegInv ren.intMapTable ren.intFreeList (d :: w) free) (hspec : DispatchedSpec d.result) :
    Conserved (ren.commitDst d.result.uop).intMapTable (ren.commitDst d.result.uop).intFreeList
      w := by
  by_cases hpdst : d.result.uop.rename.pdst = 0
  · have hsame : ren.commitDst d.result.uop = ren := by simp [RenameState.commitDst, hpdst]
    rw [hsame]
    unfold Conserved at hcons ⊢
    rw [assigns_cons_of_zero hpdst] at hcons
    exact hcons
  · have hassigns := assigns_cons_of_ne (w := w) hpdst
    have halloc := h.alloc
    unfold Conserved at hcons ⊢
    rw [hassigns] at halloc hcons
    have hreg : IsReg d.result.uop.rename.pdst := halloc.isReg _ (by simp)
    have hldst : d.result.uop.rename.ldst ∈ writableRegs :=
      mem_writableRegs.mpr ⟨(hspec.pdst hpdst).2, hspec.ldst_lt⟩
    have hold : d.result.uop.rename.stalePdst =
        ren.intMapTable.committedMapTable d.result.uop.rename.ldst := halloc.chained.1
    have hcard := card_mapped_install IsReg writableRegs
      (m := ren.intMapTable.committedMapTable)
      (a := ⟨d.result.uop.rename.ldst, d.result.uop.rename.pdst, d.result.uop.rename.stalePdst⟩)
      hldst hreg
    rw [List.length_cons] at hcons
    have hregs : intPhysRegs = 52 := rfl
    unfold RenameState.commitDst
    rw [if_pos hpdst]
    dsimp only
    rw [show Function.update ren.intMapTable.committedMapTable d.result.uop.rename.ldst
      d.result.uop.rename.pdst = install ren.intMapTable.committedMapTable
        ⟨d.result.uop.rename.ldst, d.result.uop.rename.pdst, d.result.uop.rename.stalePdst⟩
        from rfl, hcard]
    dsimp only
    rw [← hold]
    split_ifs with hrelease holdreg holdreg
    · show ren.intFreeList.count + 1 + _ + _ = _
      omega
    · exact absurd ⟨hrelease.1, hrelease.2.1⟩ holdreg
    · exact absurd ⟨holdreg.1, holdreg.2, by omega⟩ hrelease
    · omega

end Counting

end BoomCore
