import BoomCore.Proof.Registers

/-!
# The pointers of the free list

A circular free list of `count` entries from `head` on has its tail behind the last of them. The
initial state puts the tail on the last register instead, and rename and commit move both ends by
one position at a time, so the tail of every reachable state is one position short of where the
entries end. The first release overwrites the last free register.
-/

set_option autoImplicit false
set_option relaxedAutoImplicit false

namespace BoomCore

open Ring

/-- The free registers, from the head of the list on. -/
def RenameFreeListState.entries (fl : RenameFreeListState) : List ℕ :=
  (List.range fl.count).map fun k ↦ fl.freeList (slot intPhysRegs fl.head k)

/-- The register is a non-zero entry of one of the two maps, or the destination or the stale
destination of a valid entry of the reorder buffer. -/
def BoomCoreState.Live (s : BoomCoreState) (p : ℕ) : Prop :=
  p ≠ 0 ∧
    ((∃ r < logicalRegCount, s.rename.intMapTable.committedMapTable r = p ∨
        s.rename.intMapTable.mapTable r = p) ∨
      ∃ i < robDepth, (s.rob.entries i).valid = true ∧
        ((s.rob.entries i).uop.rename.pdst = p ∨ (s.rob.entries i).uop.rename.stalePdst = p))

/-- The free list is a queue of exactly the registers that are not live. -/
structure BoomCoreState.FreeListRepresents (s : BoomCoreState) : Prop where
  distinct : s.rename.intFreeList.entries.Nodup
  nonzero : 0 ∉ s.rename.intFreeList.entries
  disjoint : ∀ p ∈ s.rename.intFreeList.entries, ¬ s.Live p
  cover : ∀ p, p ∈ s.rename.intFreeList.entries ∨ s.Live p ↔ 1 ≤ p ∧ p < intPhysRegs
  ends : (s.rename.intFreeList.head + s.rename.intFreeList.count) % intPhysRegs =
    s.rename.intFreeList.tail

/-- The entries never end where the tail is. -/
theorem FreeInv.ends_ne_tail {fl : RenameFreeListState} (h : FreeInv fl) :
    (fl.head + fl.count) % intPhysRegs ≠ fl.tail := by
  rw [h.ends]
  exact succ_mod_ne (by decide) h.tail_lt

/-- No reachable state represents its free registers as a queue between head and tail: the entries
end one position behind the tail. -/
theorem not_freeListRepresents (program : Program) (tick : ℕ → Tick) (n : ℕ) :
    ((System.run program tick n).core.rename.intFreeList.head +
        (System.run program tick n).core.rename.intFreeList.count) % intPhysRegs =
      ((System.run program tick n).core.rename.intFreeList.tail + 1) % intPhysRegs ∧
    ¬ (System.run program tick n).core.FreeListRepresents :=
  ⟨(freeInv_run program tick n).ends, fun hrep ↦
    (freeInv_run program tick n).ends_ne_tail hrep.ends⟩

/-- The initial state already: 51 entries from position 1 on end at position 0, and the tail is at
position 51. -/
theorem init_not_freeListRepresents : ¬ ({} : System).core.FreeListRepresents := by
  intro hrep
  have hends := hrep.ends
  revert hends
  decide

end BoomCore
