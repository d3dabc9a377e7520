import BoomCore.Proof.History

/-!
# Stores leave the core once, at commit

A store request is emitted by commit, in the cycle that retires the store and for the instruction at
the head of the reorder buffer. Retirements follow the order of dispatch, so the dispatches that the
requests belong to are strictly increasing: no store is emitted twice, and none out of order.
Nothing is assumed of the memory: responses may be spurious, and the request stream may be full in
any cycle.
-/

set_option autoImplicit false
set_option relaxedAutoImplicit false

namespace BoomCore

/-! ### Statements -/

/-- The request `req` of cycle `n` is the store that was dispatched and executed in cycle `m`. It
carries the address, the data and the mask of that execution; no redirect has been processed since;
and in cycle `n` the store is at the head of the reorder buffer and no trap is taken. -/
structure EmittedFor (program : Program) (tick : ℕ → Tick) (n : ℕ) (req : DmemRequest) (m : ℕ) :
    Prop where
  le : m ≤ n
  valid : (System.run program tick (m + 1)).core.execute.aluResult.valid = true
  isStore : (System.run program tick (m + 1)).core.execute.aluResult.isStore = true
  address : req.address = (System.run program tick (m + 1)).core.execute.aluResult.memoryAddress
  data : req.writeData = (System.run program tick (m + 1)).core.execute.aluResult.storeData
  mask : req.writeMask = (System.run program tick (m + 1)).core.execute.aluResult.memoryMask
  robIdx : req.robIdx = (System.run program tick n).core.rob.head
  origin : (System.run program tick (m + 1)).core.execute.aluResult.uop.queue.robIdx =
    (System.run program tick n).core.rob.head
  quiet : ∀ j, m < j → j ≤ n →
    (System.run program tick j).core.execute.aluResult.redirects = false
  noTrap : (System.run program tick (n + 1)).core.ioTrap = false

section Runs

variable (program : Program) (tick : ℕ → Tick)

/-- The store requests of every cycle are its retired stores, with the same address, data and mask.
Each belongs to a dispatch of its own, in the order of dispatch, and is emitted for an instruction
that no redirect has squashed and that no trap precedes. -/
theorem stores_exactly_once :
    (∀ n, ((System.run program tick n).storeRequests program (tick n)).map
        (fun req ↦ (req.address, req.data, req.mask, req.writeData, req.writeMask)) =
      ((System.run program tick n).retiredStores program (tick n)).map
        fun ce ↦ (ce.memoryAddress, ce.memoryData, ce.memoryMask, ce.storeData, ce.storeMask)) ∧
    ∃ origin : ℕ → ℕ,
      (∀ n, ∀ req ∈ (System.run program tick n).storeRequests program (tick n),
        EmittedFor program tick n req (origin n)) ∧
      ∀ m n, m < n → (System.run program tick m).storeRequests program (tick m) ≠ [] →
        (System.run program tick n).storeRequests program (tick n) ≠ [] → origin m < origin n := by
  refine ⟨fun n ↦ ?_, headBorn program tick, fun n req hreq ↦ ?_, fun m n hmn hm hn ↦ ?_⟩
  · rcases (sysInv_run program tick n).store_cases program (tick n) n with
      ⟨hreq, hce⟩ | ⟨d, w', -, -, hce, hrecord, hreq⟩
    · rw [hreq, hce]
      rfl
    · rw [hreq, hce, hrecord]
      rfl
  · rcases (sysInv_run program tick n).store_cases program (tick n) n with
      ⟨hnone, -⟩ | ⟨d, w', hret, hstore, -, -, hone⟩
    · rw [hnone] at hreq
      simp at hreq
    · rw [hone, List.mem_singleton] at hreq
      obtain ⟨hle, hvalid, hresult, hquiet⟩ := born_of_retires program tick hret
      rw [headBorn_of_retires program tick hret]
      constructor
      · exact hle
      · rw [hresult]
        exact hvalid
      · rw [hresult]
        exact hstore
      · rw [hreq, hresult]
        rfl
      · rw [hreq, hresult]
        rfl
      · rw [hreq, hresult]
        rfl
      · rw [hreq]
        exact hret.robIdx
      · rw [hresult]
        exact hret.robIdx
      · exact hquiet
      · exact hret.trap
  · rcases (sysInv_run program tick m).store_cases program (tick m) m with
      ⟨hnone, -⟩ | ⟨d, w', hd, -⟩
    · exact absurd hnone hm
    · rcases (sysInv_run program tick n).store_cases program (tick n) n with
        ⟨hnone, -⟩ | ⟨e, w'', he, -⟩
      · exact absurd hnone hn
      · exact headBorn_lt program tick hmn hd he

end Runs

end BoomCore
