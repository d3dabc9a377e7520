import BoomCore.Proof.Trap

/-!
# Traps and the control transfer behind them

A trap is final, because a trapped core finds the exception at the head in every cycle. There is one
way out: a control transfer that was executed in the very cycle that took the trap. Its redirect is
processed in the next cycle, empties the reorder buffer and resets `rob.state`, without a look at
the trap.
-/

set_option autoImplicit false
set_option relaxedAutoImplicit false

namespace BoomCore

/-! ### Finality -/

section Runs

variable (program : Program) (tick : ℕ → Tick)

/-- A trapped core stays trapped. -/
theorem trapHead_run {n : ℕ}
    (h : TrapHead (System.run program tick n) (System.window program tick n)) (k : ℕ) :
    TrapHead (System.run program tick (n + k)) (System.window program tick (n + k)) := by
  induction k with
  | zero => exact h
  | succ k ih => exact ih.cycle (tick (n + k)) (n + k)

/-- Assumes: cycle `n` takes a trap. The trap is final if and only if no control transfer that
redirects is dispatched in the same cycle. -/
theorem trap_final_iff (n : ℕ)
    (htrap : (System.run program tick n).TakesTrap program (tick n)) :
    (∀ m, n < m → (System.run program tick m).StaysTrapped program (tick m)) ↔
      ¬ (System.run program tick n).Transfers program (tick n) := by
  have hinv := sysInv_run program tick n
  constructor
  · intro hfinal htransfer
    have hredirects : (System.run program tick (n + 1)).core.execute.aluResult.redirects = true :=
      (hinv.cycle_redirects_iff (tick n)).mpr htransfer
    have hstate := (hfinal (n + 1) (Nat.lt_succ_self n)).state
    have hcore : ((System.run program tick (n + 1)).cycle program (tick (n + 1))).core =
        ((System.run program tick (n + 1)).coreStep program (tick (n + 1))).1 := rfl
    have hinv := stepInv_run program tick (n + 1)
    rw [hcore, hinv.coreStep_of_redirects program _ hredirects] at hstate
    simp [RobInternalState.flush] at hstate
  · intro hquiet m hm
    have hhead : TrapHead (System.run program tick (n + 1)) (System.window program tick (n + 1)) :=
      hinv.trapHead_of_takesTrap (tick n) htrap n hquiet
    obtain ⟨k, rfl⟩ := Nat.exists_eq_add_of_lt hm
    rw [Nat.add_right_comm]
    exact (trapHead_run program tick hhead k).staysTrapped _

end Runs

/-! ### A trap that is forgotten -/

/-- The response to the load arrives with an exception in the cycle that dispatches the jump. -/
def faultWithJump (n : ℕ) : Tick :=
  if n = 3 then { Tick.fetch with dmemResp := some { transactionId := 1, exception := true } }
  else .fetch

set_option maxRecDepth 100000 in
theorem loadThenJump_takesTrap :
    (System.run loadThenJump faultWithJump 3).TakesTrap loadThenJump (faultWithJump 3) := by
  constructor <;> decide +kernel

set_option maxRecDepth 100000 in
/-- The cycle after the trap leaves `ROB_EXCEPTION`. -/
theorem loadThenJump_not_final :
    (System.run loadThenJump faultWithJump 3).TakesTrap loadThenJump (faultWithJump 3) ∧
      ¬ ∀ m, 3 < m →
        (System.run loadThenJump faultWithJump m).StaysTrapped loadThenJump (faultWithJump m) := by
  refine ⟨loadThenJump_takesTrap, fun hfinal ↦ ?_⟩
  have hstate := (hfinal 4 (by decide)).state
  revert hstate
  decide +kernel

/-- `trap_final_iff` at this trap. -/
theorem trap_final_iff_loadThenJump :
    (System.run loadThenJump faultWithJump 3).TakesTrap loadThenJump (faultWithJump 3) ∧
      ((∀ m, 3 < m → (System.run loadThenJump faultWithJump m).StaysTrapped loadThenJump
          (faultWithJump m)) ↔
        ¬ (System.run loadThenJump faultWithJump 3).Transfers loadThenJump (faultWithJump 3)) :=
  ⟨loadThenJump_takesTrap, trap_final_iff loadThenJump faultWithJump 3 loadThenJump_takesTrap⟩

end BoomCore
