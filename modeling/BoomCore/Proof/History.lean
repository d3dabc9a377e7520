import BoomCore.Proof.Retirement

/-!
# The history of the window

The instructions of the window are in the order of their dispatch, and each still has the cell that
it was given there (`bornInv_window`). Whatever has left the window is older than everything in it
(`born_lt_of_later`), so retirements follow the order of dispatch (`headBorn_lt`).
-/

set_option autoImplicit false
set_option relaxedAutoImplicit false

namespace BoomCore

open Ring

/-- The cell of a dispatched instruction is not the cell of one in flight. -/
theorem SysInv.dispatched_robIdx_ne {program : Program} {sys : System} {w : List Inflight}
    (h : SysInv sys w) (t : Tick) (n : ℕ) {d d' : Inflight} (hd : d ∈ w)
    (hd' : d' ∈ sys.dispatched program t n) :
    d'.result.uop.queue.robIdx ≠ d.result.uop.queue.robIdx := by
  have hwin := (h.atCommit program t n).1.rob
  have hone : sys.dispatched program t n = [d'] := by
    unfold System.dispatched at hd' ⊢
    dsimp only at hd' ⊢
    split_ifs at hd' ⊢
    · rw [List.mem_singleton] at hd'
      rw [hd']
    · simp at hd'
  rw [hone] at hwin
  obtain ⟨k, hk, rfl⟩ := List.getElem_of_mem hd
  have hold := hwin.entryOf (k := k) (by simp; omega)
  have hnew := hwin.entryOf (k := w.length) (by simp)
  rw [List.getElem_append_left hk] at hold
  rw [List.getElem_concat_length rfl] at hnew
  rw [hold.robIdx, hnew.robIdx]
  intro heq
  have hsame := (hwin.slot_inj (by simp) (by simp; omega)).mp heq
  omega

section Runs

variable (program : Program) (tick : ℕ → Tick)

/-- What is known of an instruction in flight before cycle `n`: when and with which result it was
dispatched, that no redirect has been processed since, and that its cell has not been given to
another instruction. -/
structure BornBefore (n : ℕ) (d : Inflight) : Prop where
  lt : d.born < n
  valid : d.result.valid = true
  result : (System.run program tick (d.born + 1)).core.execute.aluResult = d.result
  quiet : ∀ j, d.born < j → j < n →
    (System.run program tick j).core.execute.aluResult.redirects = false
  alone : ∀ j, d.born < j → j < n →
    (System.run program tick (j + 1)).core.execute.aluResult.valid = true →
      (System.run program tick (j + 1)).core.execute.aluResult.uop.queue.robIdx ≠
        d.result.uop.queue.robIdx

theorem born_of_mem_dispatched {n : ℕ} {d : Inflight}
    (hd : d ∈ (System.run program tick n).dispatched program (tick n) n) :
    d.born = n ∧ d.result.valid = true ∧
      (System.run program tick (n + 1)).core.execute.aluResult = d.result := by
  unfold System.dispatched at hd
  dsimp only at hd
  split_ifs at hd with hvalid
  · rw [List.mem_singleton] at hd
    rw [hd]
    exact ⟨rfl, hvalid, rfl⟩
  · simp at hd

theorem mem_dispatched {n : ℕ}
    (hvalid : (System.run program tick (n + 1)).core.execute.aluResult.valid = true) :
    { born := n, result := (System.run program tick (n + 1)).core.execute.aluResult } ∈
      (System.run program tick n).dispatched program (tick n) n := by
  show _ ∈ if (System.run program tick (n + 1)).core.execute.aluResult.valid = true then
    [({ born := n, result := (System.run program tick (n + 1)).core.execute.aluResult } :
      Inflight)] else []
  rw [if_pos hvalid]
  exact List.mem_singleton.mpr rfl

/-- What is dispatched in a cycle is younger than everything in flight. -/
theorem pairwise_append_dispatched {n : ℕ} {w : List Inflight} (hborn : ∀ d ∈ w, d.born < n)
    (hsorted : w.Pairwise fun d d' ↦ d.born < d'.born) :
    (w ++ (System.run program tick n).dispatched program (tick n) n).Pairwise
      fun d d' ↦ d.born < d'.born := by
  refine List.pairwise_append.mpr ⟨hsorted, ?_, fun d hd d' hd' ↦ ?_⟩
  · unfold System.dispatched
    dsimp only
    split_ifs
    · exact List.pairwise_singleton _ _
    · exact List.Pairwise.nil
  · rw [(born_of_mem_dispatched program tick hd').1]
    exact hborn d hd

/-- The window is in the order of dispatch. -/
theorem bornInv_window (n : ℕ) :
    (∀ d ∈ System.window program tick n, BornBefore program tick n d) ∧
      (System.window program tick n).Pairwise fun d d' ↦ d.born < d'.born := by
  induction n with
  | zero => exact ⟨fun d hd ↦ absurd hd (List.not_mem_nil), List.Pairwise.nil⟩
  | succ n ih =>
    obtain ⟨hborn, hsorted⟩ := ih
    have hall := pairwise_append_dispatched program tick (fun d hd ↦ (hborn d hd).lt) hsorted
    constructor
    · intro d hd
      have hmem := System.mem_of_mem_windowStep program (System.run program tick n) (tick n) hd
      by_cases hredirects : (System.run program tick n).core.execute.aluResult.redirects = true
      · have hnil : System.window program tick (n + 1) = [] := by
          show System.windowStep _ _ _ _ _ = []
          unfold System.windowStep
          rw [if_pos hredirects]
        rw [hnil] at hd
        simp at hd
      · rcases List.mem_append.mp hmem with hold | hnew
        · obtain ⟨hlt, hvalid, hresult, hquiet, halone⟩ := hborn d hold
          refine ⟨Nat.lt_succ_of_lt hlt, hvalid, hresult, fun j hj hjn ↦ ?_,
            fun j hj hjn hnext ↦ ?_⟩
          · rcases Nat.lt_succ_iff_lt_or_eq.mp hjn with hlt' | rfl
            · exact hquiet j hj hlt'
            · simpa using hredirects
          · rcases Nat.lt_succ_iff_lt_or_eq.mp hjn with hlt' | rfl
            · exact halone j hj hlt' hnext
            · exact (sysInv_run program tick j).dispatched_robIdx_ne (tick j) j hold
                (mem_dispatched program tick hnext)
        · obtain ⟨hn, hvalid, hresult⟩ := born_of_mem_dispatched program tick hnew
          refine ⟨by omega, hvalid, by rw [hn]; exact hresult, fun j hj hjn ↦ ?_,
            fun j hj hjn ↦ ?_⟩ <;> omega
    · show (System.windowStep program _ _ n _).Pairwise _
      unfold System.windowStep
      split_ifs
      · exact List.Pairwise.nil
      · exact hall
      · exact hall.tail

/-- What is known of the instruction that retires in cycle `n`. -/
theorem born_of_retires {n : ℕ} {d : Inflight} {w' : List Inflight}
    (hret : Retires program (System.run program tick n) (tick n) n (System.window program tick n)
      d w') :
    d.born ≤ n ∧ d.result.valid = true ∧
      (System.run program tick (d.born + 1)).core.execute.aluResult = d.result ∧
      ∀ j, d.born < j → j ≤ n →
        (System.run program tick j).core.execute.aluResult.redirects = false := by
  have hmem : d ∈ System.window program tick n ++
      (System.run program tick n).dispatched program (tick n) n := by
    rw [hret.before]
    exact List.mem_cons_self
  rcases List.mem_append.mp hmem with hold | hnew
  · obtain ⟨hlt, hvalid, hresult, hquiet, -⟩ := (bornInv_window program tick n).1 d hold
    refine ⟨hlt.le, hvalid, hresult, fun j hj hjn ↦ ?_⟩
    rcases Nat.lt_or_eq_of_le hjn with hlt' | rfl
    · exact hquiet j hj hlt'
    · exact hret.quiet
  · obtain ⟨hn, hvalid, hresult⟩ := born_of_mem_dispatched program tick hnew
    refine ⟨hn.le, hvalid, by rw [hn]; exact hresult, fun j hj hjn ↦ ?_⟩
    omega

/-- Assumes: the instruction `d` retires in cycle `n`. Everything in flight later was dispatched
after it. -/
theorem born_lt_of_later {n : ℕ} {d : Inflight} {w' : List Inflight}
    (hret : Retires program (System.run program tick n) (tick n) n (System.window program tick n)
      d w') {m : ℕ} (hm : n < m) :
    ∀ e ∈ System.window program tick m, d.born < e.born := by
  have hle := (born_of_retires program tick hret).1
  induction m, hm using Nat.le_induction with
  | base =>
    intro e he
    have hsorted : (d :: w').Pairwise fun d d' ↦ d.born < d'.born := by
      rw [← hret.before]
      exact pairwise_append_dispatched program tick
        (fun a ha ↦ ((bornInv_window program tick n).1 a ha).lt) (bornInv_window program tick n).2
    have hw' : System.window program tick (n + 1) = w' := hret.after
    rw [hw'] at he
    exact List.rel_of_pairwise_cons hsorted he
  | succ m hm ih =>
    intro e he
    have hmem := System.mem_of_mem_windowStep program (System.run program tick m) (tick m) he
    rcases List.mem_append.mp hmem with hold | hnew
    · exact ih e hold
    · rw [(born_of_mem_dispatched program tick hnew).1]
      omega

/-- The dispatch of the oldest instruction of cycle `n`. -/
def headBorn (n : ℕ) : ℕ :=
  ((System.window program tick n ++
    (System.run program tick n).dispatched program (tick n) n).head?.map Inflight.born).getD 0

theorem headBorn_of_retires {n : ℕ} {d : Inflight} {w' : List Inflight}
    (hret : Retires program (System.run program tick n) (tick n) n (System.window program tick n)
      d w') : headBorn program tick n = d.born := by
  unfold headBorn
  rw [hret.before]
  rfl

/-- Retirements follow the order of dispatch. -/
theorem headBorn_lt {m n : ℕ} {d e : Inflight} {w' w'' : List Inflight} (hmn : m < n)
    (hd : Retires program (System.run program tick m) (tick m) m (System.window program tick m)
      d w')
    (he : Retires program (System.run program tick n) (tick n) n (System.window program tick n)
      e w'') : headBorn program tick m < headBorn program tick n := by
  rw [headBorn_of_retires program tick hd, headBorn_of_retires program tick he]
  have hmem : e ∈ System.window program tick n ++
      (System.run program tick n).dispatched program (tick n) n := by
    rw [he.before]
    exact List.mem_cons_self
  rcases List.mem_append.mp hmem with hold | hnew
  · exact born_lt_of_later program tick hd hmn e hold
  · rw [(born_of_mem_dispatched program tick hnew).1]
    exact (born_of_retires program tick hd).1.trans_lt hmn

end Runs

end BoomCore
