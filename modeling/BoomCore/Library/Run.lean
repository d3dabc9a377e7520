import Mathlib.Data.Nat.Notation
import Mathlib.Data.List.Range
import Mathlib.Logic.Function.Iterate
import Mathlib.Tactic.ByContra

/-!
# Runs of a machine under a schedule of inputs

A machine is a step function on states and inputs, and a schedule gives the input of every step.
`states` is the run from an initial state. An invariant of the run is an invariant of one step,
possibly under a condition on the state and the input of the steps that come before (`invariant`,
`invariant_of_guard`). `outputs` collects what the steps emit, and a simulation whose steps stand
still or advance by one carries over to them (`outputs_of_simulation`,
`outputs_of_simulation_before`). What goes through a buffer that may lose elements comes out in
order (`outputs_sublist`). A machine that has come to rest has emitted everything
(`outputs_of_fixed`). `lastEvent` finds the last step before a given one whose event satisfies a
predicate.
-/

set_option autoImplicit false
set_option relaxedAutoImplicit false

namespace Run

variable {σ ι ε : Type*}

/-! ### States and invariants -/

/-- The state before step `n`. -/
def states (step : σ → ι → σ) (init : σ) (input : ℕ → ι) : ℕ → σ
  | 0 => init
  | n + 1 => step (states step init input n) (input n)

section Invariant

variable {step : σ → ι → σ} {init : σ} {input : ℕ → ι}

@[simp] theorem states_zero : states step init input 0 = init := rfl

theorem states_succ (n : ℕ) :
    states step init input (n + 1) = step (states step init input n) (input n) := rfl

/-- Assumes: every step whose state and input satisfy `guard` preserves `inv`. Then `inv` holds
before step `n` when it holds initially and the steps before `n` satisfy `guard`. -/
theorem invariant_of_guard {inv : σ → Prop} (guard : σ → ι → Prop) (hinit : inv init)
    (hstep : ∀ s i, inv s → guard s i → inv (step s i)) (n : ℕ)
    (hguard : ∀ m < n, guard (states step init input m) (input m)) :
    inv (states step init input n) := by
  induction n with
  | zero => exact hinit
  | succ n ih =>
    have hn := ih fun m hm ↦ hguard m (Nat.lt_succ_of_lt hm)
    exact hstep _ _ hn (hguard n (Nat.lt_succ_self n))

/-- An invariant that every step preserves holds in every state of the run. -/
theorem invariant {inv : σ → Prop} (hinit : inv init)
    (hstep : ∀ s i, inv s → inv (step s i)) (n : ℕ) : inv (states step init input n) :=
  invariant_of_guard (fun _ _ ↦ True) hinit (fun s i hs _ ↦ hstep s i hs) n fun _ _ ↦ trivial

end Invariant

/-! ### Outputs -/

/-- Everything emitted before step `n`, in order. -/
def outputs (emit : ℕ → List ε) (n : ℕ) : List ε := (List.range n).flatMap emit

@[simp] theorem outputs_zero (emit : ℕ → List ε) : outputs emit 0 = [] := rfl

theorem outputs_succ (emit : ℕ → List ε) (n : ℕ) :
    outputs emit (n + 1) = outputs emit n ++ emit n := by
  simp [outputs, List.range_succ]

/-- What is emitted later comes behind what was emitted before. -/
theorem outputs_mono (emit : ℕ → List ε) {m n : ℕ} (h : m ≤ n) :
    outputs emit m <+: outputs emit n := by
  induction n with
  | zero => exact ⟨[], by rw [Nat.le_zero.mp h, List.append_nil]⟩
  | succ n ih =>
    rcases Nat.lt_or_eq_of_le h with hlt | heq
    · obtain ⟨rest, hrest⟩ := ih (Nat.le_of_lt_succ hlt)
      exact ⟨rest ++ emit n, by rw [outputs_succ, ← hrest, List.append_assoc]⟩
    · exact ⟨[], by rw [heq, List.append_nil]⟩

/-- Assumes: `R m k` says that a machine before its step `m` is where a specification is before its
step `k`. Every step of the machine before step `n` is `quiet` and stays there, or `follows` the
step of the specification. Then for all outputs of the two that agree on such steps, what the
machine has emitted is what the specification has emitted before some step. -/
theorem outputs_of_simulation_before (R follows : ℕ → ℕ → Prop) (quiet : ℕ → Prop) (hinit : R 0 0)
    (n : ℕ) (hstep : ∀ m < n, ∀ k, R m k →
      (R (m + 1) k ∧ quiet m) ∨ (R (m + 1) (k + 1) ∧ follows m k)) :
    ∃ k, R n k ∧ ∀ {ε : Type*} (emit spec : ℕ → List ε), (∀ m, quiet m → emit m = []) →
      (∀ m j, follows m j → emit m = spec j) → outputs emit n = outputs spec k := by
  induction n with
  | zero => exact ⟨0, hinit, fun emit spec _ _ ↦ rfl⟩
  | succ n ih =>
    obtain ⟨k, hk, heq⟩ := ih fun m hm ↦ hstep m (Nat.lt_succ_of_lt hm)
    rcases hstep n (Nat.lt_succ_self n) k hk with ⟨hnext, hquiet⟩ | ⟨hnext, hfollows⟩
    · refine ⟨k, hnext, fun emit spec hnone hsame ↦ ?_⟩
      rw [outputs_succ, hnone n hquiet, List.append_nil]
      exact heq emit spec hnone hsame
    · refine ⟨k + 1, hnext, fun emit spec hnone hsame ↦ ?_⟩
      rw [outputs_succ, outputs_succ, hsame n k hfollows, heq emit spec hnone hsame]

/-- `outputs_of_simulation_before` for a machine whose steps all are quiet or follow. -/
theorem outputs_of_simulation (R follows : ℕ → ℕ → Prop) (quiet : ℕ → Prop) (hinit : R 0 0)
    (hstep : ∀ n k, R n k → (R (n + 1) k ∧ quiet n) ∨ (R (n + 1) (k + 1) ∧ follows n k)) (n : ℕ) :
    ∃ k, R n k ∧ ∀ {ε : Type*} (emit spec : ℕ → List ε), (∀ m, quiet m → emit m = []) →
      (∀ m j, follows m j → emit m = spec j) → outputs emit n = outputs spec k :=
  outputs_of_simulation_before R follows quiet hinit n fun m _ ↦ hstep m

/-- Assumes: a buffer is empty at first, and what a step emits, followed by what it leaves in the
buffer, is in the buffer before the step or comes in, in this order. Then what has been emitted came
in, in the same order. -/
theorem outputs_sublist {emit incoming : ℕ → List ε} (held : ℕ → List ε) (hinit : held 0 = [])
    (n : ℕ) (hstep : ∀ m < n, (emit m ++ held (m + 1)).Sublist (held m ++ incoming m)) :
    (outputs emit n ++ held n).Sublist (outputs incoming n) := by
  induction n with
  | zero => rw [hinit]; exact List.Sublist.refl _
  | succ n ih =>
    have hn := ih fun m hm ↦ hstep m (Nat.lt_succ_of_lt hm)
    rw [outputs_succ, outputs_succ, List.append_assoc]
    refine List.Sublist.trans (List.Sublist.append_left (hstep n (Nat.lt_succ_self n)) _) ?_
    rw [← List.append_assoc]
    exact hn.append_right _

/-! ### A machine that has come to rest -/

section Fixed

variable {step : σ → σ} {s : σ} {j k : ℕ} (h : step (step^[k] s) = step^[k] s) (hle : k ≤ j)

include h hle

/-- A state that a step does not change is kept. -/
theorem iterate_of_fixed : step^[j] s = step^[k] s := by
  induction j, hle using Nat.le_induction with
  | base => rfl
  | succ j _ ih => rw [Function.iterate_succ_apply', ih, h]

/-- A machine at rest that emits nothing has emitted everything. -/
theorem outputs_of_fixed (emit : σ → List ε) (hnone : emit (step^[k] s) = []) :
    outputs (fun i ↦ emit (step^[i] s)) j = outputs (fun i ↦ emit (step^[i] s)) k := by
  induction j, hle using Nat.le_induction with
  | base => rfl
  | succ j hj ih => rw [outputs_succ, ih, iterate_of_fixed h hj, hnone, List.append_nil]

end Fixed

/-! ### The last event -/

/-- The last step before step `n` whose event satisfies `p`. -/
def lastEvent (event : ℕ → Option ε) (p : ε → Bool) : ℕ → Option ℕ
  | 0 => none
  | n + 1 => if (event n).any p then some n else lastEvent event p n

section LastEvent

variable {event : ℕ → Option ε} {p : ε → Bool}

theorem lastEvent_succ_of_some {n : ℕ} {e : ε} (he : event n = some e) (hp : p e = true) :
    lastEvent event p (n + 1) = some n := by
  simp [lastEvent, he, hp]

theorem lastEvent_succ_of_not {n : ℕ} (h : ∀ e, event n = some e → p e = false) :
    lastEvent event p (n + 1) = lastEvent event p n := by
  have hany : (event n).any p = false := by
    cases hevent : event n with
    | none => rfl
    | some e => exact h e hevent
  simp [lastEvent, hany]

end LastEvent

end Run
