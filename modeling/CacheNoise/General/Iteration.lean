import Mathlib.Tactic

/-!
# Loops as bounded iteration

Two loop shapes of imperative code, each run with an explicit bound (`fuel`) on the number
of passes, so that every definition computes:

* `Iteration.run step`: a top-tested loop with early exits. One pass either leaves the loop
  with a value (`Sum.inl`) or goes on with a new state (`Sum.inr`).
* `Iteration.doWhile body cond`: a bottom-tested loop, the shape of a label followed by a
  conditional backward jump. The body may itself be a loop, hence may fail to return.

`none` says that the bound was too small. The rules are: an invariant of the passes holds at
the exit (`run_invariant`), a decreasing measure bounds the fuel (`run_isSome`), a loop that can
always go on never ends (`run_eq_none`), and a bottom-tested loop that is known to make `n` passes
ends with the invariant of pass `n` (`doWhile_count`).
-/

namespace Iteration

variable {σ ρ : Type*}

/-! ### Top-tested loops with early exits -/

/-- Repeat `step` until it leaves the loop; `none` when `fuel` passes were not enough. -/
def run (step : σ → ρ ⊕ σ) : ℕ → σ → Option ρ
  | 0, _ => none
  | fuel + 1, s =>
    match step s with
    | .inl r => some r
    | .inr s' => run step fuel s'

variable {step : σ → ρ ⊕ σ}

theorem run_exit {s : σ} {r : ρ} (h : step s = .inl r) (fuel : ℕ) :
    run step (fuel + 1) s = some r := by
  simp only [run, h]

theorem run_next {s s' : σ} (h : step s = .inr s') (fuel : ℕ) :
    run step (fuel + 1) s = run step fuel s' := by
  simp only [run, h]

/-- More fuel does no harm. -/
theorem run_mono {n m : ℕ} {s : σ} {r : ρ} (h : run step n s = some r) (hle : n ≤ m) :
    run step m s = some r := by
  induction n generalizing m s with
  | zero => cases h
  | succ n ih =>
    obtain ⟨m, rfl⟩ : ∃ k, m = k + 1 := ⟨m - 1, by omega⟩
    cases hstep : step s with
    | inl r' => rwa [run_exit hstep] at h ⊢
    | inr s' =>
      rw [run_next hstep] at h ⊢
      exact ih h (by omega)

/-- The invariant rule: a property of the states that every pass keeps holds in the state
from which the loop is left. -/
theorem run_invariant (I : σ → Prop) (hkeep : ∀ s s', I s → step s = .inr s' → I s')
    {n : ℕ} {s : σ} {r : ρ} (hs : I s) (h : run step n s = some r) :
    ∃ s', I s' ∧ step s' = .inl r := by
  induction n generalizing s with
  | zero => simp [run] at h
  | succ n ih =>
    cases hstep : step s with
    | inl r' =>
      rw [run_exit hstep] at h
      exact ⟨s, hs, hstep.trans (congrArg _ (Option.some_injective _ h))⟩
    | inr s' =>
      rw [run_next hstep] at h
      exact ih (hkeep s s' hs hstep) h

/-- The termination rule: a measure that every pass from an invariant state decreases bounds
the number of passes. -/
theorem run_isSome (I : σ → Prop) (μ : σ → ℕ)
    (hkeep : ∀ s s', I s → step s = .inr s' → I s' ∧ μ s' < μ s)
    {n : ℕ} {s : σ} (hs : I s) (hn : μ s < n) : (run step n s).isSome := by
  induction n generalizing s with
  | zero => omega
  | succ n ih =>
    cases hstep : step s with
    | inl r => simp [run_exit hstep]
    | inr s' =>
      rw [run_next hstep]
      obtain ⟨hI, hμ⟩ := hkeep s s' hs hstep
      exact ih hI (by omega)

/-- The rule for loops that never end: from a state with the property, every pass goes on to one. -/
theorem run_eq_none (I : σ → Prop) (hnext : ∀ s, I s → ∃ s', step s = .inr s' ∧ I s') {s : σ}
    (hs : I s) (n : ℕ) : run step n s = none := by
  induction n generalizing s with
  | zero => rfl
  | succ n ih =>
    obtain ⟨s', hstep, hI⟩ := hnext s hs
    rw [run_next hstep, ih hI]

/-! ### Bottom-tested loops -/

/-- Run `body`, then repeat as long as `cond` holds of the state it leaves. -/
def doWhile (body : σ → Option σ) (cond : σ → Bool) : ℕ → σ → Option σ
  | 0, _ => none
  | fuel + 1, s =>
    (body s).bind fun s' => if cond s' then doWhile body cond fuel s' else some s'

/-- The counted-loop rule: if pass `k` of the body `f` leads from an `I k` state to an `I (k + 1)`
state, and the condition `c` first fails after `n` passes, the loop ends in an `I n` state. -/
theorem doWhile_count {f : σ → Option σ} {c : σ → Bool} (I : ℕ → σ → Prop) {n : ℕ}
    (hn : 0 < n)
    (hbody : ∀ k < n, ∀ s, I k s →
      ∃ s', f s = some s' ∧ I (k + 1) s' ∧ c s' = decide (k + 1 < n))
    {s : σ} (hs : I 0 s) {fuel : ℕ} (hfuel : n ≤ fuel) :
    ∃ s', doWhile f c fuel s = some s' ∧ I n s' := by
  have hpass : ∀ j k, k + j = n → 0 < j → ∀ s, I k s → ∀ fuel, j ≤ fuel →
      ∃ s', doWhile f c fuel s = some s' ∧ I n s' := by
    intro j
    induction j with
    | zero => intro k _ hj; omega
    | succ j ih =>
      intro k hkj _ s hs fuel hf
      obtain ⟨fuel, rfl⟩ : ∃ n, fuel = n + 1 := ⟨fuel - 1, by omega⟩
      obtain ⟨s', hs', hI, hc⟩ := hbody k (by omega) s hs
      rw [doWhile, hs', Option.bind_some, hc]
      rcases Nat.eq_zero_or_pos j with rfl | hj
      · obtain rfl : k + 1 = n := hkj
        exact ⟨s', by simp, hI⟩
      · rw [decide_eq_true (by omega : k + 1 < n), if_pos rfl]
        exact ih (k + 1) (by omega) hj s' hI fuel (by omega)
  exact hpass n 0 (by omega) hn s hs fuel hfuel

end Iteration
