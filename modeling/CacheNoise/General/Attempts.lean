import Mathlib.Data.List.Basic
import Mathlib.Data.List.TakeWhile
import Mathlib.Tactic

/-!
# Steps up to the first that fails

A sequence of steps, each of which may fail without changing the state (`run`): the state in the
end, and whether all steps were done. Without a failure it is the fold of the steps (`run_eq_iff`),
and otherwise the fold of those before the first that fails (`run_of_fails`). If it is known which
steps fail, they are the first ones that do not (`List.takeWhile`), and a step is one of these if
and only if neither it nor one before it fails (`mem_takeWhile_iff`).
-/

namespace Attempts

variable {σ α : Type*} {f : σ → α → Option σ}

/-- Do the steps up to the first that fails; the state then, and whether none failed. -/
def run (f : σ → α → Option σ) : σ → List α → σ × Bool
  | s, [] => (s, true)
  | s, a :: l =>
    match f s a with
    | some s' => run f s' l
    | none => (s, false)

theorem run_cons_some {s s' : σ} {a : α} (h : f s a = some s') (l : List α) :
    run f s (a :: l) = run f s' l := by
  rw [run, h]

theorem run_cons_none {s : σ} {a : α} (h : f s a = none) (l : List α) :
    run f s (a :: l) = (s, false) := by
  rw [run, h]

/-- Steps that do not fail lead to where the others start. -/
theorem run_append {l l' : List α} {s s' : σ} (h : l.foldlM f s = some s') :
    run f s (l ++ l') = run f s' l' := by
  induction l generalizing s with
  | nil =>
    obtain rfl := Option.some.inj h
    rfl
  | cons a l ih =>
    rw [List.foldlM_cons] at h
    obtain ⟨s₁, hstep, hrest⟩ := Option.bind_eq_some_iff.mp h
    rw [List.cons_append, run_cons_some hstep, ih hrest]

/-- **Without a failure**, the steps are a fold. -/
theorem run_eq_iff {l : List α} {s s' : σ} :
    run f s l = (s', true) ↔ l.foldlM f s = some s' := by
  constructor
  · intro h
    induction l generalizing s with
    | nil =>
      obtain rfl := (Prod.mk.inj h).1
      rfl
    | cons a l ih =>
      rw [List.foldlM_cons]
      cases hstep : f s a with
      | none =>
        rw [run_cons_none hstep] at h
        cases (Prod.mk.inj h).2
      | some s₁ =>
        rw [run_cons_some hstep] at h
        exact ih h
  · intro h
    rw [← List.append_nil l, run_append h, run]

/-- **The first failure** ends the run. -/
theorem run_of_fails {l l' : List α} {a : α} {s s' : σ} (h : l.foldlM f s = some s')
    (hfail : f s' a = none) : run f s (l ++ a :: l') = (s', false) := by
  rw [run_append h, run_cons_none hfail]

/-- The first elements with a property, and the rest, which begins with one without it. -/
theorem exists_takeWhile (p : α → Bool) (l : List α) : ∃ done rest, l = done ++ rest ∧
    l.takeWhile p = done ∧ (∀ a ∈ done, p a = true) ∧
      (rest = [] ∨ ∃ a rest', rest = a :: rest' ∧ p a = false) := by
  induction l with
  | nil => exact ⟨[], [], rfl, rfl, by simp, .inl rfl⟩
  | cons a l ih =>
    cases ha : p a with
    | false => exact ⟨[], a :: l, rfl, by simp [ha], by simp, .inr ⟨a, l, rfl, ha⟩⟩
    | true =>
      obtain ⟨done, rest, hl, htake, hdone, hrest⟩ := ih
      refine ⟨a :: done, rest, congrArg (a :: ·) hl, ?_, List.forall_mem_cons.mpr ⟨ha, hdone⟩,
        hrest⟩
      rw [List.takeWhile_cons, ha, if_pos rfl, htake]

/-- An element is among the first ones with a property if no element up to it is without. -/
theorem mem_takeWhile_iff {p : α → Bool} {l l' : List α} {a : α} (ha : a ∉ l) :
    a ∈ (l ++ a :: l').takeWhile p ↔ (∀ b ∈ l, p b = true) ∧ p a = true := by
  induction l with
  | nil =>
    rw [List.nil_append, List.takeWhile_cons]
    cases p a <;> simp
  | cons b l ih =>
    obtain ⟨hne, hl⟩ := not_or.mp (List.mem_cons.not.mp ha)
    rw [List.cons_append, List.takeWhile_cons, List.forall_mem_cons]
    cases hb : p b with
    | false => simp
    | true => simp [hne, ih hl]

/-- In a list without repetitions, what comes before an element stands to the left of it. -/
theorem mem_left_of_sublist {l l' : List α} {a b : α} (hnodup : (l ++ b :: l').Nodup)
    (h : [a, b].Sublist (l ++ b :: l')) : a ∈ l := by
  obtain ⟨-, hbl', -⟩ := List.nodup_append.mp hnodup
  obtain ⟨l₁, l₂, heq, h₁, h₂⟩ := List.sublist_append_iff.mp h
  cases l₁ with
  | nil =>
    -- then `a` and `b` both stand to the right
    obtain rfl : [a, b] = l₂ := heq
    cases h₂ with
    | cons _ h₂ =>
      exact absurd (h₂.subset (List.mem_cons_of_mem a List.mem_cons_self))
        (List.nodup_cons.mp hbl').1
    | cons_cons _ h₂ =>
      exact absurd (h₂.subset List.mem_cons_self) (List.nodup_cons.mp hbl').1
  | cons x l₁ =>
    obtain ⟨rfl, -⟩ := List.cons.inj heq
    exact h₁.subset List.mem_cons_self

end Attempts
