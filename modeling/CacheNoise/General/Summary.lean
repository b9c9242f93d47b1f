import Mathlib.Algebra.BigOperators.Group.List.Basic
import Mathlib.Order.Lattice
import Mathlib.Tactic

/-!
# Summaries of lists

The maximum, the minimum, the sum and the number of a list of values, where the sum may have
been started with a seed (`Summarizes`). Summaries of two lists make one of both (`append`), and
seeds add up. So a list can be cut up, its parts summarized and the summaries put together, in
any order (`perm`): that changes nothing, except that every part brings its own seed.

The deviations of a list from its mean add up to zero. So their squares add up to the square of the
last one if and only if there is no deviation at all (`sum_sq_eq_last_iff`).
-/

namespace Summary

variable {α : Type*} [LinearOrder α] [AddCommMonoid α]

/-- The largest and the smallest of the values, their sum on top of a seed, and their number. -/
structure Summarizes (values : List α) (seed maximum minimum total : α) (count : ℕ) : Prop where
  maximum_mem : maximum ∈ values
  le_maximum : ∀ v ∈ values, v ≤ maximum
  minimum_mem : minimum ∈ values
  minimum_le : ∀ v ∈ values, minimum ≤ v
  total_eq : total = seed + values.sum
  count_eq : count = values.length

namespace Summarizes

variable {l l' : List α} {seed seed' maximum maximum' minimum minimum' total total' : α}
  {count count' : ℕ}

/-- **Summaries are put together**: the seeds add up. -/
theorem append (h : Summarizes l seed maximum minimum total count)
    (h' : Summarizes l' seed' maximum' minimum' total' count') :
    Summarizes (l ++ l') (seed + seed') (max maximum maximum') (min minimum minimum')
      (total + total') (count + count') where
  maximum_mem := by
    obtain hmax | hmax := max_choice maximum maximum'
    · rw [hmax]
      exact List.mem_append_left _ h.maximum_mem
    · rw [hmax]
      exact List.mem_append_right _ h'.maximum_mem
  le_maximum v hv := by
    obtain hv | hv := List.mem_append.mp hv
    · exact (h.le_maximum v hv).trans (le_max_left _ _)
    · exact (h'.le_maximum v hv).trans (le_max_right _ _)
  minimum_mem := by
    obtain hmin | hmin := min_choice minimum minimum'
    · rw [hmin]
      exact List.mem_append_left _ h.minimum_mem
    · rw [hmin]
      exact List.mem_append_right _ h'.minimum_mem
  minimum_le v hv := by
    obtain hv | hv := List.mem_append.mp hv
    · exact (min_le_left _ _).trans (h.minimum_le v hv)
    · exact (min_le_right _ _).trans (h'.minimum_le v hv)
  total_eq := by
    rw [h.total_eq, h'.total_eq, List.sum_append]
    abel
  count_eq := by rw [h.count_eq, h'.count_eq, List.length_append]

/-- The order of the values does not matter. -/
theorem perm (h : Summarizes l seed maximum minimum total count) (hperm : l.Perm l') :
    Summarizes l' seed maximum minimum total count where
  maximum_mem := hperm.mem_iff.mp h.maximum_mem
  le_maximum v hv := h.le_maximum v (hperm.mem_iff.mpr hv)
  minimum_mem := hperm.mem_iff.mp h.minimum_mem
  minimum_le v hv := h.minimum_le v (hperm.mem_iff.mpr hv)
  total_eq := hperm.sum_eq ▸ h.total_eq
  count_eq := hperm.length_eq ▸ h.count_eq

end Summarizes

/-! ### Deviations -/

section

variable {β : Type*} [Field β] [LinearOrder β] [IsStrictOrderedRing β]

theorem sum_map_sub (l : List β) (m : β) : (l.map (· - m)).sum = l.sum - l.length * m := by
  induction l with
  | nil => simp
  | cons a l ih =>
    simp only [List.map_cons, List.sum_cons, List.length_cons, Nat.cast_succ, ih]
    ring

theorem sum_sq_eq_zero_iff (l : List β) (m : β) :
    (l.map fun x => (x - m) ^ 2).sum = 0 ↔ ∀ x ∈ l, x = m := by
  have hnonneg : ∀ y ∈ l.map fun x => (x - m) ^ 2, 0 ≤ y := by
    intro y hy
    obtain ⟨x, -, rfl⟩ := List.mem_map.mp hy
    exact sq_nonneg _
  constructor
  · intro h x hx
    have hle := List.single_le_sum hnonneg _ (List.mem_map_of_mem hx)
    rw [h] at hle
    exact sub_eq_zero.mp (pow_eq_zero_iff two_ne_zero |>.mp (le_antisymm hle (sq_nonneg _)))
  · intro h
    refine List.sum_eq_zero fun y hy => ?_
    obtain ⟨x, hx, rfl⟩ := List.mem_map.mp hy
    rw [h x hx, sub_self, zero_pow two_ne_zero]

/-- **The squares of the deviations add up to the last one** if and only if all values are the
mean: the deviations before the last one are zero then, and all of them have the sum zero. -/
theorem sum_sq_eq_last_iff (l : List β) (last m : β)
    (hmean : (l ++ [last]).length * m = (l ++ [last]).sum) :
    ((l ++ [last]).map fun x => (x - m) ^ 2).sum = (last - m) ^ 2 ↔ ∀ x ∈ l ++ [last], x = m := by
  have hsum := sum_map_sub (l ++ [last]) m
  rw [hmean, sub_self, List.map_append, List.sum_append] at hsum
  rw [List.map_append, List.sum_append, List.map_singleton, List.sum_singleton, add_eq_right,
    sum_sq_eq_zero_iff, List.forall_mem_append, List.forall_mem_singleton]
  refine ⟨fun h => ⟨h, ?_⟩, And.left⟩
  have hzero : (l.map (· - m)).sum = 0 := List.sum_eq_zero fun y hy => by
    obtain ⟨x, hx, rfl⟩ := List.mem_map.mp hy
    exact sub_eq_zero.mpr (h x hx)
  rw [hzero, zero_add, List.map_singleton, List.sum_singleton] at hsum
  exact sub_eq_zero.mp hsum

end

end Summary
