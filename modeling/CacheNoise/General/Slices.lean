import Mathlib.Algebra.BigOperators.Group.Finset.Basic
import Mathlib.Algebra.Order.Floor.Div
import Mathlib.Tactic

/-!
# Slices of equal width

The numbers below `n` are cut into slices of one width: slice `i` goes from `width * i` up to
`width * (i + 1)`, or up to `n` where that is less. Slices beyond `n` are empty
(`slice_eq_nil_iff`), and enough of them are a partition (`flatMap_slices`), so that they add up
to the whole in any order (`sum_slices_perm`).
-/

namespace Slices

/-- Slice `i`. -/
def slice (n width i : ℕ) : List ℕ :=
  List.range' (width * i) (min n (width * (i + 1)) - width * i)

/-- The first `p` slices, one after the other, are the numbers up to the end of the last. -/
theorem flatMap_first_slices (n width p : ℕ) :
    (List.range p).flatMap (slice n width) = List.range (min n (width * p)) := by
  induction p with
  | zero => simp
  | succ p ih =>
    rw [List.range_succ, List.flatMap_append, ih, List.flatMap_singleton, slice,
      List.range_eq_range', List.range_eq_range']
    have hmono : width * p ≤ width * (p + 1) := Nat.mul_le_mul_left width (Nat.le_succ p)
    rcases Nat.le_total (width * p) n with hle | hle
    · rw [Nat.min_eq_right hle]
      have happend := @List.range'_append_1 0 (width * p) (min n (width * (p + 1)) - width * p)
      rw [Nat.zero_add] at happend
      rw [happend]
      congr 1
      omega
    · rw [Nat.min_eq_left hle, Nat.min_eq_left (hle.trans hmono), Nat.sub_eq_zero_of_le hle,
        List.range'_zero, List.append_nil]

/-- Enough slices of the width `⌈n / p⌉` cover everything. -/
theorem le_ceilDiv_mul {n p : ℕ} (hp : 0 < p) : n ≤ (n ⌈/⌉ p) * p := by
  rw [Nat.mul_comm]
  exact le_smul_ceilDiv hp

/-- **The slices are a partition**: one after the other, they are all numbers below `n`. -/
theorem flatMap_slices {n p : ℕ} (hp : 0 < p) :
    (List.range p).flatMap (slice n (n ⌈/⌉ p)) = List.range n := by
  rw [flatMap_first_slices, Nat.min_eq_left (le_ceilDiv_mul hp)]

/-- A slice is empty if it starts at the end or beyond. -/
theorem slice_eq_nil_iff {n width i : ℕ} (hwidth : 0 < width) :
    slice n width i = [] ↔ n ≤ width * i := by
  have hmono : width * i + width = width * (i + 1) := by ring
  rw [slice, List.range'_eq_nil_iff]
  omega

variable {M : Type*} [AddCommMonoid M] (f : ℕ → M)

theorem sum_flatMap (g : ℕ → List ℕ) (l : List ℕ) :
    ((l.flatMap g).map f).sum = (l.map fun i => ((g i).map f).sum).sum := by
  induction l with
  | nil => rfl
  | cons i l ih => rw [List.flatMap_cons, List.map_append, List.sum_append, ih, List.map_cons,
      List.sum_cons]

/-- **The order of the slices does not matter**: in any order, they add up to the whole. -/
theorem sum_slices_perm {n p : ℕ} (hp : 0 < p) {order : List ℕ}
    (horder : order.Perm (List.range p)) :
    (order.map fun i => ((slice n (n ⌈/⌉ p) i).map f).sum).sum = ∑ j ∈ Finset.range n, f j := by
  rw [(horder.map _).sum_eq, ← sum_flatMap, flatMap_slices hp]
  rfl

end Slices
