import Mathlib.Data.List.Sort
import Mathlib.Tactic

/-!
# Sorting by a comparator

A comparator returns a number whose sign says how two elements are ordered, or nothing where its
arithmetic is undefined. A sort can be held to its task only on a list whose elements it compares
consistently (`TotalPreorderOn`); on such a list `Sorts` says what it does. Insertion sort does so
(`sorts_insertionSort`).

In a sorted list, the number of elements on either side of an index bounds how many elements are
not larger, and how many are not smaller, than the one at this index (`succ_le_countP_le`,
`sub_le_countP_ge`).
-/

namespace Sorting

variable {α : Type*}

/-- A comparison as in C: negative, zero or positive, or undefined. -/
abbrev Comparator (α : Type*) := α → α → Option ℤ

/-- The first element may stand before the second. -/
def Comparator.Le (cmp : Comparator α) (a b : α) : Prop := ∃ s, cmp a b = some s ∧ s ≤ 0

instance (cmp : Comparator α) (a b : α) : Decidable (cmp.Le a b) :=
  decidable_of_iff ((cmp a b).any (· ≤ 0) = true) (by simp [Comparator.Le, Option.any_eq_true])

/-- A comparator orders the elements of a list: it is defined, the order of its arguments turns
the sign around, and it is transitive. -/
structure TotalPreorderOn (cmp : Comparator α) (xs : List α) : Prop where
  defined : ∀ a ∈ xs, ∀ b ∈ xs, ∃ s, cmp a b = some s
  swap : ∀ a ∈ xs, ∀ b ∈ xs, ∀ s s', cmp a b = some s → cmp b a = some s' → s.sign = -s'.sign
  trans : ∀ a ∈ xs, ∀ b ∈ xs, ∀ c ∈ xs, cmp.Le a b → cmp.Le b c → cmp.Le a c

/-- What a sort has to do: order the elements by any comparator that orders them. -/
def Sorts (sort : Comparator α → List α → List α) : Prop :=
  ∀ cmp xs, TotalPreorderOn cmp xs → (sort cmp xs).Perm xs ∧ (sort cmp xs).Pairwise cmp.Le

/-- Two elements can always be ordered. -/
theorem TotalPreorderOn.total {cmp : Comparator α} {xs : List α} (h : TotalPreorderOn cmp xs)
    {a b : α} (ha : a ∈ xs) (hb : b ∈ xs) : cmp.Le a b ∨ cmp.Le b a := by
  obtain ⟨s, hs⟩ := h.defined a ha b hb
  obtain ⟨s', hs'⟩ := h.defined b hb a ha
  have hswap := h.swap a ha b hb s s' hs hs'
  rcases le_or_gt s 0 with hle | hpos
  · exact .inl ⟨s, hs, hle⟩
  · refine .inr ⟨s', hs', ?_⟩
    rw [Int.sign_eq_one_of_pos hpos] at hswap
    exact (Int.sign_eq_neg_one_iff_neg.mp (by omega)).le

/-! ### Insertion sort -/

/-- Insertion sort by a comparator. -/
def insertionSort (cmp : Comparator α) (xs : List α) : List α :=
  (xs.attach.insertionSort fun a b => cmp.Le a.1 b.1).map Subtype.val

/-- **Insertion sort sorts.** -/
theorem sorts_insertionSort : Sorts (insertionSort (α := α)) := by
  intro cmp xs h
  have : Std.Total fun a b : {x // x ∈ xs} => cmp.Le a.1 b.1 := ⟨fun a b => h.total a.2 b.2⟩
  have : IsTrans {x // x ∈ xs} fun a b => cmp.Le a.1 b.1 :=
    ⟨fun a b c => h.trans a.1 a.2 b.1 b.2 c.1 c.2⟩
  constructor
  · have hperm := (List.perm_insertionSort (fun a b : {x // x ∈ xs} => cmp.Le a.1 b.1)
      xs.attach).map Subtype.val
    rwa [List.attach_map_subtype_val] at hperm
  · exact List.pairwise_map.mpr (List.pairwise_insertionSort _ _)

/-! ### Counting in a sorted list -/

section

variable {r : α → α → Prop} [DecidableRel r] [Std.Refl r] {xs : List α} {i : ℕ}

/-- All elements up to an index are not larger than the one at the index. -/
theorem succ_le_countP_le (h : xs.Pairwise r) (hi : i < xs.length) :
    i + 1 ≤ xs.countP (r · xs[i]) := by
  have hall : ∀ a ∈ xs.take (i + 1), decide (r a xs[i]) = true := by
    intro a ha
    obtain ⟨j, hj, rfl⟩ := List.mem_take_iff_getElem.mp ha
    exact decide_eq_true (h.rel_get_of_le (a := ⟨j, by omega⟩) (b := ⟨i, hi⟩) (by simp; omega))
  have hcount := List.countP_eq_length.mpr hall
  rw [List.length_take, Nat.min_eq_left (by omega)] at hcount
  rw [← hcount]
  exact (List.take_sublist _ _).countP_le

/-- All elements from an index on are not smaller than the one at the index. -/
theorem sub_le_countP_ge (h : xs.Pairwise r) (hi : i < xs.length) :
    xs.length - i ≤ xs.countP (r xs[i] ·) := by
  have hall : ∀ a ∈ xs.drop i, decide (r xs[i] a) = true := by
    intro a ha
    obtain ⟨j, hj, rfl⟩ := List.mem_drop_iff_getElem.mp ha
    exact decide_eq_true (h.rel_get_of_le (a := ⟨i, hi⟩) (b := ⟨i + j, by omega⟩) (by simp))
  have hcount := List.countP_eq_length.mpr hall
  rw [List.length_drop] at hcount
  rw [← hcount]
  exact (List.drop_sublist _ _).countP_le

end

end Sorting
