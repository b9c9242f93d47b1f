import CacheNoise.General.Iteration
import CacheNoise.General.Numbers
import CacheNoise.General.Sorting
import CacheNoise.General.Summary

/-!
# The statistics of `benchmark`

What `benchmark` computes from its measurements: they are sorted by `qsort`, the median is taken
from the middle of the array, and two loops add up the mean and the empirical variance.

`cmpfunc` subtracts the measurements as `int`s. So the order of two measurements is right only if
both are below `2 ^ 31` or both are not (`cmpfunc_orders_iff`), and the array is sorted, with a
median, exactly for measurements of one of these kinds (`sortsMedian_iff`).

The mean is right. The loop of the variance stores the last square instead of adding it up, which
is right exactly if all measurements are equal (`meanVariance_iff`).

`qsort` is a parameter: it sorts by every comparator that is a total preorder of the elements.
-/

namespace CacheNoise

open Numbers Sorting Summary

/-! ### Sorting -/

/-- `cmpfunc`: the difference of two measurements, each read as an `int`. -/
def cmpfunc : Comparator UInt32 := fun a b => intSub (asInt a) (asInt b)

/-- The comparison is defined, and it is that of the unsigned values. -/
def OrdersPair (a b : UInt32) : Prop :=
  ∃ s, cmpfunc a b = some s ∧ (s < 0 ↔ a < b) ∧ (0 < s ↔ b < a)

/-- All measurements are below `2 ^ 31`, or none is. -/
def SameHalf (measurements : List UInt32) : Prop :=
  (∀ x ∈ measurements, x.toNat < 2 ^ 31) ∨ ∀ x ∈ measurements, 2 ^ 31 ≤ x.toNat

instance (measurements : List UInt32) : Decidable (SameHalf measurements) :=
  decidable_of_iff ((measurements.all fun x => x.toNat < 2 ^ 31) = true ∨
    (measurements.all fun x => 2 ^ 31 ≤ x.toNat) = true) (by simp [SameHalf])

theorem sameHalf_iff {measurements : List UInt32} : SameHalf measurements ↔
    ∀ a ∈ measurements, ∀ b ∈ measurements, a.toNat < 2 ^ 31 ↔ b.toNat < 2 ^ 31 := by
  constructor
  · rintro (h | h) a ha b hb
    · exact iff_of_true (h a ha) (h b hb)
    · exact iff_of_false (not_lt.mpr (h a ha)) (not_lt.mpr (h b hb))
  · intro h
    rcases measurements with - | ⟨x, xs⟩
    · exact .inl fun x hx => absurd hx List.not_mem_nil
    · rcases lt_or_ge x.toNat (2 ^ 31) with hx | hx
      · exact .inl fun a ha => (h x List.mem_cons_self a ha).mp hx
      · exact .inr fun a ha =>
          not_lt.mp (mt (h x List.mem_cons_self a ha).mpr (not_lt.mpr hx))

/-- In one half, the difference is that of the unsigned values. -/
theorem cmpfunc_eq {a b : UInt32} (h : a.toNat < 2 ^ 31 ↔ b.toNat < 2 ^ 31) :
    cmpfunc a b = some ((a.toNat : ℤ) - b.toNat) := by
  have ha := a.toNat_lt
  have hb := b.toNat_lt
  rw [cmpfunc, intSub_of_sign (asInt_mem a) (asInt_mem b)]
  · rw [asInt, asInt, if_congr h rfl rfl]
    congr 1
    split_ifs <;> ring
  · rw [asInt, asInt]
    by_cases hsmall : a.toNat < 2 ^ 31
    · rw [if_pos hsmall, if_pos (h.mp hsmall)]
      omega
    · rw [if_neg hsmall, if_neg (mt h.mpr hsmall)]
      omega

/-- **Two measurements are ordered right** if and only if they are of one half. -/
theorem cmpfunc_orders_iff (a b : UInt32) :
    OrdersPair a b ↔ (a.toNat < 2 ^ 31 ↔ b.toNat < 2 ^ 31) := by
  constructor
  · rintro ⟨s, hs, hlt, hgt⟩
    rw [cmpfunc, intSub, Option.ite_none_right_eq_some] at hs
    obtain ⟨-, hs⟩ := hs
    rw [UInt32.lt_iff_toNat_lt] at hlt hgt
    have ha := a.toNat_lt
    have hb := b.toNat_lt
    -- with different signs, the smaller value is the larger one of the two `int`s
    rw [asInt, asInt] at hs
    obtain rfl := Option.some.inj hs
    split_ifs at hlt hgt <;> omega
  · intro h
    refine ⟨_, cmpfunc_eq h, ?_, ?_⟩ <;> rw [UInt32.lt_iff_toNat_lt] <;> omega

theorem le_cmpfunc_iff {a b : UInt32} (h : a.toNat < 2 ^ 31 ↔ b.toNat < 2 ^ 31) :
    cmpfunc.Le a b ↔ a ≤ b := by
  rw [Comparator.Le, cmpfunc_eq h, UInt32.le_iff_toNat_le]
  simp

/-- Measurements of one half are ordered by `cmpfunc`. -/
theorem totalPreorderOn_cmpfunc {measurements : List UInt32} (h : SameHalf measurements) :
    TotalPreorderOn cmpfunc measurements := by
  have hhalf := sameHalf_iff.mp h
  refine ⟨fun a ha b hb => ⟨_, cmpfunc_eq (hhalf a ha b hb)⟩, ?_, ?_⟩
  · intro a ha b hb s s' hs hs'
    rw [cmpfunc_eq (hhalf a ha b hb), Option.some_inj] at hs
    rw [cmpfunc_eq (hhalf b hb a ha), Option.some_inj] at hs'
    rw [← hs, ← hs', ← Int.sign_neg, neg_sub]
  · intro a ha b hb c hc hab hbc
    rw [le_cmpfunc_iff (hhalf a ha b hb)] at hab
    rw [le_cmpfunc_iff (hhalf b hb c hc)] at hbc
    exact (le_cmpfunc_iff (hhalf a ha c hc)).mpr (UInt32.le_trans hab hbc)

/-! ### The median -/

/-- The median: the element at the middle of the sorted array. The quotient is an integer before
it becomes a `double`. -/
def median (iterations : UInt64) (result : List UInt32) : Option UInt32 :=
  let middle : ℚ := float64 (iterations / 2).toNat
  if ⌊middle⌋ = ⌈middle⌉ then result[⌊middle⌋.toNat]? else result[⌊middle⌋.toNat + 1]?

/-- The other branch is never taken, and the conversion is exact for every array in memory. -/
theorem median_eq {iterations : UInt64} (h : iterations.toNat < 2 ^ 54) (result : List UInt32) :
    median iterations result = result[iterations.toNat / 2]? := by
  have hhalf : (iterations / 2).toNat = iterations.toNat / 2 := rfl
  rw [median, hhalf, float64_of_lt (by omega), Int.floor_natCast, Int.ceil_natCast, if_pos rfl,
    Int.toNat_natCast]

/-- **Sorting and the median as they should be.** -/
structure SortsMedian (qsort : Comparator UInt32 → List UInt32 → List UInt32)
    (iterations : UInt64) (measurements : List UInt32) : Prop where
  orders : ∀ a ∈ measurements, ∀ b ∈ measurements, OrdersPair a b
  trans : ∀ a ∈ measurements, ∀ b ∈ measurements, ∀ c ∈ measurements,
    cmpfunc.Le a b → cmpfunc.Le b c → cmpfunc.Le a c
  perm : (qsort cmpfunc measurements).Perm measurements
  ascending : (qsort cmpfunc measurements).Pairwise (· ≤ ·)
  median : ∃ m ∈ measurements, median iterations (qsort cmpfunc measurements) = some m ∧
    measurements.length ≤ 2 * measurements.countP (· ≤ m) ∧
    measurements.length ≤ 2 * measurements.countP (m ≤ ·)

/-- **The measurements are sorted, with a median**, if and only if all are below `2 ^ 31` or none
is. The number of iterations comes from an `int`; all arrays that fit in memory are covered. -/
theorem sortsMedian_iff {qsort : Comparator UInt32 → List UInt32 → List UInt32}
    (hqsort : Sorts qsort) {iterations : UInt64} {measurements : List UInt32}
    (hlength : measurements.length = iterations.toNat) (hpos : 0 < iterations.toNat)
    (hmemory : iterations.toNat < 2 ^ 54) :
    SortsMedian qsort iterations measurements ↔ SameHalf measurements := by
  refine ⟨fun h => sameHalf_iff.mpr fun a ha b hb =>
    (cmpfunc_orders_iff a b).mp (h.orders a ha b hb), fun h => ?_⟩
  have hhalf := sameHalf_iff.mp h
  obtain ⟨hperm, hsorted⟩ := hqsort cmpfunc measurements (totalPreorderOn_cmpfunc h)
  have hascending : (qsort cmpfunc measurements).Pairwise (· ≤ ·) :=
    hsorted.imp_of_mem fun ha hb hle =>
      (le_cmpfunc_iff (hhalf _ (hperm.mem_iff.mp ha) _ (hperm.mem_iff.mp hb))).mp hle
  have hmiddle : iterations.toNat / 2 < (qsort cmpfunc measurements).length := by
    rw [hperm.length_eq, hlength]
    omega
  have hbelow := succ_le_countP_le hascending hmiddle
  have habove := sub_le_countP_ge hascending hmiddle
  rw [hperm.countP_eq] at hbelow habove
  rw [hperm.length_eq, hlength] at habove
  refine ⟨fun a ha b hb => (cmpfunc_orders_iff a b).mpr (hhalf a ha b hb),
    (totalPreorderOn_cmpfunc h).trans, hperm, hascending,
    _, hperm.mem_iff.mp (List.getElem_mem hmiddle), ?_, ?_, ?_⟩
  · rw [median_eq hmemory, List.getElem?_eq_getElem hmiddle]
  · rw [hlength]
    omega
  · rw [hlength]
    omega

/-- Small measurements, sorted by insertion. -/
theorem sortsMedian_three : SortsMedian insertionSort 3 [100, 80, 90] :=
  (sortsMedian_iff sorts_insertionSort rfl (by decide) (by decide)).mpr (by decide)

/-- A measurement with the highest bit goes to the front, and the median is too small. -/
theorem sortsMedian_highBit :
    insertionSort cmpfunc [0, 1, 0xffffffff] = [0xffffffff, 0, 1] ∧
      median 3 [0xffffffff, 0, 1] = some 0 ∧ ¬ SortsMedian insertionSort 3 [0, 1, 0xffffffff] := by
  have hsorted : insertionSort cmpfunc [0, 1, 0xffffffff] = [0xffffffff, 0, 1] := by decide
  refine ⟨hsorted, by rw [median_eq (by decide)]; rfl, fun h => ?_⟩
  have hascending := h.ascending
  rw [hsorted] at hascending
  exact absurd hascending (by decide)

/-- The difference may also leave the type. -/
example : cmpfunc 0x7fffffff 0x80000000 = none := by decide

/-! ### The mean and the variance -/

section

variable {β : Type*} (iterations : UInt64) (result : List UInt32) (body : β → UInt32 → β)

/-- One pass of a loop over the measurements, with an index of 32 bits. -/
def eachStep : UInt32 × β → Option β ⊕ UInt32 × β
  | (i, s) =>
    if i.toUInt64 < iterations then
      match result[i.toNat]? with
      | none => .inl none
      | some x => .inr (i + 1, body s x)
    else .inl (some s)

/-- A loop over the measurements: without a value if it leaves the array or does not end. -/
def each (s : β) : Option β :=
  (Iteration.run (eachStep iterations result body) (iterations.toNat + 1) (0, s)).join

variable {iterations result}

/-- **The loop is a fold**: with fewer than `2 ^ 32` iterations, the index does not wrap. -/
theorem each_eq (hlength : result.length = iterations.toNat) (hfits : iterations.toNat < 2 ^ 32)
    (s : β) : each iterations result body s = some (result.foldl body s) := by
  have hrun : ∀ (k : ℕ) (i : UInt32) (s : β), i.toNat + k = iterations.toNat →
      Iteration.run (eachStep iterations result body) (k + 1) (i, s) =
        some (some ((result.drop i.toNat).foldl body s)) := by
    intro k
    induction k with
    | zero =>
      intro i s hi
      have hdone : ¬ i.toUInt64 < iterations := by
        rw [UInt64.lt_iff_toNat_lt, UInt32.toNat_toUInt64]
        omega
      have hstep : eachStep iterations result body (i, s) = .inl (some s) := if_neg hdone
      rw [Iteration.run_exit hstep, List.drop_of_length_le (by omega), List.foldl_nil]
    | succ k ih =>
      intro i s hi
      have hnext : i.toUInt64 < iterations := by
        rw [UInt64.lt_iff_toNat_lt, UInt32.toNat_toUInt64]
        omega
      have hindex : i.toNat < result.length := by omega
      have hsucc : (i + 1).toNat = i.toNat + 1 := by
        rw [UInt32.toNat_add, UInt32.toNat_one, Nat.mod_eq_of_lt (by omega)]
      have hstep : eachStep iterations result body (i, s) =
          .inr (i + 1, body s result[i.toNat]) := by
        rw [eachStep, if_pos hnext, List.getElem?_eq_getElem hindex]
      rw [Iteration.run_next hstep, ih _ _ (by omega), hsucc,
        List.drop_eq_getElem_cons hindex, List.foldl_cons]
  rw [each, hrun iterations.toNat 0 s (Nat.zero_add _)]
  rfl

end

section

variable (iterations : UInt64) (result : List UInt32)

/-- The sum of the measurements, with 64 bits. -/
def accumulator : Option UInt64 := each iterations result (fun a x => a + x.toUInt64) 0

/-- The mean, with exact rationals for the `double`s. -/
def arithmeticMean : Option ℚ :=
  (accumulator iterations result).map fun a => (a.toNat : ℚ) / iterations.toNat

/-- The empirical variance. The loop assigns each square to `s2`. -/
def empiricalVariance : Option ℚ := do
  let mean ← arithmeticMean iterations result
  let s2 ← each iterations result (fun _ x => ((x.toNat : ℚ) - mean) ^ 2) 0
  return s2 / ((iterations.toNat : ℚ) - 1)

/-- The measurements as rationals. -/
def exactValues : List ℚ := result.map fun x => (x.toNat : ℚ)

/-- The mean of the measurements. -/
def exactMean : ℚ := (exactValues result).sum / result.length

/-- **The statistics as they should be.** -/
structure MeanVariance : Prop where
  accumulator : ∃ a, accumulator iterations result = some a ∧
    a.toNat = (result.map UInt32.toNat).sum
  mean : arithmeticMean iterations result = some (exactMean result)
  variance : empiricalVariance iterations result =
    some (((exactValues result).map fun x => (x - exactMean result) ^ 2).sum /
      ((result.length : ℚ) - 1))
  zero : empiricalVariance iterations result = some 0 → ∀ x ∈ result, ∀ y ∈ result, x = y

end

/-- The sum does not overflow while it is below `2 ^ 64`. -/
theorem foldl_add_toNat (result : List UInt32) (a : UInt64)
    (h : a.toNat + (result.map UInt32.toNat).sum < 2 ^ 64) :
    (result.foldl (fun a x => a + x.toUInt64) a).toNat =
      a.toNat + (result.map UInt32.toNat).sum := by
  induction result generalizing a with
  | nil => rfl
  | cons x xs ih =>
    rw [List.map_cons, List.sum_cons] at h ⊢
    have hadd : (a + x.toUInt64).toNat = a.toNat + x.toNat := by
      rw [UInt64.toNat_add, UInt32.toNat_toUInt64, Nat.mod_eq_of_lt (by omega)]
    rw [List.foldl_cons, ih _ (by omega), hadd, Nat.add_assoc]

theorem sum_toNat_le (result : List UInt32) :
    (result.map UInt32.toNat).sum ≤ result.length * 2 ^ 32 := by
  have hle : ∀ n ∈ result.map UInt32.toNat, n ≤ 2 ^ 32 := by
    intro n hn
    obtain ⟨x, -, rfl⟩ := List.mem_map.mp hn
    exact x.toNat_lt.le
  simpa using List.sum_le_card_nsmul _ _ hle

/-- The values are the mean exactly if they are equal. -/
theorem forall_exactValues_iff {result : List UInt32} (hpos : 0 < result.length) :
    (∀ v ∈ exactValues result, v = exactMean result) ↔ ∀ x ∈ result, ∀ y ∈ result, x = y := by
  constructor
  · intro h x hx y hy
    have hxy := (h _ (List.mem_map_of_mem hx)).trans (h _ (List.mem_map_of_mem hy)).symm
    exact UInt32.toNat_inj.mp (Nat.cast_injective hxy)
  · intro h v hv
    have hall : ∀ w ∈ exactValues result, w = v := by
      obtain ⟨x, hx, rfl⟩ := List.mem_map.mp hv
      intro w hw
      obtain ⟨y, hy, rfl⟩ := List.mem_map.mp hw
      rw [h x hx y hy]
    have hlength : (result.length : ℚ) ≠ 0 := Nat.cast_ne_zero.mpr hpos.ne'
    rw [exactMean, List.sum_eq_card_nsmul _ _ hall, exactValues, List.length_map, nsmul_eq_mul,
      mul_div_cancel_left₀ _ hlength]

theorem length_mul_exactMean {result : List UInt32} (hpos : 0 < result.length) :
    (exactValues result).length * exactMean result = (exactValues result).sum := by
  have hlength : (result.length : ℚ) ≠ 0 := Nat.cast_ne_zero.mpr hpos.ne'
  rw [exactMean, exactValues, List.length_map, mul_div_cancel₀ _ hlength]

section

variable {iterations : UInt64} {result : List UInt32}
  (hlength : result.length = iterations.toNat) (hint : iterations.toNat < 2 ^ 31)

include hlength hint

/-- The accumulator holds the sum. -/
theorem accumulator_eq : ∃ a, accumulator iterations result = some a ∧
    a.toNat = (result.map UInt32.toNat).sum := by
  have hle := sum_toNat_le result
  refine ⟨_, each_eq _ hlength (by omega) 0, ?_⟩
  rw [foldl_add_toNat _ _ (by rw [UInt64.toNat_zero]; omega), UInt64.toNat_zero, Nat.zero_add]

/-- The mean is right. -/
theorem arithmeticMean_eq : arithmeticMean iterations result = some (exactMean result) := by
  obtain ⟨a, ha, hsum⟩ := accumulator_eq hlength hint
  rw [arithmeticMean, ha, Option.map_some, hsum, exactMean, exactValues, hlength]
  congr 2
  simp [Nat.cast_list_sum, Function.comp_def]

/-- What is reported as the variance: the square of the last deviation only. -/
theorem empiricalVariance_eq {xs : List UInt32} {last : UInt32} (hlast : result = xs ++ [last]) :
    empiricalVariance iterations result =
      some (((last.toNat : ℚ) - exactMean result) ^ 2 / ((result.length : ℚ) - 1)) := by
  rw [empiricalVariance, arithmeticMean_eq hlength hint, Option.bind_eq_bind, Option.bind_some,
    each_eq _ hlength (by omega), hlength]
  simp [hlast]

/-- **The statistics are right** if and only if all measurements are equal. -/
theorem meanVariance_iff (htwo : 2 ≤ iterations.toNat) :
    MeanVariance iterations result ↔ ∀ x ∈ result, ∀ y ∈ result, x = y := by
  have hpos : 0 < result.length := by omega
  obtain ⟨xs, last, hlast⟩ := (List.eq_nil_or_concat' result).resolve_left fun hnil => by
    rw [hnil, List.length_nil] at hpos
    omega
  have hreported := empiricalVariance_eq hlength hint hlast
  have hvalues : exactValues result = exactValues xs ++ [(last.toNat : ℚ)] := by
    rw [exactValues, hlast, List.map_append]
    rfl
  have hsquares := sum_sq_eq_last_iff (exactValues xs) (last.toNat : ℚ) (exactMean result)
  rw [← hvalues, forall_exactValues_iff hpos] at hsquares
  have hsum := hsquares (length_mul_exactMean hpos)
  constructor
  · intro h
    have hvariance := Option.some.inj (h.variance.symm.trans hreported)
    have hlength' : (result.length : ℚ) - 1 ≠ 0 := by
      have hcast : (2 : ℚ) ≤ result.length := by exact_mod_cast hlength ▸ htwo
      linarith
    exact hsum.mp ((div_left_inj' hlength').mp hvariance)
  · intro h
    exact ⟨accumulator_eq hlength hint, arithmeticMean_eq hlength hint,
      by rw [hreported, hsum.mpr h], fun _ => h⟩

end

/-- Two equal measurements. -/
theorem meanVariance_equal : MeanVariance 2 [70, 70] :=
  (meanVariance_iff rfl (by decide) (by decide)).mpr (by simp)

/-- Of the measurements 0 and 2, with the variance 2, the variance 1 is reported. -/
theorem meanVariance_twoValues :
    empiricalVariance 2 [0, 2] = some 1 ∧ ¬ MeanVariance 2 [0, 2] := by
  have hreported : empiricalVariance 2 [0, 2] = some 1 := by decide +kernel
  refine ⟨hreported, fun h => ?_⟩
  have hvariance := hreported.symm.trans h.variance
  exact absurd hvariance (by decide +kernel)

end CacheNoise
