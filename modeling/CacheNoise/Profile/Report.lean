import CacheNoise.Profile.Assembly
import CacheNoise.Profile.Benchmark

/-!
# The report of `benchmark`

`benchmark` between the cycle counter's being enabled and its end: the measuring loop, instruction
by instruction over a processor, and what it prints of its array, from the sorting to the last
loop, which counts with `int`s.

The figures depend on nothing but how often each time was measured. They are given by the times
alone (`Report.Of`), which determines them in whatever order the times came (`Report.Of.unique`),
and the report has them for every processor, every `qsort` and every array that `malloc` may
return (`benchmark_reports`).
-/

namespace CacheNoise

open Numbers Sorting

variable {σ : Type}

/-! ### The measuring loop -/

/-- The registers of the measuring loop, with the state of the processor and the array. -/
structure BenchState (σ : Type) where
  resultIndex : UInt64
  mem : σ
  result : UInt64 → UInt32

/-- The body of the measuring loop, with its `result_index++`. -/
def benchBody (core : Core σ) (buffer : UInt64) (s : BenchState σ) : BenchState σ :=
  let (eax, mem) := measure core buffer s.mem
  { resultIndex := s.resultIndex + 1, mem, result := Function.update s.result s.resultIndex eax }

/-- One pass of the measuring loop. -/
def benchStep (core : Core σ) (iterations buffer : UInt64) (s : BenchState σ) :
    (UInt64 → UInt32) ⊕ BenchState σ :=
  if s.resultIndex < iterations then .inr (benchBody core buffer s) else .inl s.result

/-- The array after the measuring loop. `garbage` is what `malloc` returned. -/
def benchLoop (core : Core σ) (iterations buffer : UInt64) (fuel : ℕ) (mem : σ)
    (garbage : UInt64 → UInt32) : Option (List UInt32) :=
  (Iteration.run (benchStep core iterations buffer) fuel ⟨0, mem, garbage⟩).map fun result =>
    (List.range iterations.toNat).map fun i => result (UInt64.ofNat i)

/-- The times of measurements of one address, one after another. -/
def times (core : Core σ) (buffer : UInt64) : ℕ → σ → List UInt32
  | 0, _ => []
  | n + 1, mem =>
    let (time, mem) := measure core buffer mem
    time :: times core buffer n mem

theorem length_times (core : Core σ) (buffer : UInt64) (n : ℕ) (mem : σ) :
    (times core buffer n mem).length = n := by
  induction n generalizing mem with
  | zero => rfl
  | succ n ih => exact congrArg (· + 1) (ih _)

/-- The loop from an index on: it leaves the cells before it alone. -/
private theorem run_benchStep (core : Core σ) {iterations : UInt64} (buffer : UInt64) {k : ℕ}
    {s : BenchState σ} (hk : s.resultIndex.toNat + k = iterations.toNat) {fuel : ℕ}
    (hfuel : k < fuel) :
    ∃ result, Iteration.run (benchStep core iterations buffer) fuel s = some result ∧
      (∀ i < s.resultIndex, result i = s.result i) ∧
      ((List.range' s.resultIndex.toNat k).map fun i => result (UInt64.ofNat i)) =
        times core buffer k s.mem := by
  obtain ⟨fuel, rfl⟩ : ∃ n, fuel = n + 1 := ⟨fuel - 1, by omega⟩
  induction k generalizing s fuel with
  | zero =>
    have hdone : ¬ s.resultIndex < iterations := by
      rw [UInt64.lt_iff_toNat_lt]
      omega
    have hstep : benchStep core iterations buffer s = .inl s.result := if_neg hdone
    exact ⟨s.result, Iteration.run_exit hstep fuel, fun _ _ => rfl, rfl⟩
  | succ k ih =>
    have hnext : s.resultIndex < iterations := by
      rw [UInt64.lt_iff_toNat_lt]
      omega
    have hstep : benchStep core iterations buffer s = .inr (benchBody core buffer s) :=
      if_pos hnext
    have hlt := iterations.toNat_lt
    have hsucc : (benchBody core buffer s).resultIndex.toNat = s.resultIndex.toNat + 1 := by
      have hadd : (s.resultIndex + 1).toNat = s.resultIndex.toNat + 1 := by
        rw [UInt64.toNat_add, UInt64.toNat_one, Nat.mod_eq_of_lt (by omega)]
      exact hadd
    obtain ⟨fuel, rfl⟩ : ∃ n, fuel = n + 1 := ⟨fuel - 1, by omega⟩
    obtain ⟨result, hrun, hbefore, htimes⟩ :=
      ih (s := benchBody core buffer s) (by omega) fuel (by omega)
    simp only [UInt64.lt_iff_toNat_lt, hsucc] at hbefore htimes
    refine ⟨result, (Iteration.run_next hstep _).trans hrun, fun i hi => ?_, ?_⟩
    · rw [UInt64.lt_iff_toNat_lt] at hi
      have hne : i ≠ s.resultIndex := fun h => by simp [h] at hi
      exact (hbefore i (by omega)).trans (Function.update_of_ne hne _ _)
    · have hcell : result s.resultIndex = (measure core buffer s.mem).1 :=
        (hbefore _ (Nat.lt_succ_self _)).trans (Function.update_self _ _ _)
      rw [List.range'_succ, List.map_cons, htimes, UInt64.ofNat_toNat, hcell]
      rfl

/-- **The array holds the times**, each in the cell of its pass. -/
theorem benchLoop_eq (core : Core σ) {iterations : UInt64} (buffer : UInt64) {fuel : ℕ}
    (hfuel : iterations.toNat < fuel) (mem : σ) (garbage : UInt64 → UInt32) :
    benchLoop core iterations buffer fuel mem garbage =
      some (times core buffer iterations.toNat mem) := by
  obtain ⟨result, hrun, -, htimes⟩ := run_benchStep core buffer (s := ⟨0, mem, garbage⟩)
    (Nat.zero_add iterations.toNat) hfuel
  rw [benchLoop, hrun, Option.map_some, List.range_eq_range']
  exact congrArg some htimes

/-! ### Counting -/

/-- The variables of the last loop, which are `int`s. -/
structure Counters where
  i : ℕ
  over1000 : ℕ
  otherMedian : ℕ

/-- `n++` for an `int` that is not negative: undefined at the end of the type. -/
def intIncrement (n : ℕ) : Option ℕ := if n + 1 < 2 ^ 31 then some (n + 1) else none

section

variable (iterations : UInt64) (result : List UInt32) (median : UInt32)

/-- The body of the last loop, with its `i++`. -/
def countBody (c : Counters) : Option Counters := do
  let x ← result[c.i]?
  let otherMedian ← if x ≠ median then intIncrement c.otherMedian else some c.otherMedian
  let over1000 ← if 1000 < x then intIncrement c.over1000 else some c.over1000
  let i ← intIncrement c.i
  pure { i, over1000, otherMedian }

/-- One pass of the last loop; `i` is converted for the comparison. -/
def countStep (c : Counters) : Option Counters ⊕ Counters :=
  if UInt64.ofNat c.i < iterations then
    match countBody result median c with
    | none => .inl none
    | some c => .inr c
  else .inl (some c)

/-- The last loop: without a value if it leaves the array or the type `int`. -/
def countLoop : Option Counters :=
  (Iteration.run (countStep iterations result median) (iterations.toNat + 1) ⟨0, 0, 0⟩).join

end

theorem intIncrement_eq {n m : ℕ} (hn : n ≤ m) (hm : m + 1 < 2 ^ 31) :
    intIncrement n = some (n + 1) := if_pos (by omega)

/-- What the loop counts in the measurements before `i`. -/
def Counters.Counts (result : List UInt32) (median : UInt32) (c : Counters) : Prop :=
  c.over1000 = (result.take c.i).countP (1000 < ·) ∧
    c.otherMedian = (result.take c.i).countP (· ≠ median)

/-- One pass counts one more measurement. -/
theorem countBody_eq {result : List UInt32} {median : UInt32} {c : Counters}
    (h : c.Counts result median) (hi : c.i < result.length) (hint : c.i + 1 < 2 ^ 31) :
    ∃ c', countBody result median c = some c' ∧ c'.i = c.i + 1 ∧ c'.Counts result median := by
  have hover : c.over1000 ≤ c.i :=
    h.1 ▸ List.countP_le_length.trans (List.length_take_le _ _)
  have hother : c.otherMedian ≤ c.i :=
    h.2 ▸ List.countP_le_length.trans (List.length_take_le _ _)
  refine ⟨⟨c.i + 1, if 1000 < result[c.i] then c.over1000 + 1 else c.over1000,
    if result[c.i] ≠ median then c.otherMedian + 1 else c.otherMedian⟩, ?_, rfl, ?_, ?_⟩
  · rw [countBody, List.getElem?_eq_getElem hi, intIncrement_eq hover hint,
      intIncrement_eq hother hint, intIncrement_eq le_rfl hint]
    simp only [Option.bind_eq_bind, Option.bind_some]
    split_ifs <;> rfl
  · simp only [List.take_succ_eq_append_getElem hi, List.countP_append, ← h.1,
      List.countP_singleton, decide_eq_true_eq]
    split_ifs <;> rfl
  · simp only [List.take_succ_eq_append_getElem hi, List.countP_append, ← h.2,
      List.countP_singleton, decide_eq_true_eq]
    split_ifs <;> rfl

/-- **The last loop counts right**: no `int` overflows. -/
theorem countLoop_eq {iterations : UInt64} {result : List UInt32} (median : UInt32)
    (hlength : result.length = iterations.toNat) (hint : iterations.toNat < 2 ^ 31) :
    countLoop iterations result median =
      some ⟨result.length, result.countP (1000 < ·), result.countP (· ≠ median)⟩ := by
  have hrun : ∀ (k : ℕ) (c : Counters), c.i + k = iterations.toNat → c.Counts result median →
      Iteration.run (countStep iterations result median) (k + 1) c =
        some (some ⟨result.length, result.countP (1000 < ·), result.countP (· ≠ median)⟩) := by
    intro k
    induction k with
    | zero =>
      rintro ⟨i, over1000, otherMedian⟩ hi hc
      obtain rfl : i = result.length := hi.trans hlength.symm
      have hover : over1000 = result.countP (1000 < ·) := hc.1.trans (by rw [List.take_length])
      have hother : otherMedian = result.countP (· ≠ median) :=
        hc.2.trans (by rw [List.take_length])
      have hdone : ¬ UInt64.ofNat result.length < iterations := by
        rw [hlength, UInt64.ofNat_toNat]
        exact UInt64.lt_irrefl iterations
      have hstep : countStep iterations result median ⟨result.length, over1000, otherMedian⟩ =
          .inl (some ⟨result.length, over1000, otherMedian⟩) := if_neg hdone
      rw [Iteration.run_exit hstep, hover, hother]
    | succ k ih =>
      intro c hi hc
      have hnext : UInt64.ofNat c.i < iterations := by
        rw [UInt64.lt_iff_toNat_lt, UInt64.toNat_ofNat', Nat.mod_eq_of_lt (by omega)]
        omega
      obtain ⟨c', hbody, hsucc, hc'⟩ := countBody_eq hc (by omega) (by omega)
      have hstep : countStep iterations result median c = .inr c' := by
        rw [countStep, if_pos hnext, hbody]
      rw [Iteration.run_next hstep]
      exact ih c' (by omega) hc'
  rw [countLoop, hrun iterations.toNat ⟨0, 0, 0⟩ (Nat.zero_add _) ⟨rfl, rfl⟩]
  rfl

/-! ### The report -/

/-- What `benchmark` prints. -/
structure Report where
  median : UInt32
  mean : ℚ
  /-- A quotient of zeroes is not a number. -/
  variance : Option ℚ
  over1000 : ℕ
  otherMedian : ℕ
  /-- Printed behind a percent sign. -/
  otherShare : ℚ

/-- What `benchmark` prints of its sorted array, with exact rationals for the `double`s. -/
def figures (iterations : UInt64) (result : List UInt32) : Option Report := do
  let median ← median iterations result
  let mean ← arithmeticMean iterations result
  let variance ← empiricalVariance iterations result
  let counters ← countLoop iterations result median
  pure
    { median, mean
      variance := if iterations = 1 then none else some variance
      over1000 := counters.over1000
      otherMedian := counters.otherMedian
      otherShare := counters.otherMedian / iterations.toNat }

/-- What `benchmark` does while its counter is enabled, and after that. -/
def benchReport (core : Core σ) (qsort : Comparator UInt32 → List UInt32 → List UInt32)
    (iterations buffer : UInt64) (fuel : ℕ) (mem : σ) (garbage : UInt64 → UInt32) :
    Option Report := do
  let result ← benchLoop core iterations buffer fuel mem garbage
  figures iterations (qsort cmpfunc result)

/-- **The figures of these times**: the median is the one in the middle, and the variance is
that of the largest alone. -/
structure Report.Of (r : Report) (times : List UInt32) : Prop where
  below_median : times.countP (· < r.median) ≤ times.length / 2
  median : times.length / 2 < times.countP (· ≤ r.median)
  mean : r.mean = exactMean times
  variance : ∃ largest ∈ times, (∀ x ∈ times, x ≤ largest) ∧ r.variance =
    if times.length = 1 then none
    else some (((largest.toNat : ℚ) - r.mean) ^ 2 / ((times.length : ℚ) - 1))
  over1000 : r.over1000 = times.countP (1000 < ·)
  otherMedian : r.otherMedian = times.countP (· ≠ r.median)
  otherShare : r.otherShare = r.otherMedian / times.length

/-! ### The figures and the times -/

/-- An element is not above one of a higher rank. -/
theorem le_of_rank {xs : List UInt32} {k : ℕ} {m m' : UInt32} (h : xs.countP (· < m) ≤ k)
    (h' : k < xs.countP (· ≤ m')) : m ≤ m' := by
  by_contra hlt
  have hmono : xs.countP (· ≤ m') ≤ xs.countP (· < m) :=
    List.countP_mono_left fun x _ hx => by
      rw [decide_eq_true_eq] at hx ⊢
      exact UInt32.lt_of_le_of_lt hx (UInt32.not_le.mp hlt)
  omega

/-- The rank of the element at an index of a sorted list. -/
theorem rank_of_pairwise {xs : List UInt32} (h : xs.Pairwise (· ≤ ·)) {i : ℕ}
    (hi : i < xs.length) : xs.countP (· < xs[i]) ≤ i ∧ i < xs.countP (· ≤ xs[i]) := by
  have hbelow := succ_le_countP_le h hi
  have habove := sub_le_countP_ge h hi
  have hsplit := xs.length_eq_countP_add_countP (· < xs[i])
  simp only [decide_eq_true_eq, UInt32.not_lt] at hsplit
  omega

theorem exactMean_perm {xs ys : List UInt32} (h : xs.Perm ys) : exactMean xs = exactMean ys := by
  rw [exactMean, exactMean, h.length_eq]
  exact congrArg (· / _) (h.map _).sum_eq

/-- The figures do not depend on the order of the times. -/
theorem Report.Of.perm {r : Report} {times times' : List UInt32} (h : r.Of times)
    (hperm : times.Perm times') : r.Of times' := by
  obtain ⟨largest, hmem, hlargest, hvariance⟩ := h.variance
  refine ⟨?_, ?_, ?_, ⟨largest, hperm.mem_iff.mp hmem,
    fun x hx => hlargest x (hperm.mem_iff.mpr hx), ?_⟩, ?_, ?_, ?_⟩
  · rw [← hperm.countP_eq, ← hperm.length_eq]
    exact h.below_median
  · rw [← hperm.countP_eq, ← hperm.length_eq]
    exact h.median
  · rw [← exactMean_perm hperm]
    exact h.mean
  · rw [← hperm.length_eq]
    exact hvariance
  · rw [← hperm.countP_eq]
    exact h.over1000
  · rw [← hperm.countP_eq]
    exact h.otherMedian
  · rw [← hperm.length_eq]
    exact h.otherShare

/-- **The figures are determined by the times.** -/
theorem Report.Of.unique {r r' : Report} {times : List UInt32} (h : r.Of times)
    (h' : r'.Of times) : r' = r := by
  obtain ⟨largest, hmem, hlargest, hvariance⟩ := h.variance
  obtain ⟨largest', hmem', hlargest', hvariance'⟩ := h'.variance
  have hmedian : r'.median = r.median :=
    UInt32.le_antisymm (le_of_rank h'.below_median h.median) (le_of_rank h.below_median h'.median)
  have hmean : r'.mean = r.mean := h'.mean.trans h.mean.symm
  obtain rfl : largest' = largest :=
    UInt32.le_antisymm (hlargest _ hmem') (hlargest' _ hmem)
  have hvariance_eq : r'.variance = r.variance := by rw [hvariance', hvariance, hmean]
  have hover : r'.over1000 = r.over1000 := h'.over1000.trans h.over1000.symm
  have hother : r'.otherMedian = r.otherMedian := by
    rw [h'.otherMedian, h.otherMedian, hmedian]
  have hshare : r'.otherShare = r.otherShare := by rw [h'.otherShare, h.otherShare, hother]
  cases r
  cases r'
  congr

/-- **The figures of a sorted array.** -/
theorem figures_eq {iterations : UInt64} {result : List UInt32}
    (hascending : result.Pairwise (· ≤ ·)) (hlength : result.length = iterations.toNat)
    (hpos : 0 < iterations.toNat) (hint : iterations.toNat < 2 ^ 31) :
    ∃ r, figures iterations result = some r ∧ r.Of result := by
  have hmiddle : iterations.toNat / 2 < result.length := by omega
  obtain ⟨xs, largest, hlast⟩ := (List.eq_nil_or_concat' result).resolve_left fun hnil => by
    rw [hnil, List.length_nil] at hlength
    omega
  have hlargest : ∀ x ∈ result, x ≤ largest := by
    intro x hx
    rw [hlast] at hx hascending
    obtain hx | hx := List.mem_append.mp hx
    · exact (List.pairwise_append.mp hascending).2.2 x hx _ List.mem_cons_self
    · exact UInt32.le_of_eq (List.mem_singleton.mp hx)
  obtain ⟨hbelow, habove⟩ := rank_of_pairwise hascending hmiddle
  have hone : iterations = 1 ↔ result.length = 1 := by
    rw [hlength, ← UInt64.toNat_inj]
    rfl
  refine ⟨_, by
    rw [figures, median_eq (by omega), List.getElem?_eq_getElem hmiddle,
      arithmeticMean_eq hlength hint, empiricalVariance_eq hlength hint hlast]
    simp only [Option.bind_eq_bind, Option.bind_some, countLoop_eq _ hlength hint]
    rfl, ?_⟩
  have hhalf : result.length / 2 = iterations.toNat / 2 := by rw [hlength]
  exact
    { below_median := hbelow.trans_eq hhalf.symm
      median := hhalf.trans_lt habove
      mean := rfl
      variance := ⟨largest, hlast ▸ by simp, hlargest, if_congr hone rfl rfl⟩
      over1000 := rfl
      otherMedian := rfl
      otherShare := by rw [hlength] }

/-- **The report of a benchmark**: for every processor and every `qsort`, it has the figures of the
times that were measured, and any report of the same times in any order is the same. -/
theorem benchReport_eq (core : Core σ) {qsort : Comparator UInt32 → List UInt32 → List UInt32}
    (hqsort : Sorts qsort) {iterations : UInt64} (hpos : 0 < iterations.toNat)
    (hint : iterations.toNat < 2 ^ 31) (buffer : UInt64) {fuel : ℕ}
    (hfuel : iterations.toNat < fuel) (mem : σ) (garbage : UInt64 → UInt32)
    (hhalf : SameHalf (times core buffer iterations.toNat mem)) :
    ∃ r, benchReport core qsort iterations buffer fuel mem garbage = some r ∧
      ∀ times', times'.Perm (times core buffer iterations.toNat mem) →
        ∀ r' : Report, r'.Of times' ↔ r' = r := by
  have hlength := length_times core buffer iterations.toNat mem
  have hsorted := (sortsMedian_iff hqsort hlength hpos (by omega)).mpr hhalf
  obtain ⟨r, hr, hof⟩ := figures_eq hsorted.ascending (hsorted.perm.length_eq.trans hlength)
    hpos hint
  refine ⟨r, ?_, fun times' hperm r' => ⟨fun h => ?_, ?_⟩⟩
  · rw [benchReport, benchLoop_eq core buffer hfuel, Option.bind_eq_bind, Option.bind_some]
    exact hr
  · exact (hof.perm hsorted.perm).unique (h.perm hperm)
  · rintro rfl
    exact hof.perm (hsorted.perm.trans hperm.symm)

end CacheNoise
