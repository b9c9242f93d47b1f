import CacheNoise.Visualize.Video
import CacheNoise.Visualize.Widths

/-!
# The parallel sum and the sequential one

The processes of `generate_image` add to arrays of doubles, and the other path of `__getitem__`
adds up the chunks in the types that they have. As long as all totals are below `2 ^ 53`, both
compute the exact sums, with two exceptions (`imageIsSum_iff`):

* `image_worker` looks into the first row for its length, so that a heatmap without rows waits for
  ever;
* the bars of a single way are `uint32` when they are added one after the other, and totals from
  `2 ^ 32` on wrap around there.
-/

namespace CacheNoise

open Related Slices

/-! ### Numbers -/

/-- The numbers in a frame. -/
def Frame.numbers : {combineLines : Bool} → Frame Scalar combineLines → Frame ℕ combineLines
  | true, frame => frame.map Scalar.value
  | false, frame => frame.map (List.map Scalar.value)

/-- An exact frame of numbers below `2 ^ 53` has these numbers. -/
theorem numbers_of_isExact {combineLines : Bool} {f : Frame Scalar combineLines}
    {g : Frame ℕ combineLines} (h : FrameRel IsExact combineLines f g)
    (hg : ∀ n ∈ values g, n < 2 ^ 53) : f.numbers = g := by
  have hlist : ∀ {xs : List Scalar} {ns : List ℕ}, List.Forall₂ IsExact xs ns →
      (∀ n ∈ ns, n < 2 ^ 53) → xs.map Scalar.value = ns := by
    intro xs ns h hns
    induction h with
    | nil => rfl
    | cons hxn _ ih =>
      obtain ⟨hn, hns⟩ := List.forall_mem_cons.mp hns
      rw [List.map_cons, hxn hn, ih hns]
  cases combineLines with
  | true => exact hlist h hg
  | false =>
    change f.map (List.map Scalar.value) = g
    induction h with
    | nil => rfl
    | cons hrow _ ih =>
      change ∀ n ∈ List.flatten (_ :: _), n < 2 ^ 53 at hg
      rw [List.flatten_cons, List.forall_mem_append] at hg
      rw [List.map_cons, hlist hrow hg.1, ih hg.2]

/-- Numbers modulo `2 ^ 32`. -/
theorem numbers_of_wrapped {f : Frame Scalar true} {g : Frame ℕ true}
    (h : FrameRel Wrapped true f g) : f.numbers = List.map (· % 2 ^ 32) g := by
  change List.map Scalar.value f = _
  induction h with
  | nil => rfl
  | cons hxn _ ih =>
    rw [List.map_cons, List.map_cons, ih]
    exact congrArg (· :: _) (congrArg Scalar.value hxn)

/-! ### The sums -/

section

variable {combineLines : Bool} {N : ℕ} {rows columns : UInt64} {sets : H5File}

/-- One chunk after the other, unless the chunks are the bars of a single way. -/
theorem sequentialSum_wide (hshape : Shaped rows columns sets) (hrange : InRange sets)
    (h : ¬ (combineLines = true ∧ columns = 1)) (N : ℕ) :
    Results (FrameRel Wide combineLines) (sequentialSum .numpy combineLines sets N)
      (sequentialSum .exact combineLines sets N) :=
  combined_related (c := 1) (k := 0) (fun _ _ _ _ => Wide.add)
    (chunkAt_wide hshape hrange h) N

/-- The bars of a single way, one after the other. -/
theorem sequentialSum_wrapped (hshape : Shaped rows 1 sets) (hrange : InRange sets) (N : ℕ) :
    Results (FrameRel Wrapped true) (sequentialSum .numpy true sets N)
      (sequentialSum .exact true sets N) :=
  combined_related (c := 1) (k := 0) (fun _ _ _ _ => Wrapped.add)
    (fun k => (chunkAt_stored hshape hrange k).mono fun _ _ =>
      FrameRel.mono fun _ _ h => h.wrapped) N

/-- What image mode reads. -/
theorem readImage_related (hm : Measurement N rows columns sets) (hN : 0 < N)
    (hrange : InRange sets) {combines : ℤ} (hcombines : 0 < combines) (pool : Pool) :
    Results (FrameRel IsExact combineLines) (readImage .numpy combineLines sets combines pool)
      (readImage .exact combineLines sets combines pool) := by
  have hfrom : MeasureData.fromFile combineLines sets combines true =
      .ok (.reader combineLines sets N 0) := by
    rw [MeasureData.fromFile, if_neg (by omega), if_pos rfl, hm.length_eq]
    rfl
  rw [readImage, readImage, hfrom, ok_bind, ok_bind]
  exact getItem_isExact hm.shaped hrange hN
    (fun _ _ _ => hm.length_eq.symm ▸ ceilDiv_eq_one hN le_rfl) pool

/-- The exact sum of all data sets. -/
def totalFrame (combineLines : Bool) (rows columns : UInt64) (sets : H5File) (N : ℕ) :
    Frame ℕ combineLines :=
  frameOf combineLines rows columns (∑ i ∈ Finset.range N, raw columns sets i)

theorem readImage_total (hm : Measurement N rows columns sets) (hN : 0 < N)
    (hread : Readable combineLines rows columns) (hrows : HasRow combineLines rows)
    {combines : ℤ} (hcombines : 0 < combines) (pool : Pool) :
    readImage .exact combineLines sets combines pool =
      .ok (totalFrame combineLines rows columns sets N) := by
  rw [readImage_eq hm hN hcombines pool]
  split
  · next hone =>
    rw [chunkAt_eq (m := .reader combineLines sets 1 0) hm rfl hread hN, totalFrame, hone,
      Finset.sum_range_one]
    rfl
  · exact generateImage_eq hm hN hread hrows pool

/-- The exact total of the bars of a single way. -/
theorem totalFrame_single (rows : UInt64) (sets : H5File) (N : ℕ) :
    totalFrame true rows 1 sets N = (List.range rows.toNat).map fun set =>
      (∑ i ∈ Finset.range N, raw 1 sets i) set 0 := frameOf_single rows _

/-! ### The image is the sum -/

/-- The processes share out the iterations, their sum has the numbers of the sequential one, and
image mode reads this sum. -/
structure ImageIsSum (combineLines : Bool) (sets : H5File) (N : ℕ) : Prop where
  partition : ∀ cpuCount > 0,
    (List.range cpuCount).flatMap (workerRange N cpuCount) = List.range N
  parallel : ∀ pool, ∃ image sum, generateImage .numpy combineLines sets pool = .ok image ∧
    sequentialSum .numpy combineLines sets N = .ok sum ∧ image.numbers = sum.numbers
  whole : ∀ pool, ∀ combines > 0, ∃ image sum,
    readImage .numpy combineLines sets combines pool = .ok image ∧
      sequentialSum .numpy combineLines sets N = .ok sum ∧ image.numbers = sum.numbers

/-- The totals of bars of a single way stay below `2 ^ 32`. -/
def NarrowTotals (combineLines : Bool) (rows columns : UInt64) (sets : H5File) (N : ℕ) : Prop :=
  combineLines = true → columns = 1 → ∀ set < rows.toNat,
    (∑ i ∈ Finset.range N, raw columns sets i) set 0 < 2 ^ 32

instance (combineLines : Bool) (rows columns : UInt64) (sets : H5File) (N : ℕ) :
    Decidable (NarrowTotals combineLines rows columns sets N) :=
  inferInstanceAs (Decidable (combineLines = true → columns = 1 → ∀ set < rows.toNat,
    (∑ i ∈ Finset.range N, raw columns sets i) set 0 < 2 ^ 32))

/-- The numbers of the sequential sum are the totals, unless a bar of a single way wraps around. -/
theorem sequentialSum_numbers (hm : Measurement N rows columns sets) (hN : 0 < N)
    (hrange : InRange sets) (hread : Readable combineLines rows columns)
    (htotals : ∀ n ∈ values (totalFrame combineLines rows columns sets N), n < 2 ^ 53) :
    ∃ sum, sequentialSum .numpy combineLines sets N = .ok sum ∧
      (sum.numbers = totalFrame combineLines rows columns sets N ↔
        NarrowTotals combineLines rows columns sets N) := by
  have hexact := sequentialSum_eq hm hN hread
  by_cases h : combineLines = true ∧ columns = 1
  · obtain ⟨rfl, rfl⟩ := h
    obtain ⟨sum, hsum, hrel⟩ :=
      (sequentialSum_wrapped hm.shaped hrange N).exists_of_ok' hexact
    refine ⟨sum, hsum, ?_⟩
    have hnarrow : NarrowTotals true rows 1 sets N ↔
        ∀ n ∈ totalFrame true rows 1 sets N, n < 2 ^ 32 := by
      rw [totalFrame_single, List.forall_mem_map]
      simp only [NarrowTotals, true_imp_iff, List.mem_range]
    have hmod : ∀ l : List ℕ, l.map (· % 2 ^ 32) = l ↔ ∀ n ∈ l, n < 2 ^ 32 := by
      intro l
      refine ⟨fun hl n hn => ?_, fun hl => ?_⟩
      · rw [← hl] at hn
        obtain ⟨m, -, rfl⟩ := List.mem_map.mp hn
        exact Nat.mod_lt m (by decide)
      · exact (List.map_congr_left fun n hn => Nat.mod_eq_of_lt (hl n hn)).trans (List.map_id l)
    rw [numbers_of_wrapped hrel, hnarrow]
    exact hmod _
  · obtain ⟨sum, hsum, hrel⟩ :=
      (sequentialSum_wide hm.shaped hrange h N).exists_of_ok' hexact
    refine ⟨sum, hsum, iff_of_true ?_ fun h₁ h₂ => absurd ⟨h₁, h₂⟩ h⟩
    exact numbers_of_isExact (hrel.mono fun _ _ h => h.2) htotals

/-- **The image of a file is the sum of its data sets**, for every number of processes and every
order of their results, if and only if its rows have items, there is a row in a heatmap, and bars of
a single way stay below `2 ^ 32`. -/
theorem imageIsSum_iff (hm : Measurement N rows columns sets) (hN : 0 < N) (hrange : InRange sets)
    (htotals : ∀ n ∈ values (totalFrame combineLines rows columns sets N), n < 2 ^ 53) :
    ImageIsSum combineLines sets N ↔
      Readable combineLines rows columns ∧ HasRow combineLines rows ∧
        NarrowTotals combineLines rows columns sets N := by
  have hrelated := @generateImage_related combineLines rows columns sets hm.shaped hrange
  have hparallel : Readable combineLines rows columns → HasRow combineLines rows → ∀ pool,
      ∃ image, generateImage .numpy combineLines sets pool = .ok image ∧
        image.numbers = totalFrame combineLines rows columns sets N := by
    intro hread hrows pool
    obtain ⟨image, himage, hrel⟩ :=
      (hrelated pool).exists_of_ok' (generateImage_eq hm hN hread hrows pool)
    exact ⟨image, himage, numbers_of_isExact (hrel.mono fun _ _ h => h.2) htotals⟩
  constructor
  · intro h
    obtain ⟨image, sum, himage, hsum, hnumbers⟩ := h.parallel .single
    have hshape : Readable combineLines rows columns ∧ HasRow combineLines rows := by
      by_contra hshape
      obtain ⟨image', himage', -⟩ := (hrelated .single).exists_of_ok himage
      rw [generateImage_blocked hm hN hshape] at himage'
      cases himage'
    obtain ⟨hread, hrows⟩ := hshape
    refine ⟨hread, hrows, ?_⟩
    obtain ⟨sum', hsum', hiff⟩ := sequentialSum_numbers hm hN hrange hread htotals
    obtain ⟨image', himage', hnumbers'⟩ := hparallel hread hrows .single
    obtain rfl := Except.ok.inj (hsum.symm.trans hsum')
    obtain rfl := Except.ok.inj (himage.symm.trans himage')
    exact hiff.mp (hnumbers.symm.trans hnumbers')
  · rintro ⟨hread, hrows, hnarrow⟩
    obtain ⟨sum, hsum, hiff⟩ := sequentialSum_numbers hm hN hrange hread htotals
    have hnumbers := hiff.mpr hnarrow
    refine ⟨fun cpuCount hpos => flatMap_workerRange N hpos, fun pool => ?_,
      fun pool combines hcombines => ?_⟩
    · obtain ⟨image, himage, htotal⟩ := hparallel hread hrows pool
      exact ⟨image, sum, himage, hsum, htotal.trans hnumbers.symm⟩
    · obtain ⟨image, himage, hrel⟩ := (readImage_related hm hN hrange hcombines pool).exists_of_ok'
        (readImage_total hm hN hread hrows hcombines pool)
      exact ⟨image, sum, himage, hsum, (numbers_of_isExact hrel htotals).trans hnumbers.symm⟩

end

theorem imageIsSum_fourIterations : ImageIsSum true fourIterations 4 :=
  (@imageIsSum_iff true 4 1 1 fourIterations measurement_measurementFile (by decide) (by decide)
    (by decide)).mpr ⟨by decide, by decide, by decide⟩

/-- Two iterations of one entry, `2 ^ 32 - 1` and 1. -/
def wideTotal : H5File := measurementFile 2 1 1 fun k _ => if k = 0 then 0xffffffff else 1

/-- The heatmap of a data set without rows: the sum is the empty matrix, but the parallel sum does
not end. And the bars of a single way: the total is `2 ^ 32`, and the sequential sum is 0. -/
theorem generateImage_noRows :
    (Measurement 1 0 1 noRows ∧ sequentialSum .numpy false noRows 1 = .ok [] ∧
      generateImage .numpy false noRows .single = .error .blocked ∧
      ¬ ImageIsSum false noRows 1) ∧
    Measurement 2 1 1 wideTotal ∧
      sequentialSum .numpy true wideTotal 2 = .ok [⟨.uint32, 0⟩] ∧
      generateImage .numpy true wideTotal .single = .ok [⟨.float64, 2 ^ 32⟩] ∧
      ¬ ImageIsSum true wideTotal 2 := by
  have hblocked : generateImage .numpy false noRows .single = .error .blocked := by decide
  have hsequential : sequentialSum .numpy true wideTotal 2 = .ok [⟨.uint32, 0⟩] := by decide
  have hparallel : generateImage .numpy true wideTotal .single = .ok [⟨.float64, 2 ^ 32⟩] := by
    decide
  refine ⟨⟨measurement_measurementFile, by decide, hblocked, fun h => ?_⟩,
    measurement_measurementFile, hsequential, hparallel, fun h => ?_⟩
  · obtain ⟨image, -, himage, -⟩ := h.parallel .single
    rw [hblocked] at himage
    cases himage
  · obtain ⟨image, sum, himage, hsum, hnumbers⟩ := h.parallel .single
    obtain rfl := Except.ok.inj (hparallel.symm.trans himage)
    obtain rfl := Except.ok.inj (hsequential.symm.trans hsum)
    exact absurd hnumbers (by decide)

end CacheNoise
