import CacheNoise.Visualize.Image

/-!
# The processes of a video

`print_min_max_mean` for a video: each process collects the values of the frames of its range,
and puts their maximum, minimum, sum and number into a queue, from which the parent takes as
many results as there are processes. A process that raises an exception puts nothing there, and
the parent waits for ever. This happens to a process whose range is empty (`result[0]`), and in
a heatmap of combined frames, which are lists and can not be flattened (`videoServed_iff`).
-/

namespace CacheNoise

open Related Slices

section

variable {α : Type} (A : Arithmetic α) [LT α] [DecidableLT α]

/-! ### `video_worker` -/

/-- What a process puts into the queue. -/
structure VideoResult (α : Type) where
  maximum : α
  minimum : α
  summary : α
  valueCount : ℕ
  deriving DecidableEq

/-- The type of `measurement[key]` when its items are rows. Several chunks are made a list by
`reduce`; one chunk, and the result of `generate_image`, are arrays. -/
def MeasureData.isArray {combineLines : Bool} (key : ℕ) (m : MeasureData combineLines) : Bool :=
  m.combines = 1 ∨ m.file.sets.length ⌈/⌉ m.combines = 1 ∨
    maxCombines m.file.sets.length m.combines key = 1

/-- The values of a frame, in order. -/
def values : {combineLines : Bool} → Frame α combineLines → List α
  | true, frame => frame
  | false, frame => frame.flatten

/-- `measurement[i]`, or `measurement[i].flatten()` without `combine_lines`. -/
def flatten {combineLines : Bool} (isArray : Bool) (frame : Frame α combineLines) :
    Except Raised (List α) :=
  if combineLines = true ∨ isArray = true then .ok (values frame) else .error .attributeError

/-- One pass of the loop that collects the values. -/
def collect {combineLines : Bool} (pool : Pool) (state : List α × MeasureData combineLines)
    (i : ℕ) : Except Raised (List α × MeasureData combineLines) := do
  let item := state.2.getItem A pool i
  let frame ← item.1
  let new ← flatten (state.2.isArray i) frame
  pure (state.1 ++ new, item.2)

/-- One pass of the loop over the values. -/
def VideoResult.take (r : VideoResult α) (value : α) : VideoResult α :=
  { r with
    minimum := if value < r.minimum then value else r.minimum
    maximum := if r.maximum < value then value else r.maximum
    summary := A.add r.summary value }

/-- The loop over the values, which starts with the first of them. -/
def summarize : List α → Except Raised (VideoResult α)
  | [] => .error .indexError
  | first :: rest =>
    .ok ((first :: rest).foldl (VideoResult.take A) ⟨first, first, first, rest.length + 1⟩)

/-- `video_worker`, for a video. `pool` are the processes of `generate_image`, if there is only
one frame. -/
def videoWorker (combineLines : Bool) (sets : H5File) (combines : ℤ) (pool : Pool)
    (cpuCount coreId : ℕ) : Except Raised (VideoResult α) := do
  let measurement ← MeasureData.fromFile combineLines sets combines false
  let len ← measurement.len
  let result ← (workerRange len cpuCount coreId).foldlM (collect A pool) ([], measurement)
  summarize A result.1

/-! ### The parent -/

/-- What the parent does with one more result. -/
def VideoResult.merge (r new : VideoResult α) : VideoResult α where
  maximum := if r.maximum < new.maximum then new.maximum else r.maximum
  minimum := if new.minimum < r.minimum then new.minimum else r.minimum
  summary := A.add r.summary new.summary
  valueCount := r.valueCount + new.valueCount

/-- The part of `print_min_max_mean` for a video before the division. `images` has the processes
that the workers start themselves. -/
def mergeResults (combineLines : Bool) (sets : H5File) (combines : ℤ) (pool : Pool)
    (images : ℕ → Pool) : Except Raised (VideoResult α) :=
  match pool.arrivals.mapM fun i =>
    videoWorker A combineLines sets combines (images i) pool.cpuCount i with
  | .ok (result :: results) => .ok (results.foldl (VideoResult.merge A) result)
  | _ => .error .blocked

end

/-! ### Frames of a video -/

section

variable {combineLines : Bool} {N c k iter : ℕ} {rows columns : UInt64} {sets : H5File}

/-- The chunks that `measurement[k]` adds up. -/
def chunkSum (columns : UInt64) (sets : H5File) (N c k : ℕ) : ℕ → ℕ → ℕ :=
  ∑ i ∈ Finset.range (min c N), raw columns sets (k + i)

/-- The frames of a video of this shape can be read. -/
def FramesReadable (combineLines : Bool) (N c : ℕ) (rows columns : UInt64) : Prop :=
  Readable combineLines rows columns ∧ (c ≠ 1 → N ≤ c → HasRow combineLines rows)

/-- **A frame of a video**, for the keys that a worker uses. -/
theorem getItem_frame (hm : Measurement N rows columns sets) (hc : 0 < c) (hk : k < N ⌈/⌉ c)
    (h : FramesReadable combineLines N c rows columns) (pool : Pool) :
    ((MeasureData.reader combineLines sets c iter).getItem .exact pool k).1 =
      .ok (frameOf combineLines rows columns (chunkSum columns sets N c k)) := by
  have hN : 0 < N := pos_of_lt_ceilDiv hk
  rw [chunkSum]
  obtain rfl | hc2 : c = 1 ∨ 2 ≤ c := by omega
  · rw [ceilDiv_one] at hk
    rw [getItem_one, Nat.min_eq_left hN, Finset.sum_range_one]
    exact chunkAt_eq (m := .reader combineLines sets 1 iter) hm rfl h.1 hk
  obtain hNc | hNc := le_or_gt N c
  · rw [ceilDiv_eq_one hN hNc] at hk
    obtain rfl : k = 0 := by omega
    rw [getItem_image hm hc2 hN hNc hk.le, Nat.min_eq_right hNc]
    simp only [Nat.zero_add]
    exact generateImage_eq hm hN h.1 (h.2 (by omega) hNc) pool
  · have hfull : maxCombines N c k = c := if_neg fun h => by omega
    rw [getItem_eq hm h.1 hc2 hNc hk.le, hfull, Nat.min_eq_left hNc.le]

/-- Otherwise no frame is read. -/
theorem getItem_error (iter : ℕ) (hm : Measurement N rows columns sets) (hc : 0 < c)
    (hk : k < N ⌈/⌉ c)
    (h : ¬ FramesReadable combineLines N c rows columns) (pool : Pool) :
    ∃ e, ((MeasureData.reader combineLines sets c iter).getItem .exact pool k).1 = .error e := by
  by_cases hread : Readable combineLines rows columns
  · obtain ⟨hc1, hrest⟩ := Classical.not_imp.mp fun hrow => h ⟨hread, hrow⟩
    obtain ⟨hNc, hrows⟩ := Classical.not_imp.mp hrest
    have hN : 0 < N := pos_of_lt_ceilDiv hk
    rw [ceilDiv_eq_one hN hNc] at hk
    rw [getItem_image hm (by omega) hN hNc hk.le]
    exact ⟨_, generateImage_blocked hm hN (fun hshape => hrows hshape.2) pool⟩
  · rcases hitem : ((MeasureData.reader combineLines sets c iter).getItem .exact pool k).1
      with e | frame
    · exact ⟨e, rfl⟩
    · exact absurd hitem (getItem_unreadable hm hread hc hk pool frame)

/-- The reader stays as it is, unless there is only one frame. -/
theorem getItem_reader (hm : Measurement N rows columns sets) (hc : 0 < c)
    (h : c = 1 ∨ c < N) (pool : Pool) :
    ((MeasureData.reader combineLines sets c iter).getItem .exact pool k).2 =
      .reader combineLines sets c iter := by
  obtain rfl | hNc := h
  · rfl
  by_cases hc1 : c = 1
  · rw [hc1]
    rfl
  have hlen := two_le_ceilDiv hc hNc
  rw [MeasureData.getItem, if_neg (show (MeasureData.reader combineLines sets c iter).combines ≠ 1
    from hc1), len_reader hm hc]
  dsimp only
  split
  · rfl
  · rw [if_neg (by omega)]

/-- The frames of a heatmap are arrays if nothing is combined, or everything is. -/
theorem isArray_reader (hm : Measurement N rows columns sets) (hc : 0 < c) (hk : k < N ⌈/⌉ c) :
    (MeasureData.reader combineLines sets c iter).isArray k = true ↔ c = 1 ∨ N ≤ c := by
  have hN : 0 < N := pos_of_lt_ceilDiv hk
  have hfull : maxCombines N c k = c := if_neg fun h => by omega
  have hone : N ⌈/⌉ c = 1 ↔ N ≤ c := by
    refine ⟨fun h => Nat.le_of_not_lt fun hNc => ?_, ceilDiv_eq_one hN⟩
    have hlen := two_le_ceilDiv hc hNc
    omega
  change decide (c = 1 ∨ sets.length ⌈/⌉ c = 1 ∨ maxCombines sets.length c k = 1) = true ↔ _
  rw [decide_eq_true_iff, hm.length_eq, hfull, hone]
  tauto

/-! ### The values of a frame -/

/-- The first value of a frame. -/
def firstValue (combineLines : Bool) (columns : UInt64) (f : ℕ → ℕ → ℕ) : ℕ :=
  if combineLines = true then ((List.range columns.toNat).map (f 0)).sum else f 0 0

theorem values_frameOf (combineLines : Bool) (hrows : rows ≠ 0) (hcolumns : columns ≠ 0)
    (f : ℕ → ℕ → ℕ) :
    ∃ rest, values (frameOf combineLines rows columns f) =
      firstValue combineLines columns f :: rest := by
  obtain ⟨r, hr⟩ := toNat_eq_succ hrows
  obtain ⟨n, hn⟩ := toNat_eq_succ hcolumns
  rw [frameOf, hr, List.range_succ_eq_map, List.map_cons]
  cases combineLines with
  | true => exact ⟨_, rfl⟩
  | false =>
    rw [values, List.flatten_cons, Item.ofRow, hn, List.range_succ_eq_map, List.map_cons]
    exact ⟨_, rfl⟩

/-- Readable frames without entries have no values. -/
theorem values_frameOf_of_empty (hread : Readable combineLines rows columns)
    (h : rows = 0 ∨ columns = 0) (f : ℕ → ℕ → ℕ) :
    values (frameOf combineLines rows columns f) = [] := by
  by_cases hrows : rows = 0
  · rw [hrows]
    cases combineLines with
    | true => rfl
    | false => rfl
  obtain rfl := h.resolve_left hrows
  cases combineLines with
  | true => exact absurd rfl ((hread rfl).resolve_left hrows)
  | false =>
    refine List.flatten_eq_nil_iff.mpr fun row hrow => ?_
    obtain ⟨set, -, rfl⟩ := List.mem_map.mp hrow
    rfl

/-! ### The loop over the frames -/

section

variable {m : MeasureData combineLines} {pool : Pool} {frame : ℕ → Frame ℕ combineLines}
  {l : List ℕ}

theorem collect_eq (hitem : (m.getItem .exact pool k).1 = .ok (frame k))
    (harray : combineLines = true ∨ m.isArray k = true) (acc : List ℕ) :
    collect .exact pool (acc, m) k =
      .ok (acc ++ values (frame k), (m.getItem .exact pool k).2) := by
  rw [collect, hitem, ok_bind, flatten, if_pos harray]
  rfl

/-- The loop collects the values of its frames, if it does not change the reader, or is over
after one frame. -/
theorem foldlM_collect (hitem : ∀ k ∈ l, (m.getItem .exact pool k).1 = .ok (frame k))
    (harray : ∀ k ∈ l, combineLines = true ∨ m.isArray k = true)
    (hkept : l.length ≤ 1 ∨ ∀ k ∈ l, (m.getItem .exact pool k).2 = m) (acc : List ℕ) :
    ∃ m', l.foldlM (collect .exact pool) (acc, m) =
      .ok (acc ++ l.flatMap (fun k => values (frame k)), m') := by
  induction l generalizing acc with
  | nil => exact ⟨m, by rw [List.flatMap_nil, List.append_nil]; rfl⟩
  | cons k l ih =>
    have hmem : k ∈ k :: l := List.mem_cons_self
    rw [List.foldlM_cons, collect_eq (hitem k hmem) (harray k hmem), ok_bind, List.flatMap_cons,
      ← List.append_assoc]
    -- a reader that has become an image is not asked again
    obtain hlength | hkept := hkept
    · obtain rfl : l = [] := List.eq_nil_of_length_eq_zero
        (Nat.le_zero.mp (Nat.le_of_lt_succ hlength))
      exact ⟨_, by rw [List.flatMap_nil, List.append_nil]; rfl⟩
    · rw [hkept k hmem]
      exact ih (fun j hj => hitem j (List.mem_cons_of_mem k hj))
        (fun j hj => harray j (List.mem_cons_of_mem k hj))
        (.inr fun j hj => hkept j (List.mem_cons_of_mem k hj)) _

end

/-- The values of the frames with these keys. -/
def valuesOf (combineLines : Bool) (rows columns : UInt64) (sets : H5File) (N c : ℕ)
    (keys : List ℕ) : List ℕ :=
  keys.flatMap fun k => values (frameOf combineLines rows columns (chunkSum columns sets N c k))

/-- What a worker does before it reads its frames. -/
theorem videoWorker_reader (hm : Measurement N rows columns sets) (hc : 0 < c) (pool : Pool)
    (cpuCount coreId : ℕ) :
    videoWorker .exact combineLines sets c pool cpuCount coreId = (do
      let result ← (workerRange (N ⌈/⌉ c) cpuCount coreId).foldlM (collect .exact pool)
        ([], .reader combineLines sets c 0)
      summarize .exact result.1) := by
  rw [videoWorker, fromFile_eq hc, ok_bind, if_neg Bool.false_ne_true, len_reader hm hc, ok_bind]

theorem mem_workerRange {len cpuCount coreId i : ℕ} (hi : i ∈ workerRange len cpuCount coreId) :
    i < len := by
  rw [workerRange_eq, slice, List.mem_range'_1] at hi
  omega

/-- **A worker summarizes the values of its frames**, if they can be read and flattened. -/
theorem videoWorker_eq (hm : Measurement N rows columns sets) (hc : 0 < c)
    (hread : FramesReadable combineLines N c rows columns)
    (harray : combineLines = true ∨ c = 1 ∨ N ≤ c) (pool : Pool) (cpuCount coreId : ℕ) :
    videoWorker .exact combineLines sets c pool cpuCount coreId = summarize .exact
      (valuesOf combineLines rows columns sets N c (workerRange (N ⌈/⌉ c) cpuCount coreId)) := by
  rw [videoWorker_reader hm hc]
  have hkept : (workerRange (N ⌈/⌉ c) cpuCount coreId).length ≤ 1 ∨
      ∀ k ∈ workerRange (N ⌈/⌉ c) cpuCount coreId,
        ((MeasureData.reader combineLines sets c 0).getItem .exact pool k).2 =
          .reader combineLines sets c 0 := by
    -- only a combination of all iterations turns the reader into an image, and has one frame
    by_cases h : c = 1 ∨ c < N
    · exact .inr fun k _ => getItem_reader hm hc h pool
    · refine .inl ?_
      rw [workerRange_eq, slice, List.length_range']
      have hlen : N ⌈/⌉ c ≤ 1 := by
        by_contra hlen
        have hN : 0 < N := pos_of_lt_ceilDiv (k := 0) (c := c) (by omega)
        exact hlen (ceilDiv_eq_one hN (by omega)).le
      omega
  obtain ⟨m', hloop⟩ := foldlM_collect
    (fun k hk => getItem_frame hm hc (mem_workerRange hk) hread pool)
    (fun k hk => harray.imp_right fun h => (isArray_reader hm hc (mem_workerRange hk)).mpr h)
    hkept []
  rw [hloop, ok_bind]
  rfl

/-- The first worker has the first frame. -/
theorem workerRange_zero {len cpuCount : ℕ} (hlen : 0 < len) (hpos : 0 < cpuCount) :
    ∃ l, workerRange len cpuCount 0 = 0 :: l := by
  have hwidth := ceilDiv_pos hlen hpos
  rw [workerRange_eq, slice, Nat.mul_zero, Nat.zero_add, Nat.mul_one, Nat.sub_zero]
  obtain ⟨n, hn⟩ : ∃ n, min len (len ⌈/⌉ cpuCount) = n + 1 :=
    Nat.exists_eq_add_one.mpr (by omega)
  rw [hn]
  exact ⟨_, rfl⟩

/-- The first worker dies if it can not read or flatten its first frame. -/
theorem videoWorker_zero_error (hm : Measurement N rows columns sets) (hN : 0 < N) (hc : 0 < c)
    (h : ¬ (FramesReadable combineLines N c rows columns ∧ (combineLines = true ∨ c = 1 ∨ N ≤ c)))
    (pool : Pool) {cpuCount : ℕ} (hpos : 0 < cpuCount) :
    ∃ e, videoWorker .exact combineLines sets c pool cpuCount 0 = .error e := by
  have hlen := ceilDiv_pos hN hc
  obtain ⟨l, hl⟩ := workerRange_zero hlen hpos
  rw [videoWorker_reader hm hc, hl, List.foldlM_cons]
  by_cases hread : FramesReadable combineLines N c rows columns
  · have hflat : ¬ (combineLines = true ∨
        (MeasureData.reader combineLines sets c 0).isArray 0 = true) := fun hor =>
      h ⟨hread, hor.imp_right (isArray_reader hm hc hlen).mp⟩
    refine ⟨.attributeError, ?_⟩
    rw [collect, getItem_frame hm hc hlen hread pool, ok_bind, flatten, if_neg hflat, error_bind,
      error_bind, error_bind]
  · obtain ⟨e, he⟩ := getItem_error 0 hm hc hlen hread pool
    exact ⟨e, by rw [collect, he, error_bind, error_bind, error_bind]⟩

/-! ### Every worker delivers its result -/

/-- No process has an empty range: the last one has a frame. -/
def NoEmptyRange (len cpuCount : ℕ) : Prop := (len ⌈/⌉ cpuCount) * (cpuCount - 1) < len

instance (len cpuCount : ℕ) : Decidable (NoEmptyRange len cpuCount) :=
  inferInstanceAs (Decidable ((len ⌈/⌉ cpuCount) * (cpuCount - 1) < len))

theorem noEmptyRange_iff {len cpuCount : ℕ} (hlen : 0 < len) (hpos : 0 < cpuCount) :
    NoEmptyRange len cpuCount ↔ ∀ i < cpuCount, workerRange len cpuCount i ≠ [] := by
  have hwidth := ceilDiv_pos hlen hpos
  simp only [workerRange_eq, Ne, slice_eq_nil_iff hwidth, Nat.not_le]
  constructor
  · intro h i hi
    exact (Nat.mul_le_mul_left _ (Nat.le_sub_one_of_lt hi)).trans_lt h
  · intro h
    exact h (cpuCount - 1) (Nat.sub_one_lt_of_lt hpos)

theorem summarize_eq_error_iff (l : List ℕ) : (∀ r, summarize .exact l ≠ .ok r) ↔ l = [] := by
  cases l with
  | nil => exact iff_of_true (fun _ => nofun) rfl
  | cons first rest => exact iff_of_false (fun h => h _ rfl) (List.cons_ne_nil _ _)

/-- Without entries, there are no values. -/
theorem valuesOf_eq_nil_iff (hread : Readable combineLines rows columns) (keys : List ℕ) :
    valuesOf combineLines rows columns sets N c keys = [] ↔
      rows = 0 ∨ columns = 0 ∨ keys = [] := by
  rw [valuesOf, List.flatMap_eq_nil_iff, ← or_assoc]
  constructor
  · intro h
    by_contra hnot
    obtain ⟨hshape, hkeys⟩ := not_or.mp hnot
    obtain ⟨hrows, hcolumns⟩ := not_or.mp hshape
    obtain ⟨k, keys, rfl⟩ := List.exists_cons_of_ne_nil hkeys
    obtain ⟨rest, hrest⟩ := values_frameOf combineLines hrows hcolumns
      (chunkSum columns sets N c k)
    rw [h k List.mem_cons_self] at hrest
    cases hrest
  · rintro (hshape | rfl)
    · exact fun k _ => values_frameOf_of_empty hread hshape _
    · exact fun k hk => absurd hk List.not_mem_nil

/-- What every worker needs: the frames of a heatmap are arrays, and there are values. -/
structure CanDeliver (combineLines : Bool) (N c : ℕ) (rows columns : UInt64) (cpuCount : ℕ) :
    Prop where
  noEmptyRange : NoEmptyRange (N ⌈/⌉ c) cpuCount
  array : combineLines = true ∨ c = 1 ∨ N ≤ c
  rows_ne_zero : rows ≠ 0
  columns_ne_zero : columns ≠ 0

theorem CanDeliver.framesReadable {cpuCount : ℕ}
    (h : CanDeliver combineLines N c rows columns cpuCount) :
    FramesReadable combineLines N c rows columns :=
  ⟨fun _ => .inr h.columns_ne_zero, fun _ _ _ => h.rows_ne_zero⟩

/-- **All workers deliver a result** if and only if none has an empty range, the frames of a
heatmap are arrays, and data sets have entries. -/
theorem videoWorkers_deliver_iff (hm : Measurement N rows columns sets) (hN : 0 < N) (hc : 0 < c)
    {cpuCount : ℕ} (hpos : 0 < cpuCount) (images : ℕ → Pool) :
    (∀ i < cpuCount, ∃ r,
      videoWorker .exact combineLines sets c (images i) cpuCount i = .ok r) ↔
      CanDeliver combineLines N c rows columns cpuCount := by
  have hlen := ceilDiv_pos hN hc
  constructor
  · intro h
    obtain ⟨r, hr⟩ := h 0 hpos
    have hfirst : FramesReadable combineLines N c rows columns ∧
        (combineLines = true ∨ c = 1 ∨ N ≤ c) := by
      by_contra hnot
      obtain ⟨e, he⟩ := videoWorker_zero_error hm hN hc hnot (images 0) hpos
      rw [he] at hr
      cases hr
    obtain ⟨hread, harray⟩ := hfirst
    -- a worker without values dies at the maximum of nothing
    have hvalues : ∀ i < cpuCount, ¬ (rows = 0 ∨ columns = 0 ∨
        workerRange (N ⌈/⌉ c) cpuCount i = []) := by
      intro i hi hempty
      obtain ⟨r, hr⟩ := h i hi
      rw [videoWorker_eq hm hc hread harray] at hr
      exact (summarize_eq_error_iff _).mpr
        ((valuesOf_eq_nil_iff hread.1 _).mpr hempty) r hr
    refine ⟨(noEmptyRange_iff hlen hpos).mpr fun i hi hempty => ?_, harray, fun hrows => ?_,
      fun hcolumns => ?_⟩
    · exact hvalues i hi (.inr (.inr hempty))
    · exact hvalues 0 hpos (.inl hrows)
    · exact hvalues 0 hpos (.inr (.inl hcolumns))
  · intro h i hi
    have hread := h.framesReadable
    rw [videoWorker_eq hm hc hread h.array]
    have hsome : valuesOf combineLines rows columns sets N c
        (workerRange (N ⌈/⌉ c) cpuCount i) ≠ [] := by
      rw [Ne, valuesOf_eq_nil_iff hread.1]
      rintro (hrows | hcolumns | hempty)
      · exact h.rows_ne_zero hrows
      · exact h.columns_ne_zero hcolumns
      · exact (noEmptyRange_iff hlen hpos).mp h.noEmptyRange i hi hempty
    by_contra hnone
    exact hsome ((summarize_eq_error_iff _).mp fun r hr => hnone ⟨r, hr⟩)

/-- If all workers deliver, the parent gets all results. -/
theorem mergeResults_ok {pool : Pool} {images : ℕ → Pool} (h : ∀ i < pool.cpuCount, ∃ r,
    videoWorker .exact combineLines sets c (images i) pool.cpuCount i = .ok r) :
    ∃ (r : ℕ → VideoResult ℕ) (i : ℕ) (is : List ℕ),
      (∀ j ∈ i :: is,
        videoWorker .exact combineLines sets c (images j) pool.cpuCount j = .ok (r j)) ∧
      pool.arrivals = i :: is ∧
      mergeResults .exact combineLines sets c pool images =
        .ok ((is.map r).foldl (VideoResult.merge .exact) (r i)) := by
  have hall : ∀ j, ∃ r, j ∈ pool.arrivals →
      videoWorker .exact combineLines sets c (images j) pool.cpuCount j = .ok r := by
    intro j
    by_cases hj : j ∈ pool.arrivals
    · obtain ⟨r, hr⟩ := h j (List.mem_range.mp (pool.arrivals_perm.mem_iff.mp hj))
      exact ⟨r, fun _ => hr⟩
    · exact ⟨⟨0, 0, 0, 0⟩, fun hj' => absurd hj' hj⟩
  choose r hr using hall
  have hlength := pool.arrivals_perm.length_eq
  rw [List.length_range] at hlength
  rcases harrivals : pool.arrivals with _ | ⟨i, is⟩
  · rw [harrivals] at hlength
    exact absurd hlength.symm (Nat.ne_of_gt pool.cpuCount_pos)
  · rw [harrivals] at hr
    refine ⟨r, i, is, hr, rfl, ?_⟩
    rw [mergeResults, harrivals, mapM_eq_ok hr, List.map_cons]

/-- Every process puts one result into the queue, which changes nothing if its range is empty;
and the parent gets all results. -/
structure VideoServed (combineLines : Bool) (sets : H5File) (N c cpuCount : ℕ) : Prop where
  delivers : ∀ (images : ℕ → Pool), ∀ i < cpuCount, ∃ result,
    videoWorker .exact combineLines sets c (images i) cpuCount i = .ok result ∧
      (workerRange (N ⌈/⌉ c) cpuCount i = [] → ∀ other,
        VideoResult.merge .exact other result = other ∧
          VideoResult.merge .exact result other = other)
  served : ∀ (pool : Pool) (images : ℕ → Pool), pool.cpuCount = cpuCount →
    ∃ result, mergeResults .exact combineLines sets c pool images = .ok result

/-- **The parent's requests are served** if and only if no process has an empty range, the
frames of a heatmap are arrays (nothing is combined, or everything is), and the data sets have
entries. -/
theorem videoServed_iff (hm : Measurement N rows columns sets) (hN : 0 < N) (hc : 0 < c)
    {cpuCount : ℕ} (hpos : 0 < cpuCount) :
    VideoServed combineLines sets N c cpuCount ↔
      NoEmptyRange (N ⌈/⌉ c) cpuCount ∧ (combineLines = true ∨ c = 1 ∨ N ≤ c) ∧
        rows ≠ 0 ∧ columns ≠ 0 := by
  constructor
  · intro h
    have hdeliver : ∀ i < cpuCount, ∃ r,
        videoWorker .exact combineLines sets c .single cpuCount i = .ok r := by
      intro i hi
      obtain ⟨r, hr, -⟩ := h.delivers (fun _ => .single) i hi
      exact ⟨r, hr⟩
    obtain ⟨hrange, harray, hrows, hcolumns⟩ :=
      (videoWorkers_deliver_iff hm hN hc hpos fun _ => .single).mp hdeliver
    exact ⟨hrange, harray, hrows, hcolumns⟩
  · rintro ⟨hrange, harray, hrows, hcolumns⟩
    have hdeliver := fun images =>
      (videoWorkers_deliver_iff hm hN hc hpos images).mpr ⟨hrange, harray, hrows, hcolumns⟩
    refine ⟨fun images i hi => ?_, fun pool images hpool => ?_⟩
    · obtain ⟨r, hr⟩ := hdeliver images i hi
      have hsome := (noEmptyRange_iff (ceilDiv_pos hN hc) hpos).mp hrange i hi
      exact ⟨r, hr, fun hempty => absurd hempty hsome⟩
    · subst hpool
      obtain ⟨r, i, is, -, -, hmerge⟩ := mergeResults_ok (hdeliver images)
      exact ⟨_, hmerge⟩

end

/-- Results that arrive in the order of the processes. -/
def Pool.inOrder (cpuCount : ℕ) (hpos : 0 < cpuCount) : Pool :=
  ⟨cpuCount, hpos, List.range cpuCount, List.Perm.refl _⟩

theorem videoServed_fourIterations : VideoServed true fourIterations 4 2 2 :=
  (videoServed_iff measurement_measurementFile (by decide) (by decide) (by decide)).mpr
    (by decide)

/-- Five iterations of one entry. -/
def fiveIterations : H5File := measurementFile 5 1 1 fun k _ => UInt32.ofNat (k + 1)

/-- Five frames for four processes: each takes two, so that nothing is left for the last one. It
dies, and the parent waits for its result. -/
theorem mergeResults_fiveIterations :
    Measurement 5 1 1 fiveIterations ∧ workerRange 5 4 3 = [] ∧
      videoWorker .exact true fiveIterations 1 .single 4 3 = .error .indexError ∧
      mergeResults .exact true fiveIterations 1 (.inOrder 4 (by decide)) (fun _ => .single) =
        .error .blocked ∧
      ¬ VideoServed true fiveIterations 5 1 4 := by
  refine ⟨measurement_measurementFile, by decide, by decide, by decide, fun h => ?_⟩
  obtain ⟨result, hresult, -⟩ := h.delivers (fun _ => .single) 3 (by decide)
  have herror : videoWorker .exact true fiveIterations (1 : ℕ) .single 4 3 =
      .error .indexError := by decide
  cases herror.symm.trans hresult

end CacheNoise
