import CacheNoise.Visualize.Image

/-!
# Bar charts and heatmaps

Two readers of one file, one with `combine_lines` and one without. The first adds up each row and
then the chunks, the second adds whole matrices. So a frame of the bar chart has the row sums of
the frame of the heatmap (`sum_frameOf`), and both miss the same chunks.

The names of the data sets are arbitrary here; only the shape is the same (`Shaped`). The one path
on which the readers part is the parallel sum. A process that misses a chunk dies without a
`KeyError` in the reader, and without a row only the processes of the heatmap die
(`rowSumsAgree_iff`).
-/

namespace CacheNoise

open Related

/-- All data sets have this shape. -/
def Shaped (rows columns : UInt64) (sets : H5File) : Prop := ∀ d ∈ sets, d.dims = (rows, columns)

instance (rows columns : UInt64) (sets : H5File) : Decidable (Shaped rows columns sets) :=
  inferInstanceAs (Decidable (∀ d ∈ sets, d.dims = (rows, columns)))

/-- There is a data set for iteration `k`. -/
def Present (sets : H5File) (k : ℕ) : Prop :=
  (sets.find? fun d => d.name = toString k).isSome = true

instance (sets : H5File) (k : ℕ) : Decidable (Present sets k) :=
  inferInstanceAs (Decidable (_ = true))

/-- The data sets are those of the first iterations. -/
def Gapless (sets : H5File) : Prop := ∀ k < sets.length, Present sets k

instance (sets : H5File) : Decidable (Gapless sets) :=
  inferInstanceAs (Decidable (∀ k < sets.length, Present sets k))

/-- The iterations whose chunks are added up for frame `k`. -/
def added (N c k : ℕ) : List ℕ :=
  if c = 1 then [k]
  else if N ⌈/⌉ c = 1 then List.range N
  else (List.range (maxCombines N c k)).map (k + ·)

/-- The sum of these chunks. -/
def addedSum (columns : UInt64) (sets : H5File) (c k : ℕ) : ℕ → ℕ → ℕ :=
  ((added sets.length c k).map (raw columns sets)).sum

/-! ### Chunks -/

section

variable {combineLines : Bool} {c k iter : ℕ} {rows columns : UInt64} {sets : H5File}

theorem chunkAt_of_present (hshape : Shaped rows columns sets) (hcolumns : columns ≠ 0)
    (hk : Present sets k) :
    (MeasureData.reader combineLines sets c iter).chunkAt .exact k =
      .ok (frameOf combineLines rows columns (raw columns sets k)) := by
  obtain ⟨d, hd⟩ := Option.isSome_iff_exists.mp hk
  exact chunkAt_present (m := .reader combineLines sets c iter) rfl (fun _ => .inr hcolumns) hd
    (hshape d (List.mem_of_find?_eq_some hd))

theorem chunkAt_of_not_present (hk : ¬ Present sets k) {α : Type} (A : Arithmetic α) :
    (MeasureData.reader combineLines sets c iter).chunkAt A k = .error .keyError :=
  chunkAt_missing (m := .reader combineLines sets c iter) rfl
    (Option.not_isSome_iff_eq_none.mp hk) A

/-- A chunk that can be read is there. -/
theorem present_of_chunkAt {α : Type} {A : Arithmetic α} {chunk : Frame α combineLines}
    (h : (MeasureData.reader combineLines sets c iter).chunkAt A k = .ok chunk) :
    Present sets k := by
  by_contra hk
  rw [chunkAt_of_not_present hk] at h
  cases h

/-- **Data sets without a gap are a measurement**: there are no names left for others. -/
theorem measurement_of_gapless (hshape : Shaped rows columns sets) (hgapless : Gapless sets) :
    Measurement sets.length rows columns sets := by
  refine ⟨rfl, fun k hk => ?_, fun k hk => ?_⟩
  · obtain ⟨d, hd⟩ := Option.isSome_iff_exists.mp (hgapless k hk)
    exact ⟨d, hd, hshape d (List.mem_of_find?_eq_some hd)⟩
  by_contra hsome
  have hname : ∀ i, Present sets i → (toString i : String) ∈ sets.map DataSet.name := by
    intro i hi
    obtain ⟨d, hd⟩ := Option.isSome_iff_exists.mp hi
    have hd' : d.name = toString i := by simpa using List.find?_some hd
    exact List.mem_map.mpr ⟨d, List.mem_of_find?_eq_some hd, hd'⟩
  -- one name too many
  have hnodup : ((k :: List.range sets.length).map fun i : ℕ => (toString i : String)).Nodup :=
    (List.nodup_cons.mpr ⟨by simpa using hk, List.nodup_range⟩).map fun _ _ h =>
      Nat.repr_injective h
  have hsubset : ((k :: List.range sets.length).map fun i : ℕ => (toString i : String)) ⊆
      sets.map DataSet.name := by
    intro name hmem
    obtain ⟨i, hi, rfl⟩ := List.mem_map.mp hmem
    obtain rfl | hi := List.mem_cons.mp hi
    · exact hname i (Option.isSome_iff_ne_none.mpr hsome)
    · exact hname i (hgapless i (List.mem_range.mp hi))
  have hlength := (hnodup.subperm hsubset).length_le
  simp only [List.length_map, List.length_cons, List.length_range] at hlength
  omega

/-- All data sets of a measurement have its shape. -/
theorem Measurement.shaped {N : ℕ} (hm : Measurement N rows columns sets) :
    Shaped rows columns sets := by
  have hnames : ((List.range N).map fun k : ℕ => (toString k : String)).Nodup :=
    List.nodup_range.map fun _ _ h => Nat.repr_injective h
  have hsubset : ((List.range N).map fun k : ℕ => (toString k : String)) ⊆
      sets.map DataSet.name := by
    intro name hname
    obtain ⟨k, hk, rfl⟩ := List.mem_map.mp hname
    obtain ⟨d, hd, -⟩ := hm.present k (List.mem_range.mp hk)
    have hd' : d.name = toString k := by simpa using List.find?_some hd
    exact List.mem_map.mpr ⟨d, List.mem_of_find?_eq_some hd, hd'⟩
  have hperm : ((List.range N).map fun k : ℕ => (toString k : String)).Perm
      (sets.map DataSet.name) :=
    (hnames.subperm hsubset).perm_of_length_le (by simp [hm.length_eq])
  -- the names are all different, so that a data set is the one that is found under its name
  have hinj := List.inj_on_of_nodup_map (hperm.nodup_iff.mp hnames)
  intro d hd
  have hname := hperm.mem_iff.mpr (List.mem_map_of_mem hd)
  obtain ⟨k, hk, hkname⟩ := List.mem_map.mp hname
  obtain ⟨d', hd', hdims⟩ := hm.present k (List.mem_range.mp hk)
  have hname' : d'.name = toString k := by simpa using List.find?_some hd'
  rw [hinj hd (List.mem_of_find?_eq_some hd') (hkname.symm.trans hname'.symm)]
  exact hdims

/-! ### The paths of `__getitem__` -/

/-- A chunk that is missing among those to be added. -/
theorem combined_missing {n key i : ℕ} (hshape : Shaped rows columns sets)
    (hcolumns : columns ≠ 0) (hi : i < n) (hmissing : ¬ Present sets (key + i)) :
    (do
      let data ← (List.range n).mapM fun i =>
        (MeasureData.reader combineLines sets c iter).chunkAt .exact (key + i)
      reduce (Frame.add .exact) data) = .error .keyError := by
  rcases hdata : (List.range n).mapM fun i =>
    (MeasureData.reader combineLines sets c iter).chunkAt .exact (key + i) with e | data
  · obtain ⟨j, -, hj⟩ := exists_of_mapM_eq_error hdata
    have he : e = .keyError := by
      by_cases hpresent : Present sets (key + j)
      · rw [chunkAt_of_present hshape hcolumns hpresent] at hj
        cases hj
      · rw [chunkAt_of_not_present hpresent] at hj
        exact (Except.error.inj hj).symm
    rw [he, error_bind]
  · obtain ⟨chunk, hchunk⟩ := exists_of_mapM_eq_ok hdata i (List.mem_range.mpr hi)
    exact absurd (present_of_chunkAt hchunk) hmissing

/-- Chunks that are all there are added up. -/
theorem getItem_added (hshape : Shaped rows columns sets) (hcolumns : columns ≠ 0) (hc : 2 ≤ c)
    (hlen : sets.length ⌈/⌉ c ≠ 1) (hk : k ≤ sets.length ⌈/⌉ c)
    (hall : ∀ i < maxCombines sets.length c k, Present sets (k + i)) (pool : Pool) :
    ((MeasureData.reader combineLines sets c iter).getItem .exact pool k).1 =
      .ok (frameOf combineLines rows columns (addedSum columns sets c k)) := by
  rw [getItem_cases _ hc, if_neg (not_lt.mpr hk), if_neg hlen,
    combined_of_chunks (maxCombines_pos (by omega) k) fun i hi =>
      chunkAt_of_present hshape hcolumns (hall i hi), addedSum, added, if_neg (by omega),
    if_neg hlen, List.map_map]
  rfl

/-- With a frame, all its chunks are there. -/
theorem present_of_getItem (hshape : Shaped rows columns sets) (hcolumns : columns ≠ 0)
    (hc : 2 ≤ c) (hlen : sets.length ⌈/⌉ c ≠ 1) {pool : Pool} {frame : Frame ℕ combineLines}
    (h : ((MeasureData.reader combineLines sets c iter).getItem .exact pool k).1 = .ok frame) :
    k ≤ sets.length ⌈/⌉ c ∧ ∀ i < maxCombines sets.length c k, Present sets (k + i) := by
  by_cases hlast : sets.length ⌈/⌉ c < k
  · rw [getItem_cases _ hc, if_pos hlast] at h
    cases h
  refine ⟨not_lt.mp hlast, fun i hi => ?_⟩
  by_contra hmissing
  rw [getItem_cases _ hc, if_neg hlast, if_neg hlen,
    combined_missing hshape hcolumns hi hmissing] at h
  cases h

/-- **Outside of the parallel sum**, a chunk is missing or the chunks are added up, and this does
not depend on the mode. -/
theorem getItem_apart (hshape : Shaped rows columns sets) (hcolumns : columns ≠ 0) (hc : 0 < c)
    (hapart : c ≠ 1 → sets.length ⌈/⌉ c = 1 → 1 < k) :
    (∀ combineLines (pool : Pool),
      ((MeasureData.reader combineLines sets c iter).getItem .exact pool k).1 =
        .error .keyError) ∨
    ∀ combineLines (pool : Pool),
      ((MeasureData.reader combineLines sets c iter).getItem .exact pool k).1 =
        .ok (frameOf combineLines rows columns (addedSum columns sets c k)) := by
  obtain rfl | hc2 : c = 1 ∨ 2 ≤ c := by omega
  · by_cases hk : Present sets k
    · refine .inr fun combineLines pool => ?_
      rw [getItem_one, chunkAt_of_present hshape hcolumns hk, addedSum, added, if_pos rfl,
        List.map_singleton, List.sum_singleton]
    · exact .inl fun combineLines pool => chunkAt_of_not_present hk .exact
  by_cases hlast : sets.length ⌈/⌉ c < k
  · exact .inl fun combineLines pool => (getItem_cases _ hc2 pool).trans (if_pos hlast)
  have hlen : sets.length ⌈/⌉ c ≠ 1 := fun hone => hlast (hone ▸ hapart (by omega) hone)
  by_cases hall : ∀ i < maxCombines sets.length c k, Present sets (k + i)
  · exact .inr fun combineLines pool =>
      getItem_added hshape hcolumns hc2 hlen (not_lt.mp hlast) hall pool
  · obtain ⟨i, hi, hmissing⟩ := by simpa only [not_forall, exists_prop] using hall
    refine .inl fun combineLines pool => ?_
    rw [getItem_cases _ hc2, if_neg hlast, if_neg hlen,
      combined_missing hshape hcolumns hi hmissing]

end

/-! ### The parallel sum -/

section

variable {combineLines : Bool} {rows columns : UInt64} {sets : H5File}

theorem not_hasRow_zeros {chunk : Frame ℕ combineLines} {f : ℕ → ℕ → ℕ}
    (h : zeros .exact (frameOf combineLines rows columns f) = .ok chunk) :
    HasRow combineLines rows := by
  rintro rfl rfl
  cases h

/-- A fold over chunks reads all of them. -/
theorem present_of_foldlM {c iter : ℕ} {l : List ℕ} {result image : Frame ℕ combineLines}
    (h : l.foldlM (fun result i => do
      let chunk ← (MeasureData.reader combineLines sets c iter).chunkAt .exact i
      pure (Frame.add .exact result chunk)) result = .ok image) : ∀ i ∈ l, Present sets i := by
  induction l generalizing result with
  | nil => exact fun i hi => absurd hi List.not_mem_nil
  | cons i l ih =>
    rw [List.foldlM_cons] at h
    rcases hchunk : (MeasureData.reader combineLines sets c iter).chunkAt .exact i with e | chunk
    · rw [hchunk] at h
      cases h
    · rw [hchunk] at h
      exact List.forall_mem_cons.mpr ⟨present_of_chunkAt hchunk, ih h⟩

/-- A process with a result has found the first chunk, with a row, and those of its range. -/
theorem present_of_imageWorker {cpuCount coreId : ℕ} {image : Frame ℕ combineLines}
    (hshape : Shaped rows columns sets) (hcolumns : columns ≠ 0)
    (h : imageWorker .exact combineLines sets cpuCount coreId = .ok image) :
    HasRow combineLines rows ∧ ∀ i ∈ workerRange sets.length cpuCount coreId, Present sets i := by
  have hfrom : MeasureData.fromFile combineLines sets 1 false =
      .ok (.reader combineLines sets 1 0) := rfl
  have hlen : (MeasureData.reader combineLines sets 1 0).len = .ok sets.length := by
    change Except.ok (sets.length ⌈/⌉ 1) = _
    rw [ceilDiv_one]
  rw [imageWorker_range, hfrom, ok_bind, hlen, ok_bind] at h
  by_cases hfirst : Present sets 0
  · rw [chunkAt_of_present hshape hcolumns hfirst, ok_bind] at h
    rcases hzeros : zeros .exact (frameOf combineLines rows columns (raw columns sets 0)) with e | z
    · rw [hzeros] at h
      cases h
    · rw [hzeros, ok_bind] at h
      exact ⟨not_hasRow_zeros hzeros, present_of_foldlM h⟩
  · rw [chunkAt_of_not_present hfirst] at h
    cases h

/-- **The parallel sum has a value** only if all chunks are there, with a row in a heatmap. -/
theorem gapless_of_generateImage {pool : Pool} {image : Frame ℕ combineLines}
    (hshape : Shaped rows columns sets) (hcolumns : columns ≠ 0)
    (h : generateImage .exact combineLines sets pool = .ok image) :
    Gapless sets ∧ HasRow combineLines rows := by
  rw [generateImage] at h
  rcases hworkers : pool.arrivals.mapM (imageWorker .exact combineLines sets pool.cpuCount) with
    e | images
  · rw [hworkers] at h
    cases h
  have hworker : ∀ core < pool.cpuCount, HasRow combineLines rows ∧
      ∀ i ∈ workerRange sets.length pool.cpuCount core, Present sets i := by
    intro core hcore
    obtain ⟨result, hresult⟩ := exists_of_mapM_eq_ok hworkers core
      (pool.arrivals_perm.mem_iff.mpr (List.mem_range.mpr hcore))
    exact present_of_imageWorker hshape hcolumns hresult
  refine ⟨fun k hk => ?_, (hworker 0 pool.cpuCount_pos).1⟩
  -- each iteration is in the range of a process
  have hmem : k ∈ (List.range pool.cpuCount).flatMap (workerRange sets.length pool.cpuCount) := by
    rw [flatMap_workerRange _ pool.cpuCount_pos]
    exact List.mem_range.mpr hk
  obtain ⟨core, hcore, hk⟩ := List.mem_flatMap.mp hmem
  exact (hworker core (List.mem_range.mp hcore)).2 k hk

/-- The parallel sum of all chunks. -/
theorem generateImage_gapless (hshape : Shaped rows columns sets) (hcolumns : columns ≠ 0)
    (hgapless : Gapless sets) (hpos : 0 < sets.length) (hrows : HasRow combineLines rows)
    {c : ℕ} (hc : c ≠ 1) (hlen : sets.length ⌈/⌉ c = 1) (k : ℕ) (pool : Pool) :
    generateImage .exact combineLines sets pool =
      .ok (frameOf combineLines rows columns (addedSum columns sets c k)) := by
  rw [generateImage_eq (measurement_of_gapless hshape hgapless) hpos (fun _ => .inr hcolumns)
    hrows, addedSum, added, if_neg hc, if_pos hlen]
  rfl

theorem generateImage_ne_keyError (pool : Pool) :
    generateImage .exact combineLines sets pool ≠ .error .keyError := by
  rw [generateImage]
  split <;> simp

end

/-! ### The readers agree -/

/-- The row sums of the frame of a heatmap are the frame of the bar chart. -/
theorem sum_frameOf (rows columns : UInt64) (f : ℕ → ℕ → ℕ) :
    (frameOf false rows columns f).map List.sum = frameOf true rows columns f := by
  rw [frameOf, List.map_map]
  rfl

/-- **The two readers agree**: a chunk is missing for both, or the bars are row sums. -/
def RowSumsAgree (bars : Except Raised (Frame ℕ true)) (heatmap : Except Raised (Frame ℕ false)) :
    Prop :=
  (bars = .error .keyError ∧ heatmap = .error .keyError) ∨
    ∃ frame : Frame ℕ false, heatmap = .ok frame ∧ bars = .ok (frame.map List.sum)

/-- **Bar chart and heatmap agree**, for all pools, if and only if the frame is no parallel sum, or
the data sets are those of the first iterations and have rows. -/
theorem rowSumsAgree_iff {rows columns : UInt64} {sets : H5File} {c : ℕ}
    (hshape : Shaped rows columns sets) (hcolumns : columns ≠ 0) (hc : 0 < c) (k : ℕ)
    (pool pool' : Pool) :
    RowSumsAgree (readFrame true sets c pool k) (readFrame false sets c pool' k) ↔
      (c ≠ 1 → sets.length ⌈/⌉ c = 1 → k ≤ 1 → Gapless sets ∧ rows ≠ 0) := by
  rw [readFrame_reader hc, readFrame_reader hc]
  by_cases himage : c ≠ 1 ∧ sets.length ⌈/⌉ c = 1 ∧ k ≤ 1
  swap
  · refine iff_of_true ?_ fun hc1 hlen hk => absurd ⟨hc1, hlen, hk⟩ himage
    have hapart : c ≠ 1 → sets.length ⌈/⌉ c = 1 → 1 < k := fun hc1 hlen =>
      not_le.mp fun hk => himage ⟨hc1, hlen, hk⟩
    obtain hmissing | hframe := getItem_apart hshape hcolumns hc hapart
    · exact .inl ⟨hmissing true pool, hmissing false pool'⟩
    · exact .inr ⟨_, hframe false pool', by rw [hframe true pool, sum_frameOf]⟩
  obtain ⟨hc1, hlen, hk⟩ := himage
  have hgenerate : ∀ combineLines (pool : Pool),
      ((MeasureData.reader combineLines sets c 0).getItem .exact pool k).1 =
        generateImage .exact combineLines sets pool := fun combineLines pool => by
    rw [getItem_cases _ (by omega), if_neg (by omega), if_pos hlen]
  rw [hgenerate, hgenerate]
  constructor
  · rintro (⟨-, hmissing⟩ | ⟨frame, hheatmap, -⟩) - - -
    · exact absurd hmissing (generateImage_ne_keyError pool')
    · obtain ⟨hgapless, hrow⟩ := gapless_of_generateImage hshape hcolumns hheatmap
      exact ⟨hgapless, hrow rfl⟩
  · intro h
    obtain ⟨hgapless, hrows⟩ := h hc1 hlen hk
    have hpos : 0 < sets.length := pos_of_lt_ceilDiv (hlen ▸ Nat.one_pos)
    have hframe : ∀ combineLines (pool : Pool), generateImage .exact combineLines sets pool =
        .ok (frameOf combineLines rows columns (addedSum columns sets c k)) :=
      fun combineLines pool =>
        generateImage_gapless hshape hcolumns hgapless hpos (fun _ => hrows) hc1 hlen k pool
    exact .inr ⟨_, hframe false pool', by rw [hframe true pool, sum_frameOf]⟩

/-- Four iterations in one frame. -/
theorem rowSumsAgree_fourIterations :
    RowSumsAgree (readFrame true fourIterations 4 .single 0)
      (readFrame false fourIterations 4 .single 0) := by
  have hshape : Shaped 1 1 fourIterations := by decide
  exact (rowSumsAgree_iff hshape (by decide) (by decide) 0 _ _).mpr fun _ _ _ => by decide

/-- Without a row, the bar chart is empty and the heatmap does not come. -/
theorem rowSumsAgree_noRows :
    Shaped 0 1 noRows ∧ readFrame true noRows 2 .single 0 = .ok [] ∧
      readFrame false noRows 2 .single 0 = .error .blocked ∧
      ¬ RowSumsAgree (readFrame true noRows 2 .single 0) (readFrame false noRows 2 .single 0) := by
  have hheatmap : readFrame false noRows 2 .single 0 = .error .blocked := by decide
  refine ⟨by decide, by decide, hheatmap, ?_⟩
  rw [hheatmap]
  rintro (⟨-, h⟩ | ⟨_, h, -⟩)
  · cases h
  · cases h

end CacheNoise
