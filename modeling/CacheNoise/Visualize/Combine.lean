import CacheNoise.Visualize.Frames

/-!
# Combined frames

Frame `k` of a measurement that is combined by `c` should be the sum of the iterations from
`k * c` up to the next frame (`frameSum`). But `__getitem__` asks for the chunks
`k, …, k + c - 1` (`getItem_eq`), so that frames overlap. They are the right sums if and only if
nothing is combined, or everything is, or `k = 0` (`readFrame_iff`); data sets without entries
are looked at separately, since some of them can not be read.
-/

namespace CacheNoise

open Related

section

variable {combineLines : Bool} {N c k iter : ℕ} {rows columns : UInt64} {sets : H5File}

/-- The sum of the iterations of frame `k`, when `N` iterations are combined by `c`. -/
def frameSum (columns : UInt64) (sets : H5File) (N c k : ℕ) : ℕ → ℕ → ℕ :=
  ∑ i ∈ Finset.Ico (k * c) (min ((k + 1) * c) N), raw columns sets i

/-- `from_file` with explicit combines, and then `[k]`, in exact arithmetic. -/
def readFrame (combineLines : Bool) (sets : H5File) (c : ℕ) (pool : Pool) (k : ℕ) :
    Except Raised (Frame ℕ combineLines) := do
  let m ← MeasureData.fromFile combineLines sets c false
  (m.getItem .exact pool k).1

/-! ### The number of frames -/

/-- The reader of an open file. -/
def MeasureData.reader (combineLines : Bool) (sets : H5File) (combines iteration : ℕ) :
    MeasureData combineLines := ⟨⟨sets, false⟩, iteration, combines⟩

theorem fromFile_eq (hc : 0 < c) (combineAll : Bool) :
    MeasureData.fromFile combineLines sets c combineAll =
      .ok (.reader combineLines sets (if combineAll = true then sets.length else c) 0) := by
  rw [MeasureData.fromFile, if_neg (by omega)]
  rfl

theorem readFrame_reader (hc : 0 < c) (pool : Pool) :
    readFrame combineLines sets c pool k =
      ((MeasureData.reader combineLines sets c 0).getItem .exact pool k).1 := by
  rw [readFrame, fromFile_eq hc, if_neg Bool.false_ne_true, ok_bind]

theorem ceilDiv_spec (hc : 0 < c) : N ≤ (N ⌈/⌉ c) * c ∧ (N ⌈/⌉ c) * c < N + c := by
  rw [Nat.ceilDiv_eq_add_pred_div]
  have hdiv := Nat.div_add_mod (N + c - 1) c
  have hmod := Nat.mod_lt (N + c - 1) hc
  rw [Nat.mul_comm] at hdiv
  omega

theorem ceilDiv_pos (hN : 0 < N) (hc : 0 < c) : 0 < N ⌈/⌉ c := by
  by_contra hzero
  have hspec := (ceilDiv_spec (N := N) hc).1
  rw [Nat.eq_zero_of_not_pos hzero] at hspec
  omega

/-- There is one frame if everything is combined. -/
theorem ceilDiv_eq_one (hN : 0 < N) (hc : N ≤ c) : N ⌈/⌉ c = 1 := by
  obtain ⟨hle, hlt⟩ := ceilDiv_spec (N := N) (c := c) (by omega)
  have hlt' : N ⌈/⌉ c < 2 := Nat.lt_of_mul_lt_mul_right (a := c) (by omega)
  have hpos : N ⌈/⌉ c ≠ 0 := fun h => by rw [h] at hle; omega
  omega

/-- There are several frames otherwise. -/
theorem two_le_ceilDiv (hc : 0 < c) (hN : c < N) : 2 ≤ N ⌈/⌉ c := by
  obtain ⟨hle, -⟩ := ceilDiv_spec (N := N) hc
  exact Nat.lt_of_mul_lt_mul_right (a := c) (by omega)

theorem pos_of_lt_ceilDiv (hk : k < N ⌈/⌉ c) : 0 < N := by
  refine Nat.pos_of_ne_zero fun hN => ?_
  rw [hN, zero_ceilDiv] at hk
  exact absurd hk (Nat.not_lt_zero k)

theorem len_reader (hm : Measurement N rows columns sets) (hc : 0 < c) :
    (MeasureData.reader combineLines sets c iter).len = .ok (N ⌈/⌉ c) := by
  change (if c = 0 then _ else Except.ok (sets.length ⌈/⌉ c)) = _
  rw [if_neg (Nat.ne_of_gt hc), hm.length_eq]

/-- The combines of frame `key`: fewer for the frame whose key is the number of frames. -/
def maxCombines (N c key : ℕ) : ℕ := if N ⌈/⌉ c = key ∧ N % c ≠ 0 then N % c else c

theorem maxCombines_pos (hc : 0 < c) (key : ℕ) : 0 < maxCombines N c key := by
  rw [maxCombines]
  split <;> omega

/-- With several frames, the chunks that are asked for exist, also those of one frame more. -/
theorem key_add_le (hc : 2 ≤ c) (hN : c < N) {key : ℕ} (hkey : key ≤ N ⌈/⌉ c) :
    key + maxCombines N c key ≤ N := by
  rw [maxCombines]
  have hlen := two_le_ceilDiv (by omega) hN
  obtain ⟨hle, hlt⟩ := ceilDiv_spec (N := N) (c := c) (by omega)
  generalize N ⌈/⌉ c = len at *
  obtain ⟨l, rfl⟩ : ∃ l, len = l + 2 := ⟨len - 2, by omega⟩
  have hsplit : (l + 2) * c = (l + 1) * c + c := by ring
  have htwice : (l + 1) * 2 ≤ (l + 1) * c := Nat.mul_le_mul_left _ hc
  have hdiv := Nat.div_add_mod N c
  split
  · next h =>
    -- a whole frame more than `len - 1` of them would be a whole frame too many
    have hquot : N / c = l + 1 := by
      refine Nat.div_eq_of_lt_le (by omega) (lt_of_le_of_ne (by omega) fun hN => h.2 ?_)
      rw [hN, Nat.mul_mod_left]
    rw [hquot, Nat.mul_comm] at hdiv
    omega
  · next h =>
    rcases Nat.lt_or_ge key (l + 2) with hlast | hlast
    · have hone : l * 2 ≤ l * c := Nat.mul_le_mul_left _ hc
      have hrest : (l + 1) * c = l * c + c := by ring
      omega
    · -- all frames are whole
      have hrest : N % c = 0 := by
        by_contra hrest
        exact h ⟨by omega, hrest⟩
      have hN : N = (l + 2) * c := by
        obtain ⟨q, rfl⟩ := Nat.dvd_of_mod_eq_zero hrest
        rw [Nat.mul_comm c q] at hle hlt ⊢
        have hq : q < l + 3 := Nat.lt_of_mul_lt_mul_right (a := c) (by nlinarith)
        have hq' : l + 1 < q := Nat.lt_of_mul_lt_mul_right (a := c) (by omega)
        rw [show q = l + 2 by omega]
      omega

/-! ### The paths of `__getitem__` -/

/-- The paths of `__getitem__`, if something is combined. -/
theorem getItem_cases {α : Type} (A : Arithmetic α) (hc : 2 ≤ c) (pool : Pool) :
    ((MeasureData.reader combineLines sets c iter).getItem A pool k).1 =
      if sets.length ⌈/⌉ c < k then .error .keyError
      else if sets.length ⌈/⌉ c = 1 then generateImage A combineLines sets pool
      else (do
        let data ← (List.range (maxCombines sets.length c k)).mapM fun i =>
          (MeasureData.reader combineLines sets c iter).chunkAt A (k + i)
        reduce (Frame.add A) data) := by
  have hcombines : (MeasureData.reader combineLines sets c iter).combines ≠ 1 := Nat.ne_of_gt hc
  have hlen : (MeasureData.reader combineLines sets c iter).len = .ok (sets.length ⌈/⌉ c) :=
    if_neg (by change c ≠ 0; omega)
  rw [MeasureData.getItem, if_neg hcombines, hlen]
  dsimp only
  by_cases hlast : sets.length ⌈/⌉ c < k
  · rw [if_pos hlast, if_pos hlast]
  rw [if_neg hlast, if_neg hlast]
  by_cases hone : sets.length ⌈/⌉ c = 1
  · rw [if_pos hone, if_pos hone]
    rfl
  · rw [if_neg hone, if_neg hone]
    rfl

theorem getItem_one (pool : Pool) :
    ((MeasureData.reader combineLines sets 1 iter).getItem .exact pool k).1 =
      (MeasureData.reader combineLines sets 1 iter).chunkAt .exact k := rfl

/-- One frame: the parallel sum, and the file is closed. -/
theorem getItem_image (hm : Measurement N rows columns sets) (hc : 2 ≤ c) (hN : 0 < N)
    (hNc : N ≤ c) (hk : k ≤ 1) (pool : Pool) :
    (MeasureData.reader combineLines sets c iter).getItem .exact pool k =
      (generateImage .exact combineLines sets pool, ⟨⟨sets, true⟩, iter, c⟩) := by
  have hcombines : (MeasureData.reader combineLines sets c iter).combines ≠ 1 := Nat.ne_of_gt hc
  rw [MeasureData.getItem, if_neg hcombines, len_reader hm (by omega), ceilDiv_eq_one hN hNc]
  dsimp only
  rw [if_neg (Nat.not_lt.mpr hk), if_pos rfl]
  rfl

/-- Otherwise, chunks from `key` on are added up. -/
theorem getItem_combined (hm : Measurement N rows columns sets) (hc : 2 ≤ c)
    (hlen : N ⌈/⌉ c ≠ 1) (hk : k ≤ N ⌈/⌉ c) (pool : Pool) :
    ((MeasureData.reader combineLines sets c iter).getItem .exact pool k).1 = (do
      let data ← (List.range (maxCombines N c k)).mapM fun i =>
        (MeasureData.reader combineLines sets c iter).chunkAt .exact (k + i)
      reduce (Frame.add .exact) data) := by
  rw [getItem_cases _ hc, hm.length_eq, if_neg (Nat.not_lt.mpr hk), if_neg hlen]

/-- What the first chunk raises is raised. -/
theorem getItem_combined_error (hm : Measurement N rows columns sets) (hc : 2 ≤ c)
    (hlen : N ⌈/⌉ c ≠ 1) (hk : k ≤ N ⌈/⌉ c) (pool : Pool) {e : Raised}
    (h : (MeasureData.reader combineLines sets c iter).chunkAt .exact k = .error e) :
    ((MeasureData.reader combineLines sets c iter).getItem .exact pool k).1 = .error e := by
  obtain ⟨n, hn⟩ := Nat.exists_eq_add_one.mpr (maxCombines_pos (N := N) (c := c) (by omega) k)
  rw [getItem_combined hm hc hlen hk, hn, List.range_succ_eq_map, List.mapM_cons, Nat.add_zero, h,
    error_bind, error_bind]

/-- Chunks that can be read are added up. -/
theorem combined_of_chunks {m : MeasureData combineLines} {key n : ℕ} (hn : 0 < n)
    (hchunk : ∀ i < n, m.chunkAt .exact (key + i) =
      .ok (frameOf combineLines rows columns (raw columns sets (key + i)))) :
    (do
      let data ← (List.range n).mapM fun i => m.chunkAt .exact (key + i)
      reduce (Frame.add .exact) data) =
      .ok (frameOf combineLines rows columns
        (∑ i ∈ Finset.range n, raw columns sets (key + i))) := by
  have hchunks : (List.range n).mapM (fun i => m.chunkAt .exact (key + i)) =
      .ok (((List.range n).map fun i => raw columns sets (key + i)).map
        (frameOf combineLines rows columns)) := by
    rw [List.map_map]
    exact mapM_eq_ok fun i hi => hchunk i (List.mem_range.mp hi)
  obtain ⟨n, rfl⟩ : ∃ k, n = k + 1 := ⟨n - 1, by omega⟩
  have hrange : (List.range (n + 1)).map (fun i => raw columns sets (key + i)) =
      raw columns sets (key + 0) ::
        ((List.range n).map Nat.succ).map fun i => raw columns sets (key + i) := by
    rw [List.range_succ_eq_map, List.map_cons]
  rw [hchunks, ok_bind, hrange, List.map_cons, reduce, foldl_frameOf, ← List.sum_cons, ← hrange]
  rfl

/-- Chunks that exist are added up. -/
theorem combined_eq (iter key : ℕ) (hm : Measurement N rows columns sets)
    (hread : Readable combineLines rows columns) {n : ℕ} (hn : 0 < n) (hkey : key + n ≤ N) :
    (do
      let data ← (List.range n).mapM fun i =>
        (MeasureData.reader combineLines sets c iter).chunkAt .exact (key + i)
      reduce (Frame.add .exact) data) =
      .ok (frameOf combineLines rows columns
        (∑ i ∈ Finset.range n, raw columns sets (key + i))) :=
  combined_of_chunks hn fun _ hi =>
    chunkAt_eq (m := .reader combineLines sets c iter) hm rfl hread (by omega)

/-- **A frame of several**, for the keys up to the number of frames: the sum of the chunks from
the key on. -/
theorem getItem_eq (hm : Measurement N rows columns sets)
    (hread : Readable combineLines rows columns) (hc : 2 ≤ c) (hN : c < N) (hk : k ≤ N ⌈/⌉ c)
    (pool : Pool) :
    ((MeasureData.reader combineLines sets c iter).getItem .exact pool k).1 =
      .ok (frameOf combineLines rows columns
        (∑ i ∈ Finset.range (maxCombines N c k), raw columns sets (k + i))) := by
  have hlen := two_le_ceilDiv (by omega) hN
  rw [getItem_combined hm hc (by omega) hk pool]
  exact combined_eq iter k hm hread (maxCombines_pos (by omega) k) (key_add_le hc hN hk)

/-- Without items there is no frame. -/
theorem getItem_unreadable (hm : Measurement N rows columns sets)
    (hread : ¬ Readable combineLines rows columns) (hc : 0 < c) (hk : k < N ⌈/⌉ c) (pool : Pool)
    (frame : Frame ℕ combineLines) :
    ((MeasureData.reader combineLines sets c iter).getItem .exact pool k).1 ≠ .ok frame := by
  have hchunk : ∀ i < N, (MeasureData.reader combineLines sets c iter).chunkAt .exact i =
      .error .typeError := fun i hi =>
    chunkAt_unreadable (m := .reader combineLines sets c iter) hm rfl hread hi
  have hN : 0 < N := pos_of_lt_ceilDiv hk
  obtain rfl | hc2 : c = 1 ∨ 2 ≤ c := by omega
  · rw [getItem_one, hchunk k (by rwa [ceilDiv_one] at hk)]
    exact nofun
  obtain hNc | hNc := le_or_gt N c
  · rw [ceilDiv_eq_one hN hNc] at hk
    rw [getItem_image hm hc2 hN hNc hk.le, generateImage_blocked hm hN fun h => hread h.1]
    exact nofun
  · have hlen := two_le_ceilDiv hc hNc
    have hle := key_add_le hc2 hNc hk.le
    have hpos := maxCombines_pos (N := N) hc k
    rw [getItem_combined_error hm hc2 (by omega) hk.le pool (hchunk k (by omega))]
    exact nofun

/-! ### The sums -/

/-- The frames of a measurement that is not combined are its chunks. -/
theorem frameSum_one (hk : k < N) : frameSum columns sets N 1 k = raw columns sets k := by
  have hstop : min ((k + 1) * 1) N = k + 1 := by omega
  rw [frameSum, hstop, Nat.mul_one, Nat.Ico_succ_singleton, Finset.sum_singleton]

/-- The first frame. -/
theorem frameSum_zero :
    frameSum columns sets N c 0 = ∑ i ∈ Finset.range (min c N), raw columns sets i := by
  rw [frameSum, Nat.zero_mul, Nat.zero_add, Nat.one_mul, Finset.range_eq_Ico]

/-- Where the condition holds, the frame is the right sum. -/
theorem readFrame_eq (hm : Measurement N rows columns sets) (hc : 0 < c) (hk : k < N ⌈/⌉ c)
    (hread : Readable combineLines rows columns)
    (hrow : c ≠ 1 → N ≤ c → HasRow combineLines rows)
    (h : c = 1 ∨ N ≤ c ∨ k = 0 ∨ rows = 0 ∨ columns = 0) (pool : Pool) :
    readFrame combineLines sets c pool k =
      .ok (frameOf combineLines rows columns (frameSum columns sets N c k)) := by
  have hN : 0 < N := pos_of_lt_ceilDiv hk
  rw [readFrame_reader hc]
  obtain rfl | hc2 : c = 1 ∨ 2 ≤ c := by omega
  · rw [ceilDiv_one] at hk
    rw [getItem_one, frameSum_one hk]
    exact chunkAt_eq (m := .reader combineLines sets 1 0) hm rfl hread hk
  obtain hNc | hNc := le_or_gt N c
  · rw [ceilDiv_eq_one hN hNc] at hk
    obtain rfl : k = 0 := by omega
    rw [getItem_image hm hc2 hN hNc hk.le, frameSum_zero, Nat.min_eq_right hNc]
    exact generateImage_eq hm hN hread (hrow (by omega) hNc) pool
  · rw [getItem_eq hm hread hc2 hNc hk.le]
    refine congrArg Except.ok ?_
    obtain h1 | hle | rfl | hempty := h
    · omega
    · omega
    · have hfull : maxCombines N c 0 = c := if_neg fun h => by omega
      rw [hfull, frameSum_zero, Nat.min_eq_left hNc.le]
      simp only [Nat.zero_add]
    · exact frameOf_of_empty hempty _ _

/-- A single 1, in iteration `k`. -/
def oneAt (k iteration index : ℕ) : UInt32 := if iteration = k ∧ index = 0 then 1 else 0

theorem raw_oneAt {i : ℕ} (hi : i ≠ k) :
    raw columns (measurementFile N rows columns (oneAt k)) i = 0 := by
  funext set way
  by_cases hN : i < N
  · rw [raw_measurementFile hN]
    split
    · rw [oneAt, if_neg fun h => hi h.1]
      rfl
    · rfl
  · rw [raw, find_measurementFile, if_neg hN]
    rfl

/-- Frame `k > 0` of several has iteration `k` in it, which belongs to an earlier frame. -/
theorem readFrame_oneAt (hc : 2 ≤ c) (hN : c < N) (hk : k < N ⌈/⌉ c) (hk0 : k ≠ 0)
    (hrows : rows ≠ 0) (hcolumns : columns ≠ 0) (hread : Readable combineLines rows columns)
    (pool : Pool) :
    readFrame combineLines (measurementFile N rows columns (oneAt k)) c pool k ≠
      .ok (frameOf combineLines rows columns
        (frameSum columns (measurementFile N rows columns (oneAt k)) N c k)) := by
  intro h
  have hm : Measurement N rows columns (measurementFile N rows columns (oneAt k)) :=
    measurement_measurementFile
  have hzero : frameSum columns (measurementFile N rows columns (oneAt k)) N c k = 0 := by
    refine Finset.sum_eq_zero fun i hi => raw_oneAt ?_
    have hle := (Finset.mem_Ico.mp hi).1
    have hlt : k * 2 ≤ k * c := Nat.mul_le_mul_left k hc
    omega
  rw [readFrame_reader (by omega),
    getItem_eq hm hread hc hN hk.le, hzero] at h
  have hsum := eq_zero_of_frameOf hrows hcolumns (Except.ok.inj h)
  rw [Finset.sum_apply, Finset.sum_apply, Finset.sum_eq_zero_iff] at hsum
  have hfirst := hsum 0 (Finset.mem_range.mpr (maxCombines_pos (by omega) k))
  have hle := key_add_le hc hN hk.le
  have hpos := maxCombines_pos (N := N) (c := c) (by omega) k
  have hentry : 0 < rows.toNat * columns.toNat := by
    refine Nat.mul_pos ?_ ?_
    · exact Nat.pos_of_ne_zero fun h => hrows (UInt64.toNat_inj.mp h)
    · exact Nat.pos_of_ne_zero fun h => hcolumns (UInt64.toNat_inj.mp h)
  rw [Nat.add_zero, raw_measurementFile (by omega), Nat.zero_mul, Nat.zero_add,
    if_pos hentry] at hfirst
  exact absurd hfirst (by rw [oneAt, if_pos ⟨rfl, rfl⟩]; decide)

/-- One process. -/
def Pool.single : Pool := ⟨1, Nat.one_pos, [0], List.Perm.refl _⟩

/-- **Frame `k` is the right sum**, whatever the data sets of this shape contain, if and only if
nothing is combined, or everything is, or it is the first frame; or the data sets have no
entries. -/
theorem readFrame_iff (hc : 0 < c) (hk : k < N ⌈/⌉ c) :
    (∀ sets (pool : Pool), Measurement N rows columns sets →
      readFrame combineLines sets c pool k =
        .ok (frameOf combineLines rows columns (frameSum columns sets N c k))) ↔
      Readable combineLines rows columns ∧ (c ≠ 1 → N ≤ c → HasRow combineLines rows) ∧
        (c = 1 ∨ N ≤ c ∨ k = 0 ∨ rows = 0 ∨ columns = 0) := by
  refine ⟨fun h => ?_, fun ⟨hread, hrow, h⟩ sets pool hm => readFrame_eq hm hc hk hread hrow h pool⟩
  have hm : Measurement N rows columns (measurementFile N rows columns (oneAt k)) :=
    measurement_measurementFile
  have hframe := h _ .single hm
  rw [readFrame_reader hc] at hframe
  have hread : Readable combineLines rows columns := by
    by_contra hread
    exact getItem_unreadable hm hread hc hk .single _ hframe
  refine ⟨hread, fun hc1 hNc => ?_, ?_⟩
  · by_contra hrow
    have hN := pos_of_lt_ceilDiv hk
    rw [ceilDiv_eq_one hN hNc] at hk
    rw [getItem_image hm (by omega) hN hNc hk.le, generateImage_blocked hm hN fun h => hrow h.2]
      at hframe
    cases hframe
  · by_contra hcond
    simp only [not_or] at hcond
    obtain ⟨hc1, hNc, hk0, hrows, hcolumns⟩ := hcond
    exact readFrame_oneAt (by omega) (by omega) hk hk0 hrows hcolumns hread .single (h _ .single hm)

end

/-- Four iterations combined by two, in a heatmap of two ways: frame 1 is not the right sum for
all of them. -/
theorem readFrame_four_two_one :
    ¬ ∀ sets (pool : Pool), Measurement 4 2 2 sets → readFrame false sets 2 pool 1 =
      .ok (frameOf false 2 2 (frameSum 2 sets 4 2 1)) := by
  rw [readFrame_iff (by decide) (by decide)]
  decide

/-- Four iterations of one entry, `1, 2, 3, 4`. -/
def fourIterations : H5File := measurementFile 4 1 1 fun k _ => UInt32.ofNat (k + 1)

/-- Combined by two, the second frame has the sum `2 + 3`, and should have `3 + 4`. -/
theorem readFrame_fourIterations :
    Measurement 4 1 1 fourIterations ∧ 1 < 4 ⌈/⌉ 2 ∧
      readFrame true fourIterations 2 .single 1 = .ok [5] ∧
      frameOf true 1 1 (frameSum 1 fourIterations 4 2 1) = [7] ∧
      readFrame true fourIterations 2 .single 1 ≠
        .ok (frameOf true 1 1 (frameSum 1 fourIterations 4 2 1)) :=
  ⟨measurement_measurementFile, by decide, by decide, by decide, by decide⟩

end CacheNoise
