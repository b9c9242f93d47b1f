import CacheNoise.General.Related
import CacheNoise.General.Slices
import CacheNoise.Visualize
import Mathlib

/-!
# The frames of a measurement

A measurement is a file with the data sets `0, …, N-1` of one shape (`Measurement`). Every array
that the visualizer makes of it is the frame of a function of set and way (`frameOf`), and
adding frames is adding functions (`add_frameOf`). A chunk is the frame of the values of one
iteration (`chunkAt_eq`), and the parallel sum is the frame of the sum over all iterations
(`generateImage_eq`).
-/

namespace CacheNoise

open Related Slices

/-- `sets` has the data sets `0, …, N-1`, all of the shape `rows × columns`, and no others. -/
structure Measurement (N : ℕ) (rows columns : UInt64) (sets : H5File) : Prop where
  length_eq : sets.length = N
  present : ∀ k < N, ∃ d, sets.find? (fun d => d.name = toString k) = some d ∧
    d.dims = (rows, columns)
  absent : ∀ k, N ≤ k → sets.find? (fun d => d.name = toString k) = none

/-- The value that iteration `k` has for a set and a way. -/
def raw (columns : UInt64) (sets : H5File) (k set way : ℕ) : ℕ :=
  match sets.find? (fun d => d.name = toString k) with
  | none => 0
  | some d => ((d.contents.getD []).getD (set * columns.toNat + way) 0).toNat

/-- The chunks of this shape have items: with `combine_lines` there is none for an empty row. -/
def Readable (combineLines : Bool) (rows columns : UInt64) : Prop :=
  combineLines = true → rows = 0 ∨ columns ≠ 0

/-- The length of a row of this shape can be read off the first row. -/
def HasRow (combineLines : Bool) (rows : UInt64) : Prop := combineLines = false → rows ≠ 0

instance (combineLines : Bool) (rows columns : UInt64) :
    Decidable (Readable combineLines rows columns) :=
  inferInstanceAs (Decidable (combineLines = true → rows = 0 ∨ columns ≠ 0))

instance (combineLines : Bool) (rows : UInt64) : Decidable (HasRow combineLines rows) :=
  inferInstanceAs (Decidable (combineLines = false → rows ≠ 0))

/-- The item of a row. -/
def Item.ofRow : (combineLines : Bool) → List ℕ → Item ℕ combineLines
  | true, row => row.sum
  | false, row => row

/-- The frame of a function of set and way: its rows, or their sums with `combine_lines`. -/
def frameOf (combineLines : Bool) (rows columns : UInt64) (f : ℕ → ℕ → ℕ) :
    Frame ℕ combineLines :=
  (List.range rows.toNat).map fun set =>
    Item.ofRow combineLines ((List.range columns.toNat).map (f set))

/-! ### Adding frames -/

section

variable {combineLines : Bool} {rows columns : UInt64}

theorem add_ofRow (l : List ℕ) (f g : ℕ → ℕ) :
    Item.add .exact (Item.ofRow combineLines (l.map f)) (Item.ofRow combineLines (l.map g)) =
      Item.ofRow combineLines (l.map (f + g)) := by
  cases combineLines with
  | true => exact (List.sum_map_add).symm
  | false =>
    change List.zipWith (· + ·) (l.map f) (l.map g) = l.map (f + g)
    rw [List.zipWith_map, List.zipWith_self]
    rfl

/-- **Adding frames is adding functions.** -/
theorem add_frameOf (f g : ℕ → ℕ → ℕ) :
    Frame.add .exact (frameOf combineLines rows columns f) (frameOf combineLines rows columns g) =
      frameOf combineLines rows columns (f + g) := by
  rw [Frame.add, frameOf, frameOf, List.zipWith_map, List.zipWith_self]
  refine List.map_congr_left fun set _ => ?_
  exact add_ofRow _ _ _

theorem foldl_frameOf (f : ℕ → ℕ → ℕ) (fs : List (ℕ → ℕ → ℕ)) :
    (fs.map (frameOf combineLines rows columns)).foldl (Frame.add .exact)
      (frameOf combineLines rows columns f) = frameOf combineLines rows columns (f + fs.sum) := by
  induction fs generalizing f with
  | nil => rw [List.sum_nil, add_zero]; rfl
  | cons g fs ih => rw [List.map_cons, List.foldl_cons, add_frameOf, ih, List.sum_cons, add_assoc]

theorem toNat_eq_succ {x : UInt64} (hx : x ≠ 0) : ∃ n, x.toNat = n + 1 :=
  Nat.exists_eq_succ_of_ne_zero fun h => hx (UInt64.toNat_inj.mp h)

/-- A frame of zeros is the frame of a function that is 0 at the first way of the first set. -/
theorem eq_zero_of_frameOf (hrows : rows ≠ 0) (hcolumns : columns ≠ 0) {f : ℕ → ℕ → ℕ}
    (h : frameOf combineLines rows columns f = frameOf combineLines rows columns 0) :
    f 0 0 = 0 := by
  obtain ⟨r, hr⟩ := toNat_eq_succ hrows
  obtain ⟨c, hc⟩ := toNat_eq_succ hcolumns
  rw [frameOf, frameOf, hr, hc, List.range_succ_eq_map, List.range_succ_eq_map, List.map_cons,
    List.map_cons] at h
  have hrow := (List.cons.inj h).1
  cases combineLines with
  | true =>
    have hzero : ∀ l : List ℕ, (l.map (0 : ℕ → ℕ)).sum = 0 := fun l =>
      List.sum_eq_zero (by simp)
    change (f 0 0 :: _).sum = (0 :: List.map (0 : ℕ → ℕ) _).sum at hrow
    rw [List.sum_cons, List.sum_cons, hzero] at hrow
    omega
  | false => exact (List.cons.inj hrow).1

/-- Frames without entries are equal. -/
theorem frameOf_of_empty (h : rows = 0 ∨ columns = 0) (f g : ℕ → ℕ → ℕ) :
    frameOf combineLines rows columns f = frameOf combineLines rows columns g := by
  obtain rfl | rfl := h
  · rfl
  · rfl

end

/-! ### Chunks -/

@[simp]
theorem ok_bind {α β : Type} (a : α) (f : α → Except Raised β) : (Except.ok a >>= f) = f a := rfl

@[simp]
theorem error_bind {α β : Type} (e : Raised) (f : α → Except Raised β) :
    ((Except.error e : Except Raised α) >>= f) = .error e := rfl

theorem reduce_sum {row : List ℕ} (h : row ≠ []) :
    reduce (fun x y => Arithmetic.exact.add (Arithmetic.exact.uint64 x)
      (Arithmetic.exact.uint64 y)) row = .ok row.sum := by
  have hfold : ∀ (xs : List ℕ) (x : ℕ), xs.foldl (· + ·) x = x + xs.sum := by
    intro xs
    induction xs with
    | nil => intro x; rfl
    | cons y xs ih => intro x; rw [List.foldl_cons, ih, List.sum_cons, add_assoc]
  obtain ⟨x, xs, rfl⟩ := List.exists_cons_of_ne_nil h
  rw [List.sum_cons, ← hfold xs x]
  rfl

section

variable {combineLines : Bool} {rows columns : UInt64} {m : MeasureData combineLines} {k : ℕ}
  {d : DataSet}

/-- A chunk is read from its data set. -/
theorem chunkAt_items (hopen : m.file.closed = false)
    (hd : m.file.sets.find? (fun d => d.name = toString k) = some d)
    (hdims : d.dims = (rows, columns)) :
    m.chunkAt .exact k = items .exact ((List.range rows.toNat).map fun set =>
      (List.range columns.toNat).map (raw columns m.file.sets k set)) combineLines := by
  have hget : m.file.get (toString k) = .ok d := by
    rw [H5pyFile.get, hopen, hd]
    rfl
  have hraw : raw columns m.file.sets k = fun set way =>
      ((d.contents.getD []).getD (set * columns.toNat + way) 0).toNat := by
    unfold raw
    rw [hd]
  rw [MeasureData.chunkAt, hget, ok_bind, DataSet.rows, hdims, hraw]
  rfl

/-- **The chunk of a data set** is the frame of its values. -/
theorem chunkAt_present (hopen : m.file.closed = false) (hread : Readable combineLines rows columns)
    (hd : m.file.sets.find? (fun d => d.name = toString k) = some d)
    (hdims : d.dims = (rows, columns)) :
    m.chunkAt .exact k =
      .ok (frameOf combineLines rows columns (raw columns m.file.sets k)) := by
  rw [chunkAt_items hopen hd hdims]
  cases combineLines with
  | true =>
    rw [items, mapM_eq_ok (g := List.sum)]
    · rw [List.map_map]
      rfl
    · intro row hrow
      obtain ⟨set, hset, rfl⟩ := List.mem_map.mp hrow
      refine reduce_sum fun hnil => ?_
      rw [List.map_eq_nil_iff, List.range_eq_nil] at hnil
      obtain rfl | hcolumns := hread rfl
      · cases hset
      · exact hcolumns (UInt64.toNat_inj.mp hnil)
  | false =>
    rw [items, List.map_map]
    refine congrArg Except.ok (List.map_congr_left fun set _ => ?_)
    exact List.map_id _

/-- There is no chunk without a data set. -/
theorem chunkAt_missing (hopen : m.file.closed = false)
    (hnone : m.file.sets.find? (fun d => d.name = toString k) = none) {α : Type}
    (A : Arithmetic α) : m.chunkAt A k = .error .keyError := by
  rw [MeasureData.chunkAt, H5pyFile.get, hopen, hnone]
  rfl

end

section

variable {combineLines : Bool} {N : ℕ} {rows columns : UInt64} {m : MeasureData combineLines}

/-- **The chunk of an iteration** is the frame of its values. -/
theorem chunkAt_eq (hm : Measurement N rows columns m.file.sets) (hopen : m.file.closed = false)
    (hread : Readable combineLines rows columns) {k : ℕ} (hk : k < N) :
    m.chunkAt .exact k =
      .ok (frameOf combineLines rows columns (raw columns m.file.sets k)) := by
  obtain ⟨d, hd, hdims⟩ := hm.present k hk
  exact chunkAt_present hopen hread hd hdims

/-- Without items, reading a chunk fails. -/
theorem chunkAt_unreadable (hm : Measurement N rows columns m.file.sets)
    (hopen : m.file.closed = false) (hread : ¬ Readable combineLines rows columns) {k : ℕ}
    (hk : k < N) : m.chunkAt .exact k = .error .typeError := by
  obtain ⟨d, hd, hdims⟩ := hm.present k hk
  rw [chunkAt_items hopen hd hdims]
  obtain ⟨rfl, hshape⟩ := Classical.not_imp.mp hread
  obtain ⟨hrows, hcolumns⟩ := not_or.mp hshape
  obtain ⟨r, hr⟩ := toNat_eq_succ hrows
  rw [not_not.mp hcolumns, hr, List.range_succ_eq_map, List.map_cons, items, List.mapM_cons]
  rfl

/-- There are no other chunks. -/
theorem chunkAt_absent (hm : Measurement N rows columns m.file.sets)
    (hopen : m.file.closed = false) {k : ℕ} (hk : N ≤ k) {α : Type} (A : Arithmetic α) :
    m.chunkAt A k = .error .keyError :=
  chunkAt_missing hopen (hm.absent k hk) A

/-- Only chunks that do not exist raise a `KeyError`. -/
theorem le_of_chunkAt_keyError (hm : Measurement N rows columns m.file.sets)
    (hopen : m.file.closed = false) {k : ℕ} (h : m.chunkAt .exact k = .error .keyError) :
    N ≤ k := by
  refine Nat.le_of_not_lt fun hk => ?_
  by_cases hread : Readable combineLines rows columns
  · rw [chunkAt_eq hm hopen hread hk] at h
    cases h
  · rw [chunkAt_unreadable hm hopen hread hk] at h
    cases h

end

/-! ### The parallel sum -/

/-- `range(start, end)` of a worker. -/
def workerRange (len cpuCount coreId : ℕ) : List ℕ :=
  let start := (len ⌈/⌉ cpuCount) * coreId
  let stop := (len ⌈/⌉ cpuCount) * (coreId + 1)
  let stop := if len ≤ stop then stop - (stop - len) else stop
  List.range' start (stop - start)

theorem workerRange_eq (len cpuCount coreId : ℕ) :
    workerRange len cpuCount coreId = slice len (len ⌈/⌉ cpuCount) coreId := by
  have hclamp : ∀ stop : ℕ, (if len ≤ stop then stop - (stop - len) else stop) = min len stop := by
    intro stop
    split <;> omega
  rw [workerRange, slice]
  simp only [hclamp]

/-- An image worker adds the chunks of its range to an array of zeros. -/
theorem imageWorker_range {α : Type} (A : Arithmetic α) (combineLines : Bool) (sets : H5File)
    (cpuCount coreId : ℕ) :
    imageWorker A combineLines sets cpuCount coreId = (do
      let measurement ← MeasureData.fromFile combineLines sets 1 false
      let len ← measurement.len
      let first ← measurement.chunkAt A 0
      let result ← zeros A first
      (workerRange len cpuCount coreId).foldlM
        (fun result i => do
          let chunk ← measurement.chunkAt A i
          pure (Frame.add A result chunk)) result) := rfl

section

variable {combineLines : Bool} {N : ℕ} {rows columns : UInt64} {sets : H5File}

theorem zeros_frameOf (hrows : HasRow combineLines rows) (f : ℕ → ℕ → ℕ) :
    zeros .exact (frameOf combineLines rows columns f) =
      .ok (frameOf combineLines rows columns 0) := by
  have hconst : ∀ {β : Type} (b : β) (l : List ℕ), List.replicate l.length b = l.map fun _ => b :=
    fun b l => (List.map_const' ..).symm
  cases combineLines with
  | true =>
    have hsum : ((List.range columns.toNat).map (0 : ℕ → ℕ)).sum = 0 :=
      List.sum_eq_zero (by simp)
    rw [zeros, frameOf, List.length_map, hconst]
    refine congrArg Except.ok (List.map_congr_left fun set _ => ?_)
    exact hsum.symm
  | false =>
    obtain ⟨r, hr⟩ := toNat_eq_succ (hrows rfl)
    rw [frameOf, hr, List.range_succ_eq_map, List.map_cons, zeros, List.length_map]
    refine congrArg Except.ok ?_
    have hrow : List.replicate ((List.range columns.toNat).map (f 0)).length 0 =
        (List.range columns.toNat).map (0 : ℕ → ℕ) := by
      rw [List.length_map, hconst]
      rfl
    change List.replicate _ (List.replicate ((List.range columns.toNat).map (f 0)).length 0) = _
    rw [hrow, List.length_map, List.length_range, frameOf, hr]
    have hrows' := hconst ((List.range columns.toNat).map (0 : ℕ → ℕ)) (List.range (r + 1))
    rw [List.length_range] at hrows'
    exact hrows'

/-- A worker adds up its slice. -/
theorem imageWorker_eq (hm : Measurement N rows columns sets) (hN : 0 < N)
    (hread : Readable combineLines rows columns) (hrows : HasRow combineLines rows)
    (cpuCount coreId : ℕ) :
    imageWorker .exact combineLines sets cpuCount coreId = .ok (frameOf combineLines rows columns
      ((slice N (N ⌈/⌉ cpuCount) coreId).map (raw columns sets)).sum) := by
  set m : MeasureData combineLines := ⟨⟨sets, false⟩, 0, 1⟩ with hmdef
  have hchunk : ∀ k < N, m.chunkAt .exact k =
      .ok (frameOf combineLines rows columns (raw columns sets k)) := fun k hk =>
    chunkAt_eq (m := m) hm rfl hread hk
  have hlen : m.len = .ok N := by
    change Except.ok (sets.length ⌈/⌉ 1) = _
    rw [hm.length_eq, ceilDiv_one]
  have hfold : ∀ (l : List ℕ), (∀ i ∈ l, i < N) → ∀ f : ℕ → ℕ → ℕ,
      l.foldlM (fun result i => do
        let chunk ← m.chunkAt .exact i
        pure (Frame.add .exact result chunk)) (frameOf combineLines rows columns f) =
      .ok (frameOf combineLines rows columns (f + (l.map (raw columns sets)).sum)) := by
    intro l hl
    induction l with
    | nil => intro f; rw [List.map_nil, List.sum_nil, add_zero]; rfl
    | cons i l ih =>
      intro f
      rw [List.foldlM_cons, hchunk i (hl i List.mem_cons_self)]
      change List.foldlM _ (Frame.add _ _ _) l = _
      rw [add_frameOf, ih fun j hj => hl j (List.mem_cons_of_mem i hj), List.map_cons,
        List.sum_cons, add_assoc]
  have hmem : ∀ i ∈ slice N (N ⌈/⌉ cpuCount) coreId, i < N := by
    intro i hi
    rw [slice, List.mem_range'_1] at hi
    omega
  have hfrom : MeasureData.fromFile combineLines sets 1 false = .ok m := rfl
  simp only [imageWorker_range, hfrom, ok_bind, hlen, hchunk 0 hN, zeros_frameOf hrows,
    workerRange_eq]
  rw [← zero_add (List.sum _)]
  exact hfold _ hmem 0

/-- **The parallel sum** is the sum of all iterations, for every number of processes and every
order of their results. -/
theorem generateImage_eq (hm : Measurement N rows columns sets) (hN : 0 < N)
    (hread : Readable combineLines rows columns) (hrows : HasRow combineLines rows) (pool : Pool) :
    generateImage .exact combineLines sets pool =
      .ok (frameOf combineLines rows columns (∑ i ∈ Finset.range N, raw columns sets i)) := by
  have hworkers : pool.arrivals.mapM (imageWorker .exact combineLines sets pool.cpuCount) = _ :=
    mapM_eq_ok fun i _ => imageWorker_eq hm hN hread hrows pool.cpuCount i
  have hlength := pool.arrivals_perm.length_eq
  rw [List.length_range] at hlength
  rw [generateImage, hworkers, ← sum_slices_perm _ pool.cpuCount_pos pool.arrivals_perm]
  rcases harrivals : pool.arrivals with _ | ⟨i, is⟩
  · rw [harrivals] at hlength
    exact absurd hlength.symm (Nat.ne_of_gt pool.cpuCount_pos)
  · have hmap := @foldl_frameOf combineLines rows columns
      ((slice N (N ⌈/⌉ pool.cpuCount) i).map (raw columns sets)).sum
      (is.map fun i => ((slice N (N ⌈/⌉ pool.cpuCount) i).map (raw columns sets)).sum)
    rw [List.map_map] at hmap
    exact congrArg Except.ok hmap

/-- A worker that finds no items, or no row, dies. -/
theorem imageWorker_error (hm : Measurement N rows columns sets) (hN : 0 < N)
    (h : ¬ (Readable combineLines rows columns ∧ HasRow combineLines rows)) (cpuCount coreId : ℕ) :
    ∃ e, imageWorker .exact combineLines sets cpuCount coreId = .error e := by
  set m : MeasureData combineLines := ⟨⟨sets, false⟩, 0, 1⟩
  have hfrom : MeasureData.fromFile combineLines sets 1 false = .ok m := rfl
  have hlen : m.len = .ok (sets.length ⌈/⌉ 1) := rfl
  by_cases hread : Readable combineLines rows columns
  · obtain ⟨rfl, hrows⟩ := Classical.not_imp.mp fun hrow => h ⟨hread, hrow⟩
    obtain rfl := not_not.mp hrows
    refine ⟨.indexError, ?_⟩
    simp only [imageWorker, hfrom, hlen, ok_bind, chunkAt_eq (m := m) hm rfl hread hN]
    rfl
  · refine ⟨.typeError, ?_⟩
    simp only [imageWorker, hfrom, hlen, ok_bind, chunkAt_unreadable (m := m) hm rfl hread hN,
      error_bind]

/-- **The parallel sum of data sets without entries** waits for ever, if it has to look for one. -/
theorem generateImage_blocked (hm : Measurement N rows columns sets) (hN : 0 < N)
    (h : ¬ (Readable combineLines rows columns ∧ HasRow combineLines rows)) (pool : Pool) :
    generateImage .exact combineLines sets pool = .error .blocked := by
  rw [generateImage]
  rcases harrivals : pool.arrivals with _ | ⟨i, is⟩
  · rfl
  · obtain ⟨e, he⟩ := imageWorker_error hm hN h pool.cpuCount i
    rw [List.mapM_cons, he]
    rfl

end

/-! ### A measurement -/

/-- A measurement with these values, by iteration and index. -/
def measurementFile (N : ℕ) (rows columns : UInt64) (data : ℕ → ℕ → UInt32) : H5File :=
  (List.range N).map fun k =>
    { name := toString k, handle := 0, fileType := .stdU32Be, dims := (rows, columns)
      contents := some ((List.range (rows.toNat * columns.toNat)).map fun i => (data k i).toNat) }

section

variable {N : ℕ} {rows columns : UInt64} {data : ℕ → ℕ → UInt32}

theorem find_measurementFile (k : ℕ) :
    (measurementFile N rows columns data).find? (fun d => d.name = toString k) =
      if k < N then
        some { name := toString k, handle := 0, fileType := .stdU32Be, dims := (rows, columns)
               contents := some ((List.range (rows.toNat * columns.toNat)).map
                 fun i => (data k i).toNat) }
      else none := by
  have hname : ∀ i : ℕ, decide (toString i = toString k) = decide (i = k) := fun i =>
    decide_eq_decide.mpr ⟨fun h => Nat.repr_injective h, fun h => h ▸ rfl⟩
  rw [measurementFile, List.find?_map]
  simp only [Function.comp_def, hname]
  split
  · next hk =>
    rw [List.find?_range_eq_some.mpr ⟨by simp, List.mem_range.mpr hk, by simp; omega⟩]
    rfl
  · next hk =>
    rw [List.find?_range_eq_none.mpr fun i hi => by simp; omega]
    rfl

theorem measurement_measurementFile :
    Measurement N rows columns (measurementFile N rows columns data) where
  length_eq := by rw [measurementFile, List.length_map, List.length_range]
  present k hk := ⟨_, (find_measurementFile k).trans (if_pos hk), rfl⟩
  absent k hk := (find_measurementFile k).trans (if_neg (Nat.not_lt.mpr hk))

theorem raw_measurementFile {k : ℕ} (hk : k < N) (set way : ℕ) :
    raw columns (measurementFile N rows columns data) k set way =
      if set * columns.toNat + way < rows.toNat * columns.toNat then
        (data k (set * columns.toNat + way)).toNat
      else 0 := by
  unfold raw
  rw [find_measurementFile, if_pos hk]
  change Int.toNat (List.getD (List.map _ _) _ 0) = _
  rw [List.getD_eq_getElem?_getD, List.getElem?_map]
  split
  · next h =>
    rw [List.getElem?_range h]
    rfl
  · next h =>
    rw [List.getElem?_eq_none (by simpa using h)]
    rfl

end

end CacheNoise
