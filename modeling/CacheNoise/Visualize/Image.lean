import CacheNoise.Visualize.Combine

/-!
# The image

In image mode a file is read as a single frame, the sum of all its data sets. Several processes
compute it, each one for the iterations of its range; the ranges are a partition of the
iterations (`flatMap_workerRange`), for every number of processes. The other path of `__getitem__`
would compute the sum from one chunk after the other (`sequentialSum`).
-/

namespace CacheNoise

open Slices

/-! ### The ranges of the processes -/

/-- **The ranges are a partition**, in the order of the processes. Processes that have no
iterations left get an empty range. -/
theorem flatMap_workerRange (len : ℕ) {cpuCount : ℕ} (hpos : 0 < cpuCount) :
    (List.range cpuCount).flatMap (workerRange len cpuCount) = List.range len := by
  rw [funext (workerRange_eq len cpuCount)]
  exact flatMap_slices hpos

/-! ### One chunk after the other -/

section

variable {α : Type} (A : Arithmetic α)

/-- The sum of the first `N` chunks, as `__getitem__` computes it when there are several frames. -/
def sequentialSum (combineLines : Bool) (sets : H5File) (N : ℕ) :
    Except Raised (Frame α combineLines) := do
  let data ← (List.range N).mapM fun n =>
    (MeasureData.reader combineLines sets 1 0).chunkAt A (0 + n)
  reduce (Frame.add A) data

/-- `from_file` with `combine_all`, and then `[0]`. -/
def readImage (combineLines : Bool) (sets : H5File) (combines : ℤ) (pool : Pool) :
    Except Raised (Frame α combineLines) := do
  let m ← MeasureData.fromFile combineLines sets combines true
  (m.getItem A pool 0).1

end

section

variable {combineLines : Bool} {N : ℕ} {rows columns : UInt64} {sets : H5File}

theorem sequentialSum_eq (hm : Measurement N rows columns sets) (hN : 0 < N)
    (hread : Readable combineLines rows columns) :
    sequentialSum .exact combineLines sets N =
      .ok (frameOf combineLines rows columns (∑ i ∈ Finset.range N, raw columns sets i)) := by
  have hsum := combined_eq (c := 1) 0 0 hm hread hN (Nat.zero_add N).le
  rw [sequentialSum, hsum]
  simp only [Nat.zero_add]

/-- With one data set the image is read like any chunk, and with more it is the parallel sum. -/
theorem readImage_eq (hm : Measurement N rows columns sets) (hN : 0 < N) {combines : ℤ}
    (hcombines : 0 < combines) (pool : Pool) :
    readImage .exact combineLines sets combines pool =
      if N = 1 then (MeasureData.reader combineLines sets 1 0).chunkAt .exact 0
      else generateImage .exact combineLines sets pool := by
  have hfrom : MeasureData.fromFile combineLines sets combines true =
      .ok (.reader combineLines sets N 0) := by
    rw [MeasureData.fromFile, if_neg (by omega), if_pos rfl, hm.length_eq]
    rfl
  rw [readImage, hfrom, ok_bind]
  split
  · next hone =>
    rw [hone]
    exact getItem_one pool
  · next hone => rw [getItem_image hm (by omega) hN le_rfl (Nat.zero_le 1)]

end

/-- One data set with a column and no rows. -/
def noRows : H5File := measurementFile 1 0 1 fun _ _ => 0

end CacheNoise
