import CacheNoise.General.Numbers
import CacheNoise.General.Related
import CacheNoise.Visualize.RowSums

/-!
# The widths of numpy

The readers once more, in the arithmetic of numpy: the elements of the data sets are `uint32`, they
are widened to `uint64`, and the arrays of zeros of the parallel sum are `float64`. Additions with
an operand that is not a `uint32` are exact below `2 ^ 53` (`wide_add`).

A row of a single way is not widened, since there is nothing to fold. Where the bars of such a file
are combined, they are added as `uint32` (`getItem_wrapped`), and a frame is right exactly if its
sums are below `2 ^ 32` (`neverTruncates_iff`).
-/

namespace CacheNoise

open Numbers Related

/-! ### Scalars -/

/-- The types that occur. -/
inductive Width
  | uint32
  | uint64
  | float64
  deriving DecidableEq

/-- A numpy scalar. None is negative, and the doubles are integers. -/
structure Scalar where
  width : Width
  value : ℕ
  deriving DecidableEq

/-- The scalar as a double. -/
def Scalar.toDouble (x : Scalar) : ℕ := if x.width = .float64 then x.value else float64 x.value

/-- The sum has the wider one of the two types. -/
def Scalar.add (x y : Scalar) : Scalar :=
  if x.width = .float64 ∨ y.width = .float64 then ⟨.float64, float64 (x.toDouble + y.toDouble)⟩
  else if x.width = .uint64 ∨ y.width = .uint64 then ⟨.uint64, (x.value + y.value) % 2 ^ 64⟩
  else ⟨.uint32, (x.value + y.value) % 2 ^ 32⟩

/-- The arithmetic of numpy on a data set of `H5T_STD_U32BE`. -/
def Arithmetic.numpy : Arithmetic Scalar where
  stored z := ⟨.uint32, z.toNat % 2 ^ 32⟩
  uint64 x := ⟨.uint64, x.value % 2 ^ 64⟩
  zero := ⟨.float64, 0⟩
  add := Scalar.add

/-! ### Scalars and exact numbers -/

/-- The scalar is the number, if this is below `2 ^ 53`. -/
def IsExact (x : Scalar) (n : ℕ) : Prop := n < 2 ^ 53 → x.value = n

/-- An element of a data set. -/
def Stored (x : Scalar) (n : ℕ) : Prop := x = ⟨.uint32, n⟩ ∧ n < 2 ^ 32

/-- An exact number of one of the wider types. -/
def Wide (x : Scalar) (n : ℕ) : Prop := x.width ≠ .uint32 ∧ IsExact x n

/-- A number modulo `2 ^ 32`. -/
def Wrapped (x : Scalar) (n : ℕ) : Prop := x = ⟨.uint32, n % 2 ^ 32⟩

section

variable {x y : Scalar} {m n : ℕ}

theorem Stored.isExact (h : Stored x n) : IsExact x n := fun _ => congrArg Scalar.value h.1

theorem Stored.wrapped (h : Stored x n) : Wrapped x n := by
  rw [Wrapped, Nat.mod_eq_of_lt h.2]
  exact h.1

theorem IsExact.toDouble (h : IsExact x n) (hn : n < 2 ^ 53) : x.toDouble = n := by
  rw [Scalar.toDouble, h hn, float64_of_lt hn, ite_self]

/-- **Additions are exact** if one of the operands is wide. -/
theorem wide_add (hx : IsExact x m) (hy : IsExact y n)
    (hwidth : x.width ≠ .uint32 ∨ y.width ≠ .uint32) : Wide (x.add y) (m + n) := by
  have hbelow : m + n < 2 ^ 53 → m < 2 ^ 53 ∧ n < 2 ^ 53 := by omega
  rw [Scalar.add]
  split_ifs with hdouble hlong
  · refine ⟨Width.noConfusion, fun h => ?_⟩
    obtain ⟨hm, hn⟩ := hbelow h
    rw [hx.toDouble hm, hy.toDouble hn, float64_of_lt h]
  · refine ⟨Width.noConfusion, fun h => ?_⟩
    obtain ⟨hm, hn⟩ := hbelow h
    rw [hx hm, hy hn]
    exact Nat.mod_eq_of_lt (by omega)
  · exfalso
    rcases x with ⟨_ | _ | _, _⟩ <;> rcases y with ⟨_ | _ | _, _⟩ <;> simp at hdouble hlong hwidth

theorem Wide.add (hx : Wide x m) (hy : Wide y n) : Wide (x.add y) (m + n) :=
  wide_add hx.2 hy.2 (.inl hx.1)

theorem Wrapped.add (hx : Wrapped x m) (hy : Wrapped y n) : Wrapped (x.add y) (m + n) := by
  rw [Wrapped] at *
  rw [hx, hy, Nat.add_mod]
  rfl

/-- Widening makes a number wide. -/
theorem IsExact.uint64 (h : IsExact x n) : Wide (Arithmetic.numpy.uint64 x) n := by
  refine ⟨Width.noConfusion, fun hn => ?_⟩
  change x.value % 2 ^ 64 = n
  rw [h hn, Nat.mod_eq_of_lt (by omega)]

/-- A number modulo `2 ^ 32` is exact if it is below `2 ^ 32`. -/
theorem Wrapped.isExact_iff (h : Wrapped x n) : IsExact x n ↔ (n < 2 ^ 53 → n < 2 ^ 32) := by
  rw [IsExact, congrArg Scalar.value h]
  exact imp_congr_right fun _ => ⟨fun heq => heq ▸ Nat.mod_lt n (by decide), Nat.mod_eq_of_lt⟩

end

theorem forall₂_isExact_iff {xs : List Scalar} {ns : List ℕ} (h : List.Forall₂ Wrapped xs ns) :
    List.Forall₂ IsExact xs ns ↔ ∀ n ∈ ns, n < 2 ^ 53 → n < 2 ^ 32 := by
  induction h with
  | nil => exact iff_of_true .nil fun n hn => absurd hn List.not_mem_nil
  | cons h _ ih => rw [List.forall₂_cons, List.forall_mem_cons, h.isExact_iff, ih]

/-! ### Frames -/

/-- Items with related entries. -/
def itemRel (R : Scalar → ℕ → Prop) : (combineLines : Bool) → Item Scalar combineLines →
    Item ℕ combineLines → Prop
  | true => R
  | false => List.Forall₂ R

/-- Frames with related entries. -/
abbrev FrameRel (R : Scalar → ℕ → Prop) (combineLines : Bool) :
    Frame Scalar combineLines → Frame ℕ combineLines → Prop :=
  List.Forall₂ (itemRel R combineLines)

section

variable {R S T : Scalar → ℕ → Prop} {combineLines : Bool}

theorem FrameRel.mono (h : ∀ x n, R x n → S x n) {f : Frame Scalar combineLines}
    {g : Frame ℕ combineLines} (hfg : FrameRel R combineLines f g) :
    FrameRel S combineLines f g := by
  refine hfg.imp fun x n hxn => ?_
  cases combineLines with
  | true => exact h x n hxn
  | false => exact List.Forall₂.imp h hxn

/-- Frames are added entry by entry. -/
theorem frameRel_add (hadd : ∀ x m y n, R x m → S y n → T (x.add y) (m + n))
    {f f' : Frame Scalar combineLines} {g g' : Frame ℕ combineLines}
    (hfg : FrameRel R combineLines f g) (hfg' : FrameRel S combineLines f' g') :
    FrameRel T combineLines (Frame.add .numpy f f') (Frame.add .exact g g') := by
  refine forall₂_zipWith (fun a b c d hab hcd => ?_) hfg hfg'
  cases combineLines with
  | true => exact hadd _ _ _ _ hab hcd
  | false => exact forall₂_zipWith hadd hab hcd

theorem zeros_related {f : Frame Scalar combineLines} {g : Frame ℕ combineLines}
    (h : FrameRel R combineLines f g) :
    Results (FrameRel Wide combineLines) (zeros .numpy f) (zeros .exact g) := by
  have hzero : Wide Arithmetic.numpy.zero Arithmetic.exact.zero :=
    ⟨Width.noConfusion, fun _ => rfl⟩
  cases combineLines with
  | true =>
    rw [zeros, zeros, h.length_eq]
    exact .ok (forall₂_replicate hzero _)
  | false =>
    cases h with
    | nil => exact .error _
    | cons hrow hrows =>
      rw [zeros, zeros, hrows.length_eq, List.Forall₂.length_eq hrow]
      exact .ok (forall₂_replicate (forall₂_replicate hzero _) _)

/-- `reduce` over frames, with a relation that addition keeps. -/
theorem reduce_related (hadd : ∀ x m y n, R x m → R y n → R (x.add y) (m + n))
    {fs : List (Frame Scalar combineLines)} {gs : List (Frame ℕ combineLines)}
    (h : List.Forall₂ (FrameRel R combineLines) fs gs) :
    Results (FrameRel R combineLines) (reduce (Frame.add .numpy) fs)
      (reduce (Frame.add .exact) gs) := by
  have hstep : Relator.LiftFun (FrameRel R combineLines)
      (Relator.LiftFun (FrameRel R combineLines) (FrameRel R combineLines))
      (Frame.add .numpy) (Frame.add .exact) := fun _ _ h _ _ h' => frameRel_add hadd h h'
  cases h with
  | nil => exact .error _
  | cons hfirst hrest => exact .ok (List.rel_foldl hstep hfirst hrest)

end

/-! ### Chunks -/

/-- The elements of the data sets are those of `H5T_STD_U32BE`. -/
def InRange (sets : H5File) : Prop :=
  ∀ d ∈ sets, ∀ z ∈ d.contents.getD [], 0 ≤ z ∧ z < 2 ^ 32

instance (sets : H5File) : Decidable (InRange sets) :=
  inferInstanceAs (Decidable (∀ d ∈ sets, ∀ z ∈ d.contents.getD [], 0 ≤ z ∧ z < 2 ^ 32))

section

variable {combineLines : Bool} {c k iter : ℕ} {rows columns : UInt64} {sets : H5File}

/-- The rows of a data set. -/
theorem rows_related {d : DataSet} (hrange : ∀ z ∈ d.contents.getD [], 0 ≤ z ∧ z < 2 ^ 32) :
    List.Forall₂ (fun row row' => List.Forall₂ Stored row row' ∧ row'.length = d.dims.2.toNat)
      (d.rows .numpy) (d.rows .exact) := by
  have hstored : ∀ i, Stored (Arithmetic.numpy.stored ((d.contents.getD []).getD i 0))
      (Arithmetic.exact.stored ((d.contents.getD []).getD i 0)) := by
    intro i
    have hlt : ((d.contents.getD []).getD i 0).toNat < 2 ^ 32 := by
      rcases lt_or_ge i (d.contents.getD []).length with hi | hi
      · rw [List.getD_eq_getElem _ _ hi]
        have hz := hrange _ (List.getElem_mem hi)
        omega
      · rw [List.getD_eq_default _ _ hi]
        decide
    refine ⟨?_, hlt⟩
    change (⟨.uint32, _ % 2 ^ 32⟩ : Scalar) = ⟨.uint32, _⟩
    rw [Nat.mod_eq_of_lt hlt]
    rfl
  rw [DataSet.rows, DataSet.rows, List.forall₂_map_left_iff, List.forall₂_map_right_iff,
    List.forall₂_same]
  intro r _
  refine ⟨?_, by rw [List.length_map, List.length_range]⟩
  rw [List.forall₂_map_left_iff, List.forall₂_map_right_iff, List.forall₂_same]
  exact fun _ _ => hstored _

/-- The function that folds a row. -/
abbrev widenAdd {α : Type} (A : Arithmetic α) (x y : α) : α := A.add (A.uint64 x) (A.uint64 y)

/-- The fold over a row that has more than one way widens it. -/
theorem reduce_wide {row : List Scalar} {row' : List ℕ} (h : List.Forall₂ Stored row row')
    (hlength : row'.length ≠ 1) :
    Results Wide (reduce (widenAdd .numpy) row) (reduce (widenAdd .exact) row') := by
  have hstep : Relator.LiftFun Wide (Relator.LiftFun Stored Wide) (widenAdd .numpy)
      (widenAdd .exact) := fun _ _ h _ _ h' => h.2.uint64.add h'.isExact.uint64
  cases h with
  | nil => exact .error _
  | cons hx hrest =>
    cases hrest with
    | nil => exact absurd rfl hlength
    | cons hy hrest =>
      have hsum := hx.isExact.uint64.add hy.isExact.uint64
      exact .ok (List.rel_foldl hstep hsum hrest)

/-- A single way is left as it is. -/
theorem reduce_stored {row : List Scalar} {row' : List ℕ} (h : List.Forall₂ Stored row row')
    (hlength : row'.length = 1) :
    Results Stored (reduce (widenAdd .numpy) row) (reduce (widenAdd .exact) row') := by
  cases h with
  | nil => cases hlength
  | cons hx hrest =>
    cases hrest with
    | nil => exact .ok hx
    | cons => cases hlength

/-- Chunks are related if their items are. -/
theorem chunkAt_related {R : Scalar → ℕ → Prop}
    (hitems : ∀ d ∈ sets, Results (FrameRel R combineLines)
      (items .numpy (d.rows .numpy) combineLines) (items .exact (d.rows .exact) combineLines))
    (k : ℕ) :
    Results (FrameRel R combineLines)
      ((MeasureData.reader combineLines sets c iter).chunkAt .numpy k)
      ((MeasureData.reader combineLines sets c iter).chunkAt .exact k) := by
  by_cases hk : Present sets k
  · obtain ⟨d, hd⟩ := Option.isSome_iff_exists.mp hk
    have hget : (MeasureData.reader combineLines sets c iter).file.get (toString k) = .ok d := by
      rw [H5pyFile.get, MeasureData.reader, if_neg Bool.false_ne_true, hd]
    rw [MeasureData.chunkAt, MeasureData.chunkAt, hget]
    exact hitems d (List.mem_of_find?_eq_some hd)
  · rw [chunkAt_of_not_present hk, chunkAt_of_not_present hk]
    exact .error _

/-- The entries of a chunk are wide, if it is not a bar chart of a single way. -/
theorem chunkAt_wide (hshape : Shaped rows columns sets) (hrange : InRange sets)
    (h : ¬ (combineLines = true ∧ columns = 1)) (k : ℕ) :
    Results (FrameRel Wide combineLines)
      ((MeasureData.reader combineLines sets c iter).chunkAt .numpy k)
      ((MeasureData.reader combineLines sets c iter).chunkAt .exact k) := by
  refine chunkAt_related (fun d hd => ?_) k
  have hrows := rows_related (hrange d hd)
  cases combineLines with
  | true =>
    have hcolumns : d.dims.2.toNat ≠ 1 := by
      rw [hshape d hd]
      exact fun hone => h ⟨rfl, UInt64.toNat_inj.mp hone⟩
    exact Results.mapM (fun row row' hrow => reduce_wide hrow.1 (hrow.2 ▸ hcolumns)) hrows
  | false =>
    refine .ok (List.forall₂_map_left_iff.mpr (List.forall₂_map_right_iff.mpr
      (hrows.imp fun row row' hrow => ?_)))
    refine List.forall₂_map_left_iff.mpr (List.forall₂_map_right_iff.mpr ?_)
    exact hrow.1.imp fun _ _ h => h.isExact.uint64

/-- The bars of a single way are elements of the data set. -/
theorem chunkAt_stored (hshape : Shaped rows 1 sets) (hrange : InRange sets) (k : ℕ) :
    Results (FrameRel Stored true)
      ((MeasureData.reader true sets c iter).chunkAt .numpy k)
      ((MeasureData.reader true sets c iter).chunkAt .exact k) := by
  refine chunkAt_related (fun d hd => ?_) k
  have hcolumns : d.dims.2.toNat = 1 := by rw [hshape d hd]; rfl
  exact Results.mapM (fun row row' hrow => reduce_stored hrow.1 (hrow.2.trans hcolumns))
    (rows_related (hrange d hd))

theorem chunkAt_isExact (hshape : Shaped rows columns sets) (hrange : InRange sets) (k : ℕ) :
    Results (FrameRel IsExact combineLines)
      ((MeasureData.reader combineLines sets c iter).chunkAt .numpy k)
      ((MeasureData.reader combineLines sets c iter).chunkAt .exact k) := by
  by_cases h : combineLines = true ∧ columns = 1
  · obtain ⟨rfl, rfl⟩ := h
    exact (chunkAt_stored hshape hrange k).mono fun _ _ => FrameRel.mono fun _ _ h => h.isExact
  · exact (chunkAt_wide hshape hrange h k).mono fun _ _ => FrameRel.mono fun _ _ h => h.2

/-! ### Sums -/

/-- A process adds to an array of doubles. -/
theorem imageWorker_related (hshape : Shaped rows columns sets) (hrange : InRange sets)
    (cpuCount coreId : ℕ) :
    Results (FrameRel Wide combineLines) (imageWorker .numpy combineLines sets cpuCount coreId)
      (imageWorker .exact combineLines sets cpuCount coreId) := by
  have hfrom : MeasureData.fromFile combineLines sets 1 false =
      .ok (.reader combineLines sets 1 0) := rfl
  have hchunk : ∀ k, Results (FrameRel IsExact combineLines)
      ((MeasureData.reader combineLines sets 1 0).chunkAt .numpy k)
      ((MeasureData.reader combineLines sets 1 0).chunkAt .exact k) :=
    chunkAt_isExact hshape hrange
  rw [imageWorker_range, imageWorker_range, hfrom, ok_bind, ok_bind]
  refine (Results.refl _).bind fun len _ hlen => ?_
  obtain rfl := hlen
  refine (hchunk 0).bind fun first first' hfirst => (zeros_related hfirst).bind fun z z' hz => ?_
  refine Results.foldlM (fun i f g hfg => (hchunk i).bind fun f' g' hfg' => .ok ?_) _ hz
  exact frameRel_add (fun x m y n hx hy => wide_add hx.2 hy (.inl hx.1)) hfg hfg'

/-- The parallel sum is wide. -/
theorem generateImage_related (hshape : Shaped rows columns sets) (hrange : InRange sets)
    (pool : Pool) :
    Results (FrameRel Wide combineLines) (generateImage .numpy combineLines sets pool)
      (generateImage .exact combineLines sets pool) := by
  have hworkers : Results (List.Forall₂ (FrameRel Wide combineLines))
      (pool.arrivals.mapM (imageWorker .numpy combineLines sets pool.cpuCount))
      (pool.arrivals.mapM (imageWorker .exact combineLines sets pool.cpuCount)) := by
    refine Results.mapM (P := Eq) (fun i j hij => ?_) (List.forall₂_same.mpr fun _ _ => rfl)
    obtain rfl := hij
    exact imageWorker_related hshape hrange _ i
  have hstep : Relator.LiftFun (FrameRel Wide combineLines)
      (Relator.LiftFun (FrameRel Wide combineLines) (FrameRel Wide combineLines))
      (Frame.add .numpy) (Frame.add .exact) := fun _ _ h _ _ h' =>
    frameRel_add (fun _ _ _ _ => Wide.add) h h'
  rw [generateImage, generateImage]
  generalize pool.arrivals.mapM (imageWorker .numpy combineLines sets pool.cpuCount) = images at *
  generalize pool.arrivals.mapM (imageWorker .exact combineLines sets pool.cpuCount) = images' at *
  cases hworkers with
  | error e => exact .error _
  | ok h =>
    cases h with
    | nil => exact .error _
    | cons hfirst hrest => exact .ok (List.rel_foldl hstep hfirst hrest)

/-- The combined chunks, with a relation that addition keeps. -/
theorem combined_related {R : Scalar → ℕ → Prop}
    (hadd : ∀ x m y n, R x m → R y n → R (x.add y) (m + n))
    (hchunk : ∀ k, Results (FrameRel R combineLines)
      ((MeasureData.reader combineLines sets c iter).chunkAt .numpy k)
      ((MeasureData.reader combineLines sets c iter).chunkAt .exact k)) (n : ℕ) :
    Results (FrameRel R combineLines)
      (do
        let data ← (List.range n).mapM fun i =>
          (MeasureData.reader combineLines sets c iter).chunkAt .numpy (k + i)
        reduce (Frame.add .numpy) data)
      (do
        let data ← (List.range n).mapM fun i =>
          (MeasureData.reader combineLines sets c iter).chunkAt .exact (k + i)
        reduce (Frame.add .exact) data) := by
  refine (Results.mapM (P := Eq) (fun i j hij => ?_) (List.forall₂_same.mpr fun _ _ => rfl)).bind
    fun _ _ => reduce_related hadd
  obtain rfl := hij
  exact hchunk _

/-- **The frames are exact**, if they are not combined bars of a single way. -/
theorem getItem_isExact (hshape : Shaped rows columns sets) (hrange : InRange sets) (hc : 0 < c)
    (h : combineLines = true → columns = 1 → c ≠ 1 → sets.length ⌈/⌉ c = 1) (pool : Pool) :
    Results (FrameRel IsExact combineLines)
      ((MeasureData.reader combineLines sets c iter).getItem .numpy pool k).1
      ((MeasureData.reader combineLines sets c iter).getItem .exact pool k).1 := by
  obtain rfl | hc2 : c = 1 ∨ 2 ≤ c := by omega
  · exact chunkAt_isExact hshape hrange k
  have hexact : ∀ (f : Frame Scalar combineLines) g, FrameRel Wide combineLines f g →
      FrameRel IsExact combineLines f g := fun _ _ => FrameRel.mono fun _ _ h => h.2
  rw [getItem_cases _ hc2, getItem_cases _ hc2]
  split_ifs with hlast hone
  · exact .error _
  · exact (generateImage_related hshape hrange pool).mono hexact
  · refine (combined_related (fun _ _ _ _ => Wide.add) (fun k => ?_) _).mono hexact
    exact chunkAt_wide hshape hrange (fun hsingle => hone (h hsingle.1 hsingle.2 (by omega))) k

/-- **Combined bars of a single way** are added modulo `2 ^ 32`. -/
theorem getItem_wrapped (hshape : Shaped rows 1 sets) (hrange : InRange sets) (hc : 2 ≤ c)
    (hlen : sets.length ⌈/⌉ c ≠ 1) (pool : Pool) :
    Results (FrameRel Wrapped true)
      ((MeasureData.reader true sets c iter).getItem .numpy pool k).1
      ((MeasureData.reader true sets c iter).getItem .exact pool k).1 := by
  rw [getItem_cases _ hc, getItem_cases _ hc, if_neg hlen, if_neg hlen]
  split_ifs with hlast
  · exact .error _
  · refine combined_related (fun _ _ _ _ => Wrapped.add) (fun k => ?_) _
    exact (chunkAt_stored hshape hrange k).mono fun _ _ => FrameRel.mono fun _ _ h => h.wrapped

/-- A frame in exact arithmetic is the sum of the chunks that are added up for it. -/
theorem eq_of_getItem_exact (hshape : Shaped rows columns sets) (hcolumns : columns ≠ 0)
    (hc : 0 < c) {pool : Pool} {frame : Frame ℕ combineLines}
    (h : ((MeasureData.reader combineLines sets c iter).getItem .exact pool k).1 = .ok frame) :
    frame = frameOf combineLines rows columns (addedSum columns sets c k) := by
  by_cases himage : c ≠ 1 ∧ sets.length ⌈/⌉ c = 1 ∧ k ≤ 1
  · obtain ⟨hc1, hlen, hk⟩ := himage
    rw [getItem_cases _ (by omega), if_neg (by omega), if_pos hlen] at h
    obtain ⟨hgapless, hrows⟩ := gapless_of_generateImage hshape hcolumns h
    have hpos : 0 < sets.length := pos_of_lt_ceilDiv (hlen ▸ Nat.one_pos)
    rw [generateImage_gapless hshape hcolumns hgapless hpos hrows hc1 hlen k] at h
    exact (Except.ok.inj h).symm
  · have hapart : c ≠ 1 → sets.length ⌈/⌉ c = 1 → 1 < k := fun hc1 hlen =>
      not_le.mp fun hk => himage ⟨hc1, hlen, hk⟩
    obtain hmissing | hframe := getItem_apart hshape hcolumns hc hapart
    · rw [hmissing] at h
      cases h
    · rw [hframe] at h
      exact (Except.ok.inj h).symm

end

/-! ### No frame is truncated -/

/-- **Each frame has the exact sums**, where these are below `2 ^ 53`. -/
def NeverTruncates (combineLines : Bool) (rows columns : UInt64) (sets : H5File) (c k : ℕ)
    (pool : Pool) : Prop :=
  ∀ iter frame, ((MeasureData.reader combineLines sets c iter).getItem .numpy pool k).1 =
    .ok frame →
      FrameRel IsExact combineLines frame
        (frameOf combineLines rows columns (addedSum columns sets c k))

/-- The bars of a single way. -/
theorem frameOf_single (rows : UInt64) (f : ℕ → ℕ → ℕ) :
    frameOf true rows 1 f = (List.range rows.toNat).map fun set => f set 0 := by
  refine List.map_congr_left fun set _ => ?_
  exact List.sum_singleton

/-- **No frame is truncated**, if and only if it is not a frame of combined bars of a single way,
or there is none, or the sums of its chunks stay below `2 ^ 32`, if they are below `2 ^ 53`. -/
theorem neverTruncates_iff {combineLines : Bool} {rows columns : UInt64} {sets : H5File} {c : ℕ}
    (hshape : Shaped rows columns sets) (hrange : InRange sets) (hcolumns : columns ≠ 0)
    (hc : 0 < c) (k : ℕ) (pool : Pool) :
    NeverTruncates combineLines rows columns sets c k pool ↔
      (combineLines = true → columns = 1 → c ≠ 1 → sets.length ⌈/⌉ c ≠ 1 →
        k ≤ sets.length ⌈/⌉ c → (∀ i < maxCombines sets.length c k, Present sets (k + i)) →
        ∀ set < rows.toNat, addedSum columns sets c k set 0 < 2 ^ 53 →
          addedSum columns sets c k set 0 < 2 ^ 32) := by
  by_cases h : combineLines = true → columns = 1 → c ≠ 1 → sets.length ⌈/⌉ c = 1
  · refine iff_of_true (fun iter frame hframe => ?_) fun h1 h2 h3 h4 => absurd (h h1 h2 h3) h4
    obtain ⟨frame', hframe', hrel⟩ :=
      (getItem_isExact hshape hrange hc h pool).exists_of_ok hframe
    rwa [← eq_of_getItem_exact hshape hcolumns hc hframe']
  simp only [not_forall] at h
  obtain ⟨rfl, rfl, hc1, hlen⟩ := h
  have hwrapped : ∀ iter, Results (FrameRel Wrapped true)
      ((MeasureData.reader true sets c iter).getItem .numpy pool k).1
      ((MeasureData.reader true sets c iter).getItem .exact pool k).1 := fun iter =>
    getItem_wrapped hshape hrange (by omega) hlen pool
  have hiff : ∀ frame, FrameRel Wrapped true frame (frameOf true rows 1 (addedSum 1 sets c k)) →
      (FrameRel IsExact true frame (frameOf true rows 1 (addedSum 1 sets c k)) ↔
        ∀ set < rows.toNat, addedSum 1 sets c k set 0 < 2 ^ 53 →
          addedSum 1 sets c k set 0 < 2 ^ 32) := by
    intro frame hframe
    rw [frameOf_single] at hframe ⊢
    refine (forall₂_isExact_iff hframe).trans ?_
    rw [List.forall_mem_map]
    exact forall_congr' fun set => imp_congr_left List.mem_range
  constructor
  · intro htrunc _ _ _ _ hk hall
    obtain ⟨frame, hframe, hrel⟩ := (hwrapped 0).exists_of_ok'
      (getItem_added hshape hcolumns (by omega) hlen hk hall pool)
    exact (hiff frame hrel).mp (htrunc 0 frame hframe)
  · intro hsums iter frame hframe
    obtain ⟨frame', hframe', hrel⟩ := (hwrapped iter).exists_of_ok hframe
    obtain ⟨hk, hall⟩ := present_of_getItem hshape hcolumns (by omega) hlen hframe'
    rw [eq_of_getItem_exact hshape hcolumns hc hframe'] at hrel
    exact (hiff frame hrel).mpr (hsums rfl rfl hc1 hlen hk hall)

/-- Small values, combined by two. -/
theorem neverTruncates_fourIterations : NeverTruncates true 1 1 fourIterations 2 1 .single := by
  have hshape : Shaped 1 1 fourIterations := by decide
  have hrange : InRange fourIterations := by decide
  exact (neverTruncates_iff hshape hrange (by decide) (by decide) 1 .single).mpr
    fun _ _ _ _ _ _ => by decide

/-- Three iterations of one entry, `2 ^ 32 - 1, 1, 1`. -/
def largeIteration : H5File := measurementFile 3 1 1 fun k _ => if k = 0 then 0xffffffff else 1

/-- The sum of the first two is `2 ^ 32`, and the bar is 0. -/
theorem getItem_largeIteration :
    ((MeasureData.reader true largeIteration 2 0).getItem .numpy .single 0).1 =
        .ok [⟨.uint32, 0⟩] ∧
      frameOf true 1 1 (addedSum 1 largeIteration 2 0) = [2 ^ 32] ∧
      ¬ NeverTruncates true 1 1 largeIteration 2 0 .single := by
  have hframe : ((MeasureData.reader true largeIteration 2 0).getItem .numpy .single 0).1 =
      .ok [⟨.uint32, 0⟩] := by decide
  have hsum : frameOf true 1 1 (addedSum 1 largeIteration 2 0) = [2 ^ 32] := by decide
  refine ⟨hframe, hsum, fun h => ?_⟩
  have hexact := h 0 _ hframe
  rw [hsum] at hexact
  obtain ⟨hbar, -⟩ := List.forall₂_cons.mp hexact
  exact absurd (hbar (by decide)) (by decide)

end CacheNoise
