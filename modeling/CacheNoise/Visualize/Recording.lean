import CacheNoise.Profile.Noise
import CacheNoise.Visualize.RowSums
import CacheNoise.Visualize.RoundTrip

/-!
# What a run of `profile` leaves for the visualizer

The file of an HDF5 output after a run of `profile`: one data set for each matrix that was
measured, in this order and under the numeral of its position (`Recorded`). So what the visualizer
reads is the sequence of the result buffers, with the values that `H5Dwrite` lets through
(`survivor`): frame `k` is the matrix of iteration `k`, and an image is their sum, for every
number of processes and every order of their results (`profile_visualized`).
-/

namespace CacheNoise

open Interaction

/-! ### Recorded matrices -/

/-- A data set with this matrix, under this number. -/
structure DataSet.Records (d : DataSet) (ways sets : UInt64) (k : ℕ) (data : UInt64 → UInt32) :
    Prop where
  name_eq : d.name = toString k
  fileType_eq : d.fileType = .stdU32Be
  dims_eq : d.dims = (sets, ways)
  contents_eq : d.contents =
    some ((matData data sets ways).map (H5Type.nativeInt.convert .stdU32Be))

/-- The data sets of the file, from the oldest on, are these matrices, numbered from 0. -/
def Recorded (ways sets : UInt64) (matrices : List (UInt64 → UInt32)) (file : H5File) : Prop :=
  List.Forall₂ (fun d p => d.Records ways sets p.2 p.1) file.reverse matrices.zipIdx

/-- The values of a matrix, as they come back. -/
def survived (data : UInt64 → UInt32) (ways : UInt64) (set way : ℕ) : ℕ :=
  survivor (data (UInt64.ofNat (set * ways.toNat + way))).toNat

section

variable {ways sets : UInt64} {matrices : List (UInt64 → UInt32)} {file : H5File}

theorem recorded_nil : Recorded ways sets [] [] := .nil

theorem Recorded.cons (h : Recorded ways sets matrices file) {d : DataSet}
    {data : UInt64 → UInt32} (hd : d.Records ways sets matrices.length data) :
    Recorded ways sets (matrices ++ [data]) (d :: file) := by
  rw [Recorded, List.reverse_cons, List.zipIdx_append]
  exact List.rel_append h (.cons (by rwa [Nat.zero_add]) .nil)

theorem Recorded.length_eq (h : Recorded ways sets matrices file) :
    file.length = matrices.length := by
  have hlength := List.Forall₂.length_eq h
  rwa [List.length_reverse, List.length_zipIdx] at hlength

/-- The data sets of a file are those of its matrices. -/
theorem Recorded.exists_of_mem (h : Recorded ways sets matrices file) {d : DataSet}
    (hd : d ∈ file) : ∃ k data, matrices[k]? = some data ∧ d.Records ways sets k data := by
  obtain ⟨i, hi, rfl⟩ := List.getElem_of_mem (List.mem_reverse.mpr hd)
  have hlength := List.Forall₂.length_eq h
  have hrecords := List.Forall₂.get h hi (by omega)
  rw [List.get_eq_getElem, List.get_eq_getElem, List.getElem_zipIdx] at hrecords
  rw [List.length_zipIdx] at hlength
  exact ⟨0 + i, matrices[i], by rw [Nat.zero_add, List.getElem?_eq_getElem], hrecords⟩

/-- Every matrix has its data set. -/
theorem Recorded.find (h : Recorded ways sets matrices file) {k : ℕ} {data : UInt64 → UInt32}
    (hk : matrices[k]? = some data) : ∃ d, file.find? (fun d => d.name = toString k) = some d ∧
      d.Records ways sets k data := by
  obtain ⟨hlt, rfl⟩ := List.getElem?_eq_some_iff.mp hk
  have hlength := h.length_eq
  have hlt' : k < file.reverse.length := by rw [List.length_reverse]; omega
  have hrecords := List.Forall₂.get h hlt' (by rw [List.length_zipIdx]; exact hlt)
  rw [List.get_eq_getElem, List.get_eq_getElem, List.getElem_zipIdx, Nat.zero_add] at hrecords
  have hsome : (file.find? fun d => d.name = toString k).isSome = true :=
    List.find?_isSome.mpr ⟨_, List.mem_reverse.mp (List.getElem_mem hlt'),
      decide_eq_true hrecords.name_eq⟩
  obtain ⟨d, hd⟩ := Option.isSome_iff_exists.mp hsome
  refine ⟨d, hd, ?_⟩
  -- no other data set has this name
  obtain ⟨k', data', hk', hrecords'⟩ := h.exists_of_mem (List.mem_of_find?_eq_some hd)
  have hname : d.name = toString k := by simpa using List.find?_some hd
  obtain rfl : k' = k := Nat.repr_injective (hrecords'.name_eq.symm.trans hname)
  obtain rfl := Option.some.inj (hk'.symm.trans hk)
  exact hrecords'

/-- **A recorded file is a measurement.** -/
theorem Recorded.measurement (h : Recorded ways sets matrices file) :
    Measurement matrices.length sets ways file := by
  rw [← h.length_eq]
  refine measurement_of_gapless (fun d hd => ?_) fun k hk => ?_
  · obtain ⟨k, data, -, hrecords⟩ := h.exists_of_mem hd
    exact hrecords.dims_eq
  · rw [h.length_eq] at hk
    obtain ⟨d, hd, -⟩ := h.find (List.getElem?_eq_getElem hk)
    exact Option.isSome_iff_exists.mpr ⟨d, hd⟩

/-- Its values are those of the matrices. -/
theorem Recorded.raw_eq (h : Recorded ways sets matrices file) {k : ℕ} {data : UInt64 → UInt32}
    (hk : matrices[k]? = some data) {set way : ℕ} (hset : set < sets.toNat)
    (hway : way < ways.toNat) : raw ways file k set way = survived data ways set way := by
  obtain ⟨d, hd, hrecords⟩ := h.find hk
  unfold raw
  rw [hd]
  change Int.toNat (List.getD (d.contents.getD []) _ 0) = _
  rw [hrecords.contents_eq, Option.getD_some, getD_matData hset hway]
  exact toNat_convert _

end

/-- Frames agree if their functions do inside the shape. -/
theorem frameOf_congr {combineLines : Bool} {rows columns : UInt64} {f g : ℕ → ℕ → ℕ}
    (h : ∀ set < rows.toNat, ∀ way < columns.toNat, f set way = g set way) :
    frameOf combineLines rows columns f = frameOf combineLines rows columns g := by
  refine List.map_congr_left fun set hset => congrArg _ (List.map_congr_left fun way hway => ?_)
  exact h set (List.mem_range.mp hset) way (List.mem_range.mp hway)

/-! ### Runs of `profile` -/

/-- A successful write advances the number, and nothing else. -/
theorem outputwMatUi32_output {output output' : OutputT} {data : UInt64 → UInt32}
    {dimX dimY : UInt64} {t : List Event} (htype : output.type = outputHd5File)
    (hrun : (outputwMatUi32 output data dimX dimY).Run t (some (errorNone, output'))) :
    output' = { output with iter := output.iter + 1 } := by
  have herror : errorNone ≠ errorHdf5Error := by decide
  rw [outputwMatUi32, if_neg (by rw [htype]; decide), if_pos htype] at hrun
  obtain ⟨a, u₁, rfl, h₁⟩ := run_sys_bind.mp hrun
  split at h₁
  · exact absurd (Prod.mk.inj (Option.some.inj h₁.2)).1 herror
  obtain ⟨b, u₂, rfl, h₂⟩ := run_sys_bind.mp h₁
  split at h₂
  · exact absurd (Prod.mk.inj (Option.some.inj h₂.2)).1 herror
  obtain ⟨c, u₃, rfl, -, ho⟩ := run_sys_bind.mp h₂
  exact (Prod.mk.inj (Option.some.inj ho)).2

/-- The file holds the matrices that were measured, and the output goes on with the next number. -/
structure Recording (cache : CacheInfo) (output : OutputT) (t : List Event) : Prop where
  type_eq : output.type = outputHd5File
  iter_eq : output.iter = (t.filterMap measuredBy).length
  recorded : Recorded cache.waysOfAssociativity.toUInt64 cache.setCount.toUInt64
    (t.filterMap measuredBy) (h5File t)

/-- Events that neither measure nor change a file. -/
def Unrecorded (e : Event) : Prop := measures e = false ∧ ∀ file, h5Step file e = file

section

variable {cache : CacheInfo} {buffer : Ptr} {output output' : OutputT} {h t : List Event}

theorem unrecorded_append (ht : ∀ e ∈ t, Unrecorded e) :
    (h ++ t).filterMap measuredBy = h.filterMap measuredBy ∧ h5File (h ++ t) = h5File h := by
  have hmeasured : t.filterMap measuredBy = [] :=
    List.filterMap_eq_nil_iff.mpr fun e he => measuredBy_eq_none (ht e he).1
  have hfile : ∀ file, t.foldl h5Step file = file := by
    induction t with
    | nil => exact fun _ => rfl
    | cons e t ih =>
      obtain ⟨he, ht⟩ := List.forall_mem_cons.mp ht
      intro file
      rw [List.foldl_cons, he.2]
      exact ih ht (List.filterMap_eq_nil_iff.mpr fun e he => measuredBy_eq_none (ht e he).1) file
  rw [List.filterMap_append, hmeasured, List.append_nil, h5File_append, hfile]
  exact ⟨rfl, rfl⟩

theorem Recording.append (hr : Recording cache output h) (ht : ∀ e ∈ t, Unrecorded e) :
    Recording cache output (h ++ t) := by
  obtain ⟨hmeasured, hfile⟩ := unrecorded_append (h := h) ht
  exact ⟨hr.type_eq, by rw [hmeasured]; exact hr.iter_eq, by
    rw [hmeasured, hfile]; exact hr.recorded⟩

/-- **An iteration** records its matrix. -/
theorem Iteration.recording (hiteration : Iteration cache buffer output t (errorNone, output'))
    (hr : Recording cache output h) : Recording cache output' (h ++ t) := by
  obtain @⟨read, primed, yielded, probed, write, _, hread, hwrite⟩ := hiteration
  set front : List Event := [⟨_, read⟩, ⟨_, primed⟩, ⟨_, yielded⟩, ⟨_, probed⟩] with hfront
  have hsplit : h ++ ⟨_, read⟩ :: ⟨_, primed⟩ :: ⟨_, yielded⟩ :: ⟨_, probed⟩ :: write =
      (h ++ front) ++ write := by rw [List.append_assoc, hfront]; rfl
  have hfile : h5File (h ++ front) = h5File h := by rw [h5File_append, hfront]; rfl
  have hmeasured : ((h ++ front) ++ write).filterMap measuredBy =
      h.filterMap measuredBy ++ [probed.value] := by
    have hwrite' : write.filterMap measuredBy = [] := List.filterMap_eq_nil_iff.mpr fun e he =>
      measuredBy_eq_none (unmeasured_of_kind (only_outputwMatUi32 _ _ _ _ _ _ hwrite e he)).measures
    rw [List.filterMap_append, hwrite', List.append_nil, List.filterMap_append, hfront]
    rfl
  obtain rfl := outputwMatUi32_output hr.type_eq hwrite
  obtain ⟨handle, hwritten⟩ := h5File_outputwMatUi32 hr.type_eq hwrite (h ++ front)
  rw [hsplit]
  refine ⟨hr.type_eq, ?_, ?_⟩
  · rw [hmeasured, List.length_append, ← hr.iter_eq]
    rfl
  · rw [hmeasured, hwritten, hfile]
    exact hr.recorded.cons ⟨congrArg toString hr.iter_eq, rfl, rfl, rfl⟩

theorem Iterations.recording {ts : List (List Event)}
    (hts : Iterations cache buffer output ts output') (hr : Recording cache output h) :
    Recording cache output' (h ++ ts.flatten) := by
  induction hts generalizing h with
  | nil output => rwa [List.flatten_nil, List.append_nil]
  | cons hiteration _ ih =>
    rw [List.flatten_cons, ← List.append_assoc]
    exact ih (hiteration.recording hr)

theorem unrecorded_of_kind {e : Event} (he : e.1.kind ≠ .dataset) (hopen : e.1.kind ≠ .opening)
    (hmeasure : e.1.kind ≠ .measure) : Unrecorded e := by
  obtain ⟨c, a⟩ := e
  cases c <;> first
    | exact ⟨rfl, fun _ => rfl⟩
    | exact absurd rfl he
    | exact absurd rfl hopen
    | exact absurd rfl hmeasure

theorem unrecorded_enable {cpu : UInt32} : (enableCpuCycleCounter cpu).Within Unrecorded :=
  within_enableCpuCycleCounter (fun _ => ⟨rfl, fun _ => rfl⟩) fun _ _ _ => ⟨rfl, fun _ => rfl⟩

theorem unrecorded_disable {fd : UInt32} : (disableCpuCycleCounter fd).Within Unrecorded :=
  within_disableCpuCycleCounter fun _ => ⟨rfl, fun _ => rfl⟩

/-- The end of a run that succeeds records nothing. -/
theorem Ends.unrecorded {iterations fd : UInt32} {j : ℕ}
    (hends : Ends cache buffer iterations fd j output t (some (errorNone, output'))) :
    output' = output ∧ ∀ e ∈ t, Unrecorded e := by
  cases hends with
  | done _ _ hrun => exact ⟨rfl, unrecorded_disable _ _ hrun⟩
  | seen _ _ hrun =>
    exact ⟨rfl, List.forall_mem_cons.mpr ⟨⟨rfl, fun _ => rfl⟩, unrecorded_disable _ _ hrun⟩⟩
  | failed _ hres _ => exact absurd rfl hres

/-- **A run of `profile` that succeeds** records its matrices, after those that are already
there. -/
theorem profile_recording {fuel : ℕ} {cpu iterations : UInt32}
    (hrun : (profile fuel cache cpu iterations buffer output).Run t (some (errorNone, output')))
    (hr : Recording cache output h) : Recording cache output' (h ++ t) := by
  obtain ⟨hnone, -⟩ | ⟨fd, start, ts, tail, output₁, rfl, henable, hts, hends, -⟩ :=
    profile_run hrun
  · exact absurd (Prod.mk.inj (Option.some.inj hnone)).1 (by decide)
  obtain ⟨rfl, htail⟩ := hends.unrecorded
  rw [← List.append_assoc, ← List.append_assoc]
  exact (hts.recording (hr.append (unrecorded_enable _ _ henable))).append htail

end

/-! ### What the visualizer shows -/

/-- **What the visualizer makes of these matrices**: frame `k` is matrix `k`, in bars and as a
heatmap, there are no others, and the image is the sum of all of them. -/
structure Visualizes (ways sets : UInt64) (matrices : List (UInt64 → UInt32)) (file : H5File) :
    Prop where
  frame : ∀ combineLines pool k data, matrices[k]? = some data →
    readFrame combineLines file 1 pool k =
      .ok (frameOf combineLines sets ways (survived data ways))
  stop : ∀ combineLines pool k, matrices.length ≤ k →
    readFrame combineLines file 1 pool k = .error .keyError
  image : matrices ≠ [] → ∀ combineLines pool, generateImage .exact combineLines file pool =
    .ok (frameOf combineLines sets ways fun set way =>
      (matrices.map fun data => survived data ways set way).sum)

/-- The sum of the values of all data sets. -/
theorem Recorded.sum_raw {ways sets : UInt64} {matrices : List (UInt64 → UInt32)} {file : H5File}
    (h : Recorded ways sets matrices file) {set way : ℕ} (hset : set < sets.toNat)
    (hway : way < ways.toNat) :
    (∑ i ∈ Finset.range matrices.length, raw ways file i) set way =
      (matrices.map fun data => survived data ways set way).sum := by
  rw [Finset.sum_apply, Finset.sum_apply, Finset.sum_range, ← List.sum_ofFn]
  congr 1
  refine List.ext_getElem (by simp) fun i h₁ h₂ => ?_
  rw [List.getElem_ofFn, List.getElem_map]
  exact h.raw_eq (List.getElem?_eq_getElem _) hset hway

/-- **A recorded file shows its matrices.** -/
theorem Recorded.visualizes {ways sets : UInt64} {matrices : List (UInt64 → UInt32)}
    {file : H5File} (h : Recorded ways sets matrices file) (hways : ways ≠ 0) (hsets : sets ≠ 0) :
    Visualizes ways sets matrices file := by
  have hm := h.measurement
  refine ⟨fun combineLines pool k data hk => ?_, fun combineLines pool k hk => ?_,
    fun hne combineLines pool => ?_⟩
  · obtain ⟨hlt, -⟩ := List.getElem?_eq_some_iff.mp hk
    rw [readFrame_reader Nat.one_pos, getItem_one]
    refine (chunkAt_eq (m := .reader combineLines file 1 0) hm rfl (fun _ => .inr hways)
      hlt).trans (congrArg _ (frameOf_congr fun set hset way hway => ?_))
    exact h.raw_eq hk hset hway
  · rw [readFrame_reader Nat.one_pos, getItem_one]
    exact chunkAt_absent (m := .reader combineLines file 1 0) hm rfl hk _
  · rw [generateImage_eq hm (List.length_pos_iff.mpr hne) (fun _ => .inr hways) (fun _ => hsets)]
    exact congrArg _ (frameOf_congr fun set hset way hway => h.sum_raw hset hway)

theorem toUInt64_ne_zero {x : UInt32} (hx : 0 < x.toNat) : x.toUInt64 ≠ 0 := by
  intro h
  have hzero := congrArg UInt64.toNat h
  rw [UInt32.toNat_toUInt64] at hzero
  exact absurd hzero (Nat.ne_of_gt hx)

/-- **From the profiler to the visualizer**: after a run of `profile` that succeeds on a fresh HDF5
output, the visualizer shows the matrices that the run has measured, in order, and nothing else. -/
theorem profile_visualized {fuel : ℕ} {cache : CacheInfo} {cpu iterations : UInt32} {buffer : Ptr}
    {output output' : OutputT} {t : List Event}
    (hrun : (profile fuel cache cpu iterations buffer output).Run t (some (errorNone, output')))
    (htype : output.type = outputHd5File) (hiter : output.iter = 0)
    (hways : 0 < cache.waysOfAssociativity.toNat) (hsets : 0 < cache.setCount.toNat) :
    Visualizes cache.waysOfAssociativity.toUInt64 cache.setCount.toUInt64
      (t.filterMap measuredBy) (h5File t) := by
  have hr : Recording cache output [] := ⟨htype, hiter, recorded_nil⟩
  exact (profile_recording hrun hr).recorded.visualizes (toUInt64_ne_zero hways)
    (toUInt64_ne_zero hsets)

/-- Two iterations on a machine that measures 7 everywhere. -/
def sevenTwice : List Event × Option (ErrorT × OutputT) :=
  (profile 3 firstLevel 0 2 (.mapped 0x800000) ⟨outputHd5File, .null, 1, 0⟩).exec
    (measuringMachine fun _ => 7) []

theorem profile_visualized_sevenTwice :
    Visualizes firstLevel.waysOfAssociativity.toUInt64 firstLevel.setCount.toUInt64
      [fun _ => 7, fun _ => 7] (h5File sevenTwice.1) := by
  have hrun : (profile 3 firstLevel 0 2 (.mapped 0x800000) ⟨outputHd5File, .null, 1, 0⟩).Run
      sevenTwice.1 (some (errorNone, ⟨outputHd5File, .null, 1, 2⟩)) :=
    Prog.run_exec (measuringMachine fun _ => 7) _ []
  exact profile_visualized hrun rfl rfl (by decide) (by decide)

end CacheNoise
