import CacheNoise.Main.DataSets
import CacheNoise.Profile.Measurement
import CacheNoise.Visualize.Frames

/-!
# From the profiler to the visualizer

A matrix of times goes from the result buffer of `probe` through `outputw_mat_ui32` into a data
set, and comes back out of `chunk_at`. All three agree on the layout: the value of set `s` and
way `w` is element `s * ways + w` of the buffer (`probe_cell`), and `[s][w]` of what is read
(`readChunk_written`). But the writer declares the buffer to be one of **signed** integers, so
that values from `2^31` on are negative for HDF5, and stored as 0. The matrix survives if and only
if all of its values are smaller (`roundTrip_iff`).
-/

namespace CacheNoise

open Interaction

/-- The matrix that is in a result buffer. -/
def resultMatrix (data : UInt64 → UInt32) (ways sets : UInt64) : List (List ℕ) :=
  (List.range sets.toNat).map fun set => (List.range ways.toNat).map fun way =>
    (data (UInt64.ofNat (set * ways.toNat + way))).toNat

/-- `from_file`, and then `chunk_at`, with `combine_lines` off. -/
def readChunk (sets : H5File) (k : ℕ) : Except Raised (List (List ℕ)) := do
  let m ← MeasureData.fromFile false sets 1 false
  m.chunkAt .exact k

/-! ### The layout -/

/-- **The result buffer of `probe`** has the time that was measured for a set and a way at the
index where `resultMatrix` looks for it. -/
theorem probe_cell {σ : Type} (core : Core σ) (info : CacheInfo) (buffer : UInt64)
    (hsets : 0 < info.setCount.toNat) (hways : 0 < info.waysOfAssociativity.toNat) {fuel : ℕ}
    (hsf : info.setCount.toNat ≤ fuel) (hwf : info.waysOfAssociativity.toNat ≤ fuel) (mem : σ)
    (result : UInt64 → UInt32) :
    ∃ mem' data, probe core info.lineSize.toUInt64 info.setCount.toUInt64
        info.waysOfAssociativity.toUInt64 buffer fuel mem result = some (mem', data) ∧
      ∀ set < info.setCount.toNat, ∀ way < info.waysOfAssociativity.toNat,
        ∃ before after,
          probeOrder info.setCount.toNat info.waysOfAssociativity.toNat =
            before ++ (set, way) :: after ∧
          data (UInt64.ofNat (set * info.waysOfAssociativity.toNat + way)) =
            (measure core (lineAddress info.lineSize.toUInt64 info.setCount.toUInt64 buffer
              (UInt64.ofNat set) (UInt64.ofNat way)) (before.foldl (measureAt core
                info.lineSize.toUInt64 info.setCount.toUInt64 info.waysOfAssociativity.toUInt64
                  buffer) (mem, result)).1).1 := by
  have hprobe := probe_eq core info.lineSize.toUInt64 info.setCount.toUInt64
    info.waysOfAssociativity.toUInt64 buffer (UInt32.toNat_toUInt64 _) (UInt32.toNat_toUInt64 _)
    hsets hways (info.setCount.toNat_lt.trans (by norm_num))
    (info.waysOfAssociativity.toNat_lt.trans (by norm_num)) hsf hwf mem result
  refine ⟨_, _, hprobe, fun set hs way hw => ?_⟩
  have hmem : (set, way) ∈ probeOrder info.setCount.toNat info.waysOfAssociativity.toNat :=
    mem_probeOrder.mpr ⟨hs, hw⟩
  obtain ⟨before, after, horder⟩ := List.append_of_mem hmem
  refine ⟨before, after, horder, ?_⟩
  have hnodup : ((probeOrder info.setCount.toNat info.waysOfAssociativity.toNat).map
      (cellOf info)).Nodup :=
    (probeOrder_nodup _ _).map_on fun p hp q hq =>
      cellOf_inj (mem_probeOrder.mp hp) (mem_probeOrder.mp hq)
  rw [horder, List.map_append, List.map_cons] at hnodup
  have hafter := (List.nodup_cons.mp (List.nodup_append.mp hnodup).2.1).1
  rw [horder, List.foldl_append, List.foldl_cons, ← cellOf_eq]
  exact (foldl_measureAt_of_notMem hafter _).trans (Function.update_self _ _ _)

/-! ### The number type -/

/-- What a value is after the write and the read: unchanged as long as it is not negative for a
signed reader. -/
def survivor (value : ℕ) : ℕ := if value < 2 ^ 31 then value else 0

/-- **The conversions of one value.** -/
theorem toNat_convert (word : UInt32) :
    (H5Type.nativeInt.convert .stdU32Be word).toNat = survivor word.toNat := by
  have hlt := word.toNat_lt
  have hint : word.toInt32.toInt =
      if 2 * word.toNat < 2 ^ 32 then (word.toNat : ℤ) else word.toNat - (2 ^ 32 : ℕ) :=
    BitVec.toInt_eq_toNat_cond word.toBitVec
  change (max 0 (min word.toInt32.toInt (2 ^ 32 - 1))).toNat = _
  rw [hint, survivor]
  split <;> split <;> omega

theorem survivor_eq_iff {value : ℕ} : survivor value = value ↔ value < 2 ^ 31 := by
  rw [survivor]
  split <;> omega

/-! ### Writing and reading -/

section

variable {output output' : OutputT} {data : UInt64 → UInt32} {ways sets : UInt64}
  {t : List Event}

/-- **A successful write** adds one data set, with the converted matrix, to every file. -/
theorem h5File_outputwMatUi32 (htype : output.type = outputHd5File)
    (hrun : (outputwMatUi32 output data ways sets).Run t (some (errorNone, output')))
    (h : List Event) : ∃ handle, h5File (h ++ t) =
      { name := toString output.iter, handle, fileType := .stdU32Be, dims := (sets, ways)
        contents := some ((matData data sets ways).map (H5Type.nativeInt.convert .stdU32Be)) } ::
          h5File h := by
  have herror : errorNone ≠ errorHdf5Error := by decide
  rw [outputwMatUi32, if_neg (by rw [htype]; decide), if_pos htype] at hrun
  obtain ⟨a, u₁, rfl, h₁⟩ := run_sys_bind.mp hrun
  split at h₁
  · exact absurd (congrArg Prod.fst (Option.some.inj h₁.2)) herror
  · next ha =>
    obtain ⟨b, u₂, rfl, h₂⟩ := run_sys_bind.mp h₁
    split at h₂
    · exact absurd (congrArg Prod.fst (Option.some.inj h₂.2)) herror
    · next hb =>
      obtain ⟨c, u₃, rfl, rfl, -⟩ := run_sys_bind.mp h₂
      refine ⟨a.value, ?_⟩
      rw [h5File_append, List.foldl_cons, h5Step, if_neg ha, List.foldl_cons, h5Step, if_neg hb,
        H5File.write, if_pos rfl]
      rfl

/-- An element of the data set. -/
theorem getD_matData {set way : ℕ} (hset : set < sets.toNat) (hway : way < ways.toNat) :
    ((matData data sets ways).map (H5Type.nativeInt.convert .stdU32Be)).getD
      (set * ways.toNat + way) 0 =
        H5Type.nativeInt.convert .stdU32Be (data (UInt64.ofNat (set * ways.toNat + way))) := by
  have hlt : set * ways.toNat + way < sets.toNat * ways.toNat := by
    calc set * ways.toNat + way < (set + 1) * ways.toNat := by rw [Nat.succ_mul]; omega
      _ ≤ sets.toNat * ways.toNat := Nat.mul_le_mul_right _ hset
  rw [matData, List.map_map, List.getD_eq_getElem?_getD, List.getElem?_map,
    List.getElem?_range hlt]
  rfl

/-- **What is read back** from the data set. -/
theorem readChunk_written (htype : output.type = outputHd5File)
    (hrun : (outputwMatUi32 output data ways sets).Run t (some (errorNone, output')))
    (h : List Event) : readChunk (h5File (h ++ t)) output.iter =
      .ok ((resultMatrix data ways sets).map fun row => row.map survivor) := by
  obtain ⟨handle, hfile⟩ := h5File_outputwMatUi32 htype hrun h
  have hget : ∀ d : DataSet, d.name = toString output.iter → ∀ file : H5File,
      readChunk (d :: file) output.iter = .ok (d.rows .exact) := by
    intro d hname file
    have hfind : (d :: file).find? (fun d => d.name = toString output.iter) = some d :=
      List.find?_cons_of_pos (decide_eq_true hname)
    have hfile : H5pyFile.get ⟨d :: file, false⟩ (toString output.iter) = .ok d := by
      rw [H5pyFile.get, hfind]
      rfl
    change (H5pyFile.get ⟨d :: file, false⟩ (toString output.iter) >>= fun chunk =>
      items .exact (chunk.rows .exact) false) = _
    rw [hfile, ok_bind, items]
    refine congrArg Except.ok (List.map_id'' (fun row => ?_) _)
    exact List.map_id row
  rw [hfile, hget _ rfl, DataSet.rows, resultMatrix, List.map_map]
  refine congrArg Except.ok (List.map_congr_left fun set hset => ?_)
  rw [Function.comp_apply, List.map_map]
  refine List.map_congr_left fun way hway => ?_
  change Int.toNat (List.getD (List.map _ _) _ 0) = _
  rw [getD_matData (List.mem_range.mp hset) (List.mem_range.mp hway)]
  exact toNat_convert _

/-- **The round trip**: what is read is the matrix of the result buffer if and only if all of its
values are below `2^31`. -/
theorem roundTrip_iff (htype : output.type = outputHd5File)
    (hrun : (outputwMatUi32 output data ways sets).Run t (some (errorNone, output')))
    (h : List Event) :
    readChunk (h5File (h ++ t)) output.iter = .ok (resultMatrix data ways sets) ↔
      ∀ set < sets.toNat, ∀ way < ways.toNat,
        (data (UInt64.ofNat (set * ways.toNat + way))).toNat < 2 ^ 31 := by
  rw [readChunk_written htype hrun h, Except.ok.injEq, resultMatrix, List.map_map,
    List.map_inj_left]
  refine forall_congr' fun set => ?_
  rw [List.mem_range, Function.comp_apply, List.map_map, List.map_inj_left]
  refine imp_congr_right fun _ => forall_congr' fun way => ?_
  rw [List.mem_range, Function.comp_apply, survivor_eq_iff]

end

/-- An HDF5 output. -/
def h5Output : OutputT := ⟨outputHd5File, .null, 1, 0⟩

/-- The run that writes two sets of two ways, on a machine on which every call succeeds. -/
def writeRun (data : UInt64 → UInt32) : List Event × Option (ErrorT × OutputT) :=
  (outputwMatUi32 h5Output data 2 2).exec goodMachine []

theorem roundTrip_small :
    readChunk (h5File ([] ++ (writeRun fun i => i.toUInt32).1)) 0 =
      .ok (resultMatrix (fun i => i.toUInt32) 2 2) :=
  (roundTrip_iff (rfl : h5Output.type = outputHd5File) (Prog.run_exec goodMachine _ []) []).mpr
    (by decide)

/-- The value `2^32 - 1` comes back as 0. -/
theorem roundTrip_large :
    (writeRun fun _ => 0xffffffff).2.map Prod.fst = some errorNone ∧
      readChunk (h5File (writeRun fun _ => 0xffffffff).1) 0 = .ok [[0, 0], [0, 0]] ∧
      resultMatrix (fun _ => 0xffffffff) 2 2 =
        [[4294967295, 4294967295], [4294967295, 4294967295]] :=
  ⟨by decide, by decide, by decide⟩

end CacheNoise
