import CacheNoise.SysAction

/-!
# Outputs

`output_t` and the functions of `output.c`. An HDF5 output writes each matrix as a data set of
its own, named by the decimal numeral of a counter that is **advanced before** the data set is
known to exist.

`H5File` is the file that a run leaves behind, read off its calls by `h5File`. Of HDF5 it has
what is documented: creating a file truncates it, a created data set is empty until a write to
its handle succeeds, and a write converts each element by its numeric value from the memory type
to the file type, clamping values out of range (`H5Type.convert`).
-/

namespace CacheNoise

open Interaction

/-- `OUTPUT_STDOUT`. -/
def outputStdout : UInt8 := 1

/-- `OUTPUT_HD5_FILE`. -/
def outputHd5File : UInt8 := 2

/-- `output_t`. No run comes near the end of the range of `iter`. -/
structure OutputT where
  type : UInt8
  std : Stream
  h5 : ℤ
  iter : ℕ

/-! ### Writing -/

/-- Print texts in order, up to the first failure. -/
def fprintfAll (stream : Stream) : List String → Proc ErrorT
  | [] => pure errorNone
  | text :: texts => do
    let res ← sys (.fprintf stream text)
    if res < 0 then pure errorIoHdf else fprintfAll stream texts

/-- The texts of one set: its head, the first way, the other ways, and the line end. -/
def setTexts (data : UInt64 → UInt32) (dimX set : UInt64) : List String :=
  ["set " ++ toString set ++ ": ", toString (data (set * dimX))] ++
    (List.range' 1 (dimX.toNat - 1)).map
      (fun way => "," ++ toString (data (set * dimX + UInt64.ofNat way))) ++ ["\n"]

/-- The texts of a matrix. -/
def matTexts (data : UInt64 → UInt32) (dimX dimY : UInt64) : List String :=
  (List.range dimY.toNat).flatMap fun set => setTexts data dimX (UInt64.ofNat set)

/-- The memory that a write of a data set of `rows` and `columns` reads. -/
def matData (data : UInt64 → UInt32) (rows columns : UInt64) : List UInt32 :=
  (List.range (rows.toNat * columns.toNat)).map fun i => data (UInt64.ofNat i)

/-- `outputw_mat_ui32`, with the output afterwards. -/
def outputwMatUi32 (output : OutputT) (data : UInt64 → UInt32) (dimX dimY : UInt64) :
    Proc (ErrorT × OutputT) :=
  if output.type = outputStdout then do
    let res ← fprintfAll output.std (matTexts data dimX dimY)
    pure (res, output)
  else if output.type = outputHd5File then do
    let id := toString output.iter
    let output := { output with iter := output.iter + 1 }
    let datasetId ← sys (.h5Dcreate output.h5 id .stdU32Be (dimY, dimX))
    if datasetId = -1 then pure (errorHdf5Error, output)
    else do
      let status ← sys (.h5Dwrite datasetId .nativeInt (matData data dimY dimX))
      if status = -1 then pure (errorHdf5Error, output)
      else do
        let status ← sys (.h5Dclose datasetId)
        pure (if status = -1 then errorHdf5Error else errorNone, output)
  else pure (errorNotSupportedOutput, output)

/-! ### Opening and closing -/

/-- `outputc_stdout`. -/
def outputcStdout (file : Stream) : Proc (ErrorT × OutputT) :=
  pure (errorNone, { h5 := -1, iter := 0, std := file, type := outputStdout })

/-- `outputc_hd5_file`; the output is left alone on failure. -/
def outputcHd5File (output : OutputT) (file : String) : Proc (ErrorT × OutputT) := do
  let fileId ← sys (.h5Fcreate file)
  let mode ← sys (.chmod file)
  if mode ≠ 0 then pure (errorChmod, output)
  else if fileId = -1 then pure (errorHdf5Error, output)
  else pure (errorNone, { std := .null, h5 := fileId, iter := 0, type := outputHd5File })

/-- `output_close`. -/
def outputClose (output : OutputT) : Proc ErrorT :=
  if output.type = outputHd5File then do
    let status ← sys (.h5Fclose output.h5)
    pure (if status = -1 then errorHdf5Error else errorNone)
  else pure errorNone

/-! ### The file -/

/-- The number that a word of memory stands for. -/
def H5Type.ofWord (word : UInt32) : H5Type → ℤ
  | .nativeInt => word.toInt32.toInt
  -- the bytes of a little-endian word in reverse
  | .stdU32Be =>
    let swapped : UInt32 := (word >>> 24) ||| ((word >>> 8) &&& (0xff00 : UInt32)) |||
      ((word <<< 8) &&& (0xff0000 : UInt32)) ||| (word <<< 24)
    swapped.toNat

/-- The value of a type that is nearest to a number. -/
def H5Type.clamp (n : ℤ) : H5Type → ℤ
  | .nativeInt => max (-2 ^ 31) (min n (2 ^ 31 - 1))
  | .stdU32Be => max 0 (min n (2 ^ 32 - 1))

/-- What a write stores for a word of memory. -/
def H5Type.convert (memType fileType : H5Type) (word : UInt32) : ℤ :=
  fileType.clamp (memType.ofWord word)

/-- A data set of a file. Its elements are in row-major order, and it has none until it is
completely written. -/
structure DataSet where
  name : String
  handle : ℤ
  fileType : H5Type
  dims : UInt64 × UInt64
  contents : Option (List ℤ)

/-- The data sets of a file, the newest first. -/
abbrev H5File : Type := List DataSet

/-- A successful write, to the newest data set with this handle. -/
def H5File.write (dataset : ℤ) (memType : H5Type) (data : List UInt32) : H5File → H5File
  | [] => []
  | d :: file =>
    if d.handle = dataset then
      { d with contents := some (data.map (memType.convert d.fileType)) } :: file
    else d :: H5File.write dataset memType data file

/-- What an event does to the file. -/
def h5Step (file : H5File) : Event → H5File
  | ⟨.h5Fcreate _, a⟩ => if a.value = -1 then file else []
  | ⟨.h5Dcreate _ name fileType dims, a⟩ =>
    if a.value = -1 then file else ⟨name, a.value, fileType, dims, none⟩ :: file
  | ⟨.h5Dwrite dataset memType data, a⟩ =>
    if a.value = -1 then file else file.write dataset memType data
  | _ => file

/-- The file after the events of a run. -/
def h5File (t : List Event) : H5File := t.foldl h5Step []

end CacheNoise
