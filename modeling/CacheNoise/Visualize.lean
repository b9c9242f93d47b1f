import CacheNoise.Output
import Mathlib.Algebra.Order.Floor.Div

/-!
# The visualizer

`MeasureData` of `visualize.py`, with the parallel sum `generate_image`. It reads the file that
an HDF5 output leaves behind (`H5File`).

* A Python expression ends in a value or in what it raises (`Raised`); waiting forever for a
  process that has died is one more end of this kind.
* A frame is a list of **items**, one for each cache set: rows, or single numbers with
  `combine_lines`. The mode is a parameter of the types, since no function mixes the two.
* The functions take the arithmetic of the entries as a parameter (`Arithmetic`), since numpy
  adds in several types. `Arithmetic.exact` is addition of natural numbers.
* The number of processes and the order in which their results arrive are a `Pool`.
-/

namespace CacheNoise

/-- What a Python expression ends in when it has no value. -/
inductive Raised
  | keyError
  | valueError
  | indexError
  | typeError
  | attributeError
  | zeroDivisionError
  | stopIteration
  /-- `queue.get()` waits for a process that has died. -/
  | blocked
  deriving DecidableEq

/-! ### Entries and items -/

/-- What the functions do with the entries of arrays. -/
structure Arithmetic (α : Type) where
  /-- An element of a data set. -/
  stored : ℤ → α
  /-- `astype(numpy.uint64)`. -/
  uint64 : α → α
  /-- An element of `numpy.zeros`. -/
  zero : α
  add : α → α → α

/-- Exact addition; the elements of a data set of `H5T_STD_U32BE` are not negative. -/
def Arithmetic.exact : Arithmetic ℕ := ⟨Int.toNat, id, 0, (· + ·)⟩

/-- What a frame has for a cache set: a number with `combine_lines`, and a row without. -/
@[reducible]
def Item (α : Type) : Bool → Type
  | true => α
  | false => List α

/-- A frame. -/
abbrev Frame (α : Type) (combineLines : Bool) : Type := List (Item α combineLines)

section

variable {α : Type} (A : Arithmetic α)

/-- The sum of two items. -/
def Item.add : {combineLines : Bool} → Item α combineLines → Item α combineLines →
    Item α combineLines
  | true, x, y => A.add x y
  | false, xs, ys => List.zipWith A.add xs ys

/-- The element-wise sum of two frames of one shape. -/
def Frame.add {combineLines : Bool} (l r : Frame α combineLines) : Frame α combineLines :=
  List.zipWith (Item.add A) l r

/-- `functools.reduce` without an initial value. -/
def reduce {β : Type} (f : β → β → β) : List β → Except Raised β
  | [] => .error .typeError
  | x :: xs => .ok (xs.foldl f x)

/-- The rows of a data set, in row-major order. Elements that were never written are 0. -/
def DataSet.rows (d : DataSet) : List (List α) :=
  (List.range d.dims.1.toNat).map fun r => (List.range d.dims.2.toNat).map fun c =>
    A.stored ((d.contents.getD []).getD (r * d.dims.2.toNat + c) 0)

/-! ### Files -/

/-- An `h5py.File` that is open for reading, or was closed. -/
structure H5pyFile where
  sets : H5File
  closed : Bool

/-- `len(file)`. -/
def H5pyFile.len (file : H5pyFile) : Except Raised ℕ :=
  if file.closed = true then .error .valueError else .ok file.sets.length

/-- `file[key]`. -/
def H5pyFile.get (file : H5pyFile) (key : String) : Except Raised DataSet :=
  if file.closed = true then .error .valueError
  else match file.sets.find? (fun d => d.name = key) with
    | none => .error .keyError
    | some d => .ok d

/-! ### `MeasureData` -/

/-- `MeasureData`. -/
structure MeasureData (combineLines : Bool) where
  file : H5pyFile
  iteration : ℕ
  combines : ℕ

/-- `MeasureData.from_file`. -/
def MeasureData.fromFile (combineLines : Bool) (sets : H5File) (combines : ℤ)
    (combineAll : Bool) : Except Raised (MeasureData combineLines) :=
  if combines ≤ 0 then .error .valueError
  else .ok
    { file := ⟨sets, false⟩, iteration := 0
      combines := if combineAll = true then sets.length else combines.toNat }

variable {combineLines : Bool}

/-- `MeasureData.__len__`; `⌈/⌉` is `ceil` of an exact quotient. -/
def MeasureData.len (m : MeasureData combineLines) : Except Raised ℕ := do
  let n ← m.file.len
  if m.combines = 0 then .error .zeroDivisionError else .ok (n ⌈/⌉ m.combines)

/-- The items of the rows of a chunk. -/
def items (rows : List (List α)) : (combineLines : Bool) → Except Raised (Frame α combineLines)
  | true => rows.mapM (reduce fun x y => A.add (A.uint64 x) (A.uint64 y))
  | false => .ok (rows.map fun row => row.map A.uint64)

/-- `MeasureData.chunk_at`. -/
def MeasureData.chunkAt (m : MeasureData combineLines) (key : ℕ) :
    Except Raised (Frame α combineLines) := do
  let chunk ← m.file.get (toString key)
  items A (chunk.rows A) combineLines

/-! ### The parallel sum -/

/-- The processes of one parallel sum: how many there are, and the order in which their results
arrive. -/
structure Pool where
  cpuCount : ℕ
  cpuCount_pos : 0 < cpuCount
  arrivals : List ℕ
  arrivals_perm : arrivals.Perm (List.range cpuCount)

/-- `numpy.zeros` in the shape of a frame. -/
def zeros : {combineLines : Bool} → Frame α combineLines → Except Raised (Frame α combineLines)
  | true, first => .ok (List.replicate first.length A.zero)
  | false, [] => .error .indexError
  | false, row :: rows => .ok (List.replicate (rows.length + 1) (List.replicate row.length A.zero))

/-- `image_worker`. With `combines = 1`, `measurement[i]` is `chunk_at(i)`. -/
def imageWorker (combineLines : Bool) (sets : H5File) (cpuCount coreId : ℕ) :
    Except Raised (Frame α combineLines) := do
  let measurement ← MeasureData.fromFile combineLines sets 1 false
  let len ← measurement.len
  let start := (len ⌈/⌉ cpuCount) * coreId
  let stop := (len ⌈/⌉ cpuCount) * (coreId + 1)
  let stop := if len ≤ stop then stop - (stop - len) else stop
  let first ← measurement.chunkAt A 0
  let result ← zeros A first
  (List.range' start (stop - start)).foldlM
    (fun result i => do
      let chunk ← measurement.chunkAt A i
      pure (Frame.add A result chunk)) result

/-- `generate_image`. -/
def generateImage (combineLines : Bool) (sets : H5File) (pool : Pool) :
    Except Raised (Frame α combineLines) :=
  match pool.arrivals.mapM (imageWorker A combineLines sets pool.cpuCount) with
  | .ok (result :: results) => .ok (results.foldl (Frame.add A) result)
  | _ => .error .blocked

/-! ### Frames -/

/-- `MeasureData.__getitem__`, with the object afterwards. -/
def MeasureData.getItem (pool : Pool) (key : ℕ) (m : MeasureData combineLines) :
    Except Raised (Frame α combineLines) × MeasureData combineLines :=
  if m.combines = 1 then (m.chunkAt A key, m)
  else match m.len with
    | .error e => (.error e, m)
    | .ok len =>
      if len < key then (.error .keyError, m)
      else if len = 1 then
        (generateImage A combineLines m.file.sets pool, { m with file.closed := true })
      else
        let rest := m.file.sets.length % m.combines
        let maxCombines := if len = key ∧ rest ≠ 0 then rest else m.combines
        let frame := do
          let data ← (List.range maxCombines).mapM fun n => m.chunkAt A (key + n)
          reduce (Frame.add A) data
        (frame, m)

/-- `except KeyError: raise StopIteration`. -/
def stopping {β : Type} : Except Raised β → Except Raised β
  | .error .keyError => .error .stopIteration
  | result => result

/-- `MeasureData.__next__`, with the object afterwards. -/
def MeasureData.next (pool : Pool) (m : MeasureData combineLines) :
    Except Raised (Frame α combineLines) × MeasureData combineLines :=
  let result := ({ m with iteration := m.iteration + 1 } : MeasureData combineLines).getItem A pool
    m.iteration
  (stopping result.1, result.2)

end

end CacheNoise
