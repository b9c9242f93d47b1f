import CacheNoise.General.Separators
import CacheNoise.Profile.Iterations

/-!
# The text of the matrices

What `outputw_mat_ui32` prints is a text of lines, one for each set, and `readRows` reads it line
by line. Nothing is lost (`Writing.uniquely_decodable`): from the text of a non-empty sequence of
matrices of one shape, the reader has the values of every set in order, and the text determines the
shape, the number of the matrices and every entry, although nothing stands between two matrices but
the restart of the set numbers.

The decimal numerals have no leading zeros and any length, but no digit is a separator
(`notMem_numeral`), so a line is cut at its separators first and each numeral is read on its own
(`readRow_render`). Once the lines are known, the length of the first one is the number of ways, the
number of lines of set 0 is the number of matrices, and with that the lines are cut into matrices.

Since `profile` only prints its matrices, its text has the matrices that it measured
(`readRows_profile`).
-/

namespace CacheNoise

open Interaction Separators

/-! ### Texts -/

/-- What an event prints to a stream. -/
def printedBy (stream : Stream) : Event → Option String
  | ⟨.fprintf stream' text, _⟩ => if stream' = stream then some text else none
  | _ => none

/-- The text that the events print to a stream. -/
def printed (stream : Stream) (t : List Event) : String :=
  String.join (t.filterMap (printedBy stream))

theorem printed_append (stream : Stream) (t₁ t₂ : List Event) :
    (printed stream (t₁ ++ t₂)).toList =
      (printed stream t₁).toList ++ (printed stream t₂).toList := by
  simp only [printed, String.toList_join, List.filterMap_append, List.flatMap_append]

theorem printed_of_forall {stream : Stream} {t : List Event}
    (h : ∀ e ∈ t, printedBy stream e = none) : (printed stream t).toList = [] := by
  rw [printed, List.filterMap_eq_nil_iff.mpr h]
  rfl

/-- Printing without a failure prints all texts. -/
theorem printed_fprintfAll {stream : Stream} {texts : List String} {t : List Event}
    (h : (fprintfAll stream texts).Run t (some errorNone)) :
    t.filterMap (printedBy stream) = texts := by
  induction texts generalizing t with
  | nil =>
    obtain ⟨rfl, -⟩ := h
    rfl
  | cons text texts ih =>
    obtain ⟨a, t, rfl, hrest⟩ := run_sys_bind.mp h
    split_ifs at hrest with hfails
    · exact absurd (Option.some.inj hrest.2) (by decide)
    · have hprinted : printedBy stream ⟨.fprintf stream text, a⟩ = some text := if_pos rfl
      rw [List.filterMap_cons_some hprinted, ih hrest]

/-- Texts that are printed without a failure. -/
theorem exists_run_fprintfAll (stream : Stream) (texts : List String) :
    ∃ t, (fprintfAll stream texts).Run t (some errorNone) := by
  induction texts with
  | nil => exact ⟨[], rfl, rfl⟩
  | cons text texts ih =>
    obtain ⟨t, hrest⟩ := ih
    exact ⟨⟨.fprintf stream text, ⟨[], 0⟩⟩ :: t, run_sys_bind.mpr ⟨_, t, rfl, hrest⟩⟩

/-! ### Rows -/

/-- A line of the text: a set with the values of its ways. -/
structure Row where
  set : ℕ
  values : List UInt32
  deriving DecidableEq

/-- The row of a set of a matrix. -/
def setRow (data : UInt64 → UInt32) (dimX : UInt64) (set : ℕ) : Row :=
  ⟨set, (List.range dimX.toNat).map fun way => data (UInt64.ofNat set * dimX + UInt64.ofNat way)⟩

/-- The rows of a matrix. -/
def matRows (data : UInt64 → UInt32) (dimX dimY : UInt64) : List Row :=
  (List.range dimY.toNat).map (setRow data dimX)

/-- Two matrices of one shape have the same entries. -/
def SameEntries (dimX dimY : UInt64) (data data' : UInt64 → UInt32) : Prop :=
  ∀ set < dimY.toNat, ∀ way < dimX.toNat,
    data (UInt64.ofNat set * dimX + UInt64.ofNat way) =
      data' (UInt64.ofNat set * dimX + UInt64.ofNat way)

/-- The rows of a matrix have all its entries. -/
theorem sameEntries_of_matRows {dimX dimY : UInt64} {data data' : UInt64 → UInt32}
    (h : matRows data dimX dimY = matRows data' dimX dimY) : SameEntries dimX dimY data data' := by
  intro set hset way hway
  have hrow := List.map_inj_left.mp h set (List.mem_range.mpr hset)
  exact List.map_inj_left.mp (congrArg Row.values hrow) way (List.mem_range.mpr hway)

/-- A decimal numeral, as `%u` and `%lu` print it. -/
def numeral (n : ℕ) : List Char := Nat.toDigits 10 n

/-- The line of a row up to the colon. -/
def Row.head (row : Row) : List Char := "set ".toList ++ numeral row.set

/-- The numerals of the values of a row. -/
def Row.fields (row : Row) : List (List Char) := row.values.map fun value => numeral value.toNat

/-- The line of a row, without its end. -/
def Row.render (row : Row) : List Char :=
  row.head ++ ": ".toList ++ [','].intercalate row.fields

/-- Read a line: the number of the set stands between the first word and the colon, and the values
are separated by commas. -/
def readRow (line : List Char) : Row :=
  let head := line.takeWhile (· ≠ ':')
  let values := line.drop (head.length + 2)
  ⟨Nat.ofDigitChars 10 (head.drop 4) 0,
    (values.splitOn ',').map fun value => UInt32.ofNat (Nat.ofDigitChars 10 value 0)⟩

/-- Read a text line by line. -/
def readRows (text : String) : List Row := (lines '\n' text.toList).map readRow

theorem notMem_numeral {c : Char} (hc : c.isDigit = false) (n : ℕ) : c ∉ numeral n := fun h =>
  Bool.eq_false_iff.mp hc (Nat.isDigit_of_mem_toDigits (by norm_num) (by norm_num) h)

namespace Row

variable {row : Row}

theorem notMem_head {c : Char} (hword : c ∉ "set ".toList) (hc : c.isDigit = false) :
    c ∉ row.head := fun h =>
  (List.mem_append.mp h).elim hword (notMem_numeral hc _)

theorem notMem_fields {c : Char} (hc : c.isDigit = false) : ∀ field ∈ row.fields, c ∉ field := by
  intro field hfield
  obtain ⟨value, -, rfl⟩ := List.mem_map.mp hfield
  exact notMem_numeral hc _

/-- A line does not contain its end. -/
theorem notMem_render : '\n' ∉ row.render := by
  have hhead : '\n' ∉ row.head ++ ": ".toList := fun h =>
    (List.mem_append.mp h).elim (notMem_head (by simp) rfl) (by simp)
  exact fun h => (List.mem_append.mp h).elim hhead
    (notMem_intercalate (by decide) (notMem_fields rfl))

theorem takeWhile_render : row.render.takeWhile (· ≠ ':') = row.head := by
  have hhead : ∀ c ∈ row.head, decide (c ≠ ':') = true := fun c hc =>
    decide_eq_true fun heq => notMem_head (by simp) rfl (heq ▸ hc)
  rw [render, List.append_assoc, List.takeWhile_append_of_pos hhead]
  exact List.append_nil row.head

theorem drop_render : row.render.drop (row.head.length + 2) = [','].intercalate row.fields :=
  List.drop_left' (List.length_append ..)

end Row

/-- The value of a field. -/
theorem readField_numeral (value : UInt32) :
    UInt32.ofNat (Nat.ofDigitChars 10 (numeral value.toNat) 0) = value := by
  rw [numeral, Nat.ofDigitChars_ten_toDigits, UInt32.ofNat_toNat]

/-- **A line is read back.** -/
theorem readRow_render {row : Row} (h : row.values ≠ []) : readRow row.render = row := by
  have hnumber : Nat.ofDigitChars 10 (row.head.drop 4) 0 = row.set := Nat.ofDigitChars_ten_toDigits
  have hfields : ([','].intercalate row.fields).splitOn ',' = row.fields :=
    List.splitOn_intercalate ',' (Row.notMem_fields rfl) (List.map_eq_nil_iff.not.mpr h)
  have hvalues : row.fields.map (fun field => UInt32.ofNat (Nat.ofDigitChars 10 field 0)) =
      row.values := by
    rw [Row.fields, List.map_map]
    exact List.map_id'' readField_numeral row.values
  rw [readRow]
  simp only [Row.takeWhile_render, Row.drop_render, hnumber, hfields, hvalues]

/-- **Lines are read back.** -/
theorem readRows_of_render {rows : List Row} (h : ∀ row ∈ rows, row.values ≠ []) {text : String}
    (htext : text.toList = terminated '\n' (rows.map Row.render)) : readRows text = rows := by
  have hends : ∀ line ∈ rows.map Row.render, '\n' ∉ line := by
    intro line hline
    obtain ⟨row, -, rfl⟩ := List.mem_map.mp hline
    exact Row.notMem_render
  rw [readRows, htext, lines_terminated hends, List.map_map]
  exact (List.map_congr_left fun row hrow => readRow_render (h row hrow)).trans (List.map_id rows)

/-! ### The text of a matrix -/

theorem toList_toString_u32 (n : UInt32) : (toString n).toList = numeral n.toNat :=
  Nat.toList_repr

theorem toList_toString_u64 (n : UInt64) : (toString n).toList = numeral n.toNat :=
  Nat.toList_repr

section

variable (data : UInt64 → UInt32) {dimX : UInt64} (hdimX : 0 < dimX)

include hdimX

/-- The numbers of the ways: the first one is printed on its own. -/
theorem range_dimX : List.range dimX.toNat = 0 :: List.range' 1 (dimX.toNat - 1) := by
  have hpos : 0 < dimX.toNat := UInt64.lt_iff_toNat_lt.mp hdimX
  obtain ⟨n, hn⟩ := Nat.exists_eq_succ_of_ne_zero hpos.ne'
  rw [hn, List.range_eq_range', List.range'_succ]
  rfl

/-- The values of a row: the first one stands in the texts without a way to add. -/
theorem fields_setRow (set : ℕ) : (setRow data dimX set).fields =
    numeral (data (UInt64.ofNat set * dimX)).toNat ::
      (List.range' 1 (dimX.toNat - 1)).map fun way =>
        numeral (data (UInt64.ofNat set * dimX + UInt64.ofNat way)).toNat := by
  have hzero : UInt64.ofNat set * dimX + UInt64.ofNat 0 = UInt64.ofNat set * dimX :=
    UInt64.add_zero _
  rw [Row.fields, setRow, range_dimX hdimX, List.map_cons, List.map_cons, hzero, List.map_map]
  rfl

/-- The texts of a set are the line of its row. -/
theorem toList_setTexts {set : ℕ} (hset : set < 2 ^ 64) :
    (setTexts data dimX (UInt64.ofNat set)).flatMap String.toList =
      (setRow data dimX set).render ++ ['\n'] := by
  have hnumber : (toString (UInt64.ofNat set)).toList = numeral set := by
    rw [toList_toString_u64, UInt64.toNat_ofNat_of_lt' hset]
  have hway : ∀ way : ℕ,
      ("," ++ toString (data (UInt64.ofNat set * dimX + UInt64.ofNat way))).toList =
        ',' :: numeral (data (UInt64.ofNat set * dimX + UInt64.ofNat way)).toNat := by
    intro way
    rw [String.toList_append, toList_toString_u32]
    rfl
  rw [setTexts, Row.render, Row.head, fields_setRow data hdimX, intercalate_cons]
  simp only [List.flatMap_append, List.flatMap_cons, List.flatMap_map, String.toList_append,
    hnumber, hway, toList_toString_u32, List.append_assoc]
  rfl

/-- **The text of a matrix** is its rows, each on a line. -/
theorem toList_matTexts (dimY : UInt64) : (matTexts data dimX dimY).flatMap String.toList =
    terminated '\n' ((matRows data dimX dimY).map Row.render) := by
  rw [matTexts, List.flatMap_assoc, matRows, List.map_map, terminated, List.flatMap_map]
  refine List.flatMap_congr fun set hset => toList_setTexts data hdimX ?_
  exact (List.mem_range.mp hset).trans dimY.toNat_lt

end

/-! ### Writing matrices -/

/-- Write matrices of one shape one after another, up to the first failure, as the loop of `profile`
does. -/
def writeMatrices (output : OutputT) (dimX dimY : UInt64) :
    List (UInt64 → UInt32) → Proc (ErrorT × OutputT)
  | [] => pure (errorNone, output)
  | data :: matrices => do
    let (res, output) ← outputwMatUi32 output data dimX dimY
    if res ≠ errorNone then pure (res, output) else writeMatrices output dimX dimY matrices

section

variable {output output' : OutputT} {dimX dimY : UInt64} {t : List Event}
  (hstdout : output.type = outputStdout)

include hstdout

/-- A successful write prints the texts of the matrix, and leaves the output as it is. -/
theorem printed_outputwMatUi32 {data : UInt64 → UInt32}
    (h : (outputwMatUi32 output data dimX dimY).Run t (some (errorNone, output'))) :
    output' = output ∧
      (printed output.std t).toList = (matTexts data dimX dimY).flatMap String.toList := by
  rw [outputwMatUi32, if_pos hstdout] at h
  obtain ⟨t₁, t₂, res, rfl, hprint, rfl, hres⟩ | ⟨hnone, -⟩ := Prog.run_bind.mp h
  · obtain ⟨rfl, rfl⟩ := Prod.mk.inj (Option.some.inj hres)
    rw [List.append_nil, printed, String.toList_join, printed_fprintfAll hprint]
    exact ⟨rfl, rfl⟩
  · cases hnone

/-- **The text of a sequence of matrices** is their rows, each on a line. -/
theorem printed_writeMatrices (hdimX : 0 < dimX) {matrices : List (UInt64 → UInt32)}
    (h : (writeMatrices output dimX dimY matrices).Run t (some (errorNone, output'))) :
    (printed output.std t).toList =
      terminated '\n' ((matrices.flatMap (matRows · dimX dimY)).map Row.render) := by
  induction matrices generalizing t with
  | nil =>
    obtain ⟨rfl, -⟩ := h
    rfl
  | cons data matrices ih =>
    obtain ⟨t₁, t₂, ⟨res, output₁⟩, rfl, hwrite, hrest⟩ | ⟨hnone, -⟩ := Prog.run_bind.mp h
    swap
    · cases hnone
    simp only at hrest
    by_cases hres : res = errorNone
    · obtain rfl := hres
      rw [if_neg (not_not.mpr rfl)] at hrest
      obtain ⟨rfl, htext⟩ := printed_outputwMatUi32 hstdout hwrite
      rw [printed_append, htext, toList_matTexts data hdimX, ih hrest, List.flatMap_cons,
        List.map_append, terminated_append]
    · rw [if_pos hres] at hrest
      exact absurd (congrArg Prod.fst (Option.some.inj hrest.2)).symm hres

/-- Writes that succeed. -/
theorem exists_run_writeMatrices (dimX dimY : UInt64) (matrices : List (UInt64 → UInt32)) :
    ∃ t, (writeMatrices output dimX dimY matrices).Run t (some (errorNone, output)) := by
  induction matrices with
  | nil => exact ⟨[], rfl, rfl⟩
  | cons data matrices ih =>
    obtain ⟨t₁, hprint⟩ := exists_run_fprintfAll output.std (matTexts data dimX dimY)
    obtain ⟨t₂, hrest⟩ := ih
    refine ⟨t₁ ++ t₂, Prog.Run.bind (a := (errorNone, output)) ?_ hrest⟩
    rw [outputwMatUi32, if_pos hstdout, ← List.append_nil t₁]
    exact Prog.Run.bind hprint ⟨rfl, rfl⟩

end

theorem values_ne_nil {dimX dimY : UInt64} (hdimX : 0 < dimX) {matrices : List (UInt64 → UInt32)} :
    ∀ row ∈ matrices.flatMap (matRows · dimX dimY), row.values ≠ [] := by
  intro row hrow
  obtain ⟨data, -, hrow⟩ := List.mem_flatMap.mp hrow
  obtain ⟨set, -, rfl⟩ := List.mem_map.mp hrow
  rw [setRow, range_dimX hdimX, List.map_cons]
  exact List.cons_ne_nil _ _

/-- A sequence of matrices of one shape that was written to a stream. -/
structure Writing where
  output : OutputT
  stdout : output.type = outputStdout
  ways : UInt64
  ways_pos : 0 < ways
  sets : UInt64
  sets_pos : 0 < sets
  matrices : List (UInt64 → UInt32)
  matrices_ne_nil : matrices ≠ []
  events : List Event
  after : OutputT
  run : (writeMatrices output ways sets matrices).Run events (some (errorNone, after))

namespace Writing

/-- Whatever matrices there are, they can be written. -/
theorem exists_of_matrices {output : OutputT} (hstdout : output.type = outputStdout)
    {ways sets : UInt64} (hways : 0 < ways) (hsets : 0 < sets)
    {matrices : List (UInt64 → UInt32)} (hmatrices : matrices ≠ []) :
    ∃ w : Writing, w.output = output ∧ w.ways = ways ∧ w.sets = sets ∧ w.matrices = matrices := by
  obtain ⟨t, hrun⟩ := exists_run_writeMatrices hstdout ways sets matrices
  exact ⟨⟨output, hstdout, ways, hways, sets, hsets, matrices, hmatrices, t, output, hrun⟩,
    rfl, rfl, rfl, rfl⟩

/-- The text that was written. -/
def text (w : Writing) : String := printed w.output.std w.events

/-- The entries, as the rows of each matrix. -/
def entries (w : Writing) : List (List Row) := w.matrices.map (matRows · w.ways w.sets)

/-- The reader has the rows of all matrices. -/
theorem readRows_text (w : Writing) : readRows w.text = w.entries.flatten := by
  rw [entries, ← List.flatMap_def]
  exact readRows_of_render (values_ne_nil w.ways_pos)
    (printed_writeMatrices w.stdout w.ways_pos w.run)

theorem length_of_mem_entries {w : Writing} : ∀ rows ∈ w.entries, rows.length = w.sets.toNat := by
  intro rows hrows
  obtain ⟨data, -, rfl⟩ := List.mem_map.mp hrows
  rw [matRows, List.length_map, List.length_range]

theorem length_flatten_entries (w : Writing) :
    w.entries.flatten.length = w.matrices.length * w.sets.toNat := by
  rw [List.length_flatten, List.map_congr_left length_of_mem_entries, List.map_const',
    List.sum_replicate_nat, entries, List.length_map]

/-- The first row has a value for each way. -/
theorem length_values_head (w : Writing) :
    w.entries.flatten.head?.map (fun row => row.values.length) = some w.ways.toNat := by
  obtain ⟨data, matrices, hmatrices⟩ := List.exists_cons_of_ne_nil w.matrices_ne_nil
  rw [entries, hmatrices, List.map_cons, List.flatten_cons, matRows, range_dimX w.sets_pos]
  simp [setRow]

/-- Each matrix has one row of the set 0. -/
theorem countP_entries (w : Writing) :
    w.entries.flatten.countP (fun row => row.set = 0) = w.matrices.length := by
  have hone : ∀ data, (matRows data w.ways w.sets).countP (fun row => row.set = 0) = 1 := by
    intro data
    have hrest : (List.range' 1 (w.sets.toNat - 1)).countP (· = 0) = 0 := by
      refine List.countP_eq_zero.mpr fun set hset => ?_
      have := List.mem_range'_1.mp hset
      simp only [decide_eq_true_eq]
      omega
    rw [matRows, List.countP_map, range_dimX w.sets_pos, List.countP_cons_of_pos rfl]
    exact congrArg (· + 1) hrest
  rw [List.countP_flatten, entries, List.map_map]
  simp [Function.comp_def, hone]

/-- **The text loses nothing**: the reader has the values of every set of every matrix in order, and
two sequences of matrices with the same text have the same shape, the same length and the same
entries. -/
theorem uniquely_decodable (w : Writing) :
    readRows w.text = w.matrices.flatMap (matRows · w.ways w.sets) ∧
      ∀ w' : Writing, w'.text = w.text → w'.ways = w.ways ∧ w'.sets = w.sets ∧
        List.Forall₂ (SameEntries w.ways w.sets) w'.matrices w.matrices := by
  refine ⟨w.readRows_text, fun w' htext => ?_⟩
  have hrows : w'.entries.flatten = w.entries.flatten := by
    rw [← readRows_text, ← readRows_text, htext]
  have hways : w'.ways = w.ways := by
    have hhead := w'.length_values_head
    rw [hrows, w.length_values_head] at hhead
    exact UInt64.toNat_inj.mp (Option.some.inj hhead).symm
  have hlength : w'.matrices.length = w.matrices.length := by
    rw [← countP_entries, ← countP_entries, hrows]
  have hsets : w'.sets = w.sets := by
    have hlengths := w'.length_flatten_entries
    rw [hrows, w.length_flatten_entries, hlength] at hlengths
    exact UInt64.toNat_inj.mp
      (Nat.eq_of_mul_eq_mul_left (List.length_pos_iff.mpr w.matrices_ne_nil) hlengths).symm
  -- the lines of one shape are cut into matrices in one way only
  have hentries : w'.entries = w.entries := by
    refine flatten_inj (UInt64.lt_iff_toNat_lt.mp w.sets_pos) ?_ length_of_mem_entries hrows
    rw [← hsets]
    exact length_of_mem_entries
  refine ⟨hways, hsets, ?_⟩
  rw [entries, entries, hways, hsets, ← List.forall₂_eq_eq_eq, List.forall₂_map_left_iff,
    List.forall₂_map_right_iff] at hentries
  exact hentries.imp fun _ _ => sameEntries_of_matRows

/-- Two matrices of one set and two ways. -/
def two : Writing where
  output := ⟨outputStdout, .stdout, -1, 0⟩
  stdout := rfl
  ways := 2
  ways_pos := by decide
  sets := 1
  sets_pos := by decide
  matrices := [fun i => i.toUInt32 + 9, fun _ => 0]
  matrices_ne_nil := List.cons_ne_nil _ _
  events := ((writeMatrices ⟨outputStdout, .stdout, -1, 0⟩ 2 1
    [fun i => i.toUInt32 + 9, fun _ => 0]).exec goodMachine []).1
  after := ⟨outputStdout, .stdout, -1, 0⟩
  run := Prog.run_exec goodMachine _ []

theorem uniquely_decodable_two : readRows two.text = [⟨0, [9, 10]⟩, ⟨0, [0, 0]⟩] :=
  two.uniquely_decodable.1

end Writing

/-! ### The text of `profile` -/

/-- The matrix that an event measures. -/
def measuredBy : Event → Option (UInt64 → UInt32)
  | ⟨.probe .., a⟩ => some a.value
  | _ => none

theorem measuredBy_eq_none {e : Event} (h : measures e = false) : measuredBy e = none := by
  obtain ⟨c, a⟩ := e
  cases c <;> first | rfl | cases h

/-- What the events print are the matrices that they measure. -/
def PrintsMeasured (stream : Stream) (dimX dimY : UInt64) (t : List Event) : Prop :=
  (printed stream t).toList =
    terminated '\n' (((t.filterMap measuredBy).flatMap (matRows · dimX dimY)).map Row.render)

theorem PrintsMeasured.append {stream : Stream} {dimX dimY : UInt64} {t₁ t₂ : List Event}
    (h₁ : PrintsMeasured stream dimX dimY t₁) (h₂ : PrintsMeasured stream dimX dimY t₂) :
    PrintsMeasured stream dimX dimY (t₁ ++ t₂) := by
  rw [PrintsMeasured, printed_append, h₁, h₂, List.filterMap_append, List.flatMap_append,
    List.map_append, terminated_append]

/-- Events that neither print nor measure. -/
theorem printsMeasured_of_forall {stream : Stream} {dimX dimY : UInt64} {t : List Event}
    (h : ∀ e ∈ t, printedBy stream e = none ∧ measuredBy e = none) :
    PrintsMeasured stream dimX dimY t := by
  rw [PrintsMeasured, printed_of_forall fun e he => (h e he).1,
    List.filterMap_eq_nil_iff.mpr fun e he => (h e he).2]
  rfl

section

variable {cache : CacheInfo} {buffer : Ptr} {output output' : OutputT} {t : List Event}
  (hstdout : output.type = outputStdout) (hways : 0 < cache.waysOfAssociativity.toUInt64)

include hstdout hways

/-- An iteration prints what it has measured. -/
theorem Iteration.printsMeasured (h : Iteration cache buffer output t (errorNone, output')) :
    output' = output ∧ PrintsMeasured output.std cache.waysOfAssociativity.toUInt64
      cache.setCount.toUInt64 t := by
  obtain ⟨hread, hwrite⟩ := h
  obtain ⟨rfl, htext⟩ := printed_outputwMatUi32 hstdout hwrite
  have hmeasured : List.filterMap measuredBy _ = [] := List.filterMap_eq_nil_iff.mpr fun e he =>
    measuredBy_eq_none (unmeasured_of_kind (only_outputwMatUi32 _ _ _ _ _ _ hwrite e he)).measures
  refine ⟨rfl, ?_⟩
  rw [toList_matTexts _ hways] at htext
  refine htext.trans ?_
  simp only [List.filterMap_cons, measuredBy, hmeasured, List.flatMap_singleton]

theorem Iterations.printsMeasured {ts : List (List Event)}
    (h : Iterations cache buffer output ts output') :
    PrintsMeasured output.std cache.waysOfAssociativity.toUInt64 cache.setCount.toUInt64
      ts.flatten := by
  induction h with
  | nil output => rfl
  | cons hiteration hrest ih =>
    obtain ⟨rfl, hprints⟩ := hiteration.printsMeasured hstdout hways
    exact hprints.append (ih hstdout)

end

/-- The end of a run that succeeds prints nothing. -/
theorem Ends.printsMeasured {cache : CacheInfo} {buffer : Ptr} {iterations fd : UInt32} {j : ℕ}
    {output output' : OutputT} {t : List Event} {stream : Stream} {dimX dimY : UInt64}
    (h : Ends cache buffer iterations fd j output t (some (errorNone, output'))) :
    PrintsMeasured stream dimX dimY t := by
  have hdisable : (disableCpuCycleCounter fd).Within fun e =>
      printedBy stream e = none ∧ measuredBy e = none :=
    within_disableCpuCycleCounter fun _ => ⟨rfl, rfl⟩
  cases h with
  | done _ _ hrun => exact printsMeasured_of_forall (hdisable _ _ hrun)
  | seen _ _ hrun =>
    exact printsMeasured_of_forall (List.forall_mem_cons.mpr ⟨⟨rfl, rfl⟩, hdisable _ _ hrun⟩)
  | failed _ hres _ => exact absurd rfl hres

/-- **`profile` prints the matrices that it measures**: the rows that are read from its text are
those of the matrices, in the order in which they were measured. -/
theorem readRows_profile {fuel : ℕ} {cache : CacheInfo} {cpu iterations : UInt32} {buffer : Ptr}
    {output output' : OutputT} {t : List Event} (hstdout : output.type = outputStdout)
    (hways : 0 < cache.waysOfAssociativity.toUInt64)
    (h : (profile fuel cache cpu iterations buffer output).Run t (some (errorNone, output'))) :
    readRows (printed output.std t) = (t.filterMap measuredBy).flatMap
      (matRows · cache.waysOfAssociativity.toUInt64 cache.setCount.toUInt64) := by
  obtain ⟨hnone, -⟩ | ⟨fd, start, ts, tail, output₁, rfl, henable, hts, hends, -⟩ := profile_run h
  · exact absurd (Prod.mk.inj (Option.some.inj hnone)).1 (by decide)
  have hquiet : (enableCpuCycleCounter cpu).Within fun e =>
      printedBy output.std e = none ∧ measuredBy e = none :=
    within_enableCpuCycleCounter (fun _ => ⟨rfl, rfl⟩) fun _ _ _ => ⟨rfl, rfl⟩
  have hstart : PrintsMeasured output.std cache.waysOfAssociativity.toUInt64
      cache.setCount.toUInt64 start := printsMeasured_of_forall (hquiet _ _ henable)
  exact readRows_of_render (values_ne_nil hways)
    (hstart.append ((hts.printsMeasured hstdout hways).append hends.printsMeasured))

end CacheNoise
