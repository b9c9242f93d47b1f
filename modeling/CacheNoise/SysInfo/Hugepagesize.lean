import CacheNoise.SysInfo.CacheFiles
import Mathlib.Data.List.TakeWhile

/-!
# The size of a huge page

`get_hugepagesize` over the text of `/proc/meminfo`, with its two arrays of 100 characters: the
lines are read into `line` until one begins with `Hugepagesize:`, its digits are copied to
`number`, and `atoi` converts them. The arrays are never left. But the number of kibibytes is
multiplied by 1024 in an `int`, a line without a digit counts as the number 0, and on an empty
file the test after the loop looks at an array in which nothing was stored
(`readsHugepagesize_iff`).
-/

namespace CacheNoise

/-! ### Arrays and strings -/

/-- What the language leaves undefined. -/
inductive Undefined
  /-- An array is left. -/
  | outOfBounds
  /-- An `int` overflows. -/
  | overflow
  deriving DecidableEq

/-- A step that returns. -/
theorem bind_eq_ok {α β : Type} {x : Except Undefined α} {f : α → Except Undefined β} {b : β} :
    x >>= f = .ok b ↔ ∃ a, x = .ok a ∧ f a = .ok b := by
  cases x with
  | error e => exact iff_of_false (fun h => by cases h) (fun ⟨a, h, _⟩ => by cases h)
  | ok a => exact ⟨fun h => ⟨a, rfl, h⟩, fun ⟨a', h, h'⟩ => by cases h; exact h'⟩

/-- The string at the begin of an array, up to the first zero. -/
def cString (bytes : List Char) : Except Undefined (List Char) :=
  if '\x00' ∈ bytes then .ok (bytes.takeWhile (· ≠ '\x00')) else .error .outOfBounds

/-- `bytes[i] = c`. -/
def storeAt (bytes : List Char) (i : ℕ) (c : Char) : Except Undefined (List Char) :=
  if i < bytes.length then .ok (bytes.set i c) else .error .outOfBounds

/-- At most `n` characters of a line, with the line feed, and the rest of the text. -/
def readLine : ℕ → List Char → List Char × List Char
  | 0, text => ([], text)
  | _ + 1, [] => ([], [])
  | n + 1, c :: text =>
    if c = '\n' then ([c], text)
    else
      match readLine n text with
      | (read, rest) => (c :: read, rest)

/-- `fgets(line, size, file)`: the array and the rest of the file, or `none` at its end. -/
def fgets (line : List Char) (size : ℕ) (text : List Char) :
    Except Undefined (Option (List Char × List Char)) :=
  match readLine (size - 1) text with
  | ([], _) => .ok none
  | (read, rest) =>
    if read.length < line.length then
      .ok (some (read ++ '\x00' :: line.drop (read.length + 1), rest))
    else .error .outOfBounds

/-- `atoi` of digits. -/
def atoi (digits : List Char) : Except Undefined ℕ :=
  if decimal digits < 2 ^ 31 then .ok (decimal digits) else .error .overflow

/-- The product of two `int`s that are not negative. -/
def intMul (a b : ℕ) : Except Undefined ℕ :=
  if a * b < 2 ^ 31 then .ok (a * b) else .error .overflow

/-! ### `get_hugepagesize` -/

/-- The text at the begin of the line. -/
def hugepagesize : List Char := ['H', 'u', 'g', 'e', 'p', 'a', 'g', 'e', 's', 'i', 'z', 'e', ':']

/-- The prefix is a string: it has no zero. -/
theorem hugepagesize_ne_zero : ∀ c ∈ hugepagesize, (decide (c ≠ '\x00')) = true :=
  List.all_eq_true.mp rfl

/-- One pass of the loop over the lines. -/
def findLineStep : List Char × List Char → Except Undefined (List Char) ⊕ List Char × List Char
  | (text, line) =>
    match fgets line 99 text with
    | .error e => .inl (.error e)
    | .ok none => .inl (.ok line)
    | .ok (some (line, rest)) =>
      match cString line with
      | .error e => .inl (.error e)
      | .ok str => if strStartsWith hugepagesize str then .inl (.ok line) else .inr (rest, line)

/-- The loop over the lines; each pass takes at least one character from the text. -/
def findLine (text line : List Char) : Except Undefined (List Char) :=
  (Iteration.run findLineStep (text.length + 1) (text, line)).getD (.ok line)

/-- The loop that copies the digits of the line to `number`. -/
def copyDigits : List Char → List Char → List Char
  | [], number => number
  | c :: line, number =>
    if number.length < 100 then copyDigits line (if c.isDigit then number ++ [c] else number)
    else number

/-- `get_hugepagesize`, over the text of the file (`none` if it can not be opened) and what is in
the array `line` before; an error leaves `*size` alone. -/
def getHugepagesizeFrom (meminfo : Option (List Char)) (line : List Char) :
    Except Undefined (Except ErrorT UInt64) :=
  match meminfo with
  | none => .ok (.error errorIoProcMeminfo)
  | some text => do
    let line ← storeAt line 99 '\x00'
    let line ← findLine text line
    let str ← cString line
    if !strStartsWith hugepagesize str then return .error errorIoProcMeminfo
    let number := copyDigits str []
    if 100 ≤ number.length then throw .outOfBounds
    let n ← atoi number
    let size ← intMul n 1024
    return .ok (UInt64.ofNat size)

/-! ### Lines -/

/-- The first line that begins with `Hugepagesize:`. -/
def hugepagesizeLine (text : List Char) : Option (List Char) :=
  (text.splitOn '\n').find? (strStartsWith hugepagesize)

/-- `str_starts_with` asks for a prefix. -/
theorem strStartsWith_iff {pre str : List Char} : strStartsWith pre str = true ↔ pre <+: str := by
  rw [strStartsWith, List.prefix_iff_eq_take]
  split_ifs with hlt
  · refine iff_of_false not_false fun h => ?_
    have := congrArg List.length h
    rw [List.length_take] at this
    omega
  · rw [beq_iff_eq, eq_comm]

/-- A text is its first line, and what follows: nothing, or a line feed and the other lines. -/
theorem exists_line (text : List Char) : ∃ piece tail : List Char, text = piece ++ tail ∧
    '\n' ∉ piece ∧ (tail = [] ∨ ∃ rest, tail = '\n' :: rest) := by
  induction text with
  | nil => exact ⟨[], [], rfl, List.not_mem_nil, .inl rfl⟩
  | cons c text ih =>
    by_cases hc : c = '\n'
    · exact ⟨[], c :: text, rfl, List.not_mem_nil, .inr ⟨text, by rw [hc]⟩⟩
    · obtain ⟨piece, tail, rfl, hpiece, htail⟩ := ih
      exact ⟨c :: piece, tail, rfl, List.not_mem_cons_of_ne_of_not_mem (Ne.symm hc) hpiece, htail⟩

section

variable {piece tail : List Char} (hpiece : '\n' ∉ piece)
  (htail : tail = [] ∨ ∃ rest, tail = '\n' :: rest)

include hpiece htail

/-- A line is read as a whole if there is room for it. -/
theorem readLine_eq {n : ℕ} (hn : piece.length < n) :
    readLine n (piece ++ tail) = (piece ++ tail.take 1, tail.drop 1) := by
  induction piece generalizing n with
  | nil =>
    obtain ⟨n, rfl⟩ : ∃ k, n = k + 1 := ⟨n - 1, by simp at hn; omega⟩
    obtain rfl | ⟨rest, rfl⟩ := htail <;> rfl
  | cons c piece ih =>
    obtain ⟨n, rfl⟩ : ∃ k, n = k + 1 := ⟨n - 1, by simp at hn; omega⟩
    obtain ⟨hc, hpiece⟩ := not_or.mp (List.mem_cons.not.mp hpiece)
    rw [List.cons_append, readLine, if_neg (Ne.symm hc), ih hpiece (by simpa using hn)]
    rfl

theorem splitOn_eq : (piece ++ tail).splitOn '\n' =
    piece :: if tail = [] then [] else (tail.drop 1).splitOn '\n' := by
  obtain rfl | ⟨rest, rfl⟩ := htail
  · rw [List.append_nil, List.splitOn_eq_singleton hpiece, if_pos rfl]
  · rw [List.splitOn_append_cons_self_of_not_mem hpiece, if_neg (List.cons_ne_nil _ _)]
    rfl

/-- The first line that begins with the text is this one, or it is looked for among the others. -/
theorem hugepagesizeLine_eq : hugepagesizeLine (piece ++ tail) =
    if strStartsWith hugepagesize piece then some piece else hugepagesizeLine (tail.drop 1) := by
  rw [hugepagesizeLine, splitOn_eq hpiece htail, List.find?_cons]
  cases hstarts : strStartsWith hugepagesize piece with
  | true => rfl
  | false =>
    obtain rfl | ⟨rest, rfl⟩ := htail
    · rfl
    · rw [if_neg (List.cons_ne_nil _ _)]
      rfl

/-- The other lines are lines of the text, too. -/
theorem short_drop {n : ℕ} (hn : 0 < n)
    (hshort : ∀ line ∈ (piece ++ tail).splitOn '\n', line.length < n) :
    ∀ line ∈ (tail.drop 1).splitOn '\n', line.length < n := by
  intro line hline
  obtain rfl | ⟨rest, rfl⟩ := htail
  · obtain rfl := List.mem_singleton.mp hline
    exact hn
  · rw [splitOn_eq hpiece (.inr ⟨rest, rfl⟩), if_neg (List.cons_ne_nil _ _)] at hshort
    exact hshort line (List.mem_cons_of_mem _ hline)

end

/-! ### The loop -/

/-- The string in the array after a line was read: the line, up to a zero in it. -/
def stringOf (piece tail : List Char) : List Char := (piece ++ tail.take 1).takeWhile (· ≠ '\x00')

/-- The line feed and zeros do not matter for how a line begins. -/
theorem strStartsWith_stringOf (piece : List Char) {tail : List Char}
    (htail : tail = [] ∨ ∃ rest, tail = '\n' :: rest) :
    strStartsWith hugepagesize (stringOf piece tail) = strStartsWith hugepagesize piece := by
  rw [Bool.eq_iff_iff, strStartsWith_iff, strStartsWith_iff, stringOf]
  have hfeed : '\n' ∉ hugepagesize := by decide
  constructor
  · intro h
    have hline : hugepagesize <+: piece ++ tail.take 1 := h.trans (List.takeWhile_prefix _)
    obtain rfl | ⟨rest, rfl⟩ := htail
    · rwa [List.take_nil, List.append_nil] at hline
    · obtain heq | hpre := List.prefix_concat_iff.mp hline
      · exact absurd (heq ▸ List.mem_append_right _ (List.mem_singleton_self _)) hfeed
      · exact hpre
  · rintro ⟨rest, rfl⟩
    rw [List.append_assoc, List.takeWhile_append_of_pos hugepagesize_ne_zero]
    exact List.prefix_append _ _

/-- The string in the array after the loop: the line that was found; without one, a string that does
not begin with the text, or the one from before if there was nothing to read. -/
def StringFound (text start str : List Char) : Prop :=
  match hugepagesizeLine text with
  | some piece => ∃ tail, (tail = [] ∨ ∃ rest, tail = '\n' :: rest) ∧ str = stringOf piece tail
  | none => (text = [] → str = start) ∧ (text ≠ [] → strStartsWith hugepagesize str = false)

/-- The string of an array in which a line and a zero were stored. -/
theorem cString_append (read rest : List Char) :
    cString (read ++ '\x00' :: rest) = .ok (read.takeWhile (· ≠ '\x00')) := by
  have hmem : '\x00' ∈ read ++ '\x00' :: rest := List.mem_append_right _ List.mem_cons_self
  rw [cString, if_pos hmem]
  refine congrArg Except.ok ?_
  induction read with
  | nil => rfl
  | cons c read ih =>
    rw [List.cons_append, List.takeWhile_cons, List.takeWhile_cons,
      ih (List.mem_append_right _ List.mem_cons_self)]

theorem fgets_eq {line text read rest : List Char} {size : ℕ}
    (hread : readLine (size - 1) text = (read, rest)) (hne : read ≠ [])
    (hroom : read.length < line.length) :
    fgets line size text = .ok (some (read ++ '\x00' :: line.drop (read.length + 1), rest)) := by
  rw [fgets, hread]
  cases read with
  | nil => exact absurd rfl hne
  | cons c read => exact if_pos hroom

/-- One pass, with a text that is not empty: the array holds the first line. -/
theorem findLineStep_eq {piece tail line : List Char} (hpiece : '\n' ∉ piece)
    (htail : tail = [] ∨ ∃ rest, tail = '\n' :: rest) (hne : piece ++ tail ≠ [])
    (hshort : piece.length < 98) (hline : line.length = 100) :
    ∃ line', line'.length = 100 ∧ cString line' = .ok (stringOf piece tail) ∧
      findLineStep (piece ++ tail, line) =
        if strStartsWith hugepagesize piece then .inl (.ok line')
        else .inr (tail.drop 1, line') := by
  have hnil : piece ++ tail.take 1 ≠ [] := by
    obtain rfl | ⟨rest, rfl⟩ := htail
    · simpa using hne
    · simp
  have hlength : (piece ++ tail.take 1).length ≤ 98 := by
    rw [List.length_append, List.length_take]
    omega
  have hgets : fgets line 99 (piece ++ tail) = _ :=
    fgets_eq (readLine_eq hpiece htail hshort) hnil (by omega)
  refine ⟨_, ?_, cString_append (piece ++ tail.take 1)
    (line.drop ((piece ++ tail.take 1).length + 1)), ?_⟩
  · rw [List.length_append, List.length_cons, List.length_drop, hline]
    omega
  · rw [findLineStep, hgets]
    simp only [cString_append]
    rw [← stringOf, strStartsWith_stringOf piece htail]

/-- The loop over a text of short lines, whatever the array holds. -/
theorem run_findLineStep : ∀ (fuel : ℕ) (text line start : List Char), text.length < fuel →
    line.length = 100 → cString line = .ok start →
    (∀ piece ∈ text.splitOn '\n', piece.length < 98) →
      ∃ line' str, Iteration.run findLineStep fuel (text, line) = some (.ok line') ∧
        line'.length = 100 ∧ cString line' = .ok str ∧ StringFound text start str := by
  intro fuel
  induction fuel with
  | zero => intro text line start hfuel; omega
  | succ fuel ih =>
    intro text line start hfuel hline hstart hshort
    obtain ⟨piece, tail, rfl, hpiece, htail⟩ := exists_line text
    by_cases hne : piece ++ tail = []
    · -- the end of the file
      rw [hne]
      exact ⟨line, start, Iteration.run_exit rfl fuel, hline, hstart,
        fun _ => rfl, fun hnil => absurd rfl hnil⟩
    have hpiece98 : piece.length < 98 := by
      refine hshort piece ?_
      rw [splitOn_eq hpiece htail]
      exact List.mem_cons_self
    obtain ⟨line', hline', hstring, hstep⟩ := findLineStep_eq hpiece htail hne hpiece98 hline
    cases hstarts : strStartsWith hugepagesize piece with
    | true =>
      rw [if_pos hstarts] at hstep
      refine ⟨line', _, Iteration.run_exit hstep fuel, hline', hstring, ?_⟩
      rw [StringFound, hugepagesizeLine_eq hpiece htail, if_pos hstarts]
      exact ⟨tail, htail, rfl⟩
    | false =>
      have hnot : ¬ strStartsWith hugepagesize piece = true := by rw [hstarts]; decide
      rw [if_neg hnot] at hstep
      have hrest : (tail.drop 1).length < fuel := by
        have := List.length_pos_iff.mpr hne
        rw [List.length_append] at hfuel this
        rw [List.length_drop]
        omega
      obtain ⟨line'', str, hrun, hline'', hstr, hfound⟩ := ih (tail.drop 1) line' _ hrest hline'
        hstring (short_drop hpiece htail (by decide) hshort)
      refine ⟨line'', str, by rw [Iteration.run_next hstep, hrun], hline'', hstr, ?_⟩
      rw [StringFound, hugepagesizeLine_eq hpiece htail, if_neg hnot]
      rw [StringFound] at hfound
      cases hfirst : hugepagesizeLine (tail.drop 1) with
      | some piece' => rw [hfirst] at hfound; exact hfound
      | none =>
        rw [hfirst] at hfound
        refine ⟨fun hnil => absurd hnil hne, fun _ => ?_⟩
        by_cases hnil : tail.drop 1 = []
        · -- this line was the last one
          rw [hfound.1 hnil, strStartsWith_stringOf piece htail, hstarts]
        · exact hfound.2 hnil

/-! ### The number -/

/-- The end of `get_hugepagesize`, for the string in the array `line`. -/
def convert (str : List Char) : Except Undefined (Except ErrorT UInt64) :=
  if strStartsWith hugepagesize str then
    if decimal (str.filter Char.isDigit) < 2 ^ 21 then
      .ok (.ok (UInt64.ofNat (decimal (str.filter Char.isDigit) * 1024)))
    else .error .overflow
  else .ok (.error errorIoProcMeminfo)

/-- There is room for all digits of a string that fits into the array. -/
theorem copyDigits_eq (line : List Char) : ∀ number : List Char,
    number.length + line.length < 100 →
      copyDigits line number = number ++ line.filter Char.isDigit := by
  induction line with
  | nil => intro number _; rw [copyDigits, List.filter_nil, List.append_nil]
  | cons c line ih =>
    intro number hroom
    rw [List.length_cons] at hroom
    rw [copyDigits, if_pos (by omega)]
    by_cases hc : c.isDigit = true
    · rw [if_pos hc, List.filter_cons_of_pos hc, ih, List.append_assoc, List.singleton_append]
      rw [List.length_append, List.length_singleton]
      omega
    · rw [if_neg hc, List.filter_cons_of_neg hc, ih _ (by omega)]

/-- A string is shorter than its array. -/
theorem length_lt_of_cString {bytes str : List Char} (h : cString bytes = .ok str) :
    str.length < bytes.length := by
  rw [cString] at h
  split_ifs at h with hmem
  obtain rfl := Except.ok.inj h
  refine lt_of_le_of_ne (List.takeWhile_prefix _).length_le fun heq => ?_
  have hself := (List.takeWhile_prefix _).eq_of_length heq
  exact absurd (List.takeWhile_eq_self_iff.mp hself _ hmem) (by decide)

/-- The array is never left: what is undefined is the product, if the number is too large. -/
theorem getHugepagesizeFrom_eq {text line : List Char} (hline : line.length = 100)
    (hshort : ∀ piece ∈ text.splitOn '\n', piece.length < 98) :
    ∃ str, getHugepagesizeFrom (some text) line = convert str ∧
      StringFound text ((line.set 99 '\x00').takeWhile (· ≠ '\x00')) str := by
  have hstore : storeAt line 99 '\x00' = .ok (line.set 99 '\x00') := if_pos (by omega)
  have hset : (line.set 99 '\x00').length = 100 := by rw [List.length_set, hline]
  have hstart : cString (line.set 99 '\x00') =
      .ok ((line.set 99 '\x00').takeWhile (· ≠ '\x00')) :=
    if_pos (List.mem_set (by omega) _)
  obtain ⟨line', str, hrun, hline', hstr, hfound⟩ :=
    run_findLineStep _ text _ _ (Nat.lt_succ_self _) hset hstart hshort
  refine ⟨str, ?_, hfound⟩
  have hfind : findLine text (line.set 99 '\x00') = .ok line' := by rw [findLine, hrun]; rfl
  have hroom : ([] : List Char).length + str.length < 100 := by
    have := length_lt_of_cString hstr
    rw [List.length_nil]
    omega
  have hcopy : copyDigits str [] = str.filter Char.isDigit := copyDigits_eq str [] hroom
  have hnumber : ¬ 100 ≤ (str.filter Char.isDigit).length := by
    have := List.length_filter_le Char.isDigit str
    omega
  simp only [getHugepagesizeFrom, hstore, hfind, hstr, hcopy, bind, Except.bind, pure, Except.pure,
    if_neg hnumber, convert]
  cases hstarts : strStartsWith hugepagesize str with
  | false => rfl
  | true =>
    simp only [Bool.not_true, Bool.false_eq_true, if_false, if_true, atoi]
    -- the product fits if the number is small enough, and then the number fits, too
    by_cases hn : decimal (str.filter Char.isDigit) < 2 ^ 31
    · rw [if_pos hn]
      simp only [intMul]
      by_cases hfits : decimal (str.filter Char.isDigit) < 2 ^ 21
      · rw [if_pos (by omega), if_pos hfits]
      · rw [if_neg (by omega), if_neg hfits]
    · rw [if_neg hn, if_neg (by omega)]

/-- **What success means**, for any text: a string with the prefix was found, and the size is that
of the number of its digits in kibibytes, an `int`. Without a digit, it is 0. -/
theorem size_of_getHugepagesizeFrom {text line : List Char} {size : UInt64}
    (h : getHugepagesizeFrom (some text) line = .ok (.ok size)) :
    ∃ str, hugepagesize <+: str ∧ size.toNat = 1024 * decimal (copyDigits str []) ∧
      size.toNat < 2 ^ 31 := by
  rw [getHugepagesizeFrom] at h
  obtain ⟨line₁, -, h₁⟩ := bind_eq_ok.mp h
  obtain ⟨line₂, -, h₂⟩ := bind_eq_ok.mp h₁
  obtain ⟨str, -, h₃⟩ := bind_eq_ok.mp h₂
  cases hstarts : strStartsWith hugepagesize str with
  | false =>
    rw [hstarts] at h₃
    cases h₃
  | true =>
    rw [hstarts] at h₃
    simp only [Bool.not_true, Bool.false_eq_true, if_false] at h₃
    split at h₃
    · cases h₃
    obtain ⟨n, hn, h₄⟩ := bind_eq_ok.mp h₃
    obtain ⟨bytes, hbytes, h₅⟩ := bind_eq_ok.mp h₄
    obtain rfl := Except.ok.inj (Except.ok.inj h₅)
    rw [atoi] at hn
    split_ifs at hn
    obtain rfl := Except.ok.inj hn
    rw [intMul] at hbytes
    split_ifs at hbytes with hint
    obtain rfl := Except.ok.inj hbytes
    have hsize : (UInt64.ofNat (decimal (copyDigits str []) * 1024)).toNat =
        decimal (copyDigits str []) * 1024 :=
      UInt64.toNat_ofNat_of_lt' (by simp only [UInt64.size]; omega)
    exact ⟨str, strStartsWith_iff.mp hstarts, hsize.trans (Nat.mul_comm _ _), hsize.trans_lt hint⟩

/-! ### When the size is right -/

/-- A blank or a tabulator. -/
def isBlank (c : Char) : Bool := c = ' ' ∨ c = '\t'

/-- The line that the kernel writes for `n` kibibytes. -/
inductive SizeLine : List Char → ℕ → Prop
  | mk (before digits after : List Char) (hbefore : ∀ c ∈ before, isBlank c = true)
      (hdigits : ∀ c ∈ digits, c.isDigit = true) (hne : digits ≠ [])
      (hafter : ∀ c ∈ after, isBlank c = true) :
      SizeLine (hugepagesize ++ (before ++ (digits ++ (after ++ ['k', 'B'])))) (decimal digits)

section

variable (text line : List Char)

/-- `get_hugepagesize` is right for a text: it returns the size in bytes from a line of the right
form, an error without a line or without a number in it, and it stays in its arrays. -/
structure ReadsHugepagesize : Prop where
  size : ∀ piece n, hugepagesizeLine text = some piece → SizeLine piece n → 1024 * n < 2 ^ 64 →
    ∃ size, getHugepagesizeFrom (some text) line = .ok (.ok size) ∧ size.toNat = 1024 * n
  missing : (∀ piece, hugepagesizeLine text = some piece → ∀ c ∈ piece, c.isDigit = false) →
    getHugepagesizeFrom (some text) line = .ok (.error errorIoProcMeminfo)
  bounds : getHugepagesizeFrom (some text) line ≠ .error .outOfBounds

/-- The number of a line of the right form is below `2 ^ 21`, a line that begins with
`Hugepagesize:` has a digit, and if the text is empty, the array does not begin so either. -/
structure Convertible : Prop where
  small : ∀ piece n, hugepagesizeLine text = some piece → SizeLine piece n → 1024 * n < 2 ^ 64 →
    n < 2 ^ 21
  digit : ∀ piece, hugepagesizeLine text = some piece → ∃ c ∈ piece, c.isDigit = true
  empty : text = [] → ¬ hugepagesize <+: line

end

theorem not_isDigit_of_isBlank {c : Char} (h : isBlank c = true) : c.isDigit = false := by
  rcases (by simpa [isBlank] using h : c = ' ' ∨ c = '\t') with rfl | rfl <;> decide

theorem filter_isDigit_eq_nil {l : List Char} (h : ∀ c ∈ l, c.isDigit = false) :
    l.filter Char.isDigit = [] :=
  List.filter_eq_nil_iff.mpr fun c hc => by rw [h c hc]; decide

/-- The line feed is no digit. -/
theorem filter_take_one {tail : List Char} (htail : tail = [] ∨ ∃ rest, tail = '\n' :: rest) :
    (tail.take 1).filter Char.isDigit = [] := by
  obtain rfl | ⟨rest, rfl⟩ := htail <;> rfl

/-- The digits in a line of the right form are those of its number. -/
theorem SizeLine.decimal_eq {piece : List Char} {n : ℕ} (h : SizeLine piece n) {tail : List Char}
    (htail : tail = [] ∨ ∃ rest, tail = '\n' :: rest) :
    decimal ((stringOf piece tail).filter Char.isDigit) = n := by
  obtain ⟨before, digits, after, hbefore, hdigits, -, hafter⟩ := h
  have hzero : ∀ c ∈ hugepagesize ++ (before ++ (digits ++ (after ++ ['k', 'B']))) ++ tail.take 1,
      (decide (c ≠ '\x00')) = true := by
    have hblank : ∀ c, isBlank c = true → (decide (c ≠ '\x00')) = true := fun c hc => by
      rcases (by simpa [isBlank] using hc : c = ' ' ∨ c = '\t') with rfl | rfl <;> decide
    have hdigit : ∀ c : Char, c.isDigit = true → (decide (c ≠ '\x00')) = true := fun c hc =>
      decide_eq_true fun h => by rw [h] at hc; exact absurd hc (by decide)
    simp only [List.forall_mem_append]
    refine ⟨⟨hugepagesize_ne_zero, fun c hc => hblank c (hbefore c hc),
      fun c hc => hdigit c (hdigits c hc), fun c hc => hblank c (hafter c hc),
      List.all_eq_true.mp rfl⟩, ?_⟩
    obtain rfl | ⟨rest, rfl⟩ := htail <;> simp
  have hprefix : hugepagesize.filter Char.isDigit = [] := by decide
  have hunit : ['k', 'B'].filter Char.isDigit = [] := by decide
  rw [stringOf, List.takeWhile_eq_self_iff.mpr hzero]
  simp only [List.filter_append, hprefix, hunit, filter_take_one htail,
    filter_isDigit_eq_nil fun c hc => not_isDigit_of_isBlank (hbefore c hc),
    filter_isDigit_eq_nil fun c hc => not_isDigit_of_isBlank (hafter c hc),
    List.filter_eq_self.mpr hdigits, List.nil_append, List.append_nil]

theorem convert_ne_outOfBounds (str : List Char) : convert str ≠ .error .outOfBounds := by
  rw [convert]
  split_ifs <;> exact fun h => by cases h

/-- What was in the array begins like its string. -/
theorem strStartsWith_set (line : List Char) :
    strStartsWith hugepagesize ((line.set 99 '\x00').takeWhile (· ≠ '\x00')) = true ↔
      hugepagesize <+: line := by
  have hset : hugepagesize <+: line.set 99 '\x00' ↔ hugepagesize <+: line := by
    rw [List.prefix_iff_eq_take, List.prefix_iff_eq_take, List.take_set_of_le (by decide)]
  rw [strStartsWith_iff, ← hset]
  constructor
  · exact fun h => h.trans (List.takeWhile_prefix _)
  · rintro ⟨rest, hrest⟩
    rw [← hrest, List.takeWhile_append_of_pos hugepagesize_ne_zero]
    exact List.prefix_append _ _

section

variable {text line str : List Char}
  (hget : getHugepagesizeFrom (some text) line = convert str)
  (hfound : StringFound text ((line.set 99 '\x00').takeWhile (· ≠ '\x00')) str)

include hget hfound

/-- A text without a line of the prefix: it must not be found in the array. -/
theorem readsHugepagesize_of_none (hfirst : hugepagesizeLine text = none) :
    ReadsHugepagesize text line ↔ Convertible text line := by
  rw [StringFound, hfirst] at hfound
  have hnone : ∀ piece, hugepagesizeLine text ≠ some piece := fun piece h => by
    rw [hfirst] at h
    cases h
  constructor
  · intro h
    refine ⟨fun piece _ h => absurd h (hnone piece), fun piece h => absurd h (hnone piece), ?_⟩
    intro htext hpre
    have hmissing := h.missing fun piece h => absurd h (hnone piece)
    rw [hget, convert, hfound.1 htext, if_pos ((strStartsWith_set line).mpr hpre)] at hmissing
    split_ifs at hmissing
    cases hmissing
  · intro h
    refine ⟨fun piece _ h => absurd h (hnone piece), fun _ => ?_,
      hget ▸ convert_ne_outOfBounds str⟩
    have hnot : ¬ strStartsWith hugepagesize str = true := by
      by_cases htext : text = []
      · rw [hfound.1 htext, strStartsWith_set]
        exact h.empty htext
      · rw [hfound.2 htext]
        decide
    rw [hget, convert, if_neg hnot]

/-- A text with such a line: it must have a digit, and a number that is small enough. -/
theorem readsHugepagesize_of_some {piece : List Char}
    (hfirst : hugepagesizeLine text = some piece) :
    ReadsHugepagesize text line ↔ Convertible text line := by
  rw [StringFound, hfirst] at hfound
  obtain ⟨tail, htail, rfl⟩ := hfound
  have hstarts : strStartsWith hugepagesize (stringOf piece tail) = true := by
    rw [strStartsWith_stringOf piece htail]
    exact List.find?_some hfirst
  have htext : text ≠ [] := by
    rintro rfl
    cases hfirst
  have hresult := hget
  rw [convert, if_pos hstarts] at hresult
  constructor
  · intro h
    refine ⟨fun piece' n hpiece hline hn => ?_, fun piece' hpiece => ?_,
      fun hnil => absurd hnil htext⟩
    · obtain ⟨size, hsize, -⟩ := h.size piece' n hpiece hline hn
      obtain rfl := Option.some.inj (hfirst.symm.trans hpiece)
      rw [hresult, hline.decimal_eq htail] at hsize
      split_ifs at hsize with hsmall
      exact hsmall
    · obtain rfl := Option.some.inj (hfirst.symm.trans hpiece)
      by_contra hdigits
      simp only [not_exists, not_and] at hdigits
      have hmissing := h.missing fun piece' hpiece' c hc => by
        obtain rfl := Option.some.inj (hfirst.symm.trans hpiece')
        exact Bool.eq_false_iff.mpr (hdigits c hc)
      rw [hresult] at hmissing
      split_ifs at hmissing
      cases hmissing
  · intro h
    refine ⟨fun piece' n hpiece hline hn => ?_, fun hnone => ?_,
      hget ▸ convert_ne_outOfBounds _⟩
    · have hsmall := h.small piece' n hpiece hline hn
      obtain rfl := Option.some.inj (hfirst.symm.trans hpiece)
      rw [hline.decimal_eq htail, if_pos hsmall] at hresult
      refine ⟨_, hresult, ?_⟩
      rw [UInt64.toNat_ofNat_of_lt' (by simp only [UInt64.size]; omega), Nat.mul_comm]
    · obtain ⟨c, hc, hdigit⟩ := h.digit piece hfirst
      rw [hnone piece hfirst c hc] at hdigit
      cases hdigit

end

/-- **`get_hugepagesize` is right** for a text of short lines, whatever is in its array before, if
and only if the number is small enough, the line has a number, and an empty text is not taken for
the line in the array. -/
theorem readsHugepagesize_iff (text line : List Char) (hline : line.length = 100)
    (hshort : ∀ piece ∈ text.splitOn '\n', piece.length < 98) :
    ReadsHugepagesize text line ↔ Convertible text line := by
  obtain ⟨str, hget, hfound⟩ := getHugepagesizeFrom_eq hline hshort
  cases hfirst : hugepagesizeLine text with
  | none => exact readsHugepagesize_of_none hget hfound hfirst
  | some piece => exact readsHugepagesize_of_some hget hfound hfirst

/-- The line of a system with huge pages of 2 MiB. -/
def twoMiBLine : List Char := hugepagesize ++ [' ', '2', '0', '4', '8', ' ', 'k', 'B']

/-- Huge pages of 2 MiB are read right. -/
theorem readsHugepagesize_twoMiB :
    ReadsHugepagesize (twoMiBLine ++ ['\n']) (List.replicate 100 'H') := by
  have hfirst : hugepagesizeLine (twoMiBLine ++ ['\n']) = some twoMiBLine := by decide
  refine (readsHugepagesize_iff _ _ (by decide) (by decide)).mpr
    ⟨fun piece n hpiece hline _ => ?_, fun piece hpiece => ?_, fun hnil => ?_⟩
  · obtain rfl := Option.some.inj (hfirst.symm.trans hpiece)
    rw [← hline.decimal_eq (.inl rfl)]
    decide
  · obtain rfl := Option.some.inj (hfirst.symm.trans hpiece)
    exact ⟨'2', by decide, by decide⟩
  · exact absurd hnil (by decide)

/-- The line of a system with huge pages of 2 GiB. -/
def twoGiBLine : List Char :=
  hugepagesize ++ [' ', '2', '0', '9', '7', '1', '5', '2', ' ', 'k', 'B']

/-- The number of bytes overflows. -/
theorem getHugepagesizeFrom_twoGiB :
    getHugepagesizeFrom (some (twoGiBLine ++ ['\n'])) (List.replicate 100 '\x00') =
      .error .overflow ∧
    ¬ ReadsHugepagesize (twoGiBLine ++ ['\n']) (List.replicate 100 '\x00') := by
  have hrun : getHugepagesizeFrom (some (twoGiBLine ++ ['\n'])) (List.replicate 100 '\x00') =
      .error .overflow := by decide
  refine ⟨hrun, fun h => ?_⟩
  have hline : SizeLine twoGiBLine 2097152 :=
    .mk [' '] ['2', '0', '9', '7', '1', '5', '2'] [' '] (List.all_eq_true.mp rfl)
      (List.all_eq_true.mp rfl) (by decide) (List.all_eq_true.mp rfl)
  obtain ⟨size, hsize, -⟩ := h.size twoGiBLine 2097152 (by decide) hline (by decide)
  rw [hrun] at hsize
  cases hsize

end CacheNoise
