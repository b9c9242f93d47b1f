import CacheNoise.SysInfo

/-!
# Filling a cache description

`cache_info_fill` over the contents of the files of one cache index. Five of them hold a number,
which `READ_PROP_PUT` reads with `fscanf`. It tells a file that can not be opened and the end of
the file from the rest, but not a number from a text that is none: then `fscanf` stores nothing,
and the old value stays. The result in closed form is `cacheInfoFill_eq`; from it follows when
the function reports success exactly for what it has filled in (`fillsOrFails_iff`).
-/

namespace CacheNoise

/-! ### Texts -/

/-- `str_starts_with`. -/
def strStartsWith (pre str : List Char) : Bool :=
  if str.length < pre.length then false else str.take pre.length == pre

/-! ### `fscanf` -/

/-- What `fscanf(file, "%u", write_back)` does. -/
inductive Scan
  /-- It returns `EOF`. -/
  | eof
  /-- It returns 0. -/
  | mismatch
  /-- It stores a number. -/
  | number (value : UInt32)
  deriving DecidableEq

/-- `isspace`. -/
def isSpace (c : Char) : Bool := c = ' ' ∨ 9 ≤ c.toNat ∧ c.toNat ≤ 13

/-- The number that decimal digits stand for. -/
def decimal (digits : List Char) : ℕ := digits.foldl (fun n c => 10 * n + (c.toNat - 48)) 0

/-- `strtoul` of a sign and digits. -/
def strtoul (negative : Bool) (digits : List Char) : UInt64 :=
  if 2 ^ 64 ≤ decimal digits then UInt64.ofNat (2 ^ 64 - 1)
  else if negative = true then -UInt64.ofNat (decimal digits)
  else UInt64.ofNat (decimal digits)

/-- `fscanf(file, "%u", write_back)`: blanks, a sign, and digits. -/
def fscanf (contents : List Char) : Scan :=
  match contents.dropWhile isSpace with
  | [] => .eof
  | c :: rest =>
    let digits := (if c = '-' ∨ c = '+' then rest else c :: rest).takeWhile Char.isDigit
    if digits = [] then .mismatch else .number (strtoul (c = '-') digits).toUInt32

/-! ### `cache_info_fill` -/

/-- The files of one cache index, with their contents if they can be opened. -/
structure CacheFiles where
  coherencyLineSize : Option (List Char)
  size : Option (List Char)
  numberOfSets : Option (List Char)
  level : Option (List Char)
  waysOfAssociativity : Option (List Char)
  type : Option (List Char)

/-- The ways out of `cache_info_fill` before its end. -/
inductive FillExit
  | returns (res : ErrorT)
  /-- `fgetc` reads from a stream that is `NULL`. -/
  | nullStream

/-- A part of `cache_info_fill`. -/
abbrev Fill : Type → Type := ExceptT FillExit (StateM CacheInfo)

/-- `READ_PROP_PUT`, with the field that `write_back` points to. -/
def readPropPutInto (file : Option (List Char)) (writeBack : UInt32 → CacheInfo → CacheInfo)
    (errorIo : ErrorT) : Fill Unit :=
  match file with
  | none => throw (.returns errorIo)
  | some contents =>
    match fscanf contents with
    | .eof => throw (.returns errorFmt)
    | .mismatch => pure ()
    | .number value => modify (writeBack value)

/-- The type, from the first characters of its file. -/
def cacheType : List Char → CacheType
  | 'D' :: _ => .data
  | 'I' :: _ => .instruction
  | 'U' :: 'n' :: 'i' :: _ => .unified
  | _ => .unkown

/-- The body of `cache_info_fill`. -/
def fillBody (files : CacheFiles) (cache cpu : UInt32) : Fill Unit := do
  readPropPutInto files.coherencyLineSize (fun n info => { info with lineSize := n })
    errorIoLineSize
  readPropPutInto files.size (fun n info => { info with totalSize := n }) errorIoTotalSize
  modify fun info => { info with totalSize := info.totalSize * 1024 }
  readPropPutInto files.numberOfSets (fun n info => { info with setCount := n }) errorIoSetNumber
  readPropPutInto files.level (fun n info => { info with level := n }) errorIoLevels
  readPropPutInto files.waysOfAssociativity (fun n info => { info with waysOfAssociativity := n })
    errorIoAssociativity
  modify fun info => { info with cpuId := cpu, cacheId := cache }
  match files.type with
  | none => throw .nullStream
  | some contents => modify fun info => { info with type := cacheType contents }

/-- `cache_info_fill`, with the description afterwards; `none` if it reads from a stream that is
`NULL`. -/
def cacheInfoFill (files : CacheFiles) (cache cpu : UInt32) (info : CacheInfo) :
    Option (ErrorT × CacheInfo) :=
  match (fillBody files cache cpu).run.run info with
  | (.ok (), info) => some (errorNone, info)
  | (.error (.returns res), info) => some (res, info)
  | (.error .nullStream, _) => none

/-! ### The result -/

/-- The files with numbers, in the order in which they are read. -/
def CacheFiles.numeric (files : CacheFiles) : List (Option (List Char)) :=
  [files.coherencyLineSize, files.size, files.numberOfSets, files.level,
    files.waysOfAssociativity]

/-- The file is missing, or there is nothing in it but blanks: `READ_PROP_PUT` returns an error. -/
def Unreadable (file : Option (List Char)) : Prop :=
  ∀ contents, file = some contents → fscanf contents = .eof

/-- The number in a file. -/
def scanned : Option (List Char) → Option UInt32
  | none => none
  | some contents =>
    match fscanf contents with
    | .number value => some value
    | _ => none

/-- The description of an index whose files are all read: what is not a number leaves its old
value. -/
def CacheFiles.fill (files : CacheFiles) (cache cpu : UInt32) (type : List Char)
    (info : CacheInfo) : CacheInfo where
  lineSize := (scanned files.coherencyLineSize).getD info.lineSize
  totalSize := (scanned files.size).getD info.totalSize * 1024
  cacheId := cache
  cpuId := cpu
  setCount := (scanned files.numberOfSets).getD info.setCount
  waysOfAssociativity := (scanned files.waysOfAssociativity).getD info.waysOfAssociativity
  level := (scanned files.level).getD info.level
  type := cacheType type

section

variable {file : Option (List Char)} {writeBack : UInt32 → CacheInfo → CacheInfo}
  {errorIo : ErrorT} {rest : Fill Unit}

/-- A part of `cache_info_fill` returns with an error. -/
def Fails (part : Fill Unit) (info : CacheInfo) : Prop :=
  ∃ res info', res ≠ errorNone ∧ part.run.run info = (.error (.returns res), info')

/-- An unreadable file, or a failure later on. -/
theorem fails_readPropPutInto (herror : errorIo ≠ errorNone)
    (h : Unreadable file ∨ ∀ info, Fails rest info) (info : CacheInfo) :
    Fails (readPropPutInto file writeBack errorIo >>= fun _ => rest) info := by
  rcases file with _ | contents
  · exact ⟨errorIo, info, herror, rfl⟩
  rcases hscan : fscanf contents with _ | _ | n
  · refine ⟨errorFmt, info, by decide, ?_⟩
    simp only [readPropPutInto, hscan]
    rfl
  all_goals
    -- the macro goes on, also after a mismatch
    have hrest := h.resolve_left fun hfile => by rw [hfile contents rfl] at hscan; cases hscan
    simp only [readPropPutInto, hscan]
    exact hrest _

theorem fails_modify {f : CacheInfo → CacheInfo} {info : CacheInfo} (h : Fails rest (f info)) :
    Fails ((modify f : Fill Unit) >>= fun _ => rest) info := h

/-- A file that can be read: what is not a number leaves the old value `n`. -/
theorem readPropPutInto_readable (h : ¬ Unreadable file) (rest : Fill Unit) {info : CacheInfo}
    (n : UInt32) (hput : writeBack n info = info) :
    ((readPropPutInto file writeBack errorIo >>= fun _ => rest).run.run info) =
      rest.run.run (writeBack ((scanned file).getD n) info) := by
  obtain ⟨contents, hsome⟩ := Classical.not_forall.mp h
  obtain ⟨rfl, heof⟩ := Classical.not_imp.mp hsome
  rw [scanned]
  rcases hscan : fscanf contents with _ | _ | m
  · exact absurd hscan heof
  · simp only [readPropPutInto, hscan, Option.getD_none, hput]
    rfl
  · simp only [readPropPutInto, hscan]
    rfl

theorem modify_run (f : CacheInfo → CacheInfo) (rest : Fill Unit) (info : CacheInfo) :
    (((modify f : Fill Unit) >>= fun _ => rest).run.run info) = rest.run.run (f info) := rfl

end

section

variable (files : CacheFiles) (cache cpu : UInt32) (info : CacheInfo)

/-- **An unreadable file** makes the function return an error. -/
theorem cacheInfoFill_unreadable (h : ∃ file ∈ files.numeric, Unreadable file) :
    ∃ res filled, cacheInfoFill files cache cpu info = some (res, filled) ∧ res ≠ errorNone := by
  have hbody : Fails (fillBody files cache cpu) info := by
    simp only [CacheFiles.numeric, List.exists_mem_cons_iff, List.not_mem_nil, false_and,
      exists_false, or_false] at h
    -- one step for each file: it is the unreadable one, or a later one is
    refine fails_readPropPutInto (by decide) (h.imp_right fun h info => ?_) info
    refine fails_readPropPutInto (by decide) (h.imp_right fun h info => ?_) info
    refine fails_modify (fails_readPropPutInto (by decide) (h.imp_right fun h info => ?_) _)
    refine fails_readPropPutInto (by decide) (h.imp_right fun h info => ?_) info
    exact fails_readPropPutInto (by decide) (.inl h) info
  obtain ⟨res, filled, hres, hrun⟩ := hbody
  exact ⟨res, filled, by rw [cacheInfoFill, hrun], hres⟩

/-- **Without an unreadable file** the function fills in what it has read, and reports success;
but it reads the type from a stream that may be `NULL`. -/
theorem cacheInfoFill_eq (h : ∀ file ∈ files.numeric, ¬ Unreadable file) :
    cacheInfoFill files cache cpu info =
      files.type.map fun type => (errorNone, files.fill cache cpu type info) := by
  simp only [CacheFiles.numeric, List.forall_mem_cons] at h
  obtain ⟨hline, hsize, hsets, hlevel, hways, -⟩ := h
  rw [cacheInfoFill, fillBody, readPropPutInto_readable hline _ info.lineSize rfl,
    readPropPutInto_readable hsize _ info.totalSize rfl, modify_run,
    readPropPutInto_readable hsets _ info.setCount rfl,
    readPropPutInto_readable hlevel _ info.level rfl,
    readPropPutInto_readable hways _ info.waysOfAssociativity rfl, modify_run]
  cases files.type with
  | none => rfl
  | some type => rfl

/-! ### The error codes -/

/-- What is returned early is one of these codes. -/
def Reports (codes : List ErrorT) {α : Type} (x : Fill α) : Prop :=
  ∀ info res info', x.run.run info = (.error (.returns res), info') → res ∈ codes

theorem Reports.bind {codes : List ErrorT} {α β : Type} {x : Fill α} {g : α → Fill β}
    (hx : Reports codes x) (hg : ∀ a, Reports codes (g a)) : Reports codes (x >>= g) := by
  intro info res info' h
  rw [ExceptT.run_bind, StateT.run_bind] at h
  rcases hrun : x.run.run info with ⟨e | a, info₁⟩ <;> rw [hrun] at h
  · obtain ⟨he, rfl⟩ := Prod.mk.inj h
    obtain rfl := Except.error.inj he
    exact hx info res info₁ hrun
  · exact hg a info₁ res info' h

theorem reports_modify (codes : List ErrorT) (f : CacheInfo → CacheInfo) :
    Reports codes (modify f) := by
  intro info res info' h
  cases h

theorem reports_readPropPutInto {codes : List ErrorT} (file : Option (List Char))
    (writeBack : UInt32 → CacheInfo → CacheInfo) {errorIo : ErrorT}
    (h : errorIo ∈ codes ∧ errorFmt ∈ codes) :
    Reports codes (readPropPutInto file writeBack errorIo) := by
  intro info res info' hrun
  rcases file with _ | contents
  · cases hrun
    exact h.1
  · cases hscan : fscanf contents <;> simp only [readPropPutInto, hscan] at hrun <;> cases hrun
    exact h.2

/-- The codes with which `cache_info_fill` fails. -/
def fillCodes : List ErrorT :=
  [errorIoLineSize, errorIoTotalSize, errorIoSetNumber, errorIoLevels, errorIoAssociativity,
    errorFmt]

theorem reports_fillBody (files : CacheFiles) (cache cpu : UInt32) :
    Reports fillCodes (fillBody files cache cpu) := by
  rw [fillBody]
  refine (reports_readPropPutInto _ _ (by decide)).bind fun _ => ?_
  refine (reports_readPropPutInto _ _ (by decide)).bind fun _ => ?_
  refine (reports_modify _ _).bind fun _ => ?_
  refine (reports_readPropPutInto _ _ (by decide)).bind fun _ => ?_
  refine (reports_readPropPutInto _ _ (by decide)).bind fun _ => ?_
  refine (reports_readPropPutInto _ _ (by decide)).bind fun _ => ?_
  refine (reports_modify _ _).bind fun _ => ?_
  cases files.type with
  | none =>
    intro info res info' h
    cases h
  | some contents => exact reports_modify _ _

theorem cacheInfoFill_codes {files : CacheFiles} {cache cpu : UInt32} {info filled : CacheInfo}
    {res : ErrorT} (h : cacheInfoFill files cache cpu info = some (res, filled))
    (hres : res ≠ errorNone) : res ∈ fillCodes := by
  rw [cacheInfoFill] at h
  split at h
  · obtain ⟨rfl, -⟩ := Prod.mk.inj (Option.some.inj h)
    exact absurd rfl hres
  · next hrun =>
    obtain ⟨rfl, -⟩ := Prod.mk.inj (Option.some.inj h)
    exact reports_fillBody files cache cpu info _ _ hrun
  · cases h

/-! ### When the result is right -/

/-- All files were opened, and the numbers of the description stand in their files. -/
structure Filled (filled : CacheInfo) : Prop where
  type : files.type ≠ none
  lineSize : scanned files.coherencyLineSize = some filled.lineSize
  totalSize : ∃ n, scanned files.size = some n ∧ filled.totalSize.toNat = 1024 * n.toNat
  setCount : scanned files.numberOfSets = some filled.setCount
  level : scanned files.level = some filled.level
  waysOfAssociativity : scanned files.waysOfAssociativity = some filled.waysOfAssociativity

/-- The function returns, and reports success if and only if it has filled in the numbers of all
files. -/
def FillsOrFails : Prop :=
  ∃ res filled, cacheInfoFill files cache cpu info = some (res, filled) ∧
    (res = errorNone ↔ Filled files filled)

/-- The files with which the function does what it should: one of the first five is missing or
empty; or they all hold numbers, of which the size fits, and there is a type. -/
def FillsRight : Prop :=
  (∃ file ∈ files.numeric, Unreadable file) ∨
    ((∀ file ∈ files.numeric, ∃ n, scanned file = some n) ∧
      (∀ n, scanned files.size = some n → 1024 * n.toNat < 2 ^ 32) ∧ files.type ≠ none)

end

variable {files : CacheFiles} {cache cpu : UInt32} {info : CacheInfo}

theorem scanned_of_unreadable {file : Option (List Char)} (h : Unreadable file) :
    scanned file = none := by
  rcases file with _ | contents
  · rfl
  · rw [scanned, h contents rfl]

theorem Filled.readable {filled : CacheInfo} (h : Filled files filled) :
    ∀ file ∈ files.numeric, ∃ n, scanned file = some n := by
  obtain ⟨n, hn, -⟩ := h.totalSize
  simp only [CacheFiles.numeric, List.forall_mem_cons]
  exact ⟨⟨_, h.lineSize⟩, ⟨n, hn⟩, ⟨_, h.setCount⟩, ⟨_, h.level⟩, ⟨_, h.waysOfAssociativity⟩,
    fun _ hfile => absurd hfile List.not_mem_nil⟩

/-- **`cache_info_fill` reports success exactly for what it has filled in**, whatever was in the
description before, if and only if a file is missing or empty, or everything is as expected. -/
theorem fillsOrFails_iff (files : CacheFiles) (cache cpu : UInt32) (info : CacheInfo) :
    FillsOrFails files cache cpu info ↔ FillsRight files := by
  by_cases hfiles : ∃ file ∈ files.numeric, Unreadable file
  · -- an error is returned, and there is nothing in the file
    refine iff_of_true ?_ (.inl hfiles)
    obtain ⟨res, filled, hrun, hres⟩ := cacheInfoFill_unreadable files cache cpu info hfiles
    obtain ⟨file, hmem, hfile⟩ := hfiles
    refine ⟨res, filled, hrun, iff_of_false hres fun hfilled => ?_⟩
    obtain ⟨n, hn⟩ := hfilled.readable file hmem
    rw [scanned_of_unreadable hfile] at hn
    cases hn
  have hread : ∀ file ∈ files.numeric, ¬ Unreadable file := fun file hmem hfile =>
    hfiles ⟨file, hmem, hfile⟩
  have hrun := cacheInfoFill_eq files cache cpu info hread
  constructor
  · -- success is reported, so the description agrees with the files
    rintro ⟨res, filled, hsome, hiff⟩
    rw [hrun] at hsome
    obtain ⟨type, htype, heq⟩ := Option.map_eq_some_iff.mp hsome
    obtain ⟨rfl, rfl⟩ := Prod.mk.inj heq
    have hfilled := hiff.mp rfl
    refine .inr ⟨hfilled.readable, fun n hn => ?_, hfilled.type⟩
    obtain ⟨m, hm, htotal⟩ := hfilled.totalSize
    obtain rfl := Option.some.inj (hm.symm.trans hn)
    exact htotal ▸ UInt32.toNat_lt _
  · rintro (hbad | ⟨hnumbers, hfits, htype⟩)
    · exact absurd hbad hfiles
    obtain ⟨type, htype'⟩ := Option.ne_none_iff_exists'.mp htype
    refine ⟨errorNone, files.fill cache cpu type info, by rw [hrun, htype']; rfl,
      iff_of_true rfl ?_⟩
    simp only [CacheFiles.numeric, List.forall_mem_cons] at hnumbers
    obtain ⟨⟨line, hline⟩, ⟨size, hsize⟩, ⟨sets, hsets⟩, ⟨level, hlevel⟩, ⟨ways, hways⟩, -⟩ :=
      hnumbers
    refine ⟨htype, ?_, ⟨size, hsize, ?_⟩, ?_, ?_, ?_⟩
    · rw [CacheFiles.fill, hline, Option.getD_some]
    · rw [CacheFiles.fill, hsize, Option.getD_some, UInt32.toNat_mul, Nat.mul_comm]
      exact Nat.mod_eq_of_lt (hfits size hsize)
    · rw [CacheFiles.fill, hsets, Option.getD_some]
    · rw [CacheFiles.fill, hlevel, Option.getD_some]
    · rw [CacheFiles.fill, hways, Option.getD_some]

/-- The files of a cache of 4 MiB, with something else in `level`. -/
def fourMiBFiles (level : List Char) : CacheFiles where
  coherencyLineSize := some ['6', '4', '\n']
  size := some ['4', '0', '9', '6', 'K', '\n']
  numberOfSets := some ['4', '0', '9', '6', '\n']
  level := some level
  waysOfAssociativity := some ['1', '6', '\n']
  type := some ['U', 'n', 'i', 'f', 'i', 'e', 'd', '\n']

/-- A data cache of the first level. -/
def firstLevel : CacheInfo :=
  { lineSize := 64, totalSize := 32768, cacheId := 0, cpuId := 0, setCount := 64
    waysOfAssociativity := 8, level := 1, type := .data }

/-- A cache of 4 MiB, but with the level of that one. -/
def mixedLevel : CacheInfo :=
  { lineSize := 64, totalSize := 4194304, cacheId := 2, cpuId := 0, setCount := 4096
    waysOfAssociativity := 16, level := 1, type := .unified }

/-- A level that is not a number: the description keeps the level of the index before, and
success is reported. -/
theorem cacheInfoFill_staleLevel :
    cacheInfoFill (fourMiBFiles ['x', '\n']) 2 0 firstLevel = some (errorNone, mixedLevel) ∧
      ¬ FillsOrFails (fourMiBFiles ['x', '\n']) 2 0 firstLevel := by
  have hrun : cacheInfoFill (fourMiBFiles ['x', '\n']) 2 0 firstLevel =
      some (errorNone, mixedLevel) := by decide
  refine ⟨hrun, ?_⟩
  rintro ⟨res, filled, hsome, hiff⟩
  obtain ⟨rfl, rfl⟩ := Prod.mk.inj (Option.some.inj (hrun.symm.trans hsome))
  exact absurd (hiff.mp rfl).level (by decide)

end CacheNoise
