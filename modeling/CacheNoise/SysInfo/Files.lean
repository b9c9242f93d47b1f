import CacheNoise.SysInfo.Stdio

/-!
# Files and their readers

A file system, with the streams that are open on it, as a server of the calls of `Stdio`. Against
it, each function of `sys_info.c` has the outcome of its model over the contents of the files: the
paths are those of the right files, no array is left, and the streams that are open afterwards are
those that were open before.
-/

namespace CacheNoise

open Interaction

namespace Stdio

/-! ### The server -/

/-- The files and directories, by their paths, and the size of a page. -/
structure Files where
  file : List Char → Option (List Char)
  dir : List Char → Option (List (List Char))
  pageSize : UInt64

/-- What is known of an open stream. -/
inductive Opened
  /-- A file, and what has not been read of it yet. -/
  | file (contents rest : List Char)
  /-- A file after `fscanf`, which may read ahead: what is read next is left open. -/
  | scanned
  /-- A directory, and the entries that have not been read yet. -/
  | dir (rest : List (List Char))

/-- The open streams, the last opened first. -/
abbrev Streams : Type := List (ℕ × Opened)

/-- A number that no stream has. -/
def fresh (s : Streams) : ℕ := (s.map Prod.fst).sum + 1

/-- The stream is in another state. -/
def put (stream : ℕ) (state : Opened) : Streams → Streams
  | [] => []
  | (h, old) :: s => if h = stream then (h, state) :: s else (h, old) :: put stream state s

/-- The stream is closed. -/
def close (stream : ℕ) (s : Streams) : Streams := s.eraseP (·.1 = stream)

/-- The number in 8 bytes, the lowest first. -/
def wordOf (bytes : List Char) : UInt64 := UInt64.ofNat (Nat.ofDigits 256 (bytes.map Char.toNat))

/-- `fread` of a number, with the rest. -/
def readWord (rest : List Char) : Option UInt64 × List Char :=
  if 8 ≤ rest.length then (some (wordOf (rest.take 8)), rest.drop 8) else (none, [])

/-- The file system. A call on a stream that is not open, or not of its kind, is undefined. -/
def Files.serve (files : Files) : Server FileCall FileCall.Value Streams
  | s, .fopen path =>
    match files.file path with
    | none => some (none, s)
    | some contents => some (some (fresh s), (fresh s, .file contents contents) :: s)
  | s, .fscanf stream =>
    match s.lookup stream with
    | some (.file _ rest) => some (fscanf rest, put stream .scanned s)
    | _ => none
  | s, .fgetc stream =>
    match s.lookup stream with
    | some (.file contents rest) => some (rest.head?, put stream (.file contents rest.tail) s)
    | _ => none
  | s, .fgets stream size =>
    match s.lookup stream with
    | some (.file contents rest) =>
      match readLine (size - 1) rest with
      | ([], rest) => some (none, put stream (.file contents rest) s)
      | (read, rest) => some (some read, put stream (.file contents rest) s)
    | _ => none
  | s, .fseek stream offset =>
    match s.lookup stream with
    | some (.file contents _) =>
      if offset.toNat < 2 ^ 63 then
        some (0, put stream (.file contents (contents.drop offset.toNat)) s)
      else some (-1, s)
    | _ => none
  | s, .fread stream =>
    match s.lookup stream with
    | some (.file contents rest) =>
      some ((readWord rest).1, put stream (.file contents (readWord rest).2) s)
    | _ => none
  | s, .fclose stream =>
    match s.lookup stream with
    | some (.file ..) | some .scanned => some (0, close stream s)
    | _ => none
  | s, .opendir path =>
    match files.dir path with
    | none => some (none, s)
    | some names => some (some (fresh s), (fresh s, .dir names) :: s)
  | s, .readdir dir =>
    match s.lookup dir with
    | some (.dir names) => some (names.head?, put dir (.dir names.tail) s)
    | _ => none
  | s, .closedir dir =>
    match s.lookup dir with
    | some (.dir _) => some (0, close dir s)
    | _ => none
  | s, .sysconf => some (files.pageSize, s)
  | s, .malloc => some (true, s)
  | s, .free => some ((), s)

/-! ### The files that are read -/

variable (files : Files)

/-- The files of a cache index. -/
def Files.index (cpu cache : UInt32) : CacheFiles where
  coherencyLineSize := files.file (indexPath cpu cache ++ coherencyLineSize)
  size := files.file (indexPath cpu cache ++ size)
  numberOfSets := files.file (indexPath cpu cache ++ numberOfSets)
  level := files.file (indexPath cpu cache ++ level)
  waysOfAssociativity := files.file (indexPath cpu cache ++ waysOfAssociativity)
  type := files.file (indexPath cpu cache ++ type)

/-- The number at an offset of a file. -/
def wordAt (contents : List Char) (offset : UInt64) : Option UInt64 :=
  if offset.toNat < 2 ^ 63 then (readWord (contents.drop offset.toNat)).1 else none

/-- The pagemap. -/
def Files.os : Os where
  pageSize := files.pageSize
  pagemap offset := (files.file procSelfPagemap).bind fun contents => wordAt contents offset

/-! ### Paths -/

theorem length_array (garbage : ℕ → Char) (n : ℕ) : (array garbage n).length = n := by
  rw [array, List.length_map, List.length_range]

/-- A string in an array, up to its zero. -/
theorem cString_zero {str : List Char} (h : '\x00' ∉ str) (rest : List Char) :
    cString (str ++ '\x00' :: rest) = .ok str := by
  have hstr : ∀ c ∈ str, decide (c ≠ '\x00') = true := fun c hc =>
    decide_eq_true (ne_of_mem_of_not_mem hc h)
  rw [cString_append, List.takeWhile_eq_self_iff.mpr hstr]

/-- **The path** is put together without leaving an array. -/
theorem newPath_eq (garbage : ℕ → Char) {path filename : List Char} (hpath : '\x00' ∉ path)
    (hname : '\x00' ∉ filename) (hne : filename ≠ []) :
    newPath garbage path filename = .ok (path ++ filename) := by
  have hpos : 0 < filename.length := List.length_pos_iff.mpr hne
  obtain ⟨zeros, hzeros⟩ : ∃ zeros, filename.length = zeros + 1 := ⟨filename.length - 1, by omega⟩
  have hcopy : ∃ rest, rest.length = filename.length ∧
      strncpy (array garbage (path.length + filename.length + 1)) path
        (path.length + filename.length + 1 - 1) = .ok (path ++ '\x00' :: rest) := by
    refine ⟨List.replicate zeros '\x00' ++
      (array garbage (path.length + filename.length + 1)).drop (path.length + filename.length),
      ?_, ?_⟩
    · rw [List.length_append, List.length_replicate, List.length_drop, length_array]
      omega
    · rw [strncpy, length_array, if_pos (Nat.sub_le _ _), Nat.add_sub_cancel,
        Nat.add_sub_cancel_left, List.take_of_length_le (Nat.le_add_right _ _), List.append_assoc,
        hzeros, List.replicate_succ, List.cons_append]
  obtain ⟨rest, hrest, hcopy⟩ := hcopy
  have hcat : strncat (path ++ '\x00' :: rest) filename filename.length =
      .ok ((path ++ filename) ++ '\x00' ::
        (path ++ '\x00' :: rest).drop ((path ++ filename).length + 1)) := by
    rw [strncat, cString_zero hpath]
    change storeString _ (path ++ filename.take filename.length) = _
    rw [List.take_length, storeString, if_pos (by simp; omega)]
  have hjoined : '\x00' ∉ path ++ filename := fun h =>
    (List.mem_append.mp h).elim hpath hname
  rw [newPath, hcopy]
  change (do
    let newPath ← strncat (path ++ '\x00' :: rest) filename
      (path.length + filename.length + 1 - (← cString (path ++ '\x00' :: rest)).length - 1)
    cString newPath) = _
  rw [cString_zero hpath]
  change (strncat _ filename (path.length + filename.length + 1 - path.length - 1) >>= cString) = _
  rw [show path.length + filename.length + 1 - path.length - 1 = filename.length by omega, hcat]
  exact cString_zero hjoined _

/-- A string that fits into its array. -/
theorem sprintf_eq (garbage : ℕ → Char) {n : ℕ} {str : List Char} (hzero : '\x00' ∉ str)
    (hlength : str.length < n) : sprintf garbage n str = .ok str := by
  rw [sprintf, storeString, length_array, if_pos hlength]
  exact cString_zero hzero _

theorem intText_eq {n : UInt32} (h : n.toNat < 2 ^ 31) :
    intText n.toInt32 = Nat.toDigits 10 n.toNat := by
  have hint : n.toInt32.toInt = n.toNat := BitVec.toInt_eq_toNat_of_lt (by
    change 2 * n.toNat < 2 ^ 32
    omega)
  rw [intText, hint]

theorem zero_notMem_digits (n : ℕ) : '\x00' ∉ Nat.toDigits 10 n := fun h =>
  absurd (Nat.isDigit_of_mem_toDigits (by norm_num) (by norm_num) h) (by decide)

theorem length_digits {n k : ℕ} (hk : 0 < k) (h : n < 10 ^ k) : (Nat.toDigits 10 n).length ≤ k :=
  (Nat.length_toDigits_le_iff (by norm_num) hk).mpr h

section

variable (cpu : UInt8)

theorem intText_cpu : intText cpu.toUInt32.toInt32 = Nat.toDigits 10 cpu.toNat := by
  have hcpu := cpu.toNat_lt
  rw [intText_eq] <;> rw [UInt8.toNat_toUInt32]
  omega

theorem cacheDirPath_zero : '\x00' ∉ cacheDirPath cpu.toUInt32 := by
  rw [cacheDirPath, intText_cpu, List.mem_append, List.mem_append]
  rintro ((h | h) | h)
  · exact absurd h (by decide)
  · exact zero_notMem_digits _ h
  · exact absurd h (by decide)

theorem length_cacheDirPath : (cacheDirPath cpu.toUInt32).length ≤ 37 := by
  have hcpu := cpu.toNat_lt
  have hdigits := length_digits (n := cpu.toNat) (k := 3) (by norm_num) (by omega)
  rw [cacheDirPath, intText_cpu, List.length_append, List.length_append]
  change 27 + _ + 7 ≤ 37
  omega

variable {cache : UInt32} (hcache : cache.toNat < 2 ^ 31)

include hcache

theorem indexPath_zero : '\x00' ∉ indexPath cpu.toUInt32 cache := by
  rw [indexPath, intText_eq hcache, List.mem_append, List.mem_append, List.mem_append]
  rintro (((h | h) | h) | h)
  · exact cacheDirPath_zero cpu h
  · exact absurd h (by decide)
  · exact zero_notMem_digits _ h
  · exact absurd h (by decide)

theorem length_indexPath : (indexPath cpu.toUInt32 cache).length < 60 := by
  have hdir := length_cacheDirPath cpu
  have hdigits := length_digits (n := cache.toNat) (k := 10) (by norm_num) (by omega)
  rw [indexPath, intText_eq hcache, List.length_append, List.length_append, List.length_append]
  change (cacheDirPath cpu.toUInt32).length + 5 + _ + 1 < 60
  omega

end

/-! ### Streams -/

@[simp]
theorem put_head (h : ℕ) (state old : Opened) (s : Streams) :
    put h state ((h, old) :: s) = (h, state) :: s := if_pos rfl

@[simp]
theorem close_head (h : ℕ) (state : Opened) (s : Streams) : close h ((h, state) :: s) = s :=
  List.eraseP_cons_of_pos (decide_eq_true rfl)

section

variable {files} {s : Streams} {h : ℕ} {contents rest : List Char}

theorem serve_fopen (path : List Char) : files.serve s (.fopen path) =
    match files.file path with
    | none => some (none, s)
    | some contents => some (some (fresh s), (fresh s, .file contents contents) :: s) := rfl

theorem serve_malloc : files.serve s .malloc = some (true, s) := rfl

theorem serve_fscanf : files.serve ((h, .file contents rest) :: s) (.fscanf h) =
    some (fscanf rest, (h, .scanned) :: s) := by
  rw [Files.serve, List.lookup_cons_self]
  simp only [put_head]

theorem serve_fclose_scanned : files.serve ((h, .scanned) :: s) (.fclose h) = some (0, s) := by
  rw [Files.serve, List.lookup_cons_self]
  simp only [close_head]

theorem serve_fclose : files.serve ((h, .file contents rest) :: s) (.fclose h) =
    some (0, s) := by
  rw [Files.serve, List.lookup_cons_self]
  simp only [close_head]

theorem serve_fgets (size : ℕ) : files.serve ((h, .file contents rest) :: s) (.fgets h size) =
    match readLine (size - 1) rest with
    | ([], rest) => some (none, (h, .file contents rest) :: s)
    | (read, rest) => some (some read, (h, .file contents rest) :: s) := by
  rw [Files.serve, List.lookup_cons_self]
  simp only [put_head]

theorem serve_readdir {names : List (List Char)} :
    files.serve ((h, .dir names) :: s) (.readdir h) =
      some (names.head?, (h, .dir names.tail) :: s) := by
  rw [Files.serve, List.lookup_cons_self]
  simp only [put_head]

theorem serve_closedir {names : List (List Char)} :
    files.serve ((h, .dir names) :: s) (.closedir h) = some (0, s) := by
  rw [Files.serve, List.lookup_cons_self]
  simp only [close_head]

theorem serve_opendir (path : List Char) : files.serve s (.opendir path) =
    match files.dir path with
    | none => some (none, s)
    | some names => some (some (fresh s), (fresh s, .dir names) :: s) := rfl

theorem serve_fgetc : files.serve ((h, .file contents rest) :: s) (.fgetc h) =
    some (rest.head?, (h, .file contents rest.tail) :: s) := by
  rw [Files.serve, List.lookup_cons_self]
  simp only [put_head]

end

/-! ### Numbers in files -/

/-- What `READ_PROP_PUT` makes of a file. -/
def propOf (errorIo : ErrorT) : Option (List Char) → Except ErrorT (Option UInt32)
  | none => .error errorIo
  | some contents =>
    match fscanf contents with
    | .eof => .error errorFmt
    | .mismatch => .ok none
    | .number value => .ok (some value)

/-- **`READ_PROP_PUT`** reads its file, and closes it. -/
theorem against_readPropPut (garbage : ℕ → Char) {path filename : List Char}
    (hpath : '\x00' ∉ path) (hname : '\x00' ∉ filename) (hne : filename ≠ []) (errorIo : ErrorT)
    (s : Streams) : (readPropPut garbage path filename errorIo).against files.serve s =
      some (propOf errorIo (files.file (path ++ filename)), s) := by
  simp only [readPropPut, newPath_eq garbage hpath hname hne, defined, call, Prog.against_bind,
    Prog.against_pure, Prog.against_perform, serve_fopen, Option.bind_some]
  cases files.file (path ++ filename) with
  | none => rfl
  | some contents =>
    simp only [Prog.against_bind, Prog.against_perform, serve_fscanf, serve_fclose_scanned,
      Option.bind_some, propOf]
    cases fscanf contents <;> rfl

section

variable {files} {α : Type} {h : ℕ} {contents rest : List Char} {s : Streams}

theorem against_fgetc (f : Option Char → Reader α) :
    (call (.fgetc h) >>= f).against files.serve ((h, .file contents rest) :: s) =
      (f rest.head?).against files.serve ((h, .file contents rest.tail) :: s) := by
  rw [Prog.against_bind, call, Prog.against_perform, serve_fgetc]
  rfl

theorem against_free (f : Unit → Reader α) (s : Streams) :
    (call .free >>= f).against files.serve s = (f ()).against files.serve s := rfl

/-- The type, character by character. -/
theorem cacheType_eq (text : List Char) : cacheType text =
    if text.head? = some 'D' then .data
    else if text.head? = some 'I' then .instruction
    else if text.head? = some 'U' then
      if text.tail.head? = some 'n' then
        if text.tail.tail.head? = some 'i' then .unified else .unkown
      else .unkown
    else .unkown := by
  fun_cases cacheType text with
  | case1 => rfl
  | case2 => rfl
  | case3 => rfl
  | case4 text hdata hinstruction hunified =>
    split_ifs with h₁ h₂ h₃ h₄ h₅
    · obtain ⟨rest, rfl⟩ := List.head?_eq_some_iff.mp h₁
      exact absurd rfl (hdata rest)
    · obtain ⟨rest, rfl⟩ := List.head?_eq_some_iff.mp h₂
      exact absurd rfl (hinstruction rest)
    · obtain ⟨rest, rfl⟩ := List.head?_eq_some_iff.mp h₃
      obtain ⟨rest, rfl⟩ := List.head?_eq_some_iff.mp h₄
      obtain ⟨rest, rfl⟩ := List.head?_eq_some_iff.mp h₅
      exact absurd rfl (hunified rest)
    · rfl
    · rfl
    · rfl

/-- The type is read from the first characters. -/
theorem against_readType : ∃ rest',
    (readType h).against files.serve ((h, .file contents rest) :: s) =
      some (cacheType rest, (h, .file contents rest') :: s) := by
  rw [readType, against_fgetc, against_free, cacheType_eq]
  by_cases hdata : rest.head? = some 'D'
  · rw [if_pos hdata, if_pos hdata]
    exact ⟨_, rfl⟩
  rw [if_neg hdata, if_neg hdata]
  by_cases hinstruction : rest.head? = some 'I'
  · rw [if_pos hinstruction, if_pos hinstruction]
    exact ⟨_, rfl⟩
  rw [if_neg hinstruction, if_neg hinstruction]
  by_cases hunified : rest.head? = some 'U'
  · rw [if_pos hunified, if_pos hunified, against_fgetc]
    by_cases hn : rest.tail.head? = some 'n'
    · rw [if_pos hn, if_pos hn, against_fgetc]
      by_cases hi : rest.tail.tail.head? = some 'i'
      · rw [if_pos hi, if_pos hi]
        exact ⟨_, rfl⟩
      · rw [if_neg hi, if_neg hi]
        exact ⟨_, rfl⟩
    · rw [if_neg hn, if_neg hn]
      exact ⟨_, rfl⟩
  · rw [if_neg hunified, if_neg hunified]
    exact ⟨_, rfl⟩

end

/-- **`get_hugepagenr`** reads its file. -/
theorem against_getHugepagenr (garbage : ℕ → Char) (s : Streams) :
    (getHugepagenr garbage).against files.serve s =
      some (propOf errorIoHugepageNumber (files.file (procSysVm ++ nrHugepages)), s) :=
  against_readPropPut files garbage (by decide) (by decide) (by decide) _ s

/-- **`can_use_rdpmc`** looks for the number 2 in its file; if there is no number, it takes what its
variable holds. -/
theorem against_canUseRdpmc (garbage : ℕ → Char) (value : UInt32) (s : Streams) :
    (canUseRdpmc garbage value).against files.serve s =
      some (match propOf errorIoRdpmc (files.file (sysBus ++ rdpmc)) with
        | .error res => res
        | .ok read => if read.getD value ≠ 2 then errorRdpmc else errorNone, s) := by
  rw [canUseRdpmc, Prog.against_bind,
    against_readPropPut files garbage (by decide) (by decide) (by decide)]
  cases propOf errorIoRdpmc (files.file (sysBus ++ rdpmc)) <;> rfl

/-- **The type** is read from its file, and the file closed; without a file there is no result. -/
theorem against_typeOf (garbage : ℕ → Char) {path : List Char} (hpath : '\x00' ∉ path)
    (s : Streams) : (typeOf garbage path).against files.serve s =
      (files.file (path ++ type)).map fun contents => (cacheType contents, s) := by
  have hnewPath : newPath garbage path type = .ok (path ++ type) :=
    newPath_eq garbage hpath (by decide) (by decide)
  simp only [typeOf, hnewPath, defined, call, Prog.against_bind, Prog.against_pure,
    Prog.against_perform, serve_fopen, Option.bind_some, serve_malloc, Bool.true_eq_false, if_false]
  cases files.file (path ++ type) with
  | none => rfl
  | some contents =>
    have hread : ∃ rest', (readType (fresh s)).against files.serve
        ((fresh s, .file contents contents) :: s) =
          some (cacheType contents, (fresh s, .file contents rest') :: s) := against_readType
    obtain ⟨rest', hread⟩ := hread
    simp only [Prog.against_bind, hread, Option.bind_some, Prog.against_perform, serve_fclose]
    rfl

/-! ### `cache_info_fill` -/

/-- The outcome of a function that fills in a description, when its streams are closed again. -/
def outcome {α : Type} (s : Streams) :
    Except FillExit α × CacheInfo → Option ((Except ErrorT α × CacheInfo) × Streams)
  | (.ok a, info) => some ((.ok a, info), s)
  | (.error (.returns res), info) => some ((.error res, info), s)
  | (.error .nullStream, _) => none

/-- A part of `cache_info_fill` does on the files what its model does on their contents. -/
def Does {α : Type} (m : Filler α) (x : Fill α) : Prop :=
  ∀ (info : CacheInfo) (s : Streams),
    Prog.against files.serve (m info) s = outcome s (x.run.run info)

variable {files}

theorem does_modify (f : CacheInfo → CacheInfo) : Does files (Cmd.modify f) (modify f) :=
  fun _ _ => rfl

/-- **One part after the other.** -/
theorem Does.bind {α β : Type} {m : Filler α} {x : Fill α} {f : α → Filler β} {g : α → Fill β}
    (hm : Does files m x) (hf : ∀ a, Does files (f a) (g a)) :
    Does files (m >>= f) (x >>= g) := by
  intro info s
  rw [Cmd.against_bind, hm info s]
  rw [ExceptT.run_bind, StateT.run_bind]
  obtain ⟨(⟨res⟩ | _) | a, info⟩ := x.run.run info
  · rfl
  · rfl
  · exact hf a info s

theorem against_forwardOnFail {α : Type} (p : Reader (Except ErrorT α)) (info : CacheInfo)
    (s : Streams) : Prog.against files.serve (forwardOnFail p info) s =
      (p.against files.serve s).map fun (res, s') => ((res, info), s') := by
  rw [forwardOnFail, Cmd.against_bind, Cmd.against_lift]
  obtain _ | ⟨_ | a, s'⟩ := p.against files.serve s <;> rfl

theorem does_readPropPutInto (garbage : ℕ → Char) {path filename : List Char}
    (hpath : '\x00' ∉ path) (hname : '\x00' ∉ filename) (hne : filename ≠ [])
    (writeBack : UInt32 → CacheInfo → CacheInfo) (errorIo : ErrorT) :
    Does files (readPropPutInto garbage path filename writeBack errorIo)
      (CacheNoise.readPropPutInto (files.file (path ++ filename)) writeBack errorIo) := by
  intro info s
  rw [readPropPutInto, Cmd.against_bind, against_forwardOnFail,
    against_readPropPut files garbage hpath hname hne]
  cases files.file (path ++ filename) with
  | none => rfl
  | some contents =>
    rw [propOf, CacheNoise.readPropPutInto]
    cases fscanf contents <;> rfl

theorem does_type (garbage : ℕ → Char) {path : List Char} (hpath : '\x00' ∉ path) :
    Does files (do
        let ctype ← Cmd.lift (typeOf garbage path)
        Cmd.modify fun info => { info with type := ctype })
      (match files.file (path ++ type) with
        | none => throw .nullStream
        | some contents => modify fun info => { info with type := cacheType contents }) := by
  intro info s
  rw [Cmd.against_bind, Cmd.against_lift, against_typeOf files garbage hpath]
  cases files.file (path ++ type) <;> rfl

/-- **`cache_info_fill`** reads the files of its index. -/
theorem does_cacheInfoFill (garbage : ℕ → Char) (cpu : UInt8) {cache : UInt32}
    (hcache : cache.toNat < 2 ^ 31) :
    Does files (cacheInfoFill garbage cache cpu.toUInt32)
      (fillBody (files.index cpu.toUInt32 cache) cache cpu.toUInt32) := by
  have hpath := indexPath_zero cpu hcache
  rw [cacheInfoFill, sprintf_eq garbage hpath (length_indexPath cpu hcache), fillBody, Files.index]
  have hlift : ∀ (f : List Char → Filler Unit) (str : List Char),
      (Cmd.lift (defined (.ok str)) >>= f) = f str := fun _ _ => rfl
  rw [hlift]
  refine (does_readPropPutInto garbage hpath (by decide) (by decide) _ _).bind fun _ => ?_
  refine (does_readPropPutInto garbage hpath (by decide) (by decide) _ _).bind fun _ => ?_
  refine (does_modify _).bind fun _ => ?_
  refine (does_readPropPutInto garbage hpath (by decide) (by decide) _ _).bind fun _ => ?_
  refine (does_readPropPutInto garbage hpath (by decide) (by decide) _ _).bind fun _ => ?_
  refine (does_readPropPutInto garbage hpath (by decide) (by decide) _ _).bind fun _ => ?_
  refine (does_modify _).bind fun _ => ?_
  exact does_type garbage hpath

/-! ### `cache_info_new` -/

theorem against_countEntries {h : ℕ} {s : Streams} {fuel : ℕ} {names : List (List Char)}
    (hfuel : names.length < fuel) (count : UInt32) :
    (countEntries h fuel count).against files.serve ((h, .dir names) :: s) =
      some (names.foldl (fun count name =>
        if strStartsWith index name then count + 1 else count) count, (h, .dir []) :: s) := by
  induction fuel generalizing names count with
  | zero => exact absurd hfuel (Nat.not_lt_zero _)
  | succ fuel ih =>
    rw [countEntries, Prog.against_bind, call, Prog.against_perform, serve_readdir]
    cases names with
    | nil => rfl
    | cons name names => exact ih (Nat.lt_of_succ_lt_succ hfuel) _

/-- **`cache_count`** counts the entries of its directory. -/
theorem against_cacheCount (garbage : ℕ → Char) (cpu : UInt8) {fuel : ℕ}
    (hfuel : ∀ names, files.dir (cacheDirPath cpu.toUInt32) = some names → names.length < fuel)
    (s : Streams) : (cacheCount garbage fuel cpu.toUInt32).against files.serve s =
      some (CacheNoise.cacheCount (files.dir (cacheDirPath cpu.toUInt32)), s) := by
  have hlength := length_cacheDirPath cpu
  simp only [cacheCount, sprintf_eq garbage (n := 256) (cacheDirPath_zero cpu) (by omega), defined,
    call, Prog.against_bind, Prog.against_pure, Prog.against_perform, serve_opendir,
    Option.bind_some]
  cases hdir : files.dir (cacheDirPath cpu.toUInt32) with
  | none => rfl
  | some names =>
    simp only [Prog.against_bind, against_countEntries (hfuel names hdir), Option.bind_some,
      Prog.against_perform, serve_closedir]
    rfl

/-- The outcome of the loop of `cache_info_new`, when its streams are closed again. -/
def loopOutcome (s : Streams) :
    Option ScanExit → Option ((Except ErrorT Unit × CacheInfo) × Streams)
  | some (.returns res info) => some ((.error res, info), s)
  | some (.left info) => some ((.ok (), info), s)
  | some .undefined | none => none

theorem against_fillLoop (garbage : ℕ → Char) (cpu level : UInt8) (count : UInt32) (s : Streams)
    {fuel i : ℕ} (hi : i < 2 ^ 31) (info : CacheInfo) :
    Prog.against files.serve (fillLoop garbage cpu level count fuel i info) s =
      loopOutcome s (Iteration.run (cacheInfoNewStep
        (fun i => files.index cpu.toUInt32 (UInt32.ofNat i)) cpu level count) fuel (i, info)) := by
  induction fuel generalizing i info with
  | zero => rfl
  | succ fuel ih =>
    rw [fillLoop, Iteration.run, cacheInfoNewStep]
    by_cases hlt : UInt32.ofNat i < count
    · have hcache : (UInt32.ofNat i).toNat < 2 ^ 31 := by
        rw [UInt32.toNat_ofNat']
        omega
      rw [if_pos hlt, if_pos hlt, Cmd.against_bind, does_cacheInfoFill garbage cpu hcache info s,
        CacheNoise.cacheInfoFill]
      have hreports := reports_fillBody (files.index cpu.toUInt32 (UInt32.ofNat i))
        (UInt32.ofNat i) cpu.toUInt32 info
      rcases hrun : (fillBody (files.index cpu.toUInt32 (UInt32.ofNat i)) (UInt32.ofNat i)
        cpu.toUInt32).run.run info with ⟨(⟨res⟩ | _) | _, info'⟩
      · have hres : res ≠ errorNone := fun h => absurd (h ▸ hreports res info' hrun) (by decide)
        simp only [outcome, Option.bind_some, if_pos hres, loopOutcome]
      · rfl
      · simp only [outcome, Option.bind_some, ne_eq, not_true_eq_false, if_false]
        rw [Cmd.against_bind]
        change Prog.against files.serve ((if (info'.type = .data ∨ info'.type = .unified) ∧
          level.toUInt32 = info'.level then pure () else if i + 1 = 2 ^ 31 then Cmd.lift .stuck
          else fillLoop garbage cpu level count fuel (i + 1) : Filler Unit) info') s = _
        by_cases hfound : (info'.type = .data ∨ info'.type = .unified) ∧
          level.toUInt32 = info'.level
        · rw [if_pos hfound, if_pos hfound]
          rfl
        · rw [if_neg hfound, if_neg hfound]
          by_cases hlast : i + 1 = 2 ^ 31
          · rw [if_pos hlast, if_pos hlast]
            rfl
          · rw [if_neg hlast, if_neg hlast]
            exact ih (by omega) info'
    · rw [if_neg hlt, if_neg hlt]
      rfl

/-- An error code as an outcome. -/
def exceptOf (res : ErrorT) : Except ErrorT Unit :=
  if res = errorNone then .ok () else .error res

theorem exceptOf_eq {res : ErrorT} (h : res ≠ errorNone) : exceptOf res = .error res := if_neg h

/-- The loop is only left early with an error. -/
theorem returns_ne {index : ℕ → CacheFiles} {cpu level : UInt8} {count : UInt32} {fuel : ℕ}
    {s : ℕ × CacheInfo} {res : ErrorT} {info : CacheInfo}
    (h : Iteration.run (cacheInfoNewStep index cpu level count) fuel s =
      some (.returns res info)) : res ≠ errorNone := by
  obtain ⟨⟨i, info'⟩, -, hstep⟩ := Iteration.run_invariant (fun _ => True)
    (fun _ _ _ _ => trivial) trivial h
  rw [cacheInfoNewStep] at hstep
  by_cases hlt : UInt32.ofNat i < count
  · rw [if_pos hlt] at hstep
    cases hfill : CacheNoise.cacheInfoFill (index i) (UInt32.ofNat i) cpu.toUInt32 info' with
    | none =>
      rw [hfill] at hstep
      cases hstep
    | some filled =>
      rw [hfill] at hstep
      dsimp only at hstep
      by_cases hres : filled.1 ≠ errorNone
      · rw [if_pos hres] at hstep
        cases hstep
        exact hres
      · rw [if_neg hres] at hstep
        split_ifs at hstep <;> cases hstep
  · rw [if_neg hlt] at hstep
    cases hstep

/-- **`cache_info_new`** fills in the description from the files of the CPU, and closes them; where
its model has no result, the type of an index is missing, or there are too many. -/
theorem against_cacheInfoNew (garbage : ℕ → Char) (cpu level : UInt8) {fuel : ℕ}
    (hfuel : ∀ names, files.dir (cacheDirPath cpu.toUInt32) = some names → names.length < fuel)
    (info : CacheInfo) (s : Streams) :
    Prog.against files.serve (cacheInfoNew garbage fuel cpu level info) s =
      (CacheNoise.cacheInfoNew (files.dir (cacheDirPath cpu.toUInt32))
        (fun i => files.index cpu.toUInt32 (UInt32.ofNat i)) cpu level info).map
          fun (res, info) => ((exceptOf res, info), s) := by
  rw [cacheInfoNew, Cmd.against_bind, against_forwardOnFail, against_cacheCount garbage cpu hfuel,
    CacheNoise.cacheInfoNew]
  cases files.dir (cacheDirPath cpu.toUInt32) with
  | none => rfl
  | some names =>
    rw [CacheNoise.cacheCount]
    simp only [Option.map_some, Option.bind_some, Cmd.against_bind,
      against_fillLoop garbage cpu level _ s (i := 0) (by norm_num) info]
    generalize hrun : Iteration.run _ _ (0, info) = left
    rcases left with _ | ⟨⟨res, info'⟩ | ⟨info'⟩ | _⟩
    · rfl
    · simp only [loopOutcome, Option.bind_some, Option.map_some, exceptOf_eq (returns_ne hrun)]
    · simp only [loopOutcome, Option.bind_some, Option.map_some]
      change Prog.against files.serve ((if level.toUInt32 ≠ info'.level then
        Cmd.throw errorCacheNotExists else pure () : Filler Unit) info') s = _
      by_cases hlevel : level.toUInt32 ≠ info'.level
      · rw [if_pos hlevel, if_pos hlevel]
        rfl
      · rw [if_neg hlevel, if_neg hlevel]
        rfl
    · rfl

/-! ### `get_hugepagesize` -/

theorem readLine_append (n : ℕ) (text : List Char) :
    (readLine n text).1 ++ (readLine n text).2 = text := by
  fun_induction readLine n text with
  | case1 text => rfl
  | case2 => rfl
  | case3 => rfl
  | case4 n c text hc read rest hread ih =>
    rw [hread] at ih
    exact congrArg (c :: ·) ih

theorem against_readLines {h : ℕ} {contents : List Char} {s : Streams} (fuel : ℕ)
    (text line : List Char) : ∃ rest,
      (readLines h fuel line).against files.serve ((h, .file contents text) :: s) =
        ((Iteration.run findLineStep fuel (text, line)).bind Except.toOption).map
          fun line => (line, (h, .file contents rest) :: s) := by
  induction fuel generalizing text line with
  | zero => exact ⟨[], rfl⟩
  | succ fuel ih =>
    rw [readLines, Prog.against_bind, call, Prog.against_perform, serve_fgets, Iteration.run,
      findLineStep, fgets]
    rcases readLine (99 - 1) text with ⟨_ | ⟨c, read⟩, rest⟩
    · exact ⟨rest, rfl⟩
    · simp only [Option.bind_some, storeString]
      by_cases hroom : (c :: read).length < line.length
      · rw [if_pos hroom, if_pos hroom]
        simp only [defined, Prog.against_bind, Prog.against_pure, Option.bind_some]
        cases hstr : cString (c :: read ++ '\x00' :: line.drop ((c :: read).length + 1)) with
        | error e => exact ⟨[], rfl⟩
        | ok str =>
          simp only [Prog.against_pure, Option.bind_some]
          by_cases hstarts : strStartsWith hugepagesize str = true
          · rw [if_pos hstarts, if_pos hstarts]
            exact ⟨rest, rfl⟩
          · rw [if_neg hstarts, if_neg hstarts]
            exact ih rest _
      · rw [if_neg hroom, if_neg hroom]
        exact ⟨[], rfl⟩

/-- Each pass takes something from the text. -/
theorem length_findLineStep {text line rest line' : List Char}
    (h : findLineStep (text, line) = .inr (rest, line')) : rest.length < text.length := by
  have happend := readLine_append (99 - 1) text
  rw [findLineStep, fgets] at h
  rcases hread : readLine (99 - 1) text with ⟨_ | ⟨c, read⟩, rest'⟩ <;> rw [hread] at h happend
  · cases h
  · have hrest : rest = rest' := by
      dsimp only at h
      by_cases hroom : (c :: read).length < line.length
      · rw [if_pos hroom] at h
        dsimp only at h
        rw [cString_append] at h
        dsimp only at h
        split_ifs at h
        exact (Prod.mk.inj (Sum.inr.inj h)).1.symm
      · rw [if_neg hroom] at h
        cases h
    have hlength := congrArg List.length happend
    rw [List.length_append] at hlength
    simp only [List.length_cons] at hlength
    rw [hrest]
    omega

theorem run_findLine {fuel : ℕ} {text : List Char} (hfuel : text.length < fuel)
    (line : List Char) :
    Iteration.run findLineStep fuel (text, line) = some (findLine text line) := by
  have hsome : (Iteration.run findLineStep (text.length + 1) (text, line)).isSome :=
    Iteration.run_isSome (fun _ => True) (fun s => s.1.length)
      (fun _ _ _ hstep => ⟨trivial, length_findLineStep hstep⟩) trivial
      (Nat.lt_succ_self text.length)
  obtain ⟨found, hfound⟩ := Option.isSome_iff_exists.mp hsome
  rw [findLine, hfound, Iteration.run_mono hfound hfuel]
  rfl

theorem against_defined {α β : Type} (x : Except Undefined α) (f : α → Reader β) (s : Streams) :
    (defined x >>= f).against files.serve s =
      x.toOption.bind fun a => (f a).against files.serve s := by
  cases x <;> rfl

theorem toOption_bind {α β : Type} (x : Except Undefined α) (f : α → Except Undefined β) :
    (x >>= f).toOption = x.toOption.bind fun a => (f a).toOption := by
  cases x <;> rfl

/-- **`get_hugepagesize`** looks through the lines of `/proc/meminfo`, and closes it. -/
theorem against_getHugepagesize (garbage : ℕ → Char) {fuel : ℕ}
    (hfuel : ∀ text, files.file procMeminfo = some text → text.length < fuel) (s : Streams) :
    (getHugepagesize garbage fuel).against files.serve s =
      (getHugepagesizeFrom (files.file procMeminfo) (array garbage 100)).toOption.map
        fun res => (res, s) := by
  rw [getHugepagesize, Prog.against_bind, call, Prog.against_perform, serve_fopen]
  cases hfile : files.file procMeminfo with
  | none => rfl
  | some text =>
    rw [getHugepagesizeFrom, toOption_bind, Option.map_bind, Option.bind_some]
    dsimp only
    rw [against_defined]
    refine Option.bind_congr fun line _ => ?_
    obtain ⟨rest, hlines⟩ := @against_readLines files (fresh s) text s fuel text line
    rw [run_findLine (hfuel text hfile), Option.bind_some] at hlines
    rw [Prog.against_bind, hlines, Option.bind_map, Function.comp_apply, toOption_bind,
      Option.map_bind]
    refine Option.bind_congr fun line _ => ?_
    rw [Function.comp_apply, Function.comp_apply]
    dsimp only
    rw [against_defined, toOption_bind, Option.map_bind]
    refine Option.bind_congr fun str _ => ?_
    rw [Function.comp_apply]
    by_cases hstarts : (!strStartsWith hugepagesize str) = true
    · rw [if_pos hstarts, if_pos hstarts, Prog.against_bind, call, Prog.against_perform,
        serve_fclose]
      rfl
    · rw [if_neg hstarts, if_neg hstarts]
      by_cases hroom : 100 ≤ (copyDigits str []).length
      · rw [if_pos hroom, if_pos hroom]
        rfl
      · rw [if_neg hroom, if_neg hroom, against_defined, toOption_bind, Option.map_bind]
        refine Option.bind_congr fun n _ => ?_
        rw [Function.comp_apply, against_defined, toOption_bind, Option.map_bind]
        refine Option.bind_congr fun size _ => ?_
        rw [Function.comp_apply, Prog.against_bind, call, Prog.against_perform, serve_fclose]
        rfl

/-! ### `get_physical_address` -/

/-- The files of a CPU with one cache, of 4 MiB. -/
def oneCache : Files where
  file path :=
    if path = indexPath 0 0 ++ coherencyLineSize then some ['6', '4', '\n']
    else if path = indexPath 0 0 ++ size then some ['4', '0', '9', '6', 'K', '\n']
    else if path = indexPath 0 0 ++ numberOfSets then some ['4', '0', '9', '6', '\n']
    else if path = indexPath 0 0 ++ level then some ['2', '\n']
    else if path = indexPath 0 0 ++ waysOfAssociativity then some ['1', '6', '\n']
    else if path = indexPath 0 0 ++ type then some ['U', 'n', 'i', 'f', 'i', 'e', 'd', '\n']
    else if path = procMeminfo then some twoMiBLine
    else none
  dir path := if path = cacheDirPath 0 then some [index ++ ['0'], ['.']] else none
  pageSize := 4096

theorem against_cacheInfoNew_oneCache :
    Prog.against oneCache.serve (cacheInfoNew (fun _ => 'x') 3 0 2 firstLevel) [] =
      some ((.ok (), ⟨64, 4194304, 0, 0, 4096, 16, 2, .unified⟩), []) := by
  have hdir : oneCache.dir (cacheDirPath (0 : UInt8).toUInt32) =
      some [index ++ ['0'], ['.']] := by decide
  have hfilled : CacheNoise.cacheInfoNew (some [index ++ ['0'], ['.']])
      (fun i => oneCache.index (0 : UInt8).toUInt32 (UInt32.ofNat i)) 0 2 firstLevel =
        some (errorNone, ⟨64, 4194304, 0, 0, 4096, 16, 2, .unified⟩) := by decide
  refine (against_cacheInfoNew _ 0 2 (fun names h => ?_) firstLevel []).trans ?_
  · rw [hdir] at h
    rw [← Option.some.inj h]
    decide
  · rw [hdir, hfilled]
    rfl

theorem against_getHugepagesize_oneCache :
    (getHugepagesize (fun _ => 'x') 50).against oneCache.serve [] =
      some (.ok 2097152, []) := by
  have hfile : oneCache.file procMeminfo = some twoMiBLine := by decide
  have hsize : getHugepagesizeFrom (some twoMiBLine) (array (fun _ => 'x') 100) =
      .ok (.ok 2097152) := by decide
  refine (against_getHugepagesize _ (fun text h => ?_) []).trans ?_
  · rw [hfile] at h
    rw [← Option.some.inj h]
    decide
  · rw [hfile, hsize]
    rfl

end Stdio

end CacheNoise
