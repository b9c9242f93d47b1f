import CacheNoise.SysInfo.CacheFiles

/-!
# Looking for a cache

`cache_info_new` over a directory of cache indices. The loop fills the description with one index
after the other, and leaves it at the first data or unified cache of the level. What it has filled
in last stays also when the loop comes to its end, and the test after the loop compares the level
only. So the last index answers for the whole directory, be it an instruction cache; and with no
index at all it is what the caller has passed in (`findsCache_iff`).
-/

namespace CacheNoise

/-! ### `cache_count` -/

/-- `cache_count`, over the names in the directory of a CPU (`none` if it can not be opened). -/
def cacheCount : Option (List (List Char)) → Except ErrorT UInt32
  | none => .error errorIoSysCpu
  | some names => .ok (names.foldl
      (fun count name => if strStartsWith ['i', 'n', 'd', 'e', 'x'] name then count + 1 else count)
      0)

theorem foldl_count (p : List Char → Bool) (names : List (List Char)) (count : UInt32) :
    names.foldl (fun count name => if p name then count + 1 else count) count =
      count + UInt32.ofNat (names.filter p).length := by
  induction names generalizing count with
  | nil => simp
  | cons name names ih =>
    rw [List.foldl_cons, ih]
    cases hp : p name with
    | false => simp [hp]
    | true =>
      rw [if_pos rfl, List.filter_cons_of_pos hp, List.length_cons, UInt32.ofNat_add]
      ac_rfl

/-! ### `cache_info_new` -/

/-- The ways out of the loop of `cache_info_new`. -/
inductive ScanExit
  /-- `FORWARD_ON_FAIL` has returned. -/
  | returns (res : ErrorT) (info : CacheInfo)
  /-- The loop was left, by `break` or at its end. -/
  | left (info : CacheInfo)
  /-- `fgetc` reads from a stream that is `NULL`, or `i++` overflows. -/
  | undefined

/-- One pass of the loop of `cache_info_new`, in which `i` is an `int`. -/
def cacheInfoNewStep (index : ℕ → CacheFiles) (cpu level : UInt8) (count : UInt32) :
    ℕ × CacheInfo → ScanExit ⊕ ℕ × CacheInfo
  | (i, info) =>
    if UInt32.ofNat i < count then
      match cacheInfoFill (index i) (UInt32.ofNat i) cpu.toUInt32 info with
      | none => .inl .undefined
      | some (res, info) =>
        if res ≠ errorNone then .inl (.returns res info)
        else if (info.type = .data ∨ info.type = .unified) ∧ level.toUInt32 = info.level then
          .inl (.left info)
        else if i + 1 = 2 ^ 31 then .inl .undefined
        else .inr (i + 1, info)
    else .inl (.left info)

/-- `cache_info_new`, with the description afterwards: `names` are those in the directory of the
CPU, and `index` has the files of each index. -/
def cacheInfoNew (names : Option (List (List Char))) (index : ℕ → CacheFiles)
    (cpu level : UInt8) (info : CacheInfo) : Option (ErrorT × CacheInfo) :=
  match cacheCount names with
  | .error res => some (res, info)
  | .ok count =>
    match Iteration.run (cacheInfoNewStep index cpu level count) (count.toNat + 1) (0, info) with
    | some (.returns res info) => some (res, info)
    | some (.left info) =>
      some (if level.toUInt32 ≠ info.level then errorCacheNotExists else errorNone, info)
    | some .undefined => none
    | none => none

/-! ### The directory -/

/-- The name of an index. -/
def indexName (i : ℕ) : List Char := ['i', 'n', 'd', 'e', 'x'] ++ Nat.toDigits 10 i

/-- All files can be opened, and five of them hold numbers. -/
def CacheFiles.Readable (files : CacheFiles) : Prop :=
  (∀ file ∈ files.numeric, ∃ n, scanned file = some n) ∧ files.type ≠ none

/-- The cache directory of a CPU, with indices from 0 on and in any order between other names.
The count is the one of the kernel, an `unsigned int`. -/
structure CacheDir where
  names : List (List Char)
  index : ℕ → CacheFiles
  count : UInt32
  indices : (names.filter (strStartsWith ['i', 'n', 'd', 'e', 'x'])).Perm
    ((List.range count.toNat).map indexName)
  readable : ∀ i < count.toNat, (index i).Readable

theorem CacheDir.cacheCount_eq (dir : CacheDir) : cacheCount (some dir.names) = .ok dir.count := by
  have hlength := dir.indices.length_eq
  rw [List.length_map, List.length_range] at hlength
  rw [cacheCount, foldl_count, hlength]
  simp

/-- The files are of a data or unified cache of the level. -/
def CacheFiles.Serves (files : CacheFiles) (level : UInt8) : Prop :=
  scanned files.level = some level.toUInt32 ∧
    ∃ type, files.type = some type ∧ (cacheType type = .data ∨ cacheType type = .unified)

/-- The description is the one of an index: the numbers in its files, with the size in bytes, modulo
`2 ^ 32`. -/
structure Describes (files : CacheFiles) (cache cpu : UInt32) (info : CacheInfo) : Prop where
  lineSize : scanned files.coherencyLineSize = some info.lineSize
  totalSize : ∃ n, scanned files.size = some n ∧ info.totalSize = n * 1024
  setCount : scanned files.numberOfSets = some info.setCount
  level : scanned files.level = some info.level
  waysOfAssociativity : scanned files.waysOfAssociativity = some info.waysOfAssociativity
  type : ∃ type, files.type = some type ∧ info.type = cacheType type
  cacheId : info.cacheId = cache
  cpuId : info.cpuId = cpu

/-- Readable files are filled in with success, whatever the description was before. -/
theorem cacheInfoFill_describes {files : CacheFiles} (h : files.Readable) (cache cpu : UInt32)
    (info : CacheInfo) :
    ∃ filled, cacheInfoFill files cache cpu info = some (errorNone, filled) ∧
      Describes files cache cpu filled := by
  obtain ⟨hnumbers, htype⟩ := h
  have hread : ∀ file ∈ files.numeric, ¬ Unreadable file := fun file hmem hfile => by
    obtain ⟨n, hn⟩ := hnumbers file hmem
    rw [scanned_of_unreadable hfile] at hn
    cases hn
  obtain ⟨type, htype⟩ := Option.ne_none_iff_exists'.mp htype
  simp only [CacheFiles.numeric, List.forall_mem_cons] at hnumbers
  obtain ⟨⟨line, hline⟩, ⟨size, hsize⟩, ⟨sets, hsets⟩, ⟨level, hlevel⟩, ⟨ways, hways⟩, -⟩ :=
    hnumbers
  refine ⟨files.fill cache cpu type info, ?_, ?_⟩
  · rw [cacheInfoFill_eq files cache cpu info hread, htype]
    rfl
  · exact {
      lineSize := by rw [CacheFiles.fill, hline, Option.getD_some]
      totalSize := ⟨size, hsize, by rw [CacheFiles.fill, hsize, Option.getD_some]⟩
      setCount := by rw [CacheFiles.fill, hsets, Option.getD_some]
      level := by rw [CacheFiles.fill, hlevel, Option.getD_some]
      waysOfAssociativity := by rw [CacheFiles.fill, hways, Option.getD_some]
      type := ⟨type, htype, rfl⟩
      cacheId := rfl
      cpuId := rfl }

/-- The test in the loop asks for the right thing. -/
theorem Describes.serves_iff {files : CacheFiles} {cache cpu : UInt32} {info : CacheInfo}
    (h : Describes files cache cpu info) (level : UInt8) :
    files.Serves level ↔
      (info.type = .data ∨ info.type = .unified) ∧ level.toUInt32 = info.level := by
  obtain ⟨type, htype, heq⟩ := h.type
  rw [CacheFiles.Serves, h.level, heq]
  constructor
  · rintro ⟨hlevel, _, hsome, hkind⟩
    obtain rfl := Option.some.inj (htype.symm.trans hsome)
    exact ⟨hkind, (Option.some.inj hlevel).symm⟩
  · rintro ⟨hkind, hlevel⟩
    exact ⟨congrArg some hlevel.symm, type, htype, hkind⟩

/-! ### The loop -/

section

variable (dir : CacheDir) (cpu level : UInt8) (info : CacheInfo)

/-- The description after the first `i` indices. -/
def AfterIndices : ℕ → CacheInfo → Prop
  | 0, filled => filled = info
  | i + 1, filled => Describes (dir.index i) (UInt32.ofNat i) cpu.toUInt32 filled

/-- The invariant at the head of the loop: no index before serves the level. -/
structure Looking (i : ℕ) (filled : CacheInfo) : Prop where
  le_count : i ≤ dir.count.toNat
  lt_int : i < 2 ^ 31
  none_before : ∀ j < i, ¬ (dir.index j).Serves level
  after : AfterIndices dir cpu info i filled

/-- How the loop can end. -/
inductive Scanned : ScanExit → Prop
  /-- At the lowest index that serves the level. -/
  | found {i : ℕ} {filled : CacheInfo} (hi : i < dir.count.toNat) (hint : i < 2 ^ 31)
      (hserves : (dir.index i).Serves level) (hfirst : ∀ j < i, ¬ (dir.index j).Serves level)
      (hfilled : Describes (dir.index i) (UInt32.ofNat i) cpu.toUInt32 filled) :
      Scanned (.left filled)
  /-- After all of them. -/
  | missed {filled : CacheInfo} (hint : dir.count.toNat < 2 ^ 31)
      (hnone : ∀ i < dir.count.toNat, ¬ (dir.index i).Serves level)
      (hfilled : AfterIndices dir cpu info dir.count.toNat filled) : Scanned (.left filled)
  /-- At the end of the `int`. -/
  | overflow (hcount : 2 ^ 31 ≤ dir.count.toNat)
      (hnone : ∀ i < 2 ^ 31, ¬ (dir.index i).Serves level) : Scanned .undefined

variable {dir cpu level info} {i : ℕ} {filled : CacheInfo}

/-- One pass over an index: the loop ends there, or the index does not serve the level. -/
theorem Looking.step (h : Looking dir cpu level info i filled) :
    (∃ r, cacheInfoNewStep dir.index cpu level dir.count (i, filled) = .inl r ∧
      Scanned dir cpu level info r) ∨
    (i < dir.count.toNat ∧ ∃ filled',
      cacheInfoNewStep dir.index cpu level dir.count (i, filled) = .inr (i + 1, filled') ∧
      Looking dir cpu level info (i + 1) filled') := by
  have hint := h.lt_int
  have hlt : UInt32.ofNat i < dir.count ↔ i < dir.count.toNat := by
    rw [UInt32.lt_iff_toNat_lt, UInt32.toNat_ofNat_of_lt' (by simp only [UInt32.size]; omega)]
  by_cases hi : i < dir.count.toNat
  swap
  · obtain rfl : i = dir.count.toNat := le_antisymm h.le_count (not_lt.mp hi)
    refine .inl ⟨.left filled, ?_, .missed hint h.none_before h.after⟩
    rw [cacheInfoNewStep, if_neg (hlt.not.mpr hi)]
  obtain ⟨filled', hfill, hfilled⟩ :=
    cacheInfoFill_describes (dir.readable i hi) (UInt32.ofNat i) cpu.toUInt32 filled
  have hstep : cacheInfoNewStep dir.index cpu level dir.count (i, filled) =
      if (filled'.type = .data ∨ filled'.type = .unified) ∧ level.toUInt32 = filled'.level then
        .inl (.left filled')
      else if i + 1 = 2 ^ 31 then .inl .undefined else .inr (i + 1, filled') := by
    rw [cacheInfoNewStep, if_pos (hlt.mpr hi), hfill]
    rfl
  rw [hstep]
  by_cases hserves : (dir.index i).Serves level
  · rw [if_pos ((hfilled.serves_iff level).mp hserves)]
    exact .inl ⟨_, rfl, .found hi hint hserves h.none_before hfilled⟩
  rw [if_neg fun htest => hserves ((hfilled.serves_iff level).mpr htest)]
  have hnone : ∀ j < i + 1, ¬ (dir.index j).Serves level := fun j hj =>
    (Nat.lt_succ_iff_lt_or_eq.mp hj).elim (h.none_before j) fun heq => heq ▸ hserves
  by_cases hlast : i + 1 = 2 ^ 31
  · rw [if_pos hlast]
    exact .inl ⟨_, rfl, .overflow (by omega) fun j hj => hnone j (by omega)⟩
  · rw [if_neg hlast]
    exact .inr ⟨hi, filled', rfl, hi, by omega, hnone, hfilled⟩

/-- The loop ends, in one of the three ways. -/
theorem run_scanned (dir : CacheDir) (cpu level : UInt8) (info : CacheInfo) :
    ∃ r, Iteration.run (cacheInfoNewStep dir.index cpu level dir.count) (dir.count.toNat + 1)
      (0, info) = some r ∧ Scanned dir cpu level info r := by
  let I : ℕ × CacheInfo → Prop := fun s => Looking dir cpu level info s.1 s.2
  have hstart : I (0, info) :=
    ⟨Nat.zero_le _, Nat.two_pow_pos 31, fun j hj => absurd hj (Nat.not_lt_zero j), rfl⟩
  have hkeep : ∀ s s', I s → cacheInfoNewStep dir.index cpu level dir.count s = .inr s' →
      I s' ∧ dir.count.toNat - s'.1 < dir.count.toNat - s.1 := by
    rintro ⟨i, filled⟩ s' h hnext
    obtain ⟨r, hstep, -⟩ | ⟨hi, filled', hstep, h'⟩ := h.step
    · rw [hstep] at hnext
      cases hnext
    · obtain rfl := Sum.inr.inj (hstep.symm.trans hnext)
      exact ⟨h', by simp only; omega⟩
  obtain ⟨r, hr⟩ := Option.isSome_iff_exists.mp
    (Iteration.run_isSome I (fun s => dir.count.toNat - s.1) hkeep hstart (Nat.lt_succ_self _))
  obtain ⟨⟨i, filled⟩, h, hexit⟩ := Iteration.run_invariant I
    (fun s s' hs hstep => (hkeep s s' hs hstep).1) hstart hr
  obtain ⟨r', hstep, hscanned⟩ | ⟨-, filled', hstep, -⟩ := h.step
  · obtain rfl := Sum.inl.inj (hstep.symm.trans hexit)
    exact ⟨r', hr, hscanned⟩
  · rw [hstep] at hexit
    cases hexit

end

/-! ### When the answer is right -/

section

variable (dir : CacheDir) (cpu level : UInt8) (info : CacheInfo)

/-- A result for a directory is right: success stands for a data or unified cache of the level,
the description is the one of the lowest, and without one the error says so. -/
structure AnswersFor (res : ErrorT) (info' : CacheInfo) : Prop where
  success : res = errorNone ↔ ∃ i < dir.count.toNat, (dir.index i).Serves level
  lowest : ∀ i < dir.count.toNat, (dir.index i).Serves level →
    (∀ j < i, ¬ (dir.index j).Serves level) →
      Describes (dir.index i) (UInt32.ofNat i) cpu.toUInt32 info'
  missing : (∀ i < dir.count.toNat, ¬ (dir.index i).Serves level) → res = errorCacheNotExists

/-- `cache_info_new` returns, and its result is right. -/
def FindsCache : Prop :=
  ∃ res info', cacheInfoNew (some dir.names) dir.index cpu level info = some (res, info') ∧
    AnswersFor dir cpu level res info'

/-- The level that the test after the loop sees if no index serves the requested one: that of the
last index, or what the caller has passed in. -/
def CacheDir.lastLevel : Option UInt32 :=
  match dir.count.toNat with
  | 0 => some info.level
  | i + 1 => scanned (dir.index i).level

/-- An index that an `int` can count serves the level; or none does, an `int` can count them all,
and the last one has another level. -/
def Findable : Prop :=
  (∃ i < dir.count.toNat, i < 2 ^ 31 ∧ (dir.index i).Serves level) ∨
    ((∀ i < dir.count.toNat, ¬ (dir.index i).Serves level) ∧ dir.count.toNat < 2 ^ 31 ∧
      dir.lastLevel info ≠ some level.toUInt32)

variable {dir cpu info}

theorem lastLevel_eq {filled : CacheInfo} (h : AfterIndices dir cpu info dir.count.toNat filled) :
    dir.lastLevel info = some filled.level := by
  rw [CacheDir.lastLevel]
  cases hcount : dir.count.toNat with
  | zero =>
    rw [hcount] at h
    obtain rfl : filled = info := h
    rfl
  | succ i =>
    rw [hcount] at h
    exact Describes.level h

/-- **`cache_info_new` finds the lowest data or unified cache of a level, or reports that there is
none**, if and only if there is one, or the last index has another level. -/
theorem findsCache_iff (dir : CacheDir) (cpu level : UInt8) (info : CacheInfo) :
    FindsCache dir cpu level info ↔ Findable dir level info := by
  obtain ⟨r, hrun, hscanned⟩ := run_scanned dir cpu level info
  have hnew : cacheInfoNew (some dir.names) dir.index cpu level info =
      match r with
      | .returns res info => some (res, info)
      | .left info =>
        some (if level.toUInt32 ≠ info.level then errorCacheNotExists else errorNone, info)
      | .undefined => none := by
    rw [cacheInfoNew, dir.cacheCount_eq]
    simp only [hrun]
    cases r <;> rfl
  rw [FindsCache, hnew]
  cases hscanned with
  | @found i filled hi hint hserves hfirst hfilled =>
    refine iff_of_true ?_ (.inl ⟨i, hi, hint, hserves⟩)
    have hlevel := ((hfilled.serves_iff level).mp hserves).2
    refine ⟨errorNone, filled, by simp only [hlevel, ne_eq, not_true_eq_false, if_false],
      iff_of_true rfl ⟨i, hi, hserves⟩, fun j hj hservesj hfirstj => ?_,
      fun hnone => absurd hserves (hnone i hi)⟩
    -- the lowest index is unique
    obtain rfl : i = j := le_antisymm (not_lt.mp fun h => hfirst j h hservesj)
      (not_lt.mp fun h => hfirstj i h hserves)
    exact hfilled
  | @missed filled hint hnone hfilled =>
    have hfindable : Findable dir level info ↔ level.toUInt32 ≠ filled.level := by
      rw [Findable, lastLevel_eq hfilled]
      constructor
      · rintro (⟨i, hi, -, hserves⟩ | ⟨-, -, hne⟩)
        · exact absurd hserves (hnone i hi)
        · exact fun heq => hne (congrArg some heq.symm)
      · exact fun hne => .inr ⟨hnone, hint, fun heq => hne (Option.some.inj heq).symm⟩
    rw [hfindable]
    constructor
    · rintro ⟨res, info', hsome, hright⟩ heq
      obtain ⟨rfl, rfl⟩ := Prod.mk.inj (Option.some.inj hsome)
      rw [if_neg (not_not.mpr heq)] at hright
      obtain ⟨i, hi, hserves⟩ := hright.success.mp rfl
      exact hnone i hi hserves
    · intro hne
      refine ⟨errorCacheNotExists, filled, by simp only [if_pos hne],
        iff_of_false (by decide) ?_, fun i hi hserves => absurd hserves (hnone i hi),
        fun _ => rfl⟩
      rintro ⟨i, hi, hserves⟩
      exact hnone i hi hserves
  | overflow hcount hnone =>
    refine iff_of_false ?_ ?_
    · rintro ⟨_, _, hsome, -⟩
      cases hsome
    · rintro (⟨i, -, hint, hserves⟩ | ⟨-, hint, -⟩)
      · exact hnone i hint hserves
      · omega

end

/-- The files of an instruction cache of the first level. -/
def instructionFiles : CacheFiles where
  coherencyLineSize := some ['6', '4', '\n']
  size := some ['3', '2', 'K', '\n']
  numberOfSets := some ['6', '4', '\n']
  level := some ['1', '\n']
  waysOfAssociativity := some ['8', '\n']
  type := some ['I', 'n', 's', 't', 'r', 'u', 'c', 't', 'i', 'o', 'n', '\n']

/-- A directory with that cache alone. -/
def instructionDir : CacheDir where
  names := [['.'], ['.', '.'], ['u', 'e', 'v', 'e', 'n', 't'], ['i', 'n', 'd', 'e', 'x', '0']]
  index := fun _ => instructionFiles
  count := 1
  indices := by decide
  readable := fun _ _ => ⟨by
    simp only [CacheFiles.numeric, List.forall_mem_cons]
    exact ⟨⟨64, by decide⟩, ⟨32, by decide⟩, ⟨64, by decide⟩, ⟨1, by decide⟩, ⟨8, by decide⟩,
      fun _ h => absurd h List.not_mem_nil⟩, by decide⟩

/-- An instruction cache is returned where a data cache is asked for. -/
theorem cacheInfoNew_instruction :
    (cacheInfoNew (some instructionDir.names) instructionDir.index 0 1 firstLevel).map
      (fun r => (r.1, r.2.type)) = some (errorNone, .instruction) ∧
    ¬ FindsCache instructionDir 0 1 firstLevel := by
  have hrun : (cacheInfoNew (some instructionDir.names) instructionDir.index 0 1 firstLevel).map
      (fun r => (r.1, r.2.type)) = some (errorNone, .instruction) := by decide
  refine ⟨hrun, ?_⟩
  rintro ⟨res, info', hsome, hright⟩
  rw [hsome] at hrun
  obtain ⟨rfl, -⟩ := Prod.mk.inj (Option.some.inj hrun)
  obtain ⟨_, _, -, type, htype, hkind⟩ := hright.success.mp rfl
  obtain rfl := Option.some.inj htype
  exact absurd hkind (by decide)

end CacheNoise
