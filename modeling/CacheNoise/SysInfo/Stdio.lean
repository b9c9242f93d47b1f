import CacheNoise.General.Server
import CacheNoise.SysInfo.CacheInfoNew
import CacheNoise.SysInfo.Hugepagesize

/-!
# Reading files

The functions of `sys_info.c` that read files, call by call: the paths are put together in arrays
of characters, and the contents come from streams that are opened and closed. What the language
leaves undefined ends a run without a result.
-/

namespace CacheNoise

namespace Stdio

open Interaction

/-! ### Strings in arrays -/

/-- `strncpy(dst, src, n)`. -/
def strncpy (dst src : List Char) (n : ℕ) : Except Undefined (List Char) :=
  if n ≤ dst.length then
    .ok (src.take n ++ List.replicate (n - src.length) '\x00' ++ dst.drop n)
  else .error .outOfBounds

/-- What is in an array after a string and its zero have been stored at its begin. -/
def storeString (dst str : List Char) : Except Undefined (List Char) :=
  if str.length < dst.length then .ok (str ++ '\x00' :: dst.drop (str.length + 1))
  else .error .outOfBounds

/-- `strncat(dst, src, n)`. -/
def strncat (dst src : List Char) (n : ℕ) : Except Undefined (List Char) := do
  storeString dst ((← cString dst) ++ src.take n)

/-- The number as `%d` prints it. -/
def intText (n : Int32) : List Char :=
  match n.toInt with
  | .ofNat k => Nat.toDigits 10 k
  | .negSucc k => '-' :: Nat.toDigits 10 (k + 1)

/-- `/sys/devices/system/cpu/cpu` -/
def sysCpu : List Char :=
  ['/', 's', 'y', 's', '/', 'd', 'e', 'v', 'i', 'c', 'e', 's', '/', 's', 'y', 's', 't', 'e', 'm',
    '/', 'c', 'p', 'u', '/', 'c', 'p', 'u']

/-- `/cache/` -/
def slashCache : List Char := ['/', 'c', 'a', 'c', 'h', 'e', '/']

/-- `/sys/devices/system/cpu/cpu%d/cache/` -/
def cacheDirPath (cpu : UInt32) : List Char := sysCpu ++ intText cpu.toInt32 ++ slashCache

/-- `index` -/
def index : List Char := ['i', 'n', 'd', 'e', 'x']

/-- `/sys/devices/system/cpu/cpu%d/cache/index%d/` -/
def indexPath (cpu cache : UInt32) : List Char :=
  cacheDirPath cpu ++ index ++ intText cache.toInt32 ++ ['/']

/-- `/proc/meminfo` -/
def procMeminfo : List Char := ['/', 'p', 'r', 'o', 'c', '/', 'm', 'e', 'm', 'i', 'n', 'f', 'o']

/-- `/proc/self/pagemap` -/
def procSelfPagemap : List Char :=
  ['/', 'p', 'r', 'o', 'c', '/', 's', 'e', 'l', 'f', '/', 'p', 'a', 'g', 'e', 'm', 'a', 'p']

/-- `/proc/sys/vm/` -/
def procSysVm : List Char :=
  ['/', 'p', 'r', 'o', 'c', '/', 's', 'y', 's', '/', 'v', 'm', '/']

/-- `nr_hugepages` -/
def nrHugepages : List Char := ['n', 'r', '_', 'h', 'u', 'g', 'e', 'p', 'a', 'g', 'e', 's']

/-- `/sys/bus/event_source/devices/cpu/` -/
def sysBus : List Char :=
  ['/', 's', 'y', 's', '/', 'b', 'u', 's', '/', 'e', 'v', 'e', 'n', 't', '_', 's', 'o', 'u', 'r',
    'c', 'e', '/', 'd', 'e', 'v', 'i', 'c', 'e', 's', '/', 'c', 'p', 'u', '/']

/-- `rdpmc` -/
def rdpmc : List Char := ['r', 'd', 'p', 'm', 'c']

/-- `coherency_line_size` -/
def coherencyLineSize : List Char :=
  ['c', 'o', 'h', 'e', 'r', 'e', 'n', 'c', 'y', '_', 'l', 'i', 'n', 'e', '_', 's', 'i', 'z', 'e']

/-- `size` -/
def size : List Char := ['s', 'i', 'z', 'e']

/-- `number_of_sets` -/
def numberOfSets : List Char :=
  ['n', 'u', 'm', 'b', 'e', 'r', '_', 'o', 'f', '_', 's', 'e', 't', 's']

/-- `level` -/
def level : List Char := ['l', 'e', 'v', 'e', 'l']

/-- `ways_of_associativity` -/
def waysOfAssociativity : List Char :=
  ['w', 'a', 'y', 's', '_', 'o', 'f', '_', 'a', 's', 's', 'o', 'c', 'i', 'a', 't', 'i', 'v', 'i',
    't', 'y']

/-- `type` -/
def type : List Char := ['t', 'y', 'p', 'e']

/-- An array of `n` characters, in which nothing has been stored. -/
def array (garbage : ℕ → Char) (n : ℕ) : List Char := (List.range n).map garbage

/-- The path that `READ_PROP_PUT` opens. -/
def newPath (garbage : ℕ → Char) (path filename : List Char) : Except Undefined (List Char) := do
  let newPathSize := path.length + filename.length + 1
  let newPath ← strncpy (array garbage newPathSize) path (newPathSize - 1)
  let newPath ← strncat newPath filename (newPathSize - (← cString newPath).length - 1)
  cString newPath

/-- A string in an array of `n` characters, put there by `sprintf`. -/
def sprintf (garbage : ℕ → Char) (n : ℕ) (str : List Char) : Except Undefined (List Char) := do
  cString (← storeString (array garbage n) str)

/-! ### Calls -/

/-- The calls by which files are read. -/
inductive FileCall
  | fopen (path : List Char)
  /-- with the format `%u` -/
  | fscanf (stream : ℕ)
  | fgetc (stream : ℕ)
  | fgets (stream size : ℕ)
  | fseek (stream : ℕ) (offset : UInt64)
  /-- of one number of 8 bytes -/
  | fread (stream : ℕ)
  | fclose (stream : ℕ)
  | opendir (path : List Char)
  | readdir (dir : ℕ)
  | closedir (dir : ℕ)
  /-- the page size -/
  | sysconf
  | malloc
  | free

/-- What a call returns. -/
@[reducible] def FileCall.Value : FileCall → Type
  | .fopen _ => Option ℕ
  | .fscanf _ => Scan
  /- `none` for `EOF` -/
  | .fgetc _ => Option Char
  /- the characters that were read -/
  | .fgets .. => Option (List Char)
  | .fseek .. => ℤ
  /- `none` unless it returns 1 -/
  | .fread _ => Option UInt64
  | .fclose _ => ℤ
  | .opendir _ => Option ℕ
  | .readdir _ => Option (List Char)
  | .closedir _ => ℤ
  | .sysconf => UInt64
  /- `false` for `NULL` -/
  | .malloc => Bool
  | .free => Unit

/-- A function that reads files. -/
abbrev Reader (α : Type) : Type := Prog FileCall FileCall.Value α

/-- One that fills in a cache description, with an error as an early exit. -/
abbrev Filler (α : Type) : Type := Cmd FileCall FileCall.Value CacheInfo ErrorT α

/-- Make a call. -/
def call (c : FileCall) : Reader c.Value := Prog.perform c

/-- Go on if it is defined. -/
def defined {α : Type} : Except Undefined α → Reader α
  | .ok a => pure a
  | .error _ => .stuck

/-- `FORWARD_ON_FAIL`. -/
def forwardOnFail {α : Type} (p : Reader (Except ErrorT α)) : Filler α := do
  match ← Cmd.lift p with
  | .error res => Cmd.throw res
  | .ok a => pure a

/-! ### The functions -/

section

variable (garbage : ℕ → Char)

/-- `READ_PROP_PUT`: the number that it stores, if any. -/
def readPropPut (path filename : List Char) (errorIo : ErrorT) :
    Reader (Except ErrorT (Option UInt32)) := do
  let newPath ← defined (newPath garbage path filename)
  match ← call (.fopen newPath) with
  | none => pure (.error errorIo)
  | some file => do
    let res ← call (.fscanf file)
    let _ ← call (.fclose file)
    match res with
    | .eof => pure (.error errorFmt)
    | .mismatch => pure (.ok none)
    | .number value => pure (.ok (some value))

/-- `READ_PROP_PUT` into a field of the description. -/
def readPropPutInto (path filename : List Char) (writeBack : UInt32 → CacheInfo → CacheInfo)
    (errorIo : ErrorT) : Filler Unit := do
  match ← forwardOnFail (readPropPut garbage path filename errorIo) with
  | none => pure ()
  | some value => Cmd.modify (writeBack value)

/-- The type, from the first characters of a stream. -/
def readType (file : ℕ) : Reader CacheType := do
  let c ← call (.fgetc file)
  call .free
  if c = some 'D' then pure .data
  else if c = some 'I' then pure .instruction
  else if c = some 'U' then do
    let c ← call (.fgetc file)
    if c = some 'n' then do
      let c ← call (.fgetc file)
      if c = some 'i' then pure .unified else pure .unkown
    else pure .unkown
  else pure .unkown

/-- The last part of `cache_info_fill`: neither `malloc` nor `fopen` is checked. -/
def typeOf (path : List Char) : Reader CacheType := do
  let allocated ← call .malloc
  if allocated = false then .stuck
  else do
    let newPath ← defined (newPath garbage path type)
    match ← call (.fopen newPath) with
    | none => .stuck
    | some file => do
      let ctype ← readType file
      let _ ← call (.fclose file)
      pure ctype

/-- `cache_info_fill`. -/
def cacheInfoFill (cache cpu : UInt32) : Filler Unit := do
  let cpuPath ← Cmd.lift (defined (sprintf garbage 60 (indexPath cpu cache)))
  readPropPutInto garbage cpuPath coherencyLineSize (fun n info => { info with lineSize := n })
    errorIoLineSize
  readPropPutInto garbage cpuPath size (fun n info => { info with totalSize := n })
    errorIoTotalSize
  Cmd.modify fun info => { info with totalSize := info.totalSize * 1024 }
  readPropPutInto garbage cpuPath numberOfSets (fun n info => { info with setCount := n })
    errorIoSetNumber
  readPropPutInto garbage cpuPath level (fun n info => { info with level := n }) errorIoLevels
  readPropPutInto garbage cpuPath waysOfAssociativity
    (fun n info => { info with waysOfAssociativity := n }) errorIoAssociativity
  Cmd.modify fun info => { info with cpuId := cpu, cacheId := cache }
  let ctype ← Cmd.lift (typeOf garbage cpuPath)
  Cmd.modify fun info => { info with type := ctype }

/-- The loop of `cache_count`. -/
def countEntries (dir : ℕ) : ℕ → UInt32 → Reader UInt32
  | 0, _ => .stuck
  | fuel + 1, count => do
    match ← call (.readdir dir) with
    | none => pure count
    | some name => countEntries dir fuel (if strStartsWith index name then count + 1 else count)

/-- `cache_count`. -/
def cacheCount (fuel : ℕ) (cpu : UInt32) : Reader (Except ErrorT UInt32) := do
  let cpuPath ← defined (sprintf garbage 256 (cacheDirPath cpu))
  match ← call (.opendir cpuPath) with
  | none => pure (.error errorIoSysCpu)
  | some dir => do
    let count ← countEntries dir fuel 0
    let _ ← call (.closedir dir)
    pure (.ok count)

/-- The loop of `cache_info_new`, in which `i` is an `int`. -/
def fillLoop (cpu level : UInt8) (count : UInt32) : ℕ → ℕ → Filler Unit
  | 0, _ => Cmd.lift .stuck
  | fuel + 1, i =>
    if UInt32.ofNat i < count then do
      cacheInfoFill garbage (UInt32.ofNat i) cpu.toUInt32
      let info ← Cmd.get
      if (info.type = .data ∨ info.type = .unified) ∧ level.toUInt32 = info.level then pure ()
      else if i + 1 = 2 ^ 31 then Cmd.lift .stuck
      else fillLoop cpu level count fuel (i + 1)
    else pure ()

/-- `cache_info_new`. -/
def cacheInfoNew (fuel : ℕ) (cpu level : UInt8) : Filler Unit := do
  let count ← forwardOnFail (cacheCount garbage fuel cpu.toUInt32)
  fillLoop garbage cpu level count (count.toNat + 1) 0
  let info ← Cmd.get
  if level.toUInt32 ≠ info.level then Cmd.throw errorCacheNotExists else pure ()

/-- `get_hugepagenr`: the number that it stores, if any. -/
def getHugepagenr : Reader (Except ErrorT (Option UInt32)) :=
  readPropPut garbage procSysVm nrHugepages errorIoHugepageNumber

/-- `can_use_rdpmc`, with what is in its variable before. -/
def canUseRdpmc (value : UInt32) : Reader ErrorT := do
  match ← readPropPut garbage sysBus rdpmc errorIoRdpmc with
  | .error res => pure res
  | .ok read => pure (if read.getD value ≠ 2 then errorRdpmc else errorNone)

/-- The loop of `get_hugepagesize` over the lines. -/
def readLines (file : ℕ) : ℕ → List Char → Reader (List Char)
  | 0, _ => .stuck
  | fuel + 1, line => do
    match ← call (.fgets file 99) with
    | none => pure line
    | some read => do
      let line ← defined (storeString line read)
      let str ← defined (cString line)
      if strStartsWith hugepagesize str then pure line else readLines file fuel line

/-- `get_hugepagesize`. -/
def getHugepagesize (fuel : ℕ) : Reader (Except ErrorT UInt64) := do
  match ← call (.fopen procMeminfo) with
  | none => pure (.error errorIoProcMeminfo)
  | some meminfo => do
    let line ← defined (storeAt (array garbage 100) 99 '\x00')
    let line ← readLines meminfo fuel line
    let str ← defined (cString line)
    if !strStartsWith hugepagesize str then do
      let _ ← call (.fclose meminfo)
      pure (.error errorIoProcMeminfo)
    else do
      let number := copyDigits str []
      if 100 ≤ number.length then .stuck
      else do
        let n ← defined (atoi number)
        let size ← defined (intMul n 1024)
        let _ ← call (.fclose meminfo)
        pure (.ok (UInt64.ofNat size))

end

/-- `pagemap_entry_from`. -/
def pagemapEntryFrom (offset : UInt64) : Reader (Except ErrorT PagemapEntry) := do
  match ← call (.fopen procSelfPagemap) with
  | none => pure (.error errorIoProcSelfPagemap)
  | some map => do
    let res ← call (.fseek map offset)
    if res ≠ 0 then do
      let _ ← call (.fclose map)
      pure (.error errorIoProcSelfPagemap)
    else
      match ← call (.fread map) with
      | none => do
        let _ ← call (.fclose map)
        pure (.error errorIoProcSelfPagemap)
      | some data => do
        let _ ← call (.fclose map)
        pure (.ok
          { pageFrameNumber := data &&& (((1 : UInt64) <<< 54) - 1)
            softDirty := (data >>> 54) &&& 1 == 1
            filePage := (data >>> 61) &&& 1 == 1
            swapped := (data >>> 62) &&& 1 == 1
            present := (data >>> 63) &&& 1 == 1 })

/-- `get_physical_address`. A frame that does not fit into the 54 bits of its field after the shift
is left without a result: compilers differ in the type in which they shift a bit-field. -/
def getPhysicalAddress (addr : UInt64) : Reader (Except ErrorT UInt64) := do
  let pageSize ← call .sysconf
  if pageSize < 1 then pure (.error errorSysconf)
  else
    match ← pagemapEntryFrom (addr / pageSize * pageEntrySize) with
    | .error res => pure (.error res)
    | .ok entry =>
      if !entry.present then pure (.error errorPageEntry)
      else if 2 ^ 54 ≤ entry.pageFrameNumber.toNat * 2 ^ (pageShift pageSize).toNat then .stuck
      else pure (.ok ((entry.pageFrameNumber <<< pageShift pageSize) + addr % pageSize))

end Stdio

end CacheNoise
