import Mathlib.Tactic

/-!
# Error codes

The numbers of `error.h` and the table of `error.c`. The codes stay integers: two pairs of
them share a number (`errorNotSupportedOutput` with `errorSetSchedulerPolicy`, and
`errorHdf5Error` with `errorGetCpuCore`), which an enumeration would hide.
-/

namespace CacheNoise

/-- `error_t`. -/
abbrev ErrorT : Type := Int

def errorIo : ErrorT := -1
def errorAllocation : ErrorT := -2
def errorFdCache : ErrorT := -4
def errorFdCycle : ErrorT := -5
def errorSetAffinity : ErrorT := -6
def errorFmt : ErrorT := -7
def errorSysconf : ErrorT := -8
def errorPageEntry : ErrorT := -9
def errorNotAligned : ErrorT := -10
def errorMmap : ErrorT := -11
def errorCacheNotExists : ErrorT := -12
def errorNoHugepages : ErrorT := -13
def errorMunmap : ErrorT := -14
def errorFdCycleClose : ErrorT := -16
def errorSpawnAttrInit : ErrorT := -17
def errorSpawnFileInit : ErrorT := -18
def errorSpawnSpawn : ErrorT := -19
def errorSpawnPathNull : ErrorT := -20
def errorNotSupportedOutput : ErrorT := -21
def errorHdf5Error : ErrorT := -22
def errorSetSchedulerPolicy : ErrorT := -21
def errorGetCpuCore : ErrorT := -22
def errorChmod : ErrorT := -23
def errorIoProcSelfPagemap : ErrorT := -24
def errorIoSysCpu : ErrorT := -25
def errorIoProcMeminfo : ErrorT := -26
def errorIoHdf : ErrorT := -27
def errorIoLineSize : ErrorT := -28
def errorIoTotalSize : ErrorT := -29
def errorIoSetNumber : ErrorT := -30
def errorIoLevels : ErrorT := -32
def errorIoAssociativity : ErrorT := -33
def errorIoHugepageNumber : ErrorT := -34
def errorIoRdpmc : ErrorT := -35
def errorRdpmc : ErrorT := -36
def errorNone : ErrorT := 0

/-- `error_map_table`. -/
def errorMapTable : List (ErrorT × String) :=
  [(errorIo, "during IO interaction (ERROR_IO)"),
   (errorAllocation, "allocating memory (ERROR_ALLOCATION)"),
   (errorFdCycle, "opening a file descriptor to cycle event (ERROR_FD_CYCLE)"),
   (errorFdCycleClose, "closing a file descriptor to cycle event (ERROR_FD_CYCLE)"),
   (errorFdCache, "opening a file descriptor to cache event(ERROR_FD_CACHE)"),
   (errorSetAffinity, "setting the CPU affinity(ERROR_SET_AFFINITY)"),
   (errorSysconf, "getting value from sysconf"),
   (errorPageEntry, "retrieving a page entry"),
   (errorNotAligned, "the buffer is not aligned to the cache"),
   (errorMmap, "using while using mmap (ERROR_MMAP)"),
   (errorCacheNotExists, "cache does not exist (ERROR_CACHE_NOT_EXISTS)"),
   (errorNoHugepages, "no hugepages are available (ERROR_NO_HUGEPAGES)"),
   (errorMunmap, "failed to remove memory mappings (ERROR_MUNMAP)"),
   (errorSpawnSpawn, "failed to spawn the process (ERROR_SPAWN_SPAWN)"),
   (errorSpawnAttrInit, "failed to initialize `attr` attribute (ERROR_SPAWN_ATTR_INIT)"),
   (errorSpawnFileInit, "failed to initialize `file` attribute (ERROR_SPAWN_FILLE_INIT)"),
   (errorSpawnPathNull, "the given path to the program is null. (ERROR_SPAWN_PATH_NULL)"),
   (errorSetSchedulerPolicy, "setting the scheduler policy (ERROR_SET_SCHEDULER_POLICY)"),
   (errorGetCpuCore, "retrieving the CPU core on which the program currently runs on"),
   (errorIoProcSelfPagemap,
     "during IO interaction with /proc/self/pagemap (ERROR_IO_PROC_SELF_PAGEMAP)"),
   (errorIoProcMeminfo, "during IO interaction with /proc/meminfo (ERROR_IO_PROC_MEMINFO)"),
   (errorIoHdf, "during IO interaction with the HDF output file (ERROR_IO_HDF)"),
   (errorIoSysCpu, "during IO interaction in the /sys/cpu/ filestructure (ERROR_IO_SYS_CPU)"),
   (errorIoTotalSize,
     "during IO interaction with /sys/devices/system/cpu/cpu%d/cache/index%d/size " ++
       "(ERROR_IO_TOTAL_SIZE)"),
   (errorIoLineSize,
     "during IO interaction with /sys/devices/system/cpu/cpu%d/cache/index%d/" ++
       "coherency_line_size (ERROR_IO_LINE_SIZE)"),
   (errorIoSetNumber,
     "during IO interaction with /sys/devices/system/cpu/cpu%d/cache/index%d/" ++
       "number_of_sets (ERROR_IO_SET_NUMBER)"),
   (errorIoLevels,
     "during IO interaction with /sys/devices/system/cpu/cpu%d/cache/index%d/level " ++
       "(ERROR_IO_LEVELS)"),
   (errorIoAssociativity,
     "during IO interaction with /sys/devices/system/cpu/cpu%d/cache/index%d/" ++
       "ways_of_assoziativity (ERROR_IO_ASSOCIATIVITY)"),
   (errorIoHugepageNumber,
     "during IO interaction with /proc/sys/vm/nr_hugepages (ERROR_IO_HUGEPAGE_NUMBER)"),
   (errorIoRdpmc,
     "during IO interaction with /sys/bus/event_source/devices/cpu/rdpmc (ERROR_IO_RDPMC)"),
   (errorRdpmc, "the rdpmc instruction is not available in userspace (ERROR_RDPMC)")]

/-- `decode_error`: the message of the first entry with this number. -/
def decodeError (error : ErrorT) : String :=
  match errorMapTable.find? fun unit => unit.1 = error with
  | some unit => unit.2
  | none => "unknown error"

theorem nodup_errorMapTable : (errorMapTable.map Prod.fst).Nodup := by
  decide +kernel

/-- Every entry of the table is reached: no entry is shadowed by an earlier one. -/
theorem decodeError_of_mem {unit : ErrorT × String} (h : unit ∈ errorMapTable) :
    decodeError unit.1 = unit.2 := by
  obtain ⟨before, after, htable⟩ := List.append_of_mem h
  have hnodup := nodup_errorMapTable
  rw [htable, List.map_append, List.map_cons] at hnodup
  have hbefore : ∀ unit' ∈ before, unit'.1 ≠ unit.1 := fun unit' hunit' =>
    (List.nodup_append.mp hnodup).2.2 _ (List.mem_map_of_mem hunit') _ List.mem_cons_self
  have hfind : errorMapTable.find? (fun unit' => unit'.1 = unit.1) = some unit := by
    refine List.find?_eq_some_iff_append.mpr ⟨decide_eq_true rfl, before, after, htable, ?_⟩
    intro unit' hunit'
    simpa using hbefore unit' hunit'
  rw [decodeError, hfind]

end CacheNoise
