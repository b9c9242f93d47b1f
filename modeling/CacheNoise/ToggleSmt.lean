import CacheNoise.General.Grouping
import Mathlib.Data.List.Sort
import Mathlib.Data.String.Basic

/-!
# `toggleSMT.py`

The script reads which logical CPUs are online and to which physical core they belong, and then
writes into their files `online`. It groups the CPUs by what it knows about their core: the core
id of a CPU that is online, and one common marker for all CPUs that are offline. The package of
a CPU is not looked at.

What the script prints is left out, except that printing a physical core sorts its CPUs. `none`
stands for an exception.
-/

namespace CacheNoise

/-- The directory `/sys/devices/system/cpu/cpu<id>`. -/
structure Cpu where
  id : String
  package : ℕ
  coreId : ℤ
  /-- The contents of the file `online`, if it exists. -/
  online : Option Bool
  deriving DecidableEq

/-- A CPU without the file `online` is always online. -/
def Cpu.isOnline (c : Cpu) : Bool := c.online.getD true

/-- Write into the file `online` of a CPU. A file that does not exist can not be created. -/
def write (id : String) (value : Bool) (cpus : List Cpu) : Option (List Cpu) :=
  if ∃ c ∈ cpus, c.id = id ∧ c.online ≠ none then
    some (cpus.map fun c => if c.id = id then { c with online := some value } else c)
  else none

/-- `TheoreticalCpuCore`; `none` is the physical id `'unknown'`. -/
structure TheoreticalCpuCore where
  id : String
  online : Bool
  physicalId : Option ℤ
  deriving DecidableEq

/-- `TheoreticalCpuCore.enable` -/
def TheoreticalCpuCore.enable (core : TheoreticalCpuCore) (cpus : List Cpu) :
    Option (List Cpu) :=
  if core.online = false then write core.id true cpus else some cpus

/-- `TheoreticalCpuCore.disable` -/
def TheoreticalCpuCore.disable (core : TheoreticalCpuCore) (cpus : List Cpu) :
    Option (List Cpu) :=
  if core.online = true then write core.id false cpus else some cpus

/-- `PhysicalCpuCore` -/
structure PhysicalCpuCore where
  id : Option ℤ
  theoreticalCores : List TheoreticalCpuCore

/-- What `PhysicalCpuCore.__str__` does to the object: its CPUs are sorted by their ids, which
are strings. -/
def PhysicalCpuCore.str (core : PhysicalCpuCore) : PhysicalCpuCore :=
  { core with
    theoreticalCores := core.theoreticalCores.insertionSort fun a b => a.id ≤ b.id }

/-- `PhysicalCpuCore.disable_smt` -/
def PhysicalCpuCore.disableSmt (core : PhysicalCpuCore) (cpus : List Cpu) : Option (List Cpu) :=
  match core.theoreticalCores with
  | [] => none
  | first :: rest => do
    let cpus ← first.enable cpus
    rest.foldlM (fun cpus core => core.disable cpus) cpus

/-- `PhysicalCpuCore.enable_smt` -/
def PhysicalCpuCore.enableSmt (core : PhysicalCpuCore) (cpus : List Cpu) : Option (List Cpu) :=
  core.theoreticalCores.foldlM (fun cpus core => core.enable cpus) cpus

/-- What is read about a CPU. The core id of a CPU that is offline can not be read. -/
def Cpu.theoretical (c : Cpu) : TheoreticalCpuCore :=
  { id := c.id, online := c.isOnline
    physicalId := if c.isOnline = true then some c.coreId else none }

/-- `parse_theoretical_cores`, for the directories in the order in which they are listed. -/
def parseTheoreticalCores (cpus : List Cpu) : List TheoreticalCpuCore := cpus.map Cpu.theoretical

/-- `parse_physical_cores` -/
def parsePhysicalCores (cores : List TheoreticalCpuCore) : List PhysicalCpuCore :=
  (Grouping.group TheoreticalCpuCore.physicalId cores).map fun g => ⟨g.1, g.2⟩

/-- The answer to the question of `main`. -/
inductive Choice
  | enable
  | disable
  | other
  deriving DecidableEq

/-- The physical cores, sorted and printed. -/
def printedCores (cpus : List Cpu) : List PhysicalCpuCore :=
  ((parsePhysicalCores (parseTheoreticalCores cpus)).insertionSort
    fun a b => a.id.getD 9999 ≤ b.id.getD 9999).map PhysicalCpuCore.str

/-- `main` of `toggleSMT.py`: the CPUs afterwards. -/
def toggleSmt (choice : Choice) (cpus : List Cpu) : Option (List Cpu) :=
  match choice with
  | .enable => (printedCores cpus).foldlM (fun cpus core => core.enableSmt cpus) cpus
  | .disable => (printedCores cpus).foldlM (fun cpus core => core.disableSmt cpus) cpus
  | .other => some cpus

end CacheNoise
