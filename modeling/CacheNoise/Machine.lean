import CacheNoise.Alloc.Alignment
import CacheNoise.System

/-!
# A machine

An environment for the calls of the profiler, on which every call succeeds. Runs in other
environments change some of its answers.
-/

namespace CacheNoise

/-- The answers of a machine on which every call succeeds: it has a 4 MiB cache and two huge
pages, and `SIGALRM` comes before the first iteration. -/
def goodValue : (c : Call) → c.Value
  | .getpid => 100
  | .signal _ => false
  | .sigactionChild => 0
  | .schedSetaffinity .. => 0
  | .schedGetcpu => 0
  | .cacheInfoNew .. => (errorNone, fourMiBCache)
  | .getuid => 0
  | .readProp _ => .read 2
  | .malloc => true
  | .alarm _ => ()
  | .meminfo => some 0x200000
  | .mmap _ => some 0x800000
  | .testAlignment .. => errorNone
  | .munmap .. => 0
  | .posixSpawnattrInit => 0
  | .posixSpawnFileActionsInit => 0
  | .wordexp _ => ⟨0, []⟩
  | .posixSpawnp .. => (0, 200)
  | .kill _ => 0
  | .h5Fcreate _ => 1
  | .chmod _ => 0
  | .h5Fclose _ => 0
  | .h5Dcreate .. => 2
  | .h5Dwrite .. => 0
  | .h5Dclose _ => 0
  | .fprintf .. => 1
  | .perfEventOpen _ => 3
  | .ioctl .. => 0
  | .terminated => true
  | .prime .. => ()
  | .schedYield => ()
  | .probe .. => fun _ => 0
  | .benchLoop _ => []
  | .enter _ => ()
  | .leave .. => ()
  | .report .. => ()

/-- The environment with these answers and no signals. -/
def goodMachine (_ : List Event) (c : Call) : Answer c := ⟨[], goodValue c⟩

end CacheNoise
