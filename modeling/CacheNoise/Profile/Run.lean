import CacheNoise.Output

/-!
# `profile` and `benchmark`

The loop of `profile` as a run: enable the cycle counter, measure and write a matrix in each
iteration until the iterations are done or `terminated` is seen, and disable the counter, with
every failure returned at once. The assembly loops are single calls here.

`fuel` bounds the passes of the loop, which has no end of its own when no number of iterations is
given; a run that uses it up does not return.
-/

namespace CacheNoise

open Interaction

/-- The loop of `profile`. Its counter `j` is compared as an unsigned number. -/
def profileLoop (cache : CacheInfo) (iterations : UInt32) (buffer : Ptr) (fd : UInt32) :
    ℕ → UInt32 → OutputT → Proc (ErrorT × OutputT)
  | 0, _, _ => .stuck
  | fuel + 1, j, output =>
    let done : Proc (ErrorT × OutputT) := do
      let res ← disableCpuCycleCounter fd
      pure (res, output)
    if j < iterations ∨ iterations = 0 then do
      let terminated ← sys .terminated
      if terminated = true then done
      else do
        sys (.prime cache.lineSize.toUInt64 cache.setCount.toUInt64
          cache.waysOfAssociativity.toUInt64 cache.totalSize.toUInt64 buffer)
        sys .schedYield
        let result ← sys (.probe cache.lineSize.toUInt64 cache.setCount.toUInt64
          cache.waysOfAssociativity.toUInt64 buffer)
        let (res, output) ← outputwMatUi32 output result
          cache.waysOfAssociativity.toUInt64 cache.setCount.toUInt64
        if res ≠ errorNone then pure (res, output)
        else
          profileLoop cache iterations buffer fd fuel (if iterations = 0 then j else j + 1) output
    else done

/-- `profile`, with the output afterwards. -/
def profile (fuel : ℕ) (cache : CacheInfo) (cpu iterations : UInt32) (buffer : Ptr)
    (output : OutputT) : Proc (ErrorT × OutputT) := do
  match ← enableCpuCycleCounter cpu with
  | .error res => pure (res, output)
  | .ok fd => profileLoop cache iterations buffer fd fuel 0 output

/-- `benchmark`, up to the statistics that it prints. The result of `malloc` is not checked:
without memory, the first store of the measuring loop ends the process. -/
def benchmark (iterations : UInt64) : Proc ErrorT := do
  let allocated ← sys .malloc
  match ← enableCpuCycleCounter 0 with
  | .error res => pure res
  | .ok fd =>
    if allocated = false ∧ iterations ≠ 0 then .stuck
    else do
      let _ ← sys (.benchLoop iterations)
      disableCpuCycleCounter fd

end CacheNoise
