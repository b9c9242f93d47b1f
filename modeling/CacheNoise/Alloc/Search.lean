import CacheNoise.SysAction

/-!
# The search for an aligned buffer

`free_aligned` and `alloc_aligned`. The search maps up to `max_tries` buffers, keeps those that
are not aligned until it ends, and then releases them; the buffer that it ended on is handed
out, or released too. One variable, `err`, first carries the verdict of the search and then
the result of each release in turn.
-/

namespace CacheNoise

open Interaction

/-- One pass of the loop of `free_aligned`. -/
def munmapLengthStep (hugepagesize totalSize length : UInt64) : UInt64 ⊕ UInt64 :=
  if length < totalSize then .inr (length + hugepagesize) else .inl length

/-- The length that `free_aligned` computes. A huge page size of at least one byte reaches a
32-bit size in the passes given; on 0 the loop never ends. -/
def munmapLength (hugepagesize : UInt64) (totalSize : UInt32) : Option UInt64 :=
  Iteration.run (munmapLengthStep hugepagesize totalSize.toUInt64) (totalSize.toNat + 1)
    hugepagesize

/-- A pass adds a huge page, and does not wrap around: the size has only 32 bits. -/
theorem munmapLengthStep_next {hugepagesize length length' : UInt64} {totalSize : UInt32}
    (hle : hugepagesize.toNat ≤ length.toNat)
    (h : munmapLengthStep hugepagesize totalSize.toUInt64 length = .inr length') :
    length.toNat < totalSize.toNat ∧ length'.toNat = length.toNat + hugepagesize.toNat := by
  have htotal := totalSize.toNat_lt
  unfold munmapLengthStep at h
  split at h
  · next hlt =>
    obtain rfl := Sum.inr.inj h
    have hlt' : length.toNat < totalSize.toNat := by
      simpa using UInt64.lt_iff_toNat_lt.mp hlt
    exact ⟨hlt', by rw [UInt64.toNat_add, Nat.mod_eq_of_lt (by omega)]⟩
  · cases h

/-- With an empty page, the loop never gets ahead. -/
theorem run_munmapLengthStep_zero {totalSize : UInt32} (htotal : 0 < totalSize.toNat) (fuel : ℕ) :
    Iteration.run (munmapLengthStep 0 totalSize.toUInt64) fuel 0 = none := by
  refine Iteration.run_eq_none (fun length => length = 0) (fun length hzero => ?_) rfl fuel
  subst hzero
  refine ⟨0, if_pos ?_, rfl⟩
  rw [UInt64.lt_iff_toNat_lt, UInt32.toNat_toUInt64]
  exact htotal

/-- `free_aligned`. -/
def freeAligned (buffer : Ptr) (cache : CacheInfo) : Proc ErrorT := do
  match ← getHugepagesize with
  | .error res => pure res
  | .ok hugepagesize =>
    match munmapLength hugepagesize cache.totalSize with
    | none => .stuck
    | some length => do
      let res ← sys (.munmap buffer length)
      pure (if res = -1 then errorMunmap else errorNone)

/-- The variables of the search loop; `tries` is the number of `oldBuffers`. -/
structure Search where
  err : ErrorT
  buffer : Ptr
  oldBuffers : List Ptr

/-- The search loop of `alloc_aligned`, with the number of tries that are left. -/
def searchAligned (cache : CacheInfo) (hugepagesize : UInt64) : ℕ → Search → Proc Search
  | 0, s => pure s
  | n + 1, s => do
    match ← sys (.mmap cache.totalSize.toUInt64) with
    | none => pure { s with err := errorMmap, buffer := .mapFailed }
    | some address => do
      let buffer := .mapped address
      let err ← sys (.testAlignment buffer hugepagesize)
      if err = errorNotAligned then
        searchAligned cache hugepagesize n
          { err, buffer, oldBuffers := s.oldBuffers ++ [buffer] }
      else pure { s with err, buffer }

/-- The release loop of `alloc_aligned`, with `err` before and after. -/
def releaseAll (cache : CacheInfo) : List Ptr → ErrorT → Proc ErrorT
  | [], err => pure err
  | buffer :: buffers, _ => do
    let err ← freeAligned buffer cache
    releaseAll cache buffers err

/-- The end of `alloc_aligned`, after the release loop. -/
def allocTail (cache : CacheInfo) (maxTries : ℕ) (s : Search) (err : ErrorT) :
    Proc (ErrorT × Ptr) :=
  if s.oldBuffers.length < maxTries ∧ err = errorNone then pure (err, s.buffer)
  else if s.buffer ≠ .mapFailed then do
    let res ← freeAligned s.buffer cache
    pure (if res ≠ errorNone then res else err, s.buffer)
  else pure (err, s.buffer)

/-- `alloc_aligned`, with `*buffer` before and after. -/
def allocAligned (cache : CacheInfo) (buffer : Ptr) : Proc (ErrorT × Ptr) := do
  match ← getHugepagenr with
  | .error res => pure (res, buffer)
  | .ok maxTries =>
    if maxTries < 1 then pure (errorNoHugepages, buffer)
    else do
      match ← getHugepagesize with
      | .error res => pure (res, buffer)
      | .ok hugepagesize => do
        let allocated ← sys .malloc
        if allocated = false then pure (errorAllocation, buffer)
        else do
          let s ← searchAligned cache hugepagesize maxTries.toNat ⟨errorNone, buffer, []⟩
          let err ← releaseAll cache s.oldBuffers s.err
          allocTail cache maxTries.toNat s err

end CacheNoise
