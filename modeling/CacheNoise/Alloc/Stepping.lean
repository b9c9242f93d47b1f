import CacheNoise.Alloc.Alignment
import CacheNoise.Alloc.Outcome
import CacheNoise.SysInfo.Hugepagesize

/-!
# Stepping through the pages

The loops of `test_alignment` and `free_aligned` advance by the size of a huge page as it was read
from `/proc/meminfo`, one in lines and the other in bytes. `get_hugepagesize` succeeds with every
multiple of 1024 below `2 ^ 31`, and a line without a digit gives 0.

On 0 the loop of `free_aligned` never ends. The step of `test_alignment` is 0 as soon as a page is
smaller than a line; then the loop looks at the first page for ever, unless the test fails there.
Apart from that both loops end, and the length for `munmap` is the extent of the mapping
(`stepsPages_iff`).
-/

namespace CacheNoise

open Interaction

/-- The lengths that cover a mapping with whole pages. -/
def extents (hugepagesize total : ℕ) : Set ℕ := {n | 0 < n ∧ hugepagesize ∣ n ∧ total ≤ n}

/-- The calls of a run that read `/proc/meminfo` find this text. -/
def ReadsMeminfo (text line : List Char) (t : List Event) : Prop :=
  ∀ a, (⟨.meminfo, a⟩ : Event) ∈ t →
    ∃ res, getHugepagesizeFrom (some text) line = .ok res ∧ a.value = res.toOption

/-- For the huge page size that is read from a text, both loops end, and `munmap` gets the extent
of the mapping. -/
structure StepsPages (os : Os) (buffer : UInt64) (info : CacheInfo) (text line : List Char)
    (hugepagesize : UInt64) : Prop where
  tested : ∃ fuel res, testAlignment os buffer info hugepagesize fuel = some res
  counted : ∃ fuel length, Iteration.run
    (munmapLengthStep hugepagesize info.totalSize.toUInt64) fuel hugepagesize = some length
  freed : ∀ ptr t o, (freeAligned ptr info).Run t o → ReadsMeminfo text line t →
    ∃ (a : Answer .meminfo) (length : UInt64) (b : Answer (.munmap ptr length)),
      t = [⟨.meminfo, a⟩, ⟨.munmap ptr length, b⟩] ∧ o ≠ none ∧
      IsLeast (extents hugepagesize.toNat info.totalSize.toNat) length.toNat

/-- The first line of the buffer stands at its place in the cache. -/
def FirstLineInPlace (os : Os) (buffer : UInt64) (info : CacheInfo) : Prop :=
  ∃ physicalAddress, getPhysicalAddress os buffer = .ok physicalAddress ∧
    physicalAddress.toNat % info.totalSize.toNat / info.lineSize.toNat = 0

/-! ### The length -/

section

variable {hugepagesize : UInt64} {totalSize : UInt32}

/-- A number of whole pages that passes over no extent. -/
private def Stepped (hugepagesize : UInt64) (totalSize : UInt32) (length : UInt64) : Prop :=
  hugepagesize.toNat ≤ length.toNat ∧ hugepagesize.toNat ∣ length.toNat ∧
    ∀ n ∈ extents hugepagesize.toNat totalSize.toNat, length.toNat ≤ n

private theorem stepped_next {length length' : UInt64} (h : Stepped hugepagesize totalSize length)
    (hstep : munmapLengthStep hugepagesize totalSize.toUInt64 length = .inr length') :
    Stepped hugepagesize totalSize length' := by
  obtain ⟨hle, hdvd, hlower⟩ := h
  obtain ⟨hlt, hnext⟩ := munmapLengthStep_next hle hstep
  rw [Stepped, hnext]
  refine ⟨Nat.le_add_left _ _, dvd_add hdvd dvd_rfl, fun n hn => ?_⟩
  -- an extent is longer than this length, and so by a page at least
  have hgap : 0 < n - length.toNat := by
    have := hn.2.2
    omega
  have hpage := Nat.le_of_dvd hgap (Nat.dvd_sub hn.2.1 hdvd)
  have := hlower n hn
  omega

/-- The length is the extent. -/
theorem isLeast_of_run (hpos : 0 < hugepagesize.toNat) {fuel : ℕ} {length : UInt64}
    (h : Iteration.run (munmapLengthStep hugepagesize totalSize.toUInt64) fuel hugepagesize =
      some length) : IsLeast (extents hugepagesize.toNat totalSize.toNat) length.toNat := by
  have hfirst : Stepped hugepagesize totalSize hugepagesize :=
    ⟨le_rfl, dvd_rfl, fun n hn => Nat.le_of_dvd hn.1 hn.2.1⟩
  obtain ⟨last, ⟨hle, hdvd, hlower⟩, hexit⟩ := Iteration.run_invariant
    (Stepped hugepagesize totalSize) (fun _ _ => stepped_next) hfirst h
  unfold munmapLengthStep at hexit
  split at hexit
  · cases hexit
  · next hge =>
    obtain rfl := Sum.inl.inj hexit
    rw [UInt64.lt_iff_toNat_lt, UInt32.toNat_toUInt64, Nat.not_lt] at hge
    exact ⟨⟨hpos.trans_le hle, hdvd, hge⟩, hlower⟩

end

/-! ### The alignment test -/

section

variable {os : Os} {buffer hugepagesize : UInt64} {info : CacheInfo}

/-- The bound of the loop is at most the size. -/
theorem toNat_bound (info : CacheInfo) : (info.totalSize / info.lineSize).toUInt64.toNat =
    info.totalSize.toNat / info.lineSize.toNat := by
  rw [UInt32.toNat_toUInt64, UInt32.toNat_div]

theorem toNat_step (info : CacheInfo) (hugepagesize : UInt64) :
    (hugepagesize / info.lineSize.toUInt64).toNat =
      hugepagesize.toNat / info.lineSize.toNat := by
  rw [UInt64.toNat_div, UInt32.toNat_toUInt64]

/-- A step that is not 0 gets to the end. -/
theorem testAlignment_isSome (hline : 0 < info.lineSize.toNat)
    (hstep : info.lineSize.toNat ≤ hugepagesize.toNat) (hsize : hugepagesize.toNat < 2 ^ 31) :
    ∃ fuel res, testAlignment os buffer info hugepagesize fuel = some res := by
  have hpos : 0 < hugepagesize.toNat / info.lineSize.toNat := Nat.div_pos hstep hline
  have hle := Nat.div_le_self hugepagesize.toNat info.lineSize.toNat
  have hlines := Nat.div_le_self info.totalSize.toNat info.lineSize.toNat
  have htotal := info.totalSize.toNat_lt
  simp only [testAlignment_eq hline]
  refine ⟨_, Option.isSome_iff_exists.mp (Iteration.run_isSome (fun _ => True)
    (fun line => info.totalSize.toNat / info.lineSize.toNat - line.toNat)
    (fun line line' _ h => ⟨trivial, ?_⟩) trivial (Nat.lt_succ_self _))⟩
  unfold testAlignmentStep at h
  split at h
  · next hlt =>
    rw [UInt64.lt_iff_toNat_lt, toNat_bound] at hlt
    simp only at h
    split at h
    · cases h
    split at h
    · cases h
    obtain rfl := Sum.inr.inj h
    rw [UInt64.toNat_add, toNat_step, Nat.mod_eq_of_lt (by omega)]
    omega
  · cases h

/-- What the first pass does. -/
theorem testAlignmentStep_zero (htotal : info.lineSize.toNat ≤ info.totalSize.toNat)
    (hline : 0 < info.lineSize.toNat) (hfirst : FirstLineInPlace os buffer info) :
    testAlignmentStep os buffer info hugepagesize 0 =
      .inr (hugepagesize / info.lineSize.toUInt64) := by
  obtain ⟨physicalAddress, hphys, hplace⟩ := hfirst
  have hbound : (0 : UInt64) < (info.totalSize / info.lineSize).toUInt64 := by
    rw [UInt64.lt_iff_toNat_lt, toNat_bound]
    exact Nat.div_pos htotal hline
  have hid : 0 = physicalAddress % info.totalSize.toUInt64 / info.lineSize.toUInt64 := by
    refine UInt64.toNat_inj.mp ?_
    rw [UInt64.toNat_div, UInt64.toNat_mod, UInt32.toNat_toUInt64, UInt32.toNat_toUInt64, hplace]
    rfl
  simp only [testAlignmentStep, if_pos hbound, UInt64.zero_mul, UInt64.add_zero, hphys, ← hid,
    ne_eq, not_true_eq_false, if_false, UInt64.zero_add]

/-- The test fails at the first line. -/
theorem testAlignmentStep_of_not (hugepagesize : UInt64)
    (hfirst : ¬ FirstLineInPlace os buffer info) :
    ∃ res, testAlignmentStep os buffer info hugepagesize 0 = .inl res := by
  rw [testAlignmentStep]
  split
  · simp only [UInt64.zero_mul, UInt64.add_zero]
    cases hphys : getPhysicalAddress os buffer with
    | error res => exact ⟨res, rfl⟩
    | ok physicalAddress =>
      refine ⟨errorNotAligned, if_pos fun hid => hfirst ⟨physicalAddress, hphys, ?_⟩⟩
      have hplace := congrArg UInt64.toNat hid
      rw [UInt64.toNat_div, UInt64.toNat_mod, UInt32.toNat_toUInt64, UInt32.toNat_toUInt64]
        at hplace
      exact hplace.symm
  · exact ⟨errorNone, rfl⟩

/-- **When the loop of `test_alignment` ends**: a page has a line, or there is no line to test, or
the first one is not in its place. -/
theorem testAlignment_ends_iff (hline : 0 < info.lineSize.toNat)
    (hsize : hugepagesize.toNat < 2 ^ 31) :
    (∃ fuel res, testAlignment os buffer info hugepagesize fuel = some res) ↔
      info.lineSize.toNat ≤ hugepagesize.toNat ∨ info.totalSize.toNat < info.lineSize.toNat ∨
        ¬ FirstLineInPlace os buffer info := by
  constructor
  · rintro ⟨fuel, res, hrun⟩
    by_contra hnot
    simp only [not_or, not_not, Nat.not_le, Nat.not_lt] at hnot
    obtain ⟨hstep, htotal, hfirst⟩ := hnot
    -- the step is 0
    have hzero : hugepagesize / info.lineSize.toUInt64 = 0 :=
      UInt64.toNat_inj.mp ((toNat_step info hugepagesize).trans (Nat.div_eq_of_lt hstep))
    have hnone : testAlignment os buffer info hugepagesize fuel = none :=
      (testAlignment_eq hline ..).trans (Iteration.run_eq_none (fun line => line = 0)
        (fun line hl => ⟨0, by rw [hl, testAlignmentStep_zero htotal hline hfirst, hzero], rfl⟩)
        rfl fuel)
    rw [hnone] at hrun
    cases hrun
  · rintro (hstep | htotal | hfirst)
    · exact testAlignment_isSome hline hstep hsize
    · have hexit : testAlignmentStep os buffer info hugepagesize 0 = .inl errorNone := by
        refine if_neg ?_
        rw [UInt64.lt_iff_toNat_lt, toNat_bound, Nat.div_eq_of_lt htotal]
        exact Nat.lt_irrefl 0
      exact ⟨1, errorNone, (testAlignment_eq hline ..).trans (Iteration.run_exit hexit 0)⟩
    · obtain ⟨res, hexit⟩ := testAlignmentStep_of_not hugepagesize hfirst
      exact ⟨1, res, (testAlignment_eq hline ..).trans (Iteration.run_exit hexit 0)⟩

end

/-! ### `free_aligned` -/

section

variable {info : CacheInfo} {text line : List Char} {hugepagesize : UInt64}

/-- Pages that are not empty cover every mapping, after one look at `/proc/meminfo`. -/
theorem freeAligned_extent (hget : getHugepagesizeFrom (some text) line = .ok (.ok hugepagesize))
    (hpos : hugepagesize ≠ 0) {ptr : Ptr} {t : List Event} {o : Option ErrorT}
    (h : (freeAligned ptr info).Run t o) (hreads : ReadsMeminfo text line t) :
    ∃ (a : Answer .meminfo) (length : UInt64) (b : Answer (.munmap ptr length)),
      t = [⟨.meminfo, a⟩, ⟨.munmap ptr length, b⟩] ∧ o ≠ none ∧
      IsLeast (extents hugepagesize.toNat info.totalSize.toNat) length.toNat := by
  have hpos' : 0 < hugepagesize.toNat := Nat.pos_of_ne_zero fun hzero =>
    hpos (UInt64.toNat_inj.mp (by rw [hzero]; rfl))
  obtain ⟨t₁, t₂, r, rfl, h₁, h₂⟩ | ⟨-, hnone⟩ := Prog.run_bind.mp h
  · obtain ⟨a, t₃, rfl, h₃⟩ := run_sys_bind.mp h₁
    obtain ⟨res, hres, hvalue⟩ := hreads a (List.mem_append_left _ List.mem_cons_self)
    obtain rfl := Except.ok.inj (hget.symm.trans hres)
    rw [hvalue] at h₃
    obtain ⟨rfl, hr⟩ := h₃
    obtain rfl := Option.some.inj hr
    rcases hlength : munmapLength hugepagesize info.totalSize with _ | length
    · exact absurd (munmapLength_eq_none hlength) hpos
    simp only [hlength] at h₂
    obtain ⟨b, t₄, rfl, rfl, rfl⟩ := run_sys_bind.mp h₂
    exact ⟨a, length, b, rfl, Option.some_ne_none _, isLeast_of_run hpos' hlength⟩
  · obtain ⟨a, t₃, rfl, h₃⟩ := run_sys_bind.mp hnone
    obtain ⟨res, hres, hvalue⟩ := hreads a List.mem_cons_self
    obtain rfl := Except.ok.inj (hget.symm.trans hres)
    rw [hvalue] at h₃
    cases h₃.2

/-- Empty pages cover nothing. -/
theorem extents_zero (total : ℕ) : extents 0 total = ∅ := by
  refine Set.eq_empty_of_forall_notMem fun n hn => ?_
  exact hn.1.ne' (Nat.eq_zero_of_zero_dvd hn.2.1)

/-- With empty pages, only a mapping of no bytes gets as far as `munmap`, with a length that is no
extent. -/
theorem StepsPages.ne_zero {os : Os} {buffer : UInt64}
    (h : StepsPages os buffer info text line hugepagesize)
    (hget : getHugepagesizeFrom (some text) line = .ok (.ok hugepagesize)) : hugepagesize ≠ 0 := by
  rintro rfl
  have htotal : info.totalSize.toNat = 0 := by
    by_contra hne
    obtain ⟨fuel, length, hrun⟩ := h.counted
    rw [run_munmapLengthStep_zero (Nat.pos_of_ne_zero hne)] at hrun
    cases hrun
  have hlength : munmapLength 0 info.totalSize = some 0 := by
    have hzero : info.totalSize = 0 := UInt32.toNat_inj.mp htotal
    rw [hzero]
    rfl
  have hrun : (freeAligned .null info).Run
      [⟨.meminfo, ⟨[], some 0⟩⟩, ⟨.munmap .null 0, ⟨[], 0⟩⟩] (some errorNone) := by
    refine Prog.run_bind.mpr (.inl ⟨[⟨.meminfo, ⟨[], some 0⟩⟩],
      [⟨.munmap .null 0, ⟨[], 0⟩⟩], .ok 0, rfl, ⟨⟨[], some 0⟩, [], rfl, rfl, rfl⟩, ?_⟩)
    simp only [hlength]
    exact ⟨⟨[], 0⟩, [], rfl, rfl, rfl⟩
  have hreads : ReadsMeminfo text line
      [⟨.meminfo, ⟨[], some 0⟩⟩, ⟨.munmap .null 0, ⟨[], 0⟩⟩] := by
    intro a ha
    obtain heq | ha := List.mem_cons.mp ha
    · cases heq
      exact ⟨.ok 0, hget, rfl⟩
    · cases List.mem_singleton.mp ha
  obtain ⟨a, length, b, -, -, hleast⟩ := h.freed _ _ _ hrun hreads
  have hmem := hleast.1
  rw [UInt64.toNat_zero, extents_zero] at hmem
  exact hmem

/-- **The loops end with the right length** if and only if a page is not empty, and it has a line
or the alignment test does not get beyond the first one. -/
theorem stepsPages_iff (os : Os) (buffer : UInt64) (hline : 1 ≤ info.lineSize.toNat)
    (hget : getHugepagesizeFrom (some text) line = .ok (.ok hugepagesize)) :
    StepsPages os buffer info text line hugepagesize ↔ hugepagesize ≠ 0 ∧
      (info.lineSize.toNat ≤ hugepagesize.toNat ∨ info.totalSize.toNat < info.lineSize.toNat ∨
        ¬ FirstLineInPlace os buffer info) := by
  obtain ⟨-, -, -, hsize⟩ := size_of_getHugepagesizeFrom hget
  have htested : (∃ fuel res, testAlignment os buffer info hugepagesize fuel = some res) ↔ _ :=
    testAlignment_ends_iff hline hsize
  refine ⟨fun h => ⟨h.ne_zero hget, htested.mp h.tested⟩, fun ⟨hpos, hends⟩ => ?_⟩
  have hcounted : munmapLength hugepagesize info.totalSize ≠ none := fun hnone =>
    hpos (munmapLength_eq_none hnone)
  obtain ⟨length, hlength⟩ := Option.ne_none_iff_exists'.mp hcounted
  exact ⟨htested.mpr hends, ⟨_, length, hlength⟩, fun _ _ _ => freeAligned_extent hget hpos⟩

end

/-- Huge pages of 2 MiB cover the cache of 4 MiB. -/
theorem stepsPages_twoMiB : StepsPages identityMachine.toOs 0x800000 fourMiBCache
    (twoMiBLine ++ ['\n']) (List.replicate 100 '\x00') 2097152 :=
  (stepsPages_iff identityMachine.toOs 0x800000 (by decide) (by decide)).mpr
    ⟨by decide, .inl (by decide)⟩

/-- A line without a number. -/
def numberlessLine : List Char := hugepagesize ++ ['\n']

/-- The size is read as 0, and neither of the loops ends. -/
theorem getHugepagesizeFrom_numberless :
    getHugepagesizeFrom (some numberlessLine) (List.replicate 100 '\x00') = .ok (.ok 0) ∧
      (∀ fuel, testAlignment identityMachine.toOs 0x800000 fourMiBCache 0 fuel = none) ∧
      (∀ fuel, Iteration.run (munmapLengthStep 0 fourMiBCache.totalSize.toUInt64) fuel 0 = none) ∧
      ¬ StepsPages identityMachine.toOs 0x800000 fourMiBCache numberlessLine
        (List.replicate 100 '\x00') 0 := by
  have hget : getHugepagesizeFrom (some numberlessLine) (List.replicate 100 '\x00') =
      .ok (.ok 0) := by decide
  have hfirst : FirstLineInPlace identityMachine.toOs 0x800000 fourMiBCache :=
    ⟨0x800000, by decide +kernel, by decide⟩
  have hfixed : testAlignmentStep identityMachine.toOs 0x800000 fourMiBCache 0 0 = .inr 0 :=
    testAlignmentStep_zero (by decide) (by decide) hfirst
  refine ⟨hget, fun fuel => ?_, run_munmapLengthStep_zero (by decide), fun h => ?_⟩
  · exact (testAlignment_eq (by decide) ..).trans (Iteration.run_eq_none (fun line => line = 0)
      (fun line hzero => ⟨0, hzero ▸ hfixed, rfl⟩) rfl fuel)
  · obtain ⟨fuel, length, hrun⟩ := h.counted
    rw [run_munmapLengthStep_zero (by decide)] at hrun
    cases hrun

end CacheNoise
