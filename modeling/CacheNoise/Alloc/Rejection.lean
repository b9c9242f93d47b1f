import CacheNoise.Alloc.Alignment

/-!
# What the alignment test rejects

The hardware takes line numbers modulo the number of sets, and `test_alignment` modulo the number
of all lines of the cache. A buffer in its sets passes if the second residue follows from the
first, as for a cache whose lines all fit into a huge page (`rejectsRightly_of_dvd`). Otherwise the
test throws away buffers with which nothing is wrong: it is right to reject a buffer exactly if
some line lies in a wrong set, or if no page that it looks up stands at another residue
(`rejectsRightly_iff`).
-/

namespace CacheNoise

section

variable (m : Machine) (info : CacheInfo) (buffer hugePageSize : UInt64)

/-- Line `j` of the buffer lies in another set than the one it is meant for. -/
def WrongSet (j : ℕ) : Prop :=
  m.phys (buffer.toNat + j * info.lineSize.toNat) / info.lineSize.toNat % info.setCount.toNat ≠
    j % info.setCount.toNat

/-- **The test rejects rightly**: only a buffer with a line in a wrong set. -/
def RejectsRightly : Prop :=
  ∀ fuel, testAlignment m.toOs buffer info hugePageSize fuel = some errorNotAligned →
    ∃ j < info.lines, WrongSet m info buffer j

/-- The number of the first line of a page in the buffer. -/
def firstLine (page : ℕ) : ℕ := page * (hugePageSize.toNat / info.lineSize.toNat)

/-- The test finds a page in memory. -/
def PageFound (page : ℕ) : Prop :=
  ∃ target, getPhysicalAddress m.toOs (buffer +
    UInt64.ofNat (firstLine info hugePageSize page) * info.lineSize.toUInt64) = .ok target

/-- The first line of a page stands at its own residue modulo the number of lines. -/
def OwnResidue (page : ℕ) : Prop :=
  m.phys (buffer.toNat + firstLine info hugePageSize page * info.lineSize.toNat) /
    info.lineSize.toNat % info.lines = firstLine info hugePageSize page

/-- All pages up to the first one that is not found stand at their own residue. -/
def AllOwnResidue : Prop :=
  ∀ page, firstLine info hugePageSize page < info.lines →
    (∀ q ≤ page, PageFound m info buffer hugePageSize q) →
      OwnResidue m info buffer hugePageSize page

end

section

variable {m : Machine} {info : CacheInfo} {buffer hugePageSize : UInt64}

/-- A failed lookup is reported as what it is. -/
theorem getPhysicalAddress_ne_errorNotAligned {os : Os} {addr : UInt64} {res : ErrorT}
    (h : getPhysicalAddress os addr = .error res) : res ≠ errorNotAligned := by
  rintro rfl
  exact absurd (getPhysicalAddress_error h) (by decide)

theorem eq_ofNat {c : UInt64} {n : ℕ} (h : c.toNat = n) : c = UInt64.ofNat n := by
  rw [← h, UInt64.ofNat_toNat]

/-- The test that the code makes is the residue modulo the lines. -/
theorem ownResidue_iff (hinfo : info.Consistent) (page : ℕ) :
    OwnResidue m info buffer hugePageSize page ↔
      m.phys (buffer.toNat + firstLine info hugePageSize page * info.lineSize.toNat) %
        info.totalSize.toNat / info.lineSize.toNat = firstLine info hugePageSize page := by
  rw [totalSize_eq_lines hinfo, Nat.mod_mul_right_div_self]
  rfl

section

variable {c : UInt64} {page : ℕ} (hinfo : info.Consistent)
  (hfits : buffer.toNat + info.totalSize.toNat ≤ 2 ^ 64)
  (hc : c.toNat = firstLine info hugePageSize page)
  (hlt : firstLine info hugePageSize page < info.lines)

include hinfo hc hlt

/-- A pass over a page that is not found. -/
theorem step_of_not_pageFound (h : ¬ PageFound m info buffer hugePageSize page) :
    ∃ res, testAlignmentStep m.toOs buffer info hugePageSize c = .inl res ∧
      res ≠ errorNotAligned := by
  cases hphys : getPhysicalAddress m.toOs (buffer + c * info.lineSize.toUInt64) with
  | error res =>
    exact ⟨res, testAlignmentStep_error hinfo (hc ▸ hlt) hphys,
      getPhysicalAddress_ne_errorNotAligned hphys⟩
  | ok target => exact absurd ⟨target, eq_ofNat hc ▸ hphys⟩ h

include hfits

/-- A pass over a page that is found. -/
theorem step_of_pageFound (h : PageFound m info buffer hugePageSize page) :
    (OwnResidue m info buffer hugePageSize page →
      ∃ c', testAlignmentStep m.toOs buffer info hugePageSize c = .inr c' ∧
        c'.toNat = firstLine info hugePageSize (page + 1)) ∧
    (¬ OwnResidue m info buffer hugePageSize page →
      testAlignmentStep m.toOs buffer info hugePageSize c = .inl errorNotAligned) := by
  obtain ⟨target, hphys⟩ := h
  have hstep : testAlignmentStep m.toOs buffer info hugePageSize c = _ :=
    testAlignmentStep_ok hinfo hfits (hc ▸ hlt) (eq_ofNat hc ▸ hphys)
  rw [hc] at hstep
  constructor
  · intro hown
    exact ⟨_, hstep.trans (if_pos ((ownResidue_iff hinfo page).mp hown)),
      toNat_next hinfo hc (hc ▸ hlt)⟩
  · intro hown
    exact hstep.trans (if_neg fun h => hown ((ownResidue_iff hinfo page).mpr h))

end

/-! ### When the test rejects -/

section

variable (hinfo : info.Consistent) (hfits : buffer.toNat + info.totalSize.toNat ≤ 2 ^ 64)

include hinfo hfits

/-- The pages before a loop state were found, and stood at their own residues. -/
private theorem passed_next {page : ℕ} {c c' : UInt64}
    (hc : c.toNat = firstLine info hugePageSize page)
    (hprev : ∀ q < page, PageFound m info buffer hugePageSize q ∧
      OwnResidue m info buffer hugePageSize q)
    (hstep : testAlignmentStep m.toOs buffer info hugePageSize c = .inr c') :
    c'.toNat = firstLine info hugePageSize (page + 1) ∧
      ∀ q < page + 1, PageFound m info buffer hugePageSize q ∧
        OwnResidue m info buffer hugePageSize q := by
  have hlt : firstLine info hugePageSize page < info.lines :=
    hc ▸ lt_lines_of_step hinfo (by rw [hstep]; simp)
  by_cases hfound : PageFound m info buffer hugePageSize page
  swap
  · obtain ⟨res, hres, -⟩ := step_of_not_pageFound hinfo hc hlt hfound
    rw [hres] at hstep
    cases hstep
  obtain ⟨hright, hwrong⟩ := step_of_pageFound hinfo hfits hc hlt hfound
  by_cases hown : OwnResidue m info buffer hugePageSize page
  · obtain ⟨next, hnext, hvalue⟩ := hright hown
    obtain rfl := Sum.inr.inj (hnext.symm.trans hstep)
    exact ⟨hvalue, fun q hq => (Nat.lt_succ_iff_lt_or_eq.mp hq).elim (hprev q)
      fun heq => heq ▸ ⟨hfound, hown⟩⟩
  · rw [hwrong hown] at hstep
    cases hstep

/-- A rejection shows a page that was found at a wrong residue. -/
theorem not_allOwnResidue_of_rejected {fuel : ℕ}
    (h : testAlignment m.toOs buffer info hugePageSize fuel = some errorNotAligned) :
    ¬ AllOwnResidue m info buffer hugePageSize := by
  obtain ⟨c, ⟨page, hc, hprev⟩, hexit⟩ := Iteration.run_invariant
    (fun c : UInt64 => ∃ page, c.toNat = firstLine info hugePageSize page ∧
      ∀ q < page, PageFound m info buffer hugePageSize q ∧
        OwnResidue m info buffer hugePageSize q)
    (fun c c' ⟨page, hc, hprev⟩ hstep => ⟨page + 1, passed_next hinfo hfits hc hprev hstep⟩)
    ⟨0, by simp [firstLine], fun q hq => absurd hq (Nat.not_lt_zero q)⟩ (run_of_testAlignment h)
  have hlt : firstLine info hugePageSize page < info.lines :=
    hc ▸ lt_lines_of_step hinfo (by rw [hexit]; decide)
  by_cases hfound : PageFound m info buffer hugePageSize page
  swap
  · obtain ⟨res, hres, hne⟩ := step_of_not_pageFound hinfo hc hlt hfound
    exact absurd (Sum.inl.inj (hres.symm.trans hexit)) hne
  intro hall
  have hown := hall page hlt fun q hq =>
    (Nat.lt_or_eq_of_le hq).elim (fun hq => (hprev q hq).1) fun heq => heq ▸ hfound
  obtain ⟨next, hnext, -⟩ := (step_of_pageFound hinfo hfits hc hlt hfound).1 hown
  rw [hnext] at hexit
  cases hexit

/-- From a page on, the test comes to the first wrong one. -/
private theorem run_rejects {page : ℕ} (hlt : firstLine info hugePageSize page < info.lines)
    (hfound : ∀ q ≤ page, PageFound m info buffer hugePageSize q)
    (hwrong : ¬ OwnResidue m info buffer hugePageSize page)
    (hright : ∀ q < page, OwnResidue m info buffer hugePageSize q) :
    ∀ (k q : ℕ) (c : UInt64), q + k = page → c.toNat = firstLine info hugePageSize q →
      Iteration.run (testAlignmentStep m.toOs buffer info hugePageSize) (k + 1) c =
        some errorNotAligned := by
  intro k
  induction k with
  | zero =>
    rintro q c rfl hc
    exact Iteration.run_exit ((step_of_pageFound hinfo hfits hc hlt (hfound q le_rfl)).2 hwrong) 0
  | succ k ih =>
    intro q c hq hc
    have hqlt : firstLine info hugePageSize q < info.lines :=
      (Nat.mul_le_mul_right _ (by omega)).trans_lt hlt
    obtain ⟨c', hstep, hc'⟩ := (step_of_pageFound hinfo hfits hc hqlt (hfound q (by omega))).1
      (hright q (by omega))
    rw [Iteration.run_next hstep]
    exact ih (q + 1) c' (by omega) hc'

/-- A page that is found at a wrong residue makes the test reject the buffer. -/
theorem rejected_of_not_allOwnResidue (h : ¬ AllOwnResidue m info buffer hugePageSize) :
    ∃ fuel, testAlignment m.toOs buffer info hugePageSize fuel = some errorNotAligned := by
  classical
  have hex : ∃ page, firstLine info hugePageSize page < info.lines ∧
      (∀ q ≤ page, PageFound m info buffer hugePageSize q) ∧
      ¬ OwnResidue m info buffer hugePageSize page := by
    by_contra hnone
    exact h fun page hlt hfound => not_not.mp fun hwrong => hnone ⟨page, hlt, hfound, hwrong⟩
  -- the first such page
  obtain ⟨hlt, hfound, hwrong⟩ := Nat.find_spec hex
  refine ⟨Nat.find hex + 1, (testAlignment_eq hinfo.lineSize_pos ..).trans
    (run_rejects hinfo hfits hlt hfound hwrong (fun q hq => ?_) _ 0 0 (Nat.zero_add _)
      (by simp [firstLine]))⟩
  by_contra hq'
  exact Nat.find_min hex hq ⟨(Nat.mul_le_mul_right _ hq.le).trans_lt hlt,
    fun r hr => hfound r (hr.trans hq.le), hq'⟩

end

/-- **The test rejects only buffers with a line in a wrong set** if and only if there is such a
line, or all pages that it finds stand at their own residues modulo the number of lines. -/
theorem rejectsRightly_iff (m : Machine) (info : CacheInfo) (buffer hugePageSize : UInt64)
    (hinfo : info.Consistent) (hfits : buffer.toNat + info.totalSize.toNat ≤ 2 ^ 64) :
    RejectsRightly m info buffer hugePageSize ↔
      (∃ j < info.lines, WrongSet m info buffer j) ∨
        AllOwnResidue m info buffer hugePageSize := by
  constructor
  · intro h
    by_cases hall : AllOwnResidue m info buffer hugePageSize
    · exact .inr hall
    · obtain ⟨fuel, hrejected⟩ := rejected_of_not_allOwnResidue hinfo hfits hall
      exact .inl (h fuel hrejected)
  · rintro (hwrong | hall) fuel hrejected
    · exact hwrong
    · exact absurd hall (not_allOwnResidue_of_rejected hinfo hfits hrejected)

/-! ### Caches for which the residues agree -/

/-- Residues modulo the sets decide those modulo the lines if the page size brings in what is
missing. -/
theorem modEq_of_dvd_lcm {sets lines pageLines a b : ℕ} (hdvd : lines ∣ Nat.lcm sets pageLines)
    (h : a * pageLines ≡ b * pageLines [MOD sets]) :
    a * pageLines ≡ b * pageLines [MOD lines] := by
  have hsets := Int.natCast_dvd.mp (Nat.modEq_iff_dvd.mp h)
  have hpage : pageLines ∣ (((b * pageLines : ℕ) : ℤ) - ((a * pageLines : ℕ) : ℤ)).natAbs :=
    Int.natCast_dvd.mp (dvd_sub (Int.natCast_dvd_natCast.mpr (Nat.dvd_mul_left _ _))
      (Int.natCast_dvd_natCast.mpr (Nat.dvd_mul_left _ _)))
  exact Nat.modEq_iff_dvd.mpr (Int.natCast_dvd.mpr (hdvd.trans (Nat.lcm_dvd hsets hpage)))

/-- **No buffer with its lines in their sets is thrown away** if the number of lines of the cache
divides the least common multiple of the number of sets and the number of lines of a huge page;
so for every cache whose lines divide those of a huge page. -/
theorem rejectsRightly_of_dvd (hinfo : info.Consistent)
    (hline : info.lineSize.toNat ∣ hugePageSize.toNat) (hpos : 0 < hugePageSize.toNat)
    (b : HugeBuffer m buffer info.totalSize.toNat hugePageSize.toNat)
    (hdvd : info.lines ∣
      Nat.lcm info.setCount.toNat (hugePageSize.toNat / info.lineSize.toNat)) :
    RejectsRightly m info buffer hugePageSize := by
  refine (rejectsRightly_iff m info buffer hugePageSize hinfo b.fits).mpr ?_
  by_cases hwrong : ∃ j < info.lines, WrongSet m info buffer j
  · exact .inl hwrong
  refine .inr fun page hlt _ => ?_
  have hL := hinfo.lineSize_pos
  obtain ⟨pageLines, hhuge⟩ := hline
  have hquot : hugePageSize.toNat / info.lineSize.toNat = pageLines := by
    rw [hhuge, Nat.mul_div_cancel_left _ hL]
  have hset : m.phys (buffer.toNat + firstLine info hugePageSize page * info.lineSize.toNat) /
      info.lineSize.toNat % info.setCount.toNat =
        firstLine info hugePageSize page % info.setCount.toNat :=
    not_not.mp fun hne => hwrong ⟨_, hlt, hne⟩
  rw [OwnResidue]
  rw [firstLine, hquot] at hlt hset ⊢
  rw [hquot] at hdvd
  -- the first line of the page is the first one of its frame
  have hbyte : page * pageLines * info.lineSize.toNat = page * hugePageSize.toNat := by
    rw [hhuge]
    ring
  have hin : page * hugePageSize.toNat + 0 < info.totalSize.toNat := by
    rw [Nat.add_zero, ← hbyte, totalSize_eq_lines hinfo, mul_comm]
    exact Nat.mul_lt_mul_of_pos_left hlt hL
  have hframe := b.contiguous page 0 hpos hin
  have hbytes : b.frame page * hugePageSize.toNat =
      b.frame page * pageLines * info.lineSize.toNat := by
    rw [mul_assoc, mul_comm pageLines, ← hhuge]
  have hphys : m.phys (buffer.toNat + page * pageLines * info.lineSize.toNat) /
      info.lineSize.toNat = b.frame page * pageLines := by
    rw [hbyte, ← Nat.add_zero (page * hugePageSize.toNat), hframe, Nat.add_zero, hbytes,
      Nat.mul_div_cancel _ hL]
  rw [hphys] at hset ⊢
  have hres : b.frame page * pageLines % info.lines = page * pageLines % info.lines :=
    modEq_of_dvd_lcm hdvd hset
  rw [hres, Nat.mod_eq_of_lt hlt]

end

/-- The test does not throw away the buffer of the 4 MiB cache. -/
theorem rejectsRightly_fourMiB :
    RejectsRightly identityMachine fourMiBCache 0x800000 0x200000 := by
  refine (rejectsRightly_iff identityMachine fourMiBCache 0x800000 0x200000
    fourMiBCache_consistent (by decide)).mpr (.inr fun page hlt _ => ?_)
  change page * 32768 < 65536 at hlt
  change (0x800000 + page * 32768 * 64) % 2 ^ 52 / 64 % 65536 = page * 32768
  omega

/-- A 1.25 MiB cache of 1024 sets and 20 ways. -/
def twentyWays : CacheInfo :=
  { lineSize := 64, totalSize := 1310720, cacheId := 2, cpuId := 0, setCount := 1024,
    waysOfAssociativity := 20, level := 2, type := .unified }

/-- A buffer for it in one huge page, on the second frame of the memory. -/
def twentyWaysBuffer : HugeBuffer identityMachine 0x200000 twentyWays.totalSize.toNat
    (0x200000 : UInt64).toNat where
  aligned := by decide
  fits := by decide
  frame page := page + 1
  contiguous page byte hbyte hin := by
    change (0x200000 + (page * 0x200000 + byte)) % 2 ^ 52 = (page + 1) * 0x200000 + byte
    change byte < 0x200000 at hbyte
    change page * 0x200000 + byte < 1310720 at hin
    omega

/-- All its lines lie in their sets, and the test throws it away. -/
theorem testAlignment_twentyWays :
    testAlignment identityMachine.toOs 0x200000 twentyWays 0x200000 1 = some errorNotAligned ∧
    twentyWays.Consistent ∧
    Nonempty (HugeBuffer identityMachine 0x200000 twentyWays.totalSize.toNat
      (0x200000 : UInt64).toNat) ∧
    ¬ RejectsRightly identityMachine twentyWays 0x200000 0x200000 := by
  have hrejected : testAlignment identityMachine.toOs 0x200000 twentyWays 0x200000 1 =
      some errorNotAligned := by decide +kernel
  refine ⟨hrejected, ⟨by decide, by decide, by decide, by decide⟩, ⟨twentyWaysBuffer⟩,
    fun h => ?_⟩
  obtain ⟨j, hj, hwrong⟩ := h 1 hrejected
  change j < 20480 at hj
  refine hwrong ?_
  change (0x200000 + j * 64) % 2 ^ 52 / 64 % 1024 = j % 1024
  omega

end CacheNoise
