import CacheNoise.SysInfo

/-!
# The alignment test

`test_alignment` looks up the physical address of the first line of every huge page of the
buffer and compares its line number, taken modulo the size of the **whole cache**, with the
number of the line in the buffer. The measuring loops walk the buffer in another order and
the hardware takes line numbers modulo the number of **sets**.

On a consistent geometry, and a buffer whose huge pages are each physically contiguous
(`HugeBuffer`), acceptance puts every line of the buffer, sampled or not, at its own residue
modulo the number of lines (`testAlignment_lines`): one page's frame fixes the residues of
all of its lines, and the last page may be a partial one. Hence line `w * set_count + s` lies
in set `s`, and no two lines coincide (`testAlignment_sound`). The consequence that the
measuring loops rely on is packaged as `Placed`.
-/

namespace CacheNoise

/-- The loop body of `test_alignment`: one sampled page. The write through `ptr`, which
brings the page into memory, has no other effect here. -/
def testAlignmentStep (os : Os) (buffer : UInt64) (info : CacheInfo) (pageSize : UInt64)
    (currentLine : UInt64) : ErrorT ⊕ UInt64 :=
  if currentLine < (info.totalSize / info.lineSize).toUInt64 then
    let ptr := buffer + currentLine * info.lineSize.toUInt64
    match getPhysicalAddress os ptr with
    | .error res => .inl res
    | .ok physicalAddress =>
      let lineId := physicalAddress % info.totalSize.toUInt64 / info.lineSize.toUInt64
      if currentLine ≠ lineId then .inl errorNotAligned
      else .inr (currentLine + pageSize / info.lineSize.toUInt64)
  else .inl errorNone

/-- `test_alignment`, with a bound on the number of sampled pages. It has no result for lines of no
bytes, by which it divides. -/
def testAlignment (os : Os) (buffer : UInt64) (info : CacheInfo) (pageSize : UInt64)
    (fuel : ℕ) : Option ErrorT :=
  if info.lineSize = 0 then none
  else Iteration.run (testAlignmentStep os buffer info pageSize) fuel 0

theorem testAlignment_eq {info : CacheInfo} (hline : 0 < info.lineSize.toNat) (os : Os)
    (buffer pageSize : UInt64) (fuel : ℕ) : testAlignment os buffer info pageSize fuel =
      Iteration.run (testAlignmentStep os buffer info pageSize) fuel 0 :=
  if_neg fun hzero => by
    rw [hzero] at hline
    exact absurd hline (by decide)

/-- A result is that of the loop. -/
theorem run_of_testAlignment {os : Os} {buffer pageSize : UInt64} {info : CacheInfo} {fuel : ℕ}
    {res : ErrorT} (h : testAlignment os buffer info pageSize fuel = some res) :
    Iteration.run (testAlignmentStep os buffer info pageSize) fuel 0 = some res := by
  rw [testAlignment] at h
  split at h
  · cases h
  · exact h

/-- The number of lines of the cache, and of the buffer. -/
def CacheInfo.lines (info : CacheInfo) : ℕ :=
  info.setCount.toNat * info.waysOfAssociativity.toNat

/-- The offset of the line that `prime` and `probe` access for a set and a way. -/
def CacheInfo.offset (info : CacheInfo) (set way : ℕ) : ℕ :=
  (way * info.setCount.toNat + set) * info.lineSize.toNat

/-- A buffer of `size` bytes in huge pages of `hugePageSize` bytes: aligned to them, inside
the address space, and physically contiguous within each page. The frames are arbitrary. -/
structure HugeBuffer (m : Machine) (buffer : UInt64) (size hugePageSize : ℕ) where
  aligned : hugePageSize ∣ buffer.toNat
  fits : buffer.toNat + size ≤ 2 ^ 64
  frame : ℕ → ℕ
  contiguous : ∀ page byte, byte < hugePageSize → page * hugePageSize + byte < size →
    m.phys (buffer.toNat + (page * hugePageSize + byte)) = frame page * hugePageSize + byte

/-! ### From the sampled lines to all lines -/

/-- If the first line of every page stands at its own residue, every line does. -/
private theorem residue_of_sampled {frame : ℕ → ℕ} {pageLines lines : ℕ}
    (h : ∀ page, page * pageLines < lines → frame page * pageLines % lines = page * pageLines)
    {j : ℕ} (hj : j < lines) :
    (frame (j / pageLines) * pageLines + j % pageLines) % lines = j := by
  have hdiv : j / pageLines * pageLines + j % pageLines = j := by
    rw [mul_comm]
    exact Nat.div_add_mod j pageLines
  rw [Nat.add_mod, h (j / pageLines) (by omega), Nat.mod_eq_of_lt
    (lt_of_le_of_lt (Nat.mod_le _ _) hj), hdiv, Nat.mod_eq_of_lt hj]

/-- The line number of a line-aligned physical address, modulo the cache. -/
private theorem lineId_eq {lineSize : ℕ} (hline : 0 < lineSize) (a lines : ℕ) :
    a * lineSize % (lineSize * lines) / lineSize = a % lines := by
  rw [mul_comm lineSize lines, Nat.mul_mod_mul_right, Nat.mul_div_cancel _ hline]

section

variable {m : Machine} {info : CacheInfo} {buffer hugePageSize : UInt64}

/-- The samples before a loop state were all right. -/
private def Sampled (m : Machine) (info : CacheInfo) (buffer : UInt64) (pageLines : ℕ)
    (currentLine : UInt64) : Prop :=
  ∃ pages, currentLine.toNat = pages * pageLines ∧ ∀ page < pages, page * pageLines < info.lines →
    m.phys (buffer.toNat + page * pageLines * info.lineSize.toNat) % info.totalSize.toNat /
      info.lineSize.toNat = page * pageLines

/-- The bound of the loop is the number of lines. -/
theorem toNat_lines (h : info.Consistent) :
    (info.totalSize / info.lineSize).toUInt64.toNat = info.lines := by
  rw [UInt32.toNat_toUInt64, UInt32.toNat_div, h.totalSize_eq,
    Nat.mul_div_cancel_left _ h.lineSize_pos]
  rfl

theorem totalSize_eq_lines (h : info.Consistent) :
    info.totalSize.toNat = info.lineSize.toNat * info.lines := h.totalSize_eq

theorem lines_lt (h : info.Consistent) : info.lines < 2 ^ 32 := by
  calc info.lines ≤ info.lineSize.toNat * info.lines := Nat.le_mul_of_pos_left _ h.lineSize_pos
    _ = info.totalSize.toNat := h.totalSize_eq.symm
    _ < 2 ^ 32 := info.totalSize.toNat_lt

/-! ### One sample -/

section

variable {c : UInt64}

/-- The address of a line of the buffer does not wrap around. -/
theorem toNat_ptr (hinfo : info.Consistent)
    (hfits : buffer.toNat + info.totalSize.toNat ≤ 2 ^ 64) (hlt : c.toNat < info.lines) :
    (buffer + c * info.lineSize.toUInt64).toNat =
      buffer.toNat + c.toNat * info.lineSize.toNat := by
  have hbytes : c.toNat * info.lineSize.toNat < info.totalSize.toNat := by
    rw [totalSize_eq_lines hinfo, mul_comm]
    exact Nat.mul_lt_mul_of_pos_left hlt hinfo.lineSize_pos
  have hmul : (c * info.lineSize.toUInt64).toNat = c.toNat * info.lineSize.toNat := by
    rw [UInt64.toNat_mul, UInt32.toNat_toUInt64]
    exact Nat.mod_eq_of_lt (by omega)
  rw [UInt64.toNat_add, hmul]
  exact Nat.mod_eq_of_lt (by omega)

/-- A lookup that fails ends the test. -/
theorem testAlignmentStep_error (hinfo : info.Consistent) (hlt : c.toNat < info.lines)
    {res : ErrorT}
    (hphys : getPhysicalAddress m.toOs (buffer + c * info.lineSize.toUInt64) = .error res) :
    testAlignmentStep m.toOs buffer info hugePageSize c = .inl res := by
  have hcond : c < (info.totalSize / info.lineSize).toUInt64 := by
    rwa [UInt64.lt_iff_toNat_lt, toNat_lines hinfo]
  simp only [testAlignmentStep, if_pos hcond, hphys]

/-- Only a pass over a line of the cache can do anything but end the test with success. -/
theorem lt_lines_of_step (hinfo : info.Consistent)
    (h : testAlignmentStep m.toOs buffer info hugePageSize c ≠ .inl errorNone) :
    c.toNat < info.lines := by
  by_contra hge
  have hcond : ¬ c < (info.totalSize / info.lineSize).toUInt64 := by
    rwa [UInt64.lt_iff_toNat_lt, toNat_lines hinfo]
  exact h (if_neg hcond)

/-- A line that is found has to stand at its own residue. -/
theorem testAlignmentStep_ok (hinfo : info.Consistent)
    (hfits : buffer.toNat + info.totalSize.toNat ≤ 2 ^ 64) (hlt : c.toNat < info.lines)
    {target : UInt64}
    (hphys : getPhysicalAddress m.toOs (buffer + c * info.lineSize.toUInt64) = .ok target) :
    testAlignmentStep m.toOs buffer info hugePageSize c =
      if m.phys (buffer.toNat + c.toNat * info.lineSize.toNat) % info.totalSize.toNat /
          info.lineSize.toNat = c.toNat
      then .inr (c + hugePageSize / info.lineSize.toUInt64) else .inl errorNotAligned := by
  have hcond : c < (info.totalSize / info.lineSize).toUInt64 := by
    rwa [UInt64.lt_iff_toNat_lt, toNat_lines hinfo]
  have hid : (target % info.totalSize.toUInt64 / info.lineSize.toUInt64).toNat =
      m.phys (buffer.toNat + c.toNat * info.lineSize.toNat) % info.totalSize.toNat /
        info.lineSize.toNat := by
    rw [← toNat_ptr hinfo hfits hlt, ← getPhysicalAddress_eq_phys m hphys, UInt64.toNat_div,
      UInt64.toNat_mod, UInt32.toNat_toUInt64, UInt32.toNat_toUInt64]
  simp only [testAlignmentStep, if_pos hcond, hphys, ne_eq, ite_not, ← hid, UInt64.toNat_inj]
  exact if_congr eq_comm rfl rfl

/-- The next line to look up is the first one of the next page. -/
theorem toNat_next (hinfo : info.Consistent) {pages : ℕ}
    (hc : c.toNat = pages * (hugePageSize.toNat / info.lineSize.toNat))
    (hlt : c.toNat < info.lines) :
    (c + hugePageSize / info.lineSize.toUInt64).toNat =
      (pages + 1) * (hugePageSize.toNat / info.lineSize.toNat) := by
  have hlines := lines_lt hinfo
  rw [UInt64.toNat_add, UInt64.toNat_div, UInt32.toNat_toUInt64, hc, Nat.succ_mul]
  refine Nat.mod_eq_of_lt ?_
  -- the first step starts at line 0, and a later one shows that pages are short
  rcases Nat.eq_zero_or_pos pages with rfl | hpos
  · have := Nat.div_le_self hugePageSize.toNat info.lineSize.toNat
    have := hugePageSize.toNat_lt
    omega
  · have := Nat.le_mul_of_pos_left (hugePageSize.toNat / info.lineSize.toNat) hpos
    omega

end

/-- One accepted sample extends the samples. -/
private theorem sampled_next (hinfo : info.Consistent)
    (hfits : buffer.toNat + info.totalSize.toNat ≤ 2 ^ 64) {c c' : UInt64}
    (hc : Sampled m info buffer (hugePageSize.toNat / info.lineSize.toNat) c)
    (hstep : testAlignmentStep m.toOs buffer info hugePageSize c = .inr c') :
    Sampled m info buffer (hugePageSize.toNat / info.lineSize.toNat) c' := by
  obtain ⟨pages, hpages, hprev⟩ := hc
  have hlt : c.toNat < info.lines := lt_lines_of_step hinfo (by rw [hstep]; simp)
  cases hphys : getPhysicalAddress m.toOs (buffer + c * info.lineSize.toUInt64) with
  | error e =>
    rw [testAlignmentStep_error hinfo hlt hphys] at hstep
    cases hstep
  | ok target =>
    rw [testAlignmentStep_ok hinfo hfits hlt hphys] at hstep
    split_ifs at hstep with hsample
    obtain rfl := Sum.inr.inj hstep
    refine ⟨pages + 1, toNat_next hinfo hpages hlt, fun page hpage hin => ?_⟩
    rcases Nat.lt_succ_iff_lt_or_eq.mp hpage with hlt' | rfl
    · exact hprev page hlt' hin
    · rwa [← hpages]

/-- The loop reports success only when its condition fails: every page was sampled. -/
private theorem lines_le_of_exit (hinfo : info.Consistent) {c : UInt64}
    (h : testAlignmentStep m.toOs buffer info hugePageSize c = .inl errorNone) :
    info.lines ≤ c.toNat := by
  unfold testAlignmentStep at h
  split at h
  · simp only at h
    split at h
    · rename_i res hres
      exact absurd (Sum.inl.inj h) (getPhysicalAddress_ne_errorNone hres)
    · split at h
      · exact absurd (Sum.inl.inj h) (by decide)
      · exact absurd h (by simp)
  · rename_i hge
    rwa [UInt64.lt_iff_toNat_lt, toNat_lines hinfo, Nat.not_lt] at hge

/-- **Acceptance covers all lines**: the line number of line `j` of an accepted buffer is
`j` modulo the number of lines of the cache. -/
theorem testAlignment_lines (hinfo : info.Consistent)
    (hdvd : info.lineSize.toNat ∣ hugePageSize.toNat)
    (b : HugeBuffer m buffer info.totalSize.toNat hugePageSize.toNat) {fuel : ℕ}
    (h : testAlignment m.toOs buffer info hugePageSize fuel = some errorNone) {j : ℕ}
    (hj : j < info.lines) :
    m.phys (buffer.toNat + j * info.lineSize.toNat) / info.lineSize.toNat % info.lines = j := by
  set pageLines := hugePageSize.toNat / info.lineSize.toNat with hpl
  obtain ⟨-, hfits, frame, hcontiguous⟩ := b
  obtain ⟨c, ⟨pages, hpages, hsampled⟩, hexit⟩ :=
    Iteration.run_invariant (Sampled m info buffer pageLines)
      (fun _ _ hc hstep => sampled_next hinfo hfits hc hstep) ⟨0, by simp, by simp⟩
      (run_of_testAlignment h)
  have hL := hinfo.lineSize_pos
  have hhuge : hugePageSize.toNat = pageLines * info.lineSize.toNat :=
    (Nat.div_mul_cancel hdvd).symm
  have hall : info.lines ≤ pages * pageLines := hpages ▸ lines_le_of_exit hinfo hexit
  have hpos : 0 < pageLines := Nat.pos_of_ne_zero fun h0 => by
    rw [h0] at hall
    omega
  have hbyte : ∀ i < info.lines, i * info.lineSize.toNat < info.totalSize.toNat := fun i hi => by
    rw [totalSize_eq_lines hinfo, mul_comm]
    exact Nat.mul_lt_mul_of_pos_left hi hL
  have hline : ∀ page r, r < pageLines → page * pageLines + r < info.lines →
      m.phys (buffer.toNat + (page * pageLines + r) * info.lineSize.toNat) =
        (frame page * pageLines + r) * info.lineSize.toNat := by
    intro page r hr hin
    have hsplit : (page * pageLines + r) * info.lineSize.toNat =
        page * hugePageSize.toNat + r * info.lineSize.toNat := by rw [hhuge]; ring
    have hin' := hbyte _ hin
    rw [hsplit] at hin' ⊢
    rw [hcontiguous page (r * info.lineSize.toNat)
      (by rw [hhuge]; exact Nat.mul_lt_mul_of_pos_right hr hL) hin', hhuge]
    ring
  have hframe : ∀ page, page * pageLines < info.lines →
      frame page * pageLines % info.lines = page * pageLines := by
    intro page hin
    have hs := hsampled page (by
      by_contra hge
      have := Nat.mul_le_mul_right pageLines (Nat.le_of_not_lt hge)
      omega) hin
    rw [← Nat.add_zero (page * pageLines), hline page 0 hpos (by omega),
      totalSize_eq_lines hinfo, lineId_eq hL] at hs
    simpa using hs
  have hdiv : j / pageLines * pageLines + j % pageLines = j := by
    rw [mul_comm]
    exact Nat.div_add_mod j pageLines
  calc m.phys (buffer.toNat + j * info.lineSize.toNat) / info.lineSize.toNat % info.lines
      = (frame (j / pageLines) * pageLines + j % pageLines) % info.lines := by
        have hphys := hline (j / pageLines) (j % pageLines) (Nat.mod_lt _ hpos) (by omega)
        rw [hdiv] at hphys
        rw [hphys, Nat.mul_div_cancel _ hL]
    _ = j := residue_of_sampled hframe hj

/-! ### What the measuring loops rely on -/

theorem CacheInfo.line_lt {set way : ℕ} (hs : set < info.setCount.toNat)
    (hw : way < info.waysOfAssociativity.toNat) : way * info.setCount.toNat + set < info.lines := by
  calc way * info.setCount.toNat + set < (way + 1) * info.setCount.toNat := by
        rw [Nat.succ_mul]
        omega
    _ ≤ info.waysOfAssociativity.toNat * info.setCount.toNat := Nat.mul_le_mul_right _ hw
    _ = info.lines := mul_comm _ _

/-- **A usable placement** of a buffer under the address translation `phys`: the buffer lies
inside the address space, line `j` lies in the set of its residue, and no two lines coincide. -/
structure Placed (phys : ℕ → ℕ) (info : CacheInfo) (buffer : UInt64) : Prop where
  fits : buffer.toNat + info.lines * info.lineSize.toNat ≤ 2 ^ 64
  line_mod : ∀ j < info.lines,
    phys (buffer.toNat + j * info.lineSize.toNat) / info.lineSize.toNat % info.setCount.toNat =
      j % info.setCount.toNat
  line_inj : ∀ i < info.lines, ∀ j < info.lines,
    phys (buffer.toNat + i * info.lineSize.toNat) / info.lineSize.toNat =
      phys (buffer.toNat + j * info.lineSize.toNat) / info.lineSize.toNat → i = j

/-- An accepted buffer is placed. -/
theorem Placed.ofAccepted (hinfo : info.Consistent)
    (hdvd : info.lineSize.toNat ∣ hugePageSize.toNat)
    (b : HugeBuffer m buffer info.totalSize.toNat hugePageSize.toNat) {fuel : ℕ}
    (h : testAlignment m.toOs buffer info hugePageSize fuel = some errorNone) :
    Placed m.phys info buffer where
  fits := by
    rw [mul_comm, ← totalSize_eq_lines hinfo]
    exact b.fits
  line_mod j hj := by
    have hres := testAlignment_lines hinfo hdvd b h hj
    conv_rhs => rw [← hres]
    exact (Nat.mod_mod_of_dvd _ (Dvd.intro _ rfl)).symm
  line_inj i hi j hj hij := by
    rw [← testAlignment_lines hinfo hdvd b h hi, hij, testAlignment_lines hinfo hdvd b h hj]

/-- **Soundness of the alignment test.** Every line that `prime` and `probe` access in an
accepted buffer lies in the hardware set it is accessed for, and the lines accessed for one
set are pairwise distinct. -/
theorem testAlignment_sound (m : Machine) (info : CacheInfo) (buffer hugePageSize : UInt64)
    (hinfo : info.Consistent) (hdvd : info.lineSize.toNat ∣ hugePageSize.toNat)
    (b : HugeBuffer m buffer info.totalSize.toNat hugePageSize.toNat) (fuel : ℕ)
    (h : testAlignment m.toOs buffer info hugePageSize fuel = some errorNone) :
    ∀ set < info.setCount.toNat,
      (∀ way < info.waysOfAssociativity.toNat,
        m.phys (buffer.toNat + info.offset set way) / info.lineSize.toNat %
          info.setCount.toNat = set) ∧
      ∀ way < info.waysOfAssociativity.toNat, ∀ way' < info.waysOfAssociativity.toNat,
        m.phys (buffer.toNat + info.offset set way) / info.lineSize.toNat =
          m.phys (buffer.toNat + info.offset set way') / info.lineSize.toNat → way = way' := by
  intro set hset
  have hplaced := Placed.ofAccepted hinfo hdvd b h
  refine ⟨fun way hway => ?_, fun way hway way' hway' heq => ?_⟩
  · have hmod := hplaced.line_mod _ (CacheInfo.line_lt hset hway)
    rw [Nat.mul_add_mod', Nat.mod_eq_of_lt hset] at hmod
    exact hmod
  · have hline := hplaced.line_inj _ (CacheInfo.line_lt hset hway) _
      (CacheInfo.line_lt hset hway') heq
    exact Nat.eq_of_mul_eq_mul_right hinfo.setCount_pos (Nat.add_right_cancel hline)

end

/-- A machine that maps the low 52 address bits to themselves. -/
def identityMachine : Machine where
  pageSize := 4096
  pagemap offset := some (offset / pageEntrySize % 0x10000000000 + 0x8000000000000000)
  phys v := v % 2 ^ 52
  pageBits := 12
  pageBits_ge := le_rfl
  pageSize_eq := by decide
  phys_lt v := Nat.mod_lt _ (by norm_num)
  phys_mod v := Nat.mod_mod_of_dvd _ (by norm_num)
  pagemap_frame v word hword _ := by
    obtain rfl := Option.some_injective _ hword
    have h40 : (0x10000000000 : UInt64).toNat = 2 ^ 40 := by decide
    have h63 : (0x8000000000000000 : UInt64).toNat = 2 ^ 63 := by decide
    have h4096 : (4096 : UInt64).toNat = 4096 := by decide
    have h8 : pageEntrySize.toNat = 8 := by decide
    have hv := v.toNat_lt
    rw [UInt64.toNat_add, UInt64.toNat_mod, UInt64.toNat_div, UInt64.toNat_mul,
      UInt64.toNat_div, h40, h63, h4096, h8]
    omega

/-- A 4 MiB cache of 4096 sets and 16 ways. -/
def fourMiBCache : CacheInfo :=
  { lineSize := 64, totalSize := 4194304, cacheId := 2, cpuId := 0, setCount := 4096,
    waysOfAssociativity := 16, level := 2, type := .unified }

/-- A buffer for it in two huge pages, which start at frame 4 of the identity mapping. -/
def fourMiBBuffer : HugeBuffer identityMachine 0x800000 fourMiBCache.totalSize.toNat
    (0x200000 : UInt64).toNat where
  aligned := by decide
  fits := by decide
  frame page := page + 4
  contiguous page byte hbyte hin := by
    change (0x800000 + (page * 0x200000 + byte)) % 2 ^ 52 = (page + 4) * 0x200000 + byte
    change byte < 0x200000 at hbyte
    change page * 0x200000 + byte < 4194304 at hin
    omega

theorem fourMiBCache_consistent : fourMiBCache.Consistent :=
  ⟨by decide, by decide, by decide, by decide⟩

theorem testAlignment_fourMiB :
    testAlignment identityMachine.toOs 0x800000 fourMiBCache 0x200000 3 = some errorNone := by
  decide +kernel

theorem testAlignment_sound_fourMiB :
    identityMachine.phys (0x800000 + fourMiBCache.offset 5 3) / 64 % 4096 = 5 :=
  (testAlignment_sound identityMachine fourMiBCache 0x800000 0x200000 fourMiBCache_consistent
    (by decide) fourMiBBuffer 3 testAlignment_fourMiB 5 (by decide)).1 3 (by decide)

end CacheNoise
