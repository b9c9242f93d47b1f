import CacheNoise.Error
import CacheNoise.General.Iteration

/-!
# Cache descriptions and physical addresses

`cache_info_t`, the decoding of a `/proc/self/pagemap` word and `get_physical_address`, as
`sys_info.c` computes them from what the operating system answers (`Os`).

`Machine` adds the hardware: the translation `phys` of virtual to physical addresses, of
which the pagemap words are a description. Its fields are the documented facts about
x86-64 Linux that the alignment test relies on: the base page size is a power of two,
physical addresses have at most 52 bits, a page is mapped as a whole, and the frame number
of a present page stands in bits 0 to 54 of its word. On such a machine
`get_physical_address` returns the physical address (`getPhysicalAddress_eq_phys`).
-/

namespace CacheNoise

/-- `cache_type_t`. -/
inductive CacheType
  | data
  | instruction
  | unified
  | unkown
  deriving DecidableEq

/-- `cache_info_t`. -/
structure CacheInfo where
  lineSize : UInt32
  totalSize : UInt32
  cacheId : UInt32
  cpuId : UInt32
  setCount : UInt32
  waysOfAssociativity : UInt32
  level : UInt32
  type : CacheType
  deriving DecidableEq

/-- A **consistent geometry**: the sizes multiply up and nothing is empty. -/
structure CacheInfo.Consistent (info : CacheInfo) : Prop where
  lineSize_pos : 0 < info.lineSize.toNat
  setCount_pos : 0 < info.setCount.toNat
  ways_pos : 0 < info.waysOfAssociativity.toNat
  totalSize_eq : info.totalSize.toNat =
    info.lineSize.toNat * (info.setCount.toNat * info.waysOfAssociativity.toNat)

/-! ### The pagemap -/

/-- What `sysconf` and `/proc/self/pagemap` answer: the page size, and the 8-byte word at a
byte offset (`none` when opening, seeking or reading fails). -/
structure Os where
  pageSize : UInt64
  pagemap : UInt64 → Option UInt64

/-- `pagemap_entry_t`. -/
structure PagemapEntry where
  pageFrameNumber : UInt64
  softDirty : Bool
  filePage : Bool
  swapped : Bool
  present : Bool

/-- `PAGE_ENTRY_SIZE`. -/
def pageEntrySize : UInt64 := 8

/-- `pagemap_entry_from`. -/
def pagemapEntryFrom (os : Os) (offset : UInt64) : Except ErrorT PagemapEntry :=
  match os.pagemap offset with
  | none => .error errorIoProcSelfPagemap
  | some data => .ok
      { pageFrameNumber := data &&& (((1 : UInt64) <<< 54) - 1)
        softDirty := (data >>> 54) &&& 1 == 1
        filePage := (data >>> 61) &&& 1 == 1
        swapped := (data >>> 62) &&& 1 == 1
        present := (data >>> 63) &&& 1 == 1 }

/-- One pass of the loop of `get_physical_address` that counts the bits of the page size. -/
def pageShiftStep : UInt64 × UInt64 → UInt64 ⊕ UInt64 × UInt64
  | (counter, pageShift) =>
    if counter > 1 then .inr (counter >>> 1, pageShift + 1) else .inl pageShift

/-- The shift count of `get_physical_address`; 64 halvings empty every 64-bit counter. -/
def pageShift (pageSize : UInt64) : UInt64 :=
  (Iteration.run pageShiftStep 64 (pageSize, 0)).getD 0

/-- `get_physical_address`. The frame number is shifted in 64 bits; a compiler that keeps the 54
bits of its field agrees on all frames that begin below `2 ^ 54`. -/
def getPhysicalAddress (os : Os) (addr : UInt64) : Except ErrorT UInt64 :=
  if os.pageSize < 1 then .error errorSysconf
  else
    match pagemapEntryFrom os (addr / os.pageSize * pageEntrySize) with
    | .error res => .error res
    | .ok entry =>
      if !entry.present then .error errorPageEntry
      else .ok ((entry.pageFrameNumber <<< pageShift os.pageSize) + addr % os.pageSize)

/-! ### The shift count -/

private theorem run_pageShiftStep (k : ℕ) : ∀ (counter shift : UInt64) (fuel : ℕ),
    counter.toNat = 2 ^ k → k < fuel → k < 64 → shift.toNat + k < 64 →
      Iteration.run pageShiftStep fuel (counter, shift) = some (shift + UInt64.ofNat k) := by
  induction k with
  | zero =>
    intro counter shift fuel hc hf _ _
    obtain ⟨fuel, rfl⟩ : ∃ f, fuel = f + 1 := ⟨fuel - 1, by omega⟩
    have hle : ¬ counter > 1 := by
      rw [gt_iff_lt, UInt64.lt_iff_toNat_lt, hc]
      decide
    have hstep : pageShiftStep (counter, shift) = .inl shift := by
      simp only [pageShiftStep, if_neg hle]
    rw [Iteration.run_exit hstep]
    exact congrArg some (by simp)
  | succ k ih =>
    intro counter shift fuel hc hf hk hs
    obtain ⟨fuel, rfl⟩ : ∃ f, fuel = f + 1 := ⟨fuel - 1, by omega⟩
    have hgt : counter > 1 := by
      rw [gt_iff_lt, UInt64.lt_iff_toNat_lt, hc]
      exact Nat.one_lt_two_pow (by omega)
    have hhalf : (counter >>> 1).toNat = 2 ^ k := by
      rw [UInt64.toNat_shiftRight, hc]
      simp [Nat.shiftRight_eq_div_pow, pow_succ]
    have hone : (shift + 1).toNat = shift.toNat + 1 := by
      rw [UInt64.toNat_add]
      exact Nat.mod_eq_of_lt (by simp; omega)
    have hstep : pageShiftStep (counter, shift) = .inr (counter >>> 1, shift + 1) := by
      simp only [pageShiftStep, if_pos hgt]
    rw [Iteration.run_next hstep, ih _ _ fuel hhalf (by omega) (by omega) (by omega)]
    refine congrArg some (UInt64.toNat_inj.mp ?_)
    rw [UInt64.toNat_add, hone, UInt64.toNat_add, UInt64.toNat_ofNat', UInt64.toNat_ofNat']
    omega

/-- **The shift count** of a page size that is a power of two is its exponent. -/
theorem pageShift_eq {pageSize : UInt64} {k : ℕ} (h : pageSize.toNat = 2 ^ k) :
    pageShift pageSize = UInt64.ofNat k := by
  have hk : k < 64 := by
    by_contra hge
    have hle : 2 ^ 64 ≤ 2 ^ k := Nat.pow_le_pow_right (by omega) (by omega)
    have := pageSize.toNat_lt
    omega
  rw [pageShift, run_pageShiftStep k pageSize 0 64 h hk hk (by simpa using hk)]
  simp

/-! ### The lookup -/

/-- A flag is a bit of the word. -/
theorem bit_eq (data shift : UInt64) :
    ((data >>> shift) &&& 1 == 1) = data.toNat.testBit (shift.toNat % 64) := by
  have h : (data >>> shift &&& 1).toNat = data.toNat / 2 ^ (shift.toNat % 64) % 2 := by
    rw [UInt64.toNat_and, UInt64.toNat_shiftRight, Nat.shiftRight_eq_div_pow]
    exact Nat.and_one_is_mod _
  rw [Nat.testBit_eq_decide_div_mod_eq, Bool.beq_eq_decide_eq, decide_eq_decide,
    ← UInt64.toNat_inj, h]
  rfl

private theorem present_iff {data : UInt64} :
    ((data >>> 63) &&& 1 == 1) = data.toNat.testBit 63 := bit_eq data 63

/-- The mask has 54 bits. -/
theorem frame_toNat (data : UInt64) :
    (data &&& (((1 : UInt64) <<< 54) - 1)).toNat = data.toNat % 2 ^ 54 := by
  rw [UInt64.toNat_and, ← Nat.and_two_pow_sub_one_eq_mod]
  rfl

section

variable {os : Os} {addr data : UInt64}

/-- The word of the page could not be read. -/
theorem getPhysicalAddress_unread (hpos : 1 ≤ os.pageSize)
    (hword : os.pagemap (addr / os.pageSize * pageEntrySize) = none) :
    getPhysicalAddress os addr = .error errorIoProcSelfPagemap := by
  rw [getPhysicalAddress, if_neg (UInt64.not_lt.mpr hpos), pagemapEntryFrom, hword]

/-- The page is not in memory. -/
theorem getPhysicalAddress_absent (hpos : 1 ≤ os.pageSize)
    (hword : os.pagemap (addr / os.pageSize * pageEntrySize) = some data)
    (habsent : data.toNat.testBit 63 = false) :
    getPhysicalAddress os addr = .error errorPageEntry := by
  rw [getPhysicalAddress, if_neg (UInt64.not_lt.mpr hpos), pagemapEntryFrom, hword]
  simp only [present_iff, habsent, Bool.not_false, if_true]

/-- The page is in memory: neither the mask nor the shift nor the sum loses a bit, as long as
the frame begins below `2 ^ 52`. -/
theorem getPhysicalAddress_present {k : ℕ} (hsize : os.pageSize.toNat = 2 ^ k)
    (hword : os.pagemap (addr / os.pageSize * pageEntrySize) = some data)
    (hpresent : data.toNat.testBit 63 = true) (hfits : data.toNat % 2 ^ 55 * 2 ^ k < 2 ^ 52) :
    ∃ target, getPhysicalAddress os addr = .ok target ∧
      target.toNat = data.toNat % 2 ^ 55 * 2 ^ k + addr.toNat % 2 ^ k := by
  have hk : k < 64 := (Nat.pow_lt_pow_iff_right (by decide)).mp (hsize ▸ os.pageSize.toNat_lt)
  have hpos : 0 < 2 ^ k := by positivity
  have hone : ¬ os.pageSize < 1 := by
    rw [UInt64.lt_iff_toNat_lt, hsize]
    exact Nat.not_lt.mpr hpos
  -- the frame number stays below the 54 bits of the field
  have hfield : data.toNat % 2 ^ 54 = data.toNat % 2 ^ 55 := by
    have := Nat.le_mul_of_pos_right (data.toNat % 2 ^ 55) hpos
    omega
  have hshift : ((data &&& (((1 : UInt64) <<< 54) - 1)) <<< pageShift os.pageSize).toNat =
      data.toNat % 2 ^ 55 * 2 ^ k := by
    rw [UInt64.toNat_shiftLeft, frame_toNat, hfield, pageShift_eq hsize, Nat.shiftLeft_eq,
      UInt64.toNat_ofNat_of_lt' (by simp only [UInt64.size]; omega), Nat.mod_eq_of_lt hk]
    exact Nat.mod_eq_of_lt (by omega)
  have hbyte : addr.toNat % 2 ^ k < 2 ^ 63 :=
    (Nat.mod_lt _ hpos).trans_le (Nat.pow_le_pow_right (by decide) (by omega))
  refine ⟨((data &&& (((1 : UInt64) <<< 54) - 1)) <<< pageShift os.pageSize) + addr % os.pageSize,
    ?_, ?_⟩
  · rw [getPhysicalAddress, if_neg hone, pagemapEntryFrom, hword]
    simp only [present_iff, hpresent, Bool.not_true, Bool.false_eq_true, if_false]
  · rw [UInt64.toNat_add, hshift, UInt64.toNat_mod, hsize]
    exact Nat.mod_eq_of_lt (by omega)

end

/-! ### The hardware behind the pagemap -/

/-- An x86-64 Linux machine: what the operating system answers, together with the address
translation `phys` that it describes. -/
structure Machine extends Os where
  /-- The physical address of a virtual address. -/
  phys : ℕ → ℕ
  pageBits : ℕ
  pageBits_ge : 12 ≤ pageBits
  pageSize_eq : pageSize.toNat = 2 ^ pageBits
  phys_lt : ∀ v, phys v < 2 ^ 52
  phys_mod : ∀ v, phys v % 2 ^ pageBits = v % 2 ^ pageBits
  pagemap_frame : ∀ (v : UInt64) (word : UInt64),
    pagemap (v / pageSize * pageEntrySize) = some word → word.toNat.testBit 63 = true →
      word.toNat % 2 ^ 55 = phys v.toNat / 2 ^ pageBits

/-- **`get_physical_address` is right**: what it returns is the physical address. -/
theorem getPhysicalAddress_eq_phys (m : Machine) {addr target : UInt64}
    (h : getPhysicalAddress m.toOs addr = .ok target) : target.toNat = m.phys addr.toNat := by
  have hpos : 1 ≤ m.pageSize := by
    rw [UInt64.le_iff_toNat_le, m.pageSize_eq]
    exact Nat.one_le_two_pow
  cases hword : m.pagemap (addr / m.pageSize * pageEntrySize) with
  | none => rw [getPhysicalAddress_unread hpos hword] at h; cases h
  | some data =>
    cases hpresent : data.toNat.testBit 63 with
    | false => rw [getPhysicalAddress_absent hpos hword hpresent] at h; cases h
    | true =>
      have hframe := m.pagemap_frame addr data hword hpresent
      have hlt := m.phys_lt addr.toNat
      have hdiv := Nat.div_add_mod (m.phys addr.toNat) (2 ^ m.pageBits)
      obtain ⟨_, hok, hvalue⟩ := getPhysicalAddress_present m.pageSize_eq hword hpresent (by
        rw [hframe, Nat.mul_comm]
        omega)
      obtain rfl := Except.ok.inj (h.symm.trans hok)
      rw [hvalue, hframe, ← m.phys_mod, Nat.mul_comm]
      exact hdiv

/-- What a failed lookup reports. -/
theorem getPhysicalAddress_error {os : Os} {addr : UInt64} {res : ErrorT}
    (h : getPhysicalAddress os addr = .error res) :
    res ∈ [errorSysconf, errorIoProcSelfPagemap, errorPageEntry] := by
  unfold getPhysicalAddress pagemapEntryFrom at h
  split at h
  · obtain rfl := Except.error.inj h
    decide
  cases hword : os.pagemap (addr / os.pageSize * pageEntrySize) with
  | none =>
    rw [hword] at h
    obtain rfl := Except.error.inj h
    decide
  | some data =>
    rw [hword] at h
    simp only at h
    split at h
    · obtain rfl := Except.error.inj h
      decide
    · exact absurd h (by simp)

/-- A failed lookup never reports success. -/
theorem getPhysicalAddress_ne_errorNone {os : Os} {addr : UInt64} {res : ErrorT}
    (h : getPhysicalAddress os addr = .error res) : res ≠ errorNone := by
  rintro rfl
  exact absurd (getPhysicalAddress_error h) (by decide)

end CacheNoise
