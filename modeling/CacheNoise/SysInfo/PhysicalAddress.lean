import CacheNoise.SysInfo

/-!
# The translation of an address

`get_physical_address` over every page size that is a power of two, every address and every
pagemap whose frames begin below `2 ^ 52` (`PagedOs`). The function looks at one word only,
number `addr / page_size` of 8 bytes each, and what that word says decides the answer
(`getPhysicalAddress_translates`). Within a page the translation keeps distances, and it never
merges addresses of two frames.
-/

namespace CacheNoise

/-- The frame number in a pagemap word, in its bits 0 to 54. -/
def frameNumber (word : UInt64) : ℕ := word.toNat % 2 ^ 55

/-- The present bit of a pagemap word. -/
def isPresent (word : UInt64) : Bool := word.toNat.testBit 63

/-- An x86-64 system: the page size is a power of two and at least 4096, and the physical
addresses of the frames that the pagemap names for an address have at most 52 bits. -/
structure PagedOs extends Os where
  pageBits : ℕ
  pageBits_ge : 12 ≤ pageBits
  pageSize_eq : pageSize.toNat = 2 ^ pageBits
  frame_lt : ∀ addr word : UInt64, pagemap (addr / pageSize * pageEntrySize) = some word →
    isPresent word = true → frameNumber word * pageSize.toNat < 2 ^ 52

/-- `get_physical_address`, with `*target` before and afterwards: only the last statement before
the successful return writes to it. -/
def getPhysicalAddressInto (os : Os) (addr target : UInt64) : ErrorT × UInt64 :=
  match getPhysicalAddress os addr with
  | .ok physicalAddress => (errorNone, physicalAddress)
  | .error res => (res, target)

/-- What the pagemap says about an address, and what `get_physical_address` makes of it. -/
structure Translates (os : Os) (addr target offset : UInt64) (res : ErrorT)
    (target' : UInt64) : Prop where
  /-- The word is entry number `addr / page_size`. -/
  offset_eq : offset.toNat = 8 * (addr.toNat / os.pageSize.toNat)
  /-- No other word matters. -/
  only : ∀ other : Os, other.pageSize = os.pageSize → other.pagemap offset = os.pagemap offset →
    getPhysicalAddressInto other addr target = (res, target')
  unread : os.pagemap offset = none → res = errorIoProcSelfPagemap ∧ target' = target
  absent : ∀ word, os.pagemap offset = some word → isPresent word = false →
    res = errorPageEntry ∧ target' = target
  present : ∀ word, os.pagemap offset = some word → isPresent word = true →
    res = errorNone ∧ target'.toNat =
      frameNumber word * os.pageSize.toNat + addr.toNat % os.pageSize.toNat

namespace PagedOs

variable (os : PagedOs)

/-- The byte offset of the word of an address, as `get_physical_address` computes it. -/
def offset (addr : UInt64) : UInt64 := addr / os.pageSize * pageEntrySize

/-- The frame of an address, if its page is in memory. -/
def frame (addr : UInt64) : Option ℕ :=
  match os.pagemap (os.offset addr) with
  | none => none
  | some word => if isPresent word then some (frameNumber word) else none

theorem one_le_pageSize : 1 ≤ os.pageSize := by
  rw [UInt64.le_iff_toNat_le, os.pageSize_eq]
  exact Nat.one_le_two_pow

/-- The offset does not wrap around: a page has more bytes than its word. -/
theorem toNat_offset (addr : UInt64) :
    (os.offset addr).toNat = 8 * (addr.toNat / os.pageSize.toNat) := by
  have hpage : 8 ≤ os.pageSize.toNat := by
    rw [os.pageSize_eq]
    exact (Nat.pow_le_pow_right (n := 2) (by decide) os.pageBits_ge).trans' (by decide)
  have hfits : addr.toNat / os.pageSize.toNat * 8 < 2 ^ 64 :=
    calc addr.toNat / os.pageSize.toNat * 8
        ≤ addr.toNat / os.pageSize.toNat * os.pageSize.toNat := Nat.mul_le_mul_left _ hpage
      _ ≤ addr.toNat := Nat.div_mul_le_self _ _
      _ < 2 ^ 64 := addr.toNat_lt
  rw [offset, UInt64.toNat_mul, UInt64.toNat_div, Nat.mul_comm 8]
  exact Nat.mod_eq_of_lt hfits

variable {os} {addr target : UInt64} {n : ℕ}

theorem frame_eq_some {word : UInt64} (hword : os.pagemap (os.offset addr) = some word)
    (hpresent : isPresent word = true) : os.frame addr = some (frameNumber word) := by
  rw [frame, hword]
  exact if_pos hpresent

/-- A frame comes from a word with the present bit. -/
theorem exists_of_frame (h : os.frame addr = some n) :
    ∃ word, os.pagemap (os.offset addr) = some word ∧ isPresent word = true ∧
      frameNumber word = n := by
  rw [frame] at h
  cases hword : os.pagemap (os.offset addr) with
  | none => rw [hword] at h; cases h
  | some word =>
    simp only [hword] at h
    split_ifs at h with hpresent
    exact ⟨word, rfl, hpresent, Option.some.inj h⟩

end PagedOs

section

variable (os : PagedOs) (addr : UInt64)

/-- The lookup depends on the page size and on one word. -/
theorem getPhysicalAddress_congr {other : Os} (hsize : other.pageSize = os.pageSize)
    (hword : other.pagemap (os.offset addr) = os.pagemap (os.offset addr)) :
    getPhysicalAddress other addr = getPhysicalAddress os.toOs addr := by
  rw [PagedOs.offset] at hword
  simp only [getPhysicalAddress, pagemapEntryFrom, hsize, hword]

theorem translates (target : UInt64) :
    Translates os.toOs addr target (os.offset addr)
      (getPhysicalAddressInto os.toOs addr target).1
      (getPhysicalAddressInto os.toOs addr target).2 where
  offset_eq := os.toNat_offset addr
  only other hsize hword := by
    rw [getPhysicalAddressInto, getPhysicalAddress_congr os addr hsize hword]
    rfl
  unread hnone := by
    rw [getPhysicalAddressInto, getPhysicalAddress_unread os.one_le_pageSize hnone]
    exact ⟨rfl, rfl⟩
  absent word hword habsent := by
    rw [getPhysicalAddressInto, getPhysicalAddress_absent os.one_le_pageSize hword habsent]
    exact ⟨rfl, rfl⟩
  present word hword hpresent := by
    obtain ⟨_, hok, hvalue⟩ := getPhysicalAddress_present os.pageSize_eq hword hpresent
      (os.pageSize_eq ▸ os.frame_lt addr word hword hpresent)
    rw [getPhysicalAddressInto, hok]
    exact ⟨rfl, os.pageSize_eq ▸ hvalue⟩

end

/-! ### Two addresses -/

section

variable (os : PagedOs)

/-- Two addresses of a page are translated together, and their distance stays what it is. -/
def KeepsDistances : Prop :=
  ∀ addr₁ addr₂ target₁ : UInt64,
    addr₁.toNat / os.pageSize.toNat = addr₂.toNat / os.pageSize.toNat →
    getPhysicalAddress os.toOs addr₁ = .ok target₁ →
      ∃ target₂, getPhysicalAddress os.toOs addr₂ = .ok target₂ ∧
        (target₁.toNat : ℤ) - target₂.toNat = (addr₁.toNat : ℤ) - addr₂.toNat

/-- Addresses whose pages have different frames stay apart. -/
def SeparatesFrames : Prop :=
  ∀ addr₁ addr₂ target₁ target₂ : UInt64, os.frame addr₁ ≠ os.frame addr₂ →
    getPhysicalAddress os.toOs addr₁ = .ok target₁ →
    getPhysicalAddress os.toOs addr₂ = .ok target₂ → target₁ ≠ target₂

variable {os} {addr target : UInt64}

/-- Success means that the page is in memory, and the value is the place of its byte. -/
theorem exists_frame_of_ok (h : getPhysicalAddress os.toOs addr = .ok target) :
    ∃ n, os.frame addr = some n ∧
      target.toNat = n * os.pageSize.toNat + addr.toNat % os.pageSize.toNat := by
  cases hword : os.pagemap (os.offset addr) with
  | none => rw [getPhysicalAddress_unread os.one_le_pageSize hword] at h; cases h
  | some word =>
    cases hpresent : isPresent word with
    | false => rw [getPhysicalAddress_absent os.one_le_pageSize hword hpresent] at h; cases h
    | true =>
      have hinto := (translates os addr 0).present word hword hpresent
      rw [getPhysicalAddressInto, h] at hinto
      exact ⟨_, PagedOs.frame_eq_some hword hpresent, hinto.2⟩

/-- A page in memory is translated. -/
theorem ok_of_frame {n : ℕ} (h : os.frame addr = some n) :
    ∃ target, getPhysicalAddress os.toOs addr = .ok target := by
  obtain ⟨word, hword, hpresent, -⟩ := PagedOs.exists_of_frame h
  obtain ⟨target, hok, -⟩ := getPhysicalAddress_present os.pageSize_eq hword hpresent
    (os.pageSize_eq ▸ os.frame_lt addr word hword hpresent)
  exact ⟨target, hok⟩

/-- The addresses of a page have one word, hence one frame. -/
theorem frame_eq_of_page {addr₁ addr₂ : UInt64}
    (h : addr₁.toNat / os.pageSize.toNat = addr₂.toNat / os.pageSize.toNat) :
    os.frame addr₁ = os.frame addr₂ := by
  have hoffset : os.offset addr₁ = os.offset addr₂ := by
    rw [← UInt64.toNat_inj, os.toNat_offset, os.toNat_offset, h]
  rw [PagedOs.frame, PagedOs.frame, hoffset]

theorem keepsDistances (os : PagedOs) : KeepsDistances os := by
  intro addr₁ addr₂ target₁ hpage hok₁
  obtain ⟨n, hframe₁, hvalue₁⟩ := exists_frame_of_ok hok₁
  have hframe₂ : os.frame addr₂ = some n := (frame_eq_of_page hpage).symm.trans hframe₁
  obtain ⟨target₂, hok₂⟩ := ok_of_frame hframe₂
  obtain ⟨_, hframe, hvalue₂⟩ := exists_frame_of_ok hok₂
  obtain rfl := Option.some.inj (hframe.symm.trans hframe₂)
  refine ⟨target₂, hok₂, ?_⟩
  have hdiv₁ := Nat.div_add_mod addr₁.toNat os.pageSize.toNat
  have hdiv₂ := Nat.div_add_mod addr₂.toNat os.pageSize.toNat
  rw [hpage] at hdiv₁
  omega

theorem separatesFrames (os : PagedOs) : SeparatesFrames os := by
  rintro addr₁ addr₂ target₁ _ hne hok₁ hok₂ rfl
  obtain ⟨n₁, hframe₁, hvalue₁⟩ := exists_frame_of_ok hok₁
  obtain ⟨n₂, hframe₂, hvalue₂⟩ := exists_frame_of_ok hok₂
  have hpos : 0 < os.pageSize.toNat := UInt64.le_iff_toNat_le.mp os.one_le_pageSize
  -- the quotient of the physical address by the page size is the frame on either side
  have hn : n₁ = n₂ :=
    calc n₁ = target₁.toNat / os.pageSize.toNat := by
          rw [hvalue₁, Nat.mul_comm, Nat.mul_add_div hpos,
            Nat.div_eq_of_lt (Nat.mod_lt _ hpos), Nat.add_zero]
      _ = n₂ := by
          rw [hvalue₂, Nat.mul_comm, Nat.mul_add_div hpos,
            Nat.div_eq_of_lt (Nat.mod_lt _ hpos), Nat.add_zero]
  exact hne (by rw [hframe₁, hframe₂, hn])

/-- **The translation**: the word of the page decides, an absent page is refused with the target
left alone, and a page in memory is translated without a lost bit. -/
theorem getPhysicalAddress_translates (os : PagedOs) :
    (∀ addr target, Translates os.toOs addr target (os.offset addr)
      (getPhysicalAddressInto os.toOs addr target).1
      (getPhysicalAddressInto os.toOs addr target).2) ∧
    KeepsDistances os ∧ SeparatesFrames os :=
  ⟨translates os, keepsDistances os, separatesFrames os⟩

end

/-- The facts about a machine make its answers those of a paged system. -/
def Machine.pagedOs (m : Machine) : PagedOs :=
  { m.toOs with
    pageBits := m.pageBits
    pageBits_ge := m.pageBits_ge
    pageSize_eq := m.pageSize_eq
    frame_lt := fun addr word hword hpresent => by
      rw [frameNumber, m.pagemap_frame addr word hword hpresent, m.pageSize_eq]
      exact (Nat.div_mul_le_self _ _).trans_lt (m.phys_lt _) }

end CacheNoise
