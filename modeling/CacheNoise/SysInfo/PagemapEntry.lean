import CacheNoise.SysInfo

/-!
# The layout of a pagemap word

`pagemap_entry_from` against the layout that is documented at `pagemap_entry_t`: the frame number
stands in bits 0 to 54, and the flags are bit 55 (soft-dirty), 61 (file), 62 (swap) and 63
(present).

The function masks 54 bits and takes the soft-dirty flag from bit 54. So the last bit of the frame
number changes a flag, and the soft-dirty bit is not looked at: a word is decoded as documented if
and only if both bits are 0, and the changes of one bit that come out right are those of the other
frame bits (`decodesAsDocumented_iff`).
-/

namespace CacheNoise

/-- The entry of a word, by the documented layout. -/
def PagemapEntry.documented (word : UInt64) : PagemapEntry where
  pageFrameNumber := UInt64.ofNat (word.toNat % 2 ^ 55)
  softDirty := word.toNat.testBit 55
  filePage := word.toNat.testBit 61
  swapped := word.toNat.testBit 62
  present := word.toNat.testBit 63

/-- The system, with another word at an offset. -/
def Os.withWord (os : Os) (offset word : UInt64) : Os :=
  { os with pagemap := Function.update os.pagemap offset (some word) }

/-- The word with one bit changed. -/
def changeBit (word : UInt64) (bit : ℕ) : UInt64 := UInt64.ofNat (word.toNat ^^^ 2 ^ bit)

/-- A word is decoded as documented, and so is the change of one of its bits. -/
structure DecodesAsDocumented (os : Os) (offset word : UInt64) (bit : ℕ) : Prop where
  decoded : pagemapEntryFrom (os.withWord offset word) offset = .ok (.documented word)
  /-- A bit of the frame number changes the frame number, and nothing else. -/
  frame : bit ≤ 54 → ∃ entry number,
    pagemapEntryFrom (os.withWord offset word) offset = .ok entry ∧
    pagemapEntryFrom (os.withWord offset (changeBit word bit)) offset =
      .ok { entry with pageFrameNumber := number } ∧ number ≠ entry.pageFrameNumber
  /-- The soft-dirty bit changes the soft-dirty flag, and nothing else. -/
  softDirty : bit = 55 → ∃ entry,
    pagemapEntryFrom (os.withWord offset word) offset = .ok entry ∧
    pagemapEntryFrom (os.withWord offset (changeBit word bit)) offset =
      .ok { entry with softDirty := !entry.softDirty }

/-! ### What is decoded -/

/-- The entry that `pagemap_entry_from` makes of a word. -/
def PagemapEntry.decoded (word : UInt64) : PagemapEntry where
  pageFrameNumber := UInt64.ofNat (word.toNat % 2 ^ 54)
  softDirty := word.toNat.testBit 54
  filePage := word.toNat.testBit 61
  swapped := word.toNat.testBit 62
  present := word.toNat.testBit 63

theorem pagemapEntryFrom_withWord (os : Os) (offset word : UInt64) :
    pagemapEntryFrom (os.withWord offset word) offset = .ok (.decoded word) := by
  have hword : (os.withWord offset word).pagemap offset = some word := by
    simp only [Os.withWord, Function.update_self]
  have hframe : word &&& (((1 : UInt64) <<< 54) - 1) = UInt64.ofNat (word.toNat % 2 ^ 54) := by
    rw [← frame_toNat, UInt64.ofNat_toNat]
  rw [pagemapEntryFrom, hword, PagemapEntry.decoded]
  simp only [hframe, bit_eq]
  rfl

/-- The frame number of fewer than 64 bits is kept by its field. -/
private theorem toNat_frame (n : ℕ) {bits : ℕ} (h : bits < 64) :
    (UInt64.ofNat (n % 2 ^ bits)).toNat = n % 2 ^ bits := by
  refine UInt64.toNat_ofNat_of_lt' ((Nat.mod_lt _ (by positivity)).trans ?_)
  exact Nat.pow_lt_pow_right (by decide) h

theorem decoded_eq_documented_iff (word : UInt64) :
    PagemapEntry.decoded word = .documented word ↔
      word.toNat.testBit 54 = false ∧ word.toNat.testBit 55 = false := by
  have hsucc : word.toNat % 2 ^ 55 =
      word.toNat % 2 ^ 54 + 2 ^ 54 * (word.toNat.testBit 54).toNat := by
    rw [Nat.mod_pow_succ, Nat.toNat_testBit]
  constructor
  · intro h
    have hframe := congrArg (fun entry => entry.pageFrameNumber.toNat) h
    have hdirty : word.toNat.testBit 54 = word.toNat.testBit 55 :=
      congrArg PagemapEntry.softDirty h
    have hbit : word.toNat.testBit 54 = false := by
      simp only [PagemapEntry.decoded, PagemapEntry.documented,
        toNat_frame word.toNat (by decide : 54 < 64), toNat_frame word.toNat (by decide : 55 < 64)]
        at hframe
      cases hcase : word.toNat.testBit 54 with
      | false => rfl
      | true =>
        rw [hcase] at hsucc
        simp only [Bool.toNat_true] at hsucc
        omega
    exact ⟨hbit, hdirty ▸ hbit⟩
  · rintro ⟨hframe, hdirty⟩
    rw [hframe, Bool.toNat_false, Nat.mul_zero, Nat.add_zero] at hsucc
    rw [PagemapEntry.decoded, PagemapEntry.documented, hframe, hdirty, hsucc]

/-! ### Changes of one bit -/

section

variable (word : UInt64) {bit : ℕ} (hbit : bit < 64)

include hbit

theorem toNat_changeBit : (changeBit word bit).toNat = word.toNat ^^^ 2 ^ bit :=
  UInt64.toNat_ofNat_of_lt' (Nat.xor_lt_two_pow word.toNat_lt
    (Nat.pow_lt_pow_right (by decide) hbit))

/-- Exactly the one bit is changed. -/
theorem testBit_changeBit (i : ℕ) :
    (changeBit word bit).toNat.testBit i = (word.toNat.testBit i ^^ decide (bit = i)) := by
  rw [toNat_changeBit word hbit, Nat.testBit_xor, Nat.testBit_two_pow]

theorem testBit_changeBit_of_ne {i : ℕ} (h : bit ≠ i) :
    (changeBit word bit).toNat.testBit i = word.toNat.testBit i := by
  rw [testBit_changeBit word hbit, decide_eq_false h, Bool.xor_false]

theorem testBit_changeBit_self :
    (changeBit word bit).toNat.testBit bit = !word.toNat.testBit bit := by
  rw [testBit_changeBit word hbit, decide_eq_true rfl, Bool.xor_true]

end

/-- The bits below the mask are those of the frame number. -/
theorem decoded_changeBit (word : UInt64) {bit : ℕ} (h : bit < 54) :
    PagemapEntry.decoded (changeBit word bit) =
        { PagemapEntry.decoded word with
          pageFrameNumber := (PagemapEntry.decoded (changeBit word bit)).pageFrameNumber } ∧
      (PagemapEntry.decoded (changeBit word bit)).pageFrameNumber ≠
        (PagemapEntry.decoded word).pageFrameNumber := by
  have hbit : bit < 64 := h.trans (by decide)
  constructor
  · simp only [PagemapEntry.decoded, PagemapEntry.mk.injEq, true_and]
    refine ⟨?_, ?_, ?_, ?_⟩ <;> exact testBit_changeBit_of_ne word hbit (by omega)
  · intro hsame
    have hmod := congrArg (fun number => number.toNat.testBit bit) hsame
    simp only [PagemapEntry.decoded, toNat_frame _ (by decide : 54 < 64),
      Nat.testBit_mod_two_pow, h, decide_true, Bool.true_and,
      testBit_changeBit_self word hbit] at hmod
    exact Bool.not_ne_self _ hmod

/-- **Words are decoded as documented** if and only if the last bit of the frame number and the
soft-dirty bit are 0, and neither of the two is changed. -/
theorem decodesAsDocumented_iff (os : Os) (offset word : UInt64) (bit : ℕ) :
    DecodesAsDocumented os offset word bit ↔
      word.toNat.testBit 54 = false ∧ word.toNat.testBit 55 = false ∧ bit ≠ 54 ∧ bit ≠ 55 := by
  have hread := pagemapEntryFrom_withWord os offset word
  have hchanged := pagemapEntryFrom_withWord os offset (changeBit word bit)
  constructor
  · intro h
    have hword := Except.ok.inj (hread.symm.trans h.decoded)
    obtain ⟨hframe, hdirty⟩ := (decoded_eq_documented_iff word).mp hword
    refine ⟨hframe, hdirty, ?_, ?_⟩
    · rintro rfl
      obtain ⟨entry, number, hentry, hentry', -⟩ := h.frame le_rfl
      obtain rfl := Except.ok.inj (hread.symm.trans hentry)
      -- bit 54 is the flag that must not change
      have hflag := congrArg PagemapEntry.softDirty (Except.ok.inj (hchanged.symm.trans hentry'))
      exact Bool.not_ne_self _ ((testBit_changeBit_self word (by decide)).symm.trans hflag)
    · rintro rfl
      obtain ⟨entry, hentry, hentry'⟩ := h.softDirty rfl
      obtain rfl := Except.ok.inj (hread.symm.trans hentry)
      have hflag := congrArg PagemapEntry.softDirty (Except.ok.inj (hchanged.symm.trans hentry'))
      have hsame : (changeBit word 55).toNat.testBit 54 = word.toNat.testBit 54 :=
        testBit_changeBit_of_ne word (by decide) (by decide)
      exact Bool.not_ne_self _ (hflag.symm.trans hsame)
  · rintro ⟨hframe, hdirty, hlast, hsoft⟩
    refine ⟨?_, fun hle => ?_, fun heq => absurd heq hsoft⟩
    · rw [hread, (decoded_eq_documented_iff word).mpr ⟨hframe, hdirty⟩]
    · obtain ⟨hentry, hne⟩ := decoded_changeBit word (by omega : bit < 54)
      refine ⟨_, _, hread, ?_, hne⟩
      rw [hchanged]
      exact congrArg Except.ok hentry

/-- A page whose only flag is soft-dirty comes out without it, and the frame number `2 ^ 54` as
frame 0, soft-dirty. -/
theorem pagemapEntryFrom_softDirty :
    (pagemapEntryFrom (⟨4096, fun _ => some 0x80000000000000⟩ : Os) 0 =
        .ok ⟨0, false, false, false, false⟩ ∧
      pagemapEntryFrom (⟨4096, fun _ => some 0x80000000000000⟩ : Os) 0 ≠
        .ok (.documented 0x80000000000000)) ∧
    pagemapEntryFrom (⟨4096, fun _ => some 0x40000000000000⟩ : Os) 0 =
        .ok ⟨0, true, false, false, false⟩ ∧
      pagemapEntryFrom (⟨4096, fun _ => some 0x40000000000000⟩ : Os) 0 ≠
        .ok (.documented 0x40000000000000) := by
  refine ⟨⟨rfl, fun h => ?_⟩, rfl, fun h => ?_⟩
  · have hdirty := congrArg PagemapEntry.softDirty (Except.ok.inj h)
    exact absurd hdirty (by decide)
  · have hdirty := congrArg PagemapEntry.softDirty (Except.ok.inj h)
    exact absurd hdirty (by decide)

end CacheNoise
