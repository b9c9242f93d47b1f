import CacheNoise.Profile.Measurement

/-!
# What the assembly loops touch

Both loops pass over the lines of the buffer set by set, and load each line once, at its offset
inside the buffer (`Covers`). `probe` fills the result array in order (`index_probeOrder`): its
running index is the set times the number of ways plus the way, although the offsets are
transposed. What it writes there is the low half of a difference, which is the number of counts
between its two readings, wherever the counter stands, as long as this number fits into 32 bits
(`measure_elapsed`).
-/

namespace CacheNoise

variable {σ : Type}

/-! ### The lines -/

/-- The line of the buffer that belongs to a set and a way. -/
def bufferLine (sets : ℕ) (p : ℕ × ℕ) : ℕ := p.2 * sets + p.1

/-- A pass over the lines of a buffer: set by set, each line once, and 8 bytes from the start of
a line on are inside the buffer. -/
structure Covers (line sets ways total : ℕ) (order : List (ℕ × ℕ)) : Prop where
  bySet : (order.map Prod.fst).Pairwise (· ≤ ·)
  once : (order.map (bufferLine sets)).Perm (List.range (sets * ways))
  inside : ∀ p ∈ order, p.1 < sets ∧ p.2 < ways ∧ bufferLine sets p * line + 8 ≤ total

section

variable {line sets ways total : ℕ}

theorem bufferLine_lt {p : ℕ × ℕ} (hs : p.1 < sets) (hw : p.2 < ways) :
    bufferLine sets p < sets * ways := by
  calc bufferLine sets p < (p.2 + 1) * sets := by
        rw [bufferLine, Nat.succ_mul]
        omega
    _ ≤ ways * sets := Nat.mul_le_mul_right sets hw
    _ = sets * ways := Nat.mul_comm ways sets

theorem bufferLine_inj {p q : ℕ × ℕ} (hp : p.1 < sets) (hq : q.1 < sets)
    (h : bufferLine sets p = bufferLine sets q) : p = q := by
  have hset := congrArg (· % sets) h
  simp only [bufferLine, Nat.mul_add_mod', Nat.mod_eq_of_lt hp, Nat.mod_eq_of_lt hq] at hset
  refine Prod.ext hset (Nat.eq_of_mul_eq_mul_right (Nat.zero_lt_of_lt hp) ?_)
  rw [bufferLine, bufferLine, hset] at h
  exact Nat.add_right_cancel h

/-- A list of all sets and ways, set by set and without repetition, is a pass. -/
theorem Covers.of_mem {order : List (ℕ × ℕ)} (hbySet : (order.map Prod.fst).Pairwise (· ≤ ·))
    (hnodup : order.Nodup) (hmem : ∀ p, p ∈ order ↔ p.1 < sets ∧ p.2 < ways) (hline : 8 ≤ line)
    (hfit : line * sets * ways ≤ total) : Covers line sets ways total order where
  bySet := hbySet
  once := by
    have hmap : (order.map (bufferLine sets)).Nodup :=
      hnodup.map_on fun p hp q hq h => bufferLine_inj ((hmem p).mp hp).1 ((hmem q).mp hq).1 h
    refine (List.perm_ext_iff_of_nodup hmap List.nodup_range).mpr fun i => ?_
    rw [List.mem_map, List.mem_range]
    constructor
    · rintro ⟨p, hp, rfl⟩
      obtain ⟨hs, hw⟩ := (hmem p).mp hp
      exact bufferLine_lt hs hw
    · intro hi
      have hsets : 0 < sets := Nat.pos_of_ne_zero fun h => by simp [h] at hi
      refine ⟨(i % sets, i / sets), (hmem _).mpr ⟨Nat.mod_lt i hsets, ?_⟩, ?_⟩
      · exact Nat.div_lt_of_lt_mul hi
      · rw [bufferLine, Nat.mul_comm]
        exact Nat.div_add_mod i sets
  inside p hp := by
    obtain ⟨hs, hw⟩ := (hmem p).mp hp
    refine ⟨hs, hw, ?_⟩
    have hnext : (bufferLine sets p + 1) * line ≤ sets * ways * line :=
      Nat.mul_le_mul_right line (bufferLine_lt hs hw)
    have hwhole : sets * ways * line = line * sets * ways := by ring
    rw [Nat.succ_mul] at hnext
    omega

/-- Going through the sets in order, and in each of them through some ways. -/
private theorem pairwise_fst_sets (row : List ℕ) (sets : ℕ) :
    (((List.range sets).flatMap fun set => row.map fun way => (set, way)).map
      Prod.fst).Pairwise (· ≤ ·) := by
  rw [List.pairwise_map, List.pairwise_flatMap]
  constructor
  · intro set _
    rw [List.pairwise_map]
    exact List.pairwise_of_forall fun _ _ => le_rfl
  · refine List.pairwise_lt_range.imp fun hlt p hp q hq => ?_
    obtain ⟨way, -, rfl⟩ := List.mem_map.mp hp
    obtain ⟨way', -, rfl⟩ := List.mem_map.mp hq
    exact hlt.le

theorem covers_primeOrder (hline : 8 ≤ line) (hfit : line * sets * ways ≤ total) :
    Covers line sets ways total (primeOrder sets ways) :=
  .of_mem (pairwise_fst_sets _ sets)
    (List.nodup_range.product (List.nodup_reverse.mpr List.nodup_range))
    (fun _ => mem_primeOrder) hline hfit

theorem covers_probeOrder (hline : 8 ≤ line) (hfit : line * sets * ways ≤ total) :
    Covers line sets ways total (probeOrder sets ways) :=
  .of_mem (pairwise_fst_sets _ sets) (probeOrder_nodup sets ways) (fun _ => mem_probeOrder)
    hline hfit

end

/-- The address of a set and a way is that of its line. -/
theorem lineAddress_eq (lineSize setCount buffer : UInt64) (p : ℕ × ℕ) :
    lineAddress lineSize setCount buffer (UInt64.ofNat p.1) (UInt64.ofNat p.2) =
      buffer + UInt64.ofNat (bufferLine setCount.toNat p * lineSize.toNat) := by
  rw [lineAddress, bufferLine, UInt64.ofNat_mul, UInt64.ofNat_add, UInt64.ofNat_mul,
    UInt64.ofNat_toNat, UInt64.ofNat_toNat]

/-! ### The result array -/

/-- The result index of a set and a way. -/
def resultIndex (ways : ℕ) (p : ℕ × ℕ) : ℕ := p.1 * ways + p.2

/-- **The result array is filled in order.** -/
theorem index_probeOrder (sets ways : ℕ) :
    (probeOrder sets ways).map (resultIndex ways) = List.range (sets * ways) := by
  induction sets with
  | zero => rw [Nat.zero_mul]; rfl
  | succ sets ih =>
    rw [probeOrder_succ, List.map_append, ih, Nat.succ_mul, List.range_add, List.map_map]
    rfl

theorem resultIndex_word (wayCount : UInt64) (p : ℕ × ℕ) :
    UInt64.ofNat p.1 * wayCount + UInt64.ofNat p.2 =
      UInt64.ofNat (resultIndex wayCount.toNat p) := by
  rw [resultIndex, UInt64.ofNat_add, UInt64.ofNat_mul, UInt64.ofNat_toNat]

theorem length_probeOrder (sets ways : ℕ) : (probeOrder sets ways).length = sets * ways := by
  have h := congrArg List.length (index_probeOrder sets ways)
  rwa [List.length_map, List.length_range] at h

/-- The cell that measurement `k` writes. -/
theorem cell_getElem {wayCount : UInt64} {sets k : ℕ}
    (hk : k < (probeOrder sets wayCount.toNat).length) :
    UInt64.ofNat (probeOrder sets wayCount.toNat)[k].1 * wayCount +
      UInt64.ofNat (probeOrder sets wayCount.toNat)[k].2 = UInt64.ofNat k := by
  have h := congrArg (fun l => l[k]?) (index_probeOrder sets wayCount.toNat)
  simp only [List.getElem?_map, List.getElem?_eq_getElem hk, Option.map_some,
    List.getElem?_range (length_probeOrder sets wayCount.toNat ▸ hk)] at h
  rw [resultIndex_word, Option.some.inj h]

/-- No two measurements write the same cell. -/
theorem nodup_cells {wayCount : UInt64} {sets : ℕ} (hsmall : sets * wayCount.toNat < 2 ^ 64) :
    ((probeOrder sets wayCount.toNat).map fun p =>
      UInt64.ofNat p.1 * wayCount + UInt64.ofNat p.2).Nodup := by
  rw [funext (resultIndex_word wayCount), ← Function.comp_def UInt64.ofNat, ← List.map_map,
    index_probeOrder]
  refine List.nodup_range.map_on fun i hi j hj h => ?_
  have hword : ∀ i ∈ List.range (sets * wayCount.toNat), (UInt64.ofNat i).toNat = i := by
    intro i hi
    rw [UInt64.toNat_ofNat']
    exact Nat.mod_eq_of_lt ((List.mem_range.mp hi).trans hsmall)
  rw [← hword i hi, h, hword j hj]

/-- The processor and the result array after the first `n` measurements of `probe`. -/
def afterProbes (core : Core σ) (lineSize setCount wayCount buffer : UInt64)
    (s : σ × (UInt64 → UInt32)) (n : ℕ) : σ × (UInt64 → UInt32) :=
  ((probeOrder setCount.toNat wayCount.toNat).take n).foldl
    (measureAt core lineSize setCount wayCount buffer) s

/-- A measurement writes its cell for good, if no other one has the same. -/
theorem foldl_measureAt_getElem (core : Core σ) (lineSize setCount : UInt64) {wayCount : UInt64}
    (buffer : UInt64) {ps : List (ℕ × ℕ)}
    (hnodup : (ps.map fun p => UInt64.ofNat p.1 * wayCount + UInt64.ofNat p.2).Nodup)
    (s : σ × (UInt64 → UInt32)) {k : ℕ} (hk : k < ps.length) :
    (ps.foldl (measureAt core lineSize setCount wayCount buffer) s).2
        (UInt64.ofNat ps[k].1 * wayCount + UInt64.ofNat ps[k].2) =
      (measure core
        (lineAddress lineSize setCount buffer (UInt64.ofNat ps[k].1) (UInt64.ofNat ps[k].2))
        ((ps.take k).foldl (measureAt core lineSize setCount wayCount buffer) s).1).1 := by
  have hsplit : ps = ps.take k ++ ps[k] :: ps.drop (k + 1) := by
    rw [← List.drop_eq_getElem_cons hk, List.take_append_drop]
  have hrest : UInt64.ofNat ps[k].1 * wayCount + UInt64.ofNat ps[k].2 ∉
      (ps.drop (k + 1)).map fun p => UInt64.ofNat p.1 * wayCount + UInt64.ofNat p.2 := by
    rw [hsplit, List.map_append, List.map_cons] at hnodup
    exact (List.nodup_cons.mp (List.nodup_append.mp hnodup).2.1).1
  -- the rewriting is done in the list alone, as `ps[k]` stands in the index too
  refine (congrArg (fun l => (List.foldl (measureAt core lineSize setCount wayCount buffer) s l).2
    (UInt64.ofNat ps[k].1 * wayCount + UInt64.ofNat ps[k].2)) hsplit).trans ?_
  rw [List.foldl_append, List.foldl_cons, foldl_measureAt_of_notMem hrest]
  exact Function.update_self _ _ _

/-! ### The time -/

/-- Between the two readings of a measurement, the counter goes on by `elapsed`. Only its low
half is looked at. -/
def Elapses (core : Core σ) (address : UInt64) (mem : σ) (elapsed : ℕ) : Prop :=
  let (start, mem) := core.rdpmc mem
  let (stop, _) := core.rdpmc (core.load address mem)
  stop.toNat ≡ start.toNat + elapsed [MOD 2 ^ 32]

/-- **The time of a measurement** is right also when the low half of the counter wraps. -/
theorem measure_elapsed {core : Core σ} {address : UInt64} {mem : σ} {elapsed : ℕ}
    (h : Elapses core address mem elapsed) (hlt : elapsed < 2 ^ 32) :
    (measure core address mem).1.toNat = elapsed := by
  have hsub : ∀ start stop : UInt64, stop.toNat ≡ start.toNat + elapsed [MOD 2 ^ 32] →
      (stop.toUInt32 - start.toUInt32).toNat = elapsed := by
    intro start stop hmod
    rw [Nat.ModEq] at hmod
    rw [UInt32.toNat_sub, UInt64.toNat_toUInt32, UInt64.toNat_toUInt32]
    omega
  exact hsub _ _ h

/-! ### The loops -/

/-- **What the loops do**, with lines of at least 8 bytes and a geometry that fits into
`total_size`: they end, both pass over all lines of the buffer, and `probe` writes the result
indices in order, below `total_size / line_size`, each with the time of the line of its set and
way. -/
theorem prime_probe_cover (core : Core σ) (lineSize setCount wayCount totalSize buffer : UInt64)
    (hline : 8 ≤ lineSize.toNat) (hsets : 1 ≤ setCount.toNat) (hways : 1 ≤ wayCount.toNat)
    (hfit : lineSize.toNat * setCount.toNat * wayCount.toNat ≤ totalSize.toNat)
    (htotal : totalSize.toNat < 2 ^ 32) (mem : σ) (result : UInt64 → UInt32) :
    let sets := setCount.toNat
    let ways := wayCount.toNat
    let address := fun p => buffer + UInt64.ofNat (bufferLine sets p * lineSize.toNat)
    let after := afterProbes core lineSize setCount wayCount buffer (mem, result)
    Covers lineSize.toNat sets ways totalSize.toNat (primeOrder sets ways) ∧
    Covers lineSize.toNat sets ways totalSize.toNat (probeOrder sets ways) ∧
    (∀ fuel, sets ≤ fuel → ways ≤ fuel →
      prime core lineSize setCount wayCount buffer fuel mem =
        some (loadAll core ((primeOrder sets ways).map address) mem) ∧
      probe core lineSize setCount wayCount buffer fuel mem result =
        some (after (sets * ways))) ∧
    (probeOrder sets ways).map (resultIndex ways) = List.range (sets * ways) ∧
    sets * ways ≤ totalSize.toNat / lineSize.toNat ∧
    ∀ k < sets * ways, ∃ p, (probeOrder sets ways)[k]? = some p ∧
      after (k + 1) = ((measure core (address p) (after k).1).2, Function.update (after k).2
        (UInt64.ofNat k) (measure core (address p) (after k).1).1) ∧
      ∀ elapsed < 2 ^ 32, Elapses core (address p) (after k).1 elapsed →
        ((after (sets * ways)).2 (UInt64.ofNat k)).toNat = elapsed := by
  intro sets ways address after
  have hcount : sets * ways ≤ totalSize.toNat / lineSize.toNat := by
    rw [Nat.le_div_iff_mul_le (by omega), Nat.mul_comm, ← Nat.mul_assoc]
    exact hfit
  -- neither the counters of the loops nor the result indices wrap
  have hsmall : sets * ways < 2 ^ 32 :=
    hcount.trans_lt ((Nat.div_le_self _ _).trans_lt htotal)
  have hslt : sets < 2 ^ 63 :=
    (Nat.le_mul_of_pos_right sets hways).trans_lt (hsmall.trans (by norm_num))
  have hwlt : ways < 2 ^ 63 :=
    (Nat.le_mul_of_pos_left ways hsets).trans_lt (hsmall.trans (by norm_num))
  have hlength := length_probeOrder sets ways
  have hwhole : after (sets * ways) = (probeOrder sets ways).foldl
      (measureAt core lineSize setCount wayCount buffer) (mem, result) := by
    change List.foldl _ _ (List.take (sets * ways) (probeOrder sets ways)) = _
    rw [List.take_of_length_le hlength.le]
  have haddress : ∀ p : ℕ × ℕ, lineAddress lineSize setCount buffer (UInt64.ofNat p.1)
      (UInt64.ofNat p.2) = address p := lineAddress_eq lineSize setCount buffer
  refine ⟨covers_primeOrder hline hfit, covers_probeOrder hline hfit, fun fuel hsf hwf => ⟨?_, ?_⟩,
    index_probeOrder sets ways, hcount, fun k hk => ?_⟩
  · rw [prime_eq core lineSize setCount wayCount buffer rfl rfl hsets hways hslt hwlt hsf hwf,
      funext haddress]
  · rw [probe_eq core lineSize setCount wayCount buffer rfl rfl hsets hways hslt hwlt hsf hwf,
      hwhole]
  · have hk' : k < (probeOrder sets ways).length := hlength ▸ hk
    refine ⟨_, List.getElem?_eq_getElem hk', ?_, fun elapsed hlt helapses => ?_⟩
    · change List.foldl _ _ (List.take (k + 1) (probeOrder sets ways)) = _
      rw [List.take_succ_eq_append_getElem hk', List.foldl_append, List.foldl_cons, List.foldl_nil,
        measureAt, cell_getElem hk', haddress]
      rfl
    · have hvalue := foldl_measureAt_getElem core lineSize setCount buffer
        (nodup_cells (hsmall.trans (by norm_num))) (mem, result) hk'
      rw [cell_getElem hk', haddress] at hvalue
      rw [hwhole, hvalue]
      exact measure_elapsed helapses hlt

/-- A processor on which each load takes five counts. -/
def fiveCounts : Core UInt64 := ⟨fun _ count => count + 5, fun count => (count, count)⟩

/-- Two sets of two ways, from a count on whose low half is about to wrap. -/
theorem prime_probe_cover_fiveCounts :
    ∃ final, probe fiveCounts 8 2 2 0x1000 2 0x1fffffffe (fun _ => 0) = some final ∧
      ∀ k < 4, (final.2 (UInt64.ofNat k)).toNat = 5 := by
  obtain ⟨-, -, hrun, -, -, hcells⟩ := prime_probe_cover fiveCounts 8 2 2 32 0x1000 (by decide)
    (by decide) (by decide) (by decide) (by decide) 0x1fffffffe fun _ => 0
  refine ⟨_, (hrun 2 le_rfl le_rfl).2, fun k hk => ?_⟩
  obtain ⟨p, -, -, htime⟩ := hcells k hk
  refine htime 5 (by decide) ?_
  change (_ + 5 : UInt64).toNat ≡ _ [MOD 2 ^ 32]
  rw [UInt64.toNat_add]
  exact Nat.mod_mod_of_dvd _ (by decide)

end CacheNoise
