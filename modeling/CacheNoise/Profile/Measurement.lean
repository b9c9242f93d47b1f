import CacheNoise.Alloc.Alignment
import CacheNoise.General.Lru
import CacheNoise.Profile.Assembly

/-!
# What one iteration measures

One iteration of `profile` runs `prime`, gives other programs a chance to run, and runs
`probe`. Here both loops run on a **physically indexed cache with true LRU sets**
(`cacheCore`): a load accesses the line of its physical address in the set of that line
number modulo the number of sets, and takes longer when the line is missing. In between
there are arbitrary accesses to lines outside the buffer.

`prime` leaves the lines of each set on top of the set's recency stack with way 0 as the most
recently used one, since it walks the ways downwards. The other accesses put their distinct
lines above them, and `probe`, which walks the ways **upwards**, meets its lines in stack
order. So `d` distinct lines of other programs in a set cost exactly `min d W` misses there,
in the last ways, and nothing in any other set (`probe_misses`).
-/

namespace CacheNoise

open Lru

/-! ### The processor -/

/-- A cache with the accesses made so far, each with `true` for a miss, and the counter. -/
structure CacheState (W : ℕ) where
  sets : SetAssoc ℕ ℕ W
  log : List (ℕ × Bool)
  cycles : UInt64

/-- What an access costs. -/
structure Latency where
  hit : UInt64
  miss : UInt64

/-- The cycles of an access that misses, or does not. -/
def Latency.cost (latency : Latency) (missed : Bool) : UInt64 :=
  if missed then latency.miss else latency.hit

variable (info : CacheInfo) (phys : ℕ → ℕ) (latency : Latency) (buffer : UInt64)

/-- The cache of a geometry, as `CacheState` sees it. -/
abbrev CacheInfo.State : Type := CacheState info.waysOfAssociativity.toNat

/-- The hardware set of a physical line. -/
def CacheInfo.index (line : ℕ) : ℕ := line % info.setCount.toNat

/-- Access a physical line. -/
def access (line : ℕ) (c : info.State) : info.State :=
  let missed := c.sets.missing info.index line
  { sets := c.sets.touch info.index line
    log := c.log ++ [(line, missed)]
    cycles := c.cycles + latency.cost missed }

/-- Access physical lines one after another. -/
def accessAll (lines : List ℕ) (c : info.State) : info.State :=
  lines.foldl (fun c line => access info latency line c) c

/-- The physical line of an address. -/
def physLine (address : UInt64) : ℕ := phys address.toNat / info.lineSize.toNat

/-- A processor whose loads go through the cache, and whose counter counts their cycles. -/
def cacheCore : Core info.State where
  load address c := access info latency (physLine info phys address) c
  rdpmc c := (c.cycles, c)

/-! ### Accesses -/

section

variable {info phys latency buffer}

theorem accessAll_sets (xs : List ℕ) (c : info.State) :
    (accessAll info latency xs c).sets = c.sets.touchAll info.index xs := by
  induction xs generalizing c with
  | nil => rfl
  | cons x xs ih => exact ih (access info latency x c)

theorem accessAll_log (xs : List ℕ) (c : info.State) :
    (accessAll info latency xs c).log = c.log ++ c.sets.log info.index xs := by
  induction xs generalizing c with
  | nil => exact (List.append_nil _).symm
  | cons x xs ih =>
    refine (ih (access info latency x c)).trans ?_
    rw [SetAssoc.log, access, List.append_assoc, List.singleton_append]

theorem loadAll_cacheCore (addresses : List UInt64) (c : info.State) :
    loadAll (cacheCore info phys latency) addresses c =
      accessAll info latency (addresses.map (physLine info phys)) c := by
  rw [accessAll, List.foldl_map]
  rfl

/-- A measurement accesses the line once and returns the low half of its cost. -/
theorem measure_cacheCore (address : UInt64) (c : info.State) :
    measure (cacheCore info phys latency) address c =
      ((latency.cost (c.sets.missing info.index (physLine info phys address))).toUInt32,
        access info latency (physLine info phys address) c) := by
  have hsub : ∀ a b : UInt64, (a + b).toUInt32 - a.toUInt32 = b.toUInt32 := by
    intro a b
    rw [UInt64.toUInt32_add]
    grind
  exact congrArg₂ Prod.mk (hsub _ _) rfl

/-! ### The measuring loop on the cache -/

/-- The physical line that the loops access for a set and a way. -/
def lineOf (info : CacheInfo) (phys : ℕ → ℕ) (buffer : UInt64) (p : ℕ × ℕ) : ℕ :=
  physLine info phys (lineAddress info.lineSize.toUInt64 info.setCount.toUInt64 buffer
    (UInt64.ofNat p.1) (UInt64.ofNat p.2))

/-- The cell of the result array that `probe` writes for a set and a way. -/
def cellOf (info : CacheInfo) (p : ℕ × ℕ) : UInt64 :=
  UInt64.ofNat p.1 * info.waysOfAssociativity.toUInt64 + UInt64.ofNat p.2

/-- The body of the measuring loop, on the cache. -/
def measureLine (info : CacheInfo) (phys : ℕ → ℕ) (latency : Latency) (buffer : UInt64) :
    info.State × (UInt64 → UInt32) → ℕ × ℕ → info.State × (UInt64 → UInt32) :=
  measureAt (cacheCore info phys latency) info.lineSize.toUInt64 info.setCount.toUInt64
    info.waysOfAssociativity.toUInt64 buffer

theorem measureLine_eq (s : info.State × (UInt64 → UInt32)) (p : ℕ × ℕ) :
    measureLine info phys latency buffer s p =
      (access info latency (lineOf info phys buffer p) s.1,
        Function.update s.2 (cellOf info p) (latency.cost
          (s.1.sets.missing info.index (lineOf info phys buffer p))).toUInt32) := by
  simp only [measureLine, measureAt, measure_cacheCore]
  rfl

theorem foldl_measureLine_fst (ps : List (ℕ × ℕ)) (s : info.State × (UInt64 → UInt32)) :
    (ps.foldl (measureLine info phys latency buffer) s).1 =
      accessAll info latency (ps.map (lineOf info phys buffer)) s.1 := by
  induction ps generalizing s with
  | nil => rfl
  | cons p ps ih =>
    rw [List.foldl_cons, ih, measureLine_eq]
    rfl

/-- Over distinct lines and cells, the loop leaves in each cell the cost of its access. -/
theorem foldl_measureLine_snd {ps : List (ℕ × ℕ)} (hcell : (ps.map (cellOf info)).Nodup)
    (hline : (ps.map (lineOf info phys buffer)).Nodup) (s : info.State × (UInt64 → UInt32))
    {p : ℕ × ℕ} (hp : p ∈ ps) {missed : Bool}
    (hlog : (lineOf info phys buffer p, missed) ∈
      s.1.sets.log info.index (ps.map (lineOf info phys buffer))) :
    (ps.foldl (measureLine info phys latency buffer) s).2 (cellOf info p) =
      (latency.cost missed).toUInt32 := by
  induction ps generalizing s with
  | nil => simp at hp
  | cons q ps ih =>
    obtain ⟨hqcell, hcell⟩ := List.nodup_cons.mp hcell
    obtain ⟨hqline, hline⟩ := List.nodup_cons.mp hline
    rw [List.map_cons, SetAssoc.log] at hlog
    rw [List.foldl_cons]
    rcases List.mem_cons.mp hp with rfl | hp
    · -- the access of `p` itself: later ones leave the cell alone
      have hmissed : missed = s.1.sets.missing info.index (lineOf info phys buffer p) := by
        rcases List.mem_cons.mp hlog with heq | hmem
        · exact (Prod.mk.inj heq).2
        · exact absurd (SetAssoc.mem_of_mem_log _ hmem) hqline
      refine (foldl_measureAt_of_notMem hqcell _).trans ?_
      rw [measureLine_eq, hmissed]
      exact Function.update_self _ _ _
    · refine ih hcell hline _ hp ?_
      rw [measureLine_eq]
      rcases List.mem_cons.mp hlog with heq | hmem
      · exact absurd ((Prod.mk.inj heq).1 ▸ List.mem_map_of_mem hp) hqline
      · exact hmem

/-! ### The accesses of one set -/

/-- The line of a set and a way is the buffer line at their offset. -/
theorem lineOf_eq (hplaced : Placed phys info buffer) {set way : ℕ}
    (hs : set < info.setCount.toNat) (hw : way < info.waysOfAssociativity.toNat) :
    lineOf info phys buffer (set, way) =
      phys (buffer.toNat + info.offset set way) / info.lineSize.toNat := by
  have hline := CacheInfo.line_lt hs hw
  have hfits := hplaced.fits
  have hend : buffer.toNat + info.offset set way < 2 ^ 64 := by
    rcases Nat.eq_zero_or_pos info.lineSize.toNat with hzero | hpos
    · rw [CacheInfo.offset, hzero, Nat.mul_zero]
      exact buffer.toNat_lt
    · have := Nat.mul_lt_mul_of_pos_right hline hpos
      rw [CacheInfo.offset]
      omega
  have haddress : (lineAddress info.lineSize.toUInt64 info.setCount.toUInt64 buffer
      (UInt64.ofNat set) (UInt64.ofNat way)).toNat = buffer.toNat + info.offset set way := by
    simp only [lineAddress, UInt64.toNat_add, UInt64.toNat_mul, UInt64.toNat_ofNat',
      UInt32.toNat_toUInt64, Nat.add_mod_mod, Nat.mod_add_mod, Nat.mod_mul_mod]
    exact Nat.mod_eq_of_lt hend
  rw [lineOf, physLine, haddress]

/-- The line of a set and a way lies in that set. -/
theorem index_lineOf (hplaced : Placed phys info buffer) {set way : ℕ}
    (hs : set < info.setCount.toNat) (hw : way < info.waysOfAssociativity.toNat) :
    info.index (lineOf info phys buffer (set, way)) = set := by
  have hmod := hplaced.line_mod _ (CacheInfo.line_lt hs hw)
  rw [Nat.mul_add_mod', Nat.mod_eq_of_lt hs] at hmod
  rw [lineOf_eq hplaced hs hw]
  exact hmod

theorem lineOf_inj (hplaced : Placed phys info buffer) {p q : ℕ × ℕ}
    (hp : p.1 < info.setCount.toNat ∧ p.2 < info.waysOfAssociativity.toNat)
    (hq : q.1 < info.setCount.toNat ∧ q.2 < info.waysOfAssociativity.toNat)
    (h : lineOf info phys buffer p = lineOf info phys buffer q) : p = q := by
  obtain ⟨set, way⟩ := p
  obtain ⟨set', way'⟩ := q
  have hset : set = set' := by
    calc set = info.index (lineOf info phys buffer (set, way)) :=
          (index_lineOf hplaced hp.1 hp.2).symm
      _ = set' := by rw [h, index_lineOf hplaced hq.1 hq.2]
  subst hset
  rw [lineOf_eq hplaced hp.1 hp.2, lineOf_eq hplaced hq.1 hq.2] at h
  have hline := hplaced.line_inj _ (CacheInfo.line_lt hp.1 hp.2) _ (CacheInfo.line_lt hq.1 hq.2) h
  refine Prod.ext rfl (Nat.eq_of_mul_eq_mul_right ?_ (Nat.add_right_cancel hline))
  exact Nat.lt_of_le_of_lt (Nat.zero_le _) hp.1

theorem cellOf_eq (set way : ℕ) :
    cellOf info (set, way) = UInt64.ofNat (set * info.waysOfAssociativity.toNat + way) := by
  rw [cellOf, UInt64.ofNat_add, UInt64.ofNat_mul]
  refine congrArg (fun w => UInt64.ofNat set * w + UInt64.ofNat way) (UInt64.toNat_inj.mp ?_)
  have := info.waysOfAssociativity.toNat_lt
  rw [UInt32.toNat_toUInt64, UInt64.toNat_ofNat', Nat.mod_eq_of_lt (by omega)]

theorem cellOf_inj {p q : ℕ × ℕ}
    (hp : p.1 < info.setCount.toNat ∧ p.2 < info.waysOfAssociativity.toNat)
    (hq : q.1 < info.setCount.toNat ∧ q.2 < info.waysOfAssociativity.toNat)
    (h : cellOf info p = cellOf info q) : p = q := by
  have hnat : ∀ p : ℕ × ℕ, p.1 < info.setCount.toNat ∧ p.2 < info.waysOfAssociativity.toNat →
      (cellOf info p).toNat = p.1 * info.waysOfAssociativity.toNat + p.2 := by
    rintro ⟨set, way⟩ ⟨hs, hw⟩
    have hS := info.setCount.toNat_lt
    have hW := info.waysOfAssociativity.toNat_lt
    have hlt : set * info.waysOfAssociativity.toNat + way < 2 ^ 64 := by
      calc set * info.waysOfAssociativity.toNat + way
          < (set + 1) * info.waysOfAssociativity.toNat := by
            rw [Nat.succ_mul]
            omega
        _ ≤ 2 ^ 32 * 2 ^ 32 := Nat.mul_le_mul (by omega) (by omega)
        _ = 2 ^ 64 := by norm_num
    rw [cellOf_eq, UInt64.toNat_ofNat', Nat.mod_eq_of_lt hlt]
  have heq := congrArg UInt64.toNat h
  rw [hnat p hp, hnat q hq] at heq
  have hset : p.1 = q.1 := by
    have hdiv := congrArg (· / info.waysOfAssociativity.toNat) heq
    simp only [Nat.mul_comm _ info.waysOfAssociativity.toNat] at hdiv
    rwa [Nat.mul_add_div (by omega), Nat.mul_add_div (by omega), Nat.div_eq_of_lt hp.2,
      Nat.div_eq_of_lt hq.2] at hdiv
  refine Prod.ext hset ?_
  rw [hset] at heq
  exact Nat.add_left_cancel heq

end

/-! ### Orders -/

theorem mem_probeOrder {sets ways : ℕ} {p : ℕ × ℕ} :
    p ∈ probeOrder sets ways ↔ p.1 < sets ∧ p.2 < ways := by
  obtain ⟨set, way⟩ := p
  simp [probeOrder]

theorem mem_primeOrder {sets ways : ℕ} {p : ℕ × ℕ} :
    p ∈ primeOrder sets ways ↔ p.1 < sets ∧ p.2 < ways := by
  obtain ⟨set, way⟩ := p
  simp [primeOrder]

theorem probeOrder_nodup (sets ways : ℕ) : (probeOrder sets ways).Nodup := by
  have h := (List.nodup_range (n := sets)).product (List.nodup_range (n := ways))
  exact h

/-- The visits of one set, in a pass over all sets. -/
private theorem filter_flatMap_range (row : List ℕ) (sets : ℕ) {set : ℕ} (hs : set < sets) :
    ((List.range sets).flatMap fun s => row.map fun way => (s, way)).filter
      (fun p => p.1 = set) = row.map fun way => (set, way) := by
  have hrow : ∀ s, (row.map fun way => (s, way)).filter (fun p => p.1 = set) =
      if s = set then row.map fun way => (set, way) else [] := by
    intro s
    rw [List.filter_map]
    by_cases h : s = set <;> simp [Function.comp_def, h]
  induction sets with
  | zero => omega
  | succ sets ih =>
    rw [List.range_succ, List.flatMap_append, List.flatMap_singleton, List.filter_append, hrow]
    rcases Nat.lt_succ_iff_lt_or_eq.mp hs with hlt | rfl
    · rw [ih hlt, if_neg (by omega), List.append_nil]
    · rw [if_pos rfl, List.filter_flatMap]
      have hnil : ((List.range set).flatMap fun s =>
          (row.map fun way => (s, way)).filter fun p => p.1 = set) = [] := by
        refine List.flatMap_eq_nil_iff.mpr fun s hs => ?_
        rw [hrow, if_neg (by have := List.mem_range.mp hs; omega)]
      rw [hnil, List.nil_append]

/-! ### The measurement -/

/-- The last `m` of `n` ways. -/
private theorem countP_last_ways {n m : ℕ} (h : m ≤ n) :
    (List.range n).countP (fun way => decide (n - m ≤ way)) = m := by
  obtain ⟨k, rfl⟩ : ∃ k, n = k + m := ⟨n - m, by omega⟩
  have hfirst : (List.range k).countP (fun way => decide (k + m - m ≤ way)) = 0 :=
    List.countP_eq_zero.mpr fun way hway => by
      have := List.mem_range.mp hway
      simpa using this
  have hlast : ((List.range m).map (k + ·)).countP (fun way => decide (k + m - m ≤ way)) = m := by
    rw [List.countP_map]
    conv_rhs => rw [← List.length_range (n := m)]
    exact List.countP_eq_length.mpr fun way _ => by simp
  rw [List.range_add, List.countP_append, hfirst, hlast, Nat.zero_add]

section

variable {info phys latency buffer}

/-- The number of distinct lines among `others` that lie in a set. -/
def distinctIn (info : CacheInfo) (others : List ℕ) (set : ℕ) : ℕ :=
  (others.filter fun line => info.index line = set).toFinset.card

/-- The lines of one set, in a pass with the ways in the order `row`. -/
private theorem filter_lines (hplaced : Placed phys info buffer) (row : List ℕ)
    (hrow : ∀ way ∈ row, way < info.waysOfAssociativity.toNat) {set : ℕ}
    (hs : set < info.setCount.toNat) :
    (((List.range info.setCount.toNat).flatMap fun s => row.map fun way => (s, way)).map
      (lineOf info phys buffer)).filter (fun line => info.index line = set) =
        row.map fun way => lineOf info phys buffer (set, way) := by
  have hsets : ∀ p ∈ (List.range info.setCount.toNat).flatMap fun s => row.map fun way => (s, way),
      ((fun line => decide (info.index line = set)) ∘ lineOf info phys buffer) p =
        decide (p.1 = set) := by
    rintro ⟨s, way⟩ hp
    obtain ⟨hs', hway⟩ : s < info.setCount.toNat ∧ way ∈ row := by simpa using hp
    change decide (info.index (lineOf info phys buffer (s, way)) = set) = decide (s = set)
    rw [index_lineOf hplaced hs' (hrow way hway)]
  rw [List.filter_map, List.filter_congr hsets, filter_flatMap_range row _ hs, List.map_map]
  rfl

/-- The hits and misses of the measuring loop in one set, after `prime` and other accesses. -/
private theorem log_set (hplaced : Placed phys info buffer)
    (c : SetAssoc ℕ ℕ info.waysOfAssociativity.toNat) {others : List ℕ}
    (hothers : ∀ line ∈ others, ∀ j < info.lines,
      line ≠ phys (buffer.toNat + j * info.lineSize.toNat) / info.lineSize.toNat)
    {set : ℕ} (hs : set < info.setCount.toNat) :
    (((c.touchAll info.index
      ((primeOrder info.setCount.toNat info.waysOfAssociativity.toNat).map
        (lineOf info phys buffer))).touchAll info.index others).log info.index
      ((probeOrder info.setCount.toNat info.waysOfAssociativity.toNat).map
        (lineOf info phys buffer))).filter (fun e => info.index e.1 = set) =
      (List.range info.waysOfAssociativity.toNat).map fun way =>
        (lineOf info phys buffer (set, way), decide (info.waysOfAssociativity.toNat -
          min (distinctIn info others set) info.waysOfAssociativity.toNat ≤ way)) := by
  set ways := info.waysOfAssociativity.toNat with hways
  have hprime := filter_lines hplaced (List.range ways).reverse
    (fun way hway => by simpa using hway) hs
  have hprobe := filter_lines hplaced (List.range ways)
    (fun way hway => by simpa using hway) hs
  have hnodup : ((List.range ways).map fun way => lineOf info phys buffer (set, way)).Nodup := by
    refine List.Nodup.map_on (fun w hw v hv heq => ?_) List.nodup_range
    have := lineOf_inj hplaced (p := (set, w)) (q := (set, v))
      ⟨hs, List.mem_range.mp hw⟩ ⟨hs, List.mem_range.mp hv⟩ heq
    exact (Prod.mk.inj this).2
  have hfresh : ∀ line ∈ (List.range ways).map fun way => lineOf info phys buffer (set, way),
      line ∉ others.filter fun line => info.index line = set := by
    intro line hline hmem
    obtain ⟨way, hway, rfl⟩ := List.mem_map.mp hline
    have hway := List.mem_range.mp hway
    exact hothers _ (List.mem_of_mem_filter hmem) _ (CacheInfo.line_lt hs hway)
      (lineOf_eq hplaced hs hway)
  rw [SetAssoc.log_filter, SetAssoc.touchAll_apply, SetAssoc.touchAll_apply, primeOrder, hprime,
    probeOrder, hprobe, List.map_reverse, LruSet.log_reverse_then _ hnodup hfresh]
  refine List.ext_getElem (by simp [hways]) fun way h₁ h₂ => ?_
  have hway : way < ways := by simpa using h₂
  simp only [List.getElem_map, List.getElem_zipIdx, List.getElem_range, Prod.mk.injEq, true_and,
    decide_eq_decide, distinctIn]
  omega

/-- **What one iteration measures.** Let the buffer be placed as an accepted one is, with
anything in the cache, and let `others` be any accesses outside the buffer between `prime` and
`probe`. Then `probe` accesses the ways of each set in order, and of the `W` accesses to a set
in which `d` distinct other lines lie, exactly the last `min d W` miss: the row of the set
holds the cost of a miss in these ways and of a hit in the others. -/
theorem probe_misses (info : CacheInfo) (phys : ℕ → ℕ) (latency : Latency) (buffer : UInt64)
    (hS : 0 < info.setCount.toNat) (hW : 0 < info.waysOfAssociativity.toNat)
    (hplaced : Placed phys info buffer) (c : info.State) (others : List ℕ)
    (hothers : ∀ line ∈ others, ∀ j < info.lines,
      line ≠ phys (buffer.toNat + j * info.lineSize.toNat) / info.lineSize.toNat)
    (result : UInt64 → UInt32) (fuel : ℕ) (hsf : info.setCount.toNat ≤ fuel)
    (hwf : info.waysOfAssociativity.toNat ≤ fuel) :
    ∃ c₁ c₂ result' log,
      prime (cacheCore info phys latency) info.lineSize.toUInt64 info.setCount.toUInt64
        info.waysOfAssociativity.toUInt64 buffer fuel c = some c₁ ∧
      probe (cacheCore info phys latency) info.lineSize.toUInt64 info.setCount.toUInt64
        info.waysOfAssociativity.toUInt64 buffer fuel (accessAll info latency others c₁) result =
          some (c₂, result') ∧
      c₂.log = (accessAll info latency others c₁).log ++ log ∧
      ∀ set < info.setCount.toNat,
        let missing := min (distinctIn info others set) info.waysOfAssociativity.toNat
        let missed := fun way => decide (info.waysOfAssociativity.toNat - missing ≤ way)
        log.filter (fun e => info.index e.1 = set) =
          (List.range info.waysOfAssociativity.toNat).map (fun way =>
            (phys (buffer.toNat + info.offset set way) / info.lineSize.toNat, missed way)) ∧
        (log.filter fun e => info.index e.1 = set).countP (fun e => e.2) = missing ∧
        ∀ way < info.waysOfAssociativity.toNat,
          result' (UInt64.ofNat (set * info.waysOfAssociativity.toNat + way)) =
            (latency.cost (missed way)).toUInt32 := by
  set sets := info.setCount.toNat with hsets
  set ways := info.waysOfAssociativity.toNat with hways
  have hsets' : info.setCount.toUInt64.toNat = sets := UInt32.toNat_toUInt64 _
  have hways' : info.waysOfAssociativity.toUInt64.toNat = ways := UInt32.toNat_toUInt64 _
  have hslt : sets < 2 ^ 63 := info.setCount.toNat_lt.trans (by norm_num)
  have hwlt : ways < 2 ^ 63 := info.waysOfAssociativity.toNat_lt.trans (by norm_num)
  have hprime := prime_eq (cacheCore info phys latency) info.lineSize.toUInt64
    info.setCount.toUInt64 info.waysOfAssociativity.toUInt64 buffer hsets' hways' hS hW hslt hwlt
    hsf hwf c
  rw [loadAll_cacheCore, List.map_map] at hprime
  set c₁ := accessAll info latency ((primeOrder sets ways).map (lineOf info phys buffer)) c with hc₁
  have hprobe := probe_eq (cacheCore info phys latency) info.lineSize.toUInt64
    info.setCount.toUInt64 info.waysOfAssociativity.toUInt64 buffer hsets' hways' hS hW hslt hwlt
    hsf hwf (accessAll info latency others c₁) result
  set log := (accessAll info latency others c₁).sets.log info.index
    ((probeOrder sets ways).map (lineOf info phys buffer)) with hlog
  have hsetLog : ∀ set < sets, log.filter (fun e => info.index e.1 = set) =
      (List.range ways).map fun way => (lineOf info phys buffer (set, way),
        decide (ways - min (distinctIn info others set) ways ≤ way)) := by
    intro set hs
    rw [hlog, accessAll_sets, hc₁, accessAll_sets]
    exact log_set hplaced c.sets hothers hs
  refine ⟨c₁, _, _, log, hprime, hprobe, ?_, fun set hs => ⟨?_, ?_, fun way hway => ?_⟩⟩
  · exact (congrArg CacheState.log (foldl_measureLine_fst _ _)).trans (accessAll_log _ _)
  · rw [hsetLog set hs]
    exact List.map_congr_left fun way hway => by
      rw [lineOf_eq hplaced hs (List.mem_range.mp hway)]
  · rw [hsetLog set hs, List.countP_map]
    exact countP_last_ways (Nat.min_le_right _ _)
  · -- the cell of the way was written by its own access, which is in the log of the set
    have hmem : (lineOf info phys buffer (set, way),
        decide (ways - min (distinctIn info others set) ways ≤ way)) ∈ log := by
      refine List.mem_of_mem_filter (p := fun e => decide (info.index e.1 = set)) ?_
      rw [hsetLog set hs]
      exact List.mem_map_of_mem (List.mem_range.mpr hway)
    rw [← cellOf_eq]
    refine foldl_measureLine_snd ?_ ?_ (accessAll info latency others c₁, result)
      (mem_probeOrder.mpr ⟨hs, hway⟩) hmem
    · exact (probeOrder_nodup sets ways).map_on fun p hp q hq =>
        cellOf_inj (mem_probeOrder.mp hp) (mem_probeOrder.mp hq)
    · exact (probeOrder_nodup sets ways).map_on fun p hp q hq =>
        lineOf_inj hplaced (mem_probeOrder.mp hp) (mem_probeOrder.mp hq)

/-- A cache without lines, at the start of the counter. -/
def emptyCache (info : CacheInfo) : info.State :=
  { sets := fun _ => ⟨[], List.nodup_nil, Nat.zero_le _⟩, log := [], cycles := 0 }

/-- Two lines of another program in set 5 of the 4 MiB cache, one of them accessed twice, cost
a miss in each of the last two ways. -/
theorem probe_misses_fourMiB :
    ∃ c₁ c₂ result,
      prime (cacheCore fourMiBCache identityMachine.phys ⟨4, 40⟩) 64 4096 16 0x800000 4096
        (emptyCache fourMiBCache) = some c₁ ∧
      probe (cacheCore fourMiBCache identityMachine.phys ⟨4, 40⟩) 64 4096 16 0x800000 4096
        (accessAll fourMiBCache ⟨4, 40⟩ [5, 4101, 5, 6] c₁) (fun _ => 0) = some (c₂, result) ∧
      result 93 = 4 ∧ result 94 = 40 ∧ result 95 = 40 := by
  obtain ⟨c₁, c₂, result, log, hprime, hprobe, -, hsets⟩ := probe_misses fourMiBCache
    identityMachine.phys ⟨4, 40⟩ 0x800000 (by decide) (by decide)
    (Placed.ofAccepted fourMiBCache_consistent (by decide) fourMiBBuffer testAlignment_fourMiB)
    (emptyCache fourMiBCache) [5, 4101, 5, 6] (fun line hline j hj => by
      change j < 65536 at hj
      change line ≠ (0x800000 + j * 64) % 2 ^ 52 / 64
      have : line ≤ 4101 := by
        revert line
        decide
      omega)
    (fun _ => 0) 4096 (by decide) (by decide)
  obtain ⟨-, -, hrow⟩ := hsets 5 (by decide)
  exact ⟨c₁, c₂, result, hprime, hprobe, hrow 13 (by decide), hrow 14 (by decide),
    hrow 15 (by decide)⟩

end

end CacheNoise
