import CacheNoise.General.Iteration
import CacheNoise.SysInfo

/-!
# The assembly loops `prime` and `probe`

Both loops are embedded instruction by instruction over their registers, as 64-bit words with
signed jumps, and over a processor `Core` of which they use the 8-byte load and `rdpmc`.
Neither the fences nor `cpuid`, which order the accesses, change what is computed.

The two closed forms are `prime_eq` and `probe_eq`: with at least one set and one way both
loops end, `prime` loads the lines set by set from the last way **down to** way 0, and `probe`
measures them set by set from way 0 **up**, writing the time of way `w` of set `s` at index
`s * way_count + w`. The addresses are those of `lineAddress`; nothing is assumed about the
size of the buffer, since both sides of the equations compute modulo `2 ^ 64`.
-/

namespace CacheNoise

variable {σ : Type}

/-- The processor as the loops see it. `rdpmc` reads the 64-bit cycle counter. -/
structure Core (σ : Type) where
  load : UInt64 → σ → σ
  rdpmc : σ → UInt64 × σ

/-- The signed comparison behind `jl` and `jnl`. -/
def signedLt (a b : UInt64) : Bool := a.toBitVec.slt b.toBitVec

/-! ### `prime` -/

/-- The registers of `prime`, with the state of the processor. -/
structure PrimeState (σ : Type) where
  bufferOffset : UInt64
  set : UInt64
  way : UInt64
  mem : σ

/-- `primeinnerloop`, without its jump. -/
def primeInner (core : Core σ) (lineSize setCount buffer : UInt64) (r : PrimeState σ) :
    PrimeState σ :=
  let bufferOffset := r.bufferOffset ^^^ r.bufferOffset
  let bufferOffset := bufferOffset + r.way
  let bufferOffset := bufferOffset * setCount
  let bufferOffset := bufferOffset + r.set
  let bufferOffset := bufferOffset * lineSize
  { bufferOffset, set := r.set, way := r.way - 1, mem := core.load (buffer + bufferOffset) r.mem }

/-- `primeouterloop`, without its jump. -/
def primeOuter (core : Core σ) (lineSize setCount wayCount buffer : UInt64) (fuel : ℕ)
    (r : PrimeState σ) : Option (PrimeState σ) :=
  (Iteration.doWhile (fun r => some (primeInner core lineSize setCount buffer r))
    (fun r => !signedLt r.way 0) fuel { r with way := wayCount - 1 }).map
      fun r => { r with set := r.set + 1 }

/-- `prime`. Its argument `total_size` is not used by the loop. -/
def prime (core : Core σ) (lineSize setCount wayCount buffer : UInt64) (fuel : ℕ) (mem : σ) :
    Option σ :=
  (Iteration.doWhile (primeOuter core lineSize setCount wayCount buffer fuel)
    (fun r => signedLt r.set setCount) fuel ⟨0, 0, 0, mem⟩).map PrimeState.mem

/-! ### `probe` -/

/-- The registers of `probe`, with the state of the processor and the result array. -/
structure ProbeState (σ : Type) where
  bufferOffset : UInt64
  resultIndex : UInt64
  set : UInt64
  way : UInt64
  mem : σ
  result : UInt64 → UInt32

/-- The measurement: two counter readings around a load, and the difference of their low
halves. -/
def measure (core : Core σ) (address : UInt64) (mem : σ) : UInt32 × σ :=
  let (start, mem) := core.rdpmc mem
  let mem := core.load address mem
  let (stop, mem) := core.rdpmc mem
  (stop.toUInt32 - start.toUInt32, mem)

/-- `innerloop`, without its jump. -/
def probeInner (core : Core σ) (lineSize setCount buffer : UInt64) (r : ProbeState σ) :
    ProbeState σ :=
  let bufferOffset := r.bufferOffset ^^^ r.bufferOffset
  let bufferOffset := bufferOffset + r.way
  let bufferOffset := bufferOffset * setCount
  let bufferOffset := bufferOffset + r.set
  let bufferOffset := bufferOffset * lineSize
  let (eax, mem) := measure core (buffer + bufferOffset) r.mem
  { bufferOffset, set := r.set, mem
    result := Function.update r.result r.resultIndex eax
    way := r.way + 1
    resultIndex := r.resultIndex + 1 }

/-- `outerloop`, without its jump. -/
def probeOuter (core : Core σ) (lineSize setCount wayCount buffer : UInt64) (fuel : ℕ)
    (r : ProbeState σ) : Option (ProbeState σ) :=
  (Iteration.doWhile (fun r => some (probeInner core lineSize setCount buffer r))
    (fun r => signedLt r.way wayCount) fuel { r with way := r.way ^^^ r.way }).map
      fun r => { r with set := r.set + 1 }

/-- `probe`. -/
def probe (core : Core σ) (lineSize setCount wayCount buffer : UInt64) (fuel : ℕ) (mem : σ)
    (result : UInt64 → UInt32) : Option (σ × (UInt64 → UInt32)) :=
  (Iteration.doWhile (probeOuter core lineSize setCount wayCount buffer fuel)
    (fun r => signedLt r.set setCount) fuel ⟨0, 0, 0, 0, mem, result⟩).map
      fun r => (r.mem, r.result)

/-! ### Signed comparisons of small words -/

private theorem toInt_toBitVec {a : UInt64} (h : a.toNat < 2 ^ 63) :
    a.toBitVec.toInt = (a.toNat : ℤ) := by
  rw [BitVec.toInt_eq_toNat_cond, if_pos (by change 2 * a.toNat < 2 ^ 64; omega)]
  rfl

/-- Below `2 ^ 63` the signed comparison is the unsigned one. -/
theorem signedLt_eq {a b : UInt64} (ha : a.toNat < 2 ^ 63) (hb : b.toNat < 2 ^ 63) :
    signedLt a b = decide (a.toNat < b.toNat) := by
  rw [signedLt, BitVec.slt_eq_decide, toInt_toBitVec ha, toInt_toBitVec hb]
  exact decide_eq_decide.mpr Nat.cast_lt

/-- From `2 ^ 63` on a word is negative. -/
theorem signedLt_zero {a : UInt64} (ha : 2 ^ 63 ≤ a.toNat) : signedLt a 0 = true := by
  have h : (0 : UInt64).toBitVec = 0#64 := rfl
  rw [signedLt, h, BitVec.slt_zero_eq_msb, BitVec.msb_eq_decide]
  exact decide_eq_true ha

/-! ### Closed forms -/

/-- The address that the loops access for a set and a way. -/
def lineAddress (lineSize setCount buffer set way : UInt64) : UInt64 :=
  buffer + (way * setCount + set) * lineSize

/-- Load addresses one after another. -/
def loadAll (core : Core σ) (addresses : List UInt64) (mem : σ) : σ :=
  addresses.foldl (fun mem a => core.load a mem) mem

theorem loadAll_append (core : Core σ) (as bs : List UInt64) (mem : σ) :
    loadAll core (as ++ bs) mem = loadAll core bs (loadAll core as mem) :=
  List.foldl_append

/-- The sets and ways that `prime` visits, in order. -/
def primeOrder (sets ways : ℕ) : List (ℕ × ℕ) :=
  (List.range sets).flatMap fun set => (List.range ways).reverse.map fun way => (set, way)

/-- The sets and ways that `probe` visits, in order. -/
def probeOrder (sets ways : ℕ) : List (ℕ × ℕ) :=
  (List.range sets).flatMap fun set => (List.range ways).map fun way => (set, way)

theorem primeOrder_succ (sets ways : ℕ) :
    primeOrder (sets + 1) ways =
      primeOrder sets ways ++ (List.range ways).reverse.map fun way => (sets, way) := by
  rw [primeOrder, List.range_succ, List.flatMap_append, List.flatMap_singleton]
  rfl

theorem probeOrder_succ (sets ways : ℕ) :
    probeOrder (sets + 1) ways =
      probeOrder sets ways ++ (List.range ways).map fun way => (sets, way) := by
  rw [probeOrder, List.range_succ, List.flatMap_append, List.flatMap_singleton]
  rfl

/-- Measure the line of a set and a way, and write the time at its index. -/
def measureAt (core : Core σ) (lineSize setCount wayCount buffer : UInt64)
    (s : σ × (UInt64 → UInt32)) (p : ℕ × ℕ) : σ × (UInt64 → UInt32) :=
  let (time, mem) := measure core
    (lineAddress lineSize setCount buffer (UInt64.ofNat p.1) (UInt64.ofNat p.2)) s.1
  (mem, Function.update s.2 (UInt64.ofNat p.1 * wayCount + UInt64.ofNat p.2) time)

/-- Measurements leave the cells of other indices alone. -/
theorem foldl_measureAt_of_notMem {core : Core σ} {lineSize setCount wayCount buffer cell : UInt64}
    {ps : List (ℕ × ℕ)}
    (h : cell ∉ ps.map fun p => UInt64.ofNat p.1 * wayCount + UInt64.ofNat p.2)
    (s : σ × (UInt64 → UInt32)) :
    (ps.foldl (measureAt core lineSize setCount wayCount buffer) s).2 cell = s.2 cell := by
  induction ps generalizing s with
  | nil => rfl
  | cons p ps ih =>
    obtain ⟨hp, hps⟩ := not_or.mp (List.mem_cons.not.mp h)
    rw [List.foldl_cons, ih hps]
    exact Function.update_of_ne hp _ _

section

variable (core : Core σ) (lineSize setCount wayCount buffer : UInt64)

@[simp]
theorem primeInner_way (r : PrimeState σ) :
    (primeInner core lineSize setCount buffer r).way = r.way - 1 := rfl

@[simp]
theorem primeInner_set (r : PrimeState σ) :
    (primeInner core lineSize setCount buffer r).set = r.set := rfl

@[simp]
theorem primeInner_mem (r : PrimeState σ) :
    (primeInner core lineSize setCount buffer r).mem =
      core.load (lineAddress lineSize setCount buffer r.set r.way) r.mem := by
  simp [primeInner, lineAddress]

/-- `primeouterloop` loads the lines of one set from the last way down to way 0. -/
private theorem primeOuter_eq {ways : ℕ} (hways : wayCount.toNat = ways) (hpos : 0 < ways)
    (hlt : ways < 2 ^ 63) {fuel : ℕ} (hfuel : ways ≤ fuel) (r : PrimeState σ) :
    ∃ r', primeOuter core lineSize setCount wayCount buffer fuel r = some r' ∧
      r'.set = r.set + 1 ∧
      r'.mem = loadAll core ((List.range ways).reverse.map fun way =>
        lineAddress lineSize setCount buffer r.set (UInt64.ofNat way)) r.mem := by
  have hcount : wayCount = UInt64.ofNat ways := by rw [← hways, UInt64.ofNat_toNat]
  have hrev : (List.range ways).reverse = (List.range ways).map fun k => ways - 1 - k := by
    conv_lhs => rw [List.range_eq_range', List.reverse_range']
    simp
  -- the way register counts down to way 0, and to -1 after the last pass
  obtain ⟨r', hrun, -, hset, hmem⟩ := Iteration.doWhile_count
    (f := fun r => some (primeInner core lineSize setCount buffer r))
    (c := fun r => !signedLt r.way 0)
    (fun k q => q.way + 1 = UInt64.ofNat (ways - k) ∧ q.set = r.set ∧
      q.mem = loadAll core ((List.range k).map fun i =>
        lineAddress lineSize setCount buffer r.set (UInt64.ofNat (ways - 1 - i))) r.mem)
    hpos
    (fun k hk q hq => by
      obtain ⟨hway, hset, hmem⟩ := hq
      have hcur : q.way = UInt64.ofNat (ways - 1 - k) := by
        have hsucc : UInt64.ofNat (ways - k) = UInt64.ofNat (ways - 1 - k) + 1 := by
          rw [← UInt64.ofNat_one, ← UInt64.ofNat_add]
          exact congrArg _ (by omega)
        rw [hsucc] at hway
        grind
      refine ⟨_, rfl, ⟨?_, hset, ?_⟩, ?_⟩
      · rw [primeInner_way, hcur, show ways - (k + 1) = ways - 1 - k by omega]
        grind
      · rw [primeInner_mem, hmem, hset, hcur, List.range_succ, List.map_append, loadAll_append]
        rfl
      · rw [primeInner_way, hcur]
        rcases Nat.lt_or_ge (k + 1) ways with hmore | hlast
        · have hpred : UInt64.ofNat (ways - 1 - k) - 1 = UInt64.ofNat (ways - 2 - k) := by
            rw [show ways - 1 - k = ways - 2 - k + 1 by omega, UInt64.ofNat_add, UInt64.ofNat_one]
            grind
          rw [hpred, signedLt_eq (by rw [UInt64.toNat_ofNat']; omega) (by simp),
            decide_eq_true hmore]
          simp
        · rw [show ways - 1 - k = 0 by omega, signedLt_zero (by decide),
            decide_eq_false (by omega)]
          rfl)
    (s := { r with way := wayCount - 1 })
    ⟨by rw [hcount, Nat.sub_zero]; grind, rfl, rfl⟩ hfuel
  refine ⟨{ r' with set := r'.set + 1 }, congrArg (Option.map _) hrun, congrArg (· + 1) hset, ?_⟩
  rw [hrev, List.map_map]
  exact hmem

/-- **`prime` in closed form.** -/
theorem prime_eq {sets ways : ℕ} (hsets : setCount.toNat = sets) (hways : wayCount.toNat = ways)
    (hspos : 0 < sets) (hwpos : 0 < ways) (hslt : sets < 2 ^ 63) (hwlt : ways < 2 ^ 63)
    {fuel : ℕ} (hsf : sets ≤ fuel) (hwf : ways ≤ fuel) (mem : σ) :
    prime core lineSize setCount wayCount buffer fuel mem =
      some (loadAll core ((primeOrder sets ways).map fun p =>
        lineAddress lineSize setCount buffer (UInt64.ofNat p.1) (UInt64.ofNat p.2)) mem) := by
  obtain ⟨r', hrun, -, hmem⟩ := Iteration.doWhile_count
    (f := primeOuter core lineSize setCount wayCount buffer fuel)
    (c := fun r => signedLt r.set setCount)
    (fun k r => r.set = UInt64.ofNat k ∧
      r.mem = loadAll core ((primeOrder k ways).map fun p =>
        lineAddress lineSize setCount buffer (UInt64.ofNat p.1) (UInt64.ofNat p.2)) mem)
    hspos
    (fun k hk r hr => by
      obtain ⟨r', hr', hset, hmem⟩ := primeOuter_eq core lineSize setCount wayCount buffer
        hways hwpos hwlt hwf r
      have hnext : r'.set = UInt64.ofNat (k + 1) := by
        rw [hset, hr.1, UInt64.ofNat_add]
        rfl
      refine ⟨r', hr', ⟨hnext, ?_⟩, ?_⟩
      · rw [hmem, hr.1, hr.2, primeOrder_succ, List.map_append, loadAll_append, List.map_map]
        rfl
      · rw [hnext, signedLt_eq (by rw [UInt64.toNat_ofNat']; omega) (by omega),
          UInt64.toNat_ofNat', Nat.mod_eq_of_lt (by omega), hsets])
    (s := ⟨0, 0, 0, mem⟩) ⟨rfl, rfl⟩ hsf
  exact (congrArg (Option.map _) hrun).trans (congrArg some hmem)

/-! #### `probe` -/

@[simp]
theorem probeInner_way (r : ProbeState σ) :
    (probeInner core lineSize setCount buffer r).way = r.way + 1 := rfl

@[simp]
theorem probeInner_set (r : ProbeState σ) :
    (probeInner core lineSize setCount buffer r).set = r.set := rfl

@[simp]
theorem probeInner_resultIndex (r : ProbeState σ) :
    (probeInner core lineSize setCount buffer r).resultIndex = r.resultIndex + 1 := rfl

private theorem probeInner_writes (r : ProbeState σ) :
    ((probeInner core lineSize setCount buffer r).mem,
      (probeInner core lineSize setCount buffer r).result) =
    ((measure core (lineAddress lineSize setCount buffer r.set r.way) r.mem).2,
      Function.update r.result r.resultIndex
        (measure core (lineAddress lineSize setCount buffer r.set r.way) r.mem).1) := by
  simp [probeInner, lineAddress]

/-- `outerloop` measures the lines of one set from way 0 up. -/
private theorem probeOuter_eq {ways : ℕ} (hways : wayCount.toNat = ways) (hpos : 0 < ways)
    (hlt : ways < 2 ^ 63) {fuel : ℕ} (hfuel : ways ≤ fuel) {set : ℕ} (r : ProbeState σ)
    (hset : r.set = UInt64.ofNat set) (hindex : r.resultIndex = UInt64.ofNat set * wayCount) :
    ∃ r', probeOuter core lineSize setCount wayCount buffer fuel r = some r' ∧
      r'.set = UInt64.ofNat (set + 1) ∧
      r'.resultIndex = UInt64.ofNat (set + 1) * wayCount ∧
      (r'.mem, r'.result) = ((List.range ways).map fun way => (set, way)).foldl
        (measureAt core lineSize setCount wayCount buffer) (r.mem, r.result) := by
  obtain ⟨r', hrun, -, hs, hi, hm⟩ := Iteration.doWhile_count
    (f := fun r => some (probeInner core lineSize setCount buffer r))
    (c := fun r => signedLt r.way wayCount)
    (fun k q => q.way = UInt64.ofNat k ∧ q.set = UInt64.ofNat set ∧
      q.resultIndex = UInt64.ofNat set * wayCount + UInt64.ofNat k ∧
      (q.mem, q.result) = ((List.range k).map fun way => (set, way)).foldl
        (measureAt core lineSize setCount wayCount buffer) (r.mem, r.result))
    hpos
    (fun k hk q hq => by
      obtain ⟨hw, hs, hi, hm⟩ := hq
      refine ⟨_, rfl, ⟨?_, hs, ?_, ?_⟩, ?_⟩
      · rw [probeInner_way, hw, UInt64.ofNat_add]
        rfl
      · rw [probeInner_resultIndex, hi, UInt64.ofNat_add]
        exact UInt64.add_assoc _ _ _
      · rw [probeInner_writes, hw, hs, hi, List.range_succ, List.map_append, List.foldl_append,
          ← hm]
        rfl
      · rw [probeInner_way, hw, ← UInt64.ofNat_one, ← UInt64.ofNat_add,
          signedLt_eq (by rw [UInt64.toNat_ofNat']; omega) (by omega), UInt64.toNat_ofNat',
          Nat.mod_eq_of_lt (by omega), hways])
    (s := { r with way := r.way ^^^ r.way })
    ⟨by simp, hset, by simpa using hindex, rfl⟩ hfuel
  refine ⟨{ r' with set := r'.set + 1 }, congrArg (Option.map _) hrun, ?_, ?_, hm⟩
  · rw [UInt64.ofNat_add]
    exact congrArg (· + 1) hs
  · have hcount : wayCount = UInt64.ofNat ways := by rw [← hways, UInt64.ofNat_toNat]
    change r'.resultIndex = _
    rw [hi, UInt64.ofNat_add, ← hcount, UInt64.ofNat_one]
    grind

/-- **`probe` in closed form.** -/
theorem probe_eq {sets ways : ℕ} (hsets : setCount.toNat = sets) (hways : wayCount.toNat = ways)
    (hspos : 0 < sets) (hwpos : 0 < ways) (hslt : sets < 2 ^ 63) (hwlt : ways < 2 ^ 63)
    {fuel : ℕ} (hsf : sets ≤ fuel) (hwf : ways ≤ fuel) (mem : σ) (result : UInt64 → UInt32) :
    probe core lineSize setCount wayCount buffer fuel mem result =
      some ((probeOrder sets ways).foldl
        (measureAt core lineSize setCount wayCount buffer) (mem, result)) := by
  obtain ⟨r', hrun, -, -, hm⟩ := Iteration.doWhile_count
    (f := probeOuter core lineSize setCount wayCount buffer fuel)
    (c := fun r => signedLt r.set setCount)
    (fun k r => r.set = UInt64.ofNat k ∧ r.resultIndex = UInt64.ofNat k * wayCount ∧
      (r.mem, r.result) = (probeOrder k ways).foldl
        (measureAt core lineSize setCount wayCount buffer) (mem, result))
    hspos
    (fun k hk r hr => by
      obtain ⟨r', hr', hs, hi, hm⟩ := probeOuter_eq core lineSize setCount wayCount buffer
        hways hwpos hwlt hwf r hr.1 hr.2.1
      refine ⟨r', hr', ⟨hs, hi, ?_⟩, ?_⟩
      · rw [hm, hr.2.2, probeOrder_succ, List.foldl_append]
      · rw [hs, signedLt_eq (by rw [UInt64.toNat_ofNat']; omega) (by omega),
          UInt64.toNat_ofNat', Nat.mod_eq_of_lt (by omega), hsets])
    (s := ⟨0, 0, 0, 0, mem, result⟩) ⟨rfl, by simp, rfl⟩ hsf
  exact (congrArg (Option.map _) hrun).trans (congrArg some hm)

end

end CacheNoise
