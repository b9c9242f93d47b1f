import CacheNoise.Visualize.Combine

/-!
# Iterating over the frames

A measurement should be iterated like a list of its frames (`IteratesFrames`): `len` of them, and
then `StopIteration`; an index is a `KeyError` from there on. `__getitem__` has no such end when
several iterations are combined:

* with several frames the guard `len < key` lets one frame more through,
* with one frame the parallel sum closes the file, which every later access trips over,
* without frames `combine_all` divides by zero.

So only measurements that are not combined are iterated, and empty ones with explicit combines
(`iteratesFrames_iff`).
-/

namespace CacheNoise

open Related

section

variable {combineLines : Bool}

/-- What the first `n` calls of `__next__` end in, in exact arithmetic. -/
def MeasureData.nexts (pool : Pool) :
    ℕ → MeasureData combineLines → List (Except Raised (Frame ℕ combineLines))
  | 0, _ => []
  | n + 1, m => (m.next .exact pool).1 :: nexts pool n (m.next .exact pool).2

/-- `m` has `len` frames, by iterating and by index. -/
structure IteratesFrames (len : ℕ) (pool : Pool) (m : MeasureData combineLines) : Prop where
  len_eq : m.len = .ok len
  nexts_eq : ∃ frames : List (Frame ℕ combineLines), frames.length = len ∧
    m.nexts pool (len + 1) = frames.map .ok ++ [.error .stopIteration]
  getItem_lt : ∀ k < len, ∃ frame, (m.getItem .exact pool k).1 = .ok frame
  getItem_ge : ∀ k, len ≤ k → (m.getItem .exact pool k).1 = .error .keyError

variable {N c k iter : ℕ} {rows columns : UInt64} {sets : H5File}

/-! ### Nothing is combined -/

/-- Without combining, `__next__` goes through the chunks. -/
theorem nexts_one (pool : Pool) (n iter : ℕ) :
    (MeasureData.reader combineLines sets 1 iter).nexts pool n =
      (List.range' iter n).map fun k =>
        stopping ((MeasureData.reader combineLines sets 1 0).chunkAt .exact k) := by
  induction n generalizing iter with
  | zero => rfl
  | succ n ih =>
    rw [List.range'_succ, List.map_cons, ← ih]
    rfl

/-- A measurement that is not combined is iterated. -/
theorem iteratesFrames_one (hm : Measurement N rows columns sets)
    (h : N = 0 ∨ Readable combineLines rows columns) (pool : Pool) :
    IteratesFrames N pool (MeasureData.reader combineLines sets 1 0) := by
  have hchunk : ∀ k < N, (MeasureData.reader combineLines sets 1 0).chunkAt .exact k =
      .ok (frameOf combineLines rows columns (raw columns sets k)) := by
    intro k hk
    have hread := h.resolve_left (Nat.ne_of_gt (Nat.zero_lt_of_lt hk))
    exact chunkAt_eq (m := .reader combineLines sets 1 0) hm rfl hread hk
  have habsent : ∀ k, N ≤ k → (MeasureData.reader combineLines sets 1 0).chunkAt .exact k =
      .error .keyError := fun k hk =>
    chunkAt_absent (m := .reader combineLines sets 1 0) hm rfl hk .exact
  refine ⟨?_, ⟨(List.range N).map fun k => frameOf combineLines rows columns (raw columns sets k),
    by rw [List.length_map, List.length_range], ?_⟩, fun k hk => ⟨_, hchunk k hk⟩, habsent⟩
  · rw [len_reader hm Nat.one_pos, ceilDiv_one]
  · rw [nexts_one, ← List.range_eq_range', List.range_succ, List.map_append, List.map_map]
    refine congrArg₂ _ (List.map_congr_left fun k hk => ?_) ?_
    · rw [hchunk k (List.mem_range.mp hk)]
      rfl
    · rw [List.map_singleton, habsent N (Nat.le_refl N)]
      rfl

/-! ### An empty file -/

/-- What a run leaves behind that is terminated before its first iteration. -/
theorem measurement_nil (rows columns : UInt64) : Measurement 0 rows columns [] :=
  ⟨rfl, fun _ hk => absurd hk (Nat.not_lt_zero _), fun _ _ => rfl⟩

/-- With explicit combines, an empty measurement has no frames. -/
theorem getItem_empty (hm : Measurement 0 rows columns sets) (hc : 0 < c) (k : ℕ) (pool : Pool) :
    ((MeasureData.reader combineLines sets c iter).getItem .exact pool k).1 =
      .error .keyError := by
  have habsent : ∀ k, (MeasureData.reader combineLines sets c iter).chunkAt .exact k =
      .error .keyError := fun k =>
    chunkAt_absent (m := .reader combineLines sets c iter) hm rfl (Nat.zero_le k) .exact
  have hlen : 0 ⌈/⌉ c = 0 := zero_ceilDiv c
  obtain rfl | hc2 : c = 1 ∨ 2 ≤ c := by omega
  · exact habsent k
  · obtain rfl | hk := Nat.eq_zero_or_pos k
    · exact getItem_combined_error hm hc2 (by omega) (Nat.zero_le _) pool (habsent 0)
    · have hcombines : (MeasureData.reader combineLines sets c iter).combines ≠ 1 :=
        Nat.ne_of_gt hc2
      rw [MeasureData.getItem, if_neg hcombines, len_reader hm hc, hlen]
      dsimp only
      rw [if_pos hk]

theorem iteratesFrames_empty (hm : Measurement 0 rows columns sets) (hc : 0 < c) (pool : Pool) :
    IteratesFrames 0 pool (MeasureData.reader combineLines sets c 0) := by
  refine ⟨?_, ⟨[], rfl, ?_⟩, fun k hk => absurd hk (Nat.not_lt_zero k), fun k _ =>
    getItem_empty hm hc k pool⟩
  · rw [len_reader hm hc, zero_ceilDiv]
  · change [stopping ((MeasureData.reader combineLines sets c 1).getItem .exact pool 0).1] = _
    rw [getItem_empty hm hc 0 pool]
    rfl

/-! ### Several iterations are combined -/

theorem reduce_ne_keyError {β : Type} (f : β → β → β) (l : List β) :
    reduce f l ≠ .error .keyError := by
  cases l with
  | nil => exact nofun
  | cons x xs => exact nofun

/-- With several frames, the key after the last one does not stop the iteration. -/
theorem getItem_len_ne (hm : Measurement N rows columns sets) (hc : 2 ≤ c) (hN : c < N)
    (pool : Pool) : ((MeasureData.reader combineLines sets c iter).getItem .exact pool
      (N ⌈/⌉ c)).1 ≠ .error .keyError := by
  intro h
  have hlen := two_le_ceilDiv (by omega) hN
  have hle := key_add_le hc hN (Nat.le_refl _)
  rw [getItem_combined hm hc (by omega) (Nat.le_refl _)] at h
  rcases hdata : (List.range (maxCombines N c (N ⌈/⌉ c))).mapM fun i =>
    (MeasureData.reader combineLines sets c iter).chunkAt .exact (N ⌈/⌉ c + i) with e | data
  · rw [hdata, error_bind] at h
    obtain rfl := Except.error.inj h
    obtain ⟨i, hi, hchunk⟩ := exists_of_mapM_eq_error hdata
    have habsent := le_of_chunkAt_keyError (m := .reader combineLines sets c iter) hm rfl hchunk
    have hi' := List.mem_range.mp hi
    omega
  · rw [hdata, ok_bind] at h
    exact reduce_ne_keyError _ _ h

/-- With one frame, the second call of `__next__` finds the file closed. -/
theorem nexts_image (hm : Measurement N rows columns sets) (hc : 2 ≤ c) (hN : 0 < N)
    (hNc : N ≤ c) (pool : Pool) :
    (MeasureData.reader combineLines sets c 0).nexts pool 2 =
      [stopping (generateImage .exact combineLines sets pool), .error .valueError] := by
  have hclosed : ((⟨⟨sets, true⟩, 2, c⟩ : MeasureData combineLines).getItem .exact pool 1).1 =
      .error .valueError := by
    rw [MeasureData.getItem, if_neg (Nat.ne_of_gt hc)]
    rfl
  have hfirst : (MeasureData.reader combineLines sets c 0).next .exact pool =
      (stopping (generateImage .exact combineLines sets pool), ⟨⟨sets, true⟩, 1, c⟩) := by
    have himage : (MeasureData.reader combineLines sets c 1).getItem .exact pool 0 = _ :=
      getItem_image hm hc hN hNc (Nat.zero_le 1) pool
    exact congrArg (fun r => (stopping r.1, r.2)) himage
  rw [MeasureData.nexts, hfirst, MeasureData.nexts, MeasureData.nexts]
  refine congrArg (fun r => [_, stopping r]) hclosed

/-- A measurement that is combined is not iterated. -/
theorem not_iteratesFrames (hm : Measurement N rows columns sets) (hc : 2 ≤ c) (hN : 0 < N)
    (pool : Pool) :
    ¬ IteratesFrames (N ⌈/⌉ c) pool (MeasureData.reader combineLines sets c 0) := by
  intro h
  obtain hNc | hNc := le_or_gt N c
  · obtain ⟨frames, hframes, hnexts⟩ := h.nexts_eq
    rw [ceilDiv_eq_one hN hNc] at hframes hnexts
    rw [nexts_image hm hc hN hNc] at hnexts
    obtain ⟨frame, rfl⟩ := List.length_eq_one_iff.mp hframes
    have hsecond := (List.cons.inj hnexts).2
    cases hsecond
  · exact getItem_len_ne hm hc hNc pool (h.getItem_ge _ (Nat.le_refl _))

/-- **Measurements are iterated** if and only if nothing is combined, or the file is empty and is
not asked for all its frames in one. -/
theorem iteratesFrames_iff (hm : Measurement N rows columns sets) (hc : 0 < c) (combineAll : Bool)
    (pool : Pool) :
    (∃ m : MeasureData combineLines, MeasureData.fromFile combineLines sets c combineAll = .ok m ∧
      IteratesFrames (N ⌈/⌉ (if combineAll = true then N else c)) pool m) ↔
    (combineAll = false ∧ N = 0) ∨
      ((if combineAll = true then N else c) = 1 ∧ Readable combineLines rows columns) := by
  rw [fromFile_eq hc, hm.length_eq]
  refine ⟨fun ⟨m, hmem, h⟩ => ?_, fun h => ⟨_, rfl, ?_⟩⟩
  · obtain rfl := Except.ok.inj hmem
    obtain rfl | hN := Nat.eq_zero_or_pos N
    · -- an empty file: the combines of all frames are 0
      cases combineAll with
      | false => exact .inl ⟨rfl, rfl⟩
      | true =>
        have hlen := h.len_eq
        rw [if_pos rfl, MeasureData.len, H5pyFile.len] at hlen
        cases hlen
    · generalize hd : (if combineAll = true then N else c) = d at h ⊢
      have hd0 : 0 < d := by rw [← hd]; split <;> omega
      obtain rfl | hd2 : d = 1 ∨ 2 ≤ d := by omega
      · refine .inr ⟨rfl, ?_⟩
        by_contra hread
        rw [ceilDiv_one] at h
        obtain ⟨frame, hframe⟩ := h.getItem_lt 0 hN
        refine getItem_unreadable hm hread Nat.one_pos ?_ pool frame hframe
        rwa [ceilDiv_one]
      · exact absurd h (not_iteratesFrames hm hd2 hN pool)
  · obtain ⟨rfl, rfl⟩ | ⟨hone, hread⟩ := h
    · rw [if_neg Bool.false_ne_true, zero_ceilDiv]
      exact iteratesFrames_empty hm hc pool
    · rw [hone, ceilDiv_one]
      exact iteratesFrames_one hm (.inr hread) pool

end

/-- Three iterations of one entry, `1, 2, 3`. -/
def threeIterations : H5File := measurementFile 3 1 1 fun k _ => UInt32.ofNat (k + 1)

/-- Three iterations of one entry are iterated, as bars, if they are not combined, and not if all of
them are. Nor is an empty file, with all frames in one. -/
theorem iteratesFrames_three :
    (∃ m : MeasureData true, MeasureData.fromFile true threeIterations (1 : ℕ) false = .ok m ∧
      IteratesFrames (3 ⌈/⌉ (if false = true then 3 else 1)) .single m) ∧
    (¬ ∃ m : MeasureData true, MeasureData.fromFile true threeIterations (1 : ℕ) true = .ok m ∧
      IteratesFrames (3 ⌈/⌉ (if true = true then 3 else 1)) .single m) ∧
    ¬ ∃ m : MeasureData true, MeasureData.fromFile true [] (1 : ℕ) true = .ok m ∧
      IteratesFrames (0 ⌈/⌉ (if true = true then 0 else 1)) .single m := by
  have hm : Measurement 3 1 1 threeIterations := measurement_measurementFile
  rw [iteratesFrames_iff hm Nat.one_pos false .single, iteratesFrames_iff hm Nat.one_pos true
    .single, iteratesFrames_iff (measurement_nil 1 1) Nat.one_pos true .single]
  decide

/-- Four iterations combined by two: three frames, and not two. -/
theorem nexts_fourIterations :
    Measurement 4 1 1 fourIterations ∧
      MeasureData.fromFile true fourIterations 2 false = .ok (.reader true fourIterations 2 0) ∧
      (MeasureData.reader true fourIterations 2 0).nexts .single 4 =
        [.ok [3], .ok [5], .ok [7], .error .stopIteration] ∧
      ¬ IteratesFrames (4 ⌈/⌉ 2) .single (MeasureData.reader true fourIterations 2 0) :=
  ⟨measurement_measurementFile, rfl, by decide,
    fun h => absurd (h.getItem_ge 2 (by decide)) (by decide)⟩

end CacheNoise
