import CacheNoise.Alloc.Outcome
import CacheNoise.Machine

/-!
# When `alloc_aligned` keeps its contract

`alloc_aligned` should return `ERROR_NONE` if and only if its search found an aligned buffer and
every rejected one was released, and then hand out that buffer, still mapped
(`AllocContract`). Its variable `err` carries the verdict of the search, but the release loop
overwrites it. So once a buffer was rejected, the result is that of the **last release**,
whatever the search came to: after a failed `mmap`, after a failed test and after the last try,
a successful release turns into success. And a release does not return at all if it reads a huge
page size of 0 (`allocAligned_returns_iff`).

The contract is kept if and only if all releases return, and no buffer was rejected, or the last
release fails, or the contract asks for success (`ReleasesReturn`, `AllocSafe`,
`allocAligned_contract_iff`).
-/

namespace CacheNoise

open Interaction Ledger

/-- The buffers that were mapped and rejected, in order. -/
def rejected (t : List Event) : List UInt64 :=
  (tries t).filterMap fun
    | .tested buffer code => if code = errorNotAligned then some buffer else none
    | .failed => none

/-- The search found `b`: its test succeeded, all tries before it were rejected, and every
rejected buffer was released. -/
def Found (t : List Event) (b : UInt64) : Prop :=
  tries t = (rejected t).map (.tested · errorNotAligned) ++ [.tested b errorNone] ∧
    ∀ r ∈ rejected t, Entry.release (.mapped r) true ∈ mappings t

instance (t : List Event) (b : UInt64) : Decidable (Found t b) :=
  -- the last instance is given: machine words are finite, but too many to go through
  @instDecidableAnd _ _ inferInstance (List.decidableBAll _ _)

/-- **What `alloc_aligned` should return.** -/
structure AllocContract (t : List Event) (err : ErrorT) (buffer : Ptr) : Prop where
  success_iff : err = errorNone ↔ ∃ b, Found t b
  handed_out : err = errorNone →
    ∃ b, Found t b ∧ buffer = .mapped b ∧ buffer ∈ after [] (mappings t)

/-- No buffer was rejected; or the release of the last rejected one fails, or the second release
of it when the tries are used up; or the search found a buffer. -/
def AllocSafe (t : List Event) : Prop :=
  rejected t = [] ∨
    (∃ last ∈ (rejected t).getLast?, (mappings t).count (.release (.mapped last) true) <
      if (tries t).length = (rejected t).length then 2 else 1) ∨
    ∃ b, Found t b

/-- No huge page size that a release reads is 0; the first size that is read is for the search. A
cache of no bytes needs no pages. -/
def ReleasesReturn (cache : CacheInfo) (t : List Event) : Prop :=
  some 0 ∉ (pageSizes t).tail ∨ cache.totalSize = 0

instance (cache : CacheInfo) (t : List Event) : Decidable (ReleasesReturn cache t) :=
  inferInstanceAs (Decidable (some 0 ∉ (pageSizes t).tail ∨ cache.totalSize = 0))

/-! ### Whether it returns -/

section

variable {cache : CacheInfo}

/-- A huge page size of 0 is read, for a cache that has bytes. -/
def ReadsZero (cache : CacheInfo) (e : Event) : Prop :=
  some 0 ∈ pageSizes [e] ∧ cache.totalSize ≠ 0

theorem exists_readsZero {t : List Event} :
    (∃ e ∈ t, ReadsZero cache e) ↔ some 0 ∈ pageSizes t ∧ cache.totalSize ≠ 0 := by
  induction t with
  | nil => simp [pageSizes]
  | cons e t ih =>
    have hsplit : pageSizes (e :: t) = pageSizes [e] ++ pageSizes t := pageSizes_append [e] t
    rw [hsplit, List.mem_append, or_and_right, ← ih, List.exists_mem_cons_iff]
    rfl

theorem pageSizes_sys {c : Call} (hc : c ≠ .meminfo) (a : Answer c) :
    pageSizes [(⟨c, a⟩ : Event)] = [] := by
  cases c <;> first | rfl | exact absurd rfl hc

theorem stopsAt_sys {c : Call} (hc : c ≠ .meminfo) : (sys c).StopsAt (ReadsZero cache) :=
  (Prog.stopsAt_perform fun a h => by
    rw [ReadsZero, pageSizes_sys hc] at h
    exact List.not_mem_nil h.1).bind fun _ => Prog.stopsAt_pure

/-- **A release** stops exactly at a page size of 0. -/
theorem freeAligned_stopsAt (buffer : Ptr) :
    (freeAligned buffer cache).StopsAt (ReadsZero cache) := by
  intro t o h
  obtain ⟨t₁, t₂, r, rfl, h₁, h₂⟩ | ⟨-, h₁⟩ := Prog.run_bind.mp h
  swap
  · obtain ⟨-, ⟨-, hr⟩ | ⟨size, -, hr⟩⟩ := getHugepagesize_run h₁ <;> cases hr
  obtain ⟨-, ⟨hsize, hr⟩ | ⟨size, hsize, hr⟩⟩ := getHugepagesize_run h₁ <;>
    obtain rfl := Option.some.inj hr
  · obtain ⟨rfl, rfl⟩ := h₂
    rw [exists_readsZero, List.append_nil, hsize]
    exact iff_of_false (Option.some_ne_none _) (by simp)
  dsimp only at h₂
  rcases hlength : munmapLength size cache.totalSize with _ | length <;> rw [hlength] at h₂
  · obtain ⟨rfl, rfl⟩ := h₂
    obtain ⟨rfl, htotal⟩ := munmapLength_eq_none_iff.mp hlength
    rw [exists_readsZero, List.append_nil, hsize]
    exact iff_of_true rfl ⟨List.mem_singleton_self _, htotal⟩
  · obtain ⟨b, t₂, rfl, rfl, rfl⟩ := run_sys_bind.mp h₂
    have hnot : ¬ (size = 0 ∧ cache.totalSize ≠ 0) := fun h => by
      rw [munmapLength_eq_none_iff.mpr h] at hlength
      cases hlength
    rw [exists_readsZero, pageSizes_append, hsize, pageSizes_sys (by simp)]
    refine iff_of_false (Option.some_ne_none _) fun ⟨hzero, htotal⟩ => hnot ⟨?_, htotal⟩
    simpa [eq_comm] using hzero

theorem searchAligned_stopsAt (hugepagesize : UInt64) (n : ℕ) (s : Search) :
    (searchAligned cache hugepagesize n s).StopsAt (ReadsZero cache) := by
  induction n generalizing s with
  | zero => exact Prog.stopsAt_pure
  | succ n ih =>
    refine (stopsAt_sys (by simp)).bind fun r => ?_
    cases r with
    | none => exact Prog.stopsAt_pure
    | some address =>
      exact (stopsAt_sys (by simp)).bind fun err => (ih _).ite Prog.stopsAt_pure

theorem releaseAll_stopsAt (buffers : List Ptr) (err : ErrorT) :
    (releaseAll cache buffers err).StopsAt (ReadsZero cache) := by
  induction buffers generalizing err with
  | nil => exact Prog.stopsAt_pure
  | cons buffer buffers ih => exact (freeAligned_stopsAt buffer).bind fun err => ih err

theorem allocTail_stopsAt (n : ℕ) (s : Search) (err : ErrorT) :
    (allocTail cache n s err).StopsAt (ReadsZero cache) :=
  Prog.stopsAt_pure.ite
    (((freeAligned_stopsAt _).bind fun _ => Prog.stopsAt_pure).ite Prog.stopsAt_pure)

/-- **Whether `alloc_aligned` returns**: if and only if no release reads a huge page size of 0. -/
theorem allocAligned_returns_iff {buffer : Ptr} {t : List Event} {o : Option (ErrorT × Ptr)}
    (h : (allocAligned cache buffer).Run t o) : o ≠ none ↔ ReleasesReturn cache t := by
  obtain ⟨u₁, v₁, r, rfl, h₁, k₁⟩ | ⟨-, h₁⟩ := Prog.run_bind.mp h
  swap
  · obtain ⟨-, ⟨_, -, hr⟩ | ⟨_, hr⟩⟩ := getHugepagenr_run h₁ <;> cases hr
  have hnr : pageSizes u₁ = [] := by
    obtain ⟨a, t₁, rfl, h₂⟩ := run_sys_bind.mp h₁
    rcases hread : a.value with _ | _ | value <;> rw [hread] at h₂ <;> obtain ⟨rfl, -⟩ := h₂ <;> rfl
  rw [ReleasesReturn, pageSizes_append, hnr, List.nil_append]
  rcases r with res | maxTries
  · obtain ⟨rfl, rfl⟩ := k₁
    exact iff_of_true (Option.some_ne_none _) (.inl List.not_mem_nil)
  dsimp only at k₁
  split at k₁
  · obtain ⟨rfl, rfl⟩ := k₁
    exact iff_of_true (Option.some_ne_none _) (.inl List.not_mem_nil)
  obtain ⟨u₂, v₂, r, rfl, h₂, k₂⟩ | ⟨-, h₂⟩ := Prog.run_bind.mp k₁
  swap
  · obtain ⟨-, ⟨-, hr⟩ | ⟨_, -, hr⟩⟩ := getHugepagesize_run h₂ <;> cases hr
  obtain ⟨-, hsize⟩ := getHugepagesize_run h₂
  -- the first size is that of the search; what comes then stops exactly at a size of 0
  have htail : (pageSizes (u₂ ++ v₂)).tail = pageSizes v₂ := by
    obtain ⟨hread, -⟩ | ⟨size, hread, -⟩ := hsize <;> rw [pageSizes_append, hread] <;> rfl
  rw [htail]
  have hstops : o = none ↔ some 0 ∈ pageSizes v₂ ∧ cache.totalSize ≠ 0 := by
    rw [← exists_readsZero]
    rcases r with res | size
    · exact Prog.stopsAt_pure v₂ o k₂
    · refine Prog.StopsAt.bind (stopsAt_sys (by simp)) (fun allocated => ?_) v₂ o k₂
      refine Prog.stopsAt_pure.ite ((searchAligned_stopsAt _ _ _).bind fun s => ?_)
      exact (releaseAll_stopsAt _ _).bind fun err => allocTail_stopsAt _ _ _
  rw [ne_eq, hstops, not_and_or, not_not]

end

/-! ### The two in terms of the search -/

section

variable {t : List Event} {n : ℕ} {rs : List UInt64} {e : SearchEnd} {rel : List (Ptr × Bool)}

theorem rejected_eq (htries : tries t = rs.map (.tested · errorNotAligned) ++ e.tries)
    (hfits : e.Fits n rs) : rejected t = rs := by
  have hmap : ∀ rs : List UInt64, (rs.map (Try.tested · errorNotAligned)).filterMap (fun
      | .tested buffer code => if code = errorNotAligned then some buffer else none
      | .failed => none) = rs := by
    intro rs
    induction rs with
    | nil => rfl
    | cons r rs ih => simp [ih]
  rw [rejected, htries, List.filterMap_append, hmap]
  cases e with
  | exhausted => simp [SearchEnd.tries]
  | failed => simp [SearchEnd.tries]
  | tested b code => simp [SearchEnd.tries, hfits.2]

theorem found_iff (htries : tries t = rs.map (.tested · errorNotAligned) ++ e.tries)
    (hfits : e.Fits n rs)
    (hmaps : mappings t = ((rs ++ e.mapped).map Ptr.mapped).map .acquire ++ releases rel)
    (b : UInt64) :
    Found t b ↔ e = .tested b errorNone ∧ ∀ r ∈ rs, (.mapped r, true) ∈ rel := by
  have hmem : ∀ r, Entry.release (Ptr.mapped r) true ∈ mappings t ↔ (.mapped r, true) ∈ rel := by
    simp [hmaps, mem_releases]
  rw [Found, rejected_eq htries hfits, htries, List.append_cancel_left_eq]
  simp only [hmem]
  cases e <;> simp [SearchEnd.tries]

theorem allocSafe_iff (htries : tries t = rs.map (.tested · errorNotAligned) ++ e.tries)
    (hfits : e.Fits n rs)
    (hmaps : mappings t = ((rs ++ e.mapped).map Ptr.mapped).map .acquire ++ releases rel) :
    AllocSafe t ↔ rs = [] ∨
      (∃ last ∈ rs.getLast?, rel.count (.mapped last, true) < if e = .exhausted then 2 else 1) ∨
      ∃ b, Found t b := by
  have hcount : ∀ r, (mappings t).count (.release (.mapped r) true) =
      rel.count (.mapped r, true) := fun r => by
    have hzero : (((rs ++ e.mapped).map Ptr.mapped).map Entry.acquire).count
        (.release (.mapped r) true) = 0 := List.count_eq_zero.mpr (by simp)
    rw [hmaps, List.count_append, hzero, Nat.zero_add, count_releases]
  have hend : (tries t).length = rs.length ↔ e = .exhausted := by
    rw [htries, List.length_append, List.length_map]
    cases e <;> simp [SearchEnd.tries]
  rw [AllocSafe]
  simp only [hcount, rejected_eq htries hfits, hend]

theorem AllocContract.of_error {err : ErrorT} (buffer : Ptr) (herr : err ≠ errorNone)
    (h : ¬ ∃ b, Found t b) : AllocContract t err buffer :=
  ⟨iff_of_false herr h, fun h => absurd h herr⟩

end

/-! ### The three ends -/

section

variable {t : List Event} {n : ℕ} {rs : List UInt64} {rel rel₂ : List (Ptr × Bool)}
  {err res : ErrorT}

/-- All tries are used up: the last buffer is released twice. -/
theorem contract_exhausted (hn : 0 < n)
    (htries : tries t = rs.map (.tested · errorNotAligned)) (hlength : rs.length = n)
    (hmaps : mappings t = (rs.map Ptr.mapped).map .acquire ++ releases (rel ++ rel₂))
    (hrel : rel.Nodup) (hrel₂ : rel₂.Nodup)
    (hcode : ∀ last ∈ rs.getLast?, (err = errorNone ↔ (.mapped last, true) ∈ rel) ∧
      (res = errorNone ↔ (.mapped last, true) ∈ rel₂)) (buffer : Ptr) :
    AllocContract t (if res ≠ errorNone then res else err) buffer ↔ AllocSafe t := by
  have htries' : tries t = rs.map (.tested · errorNotAligned) ++ SearchEnd.exhausted.tries := by
    rw [htries, SearchEnd.tries, List.append_nil]
  have hmaps' : mappings t = ((rs ++ SearchEnd.exhausted.mapped).map Ptr.mapped).map .acquire ++
      releases (rel ++ rel₂) := by rw [hmaps, SearchEnd.mapped, List.append_nil]
  have hnot : ¬ ∃ b, Found t b := by
    rintro ⟨b, hb⟩
    exact absurd ((found_iff htries' hlength hmaps' b).mp hb).1 (by simp)
  obtain ⟨last, hlast⟩ : ∃ last, rs.getLast? = some last :=
    Option.ne_none_iff_exists'.mp (by simpa [← List.length_pos_iff] using hlength ▸ hn)
  obtain ⟨herr, hres⟩ := hcode last hlast
  have hcontract : AllocContract t (if res ≠ errorNone then res else err) buffer ↔
      ¬ (res = errorNone ∧ err = errorNone) := by
    constructor
    · rintro h ⟨rfl, rfl⟩
      exact hnot (h.success_iff.mp rfl)
    · intro h
      refine .of_error buffer ?_ hnot
      split
      · next hne => exact hne
      · next heq => exact fun h' => h ⟨not_not.mp heq, h'⟩
  rw [hcontract, allocSafe_iff htries' hlength hmaps',
    or_iff_right (by simp [← List.length_eq_zero_iff]; omega), or_iff_left hnot, if_pos rfl]
  simp only [hlast, Option.mem_some_iff, exists_eq_left', List.count_append, hrel.count,
    hrel₂.count, herr, hres]
  split <;> split <;> simp_all

/-- `mmap` failed: the last release hides it. -/
theorem contract_failed
    (htries : tries t = rs.map (.tested · errorNotAligned) ++ [.failed]) (hlength : rs.length < n)
    (hmaps : mappings t = (rs.map Ptr.mapped).map .acquire ++ releases rel)
    (hnil : rs = [] → err = errorMmap)
    (hcode : ∀ last ∈ rs.getLast?, (err = errorNone ↔ (.mapped last, true) ∈ rel))
    (buffer : Ptr) : AllocContract t err buffer ↔ AllocSafe t := by
  have hmaps' : mappings t = ((rs ++ SearchEnd.failed.mapped).map Ptr.mapped).map .acquire ++
      releases rel := by rw [hmaps, SearchEnd.mapped, List.append_nil]
  have hnot : ¬ ∃ b, Found t b := by
    rintro ⟨b, hb⟩
    exact absurd ((found_iff (e := .failed) htries hlength hmaps' b).mp hb).1 (by simp)
  have hcontract : AllocContract t err buffer ↔ err ≠ errorNone :=
    ⟨fun h herr => hnot (h.success_iff.mp herr), fun herr => .of_error buffer herr hnot⟩
  rw [hcontract, allocSafe_iff (e := .failed) htries hlength hmaps', or_iff_left hnot]
  rcases hlast : rs.getLast? with _ | last
  · rw [List.getLast?_eq_none_iff] at hlast
    simp [hlast, hnil hlast, errorMmap, errorNone]
  · have hne : rs ≠ [] := by
      rintro rfl
      simp at hlast
    simp [hne, hcode last hlast, List.count_eq_zero]

/-- A buffer is handed out: the contract asks for it if its test and all releases succeeded. -/
theorem contract_handed_out {b : UInt64} {code : ErrorT}
    (htries : tries t = rs.map (.tested · errorNotAligned) ++ [.tested b code])
    (hfits : rs.length < n ∧ code ≠ errorNotAligned)
    (hmaps : mappings t = ((rs ++ [b]).map Ptr.mapped).map .acquire ++ releases rel)
    (hsub : (rel.map Prod.fst).Sublist (rs.map Ptr.mapped)) (hnd : (rs ++ [b]).Nodup)
    (hnil : rs = [] → code = errorNone)
    (hcode : ∀ last ∈ rs.getLast?, (.mapped last, true) ∈ rel) :
    AllocContract t errorNone (.mapped b) ↔ AllocSafe t := by
  have hfound := found_iff (e := .tested b code) htries hfits hmaps
  have hlive : Ptr.mapped b ∈ after [] (mappings t) := by
    rw [hmaps]
    exact mem_after_search hnd hsub (List.mem_singleton_self b)
  have hcontract : AllocContract t errorNone (.mapped b) ↔ ∃ b', Found t b' := by
    refine ⟨fun h => h.success_iff.mp rfl, fun h => ⟨iff_of_true rfl h, fun _ => ?_⟩⟩
    obtain ⟨b', hb'⟩ := h
    obtain ⟨rfl, -⟩ := SearchEnd.tested.inj ((hfound b').mp hb').1
    exact ⟨b, hb', rfl, hlive⟩
  rw [hcontract, allocSafe_iff (e := .tested b code) htries hfits hmaps, iff_comm]
  refine ⟨?_, fun h => .inr (.inr h)⟩
  rintro (rfl | ⟨last, hlast, hlt⟩ | h)
  · exact ⟨b, (hfound b).mpr ⟨by rw [hnil rfl], by simp⟩⟩
  · have hpos := List.count_pos_iff.mpr (hcode last hlast)
    simp at hlt
    omega
  · exact h

/-- An error that was not lost: the last buffer is released once, and the error is returned. -/
theorem contract_error {b : UInt64} {code : ErrorT}
    (htries : tries t = rs.map (.tested · errorNotAligned) ++ [.tested b code])
    (hfits : rs.length < n ∧ code ≠ errorNotAligned)
    (hmaps : mappings t = ((rs ++ [b]).map Ptr.mapped).map .acquire ++ releases (rel ++ rel₂))
    (hsub₂ : (rel₂.map Prod.fst).Sublist [.mapped b]) (hnd : (rs ++ [b]).Nodup)
    (hnil : rs = [] → code ≠ errorNone)
    (hcode : ∀ last ∈ rs.getLast?, (.mapped last, true) ∉ rel) {err : ErrorT}
    (herr : err ≠ errorNone) (buffer : Ptr) : AllocContract t err buffer ↔ AllocSafe t := by
  have hlost : ∀ last ∈ rs.getLast?, (.mapped last, true) ∉ rel ++ rel₂ := by
    intro last hlast hmem
    rcases List.mem_append.mp hmem with hmem | hmem
    · exact hcode last hlast hmem
    · have hb := List.mem_singleton.mp (hsub₂.subset (List.mem_map_of_mem hmem))
      obtain rfl : last = b := Ptr.mapped.inj hb
      exact (List.nodup_append.mp hnd).2.2 last (List.mem_of_getLast? hlast) last
        (List.mem_singleton_self last) rfl
  have hfound := found_iff (e := .tested b code) htries hfits hmaps
  refine iff_of_true (.of_error buffer herr ?_)
    ((allocSafe_iff (e := .tested b code) htries hfits hmaps).mpr ?_)
  · rintro ⟨b', hb'⟩
    obtain ⟨hend, hall⟩ := (hfound b').mp hb'
    rcases hlast : rs.getLast? with _ | last
    · exact hnil (List.getLast?_eq_none_iff.mp hlast) (SearchEnd.tested.inj hend).2
    · exact hlost last hlast (hall last (List.mem_of_getLast? hlast))
  · rcases hlast : rs.getLast? with _ | last
    · exact .inl (List.getLast?_eq_none_iff.mp hlast)
    · refine .inr (.inl ⟨last, rfl, ?_⟩)
      rw [List.count_eq_zero.mpr (hlost last hlast)]
      simp

end

/-- **What `alloc_aligned` returns** is as it should be if and only if no buffer was rejected, or
the last release fails, or the search found a buffer. -/
theorem allocContract_iff {cache : CacheInfo} {buffer buffer' : Ptr} {t : List Event}
    {err : ErrorT} (h : (allocAligned cache buffer).Run t (some (err, buffer')))
    (hfresh : Fresh [] (mappings t)) : AllocContract t err buffer' ↔ AllocSafe t := by
  rcases allocAligned_run h hfresh with ⟨htries, -, err', herr, hout⟩ |
    ⟨n, rs, e, t₀, t₁, t₂, o₁, rel, rfl, ⟨hn, hfits, hnd⟩, ⟨htries₀, hmaps₀⟩, ⟨hrel, hnil⟩, hend⟩
  · obtain ⟨rfl, rfl⟩ := Prod.mk.inj (Option.some.inj hout)
    refine iff_of_true (.of_error _ herr ?_) (.inl (by simp [rejected, htries]))
    rintro ⟨b, hb, -⟩
    simp [htries] at hb
  obtain ⟨-, -, hnone⟩ | ⟨last, rfl, htail⟩ := hend
  · cases hnone
  have hcode : ∀ r ∈ rs.getLast?, (last = errorNone ↔ (.mapped r, true) ∈ rel) :=
    fun r hr => hrel.code last rfl (.mapped r) (by
      rw [List.getLast?_map, Option.mem_def.mp hr]
      rfl)
  have hptr : (rs.map Ptr.mapped).Nodup := hnd.of_append_left.map fun _ _ h => Ptr.mapped.inj h
  have hrelnd : rel.Nodup := (hrel.sublist.nodup hptr).of_map
  have hlength : (e.result ⟨errorNone, buffer, []⟩ rs).oldBuffers.length = rs.length := by
    cases e <;> simp [SearchEnd.result]
  have hmaps : mappings (t₀ ++ t₁) = ((rs ++ e.mapped).map Ptr.mapped).map .acquire ++
      releases rel := by rw [mappings_append, hmaps₀, hrel.mappings_eq]
  have htries : tries (t₀ ++ t₁) = rs.map (.tested · errorNotAligned) ++ e.tries := by
    rw [tries_append, htries₀, hrel.tries_eq, List.append_nil]
  rcases allocTail_run htail with ⟨hlt, rfl, rfl, hout⟩ |
    ⟨hfail, ⟨hbuffer, rfl, hout⟩ | ⟨hbuffer, o', rel₂, hrel₂, hout⟩⟩
  · -- success
    obtain ⟨rfl, rfl⟩ := Prod.mk.inj (Option.some.inj hout)
    rw [List.append_nil]
    rw [hlength] at hlt
    cases e with
    | exhausted => exact absurd hfits (Nat.ne_of_lt hlt)
    | failed =>
      rw [SearchEnd.mapped, List.append_nil] at hmaps
      exact contract_failed htries hfits hmaps (fun h => Option.some_injective _ (hnil h)) hcode _
    | tested b code =>
      exact contract_handed_out htries hfits hmaps hrel.sublist hnd
        (fun h => (Option.some_injective _ (hnil h)).symm) fun r hr => (hcode r hr).mp rfl
  · -- no buffer to release
    obtain ⟨rfl, rfl⟩ := Prod.mk.inj (Option.some.inj hout)
    rw [List.append_nil]
    cases e with
    | exhausted =>
      obtain ⟨r, hr⟩ : ∃ r, rs.getLast? = some r :=
        Option.ne_none_iff_exists'.mp (by simpa [← List.length_pos_iff] using hfits ▸ hn)
      simp [SearchEnd.result, hr] at hbuffer
    | failed =>
      rw [SearchEnd.mapped, List.append_nil] at hmaps
      exact contract_failed htries hfits hmaps (fun h => Option.some_injective _ (hnil h)) hcode _
    | tested b code => exact absurd hbuffer (by simp [SearchEnd.result])
  · -- one more release, which returns
    rcases o' with _ | res
    · cases hout
    obtain ⟨rfl, rfl⟩ := Prod.mk.inj (Option.some.inj hout)
    have hmaps₂ : mappings (t₀ ++ t₁ ++ t₂) = ((rs ++ e.mapped).map Ptr.mapped).map .acquire ++
        releases (rel ++ rel₂) := by
      rw [mappings_append, hmaps, hrel₂.mappings_eq, List.append_assoc, releases_append]
    have htries₂ : tries (t₀ ++ t₁ ++ t₂) = rs.map (.tested · errorNotAligned) ++ e.tries := by
      rw [tries_append, htries, hrel₂.tries_eq, List.append_nil]
    cases e with
    | exhausted =>
      rw [SearchEnd.mapped, List.append_nil] at hmaps₂
      rw [SearchEnd.tries, List.append_nil] at htries₂
      refine contract_exhausted hn htries₂ hfits hmaps₂ hrelnd
        (hrel₂.sublist.nodup (List.nodup_singleton _)).of_map (fun r hr => ?_) _
      refine ⟨hcode r hr, ?_⟩
      have hlast : (SearchEnd.exhausted.result ⟨errorNone, buffer, []⟩ rs).buffer =
          .mapped r := by
        simp [SearchEnd.result, Option.mem_def.mp hr]
      exact hrel₂.code res rfl (.mapped r) (by rw [hlast]; rfl)
    | failed => exact absurd rfl hbuffer
    | tested b code =>
      have herr : last ≠ errorNone := fun h => hfail ⟨hlength ▸ hfits.1, h⟩
      refine contract_error htries₂ hfits hmaps₂ hrel₂.sublist hnd (fun hrs => ?_)
        (fun r hr hmem => herr ((hcode r hr).mpr hmem)) ?_ _
      · rintro rfl
        exact herr (Option.some_injective _ (hnil hrs))
      · split
        · next hres => exact hres
        · exact herr

/-- **The contract of `alloc_aligned`**: it returns, and what it returns is as it should be, if and
only if no release reads a huge page size of 0, and no buffer was rejected, or the last release
fails, or the search found a buffer. -/
theorem allocAligned_contract_iff {cache : CacheInfo} {buffer : Ptr} {t : List Event}
    {o : Option (ErrorT × Ptr)} (h : (allocAligned cache buffer).Run t o)
    (hfresh : Fresh [] (mappings t)) :
    (∃ err buffer', o = some (err, buffer') ∧ AllocContract t err buffer') ↔
      ReleasesReturn cache t ∧ AllocSafe t := by
  rw [← allocAligned_returns_iff h]
  rcases o with _ | ⟨err, buffer'⟩
  · exact iff_of_false (fun ⟨_, _, hnone, _⟩ => by cases hnone) fun hreturns => hreturns.1 rfl
  · rw [and_iff_right (Option.some_ne_none _), ← allocContract_iff h hfresh]
    refine ⟨?_, fun hcontract => ⟨err, buffer', rfl, hcontract⟩⟩
    rintro ⟨_, _, hout, hcontract⟩
    obtain ⟨rfl, rfl⟩ := Prod.mk.inj (Option.some.inj hout)
    exact hcontract

/-- A machine on which the first buffer is rejected, and the second `mmap` comes to `second`: a
buffer with this verdict, or none. -/
def secondTry (second : Option ErrorT) (h : List Event) : (c : Call) → Answer c
  | .mmap _ =>
    ⟨[], if tries h = [] then some 0x800000 else second.map fun _ => 0xc00000⟩
  | .testAlignment .. =>
    ⟨[], if tries h = [] then errorNotAligned else second.getD errorNone⟩
  | c => goodMachine h c

/-- The second buffer is aligned: the contract is kept. -/
theorem allocAligned_contract_iff_secondTry :
    ∃ err buffer', ((allocAligned fourMiBCache .null).exec (secondTry (some errorNone)) []).2 =
        some (err, buffer') ∧
      AllocContract ((allocAligned fourMiBCache .null).exec (secondTry (some errorNone)) []).1
        err buffer' :=
  (allocAligned_contract_iff
    (Prog.run_exec (secondTry (some errorNone)) (allocAligned fourMiBCache .null) [])
    (by decide)).mpr ⟨by decide, .inr (.inr ⟨0xc00000, by decide⟩)⟩

/-- The second `mmap` fails: `alloc_aligned` returns `ERROR_NONE` with `MAP_FAILED`. -/
theorem allocAligned_success_mapFailed :
    ¬ ∀ (cache : CacheInfo) (buffer : Ptr) (t : List Event) (o : Option (ErrorT × Ptr)),
      (allocAligned cache buffer).Run t o → Fresh [] (mappings t) →
        ∃ err buffer', o = some (err, buffer') ∧ AllocContract t err buffer' := by
  intro h
  have hrun := Prog.run_exec (secondTry none) (allocAligned fourMiBCache .null) []
  have hout : ((allocAligned fourMiBCache .null).exec (secondTry none) []).2 =
      some (errorNone, .mapFailed) := by decide
  rw [hout] at hrun
  obtain ⟨err, buffer', heq, hcontract⟩ := h _ _ _ _ hrun (by decide)
  obtain ⟨rfl, rfl⟩ := Prod.mk.inj (Option.some.inj heq)
  obtain ⟨b, -, hb, -⟩ := hcontract.handed_out rfl
  exact absurd hb (by simp)

end CacheNoise
