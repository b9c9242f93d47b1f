import CacheNoise.Alloc.Search
import CacheNoise.General.Ledger

/-!
# What the search leaves behind

The outcome of `alloc_aligned`, read off the calls of a run: the **tries** of the search, and the
ledger of the **mappings** that are made and released.
-/

namespace CacheNoise

open Interaction Ledger

/-! ### What a run shows of its mappings -/

/-- What a try of the search came to: no mapping, or a mapping with the verdict on it. -/
inductive Try
  | failed
  | tested (buffer : UInt64) (code : ErrorT)
  deriving DecidableEq

/-- The try that a call decides. -/
def tryOf : Event → Option Try
  | ⟨.mmap _, a⟩ => if a.value = none then some .failed else none
  | ⟨.testAlignment (.mapped buffer) _, a⟩ => some (.tested buffer a.value)
  | _ => none

/-- The tries of a run, in order. -/
def tries (t : List Event) : List Try := t.filterMap tryOf

/-- The entry of a call in the ledger of the mappings. -/
def mappingOf : Event → Option (Entry Ptr)
  | ⟨.mmap _, a⟩ => a.value.map fun address => .acquire (.mapped address)
  | ⟨.munmap buffer _, a⟩ => some (.release buffer (decide (a.value ≠ -1)))
  | _ => none

/-- The ledger of the mappings. -/
def mappings (t : List Event) : List (Entry Ptr) := t.filterMap mappingOf

/-- The huge page sizes that are read, `none` where `/proc/meminfo` cannot be read. -/
def pageSizes (t : List Event) : List (Option UInt64) :=
  t.filterMap fun
    | ⟨.meminfo, a⟩ => some a.value
    | _ => none

@[simp]
theorem tries_append (t u : List Event) : tries (t ++ u) = tries t ++ tries u :=
  List.filterMap_append

@[simp]
theorem mappings_append (t u : List Event) : mappings (t ++ u) = mappings t ++ mappings u :=
  List.filterMap_append

@[simp]
theorem pageSizes_append (t u : List Event) : pageSizes (t ++ u) = pageSizes t ++ pageSizes u :=
  List.filterMap_append

/-- Calls that have nothing to do with memory show nothing. -/
theorem unmapped_of_kinds {t : List Event} (h : ∀ e ∈ t, e.1.kind ≠ .memory) :
    tries t = [] ∧ mappings t = [] := by
  refine ⟨?_, ?_⟩ <;>
  · refine List.filterMap_eq_nil_iff.mpr fun e he => ?_
    have hkind := h e he
    obtain ⟨c, a⟩ := e
    cases c <;> first | rfl | exact absurd rfl hkind

theorem mappings_singleton_of_kind {e : Event} (he : e.1.kind ≠ .memory) : mappings [e] = [] :=
  (unmapped_of_kinds (List.forall_mem_singleton.mpr he)).2

/-! ### The release of one buffer -/

/-- Only a page size of 0 keeps the loop of `free_aligned` going. -/
theorem munmapLength_eq_none {hugepagesize : UInt64} {totalSize : UInt32}
    (h : munmapLength hugepagesize totalSize = none) : hugepagesize = 0 := by
  by_contra hzero
  have hpos : 0 < hugepagesize.toNat := Nat.pos_of_ne_zero fun h0 =>
    hzero (UInt64.toNat_inj.mp (by rw [h0]; rfl))
  -- the length is at least one huge page
  have hsome : (munmapLength hugepagesize totalSize).isSome := by
    refine Iteration.run_isSome (fun length => hugepagesize.toNat ≤ length.toNat)
      (fun length => totalSize.toNat - length.toNat) (fun length length' hle hstep => ?_) le_rfl
      (by omega)
    have hnext := munmapLengthStep_next hle hstep
    omega
  rw [h] at hsome
  simp at hsome

/-- On a page size of 0 it does, unless there is nothing to release. -/
theorem munmapLength_eq_none_iff {hugepagesize : UInt64} {totalSize : UInt32} :
    munmapLength hugepagesize totalSize = none ↔ hugepagesize = 0 ∧ totalSize ≠ 0 := by
  refine ⟨fun h => ⟨munmapLength_eq_none h, ?_⟩, ?_⟩
  · rintro rfl
    obtain rfl := munmapLength_eq_none h
    exact absurd h (by decide)
  · rintro ⟨rfl, htotal⟩
    refine run_munmapLengthStep_zero (Nat.pos_of_ne_zero fun h0 => htotal ?_) _
    exact UInt32.toNat_inj.mp h0

theorem getHugepagesize_run {t : List Event} {o : Option (Except ErrorT UInt64)}
    (h : getHugepagesize.Run t o) :
    (tries t = [] ∧ mappings t = []) ∧
      ((pageSizes t = [none] ∧ o = some (.error errorIoProcMeminfo)) ∨
        ∃ size, pageSizes t = [some size] ∧ o = some (.ok size)) := by
  obtain ⟨a, t₁, rfl, h₁⟩ := run_sys_bind.mp h
  rcases hsize : a.value with _ | size <;> rw [hsize] at h₁ <;> obtain ⟨rfl, rfl⟩ := h₁
  · exact ⟨⟨rfl, rfl⟩, .inl ⟨by simp [pageSizes, hsize], rfl⟩⟩
  · exact ⟨⟨rfl, rfl⟩, .inr ⟨size, by simp [pageSizes, hsize], rfl⟩⟩

/-- The events `u` try to release `buffers` one after the other, and `o` is the code of the last
release; `rs` lists the buffers that get as far as `munmap`, with `true` for success. -/
structure Releasing (buffers : List Ptr) (u : List Event) (o : Option ErrorT)
    (rs : List (Ptr × Bool)) : Prop where
  tries_eq : tries u = []
  mappings_eq : mappings u = releases rs
  sublist : (rs.map Prod.fst).Sublist buffers
  /-- Only a page size that cannot be read keeps a buffer from `munmap`. -/
  complete : o ≠ none → none ∉ pageSizes u → rs.map Prod.fst = buffers
  code : ∀ err ∈ o, ∀ last ∈ buffers.getLast?, (err = errorNone ↔ (last, true) ∈ rs)
  /-- Only a page size of 0 keeps a release from returning, before it calls `munmap`. -/
  stuck : o = none → some 0 ∈ pageSizes u ∧ rs.length < buffers.length

/-- **Runs of `free_aligned`.** -/
theorem freeAligned_run {buffer : Ptr} {cache : CacheInfo} {u : List Event} {o : Option ErrorT}
    (h : (freeAligned buffer cache).Run u o) : ∃ rs, Releasing [buffer] u o rs := by
  obtain ⟨t₁, t₂, r, rfl, h₁, h₂⟩ | ⟨-, h₁⟩ := Prog.run_bind.mp h
  · obtain ⟨⟨htries, hmappings⟩, ⟨hsize, hr⟩ | ⟨size, hsize, hr⟩⟩ := getHugepagesize_run h₁ <;>
      obtain rfl := Option.some_injective _ hr
    · obtain ⟨rfl, rfl⟩ := h₂
      refine ⟨[], ?_⟩
      constructor <;> simp [htries, hmappings, hsize, releases, errorIoProcMeminfo, errorNone]
    · dsimp only at h₂
      rcases hlength : munmapLength size cache.totalSize with _ | length <;> rw [hlength] at h₂
      · obtain ⟨rfl, rfl⟩ := h₂
        refine ⟨[], ?_⟩
        constructor <;> simp [htries, hmappings, hsize, releases, munmapLength_eq_none hlength]
      · obtain ⟨b, t₂, rfl, rfl, rfl⟩ := run_sys_bind.mp h₂
        have hledger : mappings [⟨.munmap buffer length, b⟩] =
          releases [(buffer, decide (b.value ≠ -1))] := rfl
        refine ⟨[(buffer, decide (b.value ≠ -1))], ?_⟩
        constructor
        · rw [tries_append, htries]
          rfl
        · rw [mappings_append, hmappings, hledger, List.nil_append]
        · exact List.Sublist.refl _
        · exact fun _ _ => rfl
        · rintro err ⟨rfl⟩ last hlast
          obtain rfl : buffer = last := by simpa using hlast
          by_cases hb : b.value = -1 <;> simp [hb, errorMunmap, errorNone]
        · exact fun h => absurd h (by simp)
  · obtain ⟨-, ⟨-, hr⟩ | ⟨size, -, hr⟩⟩ := getHugepagesize_run h₁ <;> exact absurd hr (by simp)

/-- One more release before others. -/
theorem Releasing.cons {buffer : Ptr} {buffers : List Ptr} {u₁ u₂ : List Event} {err₁ : ErrorT}
    {o : Option ErrorT} {r₁ rs : List (Ptr × Bool)} (h₁ : Releasing [buffer] u₁ (some err₁) r₁)
    (h₂ : Releasing buffers u₂ o rs) (hnot : buffer ∉ buffers)
    (hnil : buffers = [] → o = some err₁) :
    Releasing (buffer :: buffers) (u₁ ++ u₂) o (r₁ ++ rs) where
  tries_eq := by rw [tries_append, h₁.tries_eq, h₂.tries_eq, List.nil_append]
  mappings_eq := by
    rw [mappings_append, h₁.mappings_eq, h₂.mappings_eq, releases_append]
  sublist := by
    rw [List.map_append]
    exact h₁.sublist.append h₂.sublist
  complete := by
    intro ho hsizes
    rw [pageSizes_append, List.mem_append, not_or] at hsizes
    rw [List.map_append, h₁.complete (by simp) hsizes.1, h₂.complete ho hsizes.2,
      List.singleton_append]
  code := by
    intro err herr last hlast
    rcases eq_or_ne buffers [] with rfl | hne
    · obtain rfl : buffer = last := by simpa using hlast
      obtain rfl : rs = [] := List.map_eq_nil_iff.mp (List.sublist_nil.mp h₂.sublist)
      obtain rfl : err₁ = err := by simpa [hnil rfl] using herr
      rw [h₁.code err₁ rfl buffer rfl, List.append_nil]
    · rw [List.getLast?_cons_of_ne_nil hne] at hlast
      have hne' : last ≠ buffer := fun h => hnot (h ▸ List.mem_of_mem_getLast? hlast)
      have hnot₁ : (last, true) ∉ r₁ := fun hmem =>
        hne' (List.mem_singleton.mp (h₁.sublist.subset (List.mem_map_of_mem hmem)))
      rw [h₂.code err herr last hlast, List.mem_append, or_iff_right hnot₁]
  stuck := by
    intro ho
    obtain ⟨hzero, hlt⟩ := h₂.stuck ho
    have hle := h₁.sublist.length_le
    rw [List.length_map, List.length_singleton] at hle
    rw [pageSizes_append, List.length_append, List.length_cons]
    exact ⟨List.mem_append_right _ hzero, by omega⟩

/-- **Runs of the release loop.** -/
theorem releaseAll_run {cache : CacheInfo} {buffers : List Ptr} {err₀ : ErrorT} {u : List Event}
    {o : Option ErrorT} (hnd : buffers.Nodup) (h : (releaseAll cache buffers err₀).Run u o) :
    ∃ rs, Releasing buffers u o rs ∧ (buffers = [] → o = some err₀) := by
  induction buffers generalizing err₀ u with
  | nil =>
    obtain ⟨rfl, rfl⟩ := h
    refine ⟨[], ?_, fun _ => rfl⟩
    constructor <;> simp [tries, mappings, releases]
  | cons buffer buffers ih =>
    rw [List.nodup_cons] at hnd
    obtain ⟨u₁, u₂, err₁, rfl, h₁, h₂⟩ | ⟨rfl, h₁⟩ := Prog.run_bind.mp h
    · obtain ⟨r₁, hfirst⟩ := freeAligned_run h₁
      obtain ⟨rs, hrest, hnil⟩ := ih hnd.2 h₂
      exact ⟨r₁ ++ rs, hfirst.cons hrest hnd.1 hnil, fun h => absurd h (by simp)⟩
    · obtain ⟨r₁, hfirst⟩ := freeAligned_run h₁
      refine ⟨r₁, { hfirst with
        sublist := hfirst.sublist.trans (List.singleton_sublist.mpr List.mem_cons_self)
        complete := fun h => absurd rfl h
        code := fun err herr => absurd herr (by simp)
        stuck := fun ho => ?_ }, fun h => absurd h (by simp)⟩
      obtain ⟨hzero, hlt⟩ := hfirst.stuck ho
      exact ⟨hzero, hlt.trans_le (by simp)⟩

/-! ### The search -/

/-- How the search ends: no try is left, or `mmap` fails, or a buffer is not rejected. -/
inductive SearchEnd
  | exhausted
  | failed
  | tested (buffer : UInt64) (code : ErrorT)
  deriving DecidableEq

namespace SearchEnd

/-- The try that ends the search. -/
def tries : SearchEnd → List Try
  | exhausted => []
  | failed => [.failed]
  | tested buffer code => [.tested buffer code]

/-- The buffer that ends the search. -/
def mapped : SearchEnd → List UInt64
  | exhausted | failed => []
  | tested buffer _ => [buffer]

/-- The search with `n` tries can end so after the buffers `rs` were rejected. -/
def Fits (n : ℕ) (rs : List UInt64) : SearchEnd → Prop
  | exhausted => rs.length = n
  | failed => rs.length < n
  | tested _ code => rs.length < n ∧ code ≠ errorNotAligned

/-- The variables after a search from `s` in which the buffers `rs` were rejected. -/
def result (s : Search) (rs : List UInt64) (e : SearchEnd) : Search :=
  let oldBuffers := s.oldBuffers ++ rs.map Ptr.mapped
  match e with
  | exhausted =>
    { err := if rs = [] then s.err else errorNotAligned
      buffer := (rs.map Ptr.mapped).getLastD s.buffer, oldBuffers }
  | failed => { err := errorMmap, buffer := .mapFailed, oldBuffers }
  | tested buffer code => { err := code, buffer := .mapped buffer, oldBuffers }

theorem result_cons (s : Search) (r : UInt64) (rs : List UInt64) (e : SearchEnd) :
    e.result s (r :: rs) = e.result
      { err := errorNotAligned, buffer := .mapped r, oldBuffers := s.oldBuffers ++ [.mapped r] }
      rs := by
  cases e with
  | exhausted =>
    simp only [result, List.map_cons, List.getLastD_cons, List.append_assoc, List.singleton_append,
      if_neg (List.cons_ne_nil r rs), ite_self]
  | failed => simp [result]
  | tested buffer code => simp [result]

end SearchEnd

/-- **Runs of the search**: some buffers are rejected, and then it ends. -/
theorem searchAligned_run {cache : CacheInfo} {hugepagesize : UInt64} {n : ℕ} {s : Search}
    {u : List Event} {o : Option Search}
    (h : (searchAligned cache hugepagesize n s).Run u o) :
    ∃ (rs : List UInt64) (e : SearchEnd), e.Fits n rs ∧ o = some (e.result s rs) ∧
      tries u = rs.map (.tested · errorNotAligned) ++ e.tries ∧
      mappings u = ((rs ++ e.mapped).map Ptr.mapped).map .acquire := by
  induction n generalizing s u with
  | zero =>
    obtain ⟨rfl, rfl⟩ := h
    exact ⟨[], .exhausted, rfl, by simp [SearchEnd.result], rfl, rfl⟩
  | succ n ih =>
    obtain ⟨a, u₁, rfl, h₁⟩ := run_sys_bind.mp h
    rcases hmmap : a.value with _ | r <;> rw [hmmap] at h₁
    · obtain ⟨rfl, rfl⟩ := h₁
      refine ⟨[], .failed, Nat.succ_pos n, by simp [SearchEnd.result], ?_, ?_⟩
      · simp [tries, tryOf, hmmap, SearchEnd.tries]
      · simp [mappings, mappingOf, hmmap, SearchEnd.mapped]
    · obtain ⟨b, u₂, rfl, h₂⟩ := run_sys_bind.mp h₁
      have htries : tries (⟨_, a⟩ :: ⟨_, b⟩ :: u₂) = .tested r b.value :: tries u₂ := by
        simp [tries, tryOf, hmmap]
      have hmappings : mappings (⟨_, a⟩ :: ⟨_, b⟩ :: u₂) = .acquire (.mapped r) :: mappings u₂ :=
        List.filterMap_cons_some (by simp [mappingOf, hmmap])
      rw [htries, hmappings]
      split at h₂
      · next hrejected =>
        obtain ⟨rs, e, hfits, rfl, hrest, hledger⟩ := ih h₂
        refine ⟨r :: rs, e, ?_, ?_, ?_, ?_⟩
        · cases e <;> simp_all [SearchEnd.Fits]
        · rw [SearchEnd.result_cons, hrejected]
        · rw [hrest, hrejected]
          rfl
        · rw [hledger]
          rfl
      · next haccepted =>
        obtain ⟨rfl, rfl⟩ := h₂
        exact ⟨[], .tested r b.value, ⟨Nat.succ_pos n, haccepted⟩, by simp [SearchEnd.result],
          rfl, rfl⟩

/-! ### The whole -/

/-- **Runs of the tail**: success hands out the buffer, and otherwise it goes to `munmap` unless
there is none. -/
theorem allocTail_run {cache : CacheInfo} {n : ℕ} {s : Search} {err : ErrorT} {u : List Event}
    {o : Option (ErrorT × Ptr)} (h : (allocTail cache n s err).Run u o) :
    (s.oldBuffers.length < n ∧ err = errorNone ∧ u = [] ∧ o = some (errorNone, s.buffer)) ∨
      ¬ (s.oldBuffers.length < n ∧ err = errorNone) ∧
        ((s.buffer = .mapFailed ∧ u = [] ∧ o = some (err, .mapFailed)) ∨
          (s.buffer ≠ .mapFailed ∧ ∃ o' rs, Releasing [s.buffer] u o' rs ∧
            o = o'.map fun res => (if res ≠ errorNone then res else err, s.buffer))) := by
  unfold allocTail at h
  split at h
  · next hsuccess =>
    obtain ⟨rfl, rfl⟩ := h
    exact .inl ⟨hsuccess.1, hsuccess.2, rfl, by rw [hsuccess.2]⟩
  · next hfail =>
    refine .inr ⟨hfail, ?_⟩
    split at h
    · next hbuffer =>
      obtain ⟨u₁, u₂, res, rfl, h₁, rfl, rfl⟩ | ⟨rfl, h₁⟩ := Prog.run_bind.mp h
      · obtain ⟨rs, hrel⟩ := freeAligned_run h₁
        rw [List.append_nil]
        exact .inr ⟨hbuffer, some res, rs, hrel, rfl⟩
      · obtain ⟨rs, hrel⟩ := freeAligned_run h₁
        exact .inr ⟨hbuffer, none, rs, hrel, rfl⟩
    · next hbuffer =>
      obtain ⟨rfl, rfl⟩ := h
      rw [not_not] at hbuffer
      exact .inl ⟨hbuffer, rfl, by rw [hbuffer]⟩

/-- The tail makes no try, and releases at most the buffer. -/
theorem allocTail_ledger {cache : CacheInfo} {n : ℕ} {s : Search} {err : ErrorT} {u : List Event}
    {o : Option (ErrorT × Ptr)} (h : (allocTail cache n s err).Run u o) :
    tries u = [] ∧ ∃ rs, mappings u = releases rs ∧ (rs.map Prod.fst).Sublist [s.buffer] := by
  rcases allocTail_run h with ⟨-, -, rfl, -⟩ | ⟨-, ⟨-, rfl, -⟩ | ⟨-, o', rs, hrel, -⟩⟩
  · exact ⟨rfl, [], rfl, List.nil_sublist _⟩
  · exact ⟨rfl, [], rfl, List.nil_sublist _⟩
  · exact ⟨hrel.tries_eq, rs, hrel.mappings_eq, hrel.sublist⟩

theorem getHugepagenr_run {t : List Event} {o : Option (Except ErrorT UInt32)}
    (h : getHugepagenr.Run t o) :
    (tries t = [] ∧ mappings t = []) ∧
      ((∃ res, res ≠ errorNone ∧ o = some (.error res)) ∨ ∃ value, o = some (.ok value)) := by
  obtain ⟨a, t₁, rfl, h₁⟩ := run_sys_bind.mp h
  rcases hread : a.value with _ | _ | value <;> rw [hread] at h₁ <;> obtain ⟨rfl, rfl⟩ := h₁
  · exact ⟨⟨rfl, rfl⟩, .inl ⟨_, by simp [errorIoHugepageNumber, errorNone], rfl⟩⟩
  · exact ⟨⟨rfl, rfl⟩, .inl ⟨_, by simp [errorFmt, errorNone], rfl⟩⟩
  · exact ⟨⟨rfl, rfl⟩, .inr ⟨value, rfl⟩⟩

/-- Before the search, `alloc_aligned` may leave with an error; it maps nothing. -/
theorem allocAligned_setup {cache : CacheInfo} {buffer : Ptr} {t : List Event}
    {o : Option (ErrorT × Ptr)} (h : (allocAligned cache buffer).Run t o) :
    ∃ t₀ t₁, t = t₀ ++ t₁ ∧ (tries t₀ = [] ∧ mappings t₀ = []) ∧
      ((t₁ = [] ∧ ∃ err, err ≠ errorNone ∧ o = some (err, buffer)) ∨
        ∃ (n : ℕ) (hugepagesize : UInt64), 0 < n ∧ Prog.Run (do
          let s ← searchAligned cache hugepagesize n ⟨errorNone, buffer, []⟩
          let err ← releaseAll cache s.oldBuffers s.err
          allocTail cache n s err) t₁ o) := by
  obtain ⟨u₁, v₁, r, rfl, h₁, k₁⟩ | ⟨-, h₁⟩ := Prog.run_bind.mp h
  swap
  · obtain ⟨-, ⟨_, -, hr⟩ | ⟨_, hr⟩⟩ := getHugepagenr_run h₁ <;> exact absurd hr (by simp)
  obtain ⟨hquiet₁, hr₁⟩ := getHugepagenr_run h₁
  rcases hr₁ with ⟨res, hres, hr⟩ | ⟨maxTries, hr⟩ <;> obtain rfl := Option.some_injective _ hr
  · exact ⟨u₁, v₁, rfl, hquiet₁, .inl ⟨k₁.1, res, hres, k₁.2⟩⟩
  dsimp only at k₁
  split at k₁
  · exact ⟨u₁, v₁, rfl, hquiet₁, .inl ⟨k₁.1, errorNoHugepages,
      by simp [errorNoHugepages, errorNone], k₁.2⟩⟩
  next hmax =>
  obtain ⟨u₂, v₂, r, rfl, h₂, k₂⟩ | ⟨-, h₂⟩ := Prog.run_bind.mp k₁
  swap
  · obtain ⟨-, ⟨-, hr⟩ | ⟨_, -, hr⟩⟩ := getHugepagesize_run h₂ <;> exact absurd hr (by simp)
  obtain ⟨hquiet₂, hr₂⟩ := getHugepagesize_run h₂
  have hquiet : tries (u₁ ++ u₂) = [] ∧ mappings (u₁ ++ u₂) = [] := by
    rw [tries_append, mappings_append, hquiet₁.1, hquiet₁.2, hquiet₂.1, hquiet₂.2]
    exact ⟨rfl, rfl⟩
  rw [← List.append_assoc]
  rcases hr₂ with ⟨-, hr⟩ | ⟨size, -, hr⟩ <;> obtain rfl := Option.some_injective _ hr
  · exact ⟨u₁ ++ u₂, v₂, rfl, hquiet, .inl ⟨k₂.1, errorIoProcMeminfo,
      by simp [errorIoProcMeminfo, errorNone], k₂.2⟩⟩
  obtain ⟨a, v₃, rfl, k₃⟩ := run_sys_bind.mp k₂
  have hquiet₃ : tries (u₁ ++ u₂ ++ [⟨_, a⟩]) = [] ∧ mappings (u₁ ++ u₂ ++ [⟨_, a⟩]) = [] := by
    rw [tries_append, mappings_append, hquiet.1, hquiet.2]
    exact ⟨rfl, rfl⟩
  rw [List.append_cons]
  refine ⟨_, v₃, rfl, hquiet₃, ?_⟩
  split at k₃
  · exact .inl ⟨k₃.1, errorAllocation, by simp [errorAllocation, errorNone], k₃.2⟩
  · refine .inr ⟨maxTries.toNat, size, ?_, k₃⟩
    rw [UInt32.lt_iff_toNat_lt] at hmax
    simp at hmax
    omega

/-- **Runs of `alloc_aligned`**: it leaves early, or it searches and then releases the rejected
buffers; if all releases return, its tail ends it. -/
theorem allocAligned_run {cache : CacheInfo} {buffer : Ptr} {t : List Event}
    {o : Option (ErrorT × Ptr)} (h : (allocAligned cache buffer).Run t o)
    (hfresh : Fresh [] (mappings t)) :
    (tries t = [] ∧ mappings t = [] ∧ ∃ err, err ≠ errorNone ∧ o = some (err, buffer)) ∨
      ∃ (n : ℕ) (rs : List UInt64) (e : SearchEnd) (t₀ t₁ t₂ : List Event) (o₁ : Option ErrorT)
        (rel : List (Ptr × Bool)), t = t₀ ++ t₁ ++ t₂ ∧
        (0 < n ∧ e.Fits n rs ∧ (rs ++ e.mapped).Nodup) ∧
        (tries t₀ = rs.map (.tested · errorNotAligned) ++ e.tries ∧
          mappings t₀ = ((rs ++ e.mapped).map Ptr.mapped).map .acquire) ∧
        (Releasing (rs.map Ptr.mapped) t₁ o₁ rel ∧
          (rs = [] → o₁ = some (e.result ⟨errorNone, buffer, []⟩ rs).err)) ∧
        ((o₁ = none ∧ t₂ = [] ∧ o = none) ∨ ∃ err, o₁ = some err ∧
          (allocTail cache n (e.result ⟨errorNone, buffer, []⟩ rs) err).Run t₂ o) := by
  obtain ⟨t₀, t', rfl, hquiet, ⟨rfl, hearly⟩ | ⟨n, size, hn, hrun⟩⟩ := allocAligned_setup h
  · rw [List.append_nil]
    exact .inl ⟨hquiet.1, hquiet.2, hearly⟩
  refine .inr ?_
  obtain ⟨u₁, v₁, s, rfl, h₁, k₁⟩ | ⟨-, h₁⟩ := Prog.run_bind.mp hrun
  swap
  · obtain ⟨_, _, -, hs, -⟩ := searchAligned_run h₁
    exact absurd hs (by simp)
  obtain ⟨rs, e, hfits, hs, htries, hmaps⟩ := searchAligned_run h₁
  obtain rfl := Option.some_injective _ hs
  have hmaps' : mappings (t₀ ++ u₁) = ((rs ++ e.mapped).map Ptr.mapped).map .acquire := by
    rw [mappings_append, hquiet.2, hmaps, List.nil_append]
  have hnd : (rs ++ e.mapped).Nodup := by
    rw [← List.append_assoc, mappings_append, hmaps'] at hfresh
    have hacquired := Fresh.of_acquire (along_append.mp hfresh).1 List.nodup_nil
    exact List.Nodup.of_map _ hacquired
  have hold : (e.result ⟨errorNone, buffer, []⟩ rs).oldBuffers = rs.map Ptr.mapped := by
    cases e <;> rfl
  have hptr : (rs.map Ptr.mapped).Nodup :=
    (hnd.of_append_left).map fun _ _ h => Ptr.mapped.inj h
  have hempty : ∀ {o₁ : Option ErrorT},
      ((e.result ⟨errorNone, buffer, []⟩ rs).oldBuffers = [] →
        o₁ = some (e.result ⟨errorNone, buffer, []⟩ rs).err) →
          rs = [] → o₁ = some (e.result ⟨errorNone, buffer, []⟩ rs).err := fun h hrs =>
    h (by rw [hold, hrs]; rfl)
  obtain ⟨u₂, v₂, err, rfl, h₂, k₂⟩ | ⟨ho, h₂⟩ := Prog.run_bind.mp k₁ <;>
    obtain ⟨rel, hrel, hnil⟩ := releaseAll_run (hold ▸ hptr) h₂ <;> rw [hold] at hrel
  · exact ⟨n, rs, e, t₀ ++ u₁, u₂, v₂, some err, rel, by simp, ⟨hn, hfits, hnd⟩,
      ⟨by rw [tries_append, hquiet.1, htries, List.nil_append], hmaps'⟩, ⟨hrel, hempty hnil⟩,
      .inr ⟨err, rfl, k₂⟩⟩
  · exact ⟨n, rs, e, t₀ ++ u₁, v₁, [], none, rel, by simp, ⟨hn, hfits, hnd⟩,
      ⟨by rw [tries_append, hquiet.1, htries, List.nil_append], hmaps'⟩, ⟨hrel, hempty hnil⟩,
      .inl ⟨rfl, rfl, ho⟩⟩

/-! ### The ledger of a search -/

section

variable {rs bs : List UInt64} {rel : List (Ptr × Bool)}

/-- Buffers that were mapped may be released one after the other. -/
theorem proper_search (hnd : (rs ++ bs).Nodup)
    (hsub : (rel.map Prod.fst).Sublist (rs.map Ptr.mapped)) (held : List Ptr) :
    Proper held (((rs ++ bs).map Ptr.mapped).map .acquire ++ releases rel) := by
  have hptr : (rs.map Ptr.mapped).Nodup := hnd.of_append_left.map fun _ _ h => Ptr.mapped.inj h
  rw [Proper, along_append, after_acquire]
  refine ⟨proper_acquire held _, proper_releases (hsub.nodup hptr) fun p hp => ?_⟩
  rw [List.map_append]
  exact List.mem_append_right _ (List.mem_append_left _ (hsub.subset hp))

/-- The buffers that were not rejected are still mapped. -/
theorem mem_after_search (hnd : (rs ++ bs).Nodup)
    (hsub : (rel.map Prod.fst).Sublist (rs.map Ptr.mapped)) {b : UInt64} (hb : b ∈ bs) :
    Ptr.mapped b ∈ after [] (((rs ++ bs).map Ptr.mapped).map .acquire ++ releases rel) := by
  rw [after_append, after_acquire, after_releases, List.nil_append]
  refine List.mem_diff_of_mem (List.mem_map_of_mem (List.mem_append_right _ hb)) fun hmem => ?_
  obtain ⟨x, hx, hxb⟩ := List.mem_map.mp hmem
  have hold := hsub.subset (List.mem_map_of_mem (List.mem_of_mem_filter hx))
  rw [hxb, List.mem_map_of_injective fun _ _ h => Ptr.mapped.inj h] at hold
  exact (List.nodup_append.mp hnd).2.2 b hold b hb rfl

/-- They are all that is still mapped, once the others are released. -/
theorem after_search_done (hall : rel.map Prod.fst = rs.map Ptr.mapped)
    (hdone : ∀ x ∈ releases rel, x.Done) :
    after [] (((rs ++ bs).map Ptr.mapped).map .acquire ++ releases rel) = bs.map Ptr.mapped := by
  have hdiff : ∀ l m : List Ptr, (l ++ m).diff l = m := by
    intro l m
    induction l with
    | nil => exact List.diff_nil m
    | cons a l ih => rw [List.cons_append, List.diff_cons, List.erase_cons_head, ih]
  rw [after_append, after_acquire, after_releases_done _ hdone, hall, List.nil_append,
    List.map_append, hdiff]

end

end CacheNoise
