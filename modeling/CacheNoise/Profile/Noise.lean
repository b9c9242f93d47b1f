import CacheNoise.Profile.Text
import CacheNoise.Profile.Measurement

/-!
# The noise of every iteration

A run of `profile` on a cache (`OnCache`): `prime` and `probe` run on it as in one iteration, and
before each call other programs access lines of their own, as many as they like. So do the calls
that print or write; what they access is part of it.

`noise` lists, for each `probe`, the lines that were accessed since the last `prime`. Each matrix
of a run shows the noise of its own iteration and nothing else, whatever was in the cache before
and whatever happens outside of the iterations (`profile_showsNoise`).
-/

namespace CacheNoise

open Interaction

/-! ### The cache during a run -/

section

variable (info : CacheInfo) (phys : ℕ → ℕ) (latency : Latency)

/-- What a call does to the cache. -/
def CallEffect (c : info.State) : Event → info.State → Prop
  | ⟨.prime lineSize setCount wayCount _ (.mapped address), _⟩, c' =>
    prime (cacheCore info phys latency) lineSize setCount wayCount address (2 ^ 32) c = some c'
  | ⟨.probe lineSize setCount wayCount (.mapped address), a⟩, c' =>
    ∃ old, probe (cacheCore info phys latency) lineSize setCount wayCount address (2 ^ 32) c old =
      some (c', a.value)
  | _, c' => c' = c

/-- The events of a run on a cache, with the lines that others access before each of them. -/
inductive OnCache : info.State → List Event → List (List ℕ) → info.State → Prop
  | nil (c : info.State) : OnCache c [] [] c
  | cons {c c' c'' : info.State} {e : Event} {t : List Event} {accesses : List ℕ}
      {others : List (List ℕ)}
      (h : CallEffect info phys latency (accessAll info latency accesses c) e c')
      (hrest : OnCache c' t others c'') : OnCache c (e :: t) (accesses :: others) c''

end

/-- The lines that others access between a `prime` and the next `probe`, for each `probe`;
`since` are those since the last `prime`. -/
def noiseFrom (since : List ℕ) : List Event → List (List ℕ) → List (List ℕ)
  | ⟨.prime .., _⟩ :: t, _ :: others => noiseFrom [] t others
  | ⟨.probe .., _⟩ :: t, accesses :: others =>
    (since ++ accesses) :: noiseFrom (since ++ accesses) t others
  | _ :: t, accesses :: others => noiseFrom (since ++ accesses) t others
  | _, _ => []

/-- The noise of the iterations of a run. -/
def noise (t : List Event) (others : List (List ℕ)) : List (List ℕ) := noiseFrom [] t others

/-- The lines of a program that has no access to the buffer. -/
def CacheInfo.Outside (info : CacheInfo) (phys : ℕ → ℕ) (buffer : UInt64) (line : ℕ) : Prop :=
  ∀ j < info.lines, line ≠ phys (buffer.toNat + j * info.lineSize.toNat) / info.lineSize.toNat

/-- The number of ways of a set that this noise costs. -/
def CacheInfo.missing (info : CacheInfo) (accesses : List ℕ) (set : ℕ) : ℕ :=
  min (distinctIn info accesses set) info.waysOfAssociativity.toNat

/-- **The matrix shows this noise**: in each set, the last ways that it costs took as long as a
miss, and the others as long as a hit. -/
def ShowsNoise (info : CacheInfo) (latency : Latency) (data : UInt64 → UInt32)
    (accesses : List ℕ) : Prop :=
  ∀ set < info.setCount.toNat, ∀ way < info.waysOfAssociativity.toNat,
    data (UInt64.ofNat (set * info.waysOfAssociativity.toNat + way)) =
      (latency.cost (decide (info.waysOfAssociativity.toNat - info.missing accesses set ≤
        way))).toUInt32

/-! ### Parts of a run -/

section

variable {info : CacheInfo} {phys : ℕ → ℕ} {latency : Latency}

theorem OnCache.cons_inv {c c' : info.State} {e : Event} {t : List Event} {others : List (List ℕ)}
    (h : OnCache info phys latency c (e :: t) others c') :
    ∃ accesses others' c₁, others = accesses :: others' ∧
      CallEffect info phys latency (accessAll info latency accesses c) e c₁ ∧
      OnCache info phys latency c₁ t others' c' := by
  cases h with
  | cons heffect hrest => exact ⟨_, _, _, rfl, heffect, hrest⟩

theorem OnCache.append {c c' : info.State} {t u : List Event} {others : List (List ℕ)}
    (h : OnCache info phys latency c (t ++ u) others c') :
    ∃ others₁ others₂ c₁, others = others₁ ++ others₂ ∧ t.length = others₁.length ∧
      OnCache info phys latency c t others₁ c₁ ∧ OnCache info phys latency c₁ u others₂ c' := by
  induction t generalizing c others with
  | nil => exact ⟨[], others, c, rfl, rfl, .nil c, h⟩
  | cons e t ih =>
    obtain _ | ⟨heffect, hrest⟩ := h
    obtain ⟨others₁, others₂, c₁, rfl, hlength, h₁, h₂⟩ := ih hrest
    exact ⟨_ :: others₁, others₂, c₁, rfl, congrArg (· + 1) hlength, .cons heffect h₁, h₂⟩

/-- Calls that neither prime nor probe leave the cache alone, if no others access it. -/
theorem OnCache.idle (c : info.State) {t : List Event}
    (h : ∀ e ∈ t, ∀ c, CallEffect info phys latency c e c) :
    OnCache info phys latency c t (t.map fun _ => []) c := by
  induction t with
  | nil => exact .nil c
  | cons e t ih =>
    obtain ⟨he, ht⟩ := List.forall_mem_cons.mp h
    exact .cons (he c) (ih ht)

theorem OnCache.trans {c c₁ c' : info.State} {t u : List Event} {others₁ others₂ : List (List ℕ)}
    (h₁ : OnCache info phys latency c t others₁ c₁)
    (h₂ : OnCache info phys latency c₁ u others₂ c') :
    OnCache info phys latency c (t ++ u) (others₁ ++ others₂) c' := by
  induction h₁ with
  | nil => exact h₂
  | cons heffect _ ih => exact .cons heffect (ih h₂)

theorem noiseFrom_append (since : List ℕ) {t u : List Event} {others₁ others₂ : List (List ℕ)}
    (hlength : t.length = others₁.length) :
    ∃ since', noiseFrom since (t ++ u) (others₁ ++ others₂) =
      noiseFrom since t others₁ ++ noiseFrom since' u others₂ := by
  induction t generalizing since others₁ with
  | nil =>
    obtain rfl := List.eq_nil_of_length_eq_zero hlength.symm
    exact ⟨since, by cases u <;> rfl⟩
  | cons e t ih =>
    obtain _ | ⟨accesses, others₁⟩ := others₁
    · cases hlength
    have hrest : t.length = others₁.length := Nat.succ.inj hlength
    obtain ⟨c, a⟩ := e
    cases c
    case prime => exact ih [] hrest
    case probe =>
      obtain ⟨since', h⟩ := ih (since ++ accesses) hrest
      exact ⟨since', congrArg _ h⟩
    all_goals exact ih (since ++ accesses) hrest

/-- Without a `probe` there is no noise. -/
theorem noiseFrom_of_not_measures {t : List Event} (h : ∀ e ∈ t, measures e = false)
    (since : List ℕ) (others : List (List ℕ)) : noiseFrom since t others = [] := by
  induction t generalizing since others with
  | nil => cases others <;> rfl
  | cons e t ih =>
    obtain ⟨he, ht⟩ := List.forall_mem_cons.mp h
    obtain _ | ⟨accesses, others⟩ := others
    · obtain ⟨c, a⟩ := e
      cases c <;> rfl
    obtain ⟨c, a⟩ := e
    cases c
    case probe => cases he
    all_goals exact ih ht _ _

theorem accessAll_append (xs ys : List ℕ) (c : info.State) :
    accessAll info latency (xs ++ ys) c = accessAll info latency ys (accessAll info latency xs c) :=
  List.foldl_append

/-! ### Every matrix shows its noise -/

/-- The matrices of these events show their noise, in whatever state they start. -/
def ShowAll (info : CacheInfo) (phys : ℕ → ℕ) (latency : Latency) (buffer : UInt64)
    (t : List Event) : Prop :=
  ∀ since c others c', OnCache info phys latency c t others c' →
    (∀ accesses ∈ others, ∀ line ∈ accesses, info.Outside phys buffer line) →
      List.Forall₂ (ShowsNoise info latency) (t.filterMap measuredBy) (noiseFrom since t others)

variable {buffer : UInt64}

theorem ShowAll.append {t u : List Event} (ht : ShowAll info phys latency buffer t)
    (hu : ShowAll info phys latency buffer u) : ShowAll info phys latency buffer (t ++ u) := by
  intro since c others c' h hothers
  obtain ⟨others₁, others₂, c₁, rfl, hlength, h₁, h₂⟩ := h.append
  obtain ⟨since', hnoise⟩ := noiseFrom_append since hlength
  rw [hnoise, List.filterMap_append]
  exact List.rel_append (ht since c others₁ c₁ h₁ fun a ha => hothers a (by simp [ha]))
    (hu since' c₁ others₂ c' h₂ fun a ha => hothers a (by simp [ha]))

theorem showAll_of_not_measures {t : List Event} (h : ∀ e ∈ t, measures e = false) :
    ShowAll info phys latency buffer t := by
  intro since c others c' _ _
  rw [noiseFrom_of_not_measures h, List.filterMap_eq_nil_iff.mpr fun e he =>
    measuredBy_eq_none (h e he)]
  exact .nil

/-- What `prime` and `probe` do to the cache when nothing is in between but the noise. -/
theorem showsNoise_of_probe (hsets : 0 < info.setCount.toNat)
    (hways : 0 < info.waysOfAssociativity.toNat) (hplaced : Placed phys info buffer)
    {c c₁ c₂ : info.State} {accesses : List ℕ}
    (hothers : ∀ line ∈ accesses, info.Outside phys buffer line) {old data : UInt64 → UInt32}
    (hprime : prime (cacheCore info phys latency) info.lineSize.toUInt64 info.setCount.toUInt64
      info.waysOfAssociativity.toUInt64 buffer (2 ^ 32) c = some c₁)
    (hprobe : probe (cacheCore info phys latency) info.lineSize.toUInt64 info.setCount.toUInt64
      info.waysOfAssociativity.toUInt64 buffer (2 ^ 32) (accessAll info latency accesses c₁) old =
        some (c₂, data)) : ShowsNoise info latency data accesses := by
  obtain ⟨d₁, d₂, result, log, hprime', hprobe', -, hsets'⟩ := probe_misses info phys latency buffer
    hsets hways hplaced c accesses hothers old (2 ^ 32) info.setCount.toNat_lt.le
    info.waysOfAssociativity.toNat_lt.le
  obtain rfl := Option.some.inj (hprime.symm.trans hprime')
  obtain ⟨-, rfl⟩ := Prod.mk.inj (Option.some.inj (hprobe.symm.trans hprobe'))
  exact fun set hset way hway => (hsets' set hset).2.2 way hway

section

variable (hsets : 0 < info.setCount.toNat) (hways : 0 < info.waysOfAssociativity.toNat)
  (hplaced : Placed phys info buffer)

include hsets hways hplaced

/-- **The matrix of an iteration** shows the noise of the iteration. -/
theorem Iteration.showAll {output : OutputT} {t : List Event} {r : ErrorT × OutputT}
    (h : Iteration info (.mapped buffer) output t r) : ShowAll info phys latency buffer t := by
  obtain @⟨read, primed, yielded, probed, write, _, hread, hwrite⟩ := h
  have hquiet : ∀ e ∈ write, measures e = false := fun e he =>
    (unmeasured_of_kind (only_outputwMatUi32 _ _ _ _ _ _ hwrite e he)).measures
  intro since c others c' h hothers
  -- the calls of the iteration, each after the accesses of others
  obtain ⟨before, _, _, rfl, rfl, h₁⟩ := h.cons_inv
  obtain ⟨between, _, c₁, rfl, hprime, h₂⟩ := h₁.cons_inv
  obtain ⟨first, _, _, rfl, rfl, h₃⟩ := h₂.cons_inv
  obtain ⟨second, others, c₂, rfl, ⟨old, hprobe⟩, h₄⟩ := h₃.cons_inv
  rw [← accessAll_append] at hprobe
  have hshows : ShowsNoise info latency probed.value (first ++ second) := by
    refine showsNoise_of_probe hsets hways hplaced (fun line hline => ?_) hprime hprobe
    obtain hline | hline := List.mem_append.mp hline
    · exact hothers first (by simp) line hline
    · exact hothers second (by simp) line hline
  exact .cons hshows (showAll_of_not_measures hquiet _ _ _ _ h₄ fun accesses h =>
    hothers accesses (by simp [h]))

theorem Iterations.showAll {output output' : OutputT} {ts : List (List Event)}
    (h : Iterations info (.mapped buffer) output ts output') :
    ShowAll info phys latency buffer ts.flatten := by
  induction h with
  | nil output => exact showAll_of_not_measures fun e he => absurd he List.not_mem_nil
  | cons hiteration _ ih => exact (hiteration.showAll hsets hways hplaced).append ih

/-- An iteration whose write fails has been measured, too. -/
theorem Ends.showAll {iterations fd : UInt32} {j : ℕ} {output : OutputT} {t : List Event}
    {o : Option (ErrorT × OutputT)}
    (h : Ends info (.mapped buffer) iterations fd j output t o) :
    ShowAll info phys latency buffer t := by
  cases h with
  | cut => exact showAll_of_not_measures fun e he => absurd he List.not_mem_nil
  | done _ _ hdisable =>
    exact showAll_of_not_measures fun e he => ((disable_counts hdisable).1 e he).measures
  | seen _ _ hdisable =>
    exact showAll_of_not_measures (List.forall_mem_cons.mpr
      ⟨rfl, fun e he => ((disable_counts hdisable).1 e he).measures⟩)
  | failed _ _ hiteration => exact hiteration.showAll hsets hways hplaced

end

end

/-- **A run of `profile`**, however it ends. -/
theorem profile_showAll {fuel : ℕ} {cache : CacheInfo} {cpu iterations : UInt32} {buffer : UInt64}
    {output : OutputT} {t : List Event} {o : Option (ErrorT × OutputT)}
    (hrun : (profile fuel cache cpu iterations (.mapped buffer) output).Run t o)
    (hsets : 0 < cache.setCount.toNat) (hways : 0 < cache.waysOfAssociativity.toNat)
    {phys : ℕ → ℕ} {latency : Latency} (hplaced : Placed phys cache buffer) :
    ShowAll cache phys latency buffer t := by
  obtain ⟨-, henable⟩ | ⟨fd, start, ts, tail, output', rfl, henable, hts, hends, -⟩ :=
    profile_run hrun
  · exact showAll_of_not_measures fun e he =>
      (within_enable_unmeasured cpu t _ henable e he).1.measures
  · have hstart : ShowAll cache phys latency buffer start := showAll_of_not_measures fun e he =>
      (within_enable_unmeasured cpu start _ henable e he).1.measures
    exact hstart.append ((hts.showAll hsets hways hplaced).append
      (hends.showAll hsets hways hplaced))

/-- **Every matrix of a run of `profile` shows the noise of its own iteration**, whatever was in the
cache before, whatever others access between the iterations, and however the run ends. -/
theorem profile_showsNoise {fuel : ℕ} {cache : CacheInfo} {cpu iterations : UInt32}
    {buffer : UInt64} {output : OutputT} {t : List Event} {o : Option (ErrorT × OutputT)}
    (hrun : (profile fuel cache cpu iterations (.mapped buffer) output).Run t o)
    (hsets : 0 < cache.setCount.toNat) (hways : 0 < cache.waysOfAssociativity.toNat)
    {phys : ℕ → ℕ} {latency : Latency} (hplaced : Placed phys cache buffer)
    {c c' : cache.State} {others : List (List ℕ)}
    (hcache : OnCache cache phys latency c t others c')
    (hothers : ∀ accesses ∈ others, ∀ line ∈ accesses, cache.Outside phys buffer line) :
    List.Forall₂ (ShowsNoise cache latency) (t.filterMap measuredBy) (noise t others) :=
  profile_showAll hrun hsets hways hplaced [] c others c' hcache hothers

/-- A machine on which no signal comes and each measurement is this one. -/
def measuringMachine (data : UInt64 → UInt32) (h : List Event) : (c : Call) → Answer c
  | .probe .. => ⟨[], data⟩
  | c => quietMachine h c

/-- One iteration on this machine. -/
def measuringRun (data : UInt64 → UInt32) : List Event × Option (ErrorT × OutputT) :=
  (profile 2 fourMiBCache 0 1 (.mapped 0x800000) ⟨outputHd5File, .null, 1, 0⟩).exec
    (measuringMachine data) []

/-- Two lines of another program in set 5 of the 4 MiB cache, one of them accessed twice, cost the
last two ways of this set. -/
theorem profile_showsNoise_fourMiB : ∃ data, (measuringRun data).1.filterMap measuredBy = [data] ∧
    List.Forall₂ (ShowsNoise fourMiBCache ⟨4, 40⟩) [data] [[5, 4101, 5, 6]] := by
  have houtside : ∀ line ∈ [5, 4101, 5, 6],
      fourMiBCache.Outside identityMachine.phys 0x800000 line := by
    intro line hline j hj
    change j < 65536 at hj
    change line ≠ (0x800000 + j * 64) % 2 ^ 52 / 64
    have : line ≤ 4101 := by
      revert line
      decide
    omega
  have hplaced := Placed.ofAccepted fourMiBCache_consistent (by decide) fourMiBBuffer
    testAlignment_fourMiB
  obtain ⟨c₁, c₂, data, -, hprime, hprobe, -, -⟩ := probe_misses fourMiBCache identityMachine.phys
    ⟨4, 40⟩ 0x800000 (by decide) (by decide) hplaced (emptyCache fourMiBCache) [5, 4101, 5, 6]
    houtside (fun _ => 0) (2 ^ 32) (by decide) (by decide)
  have hcache : OnCache fourMiBCache identityMachine.phys ⟨4, 40⟩ (emptyCache fourMiBCache)
      (measuringRun data).1 [[], [], [], [], [], [5, 4101], [5, 6], [], [], [], []] c₂ :=
    .cons rfl (.cons rfl (.cons rfl (.cons rfl (.cons hprime (.cons rfl
      (.cons ⟨fun _ => 0, hprobe⟩ (.cons rfl (.cons rfl (.cons rfl (.cons rfl (.nil _)))))))))))
  refine ⟨data, rfl, profile_showsNoise (Prog.run_exec (measuringMachine data) _ []) (by decide)
    (by decide) hplaced hcache fun accesses haccesses line hline => houtside line ?_⟩
  revert line accesses
  decide

end CacheNoise
