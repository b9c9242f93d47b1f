import CacheNoise.Main.Buffers
import CacheNoise.Main.Status
import CacheNoise.Visualize.Recording

/-!
# From the cache to the bars

A run of `main` in the mode `profile` that writes to a file and in which no step fails is a
preparation, one run of `profile`, and a clean-up (`main_measured`). The preparation fixes what the
measurement relies on: the cache that was described, the buffer that was handed out, and an empty
file.

So the visualizer shows the matrices of the run, in order (`main_visualized`). On a machine with a
cache, on which the last alignment test succeeds, each bar is the number of ways of its set that
the noise between the `prime` and the `probe` of this iteration has cost (`main_displaysNoise`).
-/

namespace CacheNoise

open Interaction Ledger

/-! ### The preparation -/

/-- What the calls of `cache_info_new` return and fill in. -/
def descriptions (t : List Event) : List (ErrorT × CacheInfo) :=
  t.filterMap fun
    | ⟨.cacheInfoNew .., a⟩ => some a.value
    | _ => none

/-- A call has described this cache. -/
def Described (cache : CacheInfo) (h : List Event) : Prop := (errorNone, cache) ∈ descriptions h

/-- An event that has nothing to do with memory, the measurement or the file. -/
def Idle (e : Event) : Prop := Apart e ∧ Unrecorded e

/-- A measurement into this file is asked for. -/
def Locals.Requests (s : Locals) (file : String) : Prop :=
  s.arguments.mode = "profile" ∧ s.arguments.outputFile = some file

/-- Nothing has been mapped, measured or written. -/
structure Clear (h : List Event) : Prop where
  blank : Blank h
  empty : h5File h = []

/-- **Ready to measure**: the cache is described, the output goes to an empty file, nothing is
measured yet, and the buffer is what the allocation has handed out. -/
structure Prepared (cache : CacheInfo) (output : OutputT) (buffer : Ptr) (h : List Event) :
    Prop where
  described : Described cache h
  recording : Recording cache output h
  untouched : Untouched h
  ready : Ledger.Fresh [] (mappings h) → Ready buffer h

theorem Described.append {cache : CacheInfo} {h : List Event} (hd : Described cache h)
    (u : List Event) : Described cache (h ++ u) := by
  rw [Described, descriptions, List.filterMap_append]
  exact List.mem_append_left _ hd

theorem idle_of_kind {K : List Kind} {e : Event} (he : e.1.kind ∈ K)
    (hK : Kind.memory ∉ K ∧ Kind.measure ∉ K ∧ Kind.dataset ∉ K ∧ Kind.opening ∉ K) : Idle e :=
  ⟨apart_of_kind he ⟨hK.1, hK.2.1⟩, unrecorded_of_kind (ne_of_mem_of_not_mem he hK.2.2.1)
    (ne_of_mem_of_not_mem he hK.2.2.2) (ne_of_mem_of_not_mem he hK.2.1)⟩

theorem Clear.concat {h : List Event} {e : Event} (hh : Clear h) (he : Idle e) :
    Clear (h ++ [e]) :=
  ⟨hh.blank.append (by simpa using he.1),
    (unrecorded_append (by simpa using he.2)).2.trans hh.empty⟩

theorem measures_of_touched {e : Event} (he : touched e = none) : measures e = false := by
  obtain ⟨c, a⟩ := e
  cases c <;> first | rfl | cases he

/-- Before the first measurement there is nothing to record. -/
theorem Clear.recording {h : List Event} (hh : Clear h) {cache : CacheInfo} {output : OutputT}
    (htype : output.type = outputHd5File) (hiter : output.iter = 0) :
    Recording cache output h := by
  have hnone : h.filterMap measuredBy = [] := List.filterMap_eq_nil_iff.mpr fun e he =>
    measuredBy_eq_none (measures_of_touched (hh.blank.untouched e he))
  refine ⟨htype, by rw [hnone]; exact hiter, ?_⟩
  rw [hnone, hh.empty]
  exact recorded_nil

/-- An output that was opened begins with the number 0. -/
theorem outputcHd5File_output {output output' : OutputT} {file : String} {t : List Event}
    (h : (outputcHd5File output file).Run t (some (errorNone, output'))) :
    output'.type = outputHd5File ∧ output'.iter = 0 := by
  obtain ⟨fileId, t₁, rfl, h₁⟩ := run_sys_bind.mp h
  obtain ⟨mode, t₂, rfl, h₂⟩ := run_sys_bind.mp h₁
  split_ifs at h₂
  · exact absurd (Prod.mk.inj (Option.some_injective _ h₂.2)).1 (by decide)
  · exact absurd (Prod.mk.inj (Option.some_injective _ h₂.2)).1 (by decide)
  · obtain ⟨-, rfl⟩ := Prod.mk.inj (Option.some_injective _ h₂.2)
    exact ⟨rfl, rfl⟩

/-- Idle calls change nothing. -/
theorem Prepared.concat {cache : CacheInfo} {output : OutputT} {buffer : Ptr} {h : List Event}
    {e : Event} (hh : Prepared cache output buffer h) (he : Idle e) :
    Prepared cache output buffer (h ++ [e]) where
  described := hh.described.append _
  recording := hh.recording.append (by simpa using he.2)
  untouched := hh.untouched.append (by simpa [Untouched] using he.1.2)
  ready hfresh := by
    rw [mappings_append] at hfresh
    exact (hh.ready (along_append.mp hfresh).1).concat he.1.1 fun b hb => by
      rw [he.1.2] at hb
      exact absurd hb (by simp)

/-! ### The parts of `main` -/

/-- A part of `main` whose early exits and failures do not matter. -/
abbrev Succeeds {α : Type} (P : Locals → List Event → Prop) (m : Main α)
    (Q : α → Locals → List Event → Prop) : Prop :=
  Cmd.Triple P m Q fun _ _ => True

section

variable (leftToRight : Bool) (file : String)

theorem succeeds_true {α : Type} (m : Main α) :
    Succeeds (fun _ _ => True) m fun _ _ _ => True := by
  rintro s h t (_ | ⟨_ | _, _⟩) - - <;> trivial

/-- The set-up describes the cache. -/
theorem succeeds_setUp_described : Succeeds (fun _ _ => True) (setUp leftToRight)
    fun _ s h => Described s.cache h := by
  refine (succeeds_true _).bind fun thisPid => (succeeds_true _).bind fun _ =>
    (succeeds_true _).bind fun _ => (succeeds_true _).bind fun _ => ?_
  refine triple_exitOnFail_ok fun s h u s' a b _ hbody => ?_
  obtain ⟨c, u', rfl, rfl, ho⟩ := run_sys_bind.mp hbody
  obtain ⟨hres, rfl⟩ := Prod.mk.inj (Option.some_injective _ ho)
  refine List.mem_filterMap.mpr ⟨⟨_, c⟩, by simp [evaluation], congrArg some ?_⟩
  exact Prod.ext hres.symm rfl

theorem succeeds_setUp :
    Succeeds (fun s h => s.Requests file ∧ Clear h) (setUp leftToRight)
      fun _ s h => (s.Requests file ∧ Clear h) ∧ Described s.cache h := by
  have hclear : Succeeds (fun s h => s.Requests file ∧ Clear h) (setUp leftToRight)
      fun _ s h => s.Requests file ∧ Clear h :=
    (frame_setUp leftToRight).triple_of
      (I := fun x h => (x.2.2.mode = "profile" ∧ x.2.2.outputFile = some file) ∧ Clear h)
      (fun x h e he hh => ⟨hh.1, hh.2.concat (idle_of_kind he (by simp))⟩) fun _ _ _ => trivial
  exact (hclear.and (succeeds_setUp_described leftToRight)).mono (fun _ _ h => ⟨h, trivial⟩)
    (fun _ _ _ h => h) fun _ _ _ => trivial

theorem succeeds_checkRights :
    Succeeds (fun s h => (s.Requests file ∧ Clear h) ∧ Described s.cache h)
      (checkRights leftToRight)
      fun _ s h => (s.Requests file ∧ Clear h) ∧ Described s.cache h :=
  (frame_checkRights leftToRight).triple_of
    (I := fun s h => (s.Requests file ∧ Clear h) ∧ Described s.cache h)
    (fun s h e he hh => ⟨⟨hh.1.1, hh.1.2.concat (idle_of_kind he (by simp))⟩, hh.2.append _⟩)
    fun _ _ _ => trivial

/-- The output goes to an empty file. -/
theorem succeeds_openOutput :
    Succeeds (fun s h => (s.Requests file ∧ Clear h) ∧ Described s.cache h)
      (openOutput leftToRight)
      fun _ s h => (Blank h ∧ Described s.cache h) ∧ Recording s.cache s.output h := by
  have hkeeps : Succeeds (fun s h => Clear h ∧ Described s.cache h) (openOutput leftToRight)
      fun _ s h => Clear h ∧ Described s.cache h := by
    refine (frame_openOutput leftToRight).triple_of (I := fun x h => Clear h ∧ Described x.2.2 h)
      (fun x h e he hh => ⟨⟨hh.1.blank.append ?_, ?_⟩, hh.2.append _⟩) fun _ _ _ => trivial
    · simpa using apart_of_kind he (by simp)
    · -- a file that is created is empty
      rw [h5File_append, hh.1.empty, List.foldl_cons, List.foldl_nil]
      obtain ⟨c, a⟩ := e
      cases c <;> first | rfl | exact ite_self [] | simp at he
  have houtput : Succeeds (fun s _ => s.arguments.outputFile = some file)
      (openOutput leftToRight)
      fun _ s _ => s.output.type = outputHd5File ∧ s.output.iter = 0 := by
    refine Cmd.Triple.bind (M := fun s' _ _ => s'.arguments.outputFile = some file)
      (Cmd.triple_get fun _ _ h => h) fun s' => Cmd.Triple.of_pre (fun _ _ h => h) fun hfile => ?_
    rw [hfile]
    refine triple_exitOnFail_ok fun s h u s' a b _ hbody => ?_
    obtain ⟨u₁, u₂, ⟨res, output⟩, rfl, hopen, -, ho⟩ | ⟨ho, -⟩ := Prog.run_bind.mp hbody
    swap
    · cases ho
    obtain ⟨rfl, rfl⟩ := Prod.mk.inj (Option.some_injective _ ho)
    exact outputcHd5File_output hopen
  exact (hkeeps.and houtput).mono (fun _ _ h => ⟨⟨h.1.2, h.2⟩, h.1.1.2⟩)
    (fun _ _ _ h => ⟨⟨h.1.1.blank, h.1.2⟩, h.1.1.recording h.2.1 h.2.2⟩) fun _ _ _ => trivial

/-- The allocation hands out the buffer. -/
theorem succeeds_alloc :
    Succeeds (fun s h => (Blank h ∧ Described s.cache h) ∧ Recording s.cache s.output h)
      (exitOnFail leftToRight .alloc allocStep)
      fun _ s h => Prepared s.cache s.output s.buffer h := by
  have hkeeps : Succeeds (fun s h => (Untouched h ∧ Described s.cache h) ∧
      Recording s.cache s.output h) (exitOnFail leftToRight .alloc allocStep)
      fun _ s h => (Untouched h ∧ Described s.cache h) ∧ Recording s.cache s.output h := by
    refine (frame_alloc leftToRight).triple_of
      (I := fun x h => (Untouched h ∧ Described x.2.2 h) ∧ Recording x.2.2 x.1 h)
      (fun x h e he hh => ⟨⟨hh.1.1.append ?_, hh.1.2.append _⟩, hh.2.append ?_⟩)
      fun _ _ _ => trivial
    · simpa [Untouched] using touched_of_kind (ne_of_mem_of_not_mem he (by simp))
    · simpa using unrecorded_of_kind (ne_of_mem_of_not_mem he (by simp))
        (ne_of_mem_of_not_mem he (by simp)) (ne_of_mem_of_not_mem he (by simp))
  exact (hkeeps.and (triple_alloc_ready leftToRight)).mono
    (fun _ _ h => ⟨⟨⟨h.1.1.untouched, h.1.2⟩, h.2⟩, h.1.1⟩)
    (fun _ _ _ h => ⟨h.1.1.2, h.1.2, h.1.1.1, h.2⟩) fun _ _ _ => trivial

/-- What comes between the allocation and the measurement. -/
theorem succeeds_prepared {κ : Type} {K : List Kind} {f : Locals → κ} {m : Main Unit}
    (hm : Cmd.Frame (fun e => e.1.kind ∈ K) f m)
    (hK : Kind.memory ∉ K ∧ Kind.measure ∉ K ∧ Kind.dataset ∉ K ∧ Kind.opening ∉ K)
    (g : κ → CacheInfo × OutputT × Ptr) (hg : ∀ s, g (f s) = (s.cache, s.output, s.buffer)) :
    Succeeds (fun s h => Prepared s.cache s.output s.buffer h) m
      fun _ s h => Prepared s.cache s.output s.buffer h := by
  have htriple := (hm.mono (fun _ he => idle_of_kind he hK) g).triple_of
    (I := fun x h => Prepared x.1 x.2.1 x.2.2 h) (N := fun _ => True)
    (fun _ _ _ he hh => hh.concat he) fun _ _ _ => trivial
  simpa only [hg] using htriple

/-- **A history of one measurement**: a preparation, a run of `profile` that succeeds, and some
calls that neither measure nor write to the file nor try to map anything. -/
def Measured (fuel : ℕ) (t : List Event) : Prop :=
  ∃ (cache : CacheInfo) (output output' : OutputT) (buffer : Ptr) (cpu iterations : UInt32)
    (before run after : List Event), t = before ++ (run ++ after) ∧
    Prepared cache output buffer before ∧
    (profile fuel cache cpu iterations buffer output).Run run (some (errorNone, output')) ∧
    ∀ e ∈ after, Unrecorded e ∧ tryOf e = none

theorem Measured.append {fuel : ℕ} {t u : List Event} (ht : Measured fuel t)
    (hu : ∀ e ∈ u, Unrecorded e ∧ tryOf e = none) : Measured fuel (t ++ u) := by
  obtain ⟨cache, output, output', buffer, cpu, iterations, before, run, after, rfl, hprepared,
    hrun, hafter⟩ := ht
  refine ⟨cache, output, output', buffer, cpu, iterations, before, run, after ++ u, ?_, hprepared,
    hrun, fun e he => (List.mem_append.mp he).elim (hafter e) (hu e)⟩
  rw [List.append_assoc, List.append_assoc]

theorem succeeds_profile (fuel : ℕ) :
    Succeeds (fun s h => Prepared s.cache s.output s.buffer h)
      (exitOnFail leftToRight .profile (profileStep fuel)) fun _ _ h => Measured fuel h := by
  refine triple_exitOnFail_ok fun s h u s' a b hprepared hbody => ?_
  obtain ⟨u₁, u₂, ⟨res, output⟩, rfl, hprofile, rfl, ho⟩ | ⟨ho, -⟩ := Prog.run_bind.mp hbody
  swap
  · cases ho
  obtain ⟨rfl, -⟩ := Prod.mk.inj (Option.some_injective _ ho)
  have henter : Idle ⟨.enter .profile, a⟩ := idle_of_kind (K := [.step]) (by simp) (by simp)
  refine ⟨_, _, output, _, _, _, h ++ [⟨.enter .profile, a⟩], u₁, [⟨.leave .profile errorNone, b⟩],
    by simp [evaluation], hprepared.concat henter, hprofile, ?_⟩
  rw [List.forall_mem_singleton]
  exact ⟨⟨rfl, fun _ => rfl⟩, rfl⟩

/-! ### Whole runs -/

/-- A run in which no step fails does not leave early. -/
theorem Succeeds.smooth {α : Type} {P : Locals → List Event → Prop} {m : Main α}
    {Q : α → Locals → List Event → Prop} (hm : Succeeds P m Q) (htold : Telling m) :
    Cmd.Triple (fun s h => P s h ∧ Smooth h) m (fun a s h => Q a s h ∧ Smooth h)
      (Told False) := (hm.and htold).mono_exit fun _ _ h => h.2

theorem succeeds_killExternal (fuel : ℕ) :
    Succeeds (fun _ h => Measured fuel h) killExternal fun _ _ h => Measured fuel h :=
  (frame_killExternal.mono (fun _ h => h) fun _ => ()).triple_of (I := fun _ h => Measured fuel h)
    (fun _ _ e he hh => hh.append (by
      have htries : tries [e] = [] := (unmapped_of_kinds (List.forall_mem_singleton.mpr
        (ne_of_mem_of_not_mem he (by simp)))).1
      exact List.forall_mem_singleton.mpr ⟨(idle_of_kind he (by simp)).2,
        List.filterMap_eq_nil_iff.mp htries e (List.mem_singleton_self e)⟩))
    fun _ _ _ => trivial

theorem triple_profileMode_measured (fuel : ℕ) :
    Cmd.Triple (fun s h => ((s.Requests file ∧ Clear h) ∧ Described s.cache h) ∧ Smooth h)
      (profileMode leftToRight fuel) (fun _ _ h => Measured fuel h ∧ Smooth h) (Told False) := by
  have hstart := succeeds_prepared (frame_startExternal leftToRight) (by simp)
    (fun s => (s.cache, s.output, s.buffer)) fun _ => rfl
  have halarm := succeeds_prepared frame_setAlarm (by simp)
    (fun s => (s.cache, s.output, s.buffer)) fun _ => rfl
  refine ((succeeds_openOutput leftToRight file).smooth (telling_openOutput _)).bind fun _ => ?_
  refine ((succeeds_alloc leftToRight).smooth (telling_alloc _)).bind fun _ => ?_
  refine (hstart.smooth (telling_startExternal _)).bind fun _ => ?_
  refine (halarm.smooth telling_setAlarm).bind fun _ => ?_
  exact (succeeds_profile leftToRight fuel).smooth (telling_profile _ _)

theorem triple_mainBody_measured (fuel : ℕ) :
    Cmd.Triple (fun s h => (s.Requests file ∧ Clear h) ∧ Smooth h) (mainBody leftToRight fuel)
      (fun _ _ h => Measured fuel h ∧ Smooth h) (Told False) := by
  have hget : ∀ {P : Locals → List Event → Prop}, Cmd.Triple P (Cmd.get : Main Locals)
      (fun s' s h => s' = s ∧ P s h) (Told False) := fun {P} =>
    Cmd.triple_get fun _ _ h => ⟨rfl, h⟩
  have hmode : ∀ {s' s : Locals} {h : List Event},
      s' = s ∧ ((s.Requests file ∧ Clear h) ∧ Described s.cache h) ∧ Smooth h →
        s'.arguments.mode = "profile" := by
    rintro _ s h ⟨rfl, ⟨⟨hrequests, -⟩, -⟩, -⟩
    exact hrequests.1
  refine ((succeeds_setUp leftToRight file).smooth (telling_setUp _)).bind fun _ =>
    hget.bind fun s => Cmd.Triple.of_pre (fun _ _ => hmode) fun hs => ?_
  rw [if_neg (by rw [hs]; decide)]
  refine Cmd.Triple.bind (((succeeds_checkRights leftToRight file).smooth
    (telling_checkRights _)).mono (fun _ _ h => h.2) (fun _ _ _ h => h) fun _ _ h => h)
    fun _ => Cmd.Triple.bind (M := fun _ _ h => Measured fuel h ∧ Smooth h) ?_ fun _ =>
      (succeeds_killExternal fuel).smooth telling_killExternal
  refine hget.bind fun s => Cmd.Triple.of_pre (fun _ _ => hmode) fun hs => ?_
  rw [if_neg (by rw [hs]; decide), if_pos hs]
  exact (triple_profileMode_measured leftToRight file fuel).mono (fun _ _ h => h.2)
    (fun _ _ _ h => h) fun _ _ h => h

/-- **Runs of `main` that measure into a file**: if no step fails, and it returns 0, it is a
preparation, one run of `profile`, and a clean-up. -/
theorem main_measured {fuel : ℕ} {arguments : Arguments} {garbage : Locals} {t : List Event}
    (h : (main leftToRight fuel arguments garbage).Run t (some 0)) (hsteps : NoStepFails t)
    (hmode : arguments.mode = "profile") (hfile : arguments.outputFile = some file) :
    Measured fuel t := by
  have hempty : Clear [] := ⟨⟨rfl, rfl, fun e he => absurd he List.not_mem_nil⟩, rfl⟩
  have hsmooth : Smooth [] := ⟨by simp [NoStepFails, left], by simp [Refused]⟩
  obtain ⟨t₁, t₂, r, s, o', rfl, hr, h₁, h₂, -⟩ | ⟨s, -, ho⟩ | ⟨-, ho⟩ := main_run leftToRight h
  · have hq := triple_mainBody_measured leftToRight file fuel _ [] t₁ _
      ⟨⟨⟨hmode, hfile⟩, hempty⟩, hsmooth⟩ h₁
    obtain hfailed | _ := r
    · obtain _ | _ := hfailed
      · exact (hq.1 (noStepFails_append.mp hsteps).1).elim
      · exact absurd rfl hr
    · refine hq.1.append fun e he => ⟨?_, ?_⟩
      · have hkind := only_finalize s t₂ o' h₂ e he
        exact unrecorded_of_kind (ne_of_mem_of_not_mem hkind (by simp))
          (ne_of_mem_of_not_mem hkind (by simp)) (ne_of_mem_of_not_mem hkind (by simp))
      · exact List.filterMap_eq_nil_iff.mp (finalize_quiet h₂).1 e he
  · cases ho
  · cases ho

end

/-! ### What the visualizer shows of a run -/

/-- The calls that describe the cache describe this one, or fail. -/
def AlwaysDescribed (cache : CacheInfo) (t : List Event) : Prop :=
  ∀ r ∈ descriptions t, r.1 = errorNone → r.2 = cache

theorem Described.eq {cache cache' : CacheInfo} {h u : List Event} (hd : Described cache' h)
    (hall : AlwaysDescribed cache (h ++ u)) : cache' = cache := hall _ (hd.append u) rfl

/-- **What the visualizer makes of a run of `main`**: all matrices that were measured, in order, and
nothing else. -/
theorem main_visualized {leftToRight : Bool} {fuel : ℕ} {arguments : Arguments}
    {garbage : Locals} {t : List Event} {file : String}
    (h : (main leftToRight fuel arguments garbage).Run t (some 0)) (hsteps : NoStepFails t)
    (hmode : arguments.mode = "profile") (hfile : arguments.outputFile = some file)
    {cache : CacheInfo} (hcache : AlwaysDescribed cache t)
    (hways : 0 < cache.waysOfAssociativity.toNat) (hsets : 0 < cache.setCount.toNat) :
    Visualizes cache.waysOfAssociativity.toUInt64 cache.setCount.toUInt64
      (t.filterMap measuredBy) (h5File t) := by
  obtain ⟨cache', output, output', buffer, cpu, iterations, before, run, after, rfl, hprepared,
    hrun, hafter⟩ := main_measured leftToRight file h hsteps hmode hfile
  obtain rfl := hprepared.described.eq hcache
  have hrecording := (profile_recording hrun hprepared.recording).append
    fun e he => (hafter e he).1
  rw [List.append_assoc] at hrecording
  exact hrecording.recorded.visualizes (toUInt64_ne_zero hways) (toUInt64_ne_zero hsets)

/-- The buffer that a call tests, with the page size and the code. -/
def testOf : Event → Option (UInt64 × UInt64 × ErrorT)
  | ⟨.testAlignment (.mapped buffer) size, a⟩ => some (buffer, size, a.value)
  | _ => none

/-- The tests of a run. -/
def tests (t : List Event) : List (UInt64 × UInt64 × ErrorT) := t.filterMap testOf

/-- The machine `m` answers the calls that ask about the cache and about the buffers: what is
tested lies in huge pages, and the code is the one of the alignment test on this machine. -/
structure AnsweredBy (m : Machine) (cache : CacheInfo) (t : List Event) : Prop where
  described : AlwaysDescribed cache t
  tested : ∀ x ∈ tests t, cache.lineSize.toNat ∣ x.2.1.toNat ∧
    Nonempty (HugeBuffer m x.1 cache.totalSize.toNat x.2.1.toNat) ∧
      ∃ fuel, testAlignment m.toOs x.1 cache x.2.1 fuel = some x.2.2

/-- A try with a verdict is a test. -/
theorem exists_testOf {e : Event} {address : UInt64} {code : ErrorT}
    (h : tryOf e = some (.tested address code)) :
    ∃ size, testOf e = some (address, size, code) := by
  obtain ⟨c, a⟩ := e
  cases c
  case testAlignment buffer size =>
    obtain _ | _ | address' := buffer
    · cases h
    · cases h
    obtain ⟨rfl, rfl⟩ := Try.tested.inj (Option.some_injective _ h)
    exact ⟨size, rfl⟩
  case mmap =>
    change (if a.value = none then some Try.failed else none) = _ at h
    split_ifs at h
    cases h
  all_goals cases h

/-- The buffer that was accepted last is placed. -/
theorem AnsweredBy.placed {m : Machine} {cache : CacheInfo} {t : List Event}
    (hm : AnsweredBy m cache t) (hcache : cache.Consistent) {address : UInt64}
    (hlast : LastAccepted address t) : Placed m.phys cache address := by
  obtain ⟨e, he, htry⟩ := List.mem_filterMap.mp (List.mem_of_getLast? hlast)
  obtain ⟨size, hsize⟩ := exists_testOf htry
  obtain ⟨hdvd, ⟨b⟩, fuel, htest⟩ := hm.tested _ (List.mem_filterMap.mpr ⟨e, he, hsize⟩)
  exact Placed.ofAccepted hcache hdvd b htest

/-- The row of a set in the heatmap of an iteration with this noise: the ways that hit, and then
those that miss. -/
def noiseRow (cache : CacheInfo) (latency : Latency) (accesses : List ℕ) (set : ℕ) : List ℕ :=
  List.replicate (cache.waysOfAssociativity.toNat - cache.missing accesses set)
    latency.hit.toNat ++ List.replicate (cache.missing accesses set) latency.miss.toNat

/-- **The noise is shown**: frame `k` of the bar chart and of the heatmap shows, for every set, how
many of its ways the noise of iteration `k` has cost, and there are no other frames. -/
structure DisplaysNoise (cache : CacheInfo) (latency : Latency) (noises : List (List ℕ))
    (file : H5File) : Prop where
  heatmap : ∀ pool k accesses, noises[k]? = some accesses → readFrame false file 1 pool k =
    .ok ((List.range cache.setCount.toNat).map (noiseRow cache latency accesses))
  bars : ∀ pool k accesses, noises[k]? = some accesses → readFrame true file 1 pool k =
    .ok ((List.range cache.setCount.toNat).map fun set =>
      (cache.waysOfAssociativity.toNat - cache.missing accesses set) * latency.hit.toNat +
        cache.missing accesses set * latency.miss.toNat)
  stop : ∀ combineLines pool k, noises.length ≤ k →
    readFrame combineLines file 1 pool k = .error .keyError

section

variable {cache : CacheInfo} {latency : Latency} {data : UInt64 → UInt32} {accesses : List ℕ}

/-- The values of a matrix that shows this noise. -/
theorem ShowsNoise.row_eq (h : ShowsNoise cache latency data accesses)
    (hhit : latency.hit.toNat < 2 ^ 31) (hmiss : latency.miss.toNat < 2 ^ 31) {set : ℕ}
    (hset : set < cache.setCount.toNat) :
    (List.range cache.waysOfAssociativity.toNat).map
      (survived data cache.waysOfAssociativity.toUInt64 set) =
        noiseRow cache latency accesses set := by
  have hcost : ∀ missed, survivor (latency.cost missed).toUInt32.toNat =
      (latency.cost missed).toNat := by
    intro missed
    have hlt : (latency.cost missed).toNat < 2 ^ 31 := by
      rw [Latency.cost]
      split
      · exact hmiss
      · exact hhit
    rw [UInt64.toNat_toUInt32, Nat.mod_eq_of_lt (hlt.trans (by norm_num)), survivor, if_pos hlt]
  have hvalue : ∀ way < cache.waysOfAssociativity.toNat,
      survived data cache.waysOfAssociativity.toUInt64 set way =
        (latency.cost (decide (cache.waysOfAssociativity.toNat - cache.missing accesses set ≤
          way))).toNat := by
    intro way hway
    rw [survived, UInt32.toNat_toUInt64, h set hset way hway, hcost]
  -- the ways that hit, and those that miss
  have hle : cache.missing accesses set ≤ cache.waysOfAssociativity.toNat := min_le_right _ _
  obtain ⟨hits, hsplit⟩ := Nat.exists_eq_add_of_le' hle
  have hsub : cache.waysOfAssociativity.toNat - cache.missing accesses set = hits := by omega
  rw [noiseRow, hsub, hsplit, List.range_add, List.map_append]
  congr 1
  · refine List.eq_replicate_iff.mpr ⟨by simp, fun value hvalue' => ?_⟩
    obtain ⟨way, hway, rfl⟩ := List.mem_map.mp hvalue'
    rw [List.mem_range] at hway
    rw [hvalue way (by omega), hsub, decide_eq_false (by omega)]
    rfl
  · refine List.eq_replicate_iff.mpr ⟨by simp, fun value hvalue' => ?_⟩
    obtain ⟨_, hmem, rfl⟩ := List.mem_map.mp hvalue'
    obtain ⟨way, hway, rfl⟩ := List.mem_map.mp hmem
    rw [List.mem_range] at hway
    rw [hvalue (hits + way) (by omega), hsub, decide_eq_true (by omega)]
    rfl

/-- The frames of such a matrix. -/
theorem ShowsNoise.frameOf_eq (h : ShowsNoise cache latency data accesses)
    (hhit : latency.hit.toNat < 2 ^ 31) (hmiss : latency.miss.toNat < 2 ^ 31)
    (combineLines : Bool) :
    frameOf combineLines cache.setCount.toUInt64 cache.waysOfAssociativity.toUInt64
      (survived data cache.waysOfAssociativity.toUInt64) =
        (List.range cache.setCount.toNat).map fun set =>
          Item.ofRow combineLines (noiseRow cache latency accesses set) := by
  rw [frameOf, UInt32.toNat_toUInt64, UInt32.toNat_toUInt64]
  refine List.map_congr_left fun set hset => congrArg _ ?_
  exact h.row_eq hhit hmiss (List.mem_range.mp hset)

end

/-- **From the cache to the bars**: a run of `main` that succeeds on a machine whose last alignment
test succeeds leaves a file in which the visualizer shows the noise of every iteration, whatever
others access during the run. -/
theorem main_displaysNoise {leftToRight : Bool} {fuel : ℕ} {arguments : Arguments}
    {garbage : Locals} {t : List Event} {file : String}
    (h : (main leftToRight fuel arguments garbage).Run t (some 0)) (hsteps : NoStepFails t)
    (hmode : arguments.mode = "profile") (hfile : arguments.outputFile = some file)
    (hfresh : Ledger.Fresh [] (mappings t)) {address : UInt64} (hlast : LastAccepted address t)
    {m : Machine} {cache : CacheInfo} (hcache : cache.Consistent) (hm : AnsweredBy m cache t)
    {latency : Latency} (hhit : latency.hit.toNat < 2 ^ 31) (hmiss : latency.miss.toNat < 2 ^ 31)
    {c c' : cache.State} {others : List (List ℕ)}
    (hon : OnCache cache m.phys latency c t others c')
    (hothers : ∀ accesses ∈ others, ∀ line ∈ accesses, cache.Outside m.phys address line) :
    DisplaysNoise cache latency (noise t others) (h5File t) := by
  have hshows : List.Forall₂ (ShowsNoise cache latency) (t.filterMap measuredBy)
      (noise t others) := by
    obtain ⟨cache', output, output', buffer, cpu, iterations, before, run, after, rfl, hprepared,
      hrun, hafter⟩ := main_measured leftToRight file h hsteps hmode hfile
    obtain rfl := hprepared.described.eq hm.described
    -- no try is made after the preparation
    have htries : tries (before ++ (run ++ after)) = tries before := by
      rw [tries_append, tries_append, (unmapped_of_kinds fun e he =>
        ne_of_mem_of_not_mem (only_profile _ _ _ _ _ _ _ _ hrun e he) (by simp)).1, tries,
        tries, List.filterMap_eq_nil_iff.mpr fun e he => (hafter e he).2, List.append_nil,
        List.append_nil]
    have hlast' : LastAccepted address before := by rwa [LastAccepted, htries] at hlast
    rw [mappings_append] at hfresh
    obtain ⟨-, -, address', rfl, haccepted⟩ :=
      (hprepared.ready (along_append.mp hfresh).1).resolve_right hlast'.not_noneAccepted
    obtain rfl : address' = address :=
      (Try.tested.inj (Option.some_injective _ (haccepted.symm.trans hlast'))).1
    have hall : ShowAll cache' m.phys latency address' (before ++ (run ++ after)) :=
      (showAll_of_not_measures fun e he => measures_of_touched (hprepared.untouched e he)).append
        ((profile_showAll hrun hcache.setCount_pos hcache.ways_pos (hm.placed hcache hlast)).append
          (showAll_of_not_measures fun e he => (hafter e he).1.1))
    exact hall [] c others c' hon hothers
  have hvisualizes := main_visualized h hsteps hmode hfile hm.described hcache.ways_pos
    hcache.setCount_pos
  have hlength := hshows.length_eq
  have hframe : ∀ combineLines pool k accesses, (noise t others)[k]? = some accesses →
      readFrame combineLines (h5File t) 1 pool k =
        .ok ((List.range cache.setCount.toNat).map fun set =>
          Item.ofRow combineLines (noiseRow cache latency accesses set)) := by
    intro combineLines pool k accesses hk
    obtain ⟨hlt, rfl⟩ := List.getElem?_eq_some_iff.mp hk
    have hdata := List.getElem?_eq_getElem (hlength ▸ hlt : k < (t.filterMap measuredBy).length)
    rw [hvisualizes.frame combineLines pool k _ hdata]
    exact congrArg _ ((hshows.get _ hlt).frameOf_eq hhit hmiss combineLines)
  refine ⟨hframe false, fun pool k accesses hk => ?_, fun combineLines pool k hk => ?_⟩
  · rw [hframe true pool k accesses hk]
    refine congrArg _ (List.map_congr_left fun set _ => ?_)
    change List.sum (noiseRow cache latency accesses set) = _
    rw [noiseRow, List.sum_append, List.sum_replicate, List.sum_replicate, smul_eq_mul,
      smul_eq_mul]
  · exact hvisualizes.stop combineLines pool k (hlength ▸ hk)

/-! ### One measurement -/

/-- A part that ends normally, and the rest. -/
theorem part_bind {m : Main Unit} {f : Unit → Main Unit} {s : Locals} (s' : Locals)
    {t₁ t₂ : List Event} {o : Option (Except Exit Unit × Locals)}
    (h₁ : (m s).Run t₁ (some (.ok (), s'))) (h₂ : (f () s').Run t₂ o) :
    ((m >>= f) s).Run (t₁ ++ t₂) o :=
  Cmd.run_bind.mpr (.inl ⟨t₁, t₂, (), s', rfl, h₁, h₂⟩)

/-- A call that does not touch a buffer leaves the cache alone. -/
theorem callEffect_of_untouched {info : CacheInfo} {phys : ℕ → ℕ} {latency : Latency}
    {c : info.State} {e : Event} (he : touched e = none) : CallEffect info phys latency c e c := by
  obtain ⟨call, a⟩ := e
  cases call <;> first | rfl | cases he

/-- The variables at the start of a run that measures once. -/
def measuredStart : Locals :=
  { zeroStack with
    arguments := { defaultArguments "profile" with iter := 1, outputFile := some "noise.h5" } }

/-- The variables when the output is open. -/
def measuredOpened : Locals := { measuredStart with output := ⟨outputHd5File, .null, 1, 0⟩ }

/-- The variables when the buffer is mapped. -/
def measuredMapped : Locals := { measuredOpened with buffer := .mapped 0x800000 }

/-- The variables when the matrix is written. -/
def measuredWritten : Locals := { measuredMapped with output := ⟨outputHd5File, .null, 1, 1⟩ }

/-- A call with the answer of a machine on which each measurement is this one. -/
def answered (data : UInt64 → UInt32) (c : Call) : Event := ⟨c, measuringMachine data [] c⟩

/-- The events of a run of `main` that measures a 4 MiB cache once. -/
def measuredMain (data : UInt64 → UInt32) : List Event :=
  [.getpid, .signal .sigterm, .signal .sigalrm, .signal .sigint, .sigactionChild,
    .enter .focusThis, .schedSetaffinity 100 0, .leave .focusThis errorNone,
    .enter .cacheInfo, .cacheInfoNew 0 1, .leave .cacheInfo errorNone].map (answered data) ++
  ([.getuid, .enter .rdpmc, .readProp .rdpmc, .leave .rdpmc errorNone].map (answered data) ++
    (([.enter .outputFile, .h5Fcreate "noise.h5", .chmod "noise.h5",
        .leave .outputFile errorNone].map (answered data) ++
      ([.enter .alloc, .readProp .nrHugepages, .meminfo, .malloc, .mmap 0x400000,
          .testAlignment (.mapped 0x800000) 0x200000, .leave .alloc errorNone].map
            (answered data) ++
        [.enter .profile, .perfEventOpen 0, .ioctl 3 .reset, .ioctl 3 .enable, .terminated,
          primeCall fourMiBCache (.mapped 0x800000), .schedYield,
          probeCall fourMiBCache (.mapped 0x800000), .h5Dcreate 1 "0" .stdU32Be (4096, 16),
          .h5Dwrite 2 .nativeInt (matData data 4096 16), .h5Dclose 2, .ioctl 3 .disable,
          .leave .profile errorNone].map (answered data))) ++ [])) ++
  [.h5Fclose 1, .meminfo, .munmap (.mapped 0x800000) 0x400000].map (answered data)

theorem measuredMain_run (data : UInt64 → UInt32) :
    (main true 2 measuredStart.arguments zeroStack).Run (measuredMain data) (some 0) := by
  have hpart : ∀ {m : Main Unit} {s s' : Locals} {u : List Event},
      (m s).exec (measuringMachine data) [] = (u, some (.ok (), s')) →
        (m s).Run u (some (.ok (), s')) := by
    intro m s s' u h
    have hrun := Prog.run_exec (measuringMachine data) (m s) []
    rwa [h] at hrun
  have hskip : ∀ {m : Main Unit} {f : Unit → Main Unit} {s s' : Locals} {u : List Event},
      (m s).exec (measuringMachine data) [] = ([], some (.ok (), s')) →
        (f () s').Run u (some (.ok (), measuredWritten)) →
          ((m >>= f) s).Run u (some (.ok (), measuredWritten)) := fun h₁ h₂ =>
    part_bind _ (hpart h₁) h₂
  refine Prog.Run.bind (a := (.ok (), measuredWritten)) ?_ ?_
  · refine part_bind measuredStart (hpart rfl) ?_
    change ((do checkRights true; runMode true 2; killExternal : Main Unit) measuredStart).Run _ _
    refine part_bind measuredStart (hpart rfl) (part_bind measuredWritten ?_ (hpart rfl))
    change (profileMode true 2 measuredStart).Run _ _
    refine part_bind measuredOpened (hpart rfl) (part_bind measuredMapped (hpart rfl) ?_)
    exact hskip rfl (hskip rfl (hpart rfl))
  · change (do finalize measuredWritten; pure 0 : Proc ℤ).Run _ _
    refine Prog.run_bind.mpr (.inl ⟨_, [], (), (List.append_nil _).symm, ?_, rfl, rfl⟩)
    exact Prog.run_exec (measuringMachine data) (finalize measuredWritten) []

theorem measuredMain_steps (data : UInt64 → UInt32) : NoStepFails (measuredMain data) := by
  have hleft : left (measuredMain data) = [(.focusThis, errorNone), (.cacheInfo, errorNone),
      (.rdpmc, errorNone), (.outputFile, errorNone), (.alloc, errorNone),
      (.profile, errorNone)] := rfl
  rw [NoStepFails, hleft]
  decide

theorem measuredMain_described (data : UInt64 → UInt32) :
    AlwaysDescribed fourMiBCache (measuredMain data) := by
  have hdescriptions : descriptions (measuredMain data) = [(errorNone, fourMiBCache)] := rfl
  rw [AlwaysDescribed, hdescriptions]
  rintro r hr -
  rw [List.mem_singleton.mp hr]

/-- Two lines of another program in set 5 cost the last two ways of this set. -/
theorem main_displaysNoise_fourMiB : ∃ data,
    DisplaysNoise fourMiBCache ⟨4, 40⟩ [[5, 4101, 5, 6]] (h5File (measuredMain data)) := by
  have houtside : ∀ line ∈ [5, 4101, 5, 6],
      fourMiBCache.Outside identityMachine.phys 0x800000 line := by
    intro line hline j hj
    change j < 65536 at hj
    change line ≠ (0x800000 + j * 64) % 2 ^ 52 / 64
    have : line ≤ 4101 := by
      revert line
      decide
    omega
  have hplaced := Placed.ofAccepted fourMiBCache_consistent (by decide) fourMiBBuffer
    testAlignment_fourMiB
  obtain ⟨c₁, c₂, data, -, hprime, hprobe, -, -⟩ := probe_misses fourMiBCache identityMachine.phys
    ⟨4, 40⟩ 0x800000 (by decide) (by decide) hplaced (emptyCache fourMiBCache) [5, 4101, 5, 6]
    houtside (fun _ => 0) (2 ^ 32) (by decide) (by decide)
  have hidle : ∀ {c u}, (u.all fun e => (touched e).isNone) = true →
      OnCache fourMiBCache identityMachine.phys ⟨4, 40⟩ c u (u.map fun _ => []) c := by
    intro c u h
    refine OnCache.idle c fun e he c => callEffect_of_untouched ?_
    exact Option.isNone_iff_eq_none.mp (List.all_eq_true.mp h e he)
  have hon : OnCache fourMiBCache identityMachine.phys ⟨4, 40⟩ (emptyCache fourMiBCache)
      (measuredMain data) (((measuredMain data).take 31).map (fun _ => []) ++
        [] :: [5, 4101] :: [5, 6] :: ((measuredMain data).drop 34).map fun _ => []) c₂ := by
    have hsplit : measuredMain data = (measuredMain data).take 31 ++
        answered data (primeCall fourMiBCache (.mapped 0x800000)) ::
          answered data .schedYield :: answered data (probeCall fourMiBCache (.mapped 0x800000)) ::
            (measuredMain data).drop 34 := rfl
    rw [hsplit]
    exact (hidle rfl).trans (.cons hprime (.cons rfl (.cons ⟨fun _ => 0, hprobe⟩ (hidle rfl))))
  have hm : AnsweredBy identityMachine fourMiBCache (measuredMain data) := by
    refine ⟨measuredMain_described data, fun x hx => ?_⟩
    have htests : tests (measuredMain data) = [(0x800000, 0x200000, errorNone)] := rfl
    rw [htests] at hx
    rw [List.mem_singleton.mp hx]
    exact ⟨by decide, ⟨fourMiBBuffer⟩, 3, testAlignment_fourMiB⟩
  refine ⟨data, main_displaysNoise (measuredMain_run data) (measuredMain_steps data) rfl rfl
    ⟨List.not_mem_nil, trivial, trivial⟩ rfl fourMiBCache_consistent hm (by decide) (by decide)
    hon fun accesses haccesses line hline => houtside line ?_⟩
  simp only [List.mem_append, List.mem_map, List.mem_cons] at haccesses
  obtain ⟨_, -, rfl⟩ | rfl | rfl | rfl | ⟨_, -, rfl⟩ := haccesses
  · exact absurd hline List.not_mem_nil
  · exact absurd hline List.not_mem_nil
  · exact List.mem_append_left [5, 6] hline
  · exact List.mem_append_right [5, 4101] hline
  · exact absurd hline List.not_mem_nil

end CacheNoise
