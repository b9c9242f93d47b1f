import CacheNoise.Main.Outputs
import CacheNoise.SysInfo.CacheInfoNew

/-!
# The messages of `main`

Which error codes a step can return, and so what `EXIT_ON_FAIL` can print about it. The table of
messages has no entry for `ERROR_FMT` and `ERROR_CHMOD`, nor for `ERROR_NONE`, which is passed to
`decode_error` when the step succeeds at its second evaluation. Each of these three is decoded as
an unknown error, and no other code is that any step returns. A report of `ERROR_HDF5_ERROR` has
the text about the current core, since the code shares its number with `ERROR_GET_CPU_CORE`
(`main_explains`). A file that can not be created is reported as `ERROR_CHMOD` if its `chmod` fails
too.
-/

namespace CacheNoise

open Interaction

/-- The codes with which a step can fail. -/
def Step.codes : Step → List ErrorT
  | .focusThis | .focusGiven => [errorSetAffinity]
  | .currentCore => [errorGetCpuCore]
  | .cacheInfo => errorIoSysCpu :: errorCacheNotExists :: fillCodes
  | .rdpmc => [errorIoRdpmc, errorFmt, errorRdpmc]
  | .benchmark => [errorFdCycle, errorFdCycleClose]
  | .outputStdout => []
  | .outputFile => [errorChmod, errorHdf5Error]
  | .alloc =>
    [errorIoHugepageNumber, errorFmt, errorNoHugepages, errorIoProcMeminfo, errorAllocation,
      errorMmap, errorSysconf, errorIoProcSelfPagemap, errorPageEntry, errorMunmap]
  | .program => [errorSpawnAttrInit, errorSpawnFileInit, errorAllocation, errorSpawnSpawn]
  | .profile => [errorFdCycle, errorFdCycleClose, errorIoHdf, errorHdf5Error]

/-- `cache_info_new` and `test_alignment` answer as they do over some files and some pagemap. -/
def Modelled : Event → Prop
  | ⟨.cacheInfoNew cpu level, a⟩ =>
    ∃ names index info, cacheInfoNew names index cpu level info = some a.value
  | ⟨.testAlignment (.mapped buffer) pageSize, a⟩ =>
    ∃ os info fuel, testAlignment os buffer info pageSize fuel = some a.value
  | _ => True

/-- **A message about a step**: both codes are among those of the step, or 0, and the text is that
of `ERROR_GET_CPU_CORE`, or of an unknown error, exactly for these codes. -/
structure Explains (step : Step) (decoded number : ErrorT) : Prop where
  decoded_mem : decoded ∈ errorNone :: step.codes
  number_mem : number ∈ errorNone :: step.codes
  unknown : decodeError decoded = "unknown error" ↔ decoded ∈ [errorNone, errorFmt, errorChmod]
  core : decodeError decoded = "retrieving the CPU core on which the program currently runs on" ↔
    decoded = errorHdf5Error ∧ step ∈ [.currentCore, .outputFile, .profile]

theorem explains_of_mem {step : Step} {decoded number : ErrorT}
    (hdecoded : decoded ∈ errorNone :: step.codes) (hnumber : number ∈ errorNone :: step.codes) :
    Explains step decoded number := by
  refine ⟨hdecoded, hnumber, ?_, ?_⟩
  · have hall : ∀ step : Step, ∀ code ∈ errorNone :: step.codes,
        decodeError code = "unknown error" ↔ code ∈ [errorNone, errorFmt, errorChmod] := by
      intro step
      cases step <;> decide +kernel
    exact hall step decoded hdecoded
  · have hall : ∀ step : Step, ∀ code ∈ errorNone :: step.codes,
        decodeError code = "retrieving the CPU core on which the program currently runs on" ↔
          code = errorHdf5Error ∧ step ∈ [Step.currentCore, .outputFile, .profile] := by
      intro step
      cases step <;> decide +kernel
    exact hall step decoded hdecoded

/-! ### The codes of the functions -/

/-- What the loop of `cache_info_new` returns is a code of `cache_info_fill`. -/
theorem cacheInfoNewStep_codes {index : ℕ → CacheFiles} {cpu level : UInt8} {count : UInt32}
    {i : ℕ} {info info' : CacheInfo} {res : ErrorT}
    (h : cacheInfoNewStep index cpu level count (i, info) = .inl (.returns res info')) :
    res ∈ fillCodes := by
  simp only [cacheInfoNewStep] at h
  split at h
  · cases hfill : cacheInfoFill (index i) (UInt32.ofNat i) cpu.toUInt32 info with
    | none =>
      rw [hfill] at h
      cases h
    | some r =>
      obtain ⟨res', filled⟩ := r
      simp only [hfill] at h
      by_cases hres : res' ≠ errorNone
      · rw [if_pos hres] at h
        obtain ⟨rfl, rfl⟩ := ScanExit.returns.inj (Sum.inl.inj h)
        exact cacheInfoFill_codes hfill hres
      · rw [if_neg hres] at h
        split_ifs at h <;> cases h
  · cases h

/-- The codes of `cache_info_new`. -/
theorem cacheInfoNew_codes {names : Option (List (List Char))} {index : ℕ → CacheFiles}
    {cpu level : UInt8} {info info' : CacheInfo} {res : ErrorT}
    (h : cacheInfoNew names index cpu level info = some (res, info')) :
    res ∈ errorNone :: Step.codes .cacheInfo := by
  rw [cacheInfoNew] at h
  rcases names with _ | names
  · obtain ⟨rfl, -⟩ := Prod.mk.inj (Option.some.inj h)
    decide
  simp only [cacheCount] at h
  split at h
  · next hrun =>
    obtain ⟨rfl, rfl⟩ := Prod.mk.inj (Option.some.inj h)
    obtain ⟨⟨i, before⟩, -, hexit⟩ := Iteration.run_invariant (fun _ => True)
      (fun _ _ _ _ => trivial) trivial hrun
    exact List.mem_cons_of_mem _ (List.mem_cons_of_mem _ (List.mem_cons_of_mem _
      (cacheInfoNewStep_codes hexit)))
  · obtain ⟨rfl, -⟩ := Prod.mk.inj (Option.some.inj h)
    split <;> decide
  · cases h
  · cases h

/-- The codes of `test_alignment`. -/
theorem testAlignment_codes {os : Os} {buffer pageSize : UInt64} {info : CacheInfo} {fuel : ℕ}
    {res : ErrorT} (h : testAlignment os buffer info pageSize fuel = some res) :
    res ∈ [errorNone, errorNotAligned, errorSysconf, errorIoProcSelfPagemap, errorPageEntry] := by
  obtain ⟨line, -, hexit⟩ := Iteration.run_invariant (fun _ => True) (fun _ _ _ _ => trivial)
    trivial (run_of_testAlignment h)
  unfold testAlignmentStep at hexit
  split at hexit
  · simp only at hexit
    split at hexit
    · next hlookup =>
      obtain rfl := Sum.inl.inj hexit
      exact List.mem_cons_of_mem _ (List.mem_cons_of_mem _ (getPhysicalAddress_error hlookup))
    · split at hexit
      · obtain rfl := Sum.inl.inj hexit
        decide
      · cases hexit
  · obtain rfl := Sum.inl.inj hexit
    decide

/-- A function that returns `ERROR_NONE` or one of these codes. -/
def Codes (codes : List ErrorT) (p : Proc ErrorT) : Prop :=
  p.ReturnsIn Modelled fun res => res ∈ errorNone :: codes

/-- A function that has a value, or fails with one of these codes. -/
def Errors (codes : List ErrorT) {α : Type} (p : Proc (Except ErrorT α)) : Prop :=
  p.ReturnsIn Modelled fun r => ∀ res, r = .error res → res ∈ codes

/-- The same for a function that returns more than a code. -/
def Yields (codes : List ErrorT) {α : Type} (p : Proc (ErrorT × α)) : Prop :=
  p.ReturnsIn Modelled fun x => x.1 ∈ errorNone :: codes

theorem returnsIn_sys {c : Call} {Q : c.Value → Prop}
    (h : ∀ a : Answer c, Modelled ⟨c, a⟩ → Q a.value) : (sys c).ReturnsIn Modelled Q :=
  (Prog.returnsIn_perform h).bind fun _ ha => Prog.returnsIn_pure ha

theorem Codes.mono {codes codes' : List ErrorT} {p : Proc ErrorT} (hp : Codes codes p)
    (h : codes ⊆ codes') : Codes codes' p :=
  Prog.ReturnsIn.mono hp fun _ hres => List.cons_subset_cons _ h hres

theorem codes_pure {codes : List ErrorT} {res : ErrorT} (h : res ∈ errorNone :: codes) :
    Codes codes (pure res) := Prog.returnsIn_pure h

theorem yields_pure {codes : List ErrorT} {α : Type} {res : ErrorT}
    (h : res ∈ errorNone :: codes) (a : α) : Yields codes (pure (res, a)) :=
  Prog.returnsIn_pure h

/-- A call, and then the rest, whatever the call returns. -/
theorem returnsIn_sys_bind {c : Call} {α : Type} {f : c.Value → Proc α} {Q : α → Prop}
    (h : ∀ v, (f v).ReturnsIn Modelled Q) : (sys c >>= f).ReturnsIn Modelled Q :=
  (Prog.returns_true _).returnsIn.bind fun v _ => h v

/-- A call, and then one of two codes. -/
theorem codes_sys {c : Call} {codes : List ErrorT} {p : c.Value → Prop} [DecidablePred p]
    {res : ErrorT} (h : res ∈ codes) :
    Codes codes (do
      let v ← sys c
      pure (if p v then res else errorNone)) :=
  returnsIn_sys_bind fun v => Prog.returnsIn_pure (by
    split
    · exact List.mem_cons_of_mem _ h
    · exact List.mem_cons_self)

/-- `FORWARD_ON_FAIL` of a function that returns more than a code. -/
theorem Errors.bind {codes : List ErrorT} {α β : Type} {p : Proc (Except ErrorT α)}
    {f : Except ErrorT α → Proc β} {Q : β → Prop} (hp : Errors codes p)
    (herror : ∀ res ∈ codes, (f (.error res)).ReturnsIn Modelled Q)
    (hok : ∀ a, (f (.ok a)).ReturnsIn Modelled Q) : (p >>= f).ReturnsIn Modelled Q := by
  refine Prog.ReturnsIn.bind hp fun r hr => ?_
  cases r with
  | error res => exact herror res (hr res rfl)
  | ok a => exact hok a

theorem errors_readPropPut (file : PropFile) (e : ErrorT) :
    Errors [e, errorFmt] (readPropPut file e) := by
  refine returnsIn_sys_bind fun r => ?_
  cases r <;> exact Prog.returnsIn_pure fun res hres => by cases hres <;> simp

theorem errors_getHugepagesize : Errors [errorIoProcMeminfo] getHugepagesize := by
  refine returnsIn_sys_bind fun r => ?_
  cases r <;> exact Prog.returnsIn_pure fun res hres => by cases hres <;> simp

theorem errors_enableCpuCycleCounter (cpu : UInt32) :
    Errors [errorFdCycle] (enableCpuCycleCounter cpu) := by
  have hfail : Errors [errorFdCycle] (pure (.error errorFdCycle) : Proc (Except _ UInt32)) :=
    Prog.returnsIn_pure fun res hres => by cases hres; simp
  refine returnsIn_sys_bind fun fd => .ite (fun _ => hfail) fun _ => ?_
  refine returnsIn_sys_bind fun reset => .ite (fun _ => hfail) fun _ => ?_
  refine returnsIn_sys_bind fun enable => Prog.returnsIn_pure fun res hres => ?_
  split at hres <;> cases hres
  simp

theorem codes_disableCpuCycleCounter (fd : UInt32) :
    Codes [errorFdCycleClose] (disableCpuCycleCounter fd) := codes_sys (by simp)

theorem codes_focusCpuCore (pid cpu : UInt32) :
    Codes [errorSetAffinity] (focusCpuCore pid cpu) := codes_sys (by simp)

theorem codes_canUseRdpmc : Codes (Step.codes .rdpmc) canUseRdpmc := by
  refine (errors_readPropPut _ _).bind (fun res hres => codes_pure ?_) fun value => codes_pure ?_
  · simp only [List.mem_cons, List.not_mem_nil, or_false] at hres
    rcases hres with rfl | rfl <;> decide
  · split <;> decide

theorem codes_benchmark (iterations : UInt64) :
    Codes (Step.codes .benchmark) (benchmark iterations) := by
  refine returnsIn_sys_bind fun allocated => ?_
  refine (errors_enableCpuCycleCounter 0).bind (fun res hres => codes_pure ?_) fun fd => ?_
  · rw [List.mem_singleton.mp hres]
    decide
  · refine .ite (fun _ => Prog.returns_stuck.returnsIn) fun _ => ?_
    exact returnsIn_sys_bind fun _ => (codes_disableCpuCycleCounter fd).mono (by decide)

/-! #### Outputs -/

/-- An output that has been opened. -/
def Writable (output : OutputT) : Prop :=
  output.type = outputStdout ∨ output.type = outputHd5File

/-- The codes of `outputw_mat_ui32`. -/
def outputCodes : List ErrorT := [errorIoHdf, errorHdf5Error]

theorem codes_fprintfAll (stream : Stream) (texts : List String) :
    Codes outputCodes (fprintfAll stream texts) := by
  induction texts with
  | nil => exact codes_pure (by decide)
  | cons text texts ih =>
    exact returnsIn_sys_bind fun _ => .ite (fun _ => codes_pure (by decide)) fun _ => ih

theorem yields_outputwMatUi32 {output : OutputT} (h : Writable output) (data : UInt64 → UInt32)
    (dimX dimY : UInt64) :
    Yields outputCodes (outputwMatUi32 output data dimX dimY) := by
  refine .ite (fun _ => ?_) fun hstdout => .ite (fun _ => ?_) fun hfile => ?_
  · exact Prog.ReturnsIn.bind (codes_fprintfAll _ _) fun res hres => Prog.returnsIn_pure hres
  · refine returnsIn_sys_bind fun dataset =>
      .ite (fun _ => yields_pure (by decide) _) fun _ => ?_
    refine returnsIn_sys_bind fun status =>
      .ite (fun _ => yields_pure (by decide) _) fun _ => ?_
    exact returnsIn_sys_bind fun status => yields_pure (by split <;> decide) _
  · exact absurd h (not_or.mpr ⟨hstdout, hfile⟩)

theorem Writable.of_target {output output' : OutputT} (h : Writable output)
    (heq : output'.target = output.target) : Writable output' := by
  have htype : output'.type = output.type := congrArg Prod.fst heq
  rwa [Writable, htype]

theorem yields_profileLoop (cache : CacheInfo) (iterations : UInt32) (buffer : Ptr) (fd : UInt32)
    (fuel : ℕ) (j : UInt32) {output : OutputT} (h : Writable output) :
    Yields (Step.codes .profile) (profileLoop cache iterations buffer fd fuel j output) := by
  induction fuel generalizing j output with
  | zero => exact Prog.returns_stuck.returnsIn
  | succ fuel ih =>
    have hdone : (do
        let res ← disableCpuCycleCounter fd
        pure (res, output) : Proc (ErrorT × OutputT)).ReturnsIn Modelled fun x =>
          x.1 ∈ errorNone :: Step.codes .profile :=
      Prog.ReturnsIn.bind ((codes_disableCpuCycleCounter fd).mono (by decide)) fun res hres =>
        yields_pure hres output
    refine .ite (fun _ => ?_) fun _ => hdone
    refine returnsIn_sys_bind fun terminated => .ite (fun _ => hdone) fun _ => ?_
    refine returnsIn_sys_bind fun _ => returnsIn_sys_bind fun _ =>
      returnsIn_sys_bind fun result => ?_
    refine ((yields_outputwMatUi32 h _ _ _).and (returns_outputwMatUi32 _ _ _ _).returnsIn).bind ?_
    rintro ⟨res, output'⟩ ⟨hres, htarget⟩
    refine .ite (fun _ => Prog.returnsIn_pure ?_) fun _ => ih _ (h.of_target htarget)
    exact List.cons_subset_cons _ (by decide : outputCodes ⊆ Step.codes .profile) hres

theorem yields_profile {fuel : ℕ} {cache : CacheInfo} {cpu iterations : UInt32} {buffer : Ptr}
    {output : OutputT} (h : Writable output) :
    Yields (Step.codes .profile) (profile fuel cache cpu iterations buffer output) := by
  refine (errors_enableCpuCycleCounter cpu).bind (fun res hres => yields_pure ?_ output)
    fun fd => yields_profileLoop _ _ _ _ _ _ h
  rw [List.mem_singleton.mp hres]
  decide

/-! #### Memory -/

theorem codes_freeAligned (buffer : Ptr) (cache : CacheInfo) :
    Codes [errorIoProcMeminfo, errorMunmap] (freeAligned buffer cache) := by
  refine errors_getHugepagesize.bind (fun res hres => codes_pure ?_) fun hugepagesize => ?_
  · rw [List.mem_singleton.mp hres]
    decide
  · dsimp only
    cases munmapLength hugepagesize cache.totalSize with
    | none => exact Prog.returns_stuck.returnsIn
    | some length => exact codes_sys (by simp)

/-- The search has a code of the step, or a rejected buffer; then the release loop overwrites the
code. -/
def Searched (s : Search) : Prop :=
  s.err ∈ errorNone :: Step.codes .alloc ∨ s.oldBuffers ≠ []

theorem searched_searchAligned (cache : CacheInfo) (hugepagesize : UInt64) (n : ℕ) {s : Search}
    (h : Searched s) : (searchAligned cache hugepagesize n s).ReturnsIn Modelled Searched := by
  induction n generalizing s with
  | zero => exact Prog.returnsIn_pure h
  | succ n ih =>
    refine returnsIn_sys_bind fun r => ?_
    cases r with
    | none =>
      refine Prog.returnsIn_pure (.inl ?_)
      dsimp only
      decide
    | some address =>
      have htest : ∀ a : Answer (.testAlignment (.mapped address) hugepagesize),
          Modelled ⟨_, a⟩ → (a.value : ErrorT) ∈ [errorNone, errorNotAligned, errorSysconf,
            errorIoProcSelfPagemap, errorPageEntry] := by
        rintro a ⟨os, info, fuel, ha⟩
        exact testAlignment_codes ha
      have hcodes : ∀ err ∈ [errorNone, errorNotAligned, errorSysconf, errorIoProcSelfPagemap,
          errorPageEntry], err ≠ errorNotAligned → err ∈ errorNone :: Step.codes .alloc := by
        decide
      refine (returnsIn_sys htest).bind fun err herr => .ite (fun _ => ih (.inr ?_)) fun hne => ?_
      · exact List.append_ne_nil_of_right_ne_nil _ (List.cons_ne_nil _ _)
      · exact Prog.returnsIn_pure (.inl (hcodes err herr hne))

theorem codes_releaseAll (cache : CacheInfo) (buffers : List Ptr) {err : ErrorT}
    (h : err ∈ errorNone :: Step.codes .alloc ∨ buffers ≠ []) :
    Codes (Step.codes .alloc) (releaseAll cache buffers err) := by
  induction buffers generalizing err with
  | nil => exact codes_pure (h.resolve_right fun hne => hne rfl)
  | cons buffer buffers ih =>
    exact ((codes_freeAligned buffer cache).mono (by decide)).bind fun err herr => ih (.inl herr)

theorem yields_allocAligned (cache : CacheInfo) (buffer : Ptr) :
    Yields (Step.codes .alloc) (allocAligned cache buffer) := by
  refine (errors_readPropPut _ _).bind (fun res hres => yields_pure ?_ buffer) fun maxTries => ?_
  · simp only [List.mem_cons, List.not_mem_nil, or_false] at hres
    rcases hres with rfl | rfl <;> decide
  refine .ite (fun _ => yields_pure (by decide) _) fun _ => ?_
  refine errors_getHugepagesize.bind (fun res hres => yields_pure ?_ buffer)
    fun hugepagesize => ?_
  · rw [List.mem_singleton.mp hres]
    decide
  refine returnsIn_sys_bind fun allocated =>
    .ite (fun _ => yields_pure (by decide) _) fun _ => ?_
  have hstart : Searched ⟨errorNone, buffer, []⟩ := .inl List.mem_cons_self
  refine (searched_searchAligned cache hugepagesize maxTries.toNat hstart).bind fun s hs => ?_
  refine Prog.ReturnsIn.bind (codes_releaseAll _ _ hs) fun err herr => ?_
  refine .ite (fun _ => yields_pure herr _) fun _ =>
    .ite (fun _ => ?_) fun _ => yields_pure herr _
  have hfree : Codes (Step.codes .alloc) (freeAligned s.buffer cache) :=
    (codes_freeAligned _ _).mono (by decide)
  refine Prog.ReturnsIn.bind hfree fun res hres => yields_pure ?_ _
  split
  · exact hres
  · exact herr

/-! #### The external program -/

theorem yields_runProgram {path : Option String} (h : path.isSome = true)
    (arguments : Option String) (pid : Int32) :
    Yields (Step.codes .program) (runProgram path arguments pid) := by
  have hspawn : ∀ path argv, Yields (Step.codes .program) (spawn path argv) := fun path argv =>
    returnsIn_sys_bind fun r => yields_pure (by split <;> decide) _
  obtain ⟨path, rfl⟩ := Option.isSome_iff_exists.mp h
  refine returnsIn_sys_bind fun attr =>
    .ite (fun _ => yields_pure (by decide) _) fun _ => ?_
  refine returnsIn_sys_bind fun actions =>
    .ite (fun _ => yields_pure (by decide) _) fun _ => ?_
  cases arguments with
  | none => exact hspawn _ _
  | some arguments =>
    refine returnsIn_sys_bind fun p => returnsIn_sys_bind fun argv => ?_
    exact .ite (fun _ => yields_pure (by decide) _) fun _ => hspawn _ _

/-! ### The codes of the steps -/

theorem Codes.keeping {codes : List ErrorT} {p : Locals → Proc ErrorT} {s : Locals}
    (hp : Codes codes (p s)) : Yields codes (keeping p s) :=
  Prog.ReturnsIn.bind hp fun _ hres => yields_pure hres s

theorem yields_currentCoreStep (s : Locals) :
    Yields (Step.codes .currentCore) (currentCoreStep s) := by
  have hcore : Errors [errorGetCpuCore] getCurrentCpuCore :=
    returnsIn_sys_bind fun res => Prog.returnsIn_pure fun e he => by
      split at he <;> cases he
      simp
  refine hcore.bind (fun res hres => yields_pure ?_ s) fun core => yields_pure (by decide) _
  rw [List.mem_singleton.mp hres]
  decide

theorem yields_cacheInfoStep (s : Locals) : Yields (Step.codes .cacheInfo) (cacheInfoStep s) := by
  have hnew : ∀ a : Answer (.cacheInfoNew s.arguments.cpu.toUInt32.toUInt8
      s.arguments.level.toUInt32.toUInt8), Modelled ⟨_, a⟩ →
        (a.value.1 : ErrorT) ∈ errorNone :: Step.codes .cacheInfo := by
    rintro a ⟨names, index, info, ha⟩
    exact cacheInfoNew_codes ha
  exact (returnsIn_sys hnew).bind fun r hr => yields_pure hr _

theorem yields_outputFileStep (file : String) (s : Locals) :
    Yields (Step.codes .outputFile) (outputFileStep file s) := by
  have hfile : Yields (Step.codes .outputFile) (outputcHd5File s.output file) :=
    returnsIn_sys_bind fun fileId => returnsIn_sys_bind fun mode =>
      .ite (fun _ => yields_pure (by decide) _) fun _ =>
        .ite (fun _ => yields_pure (by decide) _) fun _ => yields_pure (by decide) _
  exact Prog.ReturnsIn.bind hfile fun x hx => yields_pure hx _

/-! ### The parts of `main` -/

/-- All messages so far explain the failures of their steps. -/
def Explained (h : List Event) : Prop :=
  (∀ e ∈ h, Modelled e) → ∀ r ∈ reports h, Explains r.1 r.2.1 r.2.2

theorem explained_append {h u : List Event} (hh : Explained h) (hu : Explained u) :
    Explained (h ++ u) := by
  intro hmodelled
  obtain ⟨hleft, hright⟩ := List.forall_mem_append.mp hmodelled
  rw [reports_append]
  exact List.forall_mem_append.mpr ⟨hh hleft, hu hright⟩

theorem explained_of_kinds {u : List Event} (h : ∀ e ∈ u, e.1.kind ≠ .step) : Explained u := by
  intro _ r hr
  rw [(quiet_of_kinds h).2.2] at hr
  exact absurd hr List.not_mem_nil

/-- A part of `main` whose messages explain what failed, from states with `J` to such with `J'`. -/
def Explaining (J J' : Locals → Prop) {α : Type} (m : Main α) : Prop :=
  Cmd.Triple (fun s h => J s ∧ Explained h) m (fun _ s h => J' s ∧ Explained h)
    fun _ h => Explained h

theorem Explaining.bind {J J' J'' : Locals → Prop} {α β : Type} {m : Main α} {k : α → Main β}
    (hm : Explaining J J' m) (hk : ∀ a, Explaining J' J'' (k a)) : Explaining J J'' (m >>= k) :=
  Cmd.Triple.bind hm hk

theorem Explaining.ite {J J' : Locals → Prop} {α : Type} {c : Prop} [Decidable c] {m n : Main α}
    (hm : c → Explaining J J' m) (hn : ¬ c → Explaining J J' n) :
    Explaining J J' (if c then m else n) := Cmd.Triple.ite hm hn

theorem Explaining.mono {J J' K K' : Locals → Prop} {α : Type} {m : Main α}
    (hm : Explaining J J' m) (hJ : ∀ s, K s → J s) (hJ' : ∀ s, J' s → K' s) :
    Explaining K K' m :=
  Cmd.Triple.mono hm (fun s _ h => ⟨hJ s h.1, h.2⟩) (fun _ s _ h => ⟨hJ' s h.1, h.2⟩)
    fun _ _ h => h

/-- What follows a look at the variables. -/
theorem Explaining.get_bind {J J' : Locals → Prop} {α : Type} {k : Locals → Main α}
    (hk : ∀ s, J s → Explaining (fun s' => J s' ∧ s' = s) J' (k s)) :
    Explaining J J' (Cmd.get >>= k) := by
  refine Cmd.Triple.bind (M := fun s s' h => J s ∧ (J s' ∧ s' = s) ∧ Explained h)
    (Cmd.triple_get fun s h hI => ⟨hI.1, ⟨hI.1, rfl⟩, hI.2⟩) fun s => ?_
  exact Cmd.Triple.of_pre (fun _ _ h => h.1) fun hJ =>
    Cmd.Triple.mono (hk s hJ) (fun _ _ h => h.2) (fun _ _ _ h => h) fun _ _ h => h

/-- The same where the variables do not matter. -/
theorem Explaining.get_bind_any {J J' : Locals → Prop} {α : Type} {k : Locals → Main α}
    (hk : ∀ s, Explaining J J' (k s)) : Explaining J J' (Cmd.get >>= k) :=
  .get_bind fun s _ => (hk s).mono (fun _ h => h.1) fun _ h => h

section

variable {κ : Type} {f : Locals → κ} {I : κ → Prop} {leftToRight : Bool} {step : Step}
  {body : Locals → Proc (ErrorT × Locals)} {K : List Kind}

theorem explained_evaluation {a : Answer (.enter step)} {u : List Event} {res : ErrorT}
    {b : Answer (.leave step res)} (h : ∀ e ∈ u, e.1.kind ≠ .step) :
    Explained (evaluation step a u res b) := by
  intro _ r hr
  rw [(shown_evaluation h).2.2] at hr
  exact absurd hr List.not_mem_nil

/-- **The message about a step**, when its body has only these codes. -/
theorem explaining_step (hcodes : ∀ s, I (f s) → Yields step.codes (body s))
    (hf : ∀ s, (body s).Returns fun x => f x.2 = f s) (honly : ∀ s, Only K (body s))
    (hK : Kind.step ∉ K) :
    Explaining (fun s => I (f s)) (fun s => I (f s)) (exitOnFail leftToRight step body) := by
  have hquiet : ∀ {s u o}, (body s).Run u o → ∀ e ∈ u, e.1.kind ≠ .step :=
    fun hu e he hkind => hK (hkind ▸ honly _ _ _ hu e he)
  have hentered : ∀ {s u} (a : Answer (.enter step)), (body s).Run u none →
      Explained (⟨.enter step, a⟩ :: u) := by
    intro s u a hu _ r hr
    change r ∈ reports u at hr
    rw [(quiet_of_kinds (hquiet hu)).2.2] at hr
    exact absurd hr List.not_mem_nil
  have hkeep : ∀ {s u res s'}, (body s).Run u (some (res, s')) → I (f s) → I (f s') :=
    fun hu hI => by
      rw [hf _ _ _ hu]
      exact hI
  rintro s h t o ⟨hI, hh⟩ hrun
  rcases exitOnFail_run hrun with ⟨a, u, s', b, rfl, hu, rfl⟩ | ⟨a, u, rfl, hu, rfl⟩ |
    ⟨a, u, res, s₁, b, t', rfl, -, hu, hfail⟩
  · exact ⟨hkeep hu hI, explained_append hh (explained_evaluation (hquiet hu))⟩
  · exact explained_append hh (hentered a hu)
  have hfirst := explained_append hh (explained_evaluation (a := a) (b := b) (hquiet hu))
  have hI₁ : I (f s₁) := hkeep hu hI
  rcases failStep_run hfail with ⟨a', u', rfl, hu', rfl⟩ |
    ⟨a', u', res', s₂, b', a'', u'', rfl, hu', hu'', rfl⟩ |
    ⟨a', u', res', s₂, b', a'', u'', res'', s₃, b'', c, rfl, hu', hu'', rfl⟩
  · rw [← List.append_assoc]
    exact explained_append hfirst (hentered a' hu')
  · rw [← List.append_assoc]
    exact explained_append hfirst (explained_append (explained_evaluation (hquiet hu'))
      (hentered a'' hu''))
  · -- the message has the codes of the second and the third evaluation
    have hbefore := explained_append hfirst (explained_append
      (explained_evaluation (a := a') (b := b') (hquiet hu'))
      (explained_evaluation (a := a'') (b := b'') (hquiet hu'')))
    rw [← List.append_assoc, ← List.append_assoc]
    intro hmodelled
    obtain ⟨hmodelled, -⟩ := List.forall_mem_append.mp hmodelled
    rw [reports_append]
    refine List.forall_mem_append.mpr ⟨hbefore hmodelled, fun r hr => ?_⟩
    obtain rfl := List.mem_singleton.mp hr
    have hcode' := hcodes s₁ hI₁ u' _
      (fun e he => hmodelled e (by simp [evaluation, he])) hu'
    have hcode'' := hcodes s₂ (hkeep hu' hI₁) u'' _
      (fun e he => hmodelled e (by simp [evaluation, he])) hu''
    cases leftToRight
    · exact explains_of_mem hcode'' hcode'
    · exact explains_of_mem hcode' hcode''

/-- A part of `main` without steps. -/
theorem explaining_frame {α : Type} {m : Main α} (hm : Cmd.Frame (fun e => e.1.kind ∈ K) f m)
    (hK : Kind.step ∉ K) : Explaining (fun s => I (f s)) (fun s => I (f s)) m :=
  hm.triple_of (I := fun b h => I b ∧ Explained h) (N := Explained)
    (fun _ _ e he hI => ⟨hI.1, explained_append hI.2 (explained_of_kinds fun e' he' => by
      rw [List.mem_singleton.mp he']
      exact ne_of_mem_of_not_mem he hK)⟩) fun _ _ hI => hI.2

/-- A step that may start from any state. -/
theorem explaining_any (hcodes : ∀ s, Yields step.codes (body s)) (honly : ∀ s, Only K (body s))
    (hK : Kind.step ∉ K) :
    Explaining (fun _ => True) (fun _ => True) (exitOnFail leftToRight step body) :=
  explaining_step (f := fun _ => ()) (I := fun _ => True) (fun s _ => hcodes s)
    (fun _ _ _ _ => rfl) honly hK

end

section

variable (leftToRight : Bool)

theorem explaining_chooseCpu (thisPid : ℤ) :
    Explaining (fun _ => True) (fun _ => True) (chooseCpu leftToRight thisPid) := by
  refine Explaining.get_bind_any fun s => .ite (fun _ => ?_) fun _ => ?_
  · exact explaining_any (K := [.setup]) (fun s => (codes_focusCpuCore _ _).keeping)
      (only_keeping fun s => only_focusCpuCore _ _) (by simp)
  · refine (explaining_any (K := [.setup]) yields_currentCoreStep (fun s => ?_) (by simp)).bind
      fun _ => ?_
    · refine only_getCurrentCpuCore.bind fun r => ?_
      cases r <;> exact only_pure _
    · exact explaining_frame (K := []) (f := fun _ => ()) (I := fun _ => True)
        (Cmd.frame_modify fun _ => rfl) (by simp)

theorem explaining_setUp :
    Explaining (fun _ => True) (fun _ => True) (setUp leftToRight) := by
  have hfail := fun c => explaining_frame (K := []) (f := id) (I := fun _ => True)
    (frame_failIf c) (by simp)
  have hcache : Explaining (fun _ => True) (fun _ => True)
      (exitOnFail leftToRight .cacheInfo cacheInfoStep) :=
    explaining_any (K := [.setup]) yields_cacheInfoStep
      (fun s => (only_sys (by simp)).bind fun _ => only_pure _) (by simp)
  refine (explaining_frame (f := id) (I := fun _ => True)
    (frame_lift_sys (c := .getpid) (K := [.setup]) (by simp)) (by simp)).bind fun thisPid => ?_
  refine (hfail _).bind fun _ => ?_
  refine (explaining_frame (f := id) (I := fun _ => True)
    (frame_installHandlers (K := [.setup]) (by simp)) (by simp)).bind fun _ => ?_
  exact (explaining_chooseCpu leftToRight thisPid).bind fun _ => hcache

theorem explaining_checkRights :
    Explaining (fun _ => True) (fun _ => True) (checkRights leftToRight) := by
  refine (explaining_frame (K := [.setup]) (f := id) (I := fun _ => True)
    (Cmd.frame_lift only_hasRootAccess) (by simp)).bind fun root => ?_
  refine (explaining_frame (K := []) (f := id) (I := fun _ => True) (frame_failIf _)
    (by simp)).bind fun _ => ?_
  exact explaining_any (K := [.setup]) (fun s => codes_canUseRdpmc.keeping)
    (only_keeping fun _ => only_canUseRdpmc) (by simp)

theorem explaining_benchMode :
    Explaining (fun _ => True) (fun _ => True) (benchMode leftToRight) := by
  refine (explaining_frame (K := []) (f := fun _ => ()) (I := fun _ => True)
    (Cmd.frame_modify fun _ => rfl) (by simp)).bind fun _ => ?_
  exact explaining_any (K := [.setup, .measure]) (fun s => (codes_benchmark _).keeping)
    (only_keeping fun s => only_benchmark _) (by simp)

/-- A step that opens the output. -/
theorem explaining_opening {step : Step} {body : Locals → Proc (ErrorT × Locals)}
    {K : List Kind} (hcodes : ∀ s, Yields step.codes (body s)) (honly : ∀ s, Only K (body s))
    (hK : Kind.step ∉ K)
    (hopen : ∀ s u s', (body s).Run u (some (errorNone, s')) → Writable s'.output) :
    Explaining (fun _ => True) (fun s => Writable s.output)
      (exitOnFail leftToRight step body) := by
  have hok : Cmd.Triple (fun _ _ => True) (exitOnFail leftToRight step body)
      (fun _ s _ => Writable s.output) fun _ _ => True :=
    triple_exitOnFail_ok fun s _ u s' _ _ _ hu => hopen s u s' hu
  have hexplaining : Explaining (fun _ => True) (fun _ => True)
      (exitOnFail leftToRight step body) := explaining_any hcodes honly hK
  exact (Cmd.Triple.and hexplaining hok).mono (fun _ _ h => ⟨h, trivial⟩)
    (fun _ _ _ h => ⟨h.2, h.1.2⟩) fun _ _ h => h.1

theorem explaining_openOutput :
    Explaining (fun _ => True) (fun s => Writable s.output) (openOutput leftToRight) := by
  refine Explaining.get_bind_any fun s => ?_
  cases s.arguments.outputFile with
  | none =>
    refine explaining_opening leftToRight (K := []) (fun s => yields_pure (by decide) _)
      (fun s => only_pure _) (by simp) ?_
    rintro s u s' ⟨-, heq⟩
    obtain ⟨-, rfl⟩ := Prod.mk.inj (Option.some_injective _ heq)
    exact .inl rfl
  | some file =>
    refine explaining_opening leftToRight (K := [.opening]) (yields_outputFileStep file)
      (fun s => (only_outputcHd5File _ _).bind fun _ => only_pure _) (by simp) fun s u s' hu => ?_
    obtain ⟨-, -, -, ⟨hne, -⟩ | ⟨-, htype, -⟩⟩ := outputFileStep_shows hu
    · exact absurd rfl hne
    · exact .inr htype

/-- A step that leaves the output alone. -/
theorem explaining_output {step : Step} {body : Locals → Proc (ErrorT × Locals)} {K : List Kind}
    (hcodes : ∀ s, Writable s.output → Yields step.codes (body s))
    (hf : ∀ s, (body s).Returns fun x => x.2.output.target = s.output.target)
    (honly : ∀ s, Only K (body s)) (hK : Kind.step ∉ K) :
    Explaining (fun s => Writable s.output) (fun s => Writable s.output)
      (exitOnFail leftToRight step body) :=
  explaining_step (f := fun s => s.output.target)
    (I := fun x => x.1 = outputStdout ∨ x.1 = outputHd5File) hcodes hf honly hK

theorem explaining_alloc :
    Explaining (fun s => Writable s.output) (fun s => Writable s.output)
      (exitOnFail leftToRight .alloc allocStep) := by
  refine explaining_output leftToRight (K := [.setup, .memory]) (fun s _ => ?_) (fun s => ?_)
    (fun s => ?_) (by simp)
  · exact Prog.ReturnsIn.bind (yields_allocAligned _ _) fun x hx => yields_pure hx _
  · exact (Prog.returns_true _).bind fun _ _ => Prog.returns_pure rfl
  · exact (only_allocAligned _ _).bind fun _ => only_pure _

theorem explaining_focusGiven :
    Explaining (fun s => Writable s.output) (fun s => Writable s.output)
      (exitOnFail leftToRight .focusGiven (keeping fun s =>
        focusCpuCore s.arguments.pid.toUInt32 s.arguments.cpu.toUInt32)) := by
  refine explaining_output leftToRight (K := [.setup]) (fun s _ => ?_) (fun s => ?_)
    (fun s => ?_) (by simp)
  · exact (codes_focusCpuCore _ _).keeping
  · exact returns_keeping (f := fun s => s.output.target) s
  · exact only_keeping (fun s => only_focusCpuCore _ _) s

/-- The path of the program is given. -/
theorem explaining_program :
    Explaining (fun s => Writable s.output ∧ s.arguments.program.isSome = true)
      (fun s => Writable s.output ∧ s.arguments.program.isSome = true)
      (exitOnFail leftToRight .program programStep) := by
  refine explaining_step (K := [.setup, .process])
    (f := fun s => (s.output.target, s.arguments.program))
    (I := fun x => (x.1.1 = outputStdout ∨ x.1.1 = outputHd5File) ∧ x.2.isSome = true)
    (fun s h => ?_) (fun s => ?_) (fun s => ?_) (by simp)
  · exact Prog.ReturnsIn.bind (yields_runProgram h.2 _ _) fun x hx => yields_pure hx _
  · exact (Prog.returns_true _).bind fun _ _ => Prog.returns_pure rfl
  · exact (only_runProgram _ _ _).bind fun _ => only_pure _

theorem explaining_startExternal :
    Explaining (fun s => Writable s.output) (fun s => Writable s.output)
      (startExternal leftToRight) := by
  refine Explaining.get_bind fun s _ => .ite (fun _ => ?_) fun _ => .ite (fun hprogram => ?_)
    fun _ => Cmd.triple_pure fun _ _ h => ⟨h.1.1, h.2⟩
  · exact (explaining_focusGiven leftToRight).mono (fun _ h => h.1) fun _ h => h
  · refine (explaining_program leftToRight).mono ?_ fun _ h => h.1
    rintro _ ⟨hwritable, rfl⟩
    exact ⟨hwritable, hprogram⟩

theorem explaining_profile (fuel : ℕ) :
    Explaining (fun s => Writable s.output) (fun s => Writable s.output)
      (exitOnFail leftToRight .profile (profileStep fuel)) := by
  refine explaining_output leftToRight (K := [.measure, .dataset, .closing, .print])
    (fun s h => ?_) (fun s => ?_) (fun s => ?_) (by simp)
  · exact Prog.ReturnsIn.bind (yields_profile h) fun x hx => yields_pure hx _
  · exact (returns_profile _ _ _ _ _ _).bind fun _ hr => Prog.returns_pure hr
  · exact (only_profile _ _ _ _ _ _).bind fun _ => only_pure _

theorem explaining_profileMode (fuel : ℕ) :
    Explaining (fun _ => True) (fun s => Writable s.output) (profileMode leftToRight fuel) := by
  have halarm : Explaining (fun s => Writable s.output) (fun s => Writable s.output) setAlarm :=
    explaining_frame (f := id) (I := fun s => Writable s.output) frame_setAlarm (by simp)
  exact (explaining_openOutput leftToRight).bind fun _ => (explaining_alloc leftToRight).bind
    fun _ => (explaining_startExternal leftToRight).bind fun _ => halarm.bind fun _ =>
      explaining_profile leftToRight fuel

theorem explaining_mainBody (fuel : ℕ) :
    Explaining (fun _ => True) (fun _ => True) (mainBody leftToRight fuel) := by
  have hmode : Explaining (fun _ => True) (fun _ => True) (runMode leftToRight fuel) := by
    refine Explaining.get_bind_any fun s => .ite (fun _ => explaining_benchMode leftToRight)
      fun _ => .ite (fun _ => ?_) fun _ => Cmd.triple_throw fun _ _ h => h.2
    exact (explaining_profileMode leftToRight fuel).mono (fun _ h => h) fun _ _ => trivial
  have hkill : Explaining (fun _ => True) (fun _ => True) killExternal :=
    explaining_frame (f := id) (I := fun _ => True) frame_killExternal (by simp)
  refine (explaining_setUp leftToRight).bind fun _ => Explaining.get_bind_any fun s =>
    .ite (fun _ => Cmd.triple_pure fun _ _ h => h) fun _ => ?_
  exact (explaining_checkRights leftToRight).bind fun _ => hmode.bind fun _ => hkill

/-- **What `main` prints about a failure**: in every run, each message is about a code that its
step can return. Only three codes have no text, and only `ERROR_HDF5_ERROR` has a wrong one. -/
theorem main_explains {fuel : ℕ} {arguments : Arguments} {garbage : Locals} {t : List Event}
    {o : Option ℤ} (h : (main leftToRight fuel arguments garbage).Run t o)
    (hmodelled : ∀ e ∈ t, Modelled e) :
    ∀ r ∈ reports t, Explains r.1 r.2.1 r.2.2 := by
  have hbody := explaining_mainBody leftToRight fuel { garbage with arguments, buffer := .null } []
  have hstart : True ∧ Explained [] := ⟨trivial, fun _ r hr => absurd hr List.not_mem_nil⟩
  rcases main_run leftToRight h with ⟨t₁, t₂, r, s, o', rfl, -, h₁, h₂, -⟩ | ⟨s, h₁, -⟩ | ⟨h₁, -⟩
  · have hbefore : Explained t₁ := by
      have hpost := hbody t₁ _ hstart h₁
      rcases r with e | a
      · exact hpost
      · exact hpost.2
    have hfinalize : Explained t₂ := explained_of_kinds fun e he hkind => by
      have hmem : e.1.kind ∈ [Kind.closing, .memory] := only_finalize s t₂ o' h₂ e he
      rw [hkind] at hmem
      exact absurd hmem (by decide)
    exact explained_append hbefore hfinalize hmodelled
  · exact hbody t _ hstart h₁ hmodelled
  · exact hbody t _ hstart h₁ hmodelled

end

/-- A machine on which the directory of the caches can not be opened. -/
def noDirectory (h : List Event) : (c : Call) → Answer c
  | .cacheInfoNew .. => ⟨[], (errorIoSysCpu, fourMiBCache)⟩
  | c => goodMachine h c

/-- A run that says so. -/
theorem main_explains_noDirectory :
    Explains .cacheInfo errorIoSysCpu errorIoSysCpu := by
  have hmodelled : ∀ h c, Modelled ⟨c, noDirectory h c⟩ := by
    intro h c
    cases c
    case cacheInfoNew => exact ⟨none, fun _ => fourMiBFiles [], fourMiBCache, rfl⟩
    case testAlignment buffer pageSize =>
      cases buffer
      case mapped =>
        -- a cache without lines
        exact ⟨⟨4096, fun _ => none⟩, { fourMiBCache with totalSize := 0 }, 1, rfl⟩
      all_goals trivial
    all_goals trivial
  exact main_explains true (Prog.run_exec noDirectory
    (main true 1 (defaultArguments "info") zeroStack) [])
      (Prog.forall_mem_exec hmodelled _ _) (.cacheInfo, errorIoSysCpu, errorIoSysCpu) (by decide)

end CacheNoise
