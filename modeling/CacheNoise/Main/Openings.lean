import CacheNoise.Main.Outputs
import CacheNoise.Main.Status

/-!
# Runs that open one output

Which runs open one output, by their mode and by what their calls come to (`OpensOne`). The
standard output is opened in the mode `profile` without a file, once no step before that has
failed. A file is handed out when `H5Fcreate` returns a handle and the `chmod` right after it
succeeds. This may be at the second or third evaluation of a step that failed before, so that only
the handles of the whole run tell whether it is the only one (`main_outputsWell_iff`).
-/

namespace CacheNoise

open Interaction

/-- The steps before the output is opened. -/
def earlySteps : List Step := [.focusThis, .currentCore, .cacheInfo, .rdpmc]

/-- No step before the output is opened fails. -/
def EarlySucceed (t : List Event) : Prop := ∀ x ∈ left t, x.1 ∈ earlySteps → x.2 = errorNone

/-- `H5Fcreate` returns a handle, and the `chmod` right after it succeeds. -/
def CreatesFile (t : List Event) : Prop :=
  ∃ (file : String) (a : Answer (.h5Fcreate file)) (b : Answer (.chmod file)),
    [⟨_, a⟩, ⟨_, b⟩] <:+: t ∧ a.value ≠ -1 ∧ b.value = 0

/-- The run opens the standard output, since it measures without a file and gets there; or it
creates one file, and sets its permissions. -/
def OpensOne (arguments : Arguments) (t : List Event) : Prop :=
  (arguments.mode = "profile" ∧ arguments.outputFile = none ∧ EarlySucceed t) ∨
    ((created t).length = 1 ∧ CreatesFile t)

instance (t : List Event) : Decidable (EarlySucceed t) :=
  inferInstanceAs (Decidable (∀ x ∈ left t, x.1 ∈ earlySteps → x.2 = errorNone))

/-- The outputs that a run opens are the ones that its mode and its calls tell. -/
structure Opened (arguments : Arguments) (h : List Event) : Prop where
  stdout_iff : .outputStdout ∈ outputs h ↔
    arguments.mode = "profile" ∧ arguments.outputFile = none ∧ EarlySucceed h
  file_iff : .outputFile ∈ outputs h ↔ CreatesFile h

theorem Opened.oneOutput_iff {arguments : Arguments} {h : List Event} (ho : Opened arguments h) :
    OneOutput h ↔ OpensOne arguments h := by
  rw [OneOutput, OpensOne, ho.stdout_iff, ho.file_iff, and_comm (a := CreatesFile h)]

/-! ### Events -/

/-- The calls that open an output, and the ends of the steps up to that. -/
def Call.opens : Call → Bool
  | .h5Fcreate _ | .chmod _ => true
  | .leave step _ => step ∈ earlySteps ++ [.outputStdout, .outputFile]
  | _ => false

section

variable {arguments : Arguments} {h : List Event} {e : Event}

theorem outputs_of_opens (he : e.1.opens = false) : outputs [e] = [] := by
  obtain ⟨c, a⟩ := e
  cases c with
  | leave step res => cases step <;> first | rfl | exact absurd he (by simp [Call.opens])
  | _ => rfl

theorem earlySucceed_concat :
    EarlySucceed (h ++ [e]) ↔ EarlySucceed h ∧ EarlySucceed [e] := by
  rw [EarlySucceed, left_append]
  exact List.forall_mem_append

theorem earlySucceed_of_opens (he : e.1.opens = false) : EarlySucceed [e] := by
  obtain ⟨c, a⟩ := e
  cases c with
  | leave step res =>
    intro x hx hearly
    obtain rfl := List.mem_singleton.mp hx
    rw [Call.opens, decide_eq_false_iff_not] at he
    exact absurd (List.mem_append_left _ hearly) he
  | _ => exact fun x hx => absurd hx List.not_mem_nil

/-- Only a `chmod` completes a file. -/
theorem createsFile_concat :
    CreatesFile (h ++ [e]) ↔ CreatesFile h ∨
      ∃ (file : String) (a : Answer (.h5Fcreate file)) (b : Answer (.chmod file)),
        [⟨_, a⟩] <:+ h ∧ e = ⟨_, b⟩ ∧ a.value ≠ -1 ∧ b.value = 0 := by
  have hpair : ∀ x y : Event, [x, y] <:+ h ++ [e] ↔ [x] <:+ h ∧ e = y := by
    intro x y
    rw [List.suffix_concat_iff]
    constructor
    · rintro (hnil | ⟨t, heq, hsuffix⟩)
      · cases hnil
      · obtain ⟨rfl, hy⟩ := List.append_inj' (show [x] ++ [y] = t ++ [e] from heq) rfl
        exact ⟨hsuffix, (List.cons.inj hy).1.symm⟩
    · rintro ⟨hsuffix, rfl⟩
      exact .inr ⟨[x], rfl, hsuffix⟩
  simp only [CreatesFile, List.infix_concat_iff, hpair, or_and_right, exists_or, and_assoc]
  exact or_comm

theorem createsFile_of_ne (he : ∀ file, e.1 ≠ .chmod file) :
    CreatesFile (h ++ [e]) ↔ CreatesFile h := by
  refine createsFile_concat.trans (or_iff_left ?_)
  rintro ⟨file, a, b, -, rfl, -⟩
  exact he file rfl

theorem Opened.concat (ho : Opened arguments h) (he : e.1.opens = false) :
    Opened arguments (h ++ [e]) := by
  have houtputs : outputs (h ++ [e]) = outputs h := by
    rw [outputs_append, outputs_of_opens he, List.append_nil]
  refine ⟨?_, ?_⟩
  · rw [houtputs, ho.stdout_iff, earlySucceed_concat, and_iff_left (earlySucceed_of_opens he)]
  · rw [houtputs, ho.file_iff, createsFile_of_ne]
    intro file hchmod
    rw [hchmod] at he
    cases he

theorem Opened.append (ho : Opened arguments h) {u : List Event}
    (hu : ∀ e ∈ u, e.1.opens = false) : Opened arguments (h ++ u) := by
  induction u generalizing h with
  | nil => rwa [List.append_nil]
  | cons e u ih =>
    rw [List.append_cons]
    exact ih (ho.concat (hu e List.mem_cons_self)) fun e' he' => hu e' (List.mem_cons_of_mem e he')

end

/-! ### The parts of `main` -/

/-- What is known before the output is opened. -/
structure Early (arguments : Arguments) (s : Locals) (h : List Event) : Prop where
  mode_eq : s.arguments.mode = arguments.mode
  outputFile_eq : s.arguments.outputFile = arguments.outputFile
  among : ∀ e ∈ h, Among [.setup] earlySteps e
  smooth : Smooth h

/-- What is known at `FINALIZE`. -/
def LeavesOpened (arguments : Arguments) : Option (Exit × Locals) → List Event → Prop
  | some (.finalize, _), h => Opened arguments h
  | _, _ => True

section

variable {arguments : Arguments} {h : List Event}

theorem mem_earlySteps_of_left (hamong : ∀ e ∈ h, Among [.setup] earlySteps e) :
    ∀ x ∈ left h, x.1 ∈ earlySteps := by
  intro x hx
  obtain ⟨⟨c, a⟩, he, hleft⟩ := List.mem_filterMap.mp hx
  cases c with
  | leave step res =>
    obtain rfl := Option.some_injective _ hleft
    obtain hkind | ⟨step', hstep', hmarks⟩ := hamong _ he
    · exact absurd hkind (by simp)
    · rwa [show step = step' by simpa [Call.marks] using hmarks]
  | _ => cases hleft

theorem not_createsFile_of_among (hamong : ∀ e ∈ h, Among [.setup] earlySteps e) :
    ¬ CreatesFile h := by
  rintro ⟨file, a, b, hinside, -⟩
  obtain hkind | ⟨step, -, hmarks⟩ := hamong _ (hinside.subset List.mem_cons_self)
  · exact absurd hkind (by simp)
  · exact absurd hmarks Bool.false_ne_true

/-- Nothing has been opened before. -/
theorem opened_of_among (hamong : ∀ e ∈ h, Among [.setup] earlySteps e)
    (hnot : arguments.mode = "profile" → arguments.outputFile = none → ¬ NoStepFails h) :
    Opened arguments h := by
  have hplain : Plain h := plain_of_handlesOutput fun e he =>
    handlesOutput_of_among (hamong e he) (by simp) (by decide)
  refine ⟨?_, ?_⟩
  · rw [hplain.outputs_nil]
    refine iff_of_false List.not_mem_nil ?_
    rintro ⟨hmode, hfile, hearly⟩
    exact hnot hmode hfile fun x hx => hearly x hx (mem_earlySteps_of_left hamong x hx)
  · rw [hplain.outputs_nil]
    exact iff_of_false List.not_mem_nil (not_createsFile_of_among hamong)

end

section

variable {arguments : Arguments} {h : List Event}

/-- The parts of `main` before the output is opened. -/
theorem triple_early (arguments : Arguments) {α κ : Type} {f : Locals → κ} {S : List Step}
    {m : Main α} (hm : Cmd.Frame (Among [.setup] S) f m) (hS : S ⊆ earlySteps) (g : κ → Arguments)
    (hg : ∀ s, (g (f s)).mode = s.arguments.mode ∧ (g (f s)).outputFile = s.arguments.outputFile)
    (htelling : Telling m) :
    Cmd.Triple (Early arguments) m (fun _ => Early arguments) (LeavesOpened arguments) := by
  intro s h t o hearly hrun
  obtain ⟨hevents, hkept⟩ := hm s t o hrun
  have htold := htelling s h t o hearly.smooth hrun
  have hamong : ∀ e ∈ h ++ t, Among [.setup] earlySteps e := by
    intro e he
    obtain he | he := List.mem_append.mp he
    · exact hearly.among e he
    · exact (hevents e he).imp_right fun ⟨step, hstep, hmarks⟩ => ⟨step, hS hstep, hmarks⟩
  rcases o with _ | ⟨_ | a, s'⟩
  · trivial
  · next exit =>
    cases exit with
    | finalize => exact opened_of_among hamong fun _ _ hok => htold.1 hok
    | failure => trivial
  · have hsame := hkept _ _ rfl
    refine ⟨?_, ?_, hamong, htold⟩
    · rw [← (hg s').1, hsame, (hg s).1, hearly.mode_eq]
    · rw [← (hg s').2, hsame, (hg s).2, hearly.outputFile_eq]

/-- The parts of `main` after that. -/
theorem triple_later (arguments : Arguments) {α κ : Type} {f : Locals → κ} {m : Main α}
    (hm : Cmd.Frame (fun e => e.1.opens = false) f m) :
    Cmd.Triple (fun _ h => Opened arguments h) m (fun _ _ h => Opened arguments h)
      (LeavesOpened arguments) :=
  (hm.triple_of (I := fun _ h => Opened arguments h) (fun _ _ _ he ho => ho.concat he)
    fun _ _ ho => ho).mono_exit fun x _ ho => match x with
      | some (.finalize, _) => ho
      | some (.failure, _) => trivial
      | none => trivial

theorem opens_of_among {e : Event} {K : List Kind} {S : List Step} (he : Among K S e)
    (hK : Kind.opening ∉ K ∧ Kind.step ∉ K)
    (hS : ∀ step ∈ S, step ∉ earlySteps ++ [.outputStdout, .outputFile]) : e.1.opens = false := by
  obtain ⟨c, a⟩ := e
  obtain hkind | ⟨step, hstep, hmarks⟩ := he
  · cases c <;> first | rfl | exact absurd hkind hK.1 | exact absurd hkind hK.2
  · cases c with
    | leave step' res =>
      obtain rfl : step' = step := by simpa [Call.marks] using hmarks
      exact decide_eq_false (hS step' hstep)
    | _ => first | rfl | exact absurd hmarks Bool.false_ne_true

theorem opens_of_inProfileLoop {e : Event} (he : e.1.inProfileLoop = true) :
    e.1.opens = false := by
  obtain ⟨c, a⟩ := e
  cases c <;> first | rfl | exact absurd he Bool.false_ne_true

/-- The standard output is opened at once. -/
theorem triple_openStdout (leftToRight : Bool) (hmode : arguments.mode = "profile")
    (hfile : arguments.outputFile = none) :
    Cmd.Triple (Early arguments) (exitOnFail leftToRight .outputStdout outputStdoutStep)
      (fun _ _ h => Opened arguments h) (LeavesOpened arguments) := by
  intro s h t o hearly hexit
  rcases exitOnFail_run hexit with ⟨a, u, s', b, rfl, hu, rfl⟩ | ⟨a, u, -, -, rfl⟩ |
    ⟨_, _, res, _, _, _, -, hres, hu, -⟩
  · obtain ⟨rfl, -⟩ := outputStdoutStep_run hu
    have hopened : outputs (h ++ evaluation .outputStdout a [] errorNone b) = [.outputStdout] := by
      rw [outputs_append, outputs_evaluation, (plain_of_handlesOutput fun e he =>
        handlesOutput_of_among (hearly.among e he) (by simp) (by decide)).outputs_nil]
      rfl
    have hok : NoStepFails (h ++ evaluation .outputStdout a [] errorNone b) :=
      noStepFails_append.mpr ⟨hearly.smooth.1, fun x hx => by
        rw [(shown_evaluation fun e he => absurd he List.not_mem_nil).2.1] at hx
        rw [List.mem_singleton.mp hx]⟩
    refine ⟨?_, ?_⟩
    · rw [hopened]
      exact iff_of_true (List.mem_singleton_self _) ⟨hmode, hfile, fun x hx _ => hok x hx⟩
    · rw [hopened]
      refine iff_of_false (by simp) ?_
      rw [evaluation, ← List.append_assoc, createsFile_of_ne (by simp), createsFile_of_ne (by simp)]
      exact not_createsFile_of_among hearly.among
  · trivial
  · exact absurd (outputStdoutStep_run hu).2 hres

/-- An evaluation of `outputc_hd5_file` shows an output if and only if both of its calls succeed. -/
theorem Opened.evaluation {file : String} {s s' : Locals} {u : List Event} {res : ErrorT}
    {a : Answer (.enter .outputFile)} {b : Answer (.leave .outputFile res)}
    (ho : Opened arguments h) (hrun : (outputFileStep file s).Run u (some (res, s'))) :
    Opened arguments (h ++ CacheNoise.evaluation .outputFile a u res b) := by
  obtain ⟨c, m, rfl, -, hres, -⟩ := outputFileStep_run hrun
  have houtputs : outputs (h ++ CacheNoise.evaluation .outputFile a [⟨_, c⟩, ⟨_, m⟩] res b) =
      outputs h ++ if res = errorNone then [.outputFile] else [] := by
    rw [outputs_append, outputs_evaluation, show outputs [⟨_, c⟩, ⟨_, m⟩] = [] from rfl,
      List.nil_append]
    refine congrArg _ ?_
    split
    · next hok => exact List.filterMap_cons_some (if_pos hok)
    · next hfail => exact List.filterMap_cons_none (if_neg hfail)
  have hleft : left (h ++ CacheNoise.evaluation .outputFile a [⟨_, c⟩, ⟨_, m⟩] res b) =
      left h ++ [(.outputFile, res)] := by
    rw [left_append, (shown_evaluation (by simp)).2.1]
  have hsplit : h ++ CacheNoise.evaluation .outputFile a [⟨_, c⟩, ⟨_, m⟩] res b =
      h ++ [⟨_, a⟩] ++ [⟨_, c⟩] ++ [⟨_, m⟩] ++ [⟨_, b⟩] := by
    simp [CacheNoise.evaluation]
  have hcreates : CreatesFile (h ++ [⟨_, a⟩] ++ [⟨_, c⟩] ++ [⟨_, m⟩]) ↔
      CreatesFile h ∨ res = errorNone := by
    rw [createsFile_concat, createsFile_of_ne (by simp), createsFile_of_ne (by simp)]
    refine or_congr_right ⟨?_, fun hok => ⟨_, c, m, List.suffix_append _ _, rfl, hres.mp hok⟩⟩
    rintro ⟨_, a', b', hsuffix, heq, ha, hb⟩
    cases heq
    obtain hnil | ⟨t, heq, -⟩ := List.suffix_concat_iff.mp hsuffix
    · cases hnil
    · cases (List.append_inj' (show [] ++ [_] = t ++ [_] from heq) rfl).2
      exact hres.mpr ⟨ha, hb⟩
  refine ⟨?_, ?_⟩
  · have hearly : EarlySucceed (h ++ CacheNoise.evaluation .outputFile a [⟨_, c⟩, ⟨_, m⟩] res b) ↔
        EarlySucceed h := by
      rw [EarlySucceed, hleft, List.forall_mem_append, EarlySucceed]
      refine and_iff_left fun x hx hmem => ?_
      rw [List.mem_singleton.mp hx] at hmem
      exact absurd hmem (show Step.outputFile ∉ earlySteps by decide)
    rw [houtputs, hearly, ← ho.stdout_iff]
    split <;> simp
  · rw [houtputs, hsplit, createsFile_of_ne (by simp), hcreates, ← ho.file_iff]
    split
    · next hok => simp [hok]
    · next hfail => simp [hfail]

/-- The file is opened in up to three evaluations. -/
theorem triple_openFile (leftToRight : Bool) (file : String) :
    Cmd.Triple (fun _ h => Opened arguments h)
      (exitOnFail leftToRight .outputFile (outputFileStep file))
      (fun _ _ h => Opened arguments h) (LeavesOpened arguments) := by
  have hall : Cmd.Triple (fun _ h => Opened arguments h)
      (exitOnFail leftToRight .outputFile (outputFileStep file))
      (fun _ _ h => Opened arguments h) _ :=
    triple_exitOnFail_evaluations (fun _ _ _ _ _ _ _ ho hrun => ho.evaluation hrun)
      fun _ _ _ _ _ ho => ho.concat rfl
  refine hall.mono_exit fun x h hx => ?_
  rcases x with _ | ⟨_ | _, s⟩
  · trivial
  · exact hx _ s rfl
  · trivial

end

section

variable (leftToRight : Bool) (arguments : Arguments)

theorem triple_openOutput_opened (hmode : arguments.mode = "profile") :
    Cmd.Triple (Early arguments) (openOutput leftToRight) (fun _ _ h => Opened arguments h)
      (LeavesOpened arguments) := by
  have hget : Cmd.Triple (Early arguments) (Cmd.get : Main Locals)
      (fun s s' h => s = s' ∧ Early arguments s' h) (LeavesOpened arguments) :=
    Cmd.triple_get fun _ _ hearly => ⟨rfl, hearly⟩
  refine hget.bind fun s => ?_
  cases hfile : s.arguments.outputFile with
  | some file =>
    refine (triple_openFile leftToRight file).mono ?_ (fun _ _ _ ho => ho) fun _ _ hx => hx
    rintro _ h ⟨rfl, hearly⟩
    refine opened_of_among hearly.among fun _ hnone => ?_
    rw [← hearly.outputFile_eq, hfile] at hnone
    cases hnone
  | none =>
    have hnone : arguments.outputFile = none → Cmd.Triple (Early arguments)
        (exitOnFail leftToRight .outputStdout outputStdoutStep)
        (fun _ _ h => Opened arguments h) (LeavesOpened arguments) :=
      triple_openStdout leftToRight hmode
    intro s' h t o hpre
    obtain ⟨rfl, hearly⟩ := hpre
    exact hnone (hearly.outputFile_eq ▸ hfile) s h t o hearly

theorem triple_profileMode_opened (hmode : arguments.mode = "profile") (fuel : ℕ) :
    Cmd.Triple (Early arguments) (profileMode leftToRight fuel) (fun _ _ h => Opened arguments h)
      (LeavesOpened arguments) := by
  have halloc := triple_later arguments ((frame_alloc_among leftToRight).mono
    (fun _ he => opens_of_among he (by simp) (by decide)) id)
  have hstart := triple_later arguments
    ((frame_startExternal_among leftToRight).mono
      (fun _ he => opens_of_among he (by simp) (by decide)) id)
  have halarm := triple_later arguments (frame_setAlarm.mono
    (fun _ he => opens_of_among (S := []) (.inl he) (by simp) (by simp)) id)
  have hframe : Cmd.Frame (fun e => e.1.opens = false) (fun _ => ())
      (exitOnFail leftToRight .profile (profileStep fuel)) := by
    refine frame_exitOnFail_marks leftToRight (fun e he => ?_) (fun s => ?_) fun _ _ _ _ => rfl
    · exact opens_of_among (K := []) (.inr ⟨.profile, List.mem_singleton_self _, he⟩) (by simp)
        (by decide)
    exact (within_profile (fun _ => rfl) fun _ => opens_of_inProfileLoop).bind
      fun _ => Prog.within_pure
  have hprofile := triple_later arguments hframe
  exact (triple_openOutput_opened leftToRight arguments hmode).bind fun _ => halloc.bind fun _ =>
    hstart.bind fun _ => halarm.bind fun _ => hprofile

/-- **The outputs that the body of `main` opens** are the ones that its mode and its calls tell. -/
theorem triple_mainBody_opened (fuel : ℕ) :
    Cmd.Triple (Early arguments) (mainBody leftToRight fuel) (fun _ _ h => Opened arguments h)
      (LeavesOpened arguments) := by
  have hget : Cmd.Triple (Early arguments) (Cmd.get : Main Locals)
      (fun s s' h => s.arguments.mode = arguments.mode ∧ Early arguments s' h)
      (LeavesOpened arguments) :=
    Cmd.triple_get fun _ _ hearly => ⟨hearly.mode_eq, hearly⟩
  have hsetUp := triple_early arguments (frame_setUp_among leftToRight)
    (by simp [earlySteps]) (fun x => x.2.2) (fun _ => ⟨rfl, rfl⟩) (telling_setUp leftToRight)
  have hrights := triple_early arguments (frame_checkRights_among leftToRight)
    (by simp [earlySteps]) (fun s => s.arguments) (fun _ => ⟨rfl, rfl⟩)
    (telling_checkRights leftToRight)
  have hbench := triple_later arguments ((frame_benchMode_among leftToRight).mono
    (fun _ he => opens_of_among he (by simp) (by decide)) id)
  have hkill := triple_later arguments (frame_killExternal.mono
    (fun _ he => opens_of_among (S := []) (.inl he) (by simp) (by simp)) id)
  -- in the other modes nothing is opened
  have hother : ∀ {s : Locals} {h}, arguments.mode ≠ "profile" → Early arguments s h →
      Opened arguments h := fun hne hearly =>
    opened_of_among hearly.among fun hmode => absurd hmode hne
  refine hsetUp.bind fun _ => hget.bind fun s => Cmd.Triple.of_pre (fun _ _ hpre => hpre.1)
    fun hmode => Cmd.Triple.ite (fun hinfo => ?_) fun _ => ?_
  · refine Cmd.triple_pure fun _ h hpre => hother ?_ hpre.2
    rw [← hmode, hinfo]
    decide
  refine (hrights.mono (fun _ _ hpre => hpre.2) (fun _ _ _ hq => hq) fun _ _ hx => hx).bind
    fun _ => Cmd.Triple.bind ?_ fun _ => hkill
  refine hget.bind fun s => Cmd.Triple.of_pre (fun _ _ hpre => hpre.1) fun hmode =>
    Cmd.Triple.ite (fun hben => ?_) fun _ => Cmd.Triple.ite (fun hprofile => ?_) fun hne => ?_
  · refine hbench.mono (fun _ _ hpre => hother ?_ hpre.2) (fun _ _ _ hq => hq) fun _ _ hx => hx
    rw [← hmode, hben]
    decide
  · exact (triple_profileMode_opened leftToRight arguments (hmode ▸ hprofile) fuel).mono
      (fun _ _ hpre => hpre.2) (fun _ _ _ hq => hq) fun _ _ hx => hx
  · exact Cmd.triple_throw fun _ h hpre => hother (hmode ▸ hne) hpre.2

end

/-! ### Whole runs -/

section

variable (leftToRight : Bool)

/-- **Whether `main` treats its output well**: if and only if it does not get to `FINALIZE`, or
opens exactly one output, as its mode and its calls tell. -/
theorem main_outputsWell_iff (fuel : ℕ) (arguments : Arguments) (garbage : Locals)
    (t : List Event) (o : Option ℤ) (h : (main leftToRight fuel arguments garbage).Run t o) :
    OutputsWell leftToRight fuel arguments garbage t o ↔
      (ReachesFinalize leftToRight fuel arguments garbage t o → OpensOne arguments t) := by
  refine (outputsWell_iff_oneOutput leftToRight h).trans (forall_congr' ?_)
  rintro ⟨t₁, t₂, r, s, o', rfl, hr, h₁, h₂, -⟩
  have hstart : Early arguments { garbage with arguments, buffer := .null } [] :=
    ⟨rfl, rfl, by simp, by simp [NoStepFails, left], by simp [Refused]⟩
  have hpost := triple_mainBody_opened leftToRight arguments fuel _ [] t₁ _ hstart h₁
  have hbody : Opened arguments t₁ := by
    rcases r with (_ | _) | _
    · exact hpost
    · exact absurd rfl hr
    · exact hpost
  refine (hbody.append fun e he => ?_).oneOutput_iff
  exact opens_of_among (S := []) (.inl (only_finalize s t₂ o' h₂ e he)) (by simp) (by simp)

end

/-- The arguments of a measurement into a file. -/
def intoFile : Arguments := { defaultArguments "profile" with outputFile := some "out.h5" }

/-- Such a measurement on a machine where every call succeeds. -/
def intoFileRun : List Event := ((main true 1 intoFile zeroStack).exec goodMachine []).1

/-- The file is closed once. -/
theorem main_outputsWell_iff_goodMachine :
    OutputsWell true 1 intoFile zeroStack intoFileRun (some 0) := by
  have hcreates : CreatesFile intoFileRun :=
    ⟨"out.h5", ⟨[], 1⟩, ⟨[], 0⟩, ⟨intoFileRun.take 16, intoFileRun.drop 18, rfl⟩, by decide, rfl⟩
  exact (main_outputsWell_iff true 1 intoFile zeroStack _ (some 0)
    (Prog.run_exec goodMachine (main true 1 intoFile zeroStack) [])).mpr
      fun _ => .inr ⟨by decide, hcreates⟩

/-- A machine on which the permissions of files cannot be changed. -/
def chmodFails (h : List Event) : (c : Call) → Answer c
  | .chmod _ => ⟨[], -1⟩
  | c => goodMachine h c

/-- When `chmod` fails, three files are created and none of them is closed. -/
theorem main_outputs_chmodFails :
    ¬ ∀ (leftToRight : Bool) (fuel : ℕ) (arguments : Arguments) (garbage : Locals)
      (t : List Event) (o : Option ℤ), (main leftToRight fuel arguments garbage).Run t o →
        OutputsWell leftToRight fuel arguments garbage t o := by
  intro h
  have hrun := h true 1 intoFile zeroStack _ (some 0)
    (Prog.run_exec chmodFails (main true 1 intoFile zeroStack) [])
  exact absurd (hrun.closedOnce (by simp)) (by decide)

end CacheNoise
