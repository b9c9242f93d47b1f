import CacheNoise.Main.Steps

/-!
# The exit status of `main`

A run of `main` fails when a step under `EXIT_ON_FAIL` returns an error, when a check that
leaves with `exit(EXIT_FAILURE)` does so, or when the mode is unknown. `error.h` says that
`EXIT_ON_FAIL` calls `exit(EXIT_FAILURE)` too, but the macro goes to `FINALIZE`, as does the branch
for an unknown mode, and what follows `FINALIZE` returns `EXIT_SUCCESS`.

`Told` says how the body of `main` ends: by `exit(EXIT_FAILURE)` if and only if a check refuses
to go on, and otherwise at `FINALIZE`, early only after a failed step or for an unknown mode.
So the status tells whether the run failed if and only if no step fails and an unknown mode is
never reached (`main_statusTells_iff`).
-/

namespace CacheNoise

open Interaction

/-! ### Failed runs -/

/-- The answers on which `main` leaves with `exit(EXIT_FAILURE)`. -/
def refusal : Event → Bool
  | ⟨.getpid, a⟩ => a.value == 0
  | ⟨.signal _, a⟩ => a.value
  | ⟨.sigactionChild, a⟩ => a.value != 0
  | ⟨.getuid, a⟩ => a.value != 0
  | _ => false

/-- The PID could not be found out, a handler not be installed, or the user is not root. -/
def Refused (t : List Event) : Prop := ∃ e ∈ t, refusal e = true

/-- The modes of the profiler. -/
def KnownMode (mode : String) : Prop := mode = "info" ∨ mode = "bench" ∨ mode = "profile"

/-- A step failed, a check refused to go on, or the mode is unknown. -/
def Failed (arguments : Arguments) (t : List Event) : Prop :=
  ¬ NoStepFails t ∨ Refused t ∨ ¬ KnownMode arguments.mode

instance (t : List Event) : Decidable (Refused t) :=
  inferInstanceAs (Decidable (∃ e ∈ t, refusal e = true))

instance (mode : String) : Decidable (KnownMode mode) :=
  inferInstanceAs (Decidable (mode = "info" ∨ mode = "bench" ∨ mode = "profile"))

instance (arguments : Arguments) (t : List Event) : Decidable (Failed arguments t) :=
  inferInstanceAs (Decidable (¬ NoStepFails t ∨ Refused t ∨ ¬ KnownMode arguments.mode))

theorem refused_append {t u : List Event} : Refused (t ++ u) ↔ Refused t ∨ Refused u := by
  simp only [Refused, List.mem_append, or_and_right, exists_or]

theorem not_refused_of_forall {t : List Event} (h : ∀ e ∈ t, refusal e = false) :
    ¬ Refused t := by
  rintro ⟨e, he, hrefusal⟩
  exact absurd hrefusal (by simp [h e he])

/-- Outside of the set-up nothing refuses. -/
theorem refusal_of_kind {e : Event} (h : e.1.kind ≠ .setup) : refusal e = false := by
  obtain ⟨c, a⟩ := e
  cases c <;> first | rfl | exact absurd rfl h

/-! ### How a part of `main` ends -/

/-- So far neither has a step failed nor a check refused. -/
def Smooth (h : List Event) : Prop := NoStepFails h ∧ ¬ Refused h

/-- What early exits tell: `exit(EXIT_FAILURE)` of a refusal, and `goto FINALIZE` of a failed
step, unless there is another `reason`. -/
def Told (reason : Prop) : Option (Exit × Locals) → List Event → Prop
  | some (.failure, _), h => NoStepFails h ∧ Refused h
  | some (.finalize, _), h => (NoStepFails h → reason) ∧ ¬ Refused h
  | none, _ => True

/-- A part of `main` that leaves early only after a refusal or a failed step. -/
def Telling {α : Type} (m : Main α) : Prop :=
  Cmd.Triple (fun _ h => Smooth h) m (fun _ _ h => Smooth h) (Told False)

theorem Told.mono {reason : Prop} {x : Option (Exit × Locals)} {h : List Event}
    (hx : Told False x h) : Told reason x h := by
  rcases x with _ | ⟨_ | _, _⟩
  · trivial
  · exact ⟨fun hn => (hx.1 hn).elim, hx.2⟩
  · exact hx

/-- The events that neither mark a step nor refuse. -/
def Silent (e : Event) : Prop := e.1.kind ≠ .step ∧ refusal e = false

theorem Smooth.append {h u : List Event} (hh : Smooth h) (hu : ∀ e ∈ u, Silent e) :
    Smooth (h ++ u) := by
  refine ⟨noStepFails_append.mpr ⟨hh.1, ?_⟩, fun hr => ?_⟩
  · rw [NoStepFails, (quiet_of_kinds fun e he => (hu e he).1).2.1]
    simp
  · rcases refused_append.mp hr with hr | hr
    · exact hh.2 hr
    · exact not_refused_of_forall (fun e he => (hu e he).2) hr

section

variable {leftToRight : Bool}

theorem telling_get : Telling (Cmd.get : Main Locals) := Cmd.triple_get fun _ _ h => h

theorem telling_modify (f : Locals → Locals) : Telling (Cmd.modify f : Main Unit) :=
  Cmd.triple_modify fun _ _ h => h

theorem telling_lift {c : Call} (hc : ∀ a, Silent ⟨c, a⟩) :
    Telling (Cmd.lift (sys c) : Main c.Value) := by
  refine Cmd.triple_lift fun s => ?_
  intro h t o hh hrun
  obtain ⟨a, rfl, rfl⟩ := run_sys.mp hrun
  exact hh.append (by simpa using hc a)

/-- What is known between a call and the check of its value. -/
def Asked (refuses : Bool) (h : List Event) : Prop :=
  NoStepFails h ∧ (Refused h ↔ refuses = true)

/-- A call whose value a check looks at. -/
theorem triple_asked {c : Call} (hc : c.kind ≠ .step) (refuses : c.Value → Bool)
    (hrefuses : ∀ a : Answer c, refusal ⟨c, a⟩ = refuses a.value) :
    Cmd.Triple (fun _ h => Smooth h) (Cmd.lift (sys c) : Main c.Value)
      (fun v _ h => Asked (refuses v) h) (Told False) := by
  refine Cmd.triple_lift fun s => ?_
  intro h t o hh hrun
  obtain ⟨a, rfl, rfl⟩ := run_sys.mp hrun
  refine ⟨noStepFails_append.mpr ⟨hh.1, ?_⟩, ?_⟩
  · rw [NoStepFails, (quiet_of_kinds (t := [⟨c, a⟩]) (by simpa using hc)).2.1]
    simp
  · rw [refused_append, ← hrefuses a, or_iff_right hh.2]
    simp [Refused]

theorem triple_failIf (condition : Bool) :
    Cmd.Triple (fun _ h => Asked condition h) (failIf condition) (fun _ _ h => Smooth h)
      (Told False) := by
  refine Cmd.Triple.ite (fun hc => Cmd.triple_throw fun _ h hh => ⟨hh.1, hh.2.mpr hc⟩) fun hc => ?_
  exact Cmd.triple_pure fun _ h hh => ⟨hh.1, fun hr => hc (hh.2.mp hr)⟩

/-- **`EXIT_ON_FAIL` leaves early if and only if the step fails.** -/
theorem telling_exitOnFail {step : Step} {body : Locals → Proc (ErrorT × Locals)}
    (hbody : ∀ s, (body s).Within Silent) : Telling (exitOnFail leftToRight step body) := by
  intro s h t o hh hrun
  have hrefusal : ¬ Refused t := by
    have hframe := frame_exitOnFail_within (E := fun e => refusal e = false) (f := fun _ => ())
      leftToRight step (fun _ he => refusal_of_kind (by rw [he]; decide))
      (fun s => (hbody s).mono fun _ he => he.2) fun s _ _ _ => rfl
    exact not_refused_of_forall (hframe s t o hrun).1
  have hrefused : ¬ Refused (h ++ t) := fun hr => (refused_append.mp hr).elim hh.2 hrefusal
  have hleft : ∀ {s u o a res b}, (body s).Run u o →
      left (evaluation step a u res b) = [(step, res)] := fun hu =>
    (shown_evaluation fun e he => (hbody _ _ _ hu e he).1).2.1
  rcases exitOnFail_run hrun with ⟨a, u, s', b, rfl, hu, rfl⟩ | ⟨a, u, -, -, rfl⟩ |
    ⟨a, u, res, s₁, b, t', rfl, hres, hu, hfail⟩
  · refine ⟨noStepFails_append.mpr ⟨hh.1, ?_⟩, hrefused⟩
    rw [NoStepFails, hleft hu]
    simp
  · trivial
  · -- however the failing branch ends, the failed evaluation stays in the history
    have hfails : ¬ NoStepFails (h ++ (evaluation step a u res b ++ t')) := by
      intro hn
      have heval := (noStepFails_append.mp (noStepFails_append.mp hn).2).1
      rw [NoStepFails, hleft hu] at heval
      exact hres (heval _ (List.mem_singleton_self _))
    rcases failStep_run hfail with ⟨_, _, -, -, rfl⟩ | ⟨_, _, _, _, _, _, _, -, -, -, rfl⟩ |
      ⟨_, _, _, _, _, _, _, _, _, _, _, -, -, -, rfl⟩
    · trivial
    · trivial
    · exact ⟨fun hn => absurd hn hfails, hrefused⟩

end

/-! ### The parts of `main` -/

theorem silent_of_kind {e : Event} (h : e.1.kind ≠ .setup) (hstep : e.1.kind ≠ .step) :
    Silent e := ⟨hstep, refusal_of_kind h⟩

/-- Calls of other kinds than setting up and marking are silent. -/
theorem silent_of_only {K : List Kind} {α : Type} {p : Proc α} (hp : Only K p)
    (hK : Kind.setup ∉ K ∧ Kind.step ∉ K) : p.Within Silent :=
  Prog.Within.mono hp fun _ he => silent_of_kind (fun hk => hK.1 (hk ▸ he)) fun hk => hK.2 (hk ▸ he)

section

variable (leftToRight : Bool)

theorem telling_setUp : Telling (setUp leftToRight) := by
  have hhandlers : Telling installHandlers := by
    refine (triple_asked (by simp) (fun v => v) fun _ => rfl).bind fun term => ?_
    refine (triple_failIf term).bind fun _ => ?_
    refine (triple_asked (by simp) (fun v => v) fun _ => rfl).bind fun alrm => ?_
    refine (triple_failIf alrm).bind fun _ => ?_
    refine (triple_asked (by simp) (fun v => v) fun _ => rfl).bind fun int => ?_
    refine (triple_failIf int).bind fun _ => ?_
    refine (triple_asked (by simp) (fun v => v != 0) fun _ => rfl).bind fun child => ?_
    exact triple_failIf _
  have hfocus : ∀ pid cpu : UInt32, (focusCpuCore pid cpu).Within Silent := fun pid cpu =>
    (within_sys fun _ => ⟨by simp, rfl⟩).bind fun _ => Prog.within_pure
  -- the PID, the handlers, and then the core: of the command line, or the one of this process
  refine (triple_asked (by simp) (fun v => v == 0) fun _ => rfl).bind fun thisPid => ?_
  refine (triple_failIf _).bind fun _ => hhandlers.bind fun _ => ?_
  refine Cmd.Triple.bind (M := fun _ _ h => Smooth h) ?_ fun _ => telling_exitOnFail fun s => ?_
  · refine telling_get.bind fun s => Cmd.Triple.ite (fun _ => ?_) fun _ => ?_
    · exact telling_exitOnFail fun s => (hfocus _ _).bind fun _ => Prog.within_pure
    · refine (telling_exitOnFail fun s => ?_).bind fun _ => telling_modify _
      refine Prog.Within.bind ?_ fun r => by cases r <;> exact Prog.within_pure
      exact (within_sys fun _ => ⟨by simp, rfl⟩).bind fun _ => Prog.within_pure
  · exact (within_sys fun _ => ⟨by simp, rfl⟩).bind fun _ => Prog.within_pure

theorem telling_checkRights : Telling (checkRights leftToRight) := by
  have hroot : Cmd.Triple (fun _ h => Smooth h) (Cmd.lift hasRootAccess : Main Bool)
      (fun root _ h => Asked (!root) h) (Told False) := by
    refine Cmd.triple_lift fun s => ?_
    intro h t o hh hrun
    obtain ⟨a, t', rfl, rfl, rfl⟩ := run_sys_bind.mp hrun
    exact triple_asked (by simp) (fun v => !(v == 0)) (fun _ => rfl) s h _ _ hh
      (Cmd.run_lift.mpr ⟨some a.value, run_sys.mpr ⟨a, rfl, rfl⟩, rfl⟩)
  refine hroot.bind fun root => (triple_failIf _).bind fun _ => telling_exitOnFail fun s => ?_
  exact (within_canUseRdpmc fun _ => ⟨by simp, rfl⟩).bind fun _ => Prog.within_pure

theorem telling_benchMode : Telling (benchMode leftToRight) := by
  refine (telling_modify _).bind fun _ => telling_exitOnFail fun s => ?_
  refine Prog.Within.bind ?_ fun _ => Prog.within_pure
  exact within_benchmark (fun _ => ⟨by simp, rfl⟩) (fun _ => ⟨by simp, rfl⟩)
    (fun _ _ _ => ⟨by simp, rfl⟩) fun _ => ⟨by simp, rfl⟩

theorem telling_openOutput : Telling (openOutput leftToRight) := by
  refine telling_get.bind fun s => ?_
  cases s.arguments.outputFile with
  | none => exact telling_exitOnFail fun s => Prog.within_pure.bind fun _ => Prog.within_pure
  | some file =>
    refine telling_exitOnFail fun s => Prog.Within.bind ?_ fun _ => Prog.within_pure
    exact silent_of_only (only_outputcHd5File _ _) (by simp)

theorem telling_alloc : Telling (exitOnFail leftToRight .alloc allocStep) := by
  refine telling_exitOnFail fun s => Prog.Within.bind ?_ fun _ => Prog.within_pure
  exact within_allocAligned (fun _ => ⟨by simp, rfl⟩) (fun _ => ⟨by simp, rfl⟩)
    fun _ he => silent_of_kind (by rw [he]; decide) (by rw [he]; decide)

theorem telling_startExternal : Telling (startExternal leftToRight) := by
  refine telling_get.bind fun s => Cmd.Triple.ite (fun _ => ?_) fun _ =>
    Cmd.Triple.ite (fun _ => ?_) fun _ => Cmd.triple_pure fun _ _ hh => hh
  · refine telling_exitOnFail fun s => Prog.Within.bind ?_ fun _ => Prog.within_pure
    exact (within_sys fun _ => ⟨by simp, rfl⟩).bind fun _ => Prog.within_pure
  · refine telling_exitOnFail fun s => Prog.Within.bind ?_ fun _ => Prog.within_pure
    exact within_runProgram (fun _ he => silent_of_kind (by rw [he]; decide) (by rw [he]; decide))
      fun _ => ⟨by simp, rfl⟩

theorem telling_setAlarm : Telling setAlarm :=
  telling_get.bind fun _ => Cmd.Triple.ite (fun _ => telling_lift fun _ => ⟨by simp, rfl⟩)
    fun _ => Cmd.triple_pure fun _ _ hh => hh

theorem telling_profile (fuel : ℕ) :
    Telling (exitOnFail leftToRight .profile (profileStep fuel)) := by
  refine telling_exitOnFail fun s => Prog.Within.bind ?_ fun _ => Prog.within_pure
  exact silent_of_only (only_profile _ _ _ _ _ _) (by simp)

theorem telling_killExternal : Telling killExternal :=
  telling_get.bind fun _ => Cmd.Triple.ite
    (fun _ => (telling_lift fun _ => ⟨by simp, rfl⟩).bind fun _ =>
      Cmd.triple_pure fun _ _ hh => hh)
    fun _ => Cmd.triple_pure fun _ _ hh => hh

theorem telling_profileMode (fuel : ℕ) : Telling (profileMode leftToRight fuel) :=
  (telling_openOutput leftToRight).bind fun _ => (telling_alloc leftToRight).bind fun _ =>
    (telling_startExternal leftToRight).bind fun _ => telling_setAlarm.bind fun _ =>
      telling_profile leftToRight fuel

/-- **How the body of `main` ends**: an unknown mode is the only other reason to go to `FINALIZE`
early. -/
theorem triple_mainBody_told (fuel : ℕ) :
    Cmd.Triple (fun _ h => Smooth h) (mainBody leftToRight fuel) (fun _ _ h => Smooth h)
      (Told True) := by
  have hpart : ∀ {m : Main Unit}, Telling m →
      Cmd.Triple (fun _ h => Smooth h) m (fun _ _ h => Smooth h) (Told True) := fun hm =>
    hm.mono_exit fun _ _ h => h.mono
  have hget : Cmd.Triple (fun _ h => Smooth h) (Cmd.get : Main Locals) (fun _ _ h => Smooth h)
      (Told True) := Cmd.triple_get fun _ _ h => h
  refine (hpart (telling_setUp leftToRight)).bind fun _ => hget.bind fun s =>
    Cmd.Triple.ite (fun _ => Cmd.triple_pure fun _ _ h => h) fun _ => ?_
  -- past the mode `info`, which is done after the set-up
  refine (hpart (telling_checkRights leftToRight)).bind fun _ => ?_
  refine Cmd.Triple.bind (M := fun _ _ h => Smooth h) (hget.bind fun s => ?_) fun _ =>
    hpart telling_killExternal
  refine Cmd.Triple.ite (fun _ => hpart (telling_benchMode leftToRight)) fun _ => ?_
  refine Cmd.Triple.ite (fun _ => hpart (telling_profileMode leftToRight fuel)) fun _ => ?_
  -- the branch for an unknown mode goes to `FINALIZE` although nothing failed
  exact Cmd.triple_throw fun _ h hh => ⟨fun _ => trivial, hh.2⟩

/-! ### The status -/

/-- `FINALIZE` shows no steps, and nothing in it refuses. -/
theorem finalize_silent {s : Locals} {t : List Event} {o : Option Unit}
    (h : (finalize s).Run t o) : ∀ e ∈ t, Silent e :=
  silent_of_only (only_finalize s) (by simp) t o h

/-- A run that returns: `EXIT_FAILURE` for a refusal, and `EXIT_SUCCESS` for all else. -/
theorem main_status {fuel : ℕ} {arguments : Arguments} {garbage : Locals} {t : List Event}
    {status : ℤ} (h : (main leftToRight fuel arguments garbage).Run t (some status)) :
    (status = 1 ∧ NoStepFails t ∧ Refused t) ∨ (status = 0 ∧ ¬ Refused t) := by
  have hempty : Smooth [] := ⟨by simp [NoStepFails, left], by simp [Refused]⟩
  -- the run ends after `FINALIZE`, by `exit(EXIT_FAILURE)`, or not at all
  rcases main_run leftToRight h with ⟨t₁, t₂, r, s, o', rfl, hr, h₁, h₂, ho⟩ | ⟨s, h₁, ho⟩ | ⟨-, ho⟩
  · have hbody : ¬ Refused t₁ := by
      have hq := triple_mainBody_told leftToRight fuel _ [] t₁ _ hempty h₁
      rcases r with (_ | _) | _
      · exact hq.2
      · exact absurd rfl hr
      · exact hq.2
    refine .inr ⟨?_, fun hrefused => ?_⟩
    · obtain ⟨_, -, rfl⟩ := Option.map_eq_some_iff.mp ho.symm
      rfl
    · rcases refused_append.mp hrefused with h' | h'
      · exact hbody h'
      · exact not_refused_of_forall (fun e he => (finalize_silent h₂ e he).2) h'
  · obtain ⟨hok, hrefused⟩ := triple_mainBody_told leftToRight fuel _ [] t _ hempty h₁
    exact .inl ⟨Option.some_injective _ ho, hok, hrefused⟩
  · exact absurd ho (by simp)

/-- **The exit status** tells whether a run failed if and only if no step fails, and an unknown
mode is not reached. -/
theorem main_statusTells_iff (fuel : ℕ) (arguments : Arguments) (garbage : Locals)
    (t : List Event) (status : ℤ)
    (h : (main leftToRight fuel arguments garbage).Run t (some status)) :
    (status ≠ 0 ↔ Failed arguments t) ↔
      NoStepFails t ∧ (KnownMode arguments.mode ∨ Refused t) := by
  rcases main_status leftToRight h with ⟨rfl, hok, hrefused⟩ | ⟨rfl, hrefused⟩
  · have hfailed : Failed arguments t := .inr (.inl hrefused)
    exact iff_of_true (iff_of_true one_ne_zero hfailed) ⟨hok, .inr hrefused⟩
  · -- the status is 0, so it is right for the runs that did not fail
    rw [Failed]
    simp only [ne_eq, not_true_eq_false, false_iff, not_or, not_not, hrefused, not_false_eq_true,
      or_false, true_and]

end

/-- On a machine where every call succeeds, a measurement ends with `EXIT_SUCCESS`. -/
theorem main_statusTells_goodMachine :
    (0 : ℤ) ≠ 0 ↔ Failed (defaultArguments "profile")
      ((main true 1 (defaultArguments "profile") zeroStack).exec goodMachine []).1 :=
  (main_statusTells_iff true 1 _ zeroStack _ 0 (by
    exact Prog.run_exec goodMachine (main true 1 (defaultArguments "profile") zeroStack) [])).mpr
      (by decide)

/-- A machine whose caches cannot be described. -/
def noCache (h : List Event) : (c : Call) → Answer c
  | .cacheInfoNew .. => ⟨[], (errorCacheNotExists, fourMiBCache)⟩
  | c => goodMachine h c

/-- Without a cache of the given level, `main` reports the failed step and ends with
`EXIT_SUCCESS`. -/
theorem main_succeeds_noCache :
    ¬ ∀ (leftToRight : Bool) (fuel : ℕ) (arguments : Arguments) (garbage : Locals)
      (t : List Event) (status : ℤ),
      (main leftToRight fuel arguments garbage).Run t (some status) →
        (status ≠ 0 ↔ Failed arguments t) := by
  intro h
  have hrun := h true 1 (defaultArguments "info") zeroStack _ 0
    (Prog.run_exec noCache (main true 1 (defaultArguments "info") zeroStack) [])
  exact absurd hrun (by decide)

end CacheNoise
