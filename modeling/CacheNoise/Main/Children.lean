import CacheNoise.Main.Processes
import CacheNoise.Main.Status

/-!
# The children that `main` leaves behind

The only `kill` of `main` stands before `FINALIZE`, so it is reached if and only if no step fails.
A run without a failed step kills its child; a run with one kills nothing, and its children are
gone only if they have ended on their own (`main_noneLeft_iff`).
-/

namespace CacheNoise

open Interaction

/-- **No child is left**: one that still runs has been killed. -/
def NoneLeft (t : List Event) : Prop :=
  ∀ child ∈ processes t, child.2 = .running → child.1 ∈ (kills t).map Prod.fst

/-- Every child has ended. -/
def AllEnded (t : List Event) : Prop := ∀ child ∈ processes t, child.2 ≠ .running

instance (t : List Event) : Decidable (NoneLeft t) :=
  inferInstanceAs (Decidable (∀ child ∈ processes t,
    child.2 = .running → child.1 ∈ (kills t).map Prod.fst))

instance (t : List Event) : Decidable (AllEnded t) :=
  inferInstanceAs (Decidable (∀ child ∈ processes t, child.2 ≠ .running))

/-! ### Early exits -/

/-- An early exit kills nothing, and without a failed step nothing has been spawned either. -/
def Abandoned : Option (Exit × Locals) → List Event → Prop
  | some _, h => kills h = [] ∧ (NoStepFails h → spawned h = [])
  | none, _ => True

section

variable {arguments : Arguments}

/-- The parts of `main` before the start of the external program. -/
theorem triple_before (arguments : Arguments) {α κ : Type} {K : List Kind} {f : Locals → κ}
    {m : Main α} (ht : Telling m) (hm : Cmd.Frame (fun e => e.1.kind ∈ K) f m) (g : κ → Int32)
    (hg : ∀ s, g (f s) = s.arguments.pid) (hK : Kind.process ∉ K ∧ Kind.kill ∉ K) :
    Cmd.Triple (fun s h => NoChild arguments s.arguments.pid h ∧ Smooth h) m
      (fun _ s h => NoChild arguments s.arguments.pid h ∧ Smooth h) Abandoned := by
  refine ((triple_noChild arguments hm g hg hK).and ht).mono_exit fun x h hX => ?_
  cases x with
  | none => trivial
  | some _ => exact ⟨hX.1.2, fun _ => hX.1.1⟩

/-- The parts from the start of the external program on: they leave early only by a failed
step. -/
theorem triple_since {α : Type} {m : Main α} {P : Locals → List Event → Prop}
    {Q : α → Locals → List Event → Prop} (ht : Telling m) (hn : NeverFails m)
    (hm : Cmd.Triple P m Q fun _ h => kills h = []) :
    Cmd.Triple (fun s h => P s h ∧ Smooth h) m (fun a s h => Q a s h ∧ Smooth h) Abandoned := by
  refine ((hm.and ht).and hn).mono (fun _ _ hP => ⟨hP, trivial⟩) (fun _ _ _ hQ => hQ.1)
    fun x h hX => ?_
  obtain ⟨⟨hkills, htold⟩, hnever⟩ := hX
  -- an early exit without a failed step would be a refusal, and there is none here
  rcases x with _ | ⟨_ | _, s⟩
  · trivial
  · exact ⟨hkills, fun hok => (htold.1 hok).elim⟩
  · exact absurd rfl (hnever s)

/-! ### The child and its program -/

/-- A child has been started only where a program was given. -/
def ByProgram (program : Option String) (h : List Event) : Prop :=
  spawned h ≠ [] → program.isSome = true

variable (leftToRight : Bool)

theorem triple_startExternal_byProgram :
    Cmd.Triple (fun _ h => spawned h = []) (startExternal leftToRight)
      (fun _ s h => ByProgram s.arguments.program h) fun _ _ => True := by
  refine Cmd.Triple.bind (M := fun s s' h => s' = s ∧ spawned h = [])
    (Cmd.triple_get fun s h hI => ⟨rfl, hI⟩) fun s => ?_
  -- a given PID, a given program, or neither
  refine Cmd.Triple.ite (fun _ => ?_) fun _ => Cmd.Triple.ite (fun hprogram => ?_) fun _ => ?_
  · refine ((frame_focusGiven leftToRight).triple_of (I := fun _ h => spawned h = [])
      (N := fun _ => True) (fun _ h e he hI => ?_) fun _ _ _ => trivial).mono (fun _ _ hI => hI.2)
        (fun _ _ _ hI hne => absurd hI hne) fun _ _ _ => trivial
    rwa [spawned_append_of_kind (ne_of_mem_of_not_mem he (by simp))]
  · -- the step changes no variable but the PID
    refine triple_exitOnFail_ok fun s₁ h u s' a b hI hbody _ => ?_
    obtain ⟨u₁, u₂, ⟨res, pid⟩, -, -, -, heq⟩ | ⟨h, -⟩ := Prog.run_bind.mp hbody
    · obtain ⟨-, rfl⟩ := Prod.mk.inj (Option.some_injective _ heq)
      rwa [← hI.1] at hprogram
    · exact absurd h (by simp)
  · exact Cmd.triple_pure fun s' h hI hne => absurd hI.2 hne

/-- The only child, and the program that it runs. -/
def Started (arguments : Arguments) (s : Locals) (h : List Event) : Prop :=
  OneChild arguments s.arguments.pid h ∧ ByProgram s.arguments.program h

theorem Started.mem_spawned {s : Locals} {h : List Event} (hs : Started arguments s h) {pid : ℤ}
    (hpid : pid ∈ spawned h) :
    pid = s.arguments.pid.toInt ∧ s.arguments.program.isSome = true := by
  obtain ⟨⟨⟨-, hnone⟩ | ⟨-, hone⟩, -⟩, hprogram⟩ := hs
  · exact absurd hpid (by simp [hnone])
  · rw [hone, List.mem_singleton] at hpid
    exact ⟨hpid, hprogram (by simp [hone])⟩

theorem triple_startExternal_started :
    Cmd.Triple (fun s h => NoChild arguments s.arguments.pid h ∧ Smooth h)
      (startExternal leftToRight) (fun _ s h => Started arguments s h ∧ Smooth h) Abandoned := by
  refine triple_since (telling_startExternal leftToRight) (neverFails_startExternal leftToRight) ?_
  exact ((triple_startExternal leftToRight).and (triple_startExternal_byProgram leftToRight)).mono
    (fun _ _ hI => ⟨hI, hI.2.1⟩) (fun _ _ _ hQ => hQ) fun _ _ hX => hX.1

/-- The parts of `main` between the start of the program and the kill. -/
theorem triple_started (arguments : Arguments) {κ : Type} {K : List Kind} {f : Locals → κ}
    {m : Main Unit} (ht : Telling m) (hn : NeverFails m)
    (hm : Cmd.Frame (fun e => e.1.kind ∈ K) f m) (g : κ → Int32 × Option String)
    (hg : ∀ s, g (f s) = (s.arguments.pid, s.arguments.program))
    (hK : Kind.process ∉ K ∧ Kind.kill ∉ K) :
    Cmd.Triple (fun s h => Started arguments s h ∧ Smooth h) m
      (fun _ s h => Started arguments s h ∧ Smooth h) Abandoned := by
  refine triple_since ht hn ?_
  have hpid := triple_oneChild arguments hm (fun x => (g x).1) (fun s => by rw [hg]) hK
  have hprogram := (hm.mono (fun _ h => h) fun x => (g x).2).triple_of (I := ByProgram)
    (N := fun _ => True) (fun b h e he hI => ?_) fun _ _ _ => trivial
  · simp only [hg] at hprogram
    exact (hpid.and hprogram).mono_exit fun _ _ hX => hX.1
  · rwa [ByProgram, spawned_append_of_kind (ne_of_mem_of_not_mem he hK.1)]

/-! ### The kill -/

/-- Every child has been killed. -/
def AllKilled (h : List Event) : Prop :=
  ∀ pid ∈ spawned h, pid ≠ 0 → pid ∈ (kills h).map Prod.fst

theorem triple_killExternal_allKilled :
    Cmd.Triple (fun s h => Started arguments s h ∧ Smooth h) killExternal
      (fun _ _ h => AllKilled h ∧ Smooth h) Abandoned := by
  have hkilled : Cmd.Triple (fun s h => Started arguments s h) killExternal
      (fun _ _ h => AllKilled h) fun x _ => x = none := by
    refine Cmd.Triple.bind (M := fun s s' h => s' = s ∧ Started arguments s h)
      (Cmd.triple_get fun s h hI => ⟨rfl, hI⟩) fun s => ?_
    refine Cmd.Triple.ite (fun hkill => ?_) fun hkill => Cmd.triple_pure fun _ h hI => ?_
    · refine (Cmd.triple_lift fun s' => ?_).bind fun _ => Cmd.triple_pure fun _ _ hQ => hQ
      intro h t o hI hrun
      obtain ⟨a, rfl, rfl⟩ := run_sys.mp hrun
      intro pid hpid _
      rw [spawned_append_of_kind (by simp)] at hpid
      obtain rfl := (hI.2.mem_spawned hpid).1
      rw [kills_append, List.map_append]
      exact List.mem_append_right _ (List.mem_singleton_self _)
    · -- nothing is killed only where no program was given or the PID is 0
      intro pid hpid hne
      obtain ⟨rfl, hprogram⟩ := hI.2.mem_spawned hpid
      refine absurd ⟨fun h0 => hne ?_, hprogram⟩ hkill
      rw [h0]
      rfl
  refine (hkilled.and telling_killExternal).mono_exit fun x h hX => ?_
  rw [hX.1]
  trivial

/-! ### Whole runs -/

/-- The mode `profile`, up to the kill. -/
theorem triple_profileMode_started (fuel : ℕ) :
    Cmd.Triple (fun s h => NoChild arguments s.arguments.pid h ∧ Smooth h)
      (profileMode leftToRight fuel) (fun _ s h => Started arguments s h ∧ Smooth h)
      Abandoned := by
  have hopen := triple_before arguments (telling_openOutput leftToRight)
    (frame_openOutput leftToRight) (fun x => x.2.1.pid) (fun _ => rfl) (by simp)
  have halloc := triple_before arguments (telling_alloc leftToRight)
    (frame_alloc leftToRight) (fun x => x.2.1.pid) (fun _ => rfl) (by simp)
  have halarm := triple_started arguments telling_setAlarm neverFails_setAlarm
    frame_setAlarm (fun s => (s.arguments.pid, s.arguments.program)) (fun _ => rfl) (by simp)
  have hprofile := triple_started arguments (telling_profile leftToRight fuel)
    (neverFails_exitOnFail leftToRight _ _) (frame_profile leftToRight fuel)
    (fun x => (x.2.1.pid, x.2.1.program)) (fun _ => rfl) (by simp)
  exact hopen.bind fun _ => halloc.bind fun _ => (triple_startExternal_started leftToRight).bind
    fun _ => halarm.bind fun _ => hprofile

theorem triple_runMode_started (fuel : ℕ) :
    Cmd.Triple (fun s h => NoChild arguments s.arguments.pid h ∧ Smooth h)
      (runMode leftToRight fuel) (fun _ s h => Started arguments s h ∧ Smooth h) Abandoned := by
  have hbench := triple_before arguments (telling_benchMode leftToRight)
    (frame_benchMode leftToRight) (fun x => x.2.2.pid) (fun _ => rfl) (by simp)
  refine Cmd.Triple.bind (M := fun _ s h => NoChild arguments s.arguments.pid h ∧ Smooth h)
    (Cmd.triple_get fun _ _ hI => hI) fun s => Cmd.Triple.ite (fun _ => ?_) fun _ =>
      Cmd.Triple.ite (fun _ => triple_profileMode_started leftToRight fuel) fun _ => ?_
  · -- `bench` starts no program, so nothing is spawned at the kill
    refine hbench.mono (fun _ _ hI => hI) (fun _ s h hI => ?_) fun _ _ hX => hX
    obtain ⟨⟨hpid, hspawned, hkills⟩, hsmooth⟩ := hI
    exact ⟨⟨⟨.inl ⟨hpid, hspawned⟩, hkills⟩, fun hne => absurd hspawned hne⟩, hsmooth⟩
  · exact Cmd.triple_throw fun _ h hI => ⟨hI.1.2.2, fun _ => hI.1.2.1⟩

theorem triple_mainBody_allKilled (fuel : ℕ) :
    Cmd.Triple (fun s h => NoChild arguments s.arguments.pid h ∧ Smooth h)
      (mainBody leftToRight fuel) (fun _ _ h => AllKilled h ∧ Smooth h) Abandoned := by
  have hsetUp := triple_before arguments (telling_setUp leftToRight)
    (frame_setUp leftToRight) (fun x => x.2.2.pid) (fun _ => rfl) (by simp)
  have hrights := triple_before arguments (telling_checkRights leftToRight)
    (frame_checkRights leftToRight) (fun s => s.arguments.pid) (fun _ => rfl) (by simp)
  refine hsetUp.bind fun _ => ?_
  refine Cmd.Triple.bind (M := fun _ s h => NoChild arguments s.arguments.pid h ∧ Smooth h)
    (Cmd.triple_get fun _ _ hI => hI) fun s => Cmd.Triple.ite (fun _ => ?_) fun _ => ?_
  · exact Cmd.triple_pure fun _ h hI => ⟨by simp [AllKilled, hI.1.2.1], hI.2⟩
  · exact hrights.bind fun _ => (triple_runMode_started leftToRight fuel).bind fun _ =>
      triple_killExternal_allKilled

/-- What a run of `main` that returns has killed: every child if no step failed, and otherwise
nothing. -/
theorem main_kills {fuel : ℕ} {arguments : Arguments} {garbage : Locals} {t : List Event}
    {status : ℤ} (h : (main leftToRight fuel arguments garbage).Run t (some status)) :
    (NoStepFails t → AllKilled t) ∧ (¬ NoStepFails t → kills t = []) := by
  have hbody : ∀ {t₁ r s}, (mainBody leftToRight fuel
      { garbage with arguments, buffer := .null }).Run t₁ (some (r, s)) →
        (NoStepFails t₁ → AllKilled t₁) ∧ (¬ NoStepFails t₁ → kills t₁ = []) := by
    intro t₁ r s h₁
    have hpre : NoChild arguments arguments.pid [] ∧ Smooth [] :=
      ⟨⟨rfl, rfl, rfl⟩, by simp [NoStepFails, left], by simp [Refused]⟩
    have hpost := triple_mainBody_allKilled leftToRight fuel _ [] t₁ _ hpre h₁
    rcases r with e | _
    · obtain ⟨hkills, hspawned⟩ : kills t₁ = [] ∧ (NoStepFails t₁ → spawned t₁ = []) := hpost
      exact ⟨fun hok => by simp [AllKilled, hspawned hok], fun _ => hkills⟩
    · exact ⟨fun _ => hpost.1, fun hfail => absurd hpost.2.1 hfail⟩
  rcases main_run leftToRight h with ⟨t₁, t₂, r, s, o', rfl, -, h₁, h₂, -⟩ | ⟨s, h₁, -⟩ | ⟨-, ho⟩
  · -- `FINALIZE` neither spawns nor kills, and shows no steps
    have hkinds : ∀ e ∈ t₂, e.1.kind ∈ [Kind.closing, .memory] := only_finalize s t₂ o' h₂
    have hok : NoStepFails (t₁ ++ t₂) ↔ NoStepFails t₁ := by
      rw [noStepFails_append, and_iff_left]
      rw [NoStepFails, (quiet_of_kinds fun e he => (finalize_silent h₂ e he).1).2.1]
      simp
    have hkills : kills (t₁ ++ t₂) = kills t₁ := by
      rw [kills_append, killsFrom_of_kinds fun e he => ne_of_mem_of_not_mem (hkinds e he) (by simp),
        List.append_nil]
    have hspawned : spawned (t₁ ++ t₂) = spawned t₁ := by
      rw [spawned_append, spawned_of_kinds fun e he => ne_of_mem_of_not_mem (hkinds e he) (by simp),
        List.append_nil]
    rw [hok, AllKilled, hkills, hspawned]
    exact hbody h₁
  · exact hbody h₁
  · exact absurd ho (by simp)

/-- **Whether a child is left**: none is, if and only if no step fails or every child has ended
on its own. `posix_spawnp` gives a PID, which is not 0. -/
theorem main_noneLeft_iff (fuel : ℕ) (arguments : Arguments) (garbage : Locals)
    (t : List Event) (status : ℤ)
    (h : (main leftToRight fuel arguments garbage).Run t (some status))
    (hpid : ∀ pid ∈ spawned t, pid ≠ 0) : NoneLeft t ↔ NoStepFails t ∨ AllEnded t := by
  obtain ⟨hkilled, hnone⟩ := main_kills leftToRight h
  constructor
  · intro hleft
    by_contra hcon
    obtain ⟨hfail, hrunning⟩ := not_or.mp hcon
    refine hrunning fun child hchild hstate => ?_
    exact absurd (hleft child hchild hstate) (by simp [hnone hfail])
  · rintro (hok | hended) child hchild hstate
    · have hmem : child.1 ∈ spawned t := processes_pids t ▸ List.mem_map_of_mem hchild
      exact hkilled hok _ hmem (hpid _ hmem)
    · exact absurd hstate (hended child hchild)

end

/-- The program of a run in which every call succeeds is killed. -/
theorem main_noneLeft_iff_goodMachine :
    NoneLeft ((main true 1 { defaultArguments "profile" with program := some "/bin/true" }
      zeroStack).exec goodMachine []).1 :=
  (main_noneLeft_iff true 1 _ zeroStack _ 0 (Prog.run_exec goodMachine (main true 1
    { defaultArguments "profile" with program := some "/bin/true" } zeroStack) [])
      (by decide)).mpr (by decide)

/-- A machine without a cycle counter. -/
def noCounter (h : List Event) : (c : Call) → Answer c
  | .perfEventOpen _ => ⟨[], 0xffffffff⟩
  | c => goodMachine h c

/-- Without a cycle counter, the program that was started is left running. -/
theorem main_leaves_child :
    ¬ ∀ (leftToRight : Bool) (fuel : ℕ) (arguments : Arguments) (garbage : Locals)
      (t : List Event) (status : ℤ),
      (main leftToRight fuel arguments garbage).Run t (some status) → NoneLeft t := by
  intro h
  have hrun := h true 1 { defaultArguments "profile" with program := some "/bin/true" } zeroStack
    _ 0 (Prog.run_exec noCounter (main true 1
      { defaultArguments "profile" with program := some "/bin/true" } zeroStack) [])
  exact absurd hrun (by decide)

end CacheNoise
