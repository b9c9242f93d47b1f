import CacheNoise.Main.Steps

/-!
# Whom `main` kills

At its end, `main` sends `SIGKILL` to `arguments.pid` when that is not 0 and a program was given.
The field holds the PID given with `--pid`, or that of the child. So the process killed is a
child that has not been reaped if and only if `--pid` is not given and no child has been
reaped before the kill (`main_killsOwn_iff`): with both options the user's process is killed,
and a child that ended early is reaped by the handler of `SIGCHLD`, which nobody tells `main`.
-/

namespace CacheNoise

open Interaction

/-- Every process killed is a child of this run that has not been reaped. -/
def KillsOwn (t : List Event) : Prop :=
  ∀ k ∈ kills t, ∃ child ∈ k.2, child.1 = k.1 ∧ child.2 ≠ .reaped

/-- At every kill, `--pid` was not given and no child had been reaped. -/
def KillSafe (arguments : Arguments) (t : List Event) : Prop :=
  ∀ k ∈ kills t, arguments.pid = 0 ∧ ∀ child ∈ k.2, child.2 ≠ .reaped

instance (t : List Event) : Decidable (KillsOwn t) :=
  inferInstanceAs (Decidable (∀ k ∈ kills t, ∃ child ∈ k.2, child.1 = k.1 ∧ child.2 ≠ .reaped))

instance (arguments : Arguments) (t : List Event) : Decidable (KillSafe arguments t) :=
  inferInstanceAs (Decidable (∀ k ∈ kills t,
    arguments.pid = 0 ∧ ∀ child ∈ k.2, child.2 ≠ .reaped))

/-! ### The child and `arguments.pid` -/

/-- A successful `run_program` has spawned one process, whose PID it hands out. -/
theorem runProgram_spawned {path arguments : Option String} {pid₀ pid : Int32} {u : List Event}
    (h : (runProgram path arguments pid₀).Run u (some (errorNone, pid))) :
    spawned u = [pid.toInt] := by
  have hspawn : ∀ path argv u, (spawn path argv).Run u (some (errorNone, pid)) →
      spawned u = [pid.toInt] := by
    intro path argv u h
    obtain ⟨a, t', rfl, rfl, hval⟩ := run_sys_bind.mp h
    obtain ⟨hres, rfl⟩ := Prod.mk.inj (Option.some_injective _ hval)
    have hret : a.value.1 = 0 := by
      by_contra hne
      rw [if_pos hne] at hres
      exact absurd hres (by decide)
    exact spawned_of_eq_zero hret
  have hpure : ∀ {res : ErrorT} {u : List Event}, res ≠ errorNone →
      ¬ (pure (res, pid₀) : Proc (ErrorT × Int32)).Run u (some (errorNone, pid)) := by
    rintro res u hres ⟨-, hval⟩
    exact hres (Prod.mk.inj (Option.some_injective _ hval)).1.symm
  cases path with
  | none => exact absurd h (hpure (by decide))
  | some path =>
    obtain ⟨attr, u₁, rfl, h₁⟩ := run_sys_bind.mp h
    split at h₁
    · exact absurd h₁ (hpure (by decide))
    obtain ⟨actions, u₂, rfl, h₂⟩ := run_sys_bind.mp h₁
    split at h₂
    · exact absurd h₂ (hpure (by decide))
    cases arguments with
    | none => exact hspawn _ _ u₂ h₂
    | some arguments =>
      obtain ⟨p, u₃, rfl, h₃⟩ := run_sys_bind.mp h₂
      obtain ⟨argv, u₄, rfl, h₄⟩ := run_sys_bind.mp h₃
      split at h₄
      · exact absurd h₄ (hpure (by decide))
      exact hspawn _ _ u₄ h₄

/-- The events that neither spawn nor kill. -/
theorem spawned_of_kinds {t : List Event} (h : ∀ e ∈ t, e.1.kind ≠ .process) : spawned t = [] :=
  List.filterMap_eq_nil_iff.mpr fun ⟨c, a⟩ he => by
    have hkind := h _ he
    cases c <;> first | rfl | exact absurd rfl hkind

/-- Before an external program can be started: nothing is spawned. -/
def NoChild (arguments : Arguments) (pid : Int32) (h : List Event) : Prop :=
  pid = arguments.pid ∧ spawned h = [] ∧ kills h = []

/-- Afterwards: either nothing is spawned, or `--pid` was not given and `arguments.pid` is the
PID of the only child. -/
def OneChild (arguments : Arguments) (pid : Int32) (h : List Event) : Prop :=
  ((pid = arguments.pid ∧ spawned h = []) ∨ (arguments.pid = 0 ∧ spawned h = [pid.toInt])) ∧
    kills h = []

section

variable {arguments : Arguments}

/-- Nothing is killed by events of other kinds. -/
theorem kills_append_of_kind {h : List Event} {e : Event} (hk : kills h = [])
    (he : e.1.kind ≠ .kill) : kills (h ++ [e]) = [] := by
  rw [kills_append, hk, killsFrom_of_kinds (t := [e]) (by simpa using he), List.append_nil]

theorem spawned_append_of_kind {h : List Event} {e : Event} (he : e.1.kind ≠ .process) :
    spawned (h ++ [e]) = spawned h := by
  rw [spawned_append, spawned_of_kinds (t := [e]) (by simpa using he), List.append_nil]

/-- The parts of `main` that have nothing to do with processes. -/
theorem triple_noChild (arguments : Arguments) {α κ : Type} {K : List Kind} {f : Locals → κ}
    {m : Main α} (hm : Cmd.Frame (fun e => e.1.kind ∈ K) f m) (g : κ → Int32)
    (hg : ∀ s, g (f s) = s.arguments.pid) (hK : Kind.process ∉ K ∧ Kind.kill ∉ K) :
    Cmd.Triple (fun s h => NoChild arguments s.arguments.pid h) m
      (fun _ s h => NoChild arguments s.arguments.pid h)
      fun _ h => spawned h = [] ∧ kills h = [] := by
  have htriple := (hm.mono (fun _ h => h) g).triple_of (I := NoChild arguments)
    (N := fun h => spawned h = [] ∧ kills h = []) (fun pid h e he hI => ?_) fun _ _ hI => hI.2
  · simpa only [hg] using htriple
  · refine ⟨hI.1, ?_, kills_append_of_kind hI.2.2 fun hk => hK.2 (hk ▸ he)⟩
    rw [spawned_append_of_kind fun hk => hK.1 (hk ▸ he)]
    exact hI.2.1

theorem triple_oneChild (arguments : Arguments) {α κ : Type} {K : List Kind} {f : Locals → κ}
    {m : Main α} (hm : Cmd.Frame (fun e => e.1.kind ∈ K) f m) (g : κ → Int32)
    (hg : ∀ s, g (f s) = s.arguments.pid) (hK : Kind.process ∉ K ∧ Kind.kill ∉ K) :
    Cmd.Triple (fun s h => OneChild arguments s.arguments.pid h) m
      (fun _ s h => OneChild arguments s.arguments.pid h) fun _ h => kills h = [] := by
  have htriple := (hm.mono (fun _ h => h) g).triple_of (I := OneChild arguments)
    (N := fun h => kills h = []) (fun pid h e he hI => ?_) fun _ _ hI => hI.2
  · simpa only [hg] using htriple
  · refine ⟨?_, kills_append_of_kind hI.2 fun hk => hK.2 (hk ▸ he)⟩
    rw [spawned_append_of_kind fun hk => hK.1 (hk ▸ he)]
    exact hI.1

variable (leftToRight : Bool)

/-- The start of the external program. -/
theorem triple_startExternal :
    Cmd.Triple (fun s h => NoChild arguments s.arguments.pid h) (startExternal leftToRight)
      (fun _ s h => OneChild arguments s.arguments.pid h) fun _ h => kills h = [] := by
  -- what is killed follows from the kinds of calls, and the child from the successful step
  have hkills := (frame_startExternal leftToRight).triple_of (I := fun _ h => kills h = [])
    (N := fun h => kills h = []) (fun _ h e he hI => kills_append_of_kind hI fun hk => by
      rw [hk] at he
      simp at he) fun _ _ hI => hI
  have hchild : Cmd.Triple (fun s h => NoChild arguments s.arguments.pid h)
      (startExternal leftToRight)
      (fun _ s h => (s.arguments.pid = arguments.pid ∧ spawned h = []) ∨
        (arguments.pid = 0 ∧ spawned h = [s.arguments.pid.toInt])) fun _ _ => True := by
    refine Cmd.Triple.bind (M := fun s s' h => s' = s ∧ NoChild arguments s.arguments.pid h)
      (Cmd.triple_get fun s h hI => ⟨rfl, hI⟩) fun s => ?_
    refine Cmd.Triple.ite (fun hpid => ?_) fun hpid => Cmd.Triple.ite (fun hprogram => ?_)
      fun hprogram => ?_
    · exact (triple_noChild arguments (frame_focusGiven leftToRight)
        (fun s => s.arguments.pid) (fun _ => rfl) (by simp)).mono
          (fun s' h hI => hI.1 ▸ hI.2) (fun _ s' h hI => .inl ⟨hI.1, hI.2.1⟩) fun _ _ _ => trivial
    · refine triple_exitOnFail_ok fun s₁ h u s' a b hI hbody => .inr ⟨?_, ?_⟩
      · rw [not_not] at hpid
        rw [← hI.2.1, hpid]
      · obtain ⟨u₁, u₂, ⟨res, pid⟩, rfl, h₁, h₂⟩ | ⟨h, -⟩ := Prog.run_bind.mp hbody
        · obtain ⟨rfl, heq⟩ := h₂
          obtain ⟨rfl, rfl⟩ := Prod.mk.inj (Option.some_injective _ heq)
          rw [spawned_append, hI.2.2.1, List.nil_append, List.append_nil]
          change spawned (u₁ ++ [_]) = _
          rw [spawned_append, runProgram_spawned h₁]
          rfl
        · exact absurd h (by simp)
    · exact Cmd.triple_pure fun s' h hI => .inl ⟨hI.1 ▸ hI.2.1, hI.2.2.1⟩
  exact (hkills.and hchild).mono (fun s h hI => ⟨hI.2.2, hI⟩) (fun _ s h hQ => ⟨hQ.2, hQ.1⟩)
    fun _ h hX => hX.1

/-! ### The kill -/

/-- A run without kills is as it should be, and safe. -/
theorem killsOwn_iff_of_nil {t : List Event} (h : kills t = []) :
    KillsOwn t ↔ KillSafe arguments t := by
  simp [KillsOwn, KillSafe, h]

/-- The kill at the end of `main`. -/
theorem killsOwn_iff_kill {pid : Int32} {h : List Event} (hI : OneChild arguments pid h)
    (hpid : pid ≠ 0) (a : Answer (.kill pid.toInt)) :
    KillsOwn (h ++ [⟨.kill pid.toInt, a⟩]) ↔
      KillSafe arguments (h ++ [⟨.kill pid.toInt, a⟩]) := by
  obtain ⟨hchild, hkills⟩ := hI
  set children := a.signals.foldl Signal.act (processes h) with hchildren
  have hpids : children.map Prod.fst = spawned h := by
    rw [hchildren, signals_pids, processes_pids]
  have hone : kills (h ++ [⟨.kill pid.toInt, a⟩]) = [(pid.toInt, children)] := by
    rw [kills_append, hkills]
    rfl
  rw [KillsOwn, KillSafe, hone, List.forall_mem_singleton, List.forall_mem_singleton]
  rcases hchild with ⟨hgiven, hnone⟩ | ⟨hgiven, hsome⟩
  · -- the PID was given, and no child exists
    have hempty : children = [] := by
      rw [hnone] at hpids
      exact List.map_eq_nil_iff.mp hpids
    constructor
    · rintro ⟨child, hmem, -⟩
      rw [hempty] at hmem
      exact absurd hmem List.not_mem_nil
    · rintro ⟨hzero, -⟩
      exact absurd (hgiven.trans hzero) hpid
  · obtain ⟨state, hstate⟩ : ∃ state, children = [(pid.toInt, state)] := by
      rw [hsome] at hpids
      obtain ⟨⟨p, state⟩, rest, hcons, hp, hrest⟩ := List.map_eq_cons_iff.mp hpids
      obtain rfl : p = pid.toInt := hp
      exact ⟨state, hcons.trans (congrArg _ (List.map_eq_nil_iff.mp hrest))⟩
    simp [hstate, hgiven]

theorem triple_killExternal :
    Cmd.Triple (fun s h => OneChild arguments s.arguments.pid h) killExternal
      (fun _ _ h => KillsOwn h ↔ KillSafe arguments h)
      fun _ h => KillsOwn h ↔ KillSafe arguments h := by
  refine Cmd.Triple.bind (M := fun s _ h => OneChild arguments s.arguments.pid h)
    (Cmd.triple_get fun s h hI => hI) fun s => ?_
  refine Cmd.Triple.ite (fun hkill => ?_) fun _ => Cmd.triple_pure fun _ h hI =>
    killsOwn_iff_of_nil hI.2
  intro s' h t o hI hrun
  rcases Cmd.run_bind.mp hrun with ⟨t₁, t₂, r, s₁, rfl, h₁, rfl, rfl⟩ | ⟨e, s₁, rfl, h₁⟩ | ⟨rfl, h₁⟩
  all_goals
    obtain ⟨o', hc, ho'⟩ := Cmd.run_lift.mp h₁
    obtain ⟨a, rfl, rfl⟩ := run_sys.mp hc
  · rw [List.append_nil]
    exact killsOwn_iff_kill hI hkill.1 a
  · exact absurd ho' (by simp)
  · exact absurd ho' (by simp)

/-! ### Whole runs -/

theorem triple_runMode (fuel : ℕ) :
    Cmd.Triple (fun s h => NoChild arguments s.arguments.pid h) (runMode leftToRight fuel)
      (fun _ s h => OneChild arguments s.arguments.pid h) fun _ h => kills h = [] := by
  refine Cmd.Triple.bind (M := fun _ s h => NoChild arguments s.arguments.pid h)
    (Cmd.triple_get fun s h hI => hI) fun s => ?_
  refine Cmd.Triple.ite (fun _ => ?_) fun _ => Cmd.Triple.ite (fun _ => ?_) fun _ =>
    Cmd.triple_throw fun s h hI => hI.2.2
  · exact (triple_noChild arguments (frame_benchMode leftToRight) (fun x => x.2.2.pid)
      (fun _ => rfl) (by simp)).mono (fun _ _ hI => hI)
        (fun _ _ _ hI => ⟨.inl ⟨hI.1, hI.2.1⟩, hI.2.2⟩) fun _ _ hX => hX.2
  · have hopen := triple_noChild arguments (frame_openOutput leftToRight)
      (fun x => x.2.1.pid) (fun _ => rfl) (by simp)
    have halloc := triple_noChild arguments (frame_alloc leftToRight)
      (fun x => x.2.1.pid) (fun _ => rfl) (by simp)
    have halarm := triple_oneChild arguments frame_setAlarm
      (fun s => s.arguments.pid) (fun _ => rfl) (by simp)
    have hprofile := triple_oneChild arguments (frame_profile leftToRight fuel)
      (fun x => x.2.1.pid) (fun _ => rfl) (by simp)
    refine (hopen.mono_exit fun _ _ hX => hX.2).bind fun _ => ?_
    refine (halloc.mono_exit fun _ _ hX => hX.2).bind fun _ => ?_
    exact (triple_startExternal leftToRight).bind fun _ => halarm.bind fun _ => hprofile

theorem triple_mainBody (fuel : ℕ) :
    Cmd.Triple (fun s h => NoChild arguments s.arguments.pid h) (mainBody leftToRight fuel)
      (fun _ _ h => KillsOwn h ↔ KillSafe arguments h)
      fun _ h => KillsOwn h ↔ KillSafe arguments h := by
  have hsafe : ∀ h : List Event, kills h = [] → (KillsOwn h ↔ KillSafe arguments h) :=
    fun _ => killsOwn_iff_of_nil
  have hsetUp := triple_noChild arguments (frame_setUp leftToRight)
    (fun x => x.2.2.pid) (fun _ => rfl) (by simp)
  have hrights := triple_noChild arguments (frame_checkRights leftToRight)
    (fun s => s.arguments.pid) (fun _ => rfl) (by simp)
  refine (hsetUp.mono_exit fun _ h hX => hsafe h hX.2).bind fun _ => ?_
  refine Cmd.Triple.bind (M := fun _ s h => NoChild arguments s.arguments.pid h)
    (Cmd.triple_get fun s h hI => hI) fun s => ?_
  refine Cmd.Triple.ite (fun _ => Cmd.triple_pure fun s h hI => hsafe h hI.2.2) fun _ => ?_
  refine (hrights.mono_exit fun _ h hX => hsafe h hX.2).bind fun _ => ?_
  exact ((triple_runMode leftToRight fuel).mono_exit fun _ h => hsafe h).bind fun _ =>
    triple_killExternal

/-- **Whom `main` kills**: children that have not been reaped, and nobody else, if and only if
at every kill `--pid` was not given and no child had been reaped. -/
theorem main_killsOwn_iff (fuel : ℕ) (arguments : Arguments) (garbage : Locals)
    (t : List Event) (o : Option ℤ) (h : (main leftToRight fuel arguments garbage).Run t o) :
    KillsOwn t ↔ KillSafe arguments t := by
  have hbody : ∀ t₁ o', (mainBody leftToRight fuel
      { garbage with arguments, buffer := .null }).Run t₁ o' →
        (KillsOwn t₁ ↔ KillSafe arguments t₁) := by
    intro t₁ o' h₁
    have := triple_mainBody leftToRight fuel _ [] t₁ o' ⟨rfl, rfl, rfl⟩ h₁
    rcases o' with _ | ⟨_ | _, _⟩ <;> simpa using this
  rcases main_run leftToRight h with ⟨t₁, t₂, r, s, o', rfl, -, h₁, h₂, -⟩ | ⟨s, h₁, -⟩ | ⟨h₁, -⟩
  · have hfinal : kills (t₁ ++ t₂) = kills t₁ := by
      rw [kills_append, killsFrom_of_kinds, List.append_nil]
      intro e he hk
      have hmem : e.1.kind ∈ [Kind.closing, Kind.memory] := only_finalize s t₂ o' h₂ e he
      rw [hk] at hmem
      simp at hmem
    rw [KillsOwn, KillSafe, hfinal]
    exact hbody t₁ _ h₁
  · exact hbody t _ h₁
  · exact hbody t _ h₁

end

/-- The program of a run on a machine without signals is alive when it is killed. -/
theorem main_killsOwn_iff_goodMachine :
    KillsOwn ((main true 1 { defaultArguments "profile" with program := some "/bin/true" }
      zeroStack).exec goodMachine []).1 :=
  (main_killsOwn_iff true 1 _ _ _ _ (Prog.run_exec goodMachine _ [])).mpr (by decide)

/-- With both options, the process given with `--pid` is killed. -/
theorem main_kills_given :
    ¬ ∀ (leftToRight : Bool) (fuel : ℕ) (arguments : Arguments) (garbage : Locals)
      (t : List Event) (o : Option ℤ),
      (main leftToRight fuel arguments garbage).Run t o → KillsOwn t := by
  intro h
  have hrun := h true 1
    { defaultArguments "profile" with pid := 4242, program := some "/bin/true" } zeroStack
    _ _ (Prog.run_exec goodMachine _ [])
  exact absurd hrun (by decide)

end CacheNoise
