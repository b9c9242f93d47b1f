import CacheNoise.Main.Steps

/-!
# The core of a measurement

The number of a core goes through `main` as an `int`, to the kernel as a `uint32_t`, and to
`cache_info_new` as a `uint8_t`. So the caches described are those of the core's number modulo
256, and in the mode `bench` the cycle counter is opened on core 0 (`Located`).

A run is about one core if and only if this core is below 256 where caches are described, and
is core 0 where `bench` opens the counter (`main_sameCore_iff`).
-/

namespace CacheNoise

open Interaction

/-! ### What a run shows of cores -/

/-- The cores that `main` binds a process to, itself or one given with `--pid`, and the core that
it is reported to run on. -/
def bound (t : List Event) : List ℕ :=
  t.filterMap fun
    | ⟨.schedSetaffinity _ cpu, a⟩ => if a.value = 0 then some cpu.toNat else none
    | ⟨.schedGetcpu, a⟩ => if a.value < 0 then none else some a.value.toUInt32.toNat
    | _ => none

/-- The cores whose caches fill `cache_info_t`. -/
def described (t : List Event) : List ℕ :=
  t.filterMap fun
    | ⟨.cacheInfoNew cpu _, _⟩ => some cpu.toNat
    | _ => none

/-- The cores that a cycle counter is opened on. -/
def counted (t : List Event) : List ℕ :=
  t.filterMap fun
    | ⟨.perfEventOpen cpu, a⟩ => if a.value = 0xffffffff then none else some cpu.toNat
    | _ => none

/-- **One and the same core** is bound, described and counted on. -/
def SameCore (t : List Event) : Prop :=
  (∀ b ∈ bound t, ∀ d ∈ described t, d = b) ∧ (∀ b ∈ bound t, ∀ c ∈ counted t, c = b) ∧
    ∀ d ∈ described t, ∀ c ∈ counted t, c = d

/-- The cores that `main` treats as one: below 256 where caches are described, and core 0 where
`bench` opens the counter. -/
def UsualCore (mode : String) (t : List Event) : Prop :=
  (described t ≠ [] → ∀ b ∈ bound t, b < 256) ∧
    (mode = "bench" → counted t ≠ [] → ∀ b ∈ bound t, b = 0)

instance (t : List Event) : Decidable (SameCore t) :=
  inferInstanceAs (Decidable ((∀ b ∈ bound t, ∀ d ∈ described t, d = b) ∧
    (∀ b ∈ bound t, ∀ c ∈ counted t, c = b) ∧ ∀ d ∈ described t, ∀ c ∈ counted t, c = d))

instance (mode : String) (t : List Event) : Decidable (UsualCore mode t) :=
  inferInstanceAs (Decidable ((described t ≠ [] → ∀ b ∈ bound t, b < 256) ∧
    (mode = "bench" → counted t ≠ [] → ∀ b ∈ bound t, b = 0)))

theorem bound_append (t u : List Event) : bound (t ++ u) = bound t ++ bound u :=
  List.filterMap_append

theorem described_append (t u : List Event) : described (t ++ u) = described t ++ described u :=
  List.filterMap_append

theorem counted_append (t u : List Event) : counted (t ++ u) = counted t ++ counted u :=
  List.filterMap_append

/-! ### The invariant -/

/-- The core that the counter is opened on. -/
def counterCore (mode : String) (core : ℕ) : ℕ := if mode = "bench" then 0 else core

/-- The process is on `core`, and all that the run shows of cores agrees with it as far as the
types and the mode let it. -/
structure Located (mode : String) (core : ℕ) (h : List Event) : Prop where
  bound_ne : bound h ≠ []
  bound_eq : ∀ b ∈ bound h, b = core
  described_eq : ∀ d ∈ described h, d = core % 256
  counted_eq : ∀ c ∈ counted h, c = counterCore mode core

/-- No core has been used for anything yet but to bind a process to it. -/
def Unused (h : List Event) : Prop := described h = [] ∧ counted h = []

/-- **What every run shows of cores.** -/
def CoresShown (mode : String) (h : List Event) : Prop := Unused h ∨ ∃ core, Located mode core h

/-- Whether such a run is about one core. -/
theorem CoresShown.sameCore_iff {mode : String} {h : List Event} (hp : CoresShown mode h) :
    SameCore h ↔ UsualCore mode h := by
  rcases hp with ⟨hdescribed, hcounted⟩ | ⟨core, hne, hbound, hdescribed, hcounted⟩
  · simp [SameCore, UsualCore, hdescribed, hcounted]
  · obtain ⟨b, hb⟩ := List.exists_mem_of_ne_nil _ hne
    constructor
    · -- what is described or counted is the bound core, so the cut and the fixed core are it
      rintro ⟨hbd, hbc, -⟩
      refine ⟨fun hd b hb => ?_, fun hmode hc b hb => ?_⟩
      · obtain ⟨d, hd⟩ := List.exists_mem_of_ne_nil _ hd
        rw [← hbd b hb d hd, hdescribed d hd]
        exact Nat.mod_lt _ (by omega)
      · obtain ⟨c, hc⟩ := List.exists_mem_of_ne_nil _ hc
        rw [← hbc b hb c hc, hcounted c hc, counterCore, if_pos hmode]
    · rintro ⟨hsmall, hzero⟩
      have hd : ∀ d ∈ described h, d = core := fun d hd => by
        have hlt := hsmall (List.ne_nil_of_mem hd) b hb
        rw [hbound b hb] at hlt
        rw [hdescribed d hd, Nat.mod_eq_of_lt hlt]
      have hc : ∀ c ∈ counted h, c = core := fun c hc => by
        rw [hcounted c hc, counterCore]
        split
        · next hmode => rw [← hbound b hb, hzero hmode (List.ne_nil_of_mem hc) b hb]
        · rfl
      refine ⟨fun b hb d hmem => ?_, fun b hb c hmem => ?_, fun d hmem c hmem' => ?_⟩
      · rw [hd d hmem, hbound b hb]
      · rw [hc c hmem, hbound b hb]
      · rw [hd d hmem, hc c hmem']

/-- The events that agree with a core. -/
structure AtCore (mode : String) (core : ℕ) (e : Event) : Prop where
  bound_eq : ∀ b ∈ bound [e], b = core
  described_eq : ∀ d ∈ described [e], d = core % 256
  counted_eq : ∀ c ∈ counted [e], c = counterCore mode core

/-- The events that have nothing to do with cores. -/
structure Coreless (e : Event) : Prop where
  bound_nil : bound [e] = []
  described_nil : described [e] = []
  counted_nil : counted [e] = []

theorem Coreless.atCore {e : Event} (he : Coreless e) (mode : String) (core : ℕ) :
    AtCore mode core e := by
  refine ⟨?_, ?_, ?_⟩
  · simp [he.bound_nil]
  · simp [he.described_nil]
  · simp [he.counted_nil]

section

variable {mode : String} {core : ℕ} {cpu : UInt32}

/-- Binding a process to the core. -/
theorem atCore_bind {pid : UInt32} (a : Answer (.schedSetaffinity pid cpu))
    (hcore : cpu.toNat = core) : AtCore mode core ⟨_, a⟩ := by
  refine ⟨?_, List.forall_mem_nil _, List.forall_mem_nil _⟩
  by_cases hbinds : a.value = 0
  · have hbound : bound [⟨_, a⟩] = [cpu.toNat] := List.filterMap_cons_some (if_pos hbinds)
    rw [hbound]
    exact List.forall_mem_singleton.mpr hcore
  · have hbound : bound [⟨_, a⟩] = [] := List.filterMap_cons_none (if_neg hbinds)
    rw [hbound]
    exact List.forall_mem_nil _

/-- Describing the caches of the core, whose number is cut to eight bits. -/
theorem atCore_describe {cpu cacheLevel : UInt8} (a : Answer (.cacheInfoNew cpu cacheLevel))
    (hcore : cpu.toNat = core % 256) : AtCore mode core ⟨_, a⟩ :=
  ⟨List.forall_mem_nil _, List.forall_mem_singleton.mpr hcore, List.forall_mem_nil _⟩

/-- Opening the counter on its core. -/
theorem atCore_count (a : Answer (.perfEventOpen cpu)) (hcore : cpu.toNat = counterCore mode core) :
    AtCore mode core ⟨_, a⟩ := by
  refine ⟨List.forall_mem_nil _, List.forall_mem_nil _, ?_⟩
  by_cases hfails : a.value = 0xffffffff
  · have hcounted : counted [⟨_, a⟩] = [] := List.filterMap_cons_none (if_pos hfails)
    rw [hcounted]
    exact List.forall_mem_nil _
  · have hcounted : counted [⟨_, a⟩] = [cpu.toNat] := List.filterMap_cons_some (if_neg hfails)
    rw [hcounted]
    exact List.forall_mem_singleton.mpr hcore

end

theorem coreless_of_kind {e : Event} (hsetup : e.1.kind ≠ .setup) (hmeasure : e.1.kind ≠ .measure) :
    Coreless e := by
  obtain ⟨c, a⟩ := e
  cases c <;> first | exact ⟨rfl, rfl, rfl⟩ | exact absurd rfl hsetup | exact absurd rfl hmeasure

theorem coreless_of_inProfileLoop {e : Event} (h : e.1.inProfileLoop = true) : Coreless e := by
  obtain ⟨c, a⟩ := e
  cases c <;> first | exact ⟨rfl, rfl, rfl⟩ | exact absurd h Bool.false_ne_true

theorem Unused.append {h : List Event} {e : Event} (hu : Unused h) (he : Unused [e]) :
    Unused (h ++ [e]) := by
  refine ⟨?_, ?_⟩
  · rw [described_append, hu.1, he.1, List.append_nil]
  · rw [counted_append, hu.2, he.2, List.append_nil]

theorem Located.append {mode : String} {core : ℕ} {h : List Event} {e : Event}
    (hl : Located mode core h) (he : AtCore mode core e) : Located mode core (h ++ [e]) := by
  refine ⟨?_, ?_, ?_, ?_⟩
  · rw [bound_append]
    exact List.append_ne_nil_of_left_ne_nil hl.bound_ne _
  · rw [bound_append]
    exact List.forall_mem_append.mpr ⟨hl.bound_eq, he.bound_eq⟩
  · rw [described_append]
    exact List.forall_mem_append.mpr ⟨hl.described_eq, he.described_eq⟩
  · rw [counted_append]
    exact List.forall_mem_append.mpr ⟨hl.counted_eq, he.counted_eq⟩

theorem CoresShown.append {mode : String} {h u : List Event} (hs : CoresShown mode h)
    (hu : ∀ e ∈ u, Coreless e) : CoresShown mode (h ++ u) := by
  induction u generalizing h with
  | nil => rwa [List.append_nil]
  | cons e u ih =>
    obtain ⟨he, hu⟩ := List.forall_mem_cons.mp hu
    rw [List.append_cons]
    refine ih ?_ hu
    rcases hs with hunused | ⟨core, hl⟩
    · exact .inl (hunused.append ⟨he.described_nil, he.counted_nil⟩)
    · exact .inr ⟨core, hl.append (he.atCore _ _)⟩

/-! ### The parts of `main` -/

section

variable {mode : String}

/-- The number that the functions are called with, for `arguments.cpu`. -/
def coreOf (cpu : Int32) : ℕ := cpu.toUInt32.toNat

/-- The invariant once the core is chosen. -/
def OnCore (mode : String) (b : Int32 × String) (h : List Event) : Prop :=
  b.2 = mode ∧ Located mode (coreOf b.1) h

/-- The variables that it is about. -/
def Locals.choice (s : Locals) : Int32 × String := (s.arguments.cpu, s.arguments.mode)

/-- A part that has nothing to do with cores. -/
theorem triple_coreless (mode : String) {α κ : Type} {f : Locals → κ} {m : Main α}
    (hm : Cmd.Frame Coreless f m) (g : κ → Int32 × String) (hg : ∀ s, g (f s) = s.choice) :
    Cmd.Triple (fun s h => OnCore mode s.choice h) m (fun _ s h => OnCore mode s.choice h)
      fun _ h => CoresShown mode h := by
  have htriple := (hm.mono (fun _ h => h) g).triple_of (I := OnCore mode)
    (N := CoresShown mode) (fun b h e he hI => ⟨hI.1, hI.2.append (he.atCore _ _)⟩)
      fun b h hI => .inr ⟨_, hI.2⟩
  simpa only [hg] using htriple

/-- A step that agrees with the chosen core. -/
theorem triple_atCore {leftToRight : Bool} {step : Step}
    {body : Locals → Proc (ErrorT × Locals)}
    (hbody : ∀ s, (body s).Within (AtCore mode (coreOf s.arguments.cpu)))
    (hf : ∀ s, (body s).Returns fun x => x.2.choice = s.choice) :
    Cmd.Triple (fun s h => OnCore mode s.choice h) (exitOnFail leftToRight step body)
      (fun _ s h => OnCore mode s.choice h) fun _ h => CoresShown mode h := by
  refine triple_exitOnFail_within (f := Locals.choice)
    (E := fun b => AtCore mode (coreOf b.1)) (fun b e he => ?_) hbody hf
      (fun b h e he hI => ⟨hI.1, hI.2.append he⟩) fun b h hI => .inr ⟨_, hI.2⟩
  exact (coreless_of_kind (by rw [he]; decide) (by rw [he]; decide)).atCore _ _

variable (leftToRight : Bool)

theorem triple_cacheInfo :
    Cmd.Triple (fun s h => OnCore mode s.choice h) (exitOnFail leftToRight .cacheInfo cacheInfoStep)
      (fun _ s h => OnCore mode s.choice h) fun _ h => CoresShown mode h := by
  refine triple_atCore (fun s => ?_) fun s => ?_
  · refine (within_sys fun a => atCore_describe a ?_).bind fun _ => Prog.within_pure
    simp [coreOf]
  · exact (Prog.returns_true _).bind fun _ _ => Prog.returns_pure rfl

theorem triple_checkRights :
    Cmd.Triple (fun s h => OnCore mode s.choice h) (checkRights leftToRight)
      (fun _ s h => OnCore mode s.choice h) fun _ h => CoresShown mode h := by
  have hroot : Cmd.Frame Coreless id (Cmd.lift hasRootAccess : Main Bool) :=
    Cmd.frame_lift ((within_sys fun _ => ⟨rfl, rfl, rfl⟩).bind fun _ => Prog.within_pure)
  have hframe : Cmd.Frame Coreless id (checkRights leftToRight) := by
    refine hroot.bind fun root => (frame_failIf _).bind fun _ => ?_
    refine frame_exitOnFail_within _ _ (fun e he => ?_) (fun s => ?_) fun s => ?_
    · exact coreless_of_kind (by rw [he]; decide) (by rw [he]; decide)
    · exact (within_canUseRdpmc fun _ => ⟨rfl, rfl, rfl⟩).bind fun _ => Prog.within_pure
    · exact (Prog.returns_true _).bind fun _ _ => Prog.returns_pure rfl
  exact triple_coreless mode hframe Locals.choice fun _ => rfl

theorem triple_benchMode (hbench : mode = "bench") :
    Cmd.Triple (fun s h => OnCore mode s.choice h) (benchMode leftToRight)
      (fun _ s h => OnCore mode s.choice h) fun _ h => CoresShown mode h := by
  have hmodify : Cmd.Frame Coreless Locals.choice (Cmd.modify fun s =>
      if s.arguments.iter < 1 then { s with arguments.iter := 1000000 } else s : Main Unit) :=
    Cmd.frame_modify fun s => by split <;> rfl
  refine (triple_coreless mode hmodify id fun _ => rfl).bind fun _ =>
    triple_atCore (fun s => ?_) fun s => ?_
  · refine Prog.Within.bind ?_ fun _ => Prog.within_pure
    refine within_benchmark (fun _ => ?_) (fun a => atCore_count a ?_) (fun _ _ _ => ?_) fun _ => ?_
    · exact Coreless.atCore ⟨rfl, rfl, rfl⟩ _ _
    · -- the counter is opened on core 0
      rw [counterCore, if_pos hbench]
      rfl
    · exact Coreless.atCore ⟨rfl, rfl, rfl⟩ _ _
    · exact Coreless.atCore ⟨rfl, rfl, rfl⟩ _ _
  · exact (Prog.returns_true _).bind fun _ _ => Prog.returns_pure rfl

theorem triple_startExternal_onCore :
    Cmd.Triple (fun s h => OnCore mode s.choice h) (startExternal leftToRight)
      (fun _ s h => OnCore mode s.choice h) fun _ h => CoresShown mode h := by
  refine Cmd.Triple.bind (M := fun _ s h => OnCore mode s.choice h)
    (Cmd.triple_get fun _ _ hI => hI) fun s => Cmd.Triple.ite (fun _ => ?_) fun _ =>
      Cmd.Triple.ite (fun _ => ?_) fun _ => Cmd.triple_pure fun _ _ hI => hI
  · refine triple_atCore (fun s => ?_) fun s => ?_
    · refine Prog.Within.bind ?_ fun _ => Prog.within_pure
      exact (within_sys fun a => atCore_bind a rfl).bind fun _ => Prog.within_pure
    · exact (Prog.returns_true _).bind fun _ _ => Prog.returns_pure rfl
  · refine triple_atCore (fun s => ?_) fun s => ?_
    · refine Prog.Within.bind ?_ fun _ => Prog.within_pure
      refine within_runProgram (fun e he => ?_) fun _ => Coreless.atCore ⟨rfl, rfl, rfl⟩ _ _
      exact (coreless_of_kind (by rw [he]; decide) (by rw [he]; decide)).atCore _ _
    · exact (Prog.returns_true _).bind fun _ _ => Prog.returns_pure rfl

theorem triple_profileMode_onCore (hbench : mode ≠ "bench") (fuel : ℕ) :
    Cmd.Triple (fun s h => OnCore mode s.choice h) (profileMode leftToRight fuel)
      (fun _ s h => OnCore mode s.choice h) fun _ h => CoresShown mode h := by
  have hopen : Cmd.Frame Coreless (fun s => (s.buffer, s.arguments, s.cache))
      (openOutput leftToRight) :=
    (frame_openOutput leftToRight).mono (fun e he => coreless_of_kind
      (ne_of_mem_of_not_mem he (by simp)) (ne_of_mem_of_not_mem he (by simp))) id
  have halarm : Cmd.Frame Coreless id setAlarm :=
    Cmd.frame_get.bind fun _ => Cmd.Frame.ite
      (Cmd.frame_lift (within_sys fun _ => ⟨rfl, rfl, rfl⟩)) Cmd.frame_pure
  refine (triple_coreless mode hopen (fun x => (x.2.1.cpu, x.2.1.mode)) fun _ => rfl).bind
    fun _ => ?_
  refine Cmd.Triple.bind (M := fun _ s h => OnCore mode s.choice h)
    (triple_atCore (fun s => ?_) fun s => ?_) fun _ => ?_
  · refine Prog.Within.bind ?_ fun _ => Prog.within_pure
    refine within_allocAligned (fun _ => Coreless.atCore ⟨rfl, rfl, rfl⟩ _ _)
      (fun _ => Coreless.atCore ⟨rfl, rfl, rfl⟩ _ _) fun e he => ?_
    exact (coreless_of_kind (by rw [he]; decide) (by rw [he]; decide)).atCore _ _
  · exact (Prog.returns_true _).bind fun _ _ => Prog.returns_pure rfl
  refine (triple_startExternal_onCore leftToRight).bind fun _ => ?_
  refine (triple_coreless mode halarm Locals.choice fun _ => rfl).bind fun _ =>
    triple_atCore (fun s => ?_) fun s => ?_
  · refine Prog.Within.bind ?_ fun _ => Prog.within_pure
    refine within_profile (fun a => atCore_count a ?_)
      fun e he => (coreless_of_inProfileLoop he).atCore _ _
    -- here the counter is opened on `arguments.cpu`
    rw [counterCore, if_neg hbench]
    rfl
  · exact (Prog.returns_true _).bind fun _ _ => Prog.returns_pure rfl

theorem triple_runMode_onCore (fuel : ℕ) :
    Cmd.Triple (fun s h => OnCore mode s.choice h) (runMode leftToRight fuel)
      (fun _ s h => OnCore mode s.choice h) fun _ h => CoresShown mode h := by
  refine Cmd.Triple.bind (M := fun s s' h => s.arguments.mode = mode ∧ OnCore mode s'.choice h)
    (Cmd.triple_get fun s _ hI => ⟨hI.1, hI⟩) fun s => ?_
  refine Cmd.Triple.of_pre (K := s.arguments.mode = mode) (fun _ _ hI => hI.1) fun hmode => ?_
  rw [hmode]
  refine Cmd.Triple.mono (P := fun s h => OnCore mode s.choice h) (Cmd.Triple.ite
    (fun hbench => triple_benchMode leftToRight hbench) fun hbench => Cmd.Triple.ite
      (fun _ => triple_profileMode_onCore leftToRight hbench fuel) fun _ =>
        Cmd.triple_throw fun _ _ hI => .inr ⟨_, hI.2⟩) (fun _ _ hI => hI.2)
          (fun _ _ _ hQ => hQ) fun _ _ hX => hX

/-! ### The choice of the core -/

theorem bound_evaluation {step : Step} {a : Answer (.enter step)} {u : List Event} {res : ErrorT}
    {b : Answer (.leave step res)} : bound (evaluation step a u res b) = bound u := by
  rw [evaluation, bound_append]
  exact List.append_nil _

/-- A step that binds the process to a core, or finds out on which it runs. -/
theorem triple_choose {step : Step} {body : Locals → Proc (ErrorT × Locals)}
    (core : Locals → ℕ) (hbody : ∀ s, (body s).Within fun e => Unused [e])
    (hmode : ∀ s, (body s).Returns fun x => x.2.arguments.mode = s.arguments.mode)
    (hcore : ∀ s u s', (body s).Run u (some (errorNone, s')) → bound u = [core s']) :
    Cmd.Triple (fun s h => s.arguments.mode = mode ∧ Unused h ∧ bound h = [])
      (exitOnFail leftToRight step body)
      (fun _ s h => s.arguments.mode = mode ∧ Located mode (core s) h) fun _ h => Unused h := by
  have hunused := (frame_exitOnFail_within (f := fun s => s.arguments.mode) leftToRight step
    (fun e he => ?_) hbody hmode).triple_of (I := fun b h => b = mode ∧ Unused h)
      (fun b h e he hI => ?_) fun _ _ hI => hI.2
  · have hbound : Cmd.Triple (fun _ h => bound h = []) (exitOnFail leftToRight step body)
        (fun _ s h => bound h = [core s]) fun _ _ => True :=
      triple_exitOnFail_ok fun s h u s' a b hI hrun => by
        rw [bound_append, bound_evaluation, hI, hcore s u s' hrun, List.nil_append]
    refine (hunused.and hbound).mono (fun _ _ hI => ⟨⟨hI.1, hI.2.1⟩, hI.2.2⟩)
      (fun _ s h hQ => ⟨hQ.1.1, ?_⟩) fun _ _ hX => hX.1
    obtain ⟨⟨-, hdescribed, hcounted⟩, hbound⟩ := hQ
    exact ⟨by simp [hbound], by simp [hbound], by simp [hdescribed], by simp [hcounted]⟩
  · have hcoreless : Coreless e := coreless_of_kind (by rw [he]; decide) (by rw [he]; decide)
    exact ⟨hcoreless.described_nil, hcoreless.counted_nil⟩
  · exact ⟨hI.1, hI.2.append he⟩

/-- A successful `focus_cpu_core` binds a process to the core. -/
theorem focusCpuCore_bound {pid cpu : UInt32} {u : List Event}
    (h : (focusCpuCore pid cpu).Run u (some errorNone)) : bound u = [cpu.toNat] := by
  obtain ⟨a, t', rfl, rfl, hres⟩ := run_sys_bind.mp h
  have hval : a.value = 0 := by
    by_contra hne
    rw [if_pos hne] at hres
    exact absurd hres (by decide)
  exact List.filterMap_cons_some (if_pos hval)

/-- A successful `get_current_cpu_core` reports the core. -/
theorem currentCoreStep_bound {s s' : Locals} {u : List Event}
    (h : (currentCoreStep s).Run u (some (errorNone, s'))) : bound u = [s'.core.toNat] := by
  obtain ⟨u₁, u₂, r, rfl, h₁, h₂⟩ | ⟨h, -⟩ := Prog.run_bind.mp h
  · obtain ⟨a, t', rfl, rfl, hr⟩ := run_sys_bind.mp h₁
    obtain rfl := Option.some_injective _ hr
    by_cases hneg : a.value < 0
    · rw [if_pos hneg] at h₂
      exact absurd (Prod.mk.inj (Option.some_injective _ h₂.2)).1 (by decide)
    · rw [if_neg hneg] at h₂
      obtain ⟨rfl, heq⟩ := h₂
      obtain ⟨-, rfl⟩ := Prod.mk.inj (Option.some_injective _ heq)
      exact List.filterMap_cons_some (if_neg hneg)
  · exact absurd h (by simp)

theorem triple_chooseCpu (thisPid : ℤ) :
    Cmd.Triple (fun s h => s.arguments.mode = mode ∧ Unused h ∧ bound h = [])
      (chooseCpu leftToRight thisPid) (fun _ s h => OnCore mode s.choice h)
      fun _ h => Unused h := by
  refine Cmd.Triple.bind (M := fun _ s h => s.arguments.mode = mode ∧ Unused h ∧ bound h = [])
    (Cmd.triple_get fun _ _ hI => hI) fun s => Cmd.Triple.ite (fun _ => ?_) fun _ => ?_
  · -- `--cpu` is given: the process is bound to this core
    refine (triple_choose leftToRight (fun s => coreOf s.arguments.cpu) (fun s => ?_)
      (fun s => ?_) fun s u s' hrun => ?_)
    · refine Prog.Within.bind ?_ fun _ => Prog.within_pure
      exact (within_sys fun _ => ⟨rfl, rfl⟩).bind fun _ => Prog.within_pure
    · exact (Prog.returns_true _).bind fun _ _ => Prog.returns_pure rfl
    · obtain ⟨u₁, u₂, res, rfl, hfocus, rfl, heq⟩ | ⟨h, -⟩ := Prog.run_bind.mp hrun
      · obtain ⟨rfl, rfl⟩ := Prod.mk.inj (Option.some_injective _ heq)
        rw [List.append_nil, focusCpuCore_bound hfocus, coreOf]
      · exact absurd h (by simp)
  · -- it is not: the core that was found becomes `arguments.cpu`
    refine (triple_choose leftToRight (fun s => s.core.toNat) (fun s => ?_)
      (fun s => ?_) fun s u s' hrun => ?_).bind fun _ => Cmd.triple_modify fun s h hI => ?_
    · refine Prog.Within.bind ?_ fun r => by cases r <;> exact Prog.within_pure
      exact (within_sys fun _ => ⟨rfl, rfl⟩).bind fun _ => Prog.within_pure
    · refine (Prog.returns_true _).bind fun r _ => ?_
      cases r <;> exact Prog.returns_pure rfl
    · exact currentCoreStep_bound hrun
    · exact ⟨hI.1, by simpa [Locals.choice, coreOf] using hI.2⟩

theorem triple_setUp_onCore :
    Cmd.Triple (fun s h => s.arguments.mode = mode ∧ Unused h ∧ bound h = []) (setUp leftToRight)
      (fun _ s h => OnCore mode s.choice h) fun _ h => CoresShown mode h := by
  have hbefore : ∀ {α : Type} {m : Main α}, Cmd.Frame Coreless (fun s => s.arguments.mode) m →
      Cmd.Triple (fun s h => s.arguments.mode = mode ∧ Unused h ∧ bound h = []) m
        (fun _ s h => s.arguments.mode = mode ∧ Unused h ∧ bound h = [])
        fun _ h => CoresShown mode h := by
    intro α m hm
    refine hm.triple_of (I := fun b h => b = mode ∧ Unused h ∧ bound h = [])
      (fun b h e he hI => ⟨hI.1, hI.2.1.append ⟨he.described_nil, he.counted_nil⟩, ?_⟩)
        fun _ _ hI => .inl hI.2.1
    rw [bound_append, hI.2.2, he.bound_nil, List.append_nil]
  refine (hbefore (Cmd.frame_lift (within_sys fun _ => ⟨rfl, rfl, rfl⟩))).bind fun thisPid => ?_
  refine (hbefore (frame_failIf _)).bind fun _ => ?_
  refine (hbefore (frame_installHandlers_within (fun _ _ => ⟨rfl, rfl, rfl⟩)
    fun _ => ⟨rfl, rfl, rfl⟩)).bind fun _ => ?_
  exact ((triple_chooseCpu leftToRight thisPid).mono_exit fun _ _ hX => .inl hX).bind fun _ =>
    triple_cacheInfo leftToRight

theorem triple_mainBody_coresShown (fuel : ℕ) :
    Cmd.Triple (fun s h => s.arguments.mode = mode ∧ Unused h ∧ bound h = [])
      (mainBody leftToRight fuel) (fun _ _ h => CoresShown mode h)
      fun _ h => CoresShown mode h := by
  have hkill : Cmd.Frame Coreless id killExternal :=
    (frame_killExternal).mono (fun e he => coreless_of_kind (ne_of_mem_of_not_mem he (by simp))
      (ne_of_mem_of_not_mem he (by simp))) id
  have hkilled := triple_coreless mode hkill Locals.choice fun _ => rfl
  refine (triple_setUp_onCore leftToRight).bind fun _ => ?_
  refine Cmd.Triple.bind (M := fun _ s h => OnCore mode s.choice h)
    (Cmd.triple_get fun _ _ hI => hI) fun s => Cmd.Triple.ite (fun _ => ?_) fun _ => ?_
  · exact Cmd.triple_pure fun _ _ hI => .inr ⟨_, hI.2⟩
  · refine (triple_checkRights leftToRight).bind fun _ => ?_
    refine (triple_runMode_onCore leftToRight fuel).bind fun _ => ?_
    exact hkilled.mono (fun _ _ hI => hI) (fun _ _ _ hQ => .inr ⟨_, hQ.2⟩) fun _ _ hX => hX

/-! ### Whole runs -/

/-- **Whether a run is about one core**: if and only if this core is below 256 where caches are
described, and is core 0 where `bench` opens the counter. -/
theorem main_sameCore_iff (fuel : ℕ) (arguments : Arguments) (garbage : Locals) (t : List Event)
    (o : Option ℤ) (h : (main leftToRight fuel arguments garbage).Run t o) :
    SameCore t ↔ UsualCore arguments.mode t := by
  have hbody : ∀ {t₁ o'}, (mainBody leftToRight fuel
      { garbage with arguments, buffer := .null }).Run t₁ o' → CoresShown arguments.mode t₁ := by
    intro t₁ o' h₁
    have hpre : arguments.mode = arguments.mode ∧ Unused [] ∧ bound [] = [] :=
      ⟨rfl, ⟨rfl, rfl⟩, rfl⟩
    have hpost := triple_mainBody_coresShown leftToRight fuel _ [] t₁ o' hpre h₁
    rcases o' with _ | ⟨_ | _, _⟩ <;> exact hpost
  refine CoresShown.sameCore_iff ?_
  rcases main_run leftToRight h with ⟨t₁, t₂, r, s, o', rfl, -, h₁, h₂, -⟩ | ⟨s, h₁, -⟩ | ⟨h₁, -⟩
  · have hfinal : ∀ e ∈ t₂, Coreless e := fun e he => by
      have hkind : e.1.kind ∈ [Kind.closing, .memory] := only_finalize s t₂ o' h₂ e he
      exact coreless_of_kind (ne_of_mem_of_not_mem hkind (by simp))
        (ne_of_mem_of_not_mem hkind (by simp))
    exact (hbody h₁).append hfinal
  · exact hbody h₁
  · exact hbody h₁

end

/-- A measurement on core 0 is about core 0. -/
theorem main_sameCore_iff_goodMachine :
    SameCore ((main true 1 (defaultArguments "profile") zeroStack).exec goodMachine []).1 :=
  (main_sameCore_iff true 1 _ _ _ _ (Prog.run_exec goodMachine _ [])).mpr (by decide)

/-- On core 256, the caches of core 0 are described. -/
theorem main_describes_otherCore :
    ¬ ∀ (leftToRight : Bool) (fuel : ℕ) (arguments : Arguments) (garbage : Locals)
      (t : List Event) (o : Option ℤ),
      (main leftToRight fuel arguments garbage).Run t o → SameCore t := by
  intro h
  have hrun := h true 1 { defaultArguments "profile" with cpu := 256 } zeroStack _ _
    (Prog.run_exec goodMachine _ [])
  exact absurd hrun (by decide)

end CacheNoise
