import CacheNoise.Alloc.Outcome
import CacheNoise.Main.Steps
import CacheNoise.Profile.Iterations

/-!
# Runs of `main` that do not return

There are three places at which a run can stop. `free_aligned` adds the huge page size to a length
until that covers the buffer, and so never ends if `/proc/meminfo` tells a size of 0; `benchmark`
stores its first measurement through a null pointer if there is no memory for it; and the loop of
`profile` has no end of its own without a number of iterations.

Apart from the last, which is a matter of the flag `terminated` and of the bound that the model
runs with, a run does not return if and only if its last calls lead to such a place
(`main_hangs_iff`). This is about the loops that are programs over calls. The alignment test and the
assembly loops are calls, which answer: the test itself does not end if a page is smaller than a
line and the first line is in its place.
-/

namespace CacheNoise

open Interaction Prog

/-! ### The last calls -/

/-- `free_aligned` has just read a huge page size of 0. -/
def Endless (t : List Event) : Prop :=
  ∃ a : Answer .meminfo, t.getLast? = some ⟨_, a⟩ ∧ a.value = some 0

/-- `benchmark` has got no memory and has enabled the counter for its first measurement. -/
def Faulting (t : List Event) : Prop :=
  ∃ (pre : List Event) (a : Answer .malloc) (b : Answer (.perfEventOpen 0))
    (c : Answer (.ioctl b.value .reset)) (d : Answer (.ioctl b.value .enable)),
    t = pre ++ [⟨_, a⟩, ⟨_, b⟩, ⟨_, c⟩, ⟨_, d⟩] ∧ a.value = false ∧ d.value = 0

/-- The loop of `profile` has made all passes that it is bounded by, and it would go on. -/
def Cut (fuel : ℕ) (iterations : UInt32) (t : List Event) : Prop :=
  fuel ≤ t.countP readsUnset ∧ (iterations = 0 ∨ fuel ≤ iterations.toNat)

/-- A run stops here. -/
def Hung (fuel : ℕ) (iterations : UInt32) (t : List Event) : Prop :=
  Endless t ∨ Faulting t ∨ Cut fuel iterations t

/-- An event after which a run can stop. -/
def critical : Event → Bool
  | ⟨.meminfo, a⟩ => a.value == some 0
  | ⟨.ioctl _ .enable, a⟩ => a.value == 0
  | _ => false

/-- The last event is not such an event. -/
def Paused (t : List Event) : Prop := ∀ e ∈ t.getLast?, critical e = false

theorem Endless.append {t : List Event} (h : Endless t) (u : List Event) : Endless (u ++ t) := by
  obtain ⟨a, hlast, hzero⟩ := h
  exact ⟨a, by rw [List.getLast?_append, hlast, Option.some_or], hzero⟩

theorem Hung.append {fuel : ℕ} {iterations : UInt32} {t : List Event} (h : Hung fuel iterations t)
    (u : List Event) : Hung fuel iterations (u ++ t) := by
  obtain h | ⟨pre, a, b, c, d, rfl, hnull, hzero⟩ | ⟨hpasses, hiterations⟩ := h
  · exact .inl (h.append u)
  · exact .inr (.inl ⟨u ++ pre, a, b, c, d, (List.append_assoc _ _ _).symm, hnull, hzero⟩)
  · refine .inr (.inr ⟨?_, hiterations⟩)
    rw [List.countP_append]
    omega

theorem paused_concat {t : List Event} {e : Event} (he : critical e = false) :
    Paused (t ++ [e]) := by
  intro e' he'
  rw [List.getLast?_concat, Option.mem_some_iff] at he'
  rwa [← he']

theorem critical_of_kind {e : Event} (h : e.1.kind ≠ .memory ∧ e.1.kind ≠ .measure) :
    critical e = false := by
  obtain ⟨c, a⟩ := e
  cases c <;> first | rfl | exact absurd rfl h.1 | exact absurd rfl h.2

/-- A run that can stop is not paused. -/
theorem Paused.not_hung {t : List Event} (h : Paused t) : ¬ (Endless t ∨ Faulting t) := by
  rintro (⟨a, hlast, hzero⟩ | ⟨pre, a, b, c, d, rfl, -, hzero⟩)
  · have hcritical := h _ hlast
    rw [critical, hzero] at hcritical
    cases hcritical
  · have hcritical := h ⟨_, d⟩ (by simp)
    rw [critical, hzero] at hcritical
    cases hcritical

/-! ### The functions that can stop -/

theorem stops_sys {D : List Event → Prop} {c : Call} : (sys c).Stops D := by
  intro t h
  obtain ⟨a, -, ho⟩ := run_sys.mp h
  cases ho

/-- What is read of `/proc/meminfo`, in one call. -/
theorem getHugepagesize_ok {t : List Event} {size : UInt64}
    (h : getHugepagesize.Run t (some (.ok size))) :
    ∃ a : Answer .meminfo, t = [⟨_, a⟩] ∧ a.value = some size := by
  obtain ⟨a, t₁, rfl, h₁⟩ := run_sys_bind.mp h
  rcases hsize : a.value with _ | size' <;> rw [hsize] at h₁ <;> obtain ⟨rfl, ho⟩ := h₁
  · cases ho
  · obtain rfl := Except.ok.inj (Option.some.inj ho)
    exact ⟨a, rfl, hsize⟩

theorem stops_getHugepagesize {D : List Event → Prop} : getHugepagesize.Stops D := by
  intro t h
  obtain ⟨-, ⟨-, ho⟩ | ⟨size, -, ho⟩⟩ := getHugepagesize_run h <;> cases ho

theorem freeAligned_stops (buffer : Ptr) (cache : CacheInfo) :
    (freeAligned buffer cache).Stops Endless := by
  intro t h
  obtain ⟨t₁, t₂, r, rfl, h₁, h₂⟩ | ⟨-, h₁⟩ := run_bind.mp h
  swap
  · exact stops_getHugepagesize t h₁
  rcases r with res | size
  · cases h₂.2
  dsimp only at h₂
  rcases hlength : munmapLength size cache.totalSize with _ | length <;> rw [hlength] at h₂
  · -- only a page size of 0 keeps the length from being found
    obtain ⟨a, rfl, ha⟩ := getHugepagesize_ok h₁
    obtain ⟨rfl, -⟩ := h₂
    exact ⟨a, rfl, ha.trans (congrArg some (munmapLength_eq_none hlength))⟩
  · obtain ⟨b, t₂, rfl, -, ho⟩ := run_sys_bind.mp h₂
    cases ho

theorem searchAligned_stops {D : List Event → Prop} (hD : ∀ u t, D t → D (u ++ t))
    (cache : CacheInfo) (hugepagesize : UInt64) (n : ℕ) (s : Search) :
    (searchAligned cache hugepagesize n s).Stops D := by
  induction n generalizing s with
  | zero => exact stops_pure
  | succ n ih =>
    refine stops_sys.bind hD fun r => ?_
    cases r with
    | none => exact stops_pure
    | some address =>
      exact stops_sys.bind hD fun err => Stops.ite (fun _ => ih _) fun _ => stops_pure

theorem releaseAll_stops (cache : CacheInfo) (buffers : List Ptr) (err : ErrorT) :
    (releaseAll cache buffers err).Stops Endless := by
  induction buffers generalizing err with
  | nil => exact stops_pure
  | cons buffer buffers ih =>
    exact (freeAligned_stops buffer cache).bind (fun u t h => h.append u) fun err => ih err

/-- `alloc_aligned` stops only in a release. -/
theorem allocAligned_stops (cache : CacheInfo) (buffer : Ptr) :
    (allocAligned cache buffer).Stops Endless := by
  have hD : ∀ u t : List Event, Endless t → Endless (u ++ t) := fun u t h => h.append u
  have hprop : (readPropPut .nrHugepages errorIoHugepageNumber).Stops Endless :=
    stops_sys.bind hD fun r => by cases r <;> exact stops_pure
  refine hprop.bind hD fun r => ?_
  rcases r with res | maxTries
  · exact stops_pure
  refine Stops.ite (fun _ => stops_pure) fun _ => stops_getHugepagesize.bind hD fun r => ?_
  rcases r with res | size
  · exact stops_pure
  refine stops_sys.bind hD fun allocated => Stops.ite (fun _ => stops_pure) fun _ => ?_
  refine (searchAligned_stops hD cache size _ _).bind hD fun s => ?_
  refine (releaseAll_stops cache _ _).bind hD fun err => Stops.ite (fun _ => stops_pure) fun _ => ?_
  exact Stops.ite (fun _ => (freeAligned_stops _ cache).bind hD fun res => stops_pure) fun _ =>
    stops_pure

/-- The calls that enable a counter. -/
theorem enableCpuCycleCounter_ok {cpu fd : UInt32} {t : List Event}
    (h : (enableCpuCycleCounter cpu).Run t (some (.ok fd))) :
    ∃ (b : Answer (.perfEventOpen cpu)) (c : Answer (.ioctl b.value .reset))
      (d : Answer (.ioctl b.value .enable)), t = [⟨_, b⟩, ⟨_, c⟩, ⟨_, d⟩] ∧ d.value = 0 := by
  obtain ⟨b, t₁, rfl, h₁⟩ := run_sys_bind.mp h
  split_ifs at h₁ with hopen
  · cases h₁.2
  obtain ⟨c, t₂, rfl, h₂⟩ := run_sys_bind.mp h₁
  split_ifs at h₂ with hreset
  · cases h₂.2
  obtain ⟨d, t₃, rfl, rfl, hr⟩ := run_sys_bind.mp h₂
  split_ifs at hr with henable
  · cases hr
  · exact ⟨b, c, d, rfl, not_not.mp henable⟩

/-- `benchmark` stops only without memory. -/
theorem benchmark_stops (iterations : UInt64) : (benchmark iterations).Stops Faulting := by
  intro t h
  obtain ⟨a, t₁, rfl, h₁⟩ := run_sys_bind.mp h
  obtain ⟨t₂, t₃, r, rfl, h₂, h₃⟩ | ⟨-, h₂⟩ := run_bind.mp h₁
  swap
  · obtain hnone | ⟨_, hnone⟩ := enableCpuCycleCounter_returns h₂ <;> cases hnone
  rcases r with res | fd
  · cases h₃.2
  dsimp only at h₃
  split_ifs at h₃ with hnull
  · obtain ⟨b, c, d, rfl, hd⟩ := enableCpuCycleCounter_ok h₂
    obtain ⟨rfl, -⟩ := h₃
    exact ⟨[], a, b, c, d, rfl, hnull.1, hd⟩
  · obtain ⟨e, t₄, rfl, h₄⟩ := run_sys_bind.mp h₃
    obtain ⟨f, -, ho⟩ := disableCpuCycleCounter_run.mp h₄
    cases ho

/-- `profile` stops only when the bound of its loop is used up. -/
theorem profile_stops (fuel : ℕ) (cache : CacheInfo) (cpu iterations : UInt32) (buffer : Ptr)
    (output : OutputT) :
    (profile fuel cache cpu iterations buffer output).Stops (Cut fuel iterations) := by
  intro t h
  obtain ⟨ho, -⟩ | ⟨fd, start, ts, tail, output', rfl, -, hts, hends, hcut⟩ := profile_run h
  · cases ho
  obtain rfl := hcut rfl
  obtain ⟨hpasses, -⟩ := hts.counts
  cases hends with
  | cut hj =>
    refine ⟨?_, hj⟩
    rw [List.countP_append, List.countP_append, hpasses]
    omega

/-! ### The parts of `main` -/

/-- What is known at the exits other than the normal one. -/
abbrev Halted (fuel : ℕ) (iterations : UInt32) : Option (Exit × Locals) → List Event → Prop
  | none, h => Hung fuel iterations h
  | some _, h => Paused h

/-- A part of `main` that keeps `K`, and stops only where a run can. -/
def Steady (fuel : ℕ) (iterations : UInt32) (K : Locals → Prop) {α : Type} (m : Main α) : Prop :=
  Cmd.Triple (fun s h => K s ∧ Paused h) m (fun _ s h => K s ∧ Paused h) (Halted fuel iterations)

section

variable {fuel : ℕ} {iterations : UInt32} {K : Locals → Prop} {α β : Type}

theorem steady_pure (a : α) : Steady fuel iterations K (pure a : Main α) :=
  Cmd.triple_pure fun _ _ h => h

theorem steady_throw (e : Exit) : Steady fuel iterations K (Cmd.throw e : Main α) :=
  Cmd.triple_throw fun _ _ h => h.2

theorem steady_get : Steady fuel iterations K (Cmd.get : Main Locals) :=
  Cmd.triple_get fun _ _ h => h

theorem steady_modify {f : Locals → Locals} (hf : ∀ s, K s → K (f s)) :
    Steady fuel iterations K (Cmd.modify f : Main Unit) :=
  Cmd.triple_modify fun s _ h => ⟨hf s h.1, h.2⟩

theorem Steady.bind {m : Main α} {f : α → Main β} (hm : Steady fuel iterations K m)
    (hf : ∀ a, Steady fuel iterations K (f a)) : Steady fuel iterations K (m >>= f) :=
  Cmd.Triple.bind hm hf

theorem Steady.ite {c : Prop} [Decidable c] {m n : Main α} (hm : Steady fuel iterations K m)
    (hn : Steady fuel iterations K n) : Steady fuel iterations K (if c then m else n) :=
  Cmd.Triple.ite (fun _ => hm) fun _ => hn

theorem steady_failIf (condition : Bool) : Steady fuel iterations K (failIf condition) :=
  (steady_throw _).ite (steady_pure _)

/-- A call after which no run stops. -/
theorem steady_sys {c : Call} (hc : ∀ a, critical ⟨c, a⟩ = false) :
    Steady fuel iterations K (Cmd.lift (sys c) : Main c.Value) := by
  refine Cmd.triple_lift fun s => ?_
  intro h t o hh hrun
  obtain ⟨a, rfl, rfl⟩ := run_sys.mp hrun
  exact ⟨hh.1, paused_concat (hc a)⟩

/-- **A step** stops where its body does; after each evaluation there is a mark. -/
theorem steady_exitOnFail {leftToRight : Bool} {step : Step}
    {body : Locals → Proc (ErrorT × Locals)}
    (hstops : ∀ s, K s → (body s).Stops (Hung fuel iterations))
    (hkeeps : ∀ s, K s → (body s).Returns fun x => K x.2) :
    Steady fuel iterations K (exitOnFail leftToRight step body) := by
  have hpaused : ∀ (h : List Event) (a : Answer (.enter step)) (u : List Event) (res : ErrorT)
      (b : Answer (.leave step res)), Paused (h ++ evaluation step a u res b) := by
    intro h a u res b
    rw [evaluation, ← List.append_assoc]
    exact paused_concat rfl
  rintro s h t o ⟨hK, -⟩ hrun
  obtain ⟨a, u, s', b, rfl, hu, rfl⟩ | ⟨a, u, rfl, hu, rfl⟩ |
    ⟨a, u, res, s₁, b, t', rfl, -, hu, hfail⟩ := exitOnFail_run hrun
  · exact ⟨hkeeps s hK u _ hu, hpaused _ _ _ _ _⟩
  · rw [List.append_cons]
    exact (hstops s hK u hu).append _
  have hK₁ : K s₁ := hkeeps s hK u _ hu
  -- the two evaluations on the failing branch
  obtain ⟨a₁, u₁, rfl, hu₁, rfl⟩ | ⟨a₁, u₁, res₁, s₂, b₁, a₂, u₂, rfl, hu₁, hu₂, rfl⟩ |
    ⟨a₁, u₁, res₁, s₂, b₁, a₂, u₂, res₂, s₃, b₂, c, rfl, hu₁, hu₂, rfl⟩ := failStep_run hfail
  · rw [List.append_cons (evaluation step a u res b), ← List.append_assoc]
    exact (hstops s₁ hK₁ u₁ hu₁).append _
  · rw [List.append_cons, ← List.append_assoc, ← List.append_assoc]
    exact (hstops s₂ (hkeeps s₁ hK₁ u₁ _ hu₁) u₂ hu₂).append _
  · rw [← List.append_assoc, ← List.append_assoc]
    exact paused_concat rfl

/-- A step that never stops. -/
theorem steady_total {leftToRight : Bool} {step : Step} {body : Locals → Proc (ErrorT × Locals)}
    (hstops : ∀ s, (body s).Stops fun _ => False)
    (hkeeps : ∀ s, K s → (body s).Returns fun x => K x.2) :
    Steady fuel iterations K (exitOnFail leftToRight step body) :=
  steady_exitOnFail (fun s _ t ht => (hstops s t ht).elim) hkeeps

/-- A step that leaves the variables alone keeps what is known of them. -/
theorem keeps_keeping {p : Locals → Proc ErrorT} (s : Locals) (hs : K s) :
    (keeping p s).Returns fun x => K x.2 :=
  (Prog.returns_true _).bind fun _ _ => Prog.returns_pure hs

theorem steady_keeping {leftToRight : Bool} {step : Step} {p : Locals → Proc ErrorT}
    (hp : ∀ s, (p s).Stops fun _ => False) :
    Steady fuel iterations K (exitOnFail leftToRight step (keeping p)) :=
  steady_total (fun s => (hp s).bind (fun _ _ h => h) fun _ => stops_pure) keeps_keeping

end

section

variable (leftToRight : Bool) {fuel : ℕ} {iterations : UInt32}

/-- The number of iterations of a measurement. -/
def Locals.Iterates (iterations : UInt32) (s : Locals) : Prop :=
  s.arguments.iter.toUInt32 = iterations

theorem total_bind {α β : Type} {p : Proc α} {f : α → Proc β} (hp : p.Stops fun _ => False)
    (hf : ∀ a, (f a).Stops fun _ => False) : (p >>= f).Stops fun _ => False :=
  hp.bind (fun _ _ h => h) hf

theorem total_focusCpuCore (pid cpu : UInt32) : (focusCpuCore pid cpu).Stops fun _ => False :=
  total_bind stops_sys fun _ => stops_pure

theorem steady_setUp : Steady fuel iterations (Locals.Iterates iterations) (setUp leftToRight) := by
  have hhandlers : Steady fuel iterations (Locals.Iterates iterations) installHandlers :=
    (steady_sys fun _ => rfl).bind fun _ => (steady_failIf _).bind fun _ =>
      (steady_sys fun _ => rfl).bind fun _ => (steady_failIf _).bind fun _ =>
        (steady_sys fun _ => rfl).bind fun _ => (steady_failIf _).bind fun _ =>
          (steady_sys fun _ => rfl).bind fun _ => steady_failIf _
  refine (steady_sys fun _ => rfl).bind fun thisPid => (steady_failIf _).bind fun _ =>
    hhandlers.bind fun _ => Steady.bind ?_ fun _ => ?_
  · refine steady_get.bind fun s => Steady.ite (steady_keeping fun s => total_focusCpuCore _ _) ?_
    refine Steady.bind (steady_total (fun s => ?_) fun s hs => ?_) fun _ =>
      steady_modify fun s hs => hs
    · refine total_bind (total_bind stops_sys fun _ => stops_pure) fun r => ?_
      cases r <;> exact stops_pure
    · refine (Prog.returns_true _).bind fun r _ => ?_
      cases r <;> exact Prog.returns_pure hs
  · exact steady_total (fun s => total_bind stops_sys fun _ => stops_pure) fun s hs =>
      (Prog.returns_true _).bind fun _ _ => Prog.returns_pure hs

theorem steady_checkRights {K : Locals → Prop} :
    Steady fuel iterations K (checkRights leftToRight) := by
  have hroot : Steady fuel iterations K (Cmd.lift hasRootAccess : Main Bool) := by
    refine Cmd.triple_lift fun s => ?_
    intro h t o hh hrun
    obtain ⟨a, t', rfl, rfl, rfl⟩ := run_sys_bind.mp hrun
    exact ⟨hh.1, paused_concat rfl⟩
  refine hroot.bind fun root => (steady_failIf _).bind fun _ => steady_keeping fun s => ?_
  refine total_bind (total_bind stops_sys fun r => ?_) fun r => ?_ <;> cases r <;> exact stops_pure

theorem hung_append (u t : List Event) (h : Hung fuel iterations t) :
    Hung fuel iterations (u ++ t) := h.append u

/-- Nothing is asked of the variables here, as their number of iterations is set. -/
theorem steady_benchMode : Steady fuel iterations (fun _ => True) (benchMode leftToRight) := by
  refine Steady.bind (steady_modify fun _ h => h) fun _ =>
    steady_exitOnFail (fun s _ => ?_) keeps_keeping
  exact ((benchmark_stops _).mono fun t h => .inr (.inl h)).bind hung_append fun _ => stops_pure

theorem steady_openOutput {K : Locals → Prop} (hK : ∀ s output, K s → K { s with output }) :
    Steady fuel iterations K (openOutput leftToRight) := by
  refine steady_get.bind fun s => ?_
  cases s.arguments.outputFile with
  | none =>
    exact steady_total (fun s => total_bind stops_pure fun _ => stops_pure) fun s hs =>
      (Prog.returns_true _).bind fun r _ => Prog.returns_pure (hK s r.2 hs)
  | some file =>
    refine steady_total (fun s => total_bind ?_ fun _ => stops_pure) fun s hs =>
      (Prog.returns_true _).bind fun r _ => Prog.returns_pure (hK s r.2 hs)
    refine total_bind stops_sys fun fileId => total_bind stops_sys fun mode => ?_
    exact Stops.ite (fun _ => stops_pure) fun _ =>
      Stops.ite (fun _ => stops_pure) fun _ => stops_pure

theorem steady_alloc {K : Locals → Prop} (hK : ∀ s buffer, K s → K { s with buffer }) :
    Steady fuel iterations K (exitOnFail leftToRight .alloc allocStep) := by
  refine steady_exitOnFail (fun s _ => ?_) fun s hs =>
    (Prog.returns_true _).bind fun r _ => Prog.returns_pure (hK s r.2 hs)
  exact ((allocAligned_stops _ _).mono fun t h => .inl h).bind hung_append fun _ => stops_pure

theorem total_runProgram (path arguments : Option String) (pid : Int32) :
    (runProgram path arguments pid).Stops fun _ => False := by
  have hspawn : ∀ path argv, (spawn path argv).Stops fun _ => False := fun path argv =>
    total_bind stops_sys fun _ => stops_pure
  rcases path with _ | path
  · exact stops_pure
  refine total_bind stops_sys fun attr => Stops.ite (fun _ => stops_pure) fun _ => ?_
  refine total_bind stops_sys fun actions => Stops.ite (fun _ => stops_pure) fun _ => ?_
  rcases arguments with _ | arguments
  · exact hspawn _ _
  · refine total_bind stops_sys fun p => total_bind stops_sys fun argv => ?_
    exact Stops.ite (fun _ => stops_pure) fun _ => hspawn _ _

theorem steady_startExternal :
    Steady fuel iterations (Locals.Iterates iterations) (startExternal leftToRight) := by
  refine steady_get.bind fun s => Steady.ite (steady_keeping fun s => total_focusCpuCore _ _)
    (Steady.ite ?_ (steady_pure _))
  exact steady_total (fun s => total_bind (total_runProgram _ _ _) fun _ => stops_pure) fun s hs =>
    (Prog.returns_true _).bind fun _ _ => Prog.returns_pure hs

theorem steady_setAlarm {K : Locals → Prop} : Steady fuel iterations K setAlarm :=
  steady_get.bind fun _ => Steady.ite (steady_sys fun _ => rfl) (steady_pure _)

/-- The only part in which the number of iterations matters. -/
theorem steady_profile : Steady fuel iterations (Locals.Iterates iterations)
    (exitOnFail leftToRight .profile (profileStep fuel)) := by
  refine steady_exitOnFail (fun s hs => ?_) fun s hs =>
    (Prog.returns_true _).bind fun _ _ => Prog.returns_pure hs
  refine ((profile_stops _ _ _ _ _ _).mono fun t h => ?_).bind hung_append fun _ => stops_pure
  exact .inr (.inr (hs ▸ h))

theorem steady_killExternal {K : Locals → Prop} : Steady fuel iterations K killExternal :=
  steady_get.bind fun _ => Steady.ite
    ((steady_sys fun _ => rfl).bind fun _ => steady_pure _) (steady_pure _)

/-- **The body of `main`** stops only where a run can. -/
theorem steady_mainBody : Cmd.Triple (fun s h => s.Iterates iterations ∧ Paused h)
    (mainBody leftToRight fuel) (fun _ _ h => Paused h) (Halted fuel iterations) := by
  refine Cmd.Triple.bind (steady_setUp leftToRight) fun _ => Cmd.Triple.bind steady_get fun s =>
    Cmd.Triple.ite (fun _ => Cmd.triple_pure fun _ _ h => h.2) fun _ => ?_
  refine Cmd.Triple.bind (steady_checkRights leftToRight) fun _ => ?_
  refine Cmd.Triple.bind (M := fun _ _ h => True ∧ Paused h) ?_ fun _ =>
    steady_killExternal.mono (fun _ _ h => h) (fun _ _ _ h => h.2) fun _ _ h => h
  have hweaken : ∀ {K : Locals → Prop} {m : Main Unit}, Steady fuel iterations K m →
      Cmd.Triple (fun s h => K s ∧ Paused h) m (fun _ _ h => True ∧ Paused h)
        (Halted fuel iterations) := fun hm =>
    hm.mono (fun _ _ h => h) (fun _ _ _ h => ⟨trivial, h.2⟩) fun _ _ h => h
  refine Cmd.Triple.bind steady_get fun s => Cmd.Triple.ite (fun _ => ?_) fun _ =>
    Cmd.Triple.ite (fun _ => ?_) fun _ => hweaken (steady_throw _)
  · exact (steady_benchMode leftToRight).mono (fun _ _ h => ⟨trivial, h.2⟩) (fun _ _ _ h => h)
      fun _ _ h => h
  · exact hweaken ((steady_openOutput leftToRight fun _ _ hs => hs).bind fun _ =>
      (steady_alloc leftToRight fun _ _ hs => hs).bind fun _ =>
        (steady_startExternal leftToRight).bind fun _ => steady_setAlarm.bind fun _ =>
          steady_profile leftToRight)

end

/-! ### Whole runs -/

theorem Paused.append {h t : List Event} (hh : Paused h) (ht : Paused t) : Paused (h ++ t) := by
  intro e he
  rw [List.getLast?_append] at he
  obtain hlast | ⟨-, hlast⟩ := Option.or_eq_some_iff.mp he
  · exact ht e hlast
  · exact hh e hlast

/-- A release that returns has read a size, or none at all. -/
theorem freeAligned_paused {buffer : Ptr} {cache : CacheInfo} {t : List Event} {res : ErrorT}
    (h : (freeAligned buffer cache).Run t (some res)) : Paused t := by
  obtain ⟨t₁, t₂, r, rfl, h₁, h₂⟩ | ⟨ho, -⟩ := run_bind.mp h
  swap
  · cases ho
  rcases r with err | size
  · -- `/proc/meminfo` can not be read
    obtain ⟨rfl, -⟩ := h₂
    obtain ⟨a, t₂, rfl, h₂⟩ := run_sys_bind.mp h₁
    rcases hsize : a.value with _ | size <;> rw [hsize] at h₂ <;> obtain ⟨rfl, ho⟩ := h₂
    · intro e he
      obtain rfl : (⟨_, a⟩ : Event) = e := by simpa using he
      rw [critical, hsize]
      rfl
    · cases ho
  · dsimp only at h₂
    rcases hlength : munmapLength size cache.totalSize with _ | length <;> rw [hlength] at h₂
    · cases h₂.2
    · obtain ⟨b, t₃, rfl, rfl, -⟩ := run_sys_bind.mp h₂
      exact paused_concat rfl

theorem finalize_stops (s : Locals) : (finalize s).Stops Endless := by
  have hD : ∀ u t : List Event, Endless t → Endless (u ++ t) := fun u t h => h.append u
  have hclose : (outputClose s.output).Stops Endless :=
    Stops.ite (fun _ => stops_sys.bind hD fun _ => stops_pure) fun _ => stops_pure
  refine hclose.bind hD fun _ => Stops.ite (fun _ => ?_) fun _ => stops_pure
  exact (freeAligned_stops _ _).bind hD fun _ => stops_pure

theorem finalize_paused {s : Locals} {t : List Event} (h : (finalize s).Run t (some ())) :
    Paused t := by
  have hpaused : Paused [] := fun e he => by simp at he
  obtain ⟨t₁, t₂, r, rfl, h₁, h₂⟩ | ⟨ho, -⟩ := run_bind.mp h
  swap
  · cases ho
  have hclose : Paused t₁ := fun e he => critical_of_kind (by
    rw [List.mem_singleton.mp (only_outputClose _ _ _ h₁ e (List.mem_of_getLast? he))]
    decide)
  refine hclose.append ?_
  split_ifs at h₂ with hbuffer
  · obtain ⟨t₃, t₄, res, rfl, h₃, rfl, -⟩ | ⟨ho, -⟩ := run_bind.mp h₂
    · rw [List.append_nil]
      exact freeAligned_paused h₃
    · cases ho
  · obtain ⟨rfl, -⟩ := h₂
    exact hpaused

/-- **A run of `main` does not return**, provided that its calls do, if and only if it has just read
a huge page size of 0, or is about to store a measurement without memory for it. -/
theorem main_hangs_iff {leftToRight : Bool} {fuel : ℕ} {arguments : Arguments} {garbage : Locals}
    {t : List Event} {o : Option ℤ} (h : (main leftToRight fuel arguments garbage).Run t o)
    (hfuel : t.countP readsUnset < fuel ∨
      (arguments.iter ≠ 0 ∧ arguments.iter.toUInt32.toNat < fuel)) :
    o = none ↔ Endless t ∨ Faulting t := by
  have hpaused : Paused [] := fun e he => by simp at he
  have huncut : ¬ Cut fuel arguments.iter.toUInt32 t := by
    rintro ⟨hpasses, hiter⟩
    obtain hlt | ⟨hne, hlt⟩ := hfuel
    · omega
    · obtain hzero | hle := hiter
      · exact hne (congrArg Int32.ofUInt32 hzero)
      · omega
  have hhung : Hung fuel arguments.iter.toUInt32 t → Endless t ∨ Faulting t := fun hung =>
    hung.imp_right fun hung => hung.resolve_right huncut
  have hsteady : Cmd.Triple _ _ _ (Halted fuel arguments.iter.toUInt32) :=
    steady_mainBody leftToRight
  have hbody := fun t₁ o' =>
    hsteady { garbage with arguments, buffer := .null } [] t₁ o' ⟨rfl, hpaused⟩
  rcases main_run leftToRight h with ⟨t₁, t₂, r, s, o', rfl, hr, h₁, h₂, rfl⟩ | ⟨s, h₁, rfl⟩ |
    ⟨h₁, rfl⟩
  · have hq := hbody t₁ _ h₁
    have hq' : Paused t₁ := by rcases r with _ | _ <;> exact hq
    rcases o' with _ | _
    · exact iff_of_true rfl (.inl ((finalize_stops s t₂ h₂).append t₁))
    · exact iff_of_false (Option.some_ne_none _) (hq'.append (finalize_paused h₂)).not_hung
  · exact iff_of_false (Option.some_ne_none _) (Paused.not_hung (hbody t _ h₁))
  · exact iff_of_true rfl (hhung (hbody t _ h₁))

/-- A machine without memory. -/
def noMemory (h : List Event) : (c : Call) → Answer c
  | .malloc => ⟨[], false⟩
  | c => goodMachine h c

/-- A run on this machine. -/
def withoutMemory : List Event × Option ℤ :=
  (main true 1 (defaultArguments "bench") zeroStack).exec noMemory []

/-- The mode `bench` ends in a fault. -/
theorem main_hangs_noMemory : withoutMemory.2 = none := by
  refine (main_hangs_iff (run_exec noMemory _ []) (.inl (by decide))).mpr (.inr ?_)
  exact ⟨withoutMemory.1.take 16, ⟨[], false⟩, ⟨[], 3⟩, ⟨[], 0⟩, ⟨[], 0⟩, rfl, rfl, rfl⟩

end CacheNoise
