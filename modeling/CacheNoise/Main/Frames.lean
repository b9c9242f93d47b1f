import CacheNoise.Main

/-!
# What each part of `main` touches

For every function and every part of `main`: the kinds of calls that it makes and the variables
that it leaves alone. The results about whole runs of `main` use these frames for all the
parts that have nothing to do with them.
-/

namespace CacheNoise

open Interaction

/-! ### Functions -/

section

variable {E : Event → Prop}

theorem only_getHugepagesize : Only [.memory] getHugepagesize :=
  (only_sys (by simp)).bind fun r => by cases r <;> exact only_pure _

theorem within_readPropPut {file : PropFile} (h : ∀ a, E ⟨.readProp file, a⟩) (e : ErrorT) :
    (readPropPut file e).Within E :=
  (within_sys h).bind fun r => by cases r <;> exact Prog.within_pure

theorem only_getCurrentCpuCore : Only [.setup] getCurrentCpuCore :=
  (only_sys (by simp)).bind fun _ => only_pure _

theorem within_canUseRdpmc (h : ∀ a, E ⟨.readProp .rdpmc, a⟩) : canUseRdpmc.Within E :=
  (within_readPropPut h _).bind fun r => by cases r <;> exact Prog.within_pure

theorem only_canUseRdpmc : Only [.setup] canUseRdpmc := within_canUseRdpmc fun _ => by simp

theorem only_hasRootAccess : Only [.setup] hasRootAccess :=
  (only_sys (by simp)).bind fun _ => only_pure _

theorem only_focusCpuCore (pid cpu : UInt32) : Only [.setup] (focusCpuCore pid cpu) :=
  (only_sys (by simp)).bind fun _ => only_pure _

theorem within_enableCpuCycleCounter {cpu : UInt32} (hopen : ∀ a, E ⟨.perfEventOpen cpu, a⟩)
    (hioctl : ∀ fd op a, E ⟨.ioctl fd op, a⟩) : (enableCpuCycleCounter cpu).Within E := by
  refine (within_sys hopen).bind fun fd => Prog.Within.ite Prog.within_pure ?_
  refine (within_sys (hioctl fd .reset)).bind fun reset => Prog.Within.ite Prog.within_pure ?_
  exact (within_sys (hioctl fd .enable)).bind fun _ => Prog.within_pure

theorem only_enableCpuCycleCounter (cpu : UInt32) :
    Only [.measure] (enableCpuCycleCounter cpu) :=
  within_enableCpuCycleCounter (fun _ => by simp) fun _ _ _ => by simp

theorem within_disableCpuCycleCounter {fd : UInt32} (h : ∀ a, E ⟨.ioctl fd .disable, a⟩) :
    (disableCpuCycleCounter fd).Within E :=
  (within_sys h).bind fun _ => Prog.within_pure

theorem only_disableCpuCycleCounter (fd : UInt32) :
    Only [.measure] (disableCpuCycleCounter fd) :=
  within_disableCpuCycleCounter fun _ => by simp

/-- What `run_program` calls. -/
theorem within_runProgram {path arguments : Option String} {pid : Int32}
    (hprocess : ∀ e : Event, e.1.kind = .process → E e) (hmalloc : ∀ a, E ⟨.malloc, a⟩) :
    (runProgram path arguments pid).Within E := by
  have hcall : ∀ c : Call, c.kind = .process → (sys c).Within E := fun c hc =>
    within_sys fun _ => hprocess _ hc
  have hspawn : ∀ path argv, (spawn path argv).Within E := fun path argv =>
    (hcall _ rfl).bind fun _ => Prog.within_pure
  cases path with
  | none => exact Prog.within_pure
  | some path =>
    refine (hcall _ rfl).bind fun attr => Prog.Within.ite Prog.within_pure ?_
    refine (hcall _ rfl).bind fun actions => Prog.Within.ite Prog.within_pure ?_
    cases arguments with
    | none => exact hspawn _ _
    | some arguments =>
      refine (hcall _ rfl).bind fun p => ?_
      refine (within_sys hmalloc).bind fun argv => Prog.Within.ite Prog.within_pure ?_
      exact hspawn _ _

theorem only_runProgram (path arguments : Option String) (pid : Int32) :
    Only [.setup, .process] (runProgram path arguments pid) :=
  within_runProgram (fun e he => by rw [he]; simp) fun _ => by simp

theorem only_outputClose (output : OutputT) : Only [.closing] (outputClose output) :=
  Only.ite ((only_sys (by simp)).bind fun _ => only_pure _) (only_pure _)

theorem only_outputcHd5File (output : OutputT) (file : String) :
    Only [.opening] (outputcHd5File output file) := by
  refine (only_sys (by simp)).bind fun fileId => ?_
  refine (only_sys (by simp)).bind fun mode => ?_
  exact Only.ite (only_pure _) (Only.ite (only_pure _) (only_pure _))

/-- The calls of the loop of `profile`. -/
def Call.inProfileLoop : Call → Bool
  | .terminated | .prime .. | .schedYield | .probe .. | .ioctl .. => true
  | .h5Dcreate .. | .h5Dwrite .. | .h5Dclose _ | .fprintf .. => true
  | _ => false

theorem within_fprintfAll {stream : Stream} (h : ∀ text a, E ⟨.fprintf stream text, a⟩)
    (texts : List String) : (fprintfAll stream texts).Within E := by
  induction texts with
  | nil => exact Prog.within_pure
  | cons text texts ih =>
    exact (within_sys (h text)).bind fun _ => Prog.Within.ite Prog.within_pure ih

theorem only_fprintfAll (stream : Stream) (texts : List String) :
    Only [.print] (fprintfAll stream texts) :=
  within_fprintfAll (fun _ _ => by simp) texts

theorem within_outputwMatUi32 (output : OutputT) (data : UInt64 → UInt32) (dimX dimY : UInt64) :
    (outputwMatUi32 output data dimX dimY).Within fun e => e.1.inProfileLoop = true := by
  refine Prog.Within.ite ((within_fprintfAll (fun _ _ => rfl) _).bind fun _ => Prog.within_pure)
    (Prog.Within.ite ?_ Prog.within_pure)
  refine (within_sys fun _ => rfl).bind fun dataset => Prog.Within.ite Prog.within_pure ?_
  refine (within_sys fun _ => rfl).bind fun status => Prog.Within.ite Prog.within_pure ?_
  exact (within_sys fun _ => rfl).bind fun _ => Prog.within_pure

theorem within_profileLoop (cache : CacheInfo) (iterations : UInt32) (buffer : Ptr) (fd : UInt32)
    (fuel : ℕ) (j : UInt32) (output : OutputT) :
    (profileLoop cache iterations buffer fd fuel j output).Within
      fun e => e.1.inProfileLoop = true := by
  induction fuel generalizing j output with
  | zero => exact Prog.within_stuck
  | succ fuel ih =>
    have hdone : (do
        let res ← disableCpuCycleCounter fd
        pure (res, output) : Proc (ErrorT × OutputT)).Within
          fun e => e.1.inProfileLoop = true :=
      (within_disableCpuCycleCounter fun _ => rfl).bind fun _ => Prog.within_pure
    refine Prog.Within.ite ?_ hdone
    refine (within_sys fun _ => rfl).bind fun terminated => Prog.Within.ite hdone ?_
    refine (within_sys fun _ => rfl).bind fun _ => ?_
    refine (within_sys fun _ => rfl).bind fun _ => ?_
    refine (within_sys fun _ => rfl).bind fun result => ?_
    exact (within_outputwMatUi32 _ _ _ _).bind fun _ =>
      Prog.Within.ite Prog.within_pure (ih _ _)

/-- What `profile` calls: the counter is opened on `cpu`. -/
theorem within_profile {fuel : ℕ} {cache : CacheInfo} {cpu iterations : UInt32} {buffer : Ptr}
    {output : OutputT} (hopen : ∀ a, E ⟨.perfEventOpen cpu, a⟩)
    (hloop : ∀ e : Event, e.1.inProfileLoop = true → E e) :
    (profile fuel cache cpu iterations buffer output).Within E := by
  refine (within_enableCpuCycleCounter hopen fun _ _ _ => hloop _ rfl).bind fun r => ?_
  cases r with
  | error res => exact Prog.within_pure
  | ok fd => exact (within_profileLoop _ _ _ _ _ _ _).mono hloop

theorem inProfileLoop_kind {e : Event} (h : e.1.inProfileLoop = true) :
    e.1.kind ∈ [Kind.measure, .dataset, .closing, .print] := by
  obtain ⟨c, a⟩ := e
  cases c <;> first | exact absurd h Bool.false_ne_true | simp

theorem only_profile (fuel : ℕ) (cache : CacheInfo) (cpu iterations : UInt32) (buffer : Ptr)
    (output : OutputT) :
    Only [.measure, .dataset, .closing, .print]
      (profile fuel cache cpu iterations buffer output) :=
  within_profile (fun _ => by simp) fun _ => inProfileLoop_kind

/-- What `benchmark` calls: the counter is opened on core 0. -/
theorem within_benchmark {iterations : UInt64} (hmalloc : ∀ a, E ⟨.malloc, a⟩)
    (hopen : ∀ a, E ⟨.perfEventOpen 0, a⟩) (hioctl : ∀ fd op a, E ⟨.ioctl fd op, a⟩)
    (hloop : ∀ a, E ⟨.benchLoop iterations, a⟩) : (benchmark iterations).Within E := by
  refine (within_sys hmalloc).bind fun allocated => ?_
  refine (within_enableCpuCycleCounter hopen hioctl).bind fun r => ?_
  cases r with
  | error res => exact Prog.within_pure
  | ok fd =>
    refine Prog.Within.ite Prog.within_stuck ?_
    refine (within_sys hloop).bind fun _ => ?_
    exact within_disableCpuCycleCounter fun _ => hioctl _ _ _

theorem only_benchmark (iterations : UInt64) : Only [.setup, .measure] (benchmark iterations) :=
  within_benchmark (fun _ => by simp) (fun _ => by simp) (fun _ _ _ => by simp)
    fun _ => by simp

theorem only_freeAligned (buffer : Ptr) (cache : CacheInfo) :
    Only [.memory] (freeAligned buffer cache) := by
  refine only_getHugepagesize.bind fun r => ?_
  cases r with
  | error res => exact only_pure _
  | ok hugepagesize =>
    dsimp only
    cases munmapLength hugepagesize cache.totalSize with
    | none => exact Prog.within_stuck
    | some length => exact (only_sys (by simp)).bind fun _ => only_pure _

theorem only_searchAligned (cache : CacheInfo) (hugepagesize : UInt64) (n : ℕ) (s : Search) :
    Only [.memory] (searchAligned cache hugepagesize n s) := by
  induction n generalizing s with
  | zero => exact only_pure _
  | succ n ih =>
    refine (only_sys (by simp)).bind fun r => ?_
    cases r with
    | none => exact only_pure _
    | some address =>
      exact (only_sys (by simp)).bind fun _ => Only.ite (ih _) (only_pure _)

theorem only_releaseAll (cache : CacheInfo) (buffers : List Ptr) (err : ErrorT) :
    Only [.memory] (releaseAll cache buffers err) := by
  induction buffers generalizing err with
  | nil => exact only_pure _
  | cons buffer buffers ih => exact (only_freeAligned _ _).bind fun _ => ih _

/-- What `alloc_aligned` calls. -/
theorem within_allocAligned {cache : CacheInfo} {buffer : Ptr}
    (hprop : ∀ a, E ⟨.readProp .nrHugepages, a⟩) (hmalloc : ∀ a, E ⟨.malloc, a⟩)
    (hmemory : ∀ e : Event, e.1.kind = .memory → E e) :
    (allocAligned cache buffer).Within E := by
  have honly : ∀ {α : Type} {p : Proc α}, Only [.memory] p → p.Within E := fun hp =>
    Prog.Within.mono hp fun e he => hmemory e (List.mem_singleton.mp he)
  refine (within_readPropPut hprop _).bind fun r => ?_
  cases r with
  | error res => exact Prog.within_pure
  | ok maxTries =>
    refine Prog.Within.ite Prog.within_pure ?_
    refine (honly only_getHugepagesize).bind fun r => ?_
    cases r with
    | error res => exact Prog.within_pure
    | ok hugepagesize =>
      refine (within_sys hmalloc).bind fun allocated => Prog.Within.ite Prog.within_pure ?_
      refine (honly (only_searchAligned _ _ _ _)).bind fun s => ?_
      refine (honly (only_releaseAll _ _ _)).bind fun err => ?_
      refine Prog.Within.ite Prog.within_pure (Prog.Within.ite ?_ Prog.within_pure)
      exact (honly (only_freeAligned _ _)).bind fun _ => Prog.within_pure

theorem only_allocAligned (cache : CacheInfo) (buffer : Ptr) :
    Only [.setup, .memory] (allocAligned cache buffer) :=
  within_allocAligned (fun _ => by simp) (fun _ => by simp) fun e he => by rw [he]; simp

theorem only_finalize (s : Locals) : Only [.closing, .memory] (finalize s) := by
  refine ((only_outputClose _).mono (by simp)).bind fun _ => ?_
  exact Only.ite (((only_freeAligned _ _).mono (by simp)).bind fun _ => only_pure _) (only_pure _)

end

/-! ### Steps -/

/-- The marks of a step. -/
def Call.marks (step : Step) : Call → Bool
  | .enter step' | .leave step' _ | .report step' _ _ => step' == step
  | _ => false

theorem kind_of_marks {step : Step} {e : Event} (h : e.1.marks step = true) :
    e.1.kind = .step := by
  obtain ⟨c, a⟩ := e
  cases c <;> first | rfl | exact absurd h Bool.false_ne_true

/-- The calls of the kinds `K`, and the marks of the steps `S`. -/
def Among (K : List Kind) (S : List Step) (e : Event) : Prop :=
  e.1.kind ∈ K ∨ ∃ step ∈ S, e.1.marks step = true

theorem Among.kind {K K' : List Kind} {S : List Step} {e : Event} (h : Among K S e)
    (hK : K ⊆ K') (hstep : Kind.step ∈ K') : e.1.kind ∈ K' := by
  rcases h with h | ⟨step, -, h⟩
  · exact hK h
  · rwa [kind_of_marks h]

section

variable {κ : Type} {K : List Kind} {S : List Step} {f : Locals → κ}

/-- A step whose body has events of the class `E` and keeps `f` does so under `EXIT_ON_FAIL`
too. -/
theorem frame_exitOnFail_marks {E : Event → Prop} (leftToRight : Bool) {step : Step}
    {body : Locals → Proc (ErrorT × Locals)}
    (hmark : ∀ e : Event, e.1.marks step = true → E e)
    (hbody : ∀ s, (body s).Within E) (hf : ∀ s, (body s).Returns fun x => f x.2 = f s) :
    Cmd.Frame E f (exitOnFail leftToRight step body) := by
  have hsys : ∀ c : Call, c.marks step = true → (sys c).Within E := fun c hc =>
    within_sys fun _ => hmark _ hc
  have hexec : Cmd.Frame E f (execute step body) := by
    refine Cmd.frame_liftState (fun s => ?_) fun s => ?_
    · refine (hsys _ (by simp [Call.marks])).bind fun _ => (hbody s).bind fun _ => ?_
      exact (hsys _ (by simp [Call.marks])).bind fun _ => Prog.within_pure
    · refine (Prog.returns_true _).bind fun _ _ => (hf s).bind fun x hx => ?_
      exact (Prog.returns_true _).bind fun _ _ => Prog.returns_pure hx
  have hreport : ∀ a b, Cmd.Frame E f (Cmd.lift (sys (.report step a b)) : Main Unit) :=
    fun a b => Cmd.frame_lift (hsys _ (by simp [Call.marks]))
  refine hexec.bind fun res => Cmd.Frame.ite ?_ Cmd.frame_pure
  refine hexec.bind fun first => hexec.bind fun second => ?_
  exact (hreport _ _).bind fun _ => Cmd.frame_throw

/-- The same where the class has all marks. -/
theorem frame_exitOnFail_within {E : Event → Prop} (leftToRight : Bool) (step : Step)
    {body : Locals → Proc (ErrorT × Locals)} (hmark : ∀ e : Event, e.1.kind = .step → E e)
    (hbody : ∀ s, (body s).Within E) (hf : ∀ s, (body s).Returns fun x => f x.2 = f s) :
    Cmd.Frame E f (exitOnFail leftToRight step body) :=
  frame_exitOnFail_marks leftToRight (fun e he => hmark e (kind_of_marks he)) hbody hf

/-- The same for the calls of some kinds. -/
theorem frame_exitOnFail_among (leftToRight : Bool) {step : Step}
    {body : Locals → Proc (ErrorT × Locals)} (hstep : step ∈ S) (hbody : ∀ s, Only K (body s))
    (hf : ∀ s, (body s).Returns fun x => f x.2 = f s) :
    Cmd.Frame (Among K S) f (exitOnFail leftToRight step body) :=
  frame_exitOnFail_marks leftToRight (fun _ he => .inr ⟨step, hstep, he⟩)
    (fun s => Prog.Within.mono (hbody s) fun _ he => .inl he) hf

theorem frame_exitOnFail (leftToRight : Bool) (step : Step)
    {body : Locals → Proc (ErrorT × Locals)} (hstep : Kind.step ∈ K)
    (hbody : ∀ s, Only K (body s)) (hf : ∀ s, (body s).Returns fun x => f x.2 = f s) :
    Cmd.Frame (fun e => e.1.kind ∈ K) f (exitOnFail leftToRight step body) :=
  frame_exitOnFail_within leftToRight step (fun e he => by rwa [he]) hbody hf

/-- A step that leaves the variables alone keeps all of them. -/
theorem returns_keeping {p : Locals → Proc ErrorT} (s : Locals) :
    (keeping p s).Returns fun x => f x.2 = f s :=
  (Prog.returns_true _).bind fun _ _ => Prog.returns_pure rfl

theorem only_keeping {p : Locals → Proc ErrorT} (hp : ∀ s, Only K (p s)) (s : Locals) :
    Only K (keeping p s) := (hp s).bind fun _ => only_pure _

theorem frame_keeping (leftToRight : Bool) (step : Step) {p : Locals → Proc ErrorT}
    (hstep : Kind.step ∈ K) (hp : ∀ s, Only K (p s)) :
    Cmd.Frame (fun e => e.1.kind ∈ K) f (exitOnFail leftToRight step (keeping p)) :=
  frame_exitOnFail leftToRight step hstep (only_keeping hp) returns_keeping

theorem frame_failIf {E : Event → Prop} (condition : Bool) :
    Cmd.Frame E f (failIf condition) := by
  rw [failIf]
  exact Cmd.Frame.ite Cmd.frame_throw Cmd.frame_pure

theorem frame_lift_sys {c : Call} (h : c.kind ∈ K) :
    Cmd.Frame (fun e => e.1.kind ∈ K) f (Cmd.lift (sys c) : Main c.Value) :=
  Cmd.frame_lift (only_sys h)

theorem frame_installHandlers_within {E : Event → Prop} (hsignal : ∀ signo a, E ⟨.signal signo, a⟩)
    (hchild : ∀ a, E ⟨.sigactionChild, a⟩) : Cmd.Frame E f installHandlers := by
  have hset : ∀ signo, Cmd.Frame E f (Cmd.lift (sys (.signal signo)) : Main Bool) :=
    fun signo => Cmd.frame_lift (within_sys (hsignal signo))
  refine (hset _).bind fun _ => (frame_failIf _).bind fun _ => ?_
  refine (hset _).bind fun _ => (frame_failIf _).bind fun _ => ?_
  refine (hset _).bind fun _ => (frame_failIf _).bind fun _ => ?_
  exact (Cmd.frame_lift (within_sys hchild)).bind fun _ => frame_failIf _

theorem frame_installHandlers (hK : Kind.setup ∈ K) :
    Cmd.Frame (fun e => e.1.kind ∈ K) f installHandlers :=
  frame_installHandlers_within (fun _ _ => hK) fun _ => hK

end

/-! ### The parts of `main` -/

section

variable (leftToRight : Bool)

/-- The variables that setting up and the mode `bench` leave alone. -/
def Locals.setting (s : Locals) : OutputT × Ptr × Arguments :=
  (s.output, s.buffer, { s.arguments with cpu := 0, iter := 0 })

theorem frame_setUp_among :
    Cmd.Frame (Among [.setup] [.focusThis, .currentCore, .cacheInfo]) Locals.setting
      (setUp leftToRight) := by
  refine (Cmd.frame_lift (within_sys fun _ => .inl (by simp))).bind fun thisPid => ?_
  refine (frame_failIf _).bind fun _ => ?_
  refine (frame_installHandlers_within (fun _ _ => .inl (by simp))
    fun _ => .inl (by simp)).bind fun _ => ?_
  refine Cmd.Frame.bind ?_ fun _ => frame_exitOnFail_among _ (by simp) (fun s => ?_) fun s => ?_
  · refine Cmd.frame_get.bind fun s => Cmd.Frame.ite ?_ (Cmd.Frame.bind ?_ fun _ => ?_)
    · exact frame_exitOnFail_among _ (by simp) (only_keeping fun s => only_focusCpuCore _ _)
        returns_keeping
    · refine frame_exitOnFail_among _ (by simp) (fun s => ?_) fun s => ?_
      · refine only_getCurrentCpuCore.bind fun r => ?_
        cases r <;> exact only_pure _
      · refine (Prog.returns_true _).bind fun r _ => ?_
        cases r <;> exact Prog.returns_pure rfl
    · exact Cmd.frame_modify fun s => rfl
  · exact (only_sys (by simp)).bind fun _ => only_pure _
  · exact (Prog.returns_true _).bind fun _ _ => Prog.returns_pure rfl

theorem frame_setUp :
    Cmd.Frame (fun e => e.1.kind ∈ [.setup, .step]) Locals.setting (setUp leftToRight) :=
  (frame_setUp_among leftToRight).mono (fun _ he => he.kind (by simp) (by simp)) id

theorem frame_checkRights_among :
    Cmd.Frame (Among [.setup] [.rdpmc]) id (checkRights leftToRight) := by
  refine (Cmd.frame_lift (Prog.Within.mono only_hasRootAccess fun _ he => .inl he)).bind
    fun root => ?_
  exact (frame_failIf _).bind fun _ =>
    frame_exitOnFail_among _ (by simp) (only_keeping fun s => only_canUseRdpmc) returns_keeping

theorem frame_checkRights :
    Cmd.Frame (fun e => e.1.kind ∈ [.setup, .step]) id (checkRights leftToRight) :=
  (frame_checkRights_among leftToRight).mono (fun _ he => he.kind (by simp) (by simp)) id

theorem frame_benchMode_among :
    Cmd.Frame (Among [.setup, .measure] [.benchmark]) Locals.setting (benchMode leftToRight) := by
  refine (Cmd.frame_modify fun s => ?_).bind fun _ =>
    frame_exitOnFail_among _ (by simp) (only_keeping fun s => only_benchmark _) returns_keeping
  split <;> rfl

theorem frame_benchMode :
    Cmd.Frame (fun e => e.1.kind ∈ [.setup, .measure, .step]) Locals.setting
      (benchMode leftToRight) :=
  (frame_benchMode_among leftToRight).mono (fun _ he => he.kind (by simp) (by simp)) id

theorem frame_openOutput :
    Cmd.Frame (fun e => e.1.kind ∈ [.opening, .step])
      (fun s => (s.buffer, s.arguments, s.cache)) (openOutput leftToRight) := by
  refine Cmd.frame_get.bind fun s => ?_
  cases s.arguments.outputFile with
  | none =>
    refine frame_exitOnFail _ _ (by simp) (fun s => ?_) fun s => ?_
    · exact (only_pure _).bind fun _ => only_pure _
    · exact (Prog.returns_true _).bind fun _ _ => Prog.returns_pure rfl
  | some file =>
    refine frame_exitOnFail _ _ (by simp) (fun s => ?_) fun s => ?_
    · exact ((only_outputcHd5File _ _).mono (by simp)).bind fun _ => only_pure _
    · exact (Prog.returns_true _).bind fun _ _ => Prog.returns_pure rfl

theorem frame_alloc_among :
    Cmd.Frame (Among [.setup, .memory] [.alloc]) (fun s => (s.output, s.arguments, s.cache))
      (exitOnFail leftToRight .alloc allocStep) := by
  refine frame_exitOnFail_among _ (by simp) (fun s => ?_) fun s => ?_
  · exact (only_allocAligned _ _).bind fun _ => only_pure _
  · exact (Prog.returns_true _).bind fun _ _ => Prog.returns_pure rfl

theorem frame_alloc :
    Cmd.Frame (fun e => e.1.kind ∈ [.setup, .memory, .step])
      (fun s => (s.output, s.arguments, s.cache)) (exitOnFail leftToRight .alloc allocStep) :=
  (frame_alloc_among leftToRight).mono (fun _ he => he.kind (by simp) (by simp)) id

/-- The variables that the start of the external program leaves alone. -/
def Locals.exceptPid (s : Locals) : Locals := { s with arguments.pid := 0 }

theorem frame_startExternal_among :
    Cmd.Frame (Among [.setup, .process] [.focusGiven, .program]) Locals.exceptPid
      (startExternal leftToRight) := by
  refine Cmd.frame_get.bind fun s => Cmd.Frame.ite ?_ (Cmd.Frame.ite ?_ Cmd.frame_pure)
  · exact frame_exitOnFail_among _ (by simp)
      (only_keeping fun s => (only_focusCpuCore _ _).mono (by simp)) returns_keeping
  · refine frame_exitOnFail_among _ (by simp) (fun s => ?_) fun s => ?_
    · exact (only_runProgram _ _ _).bind fun _ => only_pure _
    · exact (Prog.returns_true _).bind fun _ _ => Prog.returns_pure rfl

theorem frame_startExternal :
    Cmd.Frame (fun e => e.1.kind ∈ [.setup, .process, .step]) Locals.exceptPid
      (startExternal leftToRight) :=
  (frame_startExternal_among leftToRight).mono (fun _ he => he.kind (by simp) (by simp)) id

/-- Moving the given process to the core leaves the variables alone. -/
theorem frame_focusGiven :
    Cmd.Frame (fun e => e.1.kind ∈ [.setup, .step]) id
      (exitOnFail leftToRight .focusGiven (keeping fun s =>
        focusCpuCore s.arguments.pid.toUInt32 s.arguments.cpu.toUInt32)) :=
  frame_keeping _ _ (by simp) fun _ => (only_focusCpuCore _ _).mono (by simp)

theorem frame_setAlarm : Cmd.Frame (fun e => e.1.kind ∈ [.setup]) id setAlarm :=
  Cmd.frame_get.bind fun _ =>
    Cmd.Frame.ite (frame_lift_sys (by simp)) Cmd.frame_pure

theorem frame_profile (fuel : ℕ) :
    Cmd.Frame (fun e => e.1.kind ∈ [.measure, .dataset, .closing, .print, .step])
      (fun s => (s.buffer, s.arguments, s.cache))
      (exitOnFail leftToRight .profile (profileStep fuel)) := by
  refine frame_exitOnFail _ _ (by simp) (fun s => ?_) fun s => ?_
  · exact ((only_profile _ _ _ _ _ _).mono (by simp)).bind fun _ => only_pure _
  · exact (Prog.returns_true _).bind fun _ _ => Prog.returns_pure rfl

theorem frame_killExternal : Cmd.Frame (fun e => e.1.kind ∈ [.kill]) id killExternal :=
  Cmd.frame_get.bind fun _ => Cmd.Frame.ite
    ((frame_lift_sys (by simp)).bind fun _ => Cmd.frame_pure) Cmd.frame_pure

end

end CacheNoise
