import CacheNoise.Main.Steps

/-!
# The output that `main` closes

`FINALIZE` closes the variable `output`, which is not initialised before the output is opened:
`main` gets there also in the modes that open none, and from the steps before and at the opening.
`outputc_hd5_file` forgets the handle of a file whose `chmod` fails, and `EXIT_ON_FAIL` evaluates it
twice more then, so that files can be created whose handles are never closed.

A run treats its output as it should if and only if it leaves by `exit(EXIT_FAILURE)`, or opens
the standard output, or creates exactly one file and hands it out (`outputsWell_iff_oneOutput`).
-/

namespace CacheNoise

open Interaction

/-! ### What a run shows of outputs -/

/-- The successful calls of `outputc_stdout` and `outputc_hd5_file`, by their steps. -/
def outputs (t : List Event) : List Step :=
  t.filterMap fun
    | ⟨.leave .outputStdout res, _⟩ => if res = errorNone then some .outputStdout else none
    | ⟨.leave .outputFile res, _⟩ => if res = errorNone then some .outputFile else none
    | _ => none

/-- The files that are created, by their handles. -/
def created (t : List Event) : List ℤ :=
  t.filterMap fun
    | ⟨.h5Fcreate _, a⟩ => if a.value = -1 then none else some a.value
    | _ => none

/-- The files that are closed, by their handles. -/
def closed (t : List Event) : List ℤ :=
  t.filterMap fun
    | ⟨.h5Fclose file, _⟩ => some file
    | _ => none

theorem outputs_append (t u : List Event) : outputs (t ++ u) = outputs t ++ outputs u :=
  List.filterMap_append

theorem created_append (t u : List Event) : created (t ++ u) = created t ++ created u :=
  List.filterMap_append

theorem closed_append (t u : List Event) : closed (t ++ u) = closed t ++ closed u :=
  List.filterMap_append

/-- Every file that is created is closed exactly once. -/
def ClosedOnce (t : List Event) : Prop := ∀ f ∈ created t, (closed t).count f = (created t).count f

/-- The output is opened once: to the standard output, or as a file, the only one created. -/
def OneOutput (t : List Event) : Prop :=
  .outputStdout ∈ outputs t ∨ (.outputFile ∈ outputs t ∧ (created t).length = 1)

instance (t : List Event) : Decidable (ClosedOnce t) :=
  inferInstanceAs (Decidable (∀ f ∈ created t, (closed t).count f = (created t).count f))

instance (t : List Event) : Decidable (OneOutput t) :=
  inferInstanceAs (Decidable (.outputStdout ∈ outputs t ∨
    (.outputFile ∈ outputs t ∧ (created t).length = 1)))

theorem OneOutput.outputs_ne_nil {t : List Event} (h : OneOutput t) : outputs t ≠ [] :=
  h.elim List.ne_nil_of_mem fun h => List.ne_nil_of_mem h.1

/-! ### Events -/

/-- The calls that have to do with the output, apart from writing to it. -/
def Call.handlesOutput : Call → Bool
  | .h5Fcreate _ | .h5Fclose _ => true
  | .leave step _ => step == .outputStdout || step == .outputFile
  | _ => false

/-- The events that show nothing of the output. -/
structure Plain (t : List Event) : Prop where
  outputs_nil : outputs t = []
  created_nil : created t = []
  closed_nil : closed t = []

theorem plain_of_handlesOutput {t : List Event} (h : ∀ e ∈ t, e.1.handlesOutput = false) :
    Plain t := by
  refine ⟨?_, ?_, ?_⟩ <;>
  · refine List.filterMap_eq_nil_iff.mpr fun ⟨c, a⟩ he => ?_
    have hc := h _ he
    cases c with
    | leave step res => cases step <;> first | rfl | exact absurd hc (by simp [Call.handlesOutput])
    | _ => first | rfl | exact absurd hc (by simp [Call.handlesOutput])

theorem handlesOutput_of_kind {e : Event} {K : List Kind} (he : e.1.kind ∈ K)
    (hK : Kind.opening ∉ K ∧ Kind.closing ∉ K ∧ Kind.step ∉ K) : e.1.handlesOutput = false := by
  obtain ⟨c, a⟩ := e
  cases c <;> first
    | rfl
    | exact absurd he hK.1
    | exact absurd he hK.2.1
    | exact absurd he hK.2.2

theorem handlesOutput_of_marks {e : Event} {step : Step} (he : e.1.marks step = true)
    (hstep : step ≠ .outputStdout ∧ step ≠ .outputFile) : e.1.handlesOutput = false := by
  obtain ⟨c, a⟩ := e
  cases c with
  | leave step' res =>
    obtain rfl : step' = step := by simpa [Call.marks] using he
    simp [Call.handlesOutput, hstep]
  | _ => first | rfl | exact absurd he Bool.false_ne_true

theorem handlesOutput_of_among {e : Event} {K : List Kind} {S : List Step} (he : Among K S e)
    (hK : Kind.opening ∉ K ∧ Kind.closing ∉ K ∧ Kind.step ∉ K)
    (hS : .outputStdout ∉ S ∧ .outputFile ∉ S) : e.1.handlesOutput = false := by
  rcases he with he | ⟨step, hstep, he⟩
  · exact handlesOutput_of_kind he hK
  · exact handlesOutput_of_marks he
      ⟨ne_of_mem_of_not_mem hstep hS.1, ne_of_mem_of_not_mem hstep hS.2⟩

theorem handlesOutput_of_inProfileLoop {e : Event} (he : e.1.inProfileLoop = true) :
    e.1.handlesOutput = false := by
  obtain ⟨c, a⟩ := e
  cases c <;> first | rfl | exact absurd he Bool.false_ne_true

/-! ### The output of `profile` -/

/-- What closing the output depends on. -/
def OutputT.target (output : OutputT) : UInt8 × ℤ := (output.type, output.h5)

theorem returns_outputwMatUi32 (output : OutputT) (data : UInt64 → UInt32) (dimX dimY : UInt64) :
    (outputwMatUi32 output data dimX dimY).Returns fun r => r.2.target = output.target := by
  refine Prog.Returns.ite ((Prog.returns_true _).bind fun _ _ => Prog.returns_pure rfl)
    (Prog.Returns.ite ?_ (Prog.returns_pure rfl))
  refine (Prog.returns_true _).bind fun dataset _ => Prog.Returns.ite (Prog.returns_pure rfl) ?_
  refine (Prog.returns_true _).bind fun status _ => Prog.Returns.ite (Prog.returns_pure rfl) ?_
  exact (Prog.returns_true _).bind fun _ _ => Prog.returns_pure rfl

theorem returns_profileLoop (cache : CacheInfo) (iterations : UInt32) (buffer : Ptr) (fd : UInt32)
    (fuel : ℕ) (j : UInt32) (output : OutputT) :
    (profileLoop cache iterations buffer fd fuel j output).Returns
      fun r => r.2.target = output.target := by
  induction fuel generalizing j output with
  | zero => exact Prog.returns_stuck
  | succ fuel ih =>
    have hdone : (do
        let res ← disableCpuCycleCounter fd
        pure (res, output) : Proc (ErrorT × OutputT)).Returns
          fun r => r.2.target = output.target :=
      (Prog.returns_true _).bind fun _ _ => Prog.returns_pure rfl
    refine Prog.Returns.ite ?_ hdone
    refine (Prog.returns_true _).bind fun terminated _ => Prog.Returns.ite hdone ?_
    refine (Prog.returns_true _).bind fun _ _ => (Prog.returns_true _).bind fun _ _ => ?_
    refine (Prog.returns_true _).bind fun result _ => ?_
    refine (returns_outputwMatUi32 _ _ _ _).bind fun r hr => ?_
    refine Prog.Returns.ite (Prog.returns_pure hr) ?_
    intro t a hrun
    exact (ih _ _ t a hrun).trans hr

theorem returns_profile (fuel : ℕ) (cache : CacheInfo) (cpu iterations : UInt32) (buffer : Ptr)
    (output : OutputT) :
    (profile fuel cache cpu iterations buffer output).Returns
      fun r => r.2.target = output.target := by
  refine (Prog.returns_true _).bind fun r _ => ?_
  cases r with
  | error res => exact Prog.returns_pure rfl
  | ok fd => exact returns_profileLoop _ _ _ _ _ _ _

/-! ### The invariant -/

/-- Nothing has happened to the output. -/
structure Unopened (buffer : Ptr) (h : List Event) : Prop where
  buffer_null : buffer = .null
  plain : Plain h

/-- What is known of an opened output: it is the standard output, or the only file that was
created. -/
inductive HasOutput (target : UInt8 × ℤ) (h : List Event) : Prop
  | stdout (houtputs : .outputStdout ∈ outputs h) (hcreated : created h = [])
  | file (houtputs : outputs h = [.outputFile]) (htype : target.1 = outputHd5File)
      (hcreated : created h = [target.2])

/-- What is known at `FINALIZE`: the output was not opened, or it was; or it was opened by an
evaluation of the step after a failed one. -/
inductive Leaves (s : Locals) (h : List Event) : Prop
  | unopened (houtputs : outputs h = [])
  | opened (houtput : HasOutput s.output.target h)
  | again (hfile : .outputFile ∈ outputs h) (hstdout : .outputStdout ∉ outputs h)
      (htype : s.output.type = outputHd5File) (hcreated : s.output.h5 ∈ created h)
      (hbuffer : s.buffer = .null)

/-- The same at every exit. Nothing has been closed. -/
def LeavesOutput : Option (Exit × Locals) → List Event → Prop
  | some (.failure, _), h => created h = []
  | some (.finalize, s), h => closed h = [] ∧ Leaves s h
  | none, _ => True

theorem Plain.append {h u : List Event} (hh : Plain h) (hu : Plain u) : Plain (h ++ u) := by
  refine ⟨?_, ?_, ?_⟩
  · rw [outputs_append, hh.outputs_nil, hu.outputs_nil, List.append_nil]
  · rw [created_append, hh.created_nil, hu.created_nil, List.append_nil]
  · rw [closed_append, hh.closed_nil, hu.closed_nil, List.append_nil]

theorem HasOutput.append {target : UInt8 × ℤ} {h u : List Event} (hh : HasOutput target h)
    (hu : Plain u) : HasOutput target (h ++ u) := by
  have houtputs : outputs (h ++ u) = outputs h := by
    rw [outputs_append, hu.outputs_nil, List.append_nil]
  have hcreated : created (h ++ u) = created h := by
    rw [created_append, hu.created_nil, List.append_nil]
  cases hh with
  | stdout h₁ h₂ => exact .stdout (houtputs ▸ h₁) (hcreated ▸ h₂)
  | file h₁ h₂ h₃ => exact .file (houtputs ▸ h₁) h₂ (hcreated ▸ h₃)

theorem Leaves.append {s : Locals} {h u : List Event} (hh : Leaves s h) (hu : Plain u) :
    Leaves s (h ++ u) := by
  have houtputs : outputs (h ++ u) = outputs h := by
    rw [outputs_append, hu.outputs_nil, List.append_nil]
  cases hh with
  | unopened h₁ => exact .unopened (houtputs.trans h₁)
  | opened h₁ => exact .opened (h₁.append hu)
  | again h₁ h₂ h₃ h₄ h₅ =>
    refine .again (houtputs ▸ h₁) (houtputs ▸ h₂) h₃ ?_ h₅
    rw [created_append]
    exact List.mem_append_left _ h₄

/-! ### The parts of `main` -/

section

/-- An event of no concern. -/
abbrev Quiet (e : Event) : Prop := e.1.handlesOutput = false

/-- The parts of `main` before the output is opened. -/
theorem triple_unopened {α κ : Type} {f : Locals → κ} {m : Main α} (hm : Cmd.Frame Quiet f m)
    (g : κ → Ptr) (hg : ∀ s, g (f s) = s.buffer) :
    Cmd.Triple (fun s h => Unopened s.buffer h) m (fun _ s h => Unopened s.buffer h)
      LeavesOutput := by
  have htriple := (hm.mono (fun _ h => h) g).triple_of (I := Unopened) (N := Plain)
    (fun b h e he hI => ⟨hI.1, hI.2.append (plain_of_handlesOutput (by simpa using he))⟩)
      fun _ _ hI => hI.2
  simp only [hg] at htriple
  refine htriple.mono_exit fun x h hX => ?_
  rcases x with _ | ⟨_ | _, s⟩
  · trivial
  · exact ⟨hX.closed_nil, .unopened hX.outputs_nil⟩
  · exact hX.created_nil

/-- The parts of `main` after that, with an invariant `J` of what they keep. -/
theorem triple_leaves {α κ : Type} {f : Locals → κ} {J : κ → List Event → Prop} {m : Main α}
    (hm : Cmd.Frame Quiet f m) (hn : NeverFails m)
    (hJ : ∀ b h u, Plain u → J b h → J b (h ++ u))
    (hL : ∀ s h, J (f s) h → closed h = [] ∧ Leaves s h) :
    Cmd.Triple (fun s h => J (f s) h) m (fun _ s h => J (f s) h) LeavesOutput := by
  have htriple := hm.triple (I := J) fun b h e he hI =>
    hJ b h [e] (plain_of_handlesOutput (by simpa using he)) hI
  refine (htriple.and hn).mono (fun _ _ hP => ⟨hP, trivial⟩) (fun _ _ _ hQ => hQ.1)
    fun x h hX => ?_
  obtain ⟨⟨b, hI, hb⟩, hnever⟩ := hX
  rcases x with _ | ⟨_ | _, s⟩
  · trivial
  · exact hL s h (by rwa [hb _ s rfl])
  · exact absurd rfl (hnever s)

theorem triple_hasOutput {α κ : Type} {f : Locals → κ} {m : Main α} (hm : Cmd.Frame Quiet f m)
    (g : κ → UInt8 × ℤ) (hg : ∀ s, g (f s) = s.output.target) (hn : NeverFails m) :
    Cmd.Triple (fun s h => HasOutput s.output.target h ∧ closed h = []) m
      (fun _ s h => HasOutput s.output.target h ∧ closed h = []) LeavesOutput := by
  have htriple := triple_leaves (J := fun b h => HasOutput b h ∧ closed h = [])
    (hm.mono (fun _ h => h) g) hn (fun b h u hu hI => ⟨hI.1.append hu, ?_⟩) fun s h hI => ?_
  · simpa only [hg] using htriple
  · rw [closed_append, hI.2, hu.closed_nil, List.append_nil]
  · rw [hg] at hI
    exact ⟨hI.2, .opened hI.1⟩

theorem outputs_evaluation {step : Step} {a : Answer (.enter step)} {u : List Event} {res : ErrorT}
    {b : Answer (.leave step res)} :
    outputs (evaluation step a u res b) = outputs u ++ outputs [⟨.leave step res, b⟩] := by
  rw [evaluation, outputs_append]
  rfl

theorem created_evaluation {step : Step} {a : Answer (.enter step)} {u : List Event} {res : ErrorT}
    {b : Answer (.leave step res)} : created (evaluation step a u res b) = created u := by
  rw [evaluation, created_append]
  exact List.append_nil _

theorem closed_evaluation {step : Step} {a : Answer (.enter step)} {u : List Event} {res : ErrorT}
    {b : Answer (.leave step res)} : closed (evaluation step a u res b) = closed u := by
  rw [evaluation, closed_append]
  exact List.append_nil _

/-- **An evaluation of `outputc_hd5_file`**: it makes two calls, and hands out the handle if both
succeed; otherwise the output is left alone. -/
theorem outputFileStep_run {file : String} {s s' : Locals} {u : List Event} {res : ErrorT}
    (h : (outputFileStep file s).Run u (some (res, s'))) :
    ∃ (a : Answer (.h5Fcreate file)) (b : Answer (.chmod file)), u = [⟨_, a⟩, ⟨_, b⟩] ∧
      s'.buffer = s.buffer ∧ (res = errorNone ↔ a.value ≠ -1 ∧ b.value = 0) ∧
      s'.output = if res = errorNone then ⟨outputHd5File, .null, a.value, 0⟩ else s.output := by
  obtain ⟨u₁, u₂, ⟨res', output⟩, rfl, h₁, rfl, heq⟩ | ⟨h, -⟩ := Prog.run_bind.mp h
  · obtain ⟨rfl, rfl⟩ := Prod.mk.inj (Option.some_injective _ heq)
    obtain ⟨a, v, rfl, h₂⟩ := run_sys_bind.mp h₁
    obtain ⟨b, w, rfl, h₃⟩ := run_sys_bind.mp h₂
    by_cases hmode : b.value ≠ 0
    · -- `chmod` failed: the handle that `H5Fcreate` returned is dropped
      rw [if_pos hmode] at h₃
      obtain ⟨rfl, hval⟩ := h₃
      obtain ⟨rfl, rfl⟩ := Prod.mk.inj (Option.some_injective _ hval)
      exact ⟨a, b, rfl, rfl, iff_of_false (by decide) fun h => hmode h.2, rfl⟩
    · rw [if_neg hmode] at h₃
      by_cases hid : a.value = -1
      · rw [if_pos hid] at h₃
        obtain ⟨rfl, hval⟩ := h₃
        obtain ⟨rfl, rfl⟩ := Prod.mk.inj (Option.some_injective _ hval)
        exact ⟨a, b, rfl, rfl, iff_of_false (by decide) fun h => h.1 hid, rfl⟩
      · rw [if_neg hid] at h₃
        obtain ⟨rfl, hval⟩ := h₃
        obtain ⟨rfl, rfl⟩ := Prod.mk.inj (Option.some_injective _ hval)
        exact ⟨a, b, rfl, rfl, iff_of_true rfl ⟨hid, not_not.mp hmode⟩, rfl⟩
  · exact absurd h (by simp)

/-- What it shows: the output is left alone, or becomes the created file. -/
theorem outputFileStep_shows {file : String} {s s' : Locals} {u : List Event} {res : ErrorT}
    (h : (outputFileStep file s).Run u (some (res, s'))) :
    outputs u = [] ∧ closed u = [] ∧ s'.buffer = s.buffer ∧
      ((res ≠ errorNone ∧ s'.output = s.output) ∨
        (res = errorNone ∧ s'.output.type = outputHd5File ∧ created u = [s'.output.h5])) := by
  obtain ⟨a, b, rfl, hbuffer, hres, houtput⟩ := outputFileStep_run h
  refine ⟨rfl, rfl, hbuffer, ?_⟩
  split at houtput
  · next hok =>
    rw [houtput]
    exact .inr ⟨hok, rfl, List.filterMap_cons_some (if_neg (hres.mp hok).1)⟩
  · next hfail => exact .inl ⟨hfail, houtput⟩

variable (leftToRight : Bool)

/-- While the step is evaluated, however often: an output that was handed out is a created
file. -/
def Opening (s : Locals) (h : List Event) : Prop :=
  closed h = [] ∧ .outputStdout ∉ outputs h ∧ s.buffer = .null ∧
    (outputs h = [] ∨ (.outputFile ∈ outputs h ∧ s.output.type = outputHd5File ∧
      s.output.h5 ∈ created h))

theorem Opening.evaluation {file : String} {s s' : Locals} {h u : List Event} {res : ErrorT}
    {a : Answer (.enter .outputFile)} {b : Answer (.leave .outputFile res)} (hI : Opening s h)
    (hrun : (outputFileStep file s).Run u (some (res, s'))) :
    Opening s' (h ++ evaluation .outputFile a u res b) := by
  obtain ⟨hclosed, hstdout, hbuffer, hfile⟩ := hI
  obtain ⟨houtputs', hclosed', hbuffer', hcases⟩ := outputFileStep_shows hrun
  have hoffers : outputs [⟨.leave .outputFile res, b⟩] =
      if res = errorNone then [.outputFile] else [] := by
    split
    · next hres => exact List.filterMap_cons_some (if_pos hres)
    · next hres => exact List.filterMap_cons_none (if_neg hres)
  rw [Opening, closed_append, closed_evaluation, hclosed, hclosed', outputs_append,
    outputs_evaluation, houtputs', List.nil_append, hoffers, created_append, created_evaluation]
  -- a failed evaluation hands out nothing, and a successful one the file that it created
  rcases hcases with ⟨hne, hsame⟩ | ⟨rfl, htype, hcreated⟩
  · rw [if_neg hne, List.append_nil, List.append_nil, hsame]
    refine ⟨rfl, hstdout, hbuffer'.trans hbuffer, hfile.imp_right fun ⟨h₁, h₂, h₃⟩ => ?_⟩
    exact ⟨h₁, h₂, List.mem_append_left _ h₃⟩
  · rw [if_pos rfl, hcreated]
    refine ⟨rfl, by simpa using hstdout, hbuffer'.trans hbuffer, .inr ⟨?_, htype, ?_⟩⟩
    · simp
    · simp

theorem plain_report (step : Step) (decoded number : ErrorT)
    (c : Answer (.report step decoded number)) : Plain [⟨.report step decoded number, c⟩] :=
  ⟨rfl, rfl, rfl⟩

theorem triple_outputFile (file : String) :
    Cmd.Triple (fun s h => Unopened s.buffer h)
      (exitOnFail leftToRight .outputFile (outputFileStep file))
      (fun _ s h => HasOutput s.output.target h ∧ closed h = []) LeavesOutput := by
  have hexits : Cmd.Triple Opening (exitOnFail leftToRight .outputFile (outputFileStep file))
      (fun _ s h => Opening s h) fun x h => ∀ e s, x = some (e, s) → Opening s h := by
    refine triple_exitOnFail_evaluations (fun s h u res s' a b hI hrun => ?_)
      fun s h decoded number c hI => ?_
    · exact hI.evaluation hrun
    · rwa [Opening, closed_append, outputs_append, created_append,
        (plain_report _ _ _ c).closed_nil, (plain_report _ _ _ c).outputs_nil,
        (plain_report _ _ _ c).created_nil, List.append_nil, List.append_nil, List.append_nil]
  have hok : Cmd.Triple (fun s h => Unopened s.buffer h)
      (exitOnFail leftToRight .outputFile (outputFileStep file))
      (fun _ s h => HasOutput s.output.target h ∧ closed h = []) fun _ _ => True := by
    refine triple_exitOnFail_ok fun s h u s' a b hI hrun => ?_
    obtain ⟨houtputs, hclosed, -, ⟨hne, -⟩ | ⟨-, htype, hcreated⟩⟩ := outputFileStep_shows hrun
    · exact absurd rfl hne
    · refine ⟨.file ?_ htype ?_, ?_⟩
      · rw [outputs_append, outputs_evaluation, hI.plain.outputs_nil, houtputs]
        rfl
      · rw [created_append, created_evaluation, hI.plain.created_nil, hcreated]
        rfl
      · rw [closed_append, closed_evaluation, hI.plain.closed_nil, hclosed]
        rfl
  -- `hexits` says what early exits leave, and `hok` what the step leaves if it succeeds at once
  refine ((hexits.and hok).and (neverFails_exitOnFail leftToRight _ _)).mono
    (fun s h hI => ⟨⟨⟨hI.plain.closed_nil, ?_, hI.buffer_null, .inl hI.plain.outputs_nil⟩, hI⟩,
      trivial⟩) (fun _ _ _ hQ => hQ.1.2) fun x h hX => ?_
  · simp [hI.plain.outputs_nil]
  · rcases x with _ | ⟨_ | _, s⟩
    · trivial
    · obtain ⟨hclosed, hstdout, hbuffer, hnone | ⟨hfile, htype, hcreated⟩⟩ := hX.1.1 _ s rfl
      · exact ⟨hclosed, .unopened hnone⟩
      · exact ⟨hclosed, .again hfile hstdout htype hcreated hbuffer⟩
    · exact absurd rfl (hX.2 s)

/-- An evaluation of `outputc_stdout` makes no calls and does not fail. -/
theorem outputStdoutStep_run {s s' : Locals} {u : List Event} {res : ErrorT}
    (h : (outputStdoutStep s).Run u (some (res, s'))) : u = [] ∧ res = errorNone := by
  obtain ⟨u₁, u₂, r, rfl, ⟨rfl, hr⟩, rfl, heq⟩ | ⟨h, -⟩ := Prog.run_bind.mp h
  · obtain rfl := Option.some_injective _ hr
    exact ⟨rfl, (Prod.mk.inj (Option.some_injective _ heq)).1⟩
  · exact absurd h (by simp)

theorem triple_outputStdout :
    Cmd.Triple (fun s h => Unopened s.buffer h)
      (exitOnFail leftToRight .outputStdout outputStdoutStep)
      (fun _ s h => HasOutput s.output.target h ∧ closed h = []) LeavesOutput := by
  intro s h t o hI hexit
  rcases exitOnFail_run hexit with ⟨a, u, s', b, rfl, hu, rfl⟩ | ⟨a, u, -, -, rfl⟩ |
    ⟨_, _, res, _, _, _, -, hres, hu, -⟩
  · obtain ⟨rfl, -⟩ := outputStdoutStep_run hu
    refine ⟨.stdout ?_ ?_, ?_⟩
    · rw [outputs_append]
      exact List.mem_append_right _ (List.mem_singleton_self _)
    · rw [created_append, hI.plain.created_nil]
      rfl
    · rw [closed_append, hI.plain.closed_nil]
      rfl
  · trivial
  · exact absurd (outputStdoutStep_run hu).2 hres

theorem triple_openOutput_leaves :
    Cmd.Triple (fun s h => Unopened s.buffer h) (openOutput leftToRight)
      (fun _ s h => HasOutput s.output.target h ∧ closed h = []) LeavesOutput := by
  refine Cmd.Triple.bind (M := fun _ s h => Unopened s.buffer h)
    (Cmd.triple_get fun _ _ hI => hI) fun s => ?_
  cases s.arguments.outputFile with
  | some file => exact triple_outputFile leftToRight file
  | none => exact triple_outputStdout leftToRight

/-- The mode `profile`. -/
theorem triple_profileMode_leaves (fuel : ℕ) :
    Cmd.Triple (fun s h => Unopened s.buffer h) (profileMode leftToRight fuel)
      (fun _ s h => HasOutput s.output.target h ∧ closed h = []) LeavesOutput := by
  have halloc := triple_hasOutput ((frame_alloc_among leftToRight).mono
    (fun _ he => handlesOutput_of_among he (by simp) (by simp)) id)
    (fun x => x.1.target) (fun _ => rfl) (neverFails_exitOnFail leftToRight _ _)
  have hstart := triple_hasOutput ((frame_startExternal_among leftToRight).mono
    (fun _ he => handlesOutput_of_among he (by simp) (by simp)) id)
    (fun s => s.output.target) (fun _ => rfl) (neverFails_startExternal leftToRight)
  have halarm := triple_hasOutput (frame_setAlarm.mono
    (fun _ he => handlesOutput_of_kind he (by simp)) id)
    (fun s => s.output.target) (fun _ => rfl) neverFails_setAlarm
  have hframe : Cmd.Frame Quiet (fun s => s.output.target)
      (exitOnFail leftToRight .profile (profileStep fuel)) := by
    refine frame_exitOnFail_marks leftToRight
      (fun e he => handlesOutput_of_marks he (by simp)) (fun s => ?_) fun s => ?_
    · exact (within_profile (fun _ => rfl) fun _ => handlesOutput_of_inProfileLoop).bind
        fun _ => Prog.within_pure
    · exact (returns_profile _ _ _ _ _ _).bind fun _ hr => Prog.returns_pure hr
  have hprofile := triple_hasOutput hframe id (fun _ => rfl)
    (neverFails_exitOnFail leftToRight _ _)
  exact (triple_openOutput_leaves leftToRight).bind fun _ => halloc.bind fun _ =>
    hstart.bind fun _ => halarm.bind fun _ => hprofile

/-- **What the body of `main` leaves to `FINALIZE`.** -/
theorem triple_mainBody_leaves (fuel : ℕ) :
    Cmd.Triple (fun s h => Unopened s.buffer h) (mainBody leftToRight fuel)
      (fun _ s h => closed h = [] ∧ Leaves s h) LeavesOutput := by
  have hsetUp := triple_unopened ((frame_setUp_among leftToRight).mono
    (fun _ he => handlesOutput_of_among he (by simp) (by simp)) id) (fun x => x.2.1) fun _ => rfl
  have hrights := triple_unopened ((frame_checkRights_among leftToRight).mono
    (fun _ he => handlesOutput_of_among he (by simp) (by simp)) id) (fun s => s.buffer) fun _ => rfl
  have hbench := triple_unopened ((frame_benchMode_among leftToRight).mono
    (fun _ he => handlesOutput_of_among he (by simp) (by simp)) id) (fun x => x.2.1) fun _ => rfl
  have hkill := triple_leaves (J := fun s h => closed h = [] ∧ Leaves s h)
    (frame_killExternal.mono (fun _ he => handlesOutput_of_kind he (by simp)) id)
    neverFails_killExternal (fun s h u hu hI => ⟨?_, hI.2.append hu⟩) fun _ _ hI => hI
  · have hget : Cmd.Triple (fun s h => Unopened s.buffer h) (Cmd.get : Main Locals)
        (fun _ s h => Unopened s.buffer h) LeavesOutput := Cmd.triple_get fun _ _ hI => hI
    refine hsetUp.bind fun _ => hget.bind fun s => Cmd.Triple.ite (fun _ => ?_) fun _ => ?_
    · exact Cmd.triple_pure fun _ _ hI => ⟨hI.plain.closed_nil, .unopened hI.plain.outputs_nil⟩
    refine hrights.bind fun _ => Cmd.Triple.bind ?_ fun _ => hkill
    refine hget.bind fun s => Cmd.Triple.ite (fun _ => ?_) fun _ =>
      Cmd.Triple.ite (fun _ => ?_) fun _ => ?_
    · exact hbench.mono (fun _ _ hI => hI)
        (fun _ _ _ hI => ⟨hI.plain.closed_nil, .unopened hI.plain.outputs_nil⟩) fun _ _ hX => hX
    · exact (triple_profileMode_leaves leftToRight fuel).mono (fun _ _ hI => hI)
        (fun _ _ _ hI => ⟨hI.2, .opened hI.1⟩) fun _ _ hX => hX
    · exact Cmd.triple_throw fun _ _ hI =>
        ⟨hI.plain.closed_nil, .unopened hI.plain.outputs_nil⟩
  · rw [closed_append, hI.1, hu.closed_nil, List.append_nil]

end

/-! ### Closing -/

/-- `output_close` closes the handle of a file, and returns. -/
theorem outputClose_run {output : OutputT} {u : List Event} {o : Option ErrorT}
    (h : (outputClose output).Run u o) : o ≠ none ∧ outputs u = [] ∧ created u = [] ∧
      closed u = if output.type = outputHd5File then [output.h5] else [] := by
  rw [outputClose] at h
  split at h
  · next htype =>
    obtain ⟨a, v, rfl, rfl, rfl⟩ := run_sys_bind.mp h
    exact ⟨by simp, rfl, rfl, by rw [if_pos htype]; rfl⟩
  · next htype =>
    obtain ⟨rfl, rfl⟩ := h
    exact ⟨by simp, rfl, rfl, by rw [if_neg htype]; rfl⟩

/-- `FINALIZE` closes what `output` says; it does not return only while it frees a buffer. -/
theorem finalize_run {s : Locals} {u : List Event} {o : Option Unit}
    (h : (finalize s).Run u o) : outputs u = [] ∧ created u = [] ∧
      closed u = (if s.output.type = outputHd5File then [s.output.h5] else []) ∧
      (o = none → s.buffer ≠ .null) := by
  rcases Prog.run_bind.mp h with ⟨u₁, u₂, res, rfl, h₁, h₂⟩ | ⟨-, h₁⟩
  · obtain ⟨-, houtputs, hcreated, hclosed⟩ := outputClose_run h₁
    have honly : Only [.memory] (if s.buffer ≠ .null then do
        let _ ← freeAligned s.buffer s.cache
        pure ()
      else pure () : Proc Unit) :=
      Only.ite ((only_freeAligned _ _).bind fun _ => only_pure _) (only_pure _)
    have hplain : Plain u₂ := plain_of_handlesOutput fun e he =>
      handlesOutput_of_kind (honly u₂ o h₂ e he) (by simp)
    rw [outputs_append, created_append, closed_append, houtputs, hcreated, hclosed,
      hplain.outputs_nil, hplain.created_nil, hplain.closed_nil]
    refine ⟨rfl, rfl, List.append_nil _, fun ho hnull => ?_⟩
    -- without a buffer nothing comes after `output_close`
    rw [if_neg (not_not.mpr hnull)] at h₂
    exact absurd (ho.symm.trans h₂.2) (by simp)
  · exact absurd rfl (outputClose_run h₁).1

/-! ### Whole runs -/

section

variable (leftToRight : Bool)

/-- The run gets to `FINALIZE`. -/
def ReachesFinalize (fuel : ℕ) (arguments : Arguments) (garbage : Locals) (t : List Event)
    (o : Option ℤ) : Prop :=
  ∃ t₁ t₂ r s o', t = t₁ ++ t₂ ∧ r ≠ .error .failure ∧
    (mainBody leftToRight fuel { garbage with arguments, buffer := .null }).Run t₁
      (some (r, s)) ∧ (finalize s).Run t₂ o' ∧ o = o'.map fun _ => 0

/-- **The output as it should be**: what `FINALIZE` closes was opened, and when `main` returns,
every file that was created has been closed exactly once. -/
structure OutputsWell (fuel : ℕ) (arguments : Arguments) (garbage : Locals) (t : List Event)
    (o : Option ℤ) : Prop where
  opened : ReachesFinalize leftToRight fuel arguments garbage t o → outputs t ≠ []
  closedOnce : o ≠ none → ClosedOnce t

/-- What a run that gets to `FINALIZE` has opened decides. -/
theorem outputsWell_iff_of_leaves {s : Locals} {t₁ t₂ : List Event} {o' : Option Unit}
    (hclosed : closed t₁ = []) (hs : Leaves s t₁) (hfinal : (finalize s).Run t₂ o') :
    (outputs (t₁ ++ t₂) ≠ [] ∧ (o' ≠ none → ClosedOnce (t₁ ++ t₂))) ↔ OneOutput (t₁ ++ t₂) := by
  obtain ⟨houtputs, hcreated, hclosed', hreturns⟩ := finalize_run hfinal
  rw [OneOutput, ClosedOnce, outputs_append, created_append, closed_append, houtputs, hcreated,
    hclosed, hclosed', List.append_nil, List.append_nil, List.nil_append]
  cases hs with
  | unopened hnone => simp [hnone]
  | opened houtput =>
    cases houtput with
    | stdout hstdout hnone =>
      exact iff_of_true ⟨List.ne_nil_of_mem hstdout, fun _ => by simp [hnone]⟩ (.inl hstdout)
    | file hfile htype hone =>
      have htype' : s.output.type = outputHd5File := htype
      refine iff_of_true ⟨by simp [hfile], fun _ f hf => ?_⟩
        (.inr ⟨by simp [hfile], by simp [hone]⟩)
      rw [if_pos htype', hone]
      rfl
  | again hfile hstdout htype hmem hbuffer =>
    rw [if_pos htype]
    constructor
    · rintro ⟨-, honce⟩
      have hcount := honce fun ho => hreturns ho hbuffer
      -- every handle created is the one that is closed, and this one is created once
      have hall : ∀ f ∈ created t₁, s.output.h5 = f := fun f hf => by
        have hpos : 0 < [s.output.h5].count f := by
          rw [hcount f hf]
          exact List.count_pos_iff.mpr hf
        exact (List.mem_singleton.mp (List.count_pos_iff.mp hpos)).symm
      refine .inr ⟨hfile, ?_⟩
      rw [← List.count_eq_length.mpr hall, ← hcount _ hmem, List.count_singleton_self]
    · rintro (hmem' | ⟨-, hlength⟩)
      · exact absurd hmem' hstdout
      · obtain ⟨f, hf⟩ := List.length_eq_one_iff.mp hlength
        rw [hf] at hmem ⊢
        obtain rfl := List.mem_singleton.mp hmem
        exact ⟨List.ne_nil_of_mem hfile, fun _ _ _ => rfl⟩

/-- **Whether `main` treats its output well**: if and only if it does not get to `FINALIZE`, or
opens exactly one output. -/
theorem outputsWell_iff_oneOutput {fuel : ℕ} {arguments : Arguments} {garbage : Locals}
    {t : List Event} {o : Option ℤ} (h : (main leftToRight fuel arguments garbage).Run t o) :
    OutputsWell leftToRight fuel arguments garbage t o ↔
      (ReachesFinalize leftToRight fuel arguments garbage t o → OneOutput t) := by
  have hbody := triple_mainBody_leaves leftToRight fuel
    { garbage with arguments, buffer := .null } []
  have hpre : Unopened .null [] := ⟨rfl, rfl, rfl, rfl⟩
  have hleaves : ∀ {t₁ r s}, r ≠ .error .failure → (mainBody leftToRight fuel
      { garbage with arguments, buffer := .null }).Run t₁ (some (r, s)) →
        closed t₁ = [] ∧ Leaves s t₁ := by
    intro t₁ r s hr h₁
    have hpost := hbody t₁ _ hpre h₁
    rcases r with (_ | _) | _
    · exact hpost
    · exact absurd rfl hr
    · exact hpost
  constructor
  · rintro ⟨hopened, honce⟩ hreach
    have hnonempty := hopened hreach
    obtain ⟨t₁, t₂, r, s, o', rfl, hr, h₁, h₂, rfl⟩ := hreach
    obtain ⟨hclosed, hs⟩ := hleaves hr h₁
    exact (outputsWell_iff_of_leaves hclosed hs h₂).mp
      ⟨hnonempty, fun ho => honce (by simpa using ho)⟩
  · intro hone
    refine ⟨fun hreach => (hone hreach).outputs_ne_nil, fun ho => ?_⟩
    rcases main_run leftToRight h with ⟨t₁, t₂, r, s, o', rfl, hr, h₁, h₂, rfl⟩ | ⟨s, h₁, rfl⟩ |
      ⟨-, rfl⟩
    · obtain ⟨hclosed, hs⟩ := hleaves hr h₁
      exact ((outputsWell_iff_of_leaves hclosed hs h₂).mpr
        (hone ⟨t₁, t₂, r, s, o', rfl, hr, h₁, h₂, rfl⟩)).2 (by simpa using ho)
    · have hcreated : created t = [] := hbody t _ hpre h₁
      simp [ClosedOnce, hcreated]
    · exact absurd rfl ho

end

end CacheNoise
