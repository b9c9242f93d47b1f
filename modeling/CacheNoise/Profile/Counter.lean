import CacheNoise.General.Ledger
import CacheNoise.Profile.Iterations

/-!
# The cycle counter is disabled again

`profile` and `benchmark` enable a cycle counter and disable it at their end. The ledger of a run
(`counters`) says which counters are left enabled. Every way out of `benchmark` disables what was
enabled. The loop of `profile` also has the return in `FORWARD_ON_FAIL` after a write, which does
not: a counter is left enabled exactly if a write has failed (`counter_disabled`).
-/

namespace CacheNoise

open Interaction Ledger

/-- What an event does to the counters: one that is enabled is to be disabled again. -/
def counterEntry : Event → Option (Ledger.Entry UInt32)
  | ⟨.ioctl fd .enable, a⟩ => if a.value = 0 then some (.acquire fd) else none
  | ⟨.ioctl fd .disable, a⟩ => some (.release fd (a.value = 0))
  | _ => none

/-- The ledger of a run. -/
def counters (t : List Event) : List (Ledger.Entry UInt32) := t.filterMap counterEntry

/-- The counters that are enabled after a run. -/
def enabled (t : List Event) : List UInt32 := Ledger.after [] (counters t)

/-- A run that returns `res` leaves no counter enabled, unless the disabling has failed. -/
def LeavesNoCounter (t : List Event) (res : ErrorT) : Prop :=
  res ≠ errorFdCycleClose → enabled t = []

/-- No write fails: no call of a write does, and matrices can be written if one is measured. -/
def NoWriteFails (output : OutputT) (t : List Event) : Prop :=
  (∀ e ∈ t, writeFails e = false) ∧ ((∃ e ∈ t, measures e = true) → output.Supported)

theorem counters_append (t u : List Event) : counters (t ++ u) = counters t ++ counters u :=
  List.filterMap_append

/-- Calls other than `ioctl` do not touch the counters. -/
theorem counterEntry_of_kind {e : Event} (h : e.1.kind ∈ [Kind.print, .dataset, .closing]) :
    counterEntry e = none := by
  obtain ⟨c, a⟩ := e
  cases c <;> first | rfl | simp at h

/-- The ledger of `enable_cpu_cycle_counter`, by its result. -/
def acquired : Except ErrorT UInt32 → List (Ledger.Entry UInt32)
  | .ok fd => [.acquire fd]
  | .error _ => []

theorem counters_enable {cpu : UInt32} {t : List Event} {r : Except ErrorT UInt32}
    (h : (enableCpuCycleCounter cpu).Run t (some r)) : counters t = acquired r := by
  obtain ⟨a, t₁, rfl, h₁⟩ := run_sys_bind.mp h
  split_ifs at h₁ with hopen
  · obtain ⟨rfl, hr⟩ := h₁
    obtain rfl := Option.some.inj hr
    rfl
  obtain ⟨b, t₂, rfl, h₂⟩ := run_sys_bind.mp h₁
  split_ifs at h₂ with hreset
  · obtain ⟨rfl, hr⟩ := h₂
    obtain rfl := Option.some.inj hr
    rfl
  obtain ⟨c, t₃, rfl, rfl, hr⟩ := run_sys_bind.mp h₂
  obtain rfl := Option.some.inj hr
  change List.filterMap counterEntry [⟨_, c⟩] = _
  by_cases henable : c.value = 0
  · have hentry : counterEntry ⟨.ioctl a.value .enable, c⟩ = some (.acquire a.value) :=
      if_pos henable
    rw [if_neg (not_not.mpr henable), List.filterMap_cons_some hentry]
    rfl
  · have hentry : counterEntry ⟨.ioctl a.value .enable, c⟩ = none := if_neg henable
    rw [if_pos henable, List.filterMap_cons_none hentry]
    rfl

/-- The ledger of `disable_cpu_cycle_counter`: it is done, if the error is not returned. -/
theorem counters_disable {fd : UInt32} {t : List Event} {res : ErrorT}
    (h : (disableCpuCycleCounter fd).Run t (some res)) :
    counters t = [.release fd (res ≠ errorFdCycleClose)] := by
  obtain ⟨a, rfl, hr⟩ := disableCpuCycleCounter_run.mp h
  obtain rfl := Option.some.inj hr
  change [Ledger.Entry.release fd (decide (a.value = 0))] = _
  by_cases hdisable : a.value = 0
  · rw [if_neg (not_not.mpr hdisable), decide_eq_true hdisable]
    rfl
  · rw [if_pos hdisable, decide_eq_false hdisable]
    rfl

/-- The counter is enabled before and disabled after a part that does not touch it. -/
theorem enabled_of_disable {fd cpu : UInt32} {start t tail : List Event} {res : ErrorT}
    (henable : (enableCpuCycleCounter cpu).Run start (some (.ok fd))) (ht : counters t = [])
    (hdisable : (disableCpuCycleCounter fd).Run tail (some res)) :
    LeavesNoCounter (start ++ (t ++ tail)) res := by
  intro hres
  rw [enabled, counters_append, counters_append, counters_enable henable, ht,
    counters_disable hdisable, decide_eq_true hres]
  simp [acquired, Ledger.Entry.apply]

section

variable {cache : CacheInfo} {buffer : Ptr} {iterations fd : UInt32} {output output' : OutputT}
  {t : List Event} {ts : List (List Event)} {r : ErrorT × OutputT}

/-- An iteration does not touch the counters. -/
theorem Iteration.counters_eq (h : Iteration cache buffer output t r) : counters t = [] := by
  obtain ⟨hread, hwrite⟩ := h
  have hall := fun e he => counterEntry_of_kind (only_outputwMatUi32 _ _ _ _ _ _ hwrite e he)
  have hnil := List.filterMap_eq_nil_iff.mpr hall
  exact hnil

theorem Iterations.counters_eq (h : Iterations cache buffer output ts output') :
    counters ts.flatten = [] := by
  induction h with
  | nil => rfl
  | cons hiteration hrest ih => rw [List.flatten_cons, counters_append, hiteration.counters_eq, ih,
      List.append_nil]

end

/-- A write never returns the error of a failed disabling. -/
theorem returns_outputwMatUi32_ne (output : OutputT) (data : UInt64 → UInt32)
    (dimX dimY : UInt64) :
    (outputwMatUi32 output data dimX dimY).Returns fun r => r.1 ≠ errorFdCycleClose := by
  have hprint : ∀ texts, (fprintfAll output.std texts).Returns (· ≠ errorFdCycleClose) := by
    intro texts
    induction texts with
    | nil => exact Prog.returns_pure (by decide)
    | cons text texts ih =>
      exact (Prog.returns_true _).bind fun _ _ =>
        Prog.Returns.ite (Prog.returns_pure (by decide)) ih
  have hhdf5 : errorHdf5Error ≠ errorFdCycleClose := by decide
  have hkind : errorNotSupportedOutput ≠ errorFdCycleClose := by decide
  refine Prog.Returns.ite ((hprint _).bind fun _ h => Prog.returns_pure h)
    (Prog.Returns.ite ?_ (Prog.returns_pure hkind))
  refine (Prog.returns_true _).bind fun dataset _ =>
    Prog.Returns.ite (Prog.returns_pure hhdf5) ?_
  refine (Prog.returns_true _).bind fun status _ =>
    Prog.Returns.ite (Prog.returns_pure hhdf5) ?_
  refine (Prog.returns_true _).bind fun closed _ => Prog.returns_pure ?_
  change (if closed = -1 then errorHdf5Error else errorNone) ≠ errorFdCycleClose
  split_ifs <;> decide

/-! ### `profile` and `benchmark` -/

section

variable {cache : CacheInfo} {cpu iterations : UInt32} {buffer : Ptr} {output output' : OutputT}
  {start tail : List Event} {ts : List (List Event)} {fd : UInt32} {res : ErrorT}

/-- Complete iterations, and an end without a write. -/
theorem noWriteFails_of_iterations
    (hstart : ∀ e ∈ start, measures e = false ∧ writeFails e = false)
    (hts : Iterations cache buffer output ts output')
    (htail : ∀ e ∈ tail, measures e = false ∧ writeFails e = false) :
    NoWriteFails output (start ++ (ts.flatten ++ tail)) := by
  obtain ⟨-, -, -, hfails, -, hsupported⟩ := hts.counts
  constructor
  · intro e he
    rcases List.mem_append.mp he with he | he
    · exact (hstart e he).2
    rcases List.mem_append.mp he with he | he
    · exact hfails e he
    · exact (htail e he).2
  · rintro ⟨e, he, hmeasures⟩
    have hquiet : ∀ {t : List Event}, (∀ e ∈ t, measures e = false ∧ writeFails e = false) →
        e ∉ t := fun h hmem => by
      rw [(h e hmem).1] at hmeasures
      cases hmeasures
    -- the measurement is one of an iteration, whose write has succeeded
    have hmem : e ∈ ts.flatten := (List.mem_append.mp
      ((List.mem_append.mp he).resolve_left (hquiet hstart))).resolve_right (hquiet htail)
    exact hsupported fun hnil => by simp [hnil] at hmem

/-- The return after a write that has failed. -/
theorem not_leavesNoCounter_of_failed {r : ErrorT × OutputT}
    (henable : (enableCpuCycleCounter cpu).Run start (some (.ok fd)))
    (hts : Iterations cache buffer output ts output')
    (h : Iteration cache buffer output' tail r) :
    ¬ LeavesNoCounter (start ++ (ts.flatten ++ tail)) r.1 := by
  intro hleaves
  have hne : r.1 ≠ errorFdCycleClose := by
    obtain ⟨-, hwrite⟩ := h
    exact returns_outputwMatUi32_ne _ _ _ _ _ _ hwrite
  have henabled := hleaves hne
  rw [enabled, counters_append, counters_append, counters_enable henable, hts.counters_eq,
    h.counters_eq] at henabled
  cases henabled

end

/-- **`profile` leaves no counter enabled** if and only if no write fails. -/
theorem profile_leavesNoCounter_iff {fuel : ℕ} {cache : CacheInfo} {cpu iterations : UInt32}
    {buffer : Ptr} {output output' : OutputT} {t : List Event} {res : ErrorT}
    (h : (profile fuel cache cpu iterations buffer output).Run t (some (res, output'))) :
    LeavesNoCounter t res ↔ NoWriteFails output t := by
  obtain ⟨-, henable⟩ | ⟨fd, start, ts, tail, last, rfl, henable, hts, hends, -⟩ := profile_run h
  · -- the counter can not be enabled, and nothing is written
    have hquiet := within_enable_unmeasured cpu t _ henable
    refine iff_of_true (fun _ => ?_) ⟨fun e he => (hquiet e he).2, ?_⟩
    · rw [enabled, counters_enable henable]
      rfl
    · rintro ⟨e, he, hmeasures⟩
      rw [(hquiet e he).1.measures] at hmeasures
      cases hmeasures
  have hstart : ∀ e ∈ start, measures e = false ∧ writeFails e = false := fun e he =>
    (within_enable_unmeasured cpu start _ henable e he).imp_left Unmeasured.measures
  have hdisabled : ∀ {t' : List Event}, (disableCpuCycleCounter fd).Run t' (some res) →
      ∀ e ∈ t', measures e = false ∧ writeFails e = false := fun hrun e he =>
    ⟨((disable_counts hrun).1 e he).measures, (disable_counts hrun).2 e he⟩
  cases hends with
  | done hne hj hdisable =>
    exact iff_of_true (enabled_of_disable henable hts.counters_eq hdisable)
      (noWriteFails_of_iterations hstart hts (hdisabled hdisable))
  | @seen read t' _ hj hread hdisable =>
    have hcounters : counters (ts.flatten ++ [(⟨.terminated, read⟩ : Event)]) = [] := by
      rw [counters_append, hts.counters_eq]
      rfl
    have hleaves := enabled_of_disable henable hcounters hdisable
    rw [List.append_assoc, List.singleton_append] at hleaves
    exact iff_of_true hleaves (noWriteFails_of_iterations hstart hts
      (List.forall_mem_cons.mpr ⟨⟨rfl, rfl⟩, hdisabled hdisable⟩))
  | failed hj hres hiteration =>
    refine iff_of_false (not_leavesNoCounter_of_failed henable hts hiteration) ?_
    rintro ⟨hfails, hsupported⟩
    have htail : ∀ e ∈ tail, e ∈ start ++ (ts.flatten ++ tail) := fun e he =>
      List.mem_append_right _ (List.mem_append_right _ he)
    obtain ⟨e, he, hmeasures⟩ := List.countP_pos_iff.mp
      (hiteration.counts.2.2 ▸ Nat.one_pos : 0 < tail.countP measures)
    have hkind : last.Supported ↔ output.Supported := by
      rw [OutputT.Supported, OutputT.Supported, hts.counts.2.2.2.2.1]
    exact hres (hiteration.write.2.mpr
      ⟨hkind.mpr (hsupported ⟨e, htail e he, hmeasures⟩), fun e he => hfails e (htail e he)⟩)

/-- **`benchmark` leaves no counter enabled.** -/
theorem benchmark_leavesNoCounter {iterations : UInt64} {t : List Event} {res : ErrorT}
    (h : (benchmark iterations).Run t (some res)) : LeavesNoCounter t res := by
  obtain ⟨a, t₁, rfl, h₁⟩ := run_sys_bind.mp h
  obtain ⟨start, t₂, r, rfl, henable, h₂⟩ | ⟨hnone, -⟩ := Prog.run_bind.mp h₁
  swap
  · cases hnone
  have hmalloc : ∀ u, counters ((⟨.malloc, a⟩ : Event) :: u) = counters u := fun u => rfl
  cases r with
  | error res' =>
    obtain ⟨rfl, -⟩ := h₂
    intro _
    rw [enabled, hmalloc, List.append_nil, counters_enable henable]
    rfl
  | ok fd =>
    simp only at h₂
    split_ifs at h₂ with hmemory
    · cases h₂.2
    · obtain ⟨b, tail, rfl, hdisable⟩ := run_sys_bind.mp h₂
      intro hres
      rw [enabled, hmalloc]
      exact enabled_of_disable (t := [⟨_, b⟩]) henable rfl hdisable hres

/-- **When no counter is left enabled**: after `benchmark` always, and after `profile` exactly if no
write has failed. -/
theorem counter_disabled (fuel : ℕ) (cache : CacheInfo) (cpu iterations : UInt32) (buffer : Ptr)
    (output output' : OutputT) (t : List Event) (res : ErrorT) :
    ((profile fuel cache cpu iterations buffer output).Run t (some (res, output')) →
      (LeavesNoCounter t res ↔ NoWriteFails output t)) ∧
    ∀ iterations, (benchmark iterations).Run t (some res) → LeavesNoCounter t res :=
  ⟨fun h => profile_leavesNoCounter_iff h, fun _ h => benchmark_leavesNoCounter h⟩

/-- With nothing that goes wrong, two iterations of each leave no counter enabled. -/
theorem counter_disabled_two :
    LeavesNoCounter ((profile 3 firstLevel 0 2 (.mapped 0x800000)
      ⟨outputHd5File, .null, 1, 0⟩).exec quietMachine []).1 errorNone ∧
    LeavesNoCounter ((benchmark 2).exec quietMachine []).1 errorNone := by
  constructor
  · have hrun : (profile 3 firstLevel 0 2 (.mapped 0x800000) ⟨outputHd5File, .null, 1, 0⟩).Run _
        (some (errorNone, ⟨outputHd5File, .null, 1, 2⟩)) := Prog.run_exec quietMachine _ []
    exact ((counter_disabled _ _ _ _ _ _ _ _ _).1 hrun).mpr ⟨by decide, fun _ => .inr rfl⟩
  · have hrun : (benchmark 2).Run _ (some errorNone) := Prog.run_exec quietMachine _ []
    exact (counter_disabled 0 firstLevel 0 0 .null ⟨0, .null, 0, 0⟩ ⟨0, .null, 0, 0⟩ _ _).2 2 hrun

/-- A machine on which data sets can not be created. -/
def fullDisk (h : List Event) : (c : Call) → Answer c
  | .h5Dcreate .. => ⟨[], -1⟩
  | c => quietMachine h c

/-- The first write fails, and the counter 3 is left enabled. -/
theorem profile_leavesCounter_fullDisk :
    let run := (profile 3 firstLevel 0 2 (.mapped 0x800000)
      ⟨outputHd5File, .null, 1, 0⟩).exec fullDisk []
    run.2.map Prod.fst = some errorHdf5Error ∧ enabled run.1 = [3] ∧
      ¬ LeavesNoCounter run.1 errorHdf5Error := by
  refine ⟨by decide, by decide, fun h => ?_⟩
  exact absurd (h (by decide)) (by decide)

end CacheNoise
