import CacheNoise.General.Until
import CacheNoise.Machine
import CacheNoise.Main.Frames
import CacheNoise.Profile.Coverage
import CacheNoise.SysInfo.CacheFiles

/-!
# The iterations of `profile`

Every run of the loop is a list of complete iterations and an end (`profileLoop_run`). An iteration
reads the flag `terminated` and finds it unset, primes and probes, and writes the matrix. The end
is one of four: the iterations are done, the flag is set, a write has failed, or the bound of the
loop is used up.

From this follows how many matrices are written, whatever the calls return and whenever the signals
arrive (`profile_writes`): the least of the number of iterations asked for, of those that the flag
allows, and of the writes that succeed. What is written is of the same iteration, since the
measuring loop leaves no cell of the matrix as it was (`probe_overwrites`).
-/

namespace CacheNoise

open Interaction Until

/-! ### Iterations -/

section

variable (cache : CacheInfo) (buffer : Ptr)

/-- The call of `prime` in an iteration. -/
abbrev primeCall : Call :=
  .prime cache.lineSize.toUInt64 cache.setCount.toUInt64 cache.waysOfAssociativity.toUInt64
    cache.totalSize.toUInt64 buffer

/-- The call of `probe` in an iteration. -/
abbrev probeCall : Call :=
  .probe cache.lineSize.toUInt64 cache.setCount.toUInt64 cache.waysOfAssociativity.toUInt64 buffer

/-- The events of an iteration with what its write returns: the flag is not set, the matrix is
measured, and it is written. -/
inductive Iteration (output : OutputT) : List Event → ErrorT × OutputT → Prop
  | mk {read : Answer .terminated} {primed : Answer (primeCall cache buffer)}
      {yielded : Answer .schedYield} {probed : Answer (probeCall cache buffer)} {write : List Event}
      {r : ErrorT × OutputT} (hread : read.value = false)
      (hwrite : (outputwMatUi32 output probed.value cache.waysOfAssociativity.toUInt64
        cache.setCount.toUInt64).Run write (some r)) :
      Iteration output (⟨_, read⟩ :: ⟨_, primed⟩ :: ⟨_, yielded⟩ :: ⟨_, probed⟩ :: write) r

/-- Iterations one after another, each with a write that succeeds. -/
inductive Iterations : OutputT → List (List Event) → OutputT → Prop
  | nil (output : OutputT) : Iterations output [] output
  | cons {output output' output'' : OutputT} {t : List Event} {ts : List (List Event)}
      (h : Iteration cache buffer output t (errorNone, output'))
      (hrest : Iterations output' ts output'') : Iterations output (t :: ts) output''

/-- How the loop ends after its counter has come to `j`, without the bound on its passes. -/
inductive Ends (iterations fd : UInt32) (j : ℕ) (output : OutputT) :
    List Event → Option (ErrorT × OutputT) → Prop
  /-- The bound of the passes is used up. -/
  | cut (hj : iterations = 0 ∨ j ≤ iterations.toNat) : Ends iterations fd j output [] none
  /-- All iterations are done. -/
  | done {t : List Event} {res : ErrorT} (hiterations : iterations ≠ 0)
      (hj : j = iterations.toNat) (hdisable : (disableCpuCycleCounter fd).Run t (some res)) :
      Ends iterations fd j output t (some (res, output))
  /-- The flag is set. -/
  | seen {read : Answer .terminated} {t : List Event} {res : ErrorT}
      (hj : iterations = 0 ∨ j < iterations.toNat) (hread : read.value = true)
      (hdisable : (disableCpuCycleCounter fd).Run t (some res)) :
      Ends iterations fd j output (⟨_, read⟩ :: t) (some (res, output))
  /-- A write fails. -/
  | failed {t : List Event} {r : ErrorT × OutputT} (hj : iterations = 0 ∨ j < iterations.toNat)
      (hres : r.1 ≠ errorNone) (h : Iteration cache buffer output t r) :
      Ends iterations fd j output t (some r)

end

/-- `disable_cpu_cycle_counter` returns. -/
theorem disableCpuCycleCounter_run {fd : UInt32} {t : List Event} {o : Option ErrorT} :
    (disableCpuCycleCounter fd).Run t o ↔ ∃ a : Answer (.ioctl fd .disable),
      t = [⟨_, a⟩] ∧ o = some (if a.value ≠ 0 then errorFdCycleClose else errorNone) := by
  rw [disableCpuCycleCounter, run_sys_bind]
  constructor
  · rintro ⟨a, t', rfl, rfl, rfl⟩
    exact ⟨a, rfl, rfl⟩
  · rintro ⟨a, rfl, rfl⟩
    exact ⟨a, [], rfl, rfl, rfl⟩

/-! ### Writing a matrix -/

/-- A call of a write fails. -/
def writeFails : Event → Bool
  | ⟨.h5Dcreate .., a⟩ => a.value = -1
  | ⟨.h5Dwrite .., a⟩ => a.value = -1
  | ⟨.h5Dclose _, a⟩ => a.value = -1
  | ⟨.fprintf .., a⟩ => a.value < 0
  | _ => false

/-- The output is of a kind to which matrices can be written. -/
def OutputT.Supported (output : OutputT) : Prop :=
  output.type = outputStdout ∨ output.type = outputHd5File

instance (output : OutputT) : Decidable output.Supported := inferInstanceAs (Decidable (_ ∨ _))

/-- Printing returns, with an error if and only if a call has failed. -/
theorem fprintfAll_run {stream : Stream} {texts : List String} {t : List Event}
    {o : Option ErrorT} (h : (fprintfAll stream texts).Run t o) :
    ∃ res, o = some res ∧ (res = errorNone ↔ ∀ e ∈ t, writeFails e = false) := by
  induction texts generalizing t with
  | nil =>
    obtain ⟨rfl, rfl⟩ := h
    exact ⟨errorNone, rfl, iff_of_true rfl fun e he => absurd he List.not_mem_nil⟩
  | cons text texts ih =>
    rw [fprintfAll, run_sys_bind] at h
    obtain ⟨a, t, rfl, h⟩ := h
    split_ifs at h with hfails
    · obtain ⟨rfl, rfl⟩ := h
      refine ⟨errorIoHdf, rfl, iff_of_false (by decide) fun hall => ?_⟩
      exact absurd (hall _ List.mem_cons_self) (by simpa [writeFails] using hfails)
    · obtain ⟨res, rfl, hres⟩ := ih h
      refine ⟨res, rfl, hres.trans ?_⟩
      rw [List.forall_mem_cons]
      exact (and_iff_right (by simpa [writeFails] using hfails)).symm

/-- **A write returns**, and it fails if and only if one of its calls has failed, or nothing can be
written to the output. -/
theorem outputwMatUi32_run {output : OutputT} {data : UInt64 → UInt32} {dimX dimY : UInt64}
    {t : List Event} {o : Option (ErrorT × OutputT)}
    (h : (outputwMatUi32 output data dimX dimY).Run t o) :
    ∃ res output', o = some (res, output') ∧ output'.type = output.type ∧
      (res = errorNone ↔ output.Supported ∧ ∀ e ∈ t, writeFails e = false) := by
  rw [outputwMatUi32] at h
  split_ifs at h with hstdout hfile
  · -- the standard output
    obtain ⟨t₁, t₂, res, rfl, hprint, rfl, rfl⟩ | ⟨-, hprint⟩ := Prog.run_bind.mp h
    · obtain ⟨_, hsome, hres⟩ := fprintfAll_run hprint
      obtain rfl := Option.some.inj hsome
      refine ⟨res, output, rfl, rfl, ?_⟩
      rw [List.append_nil, hres]
      exact (and_iff_right (Or.inl hstdout)).symm
    · obtain ⟨_, hsome, -⟩ := fprintfAll_run hprint
      cases hsome
  · -- a file: each call may be the one that fails
    have hsupported : output.Supported := .inr hfile
    obtain ⟨a, t₁, rfl, h₁⟩ := run_sys_bind.mp h
    split_ifs at h₁ with hcreate
    · obtain ⟨rfl, rfl⟩ := h₁
      refine ⟨_, _, rfl, rfl, iff_of_false (by decide) fun hall => ?_⟩
      exact absurd (hall.2 _ List.mem_cons_self) (by simpa [writeFails] using hcreate)
    obtain ⟨b, t₂, rfl, h₂⟩ := run_sys_bind.mp h₁
    split_ifs at h₂ with hwrite
    · obtain ⟨rfl, rfl⟩ := h₂
      refine ⟨_, _, rfl, rfl, iff_of_false (by decide) fun hall => ?_⟩
      exact absurd (hall.2 _ (List.mem_cons_of_mem _ List.mem_cons_self))
        (by simpa [writeFails] using hwrite)
    obtain ⟨c, t₃, rfl, rfl, rfl⟩ := run_sys_bind.mp h₂
    refine ⟨_, _, rfl, rfl, ?_⟩
    simp only [List.forall_mem_cons, List.not_mem_nil, false_implies, implies_true, and_true,
      writeFails, decide_eq_false_iff_not, hcreate, hwrite, not_false_eq_true, true_and, hsupported]
    by_cases hclose : c.value = -1
    · simp only [hclose, if_true, not_true_eq_false, iff_false]
      decide
    · simp only [hclose, if_false, not_false_eq_true]
  · obtain ⟨rfl, rfl⟩ := h
    exact ⟨_, _, rfl, rfl, iff_of_false (by decide) fun hsupported =>
      hsupported.1.elim hstdout hfile⟩

/-! ### Runs of the loop -/

section

variable {cache : CacheInfo} {buffer : Ptr} {iterations fd : UInt32} {output : OutputT}
  {t : List Event} {o : Option (ErrorT × OutputT)}

/-- The end of the loop after the last iteration. -/
private theorem disable_run
    (h : (disableCpuCycleCounter fd >>= fun res => pure (res, output)).Run t o) :
    ∃ res, (disableCpuCycleCounter fd).Run t (some res) ∧ o = some (res, output) := by
  obtain ⟨t₁, t₂, res, rfl, hrun, rfl, rfl⟩ | ⟨-, hrun⟩ := Prog.run_bind.mp h
  · exact ⟨res, by rwa [List.append_nil], rfl⟩
  · obtain ⟨a, -, hnone⟩ := disableCpuCycleCounter_run.mp hrun
    cases hnone

/-- One pass of the loop after which it goes on, or its end. -/
theorem profileLoop_succ {fuel : ℕ} {j : UInt32} (hj : iterations = 0 ∨ j.toNat ≤ iterations.toNat)
    (h : (profileLoop cache iterations buffer fd (fuel + 1) j output).Run t o) :
    (Ends cache buffer iterations fd j.toNat output t o ∧ o ≠ none) ∨
      ∃ (t₁ t₂ : List Event) (output' : OutputT) (j' : UInt32), t = t₁ ++ t₂ ∧
        Iteration cache buffer output t₁ (errorNone, output') ∧
        (iterations = 0 ∨ j.toNat < iterations.toNat ∧ j'.toNat = j.toNat + 1) ∧
        (profileLoop cache iterations buffer fd fuel j' output').Run t₂ o := by
  rw [profileLoop] at h
  by_cases hnext : j < iterations ∨ iterations = 0
  swap
  · -- the iterations are done
    rw [if_neg hnext] at h
    obtain ⟨hge, hne⟩ := not_or.mp hnext
    obtain ⟨res, hdisable, rfl⟩ := disable_run h
    refine .inl ⟨.done hne (le_antisymm (hj.resolve_left hne) ?_) hdisable, Option.some_ne_none _⟩
    exact Nat.not_lt.mp fun hlt => hge (UInt32.lt_iff_toNat_lt.mpr hlt)
  rw [if_pos hnext] at h
  have hlt : iterations = 0 ∨ j.toNat < iterations.toNat :=
    hnext.symm.imp_right UInt32.lt_iff_toNat_lt.mp
  obtain ⟨read, t₁, rfl, h₁⟩ := run_sys_bind.mp h
  by_cases hread : read.value = true
  · rw [if_pos hread] at h₁
    obtain ⟨res, hdisable, rfl⟩ := disable_run h₁
    exact .inl ⟨.seen hlt hread hdisable, Option.some_ne_none _⟩
  rw [if_neg hread] at h₁
  obtain ⟨primed, t₂, rfl, h₂⟩ := run_sys_bind.mp h₁
  obtain ⟨yielded, t₃, rfl, h₃⟩ := run_sys_bind.mp h₂
  obtain ⟨probed, t₄, rfl, h₄⟩ := run_sys_bind.mp h₃
  obtain ⟨write, t₅, r, rfl, hwrite, h₅⟩ | ⟨-, hwrite⟩ := Prog.run_bind.mp h₄
  swap
  · obtain ⟨_, _, hnone, -⟩ := outputwMatUi32_run hwrite
    cases hnone
  have hiteration : Iteration cache buffer output
      (⟨_, read⟩ :: ⟨_, primed⟩ :: ⟨_, yielded⟩ :: ⟨_, probed⟩ :: write) r :=
    .mk (Bool.eq_false_iff.mpr hread) hwrite
  obtain ⟨res, output'⟩ := r
  simp only at h₅
  by_cases hres : res ≠ errorNone
  · -- the write has failed
    rw [if_pos hres] at h₅
    obtain ⟨rfl, rfl⟩ := h₅
    refine .inl ⟨.failed hlt hres ?_, Option.some_ne_none _⟩
    rwa [List.append_nil]
  rw [if_neg hres] at h₅
  obtain rfl := not_not.mp hres
  refine .inr ⟨_, t₅, output', _, by simp only [List.cons_append], hiteration, ?_, h₅⟩
  refine hlt.imp_right fun hlt => ⟨hlt, ?_⟩
  have hne : iterations ≠ 0 := by
    rintro rfl
    exact absurd hlt (Nat.not_lt_zero _)
  rw [if_neg hne, UInt32.toNat_add]
  have := iterations.toNat_lt
  exact Nat.mod_eq_of_lt (by simp only [UInt32.toNat_one]; omega)

/-- Without a number of iterations, the counter does not matter. -/
theorem Ends.congr {j j' : ℕ} (h : iterations = 0 ∨ j = j')
    (hends : Ends cache buffer iterations fd j output t o) :
    Ends cache buffer iterations fd j' output t o := by
  obtain hzero | rfl := h
  swap
  · exact hends
  cases hends with
  | cut => exact .cut (.inl hzero)
  | done hne => exact absurd hzero hne
  | seen _ hread hdisable => exact .seen (.inl hzero) hread hdisable
  | failed _ hres hiteration => exact .failed (.inl hzero) hres hiteration

/-- **Runs of the loop**: complete iterations, and an end. The bound is used up only by as many
iterations. -/
theorem profileLoop_run : ∀ (fuel : ℕ) (j : UInt32) (output : OutputT) (t : List Event),
    (iterations = 0 ∨ j.toNat ≤ iterations.toNat) →
    (profileLoop cache iterations buffer fd fuel j output).Run t o →
      ∃ (ts : List (List Event)) (tail : List Event) (output' : OutputT),
        t = ts.flatten ++ tail ∧ Iterations cache buffer output ts output' ∧
        Ends cache buffer iterations fd (j.toNat + ts.length) output' tail o ∧
        (o = none → ts.length = fuel) := by
  intro fuel
  induction fuel with
  | zero =>
    rintro j output t hj ⟨rfl, rfl⟩
    exact ⟨[], [], output, rfl, .nil output, .cut hj, fun _ => rfl⟩
  | succ fuel ih =>
    intro j output t hj h
    obtain ⟨hends, hreturns⟩ | ⟨t₁, t₂, output', j', rfl, hiteration, hj', hrest⟩ :=
      profileLoop_succ hj h
    · exact ⟨[], t, output, rfl, .nil output, hends, fun hnone => absurd hnone hreturns⟩
    · obtain ⟨ts, tail, output'', rfl, hts, hends, hcut⟩ :=
        ih j' output' t₂ (hj'.imp_right fun ⟨hlt, heq⟩ => by omega) hrest
      refine ⟨t₁ :: ts, tail, output'', by rw [List.flatten_cons, List.append_assoc],
        .cons hiteration hts, hends.congr ?_, fun hnone => by rw [List.length_cons, hcut hnone]⟩
      exact hj'.imp_right fun ⟨_, heq⟩ => by rw [heq, List.length_cons]; omega

end

/-! ### Counting the iterations -/

/-- The flag is read, and it is set. -/
def readsSet : Event → Bool
  | ⟨.terminated, a⟩ => a.value
  | _ => false

/-- The flag is read, and it is not set. -/
def readsUnset : Event → Bool
  | ⟨.terminated, a⟩ => !a.value
  | _ => false

/-- The matrix of an iteration is measured, which is then written. -/
def measures : Event → Bool
  | ⟨.probe .., _⟩ => true
  | _ => false

/-- The number of iterations that are asked for. -/
def asked (iterations : UInt32) : ℕ∞ := if iterations = 0 then ⊤ else iterations.toNat

/-- The number of iterations that began before the flag was seen. -/
def untilSeen (t : List Event) : ℕ∞ := countUntil readsUnset readsSet t

/-- The number of writes before the first one that fails: the measurement for that one stands
before its failing call. -/
def untilFailure (output : OutputT) (t : List Event) : ℕ∞ :=
  if output.Supported then countUntil measures writeFails t - 1 else 0

theorem only_outputwMatUi32 (output : OutputT) (data : UInt64 → UInt32) (dimX dimY : UInt64) :
    Only [.print, .dataset, .closing] (outputwMatUi32 output data dimX dimY) := by
  refine Only.ite (((only_fprintfAll _ _).mono (by simp)).bind fun _ => only_pure _)
    (Only.ite ?_ (only_pure _))
  refine (only_sys (by simp)).bind fun dataset => Only.ite (only_pure _) ?_
  refine (only_sys (by simp)).bind fun status => Only.ite (only_pure _) ?_
  exact (only_sys (by simp)).bind fun _ => only_pure _

/-- An event that is neither a reading of the flag nor a measurement. -/
structure Unmeasured (e : Event) : Prop where
  readsSet : readsSet e = false
  readsUnset : readsUnset e = false
  measures : measures e = false

theorem unmeasured_of_kind {e : Event} (h : e.1.kind ∈ [Kind.print, .dataset, .closing]) :
    Unmeasured e := by
  obtain ⟨c, a⟩ := e
  cases c <;> first | exact ⟨rfl, rfl, rfl⟩ | simp at h

section

variable {cache : CacheInfo} {buffer : Ptr} {output : OutputT} {t : List Event}
  {r : ErrorT × OutputT}

/-- What an iteration adds to the counts. -/
theorem Iteration.counts (h : Iteration cache buffer output t r) :
    t.countP readsUnset = 1 ∧ (∀ e ∈ t, readsSet e = false) ∧ t.countP measures = 1 := by
  obtain ⟨hread, hwrite⟩ := h
  have hall := fun e he => unmeasured_of_kind (only_outputwMatUi32 _ _ _ _ _ _ hwrite e he)
  refine ⟨?_, ?_, ?_⟩
  · simp only [List.countP_cons, List.countP_eq_zero.mpr fun e he =>
      Bool.eq_false_iff.mp (hall e he).readsUnset, readsUnset, hread]
    rfl
  · simp only [List.forall_mem_cons, readsSet, hread, true_and]
    exact fun e he => (hall e he).readsSet
  · simp only [List.countP_cons, List.countP_eq_zero.mpr fun e he =>
      Bool.eq_false_iff.mp (hall e he).measures, measures]
    rfl

/-- What the write of an iteration does. -/
theorem Iteration.write (h : Iteration cache buffer output t r) :
    r.2.type = output.type ∧
      (r.1 = errorNone ↔ output.Supported ∧ ∀ e ∈ t, writeFails e = false) := by
  obtain ⟨hread, hwrite⟩ := h
  obtain ⟨res, output', hr, htype, hres⟩ := outputwMatUi32_run hwrite
  obtain rfl := Option.some.inj hr
  refine ⟨htype, hres.trans ?_⟩
  simp only [List.forall_mem_cons, writeFails, true_and]

/-- A failing write is the one after its measurement. -/
theorem Iteration.count_failed (h : Iteration cache buffer output t r) (hres : r.1 ≠ errorNone)
    (hsupported : output.Supported) : countUntil measures writeFails t = 1 := by
  have hfails : ∃ e ∈ t, writeFails e = true := by
    by_contra hnone
    refine hres (h.write.2.mpr ⟨hsupported, fun e he => ?_⟩)
    exact Bool.eq_false_iff.mpr fun hfails => hnone ⟨e, he, hfails⟩
  obtain ⟨hread, hwrite⟩ := h
  have hall := fun e he => unmeasured_of_kind (only_outputwMatUi32 _ _ _ _ _ _ hwrite e he)
  simp only [List.exists_mem_cons_iff, writeFails, Bool.false_eq_true, false_or] at hfails
  have hzero : countUntil measures writeFails _ = 0 :=
    countUntil_eq_zero (fun e he => (hall e he).measures) hfails
  rw [countUntil_cons_of_neg rfl, countUntil_cons_of_neg rfl, countUntil_cons_of_neg rfl,
    countUntil_cons_of_neg rfl, hzero]
  simp [measures]

/-- What complete iterations add to the counts. -/
theorem Iterations.counts {ts : List (List Event)} {output' : OutputT}
    (h : Iterations cache buffer output ts output') :
    ts.flatten.countP readsUnset = ts.length ∧ (∀ e ∈ ts.flatten, readsSet e = false) ∧
      ts.flatten.countP measures = ts.length ∧ (∀ e ∈ ts.flatten, writeFails e = false) ∧
      output'.type = output.type ∧ (ts ≠ [] → output.Supported) := by
  induction h with
  | nil output => simp
  | @cons output output' output'' t ts hiteration hrest ih =>
    obtain ⟨hunset, hset, hmeasures⟩ := hiteration.counts
    obtain ⟨htype, hwrite⟩ := hiteration.write
    obtain ⟨hsupported, hfails⟩ := hwrite.mp rfl
    obtain ⟨hunsets, hsets, hmeasuress, hfailss, htypes, -⟩ := ih
    rw [List.flatten_cons, List.countP_append, List.countP_append, hunset, hmeasures, hunsets,
      hmeasuress, List.length_cons, Nat.add_comm]
    exact ⟨rfl, fun e he => (List.mem_append.mp he).elim (hset e) (hsets e), rfl,
      fun e he => (List.mem_append.mp he).elim (hfails e) (hfailss e), htypes.trans htype,
      fun _ => hsupported⟩

end

/-! ### The number of matrices -/

section

variable {cache : CacheInfo} {buffer : Ptr} {iterations fd : UInt32} {output : OutputT}
  {start tail : List Event} {ts : List (List Event)} {output' : OutputT}
  {o : Option (ErrorT × OutputT)}

/-- The end of a run after disabling the counter. -/
theorem disable_counts {t : List Event} {res : ErrorT}
    (h : (disableCpuCycleCounter fd).Run t (some res)) :
    (∀ e ∈ t, Unmeasured e) ∧ ∀ e ∈ t, writeFails e = false := by
  obtain ⟨a, rfl, -⟩ := disableCpuCycleCounter_run.mp h
  simp only [List.mem_singleton, forall_eq]
  exact ⟨⟨rfl, rfl, rfl⟩, rfl⟩

theorem le_asked {n : ℕ} (h : iterations = 0 ∨ n < iterations.toNat) :
    (n : ℕ∞) ≤ asked iterations := by
  rw [asked]
  split_ifs with hzero
  · exact le_top
  · exact Nat.cast_le.mpr (h.resolve_left hzero).le

/-- The counts at an end of the loop, after as many iterations as it has made. -/
theorem Ends.counts {n : ℕ} (h : Ends cache buffer iterations fd n output tail o) (ho : o ≠ none)
    (hsupported : n ≠ 0 → output.Supported) :
    (n : ℕ∞) = min (asked iterations) (min (n + untilSeen tail)
      (if output.Supported then n + countUntil measures writeFails tail - 1 else 0)) := by
  have hzero : ¬ output.Supported → n = 0 := fun hnot => not_not.mp fun hn => hnot (hsupported hn)
  cases h with
  | cut => exact absurd rfl ho
  | done hne hj hdisable =>
    obtain ⟨hquiet, hfails⟩ := disable_counts hdisable
    have hn : n ≠ 0 := by
      rintro rfl
      exact hne (UInt32.toNat_inj.mp hj.symm)
    rw [untilSeen, countUntil_eq_top fun e he => (hquiet e he).readsSet, countUntil_eq_top hfails,
      if_pos (hsupported hn), asked, if_neg hne, hj, add_top, ENat.top_sub_one, min_top_right,
      min_top_right]
  | @seen read t res hj hread hdisable =>
    obtain ⟨-, hfails⟩ := disable_counts hdisable
    have hfails' : ∀ e ∈ (⟨.terminated, read⟩ : Event) :: t, writeFails e = false :=
      List.forall_mem_cons.mpr ⟨rfl, hfails⟩
    have hset : readsSet ⟨.terminated, read⟩ = true := hread
    have hseen : untilSeen (⟨.terminated, read⟩ :: t) = 0 := countUntil_cons_of_pos hset _
    have hwrites : (n : ℕ∞) ≤ if output.Supported then
        n + countUntil measures writeFails (⟨.terminated, read⟩ :: t) - 1 else 0 := by
      split_ifs with hs
      · rw [countUntil_eq_top hfails', add_top, ENat.top_sub_one]
        exact le_top
      · rw [hzero hs]
        exact le_rfl
    rw [hseen, add_zero, min_eq_left hwrites, min_eq_right (le_asked hj)]
  | failed hj hres hiteration =>
    have hseen : untilSeen tail = ⊤ := countUntil_eq_top hiteration.counts.2.1
    have hwrites : (if output.Supported then n + countUntil measures writeFails tail - 1 else 0) =
        (n : ℕ∞) := by
      split_ifs with hs
      · rw [hiteration.count_failed hres hs, ← Nat.cast_one, ← Nat.cast_add, ← ENat.natCast_sub,
          Nat.add_sub_cancel]
      · rw [hzero hs]
        rfl
    rw [hseen, add_top, min_top_left, hwrites, min_eq_right (le_asked hj)]

end

/-! ### The flag -/

/-- A signal whose handler sets the flag. -/
def Signal.setsTerminated : Signal → Bool
  | .exited _ => false
  | .sigchld => true
  | .handled _ => true

/-- The flag is set by a handler that runs before the call. -/
def setsTerminated (e : Event) : Bool := e.2.signals.any Signal.setsTerminated

/-- The readings of the flag in a run, if it is `before` at the beginning: it is set as soon as a
handler has run, and stays so. -/
def ReadsFlag (before : Bool) (t : List Event) : Prop :=
  ∀ (t₁ : List Event) (a : Answer .terminated) (t₂ : List Event), t = t₁ ++ ⟨_, a⟩ :: t₂ →
    a.value = (before || (t₁ ++ [(⟨_, a⟩ : Event)]).any setsTerminated)

/-- Once the flag is set, after the events `t₁`, no iteration begins; so one that is not complete
by then is the last one. -/
def StopsAtFlag (before : Bool) (start : List Event) (ts : List (List Event))
    (t : List Event) : Prop :=
  ∀ t₁ t₂, t = t₁ ++ t₂ → (before || t₁.any setsTerminated) = true → ∀ k < ts.length,
    ¬ t₁ <+: start ++ (ts.take k).flatten ∧
      (¬ start ++ (ts.take (k + 1)).flatten <+: t₁ → k + 1 = ts.length)

section

variable {cache : CacheInfo} {buffer : Ptr} {output output' : OutputT} {ts : List (List Event)}

/-- Each iteration begins with a reading of the flag that finds it unset. -/
theorem Iterations.begins (h : Iterations cache buffer output ts output') :
    ∀ k < ts.length, ∃ (read : Answer .terminated) (rest : List Event),
      read.value = false ∧ ts.flatten = (ts.take k).flatten ++ ⟨_, read⟩ :: rest := by
  induction h with
  | nil => intro k hk; exact absurd hk (Nat.not_lt_zero k)
  | @cons output output' output'' t ts hiteration hrest ih =>
    intro k hk
    cases k with
    | zero =>
      obtain ⟨hread, hwrite⟩ := hiteration
      exact ⟨_, _, hread, rfl⟩
    | succ k =>
      obtain ⟨read, rest, hread, heq⟩ := ih k (Nat.lt_of_succ_lt_succ hk)
      exact ⟨read, rest, hread, by
        rw [List.flatten_cons, List.take_succ_cons, List.flatten_cons, heq, List.append_assoc]⟩

/-- No iteration begins after the flag is set. -/
theorem stopsAtFlag {before : Bool} {start tail t : List Event}
    (h : Iterations cache buffer output ts output') (ht : t = start ++ (ts.flatten ++ tail))
    (hflag : ReadsFlag before t) : StopsAtFlag before start ts t := by
  intro t₁ t₂ hsplit hset
  have hbegins : ∀ k < ts.length, ¬ t₁ <+: start ++ (ts.take k).flatten := by
    rintro k hk ⟨u, hu⟩
    obtain ⟨read, rest, hread, heq⟩ := h.begins k hk
    have htrace : t = (start ++ (ts.take k).flatten) ++ ⟨_, read⟩ :: (rest ++ tail) := by
      rw [ht, heq]
      simp only [List.append_assoc, List.cons_append]
    have hvalue := hflag _ read _ htrace
    rw [← hu, hread, List.any_append, List.any_append] at hvalue
    -- the flag was set before the reading
    cases before with
    | true => cases hvalue
    | false =>
      rw [Bool.false_or] at hset
      rw [hset] at hvalue
      cases hvalue
  intro k hk
  refine ⟨hbegins k hk, fun hopen => ?_⟩
  by_contra hne
  have hprefix : start ++ (ts.take (k + 1)).flatten <+: t := by
    rw [ht]
    have hflatten := congrArg List.flatten (List.take_append_drop (k + 1) ts)
    rw [List.flatten_append] at hflatten
    exact ⟨(ts.drop (k + 1)).flatten ++ tail, by
      rw [List.append_assoc, ← List.append_assoc (ts.take (k + 1)).flatten, hflatten]⟩
  exact hbegins (k + 1) (by omega)
    ((List.prefix_or_prefix_of_prefix hprefix ⟨t₂, hsplit.symm⟩).resolve_left hopen)

end

/-! ### The matrix is of its iteration -/

section

variable {σ : Type} (core : Core σ)

/-- The call of `probe` is the assembly loop, on some state of the processor and with something in
the result array. -/
def ProbedBy : Event → Prop
  | ⟨.probe lineSize setCount wayCount (.mapped address), a⟩ =>
    ∃ mem old mem', probe core lineSize setCount wayCount address (2 ^ 32) mem old =
      some (mem', a.value)
  | _ => True

/-- A full prime and a full probe: `prime` loads all lines, and the cells of the matrix are what
`probe` writes in one go, whatever is in the result array before. -/
structure Fresh (cache : CacheInfo) (address : UInt64) (result : UInt64 → UInt32) : Prop where
  prime : ∀ mem, prime core cache.lineSize.toUInt64 cache.setCount.toUInt64
      cache.waysOfAssociativity.toUInt64 address (2 ^ 32) mem =
    some (loadAll core
      ((primeOrder cache.setCount.toNat cache.waysOfAssociativity.toNat).map fun p =>
        lineAddress cache.lineSize.toUInt64 cache.setCount.toUInt64 address (UInt64.ofNat p.1)
          (UInt64.ofNat p.2)) mem)
  probe : ∃ mem, ∀ old, ∃ mem' result', probe core cache.lineSize.toUInt64
      cache.setCount.toUInt64 cache.waysOfAssociativity.toUInt64 address (2 ^ 32) mem old =
        some (mem', result') ∧
    ∀ k < cache.setCount.toNat * cache.waysOfAssociativity.toNat,
      result' (UInt64.ofNat k) = result (UInt64.ofNat k)

variable {core}

/-- What the measuring loop does to the processor does not depend on the array. -/
theorem foldl_measureAt_fst {lineSize setCount wayCount buffer : UInt64} (ps : List (ℕ × ℕ))
    (mem : σ) (old new : UInt64 → UInt32) :
    (ps.foldl (measureAt core lineSize setCount wayCount buffer) (mem, old)).1 =
      (ps.foldl (measureAt core lineSize setCount wayCount buffer) (mem, new)).1 := by
  induction ps generalizing mem old new with
  | nil => rfl
  | cons p ps ih => exact ih _ _ _

section

variable {cache : CacheInfo} (hsets : 0 < cache.setCount.toNat)
  (hways : 0 < cache.waysOfAssociativity.toNat) (address : UInt64)

include hsets hways

/-- `probe` in an iteration, in closed form. -/
theorem probe_cache_eq (mem : σ) (array : UInt64 → UInt32) :
    probe core cache.lineSize.toUInt64 cache.setCount.toUInt64
      cache.waysOfAssociativity.toUInt64 address (2 ^ 32) mem array =
    some ((probeOrder cache.setCount.toNat cache.waysOfAssociativity.toUInt64.toNat).foldl
      (measureAt core cache.lineSize.toUInt64 cache.setCount.toUInt64
        cache.waysOfAssociativity.toUInt64 address) (mem, array)) := by
  have hs := cache.setCount.toNat_lt
  have hw := cache.waysOfAssociativity.toNat_lt
  exact probe_eq core cache.lineSize.toUInt64 cache.setCount.toUInt64
    cache.waysOfAssociativity.toUInt64 address (UInt32.toNat_toUInt64 _) (UInt32.toNat_toUInt64 _)
    hsets hways (hs.trans (by norm_num)) (hw.trans (by norm_num)) hs.le hw.le mem array

/-- **`probe` overwrites every cell** of the matrix: nothing of an earlier iteration stays. -/
theorem probe_overwrites {mem mem₁ mem₂ : σ} {old new result₁ result₂ : UInt64 → UInt32}
    (h₁ : probe core cache.lineSize.toUInt64 cache.setCount.toUInt64
      cache.waysOfAssociativity.toUInt64 address (2 ^ 32) mem old = some (mem₁, result₁))
    (h₂ : probe core cache.lineSize.toUInt64 cache.setCount.toUInt64
      cache.waysOfAssociativity.toUInt64 address (2 ^ 32) mem new = some (mem₂, result₂)) :
    ∀ k < cache.setCount.toNat * cache.waysOfAssociativity.toNat,
      result₂ (UInt64.ofNat k) = result₁ (UInt64.ofNat k) := by
  intro k hk
  rw [probe_cache_eq hsets hways] at h₁ h₂
  have hsmall : cache.setCount.toNat * cache.waysOfAssociativity.toUInt64.toNat < 2 ^ 64 :=
    calc _ < 2 ^ 32 * 2 ^ 32 :=
          Nat.mul_lt_mul'' cache.setCount.toNat_lt cache.waysOfAssociativity.toNat_lt
      _ = 2 ^ 64 := by norm_num
  have hk' : k < (probeOrder cache.setCount.toNat
      cache.waysOfAssociativity.toUInt64.toNat).length := by
    rw [length_probeOrder]
    exact hk
  -- the value is the time of the measurement that belongs to the cell
  have hcell := fun array => foldl_measureAt_getElem core cache.lineSize.toUInt64
    cache.setCount.toUInt64 address (nodup_cells hsmall) (mem, array) hk'
  simp only [cell_getElem hk'] at hcell
  have hresult₁ : _ = result₁ := congrArg Prod.snd (Option.some.inj h₁)
  have hresult₂ : _ = result₂ := congrArg Prod.snd (Option.some.inj h₂)
  rw [← hresult₁, ← hresult₂, hcell, hcell, foldl_measureAt_fst _ mem new old]

/-- The matrix of an iteration is fresh. -/
theorem fresh_of_probedBy {probed : Answer (probeCall cache (.mapped address))}
    (h : ProbedBy core ⟨_, probed⟩) : Fresh core cache address probed.value where
  prime mem := by
    have hs := cache.setCount.toNat_lt
    have hw := cache.waysOfAssociativity.toNat_lt
    exact prime_eq core _ _ _ address (UInt32.toNat_toUInt64 _) (UInt32.toNat_toUInt64 _) hsets
      hways (hs.trans (by norm_num)) (hw.trans (by norm_num)) hs.le hw.le mem
  probe := by
    obtain ⟨mem, old, mem', hrun⟩ := h
    exact ⟨mem, fun new => ⟨_, _, probe_cache_eq hsets hways address mem new,
      probe_overwrites hsets hways address hrun (probe_cache_eq hsets hways address mem new)⟩⟩

end

end

/-! ### Whole runs -/

/-- The runs of `enable_cpu_cycle_counter` end with the only error, or with success. -/
theorem enableCpuCycleCounter_returns {cpu : UInt32} {t : List Event}
    {o : Option (Except ErrorT UInt32)} (h : (enableCpuCycleCounter cpu).Run t o) :
    o = some (.error errorFdCycle) ∨ ∃ fd, o = some (.ok fd) := by
  obtain ⟨a, t₁, rfl, h₁⟩ := run_sys_bind.mp h
  split_ifs at h₁ with hopen
  · exact .inl h₁.2
  obtain ⟨b, t₂, rfl, h₂⟩ := run_sys_bind.mp h₁
  split_ifs at h₂ with hreset
  · exact .inl h₂.2
  obtain ⟨c, t₃, rfl, -, rfl⟩ := run_sys_bind.mp h₂
  split_ifs with henable
  · exact .inl rfl
  · exact .inr ⟨_, rfl⟩

/-- The events of `enable_cpu_cycle_counter` are of no concern. -/
theorem within_enable_unmeasured (cpu : UInt32) :
    (enableCpuCycleCounter cpu).Within fun e => Unmeasured e ∧ writeFails e = false :=
  within_enableCpuCycleCounter (fun _ => ⟨⟨rfl, rfl, rfl⟩, rfl⟩) fun _ _ _ => ⟨⟨rfl, rfl, rfl⟩, rfl⟩

/-- **Runs of `profile`**: the counter can not be enabled, or it is, and the loop runs. -/
theorem profile_run {fuel : ℕ} {cache : CacheInfo} {cpu iterations : UInt32} {buffer : Ptr}
    {output : OutputT} {t : List Event} {o : Option (ErrorT × OutputT)}
    (h : (profile fuel cache cpu iterations buffer output).Run t o) :
    (o = some (errorFdCycle, output) ∧
      (enableCpuCycleCounter cpu).Run t (some (.error errorFdCycle))) ∨
    ∃ fd start ts tail output', t = start ++ (ts.flatten ++ tail) ∧
      (enableCpuCycleCounter cpu).Run start (some (.ok fd)) ∧
      Iterations cache buffer output ts output' ∧
      Ends cache buffer iterations fd ts.length output' tail o ∧ (o = none → ts.length = fuel) := by
  obtain ⟨start, rest, r, rfl, henable, hloop⟩ | ⟨-, henable⟩ := Prog.run_bind.mp h
  swap
  · obtain hnone | ⟨_, hnone⟩ := enableCpuCycleCounter_returns henable <;> cases hnone
  obtain hr | ⟨fd, hr⟩ := enableCpuCycleCounter_returns henable
  · obtain rfl := Option.some.inj hr
    obtain ⟨rfl, rfl⟩ := hloop
    exact .inl ⟨rfl, by rwa [List.append_nil]⟩
  obtain rfl := Option.some.inj hr
  obtain ⟨ts, tail, output', rfl, hts, hends, hcut⟩ :=
    profileLoop_run fuel 0 output rest (.inr (Nat.zero_le _)) hloop
  rw [UInt32.toNat_zero, Nat.zero_add] at hends
  exact .inr ⟨fd, start, ts, tail, output', rfl, henable, hts, hends, hcut⟩

/-- **A run of `profile`** with the counter enabled, as its iterations `ts` and its end. -/
structure Profiled (fuel : ℕ) (cache : CacheInfo) (iterations : UInt32) (buffer : Ptr)
    (output : OutputT) (t : List Event) (o : Option (ErrorT × OutputT)) (start : List Event)
    (ts : List (List Event)) (tail : List Event) : Prop where
  split : t = start ++ (ts.flatten ++ tail)
  /-- A matrix is written in each of the iterations, and none at the end. -/
  written : ∃ fd output', Iterations cache buffer output ts output' ∧
    Ends cache buffer iterations fd ts.length output' tail o
  count : o ≠ none → (ts.length : ℕ∞) =
    min (asked iterations) (min (untilSeen t) (untilFailure output t))
  /-- The loop is cut off by its bound only. -/
  cut : o = none → ts.length = fuel ∧ (fuel : ℕ∞) ≤ asked iterations
  flag : ∀ before, ReadsFlag before t → StopsAtFlag before start ts t
  fresh : ∀ (σ : Type) (core : Core σ) (address : UInt64), buffer = .mapped address →
    0 < cache.setCount.toNat → 0 < cache.waysOfAssociativity.toNat → (∀ e ∈ t, ProbedBy core e) →
      ∀ probed : Answer (probeCall cache (.mapped address)), (⟨_, probed⟩ : Event) ∈ t →
        Fresh core cache address probed.value

/-- Counting in a run: what comes before the loop does not count, and each iteration counts once. -/
theorem countUntil_run {p q : Event → Bool} {start tail : List Event} {ts : List (List Event)}
    (hstart : ∀ e ∈ start, p e = false ∧ q e = false) (hcount : ts.flatten.countP p = ts.length)
    (hts : ∀ e ∈ ts.flatten, q e = false) :
    countUntil p q (start ++ (ts.flatten ++ tail)) = ts.length + countUntil p q tail := by
  have hnone : start.countP p = 0 :=
    List.countP_eq_zero.mpr fun e he => Bool.eq_false_iff.mp (hstart e he).1
  rw [countUntil_append fun e he => (hstart e he).2, hnone, Nat.cast_zero, zero_add,
    countUntil_append hts, hcount]

/-- **`profile` writes as many matrices as it is asked for**, as the flag allows and as can be
written, whichever comes first; unless the counter can not be enabled. -/
theorem profile_writes (fuel : ℕ) (cache : CacheInfo) (cpu iterations : UInt32) (buffer : Ptr)
    (output : OutputT) (t : List Event) (o : Option (ErrorT × OutputT))
    (h : (profile fuel cache cpu iterations buffer output).Run t o) :
    (o = some (errorFdCycle, output) ∧ ∀ e ∈ t, Unmeasured e ∧ writeFails e = false) ∨
      ∃ start ts tail, Profiled fuel cache iterations buffer output t o start ts tail := by
  obtain ⟨rfl, henable⟩ | ⟨fd, start, ts, tail, output', rfl, henable, hts, hends, hcut⟩ :=
    profile_run h
  · exact .inl ⟨rfl, within_enable_unmeasured cpu t _ henable⟩
  have hstart := within_enable_unmeasured cpu start _ henable
  obtain ⟨hunset, hset, hmeasures, hfails, htype, hsupported⟩ := hts.counts
  have hkind : output'.Supported ↔ output.Supported := by
    rw [OutputT.Supported, OutputT.Supported, htype]
  refine .inr ⟨start, ts, tail, rfl, ⟨fd, output', hts, hends⟩, fun ho => ?_, fun ho => ?_,
    fun before hflag => stopsAtFlag hts rfl hflag,
    fun σ core address hbuffer hsets hways hprobed probed hmem =>
      fresh_of_probedBy hsets hways address (hprobed _ hmem)⟩
  · rw [untilSeen, untilFailure,
      countUntil_run (fun e he => ⟨(hstart e he).1.readsUnset, (hstart e he).1.readsSet⟩) hunset
        hset,
      countUntil_run (fun e he => ⟨(hstart e he).1.measures, (hstart e he).2⟩) hmeasures hfails,
      ← if_congr hkind rfl rfl]
    exact hends.counts ho fun hn =>
      hkind.mpr (hsupported fun hnil => hn (by rw [hnil, List.length_nil]))
  · subst ho
    obtain ⟨hj⟩ := hends
    rw [hcut rfl] at hj
    refine ⟨hcut rfl, ?_⟩
    rw [asked]
    split_ifs with hzero
    · exact le_top
    · exact Nat.cast_le.mpr (hj.resolve_left hzero)

/-- A machine on which no signal comes. -/
def quietMachine (h : List Event) : (c : Call) → Answer c
  | .terminated => ⟨[], false⟩
  | c => goodMachine h c

/-- Two iterations, with nothing that goes wrong. -/
theorem profile_writes_two :
    let run := (profile 3 firstLevel 0 2 (.mapped 0x800000)
      ⟨outputHd5File, .null, 1, 0⟩).exec quietMachine []
    ∃ start ts tail, Profiled 3 firstLevel 2 (.mapped 0x800000) ⟨outputHd5File, .null, 1, 0⟩
      run.1 run.2 start ts tail := by
  refine (profile_writes 3 firstLevel 0 2 (.mapped 0x800000) ⟨outputHd5File, .null, 1, 0⟩ _ _
    (Prog.run_exec quietMachine _ [])).resolve_left fun ⟨hfails, _⟩ => ?_
  exact absurd (congrArg (Option.map Prod.fst) hfails) (by decide)

end CacheNoise
