import CacheNoise.Main.Steps
import CacheNoise.Profile.Report

/-!
# The mode `bench`

`main` only ever asks `benchmark` for a number of iterations that an `int` can count and that is
not 0 (`Countable`), whatever the command line says. So its loops come to their ends, and every
benchmark that a run reaches has its report (`main_benchmarks`).
-/

namespace CacheNoise

open Interaction

/-! ### Countable loops -/

/-- If this is the measuring loop of `benchmark`, then an `int` can count its iterations, and there
are some. -/
def Countable (e : Event) : Prop :=
  ∀ iterations, e.1 = .benchLoop iterations → 0 < iterations.toNat ∧ iterations.toNat < 2 ^ 31

theorem countable_of_kinds {e : Event} {K : List Kind} (h : e.1.kind ∈ K) (hK : Kind.measure ∉ K) :
    Countable e := by
  intro iterations heq
  rw [heq] at h
  exact absurd h hK

/-- An `int` that is at least 1, as the number of iterations. -/
theorem iterations_mem {iter : Int32} (h : ¬ iter < 1) :
    0 < iter.toInt64.toUInt64.toNat ∧ iter.toInt64.toUInt64.toNat < 2 ^ 31 := by
  have hle : 1 ≤ iter.toInt := Int32.le_iff_toInt_le.mp (Int32.not_lt.mp h)
  have hlt := iter.toInt_lt
  have hnonneg : 0 ≤ iter.toInt64 := by
    rw [Int64.le_iff_toInt_le, Int32.toInt_toInt64, Int64.toInt_zero]
    omega
  rw [Int64.toNat_toUInt64_of_le hnonneg, Int64.toNatClampNeg, Int32.toInt_toInt64]
  omega

/-- Only countable loops so far. -/
def Counting {α : Type} (m : Main α) : Prop :=
  Cmd.Triple (fun _ h => ∀ e ∈ h, Countable e) m (fun _ _ h => ∀ e ∈ h, Countable e)
    fun _ h => ∀ e ∈ h, Countable e

theorem counting_frame {α κ : Type} {f : Locals → κ} {m : Main α}
    (hm : Cmd.Frame Countable f m) : Counting m :=
  hm.triple_of (I := fun _ h => ∀ e ∈ h, Countable e) (N := fun h => ∀ e ∈ h, Countable e)
    (fun _ _ _ he hI => List.forall_mem_append.mpr ⟨hI, List.forall_mem_singleton.mpr he⟩)
      fun _ _ hI => hI

theorem counting_kinds {α κ : Type} {f : Locals → κ} {K : List Kind} {m : Main α}
    (hm : Cmd.Frame (fun e => e.1.kind ∈ K) f m) (hK : Kind.measure ∉ K) : Counting m :=
  counting_frame (hm.mono (fun _ he => countable_of_kinds he hK) id)

section

variable (leftToRight : Bool)

/-- The mode `bench` replaces a number of iterations that is not positive. -/
theorem counting_benchMode : Counting (benchMode leftToRight) := by
  refine Cmd.Triple.bind (M := fun _ s h => ¬ s.arguments.iter < 1 ∧ ∀ e ∈ h, Countable e)
    (Cmd.triple_modify fun s h hI => ⟨?_, hI⟩) fun _ => ?_
  · by_cases hiter : s.arguments.iter < 1
    · rw [if_pos hiter]
      exact (by decide : ¬ (1000000 : Int32) < 1)
    · rwa [if_neg hiter]
  · have hstep : Cmd.Triple
        (fun s h => ¬ s.arguments.iter < 1 ∧ ∀ e ∈ h, Countable e)
        (exitOnFail leftToRight .benchmark
          (keeping fun s => benchmark s.arguments.iter.toInt64.toUInt64))
        (fun _ s h => ¬ s.arguments.iter < 1 ∧ ∀ e ∈ h, Countable e)
        fun _ h => ∀ e ∈ h, Countable e := by
      refine triple_exitOnFail_within (f := fun s => s.arguments.iter)
        (E := fun iter e => ¬ iter < 1 → Countable e)
        (I := fun iter h => ¬ iter < 1 ∧ ∀ e ∈ h, Countable e) (N := fun h => ∀ e ∈ h, Countable e)
        (fun _ e he _ => countable_of_kinds (List.mem_singleton.mpr he) (by simp)) (fun s => ?_)
        (returns_keeping (f := fun s => s.arguments.iter))
        (fun _ h e he hI => ⟨hI.1, List.forall_mem_append.mpr
          ⟨hI.2, List.forall_mem_singleton.mpr (he hI.1)⟩⟩) fun _ _ hI => hI.2
      refine Prog.Within.bind ?_ fun _ => Prog.within_pure
      refine within_benchmark (fun _ _ _ h => ?_) (fun _ _ _ h => ?_) (fun _ _ _ _ _ h => ?_)
        fun _ hiter iterations h => ?_
      · cases h
      · cases h
      · cases h
      · cases h
        exact iterations_mem hiter
    exact hstep.mono (fun _ _ h => h) (fun _ _ _ h => h.2) fun _ _ h => h

theorem counting_mainBody (fuel : ℕ) : Counting (mainBody leftToRight fuel) := by
  have hget : Counting (Cmd.get : Main Locals) := Cmd.triple_get fun _ _ h => h
  have hprofile : Counting (exitOnFail leftToRight .profile (profileStep fuel)) := by
    refine counting_frame (f := fun _ => ()) (frame_exitOnFail_within leftToRight _
      (fun e he => countable_of_kinds (List.mem_singleton.mpr he) (by simp)) (fun s => ?_)
      fun _ _ _ _ => rfl)
    refine Prog.Within.bind ?_ fun _ => Prog.within_pure
    refine within_profile (fun _ _ h => ?_) fun e he iterations h => ?_
    · cases h
    · rw [h] at he
      cases he
  have hmode : Counting (runMode leftToRight fuel) := by
    refine hget.bind fun s => Cmd.Triple.ite (fun _ => counting_benchMode leftToRight) fun _ =>
      Cmd.Triple.ite (fun _ => ?_) fun _ => Cmd.triple_throw fun _ _ h => h
    exact (counting_kinds (frame_openOutput leftToRight) (by simp)).bind fun _ =>
      (counting_kinds (frame_alloc leftToRight) (by simp)).bind fun _ =>
        (counting_kinds (frame_startExternal leftToRight) (by simp)).bind fun _ =>
          (counting_kinds frame_setAlarm (by simp)).bind fun _ => hprofile
  refine (counting_kinds (frame_setUp leftToRight) (by simp)).bind fun _ => hget.bind fun s =>
    Cmd.Triple.ite (fun _ => Cmd.triple_pure fun _ _ h => h) fun _ => ?_
  exact (counting_kinds (frame_checkRights leftToRight) (by simp)).bind fun _ =>
    hmode.bind fun _ => counting_kinds frame_killExternal (by simp)

/-! ### The report -/

/-- **Every benchmark has its report**: whenever a run of `main` measures, then for every processor
and every `qsort` the report has the figures of the times that were measured, which no order of
these times changes. -/
theorem main_benchmarks {σ : Type} {fuel : ℕ} {arguments : Arguments} {garbage : Locals}
    {t : List Event} {o : Option ℤ} (h : (main leftToRight fuel arguments garbage).Run t o)
    {iterations : UInt64} {a : Answer (.benchLoop iterations)}
    (hmem : ⟨.benchLoop iterations, a⟩ ∈ t) (core : Core σ)
    {qsort : Sorting.Comparator UInt32 → List UInt32 → List UInt32} (hqsort : Sorting.Sorts qsort)
    (buffer : UInt64) (mem : σ) (array : UInt64 → UInt32)
    (hhalf : SameHalf (times core buffer iterations.toNat mem)) :
    ∃ r, benchReport core qsort iterations buffer (2 ^ 31) mem array = some r ∧
      ∀ times', times'.Perm (times core buffer iterations.toNat mem) →
        ∀ r' : Report, r'.Of times' ↔ r' = r := by
  have hbody := counting_mainBody leftToRight fuel { garbage with arguments, buffer := .null } []
  have hstart : ∀ e ∈ ([] : List Event), Countable e := fun e he => absurd he List.not_mem_nil
  have hcountable : ∀ e ∈ t, Countable e := by
    rcases main_run leftToRight h with ⟨t₁, t₂, r, s, o', rfl, -, h₁, h₂, -⟩ | ⟨s, h₁, -⟩ | ⟨h₁, -⟩
    · refine List.forall_mem_append.mpr ⟨?_, fun e he =>
        countable_of_kinds (only_finalize s t₂ o' h₂ e he) (by simp)⟩
      have hpost := hbody t₁ _ hstart h₁
      rcases r with e | a <;> exact hpost
    · exact hbody t _ hstart h₁
    · exact hbody t _ hstart h₁
  obtain ⟨hpos, hint⟩ := hcountable _ hmem iterations rfl
  exact benchReport_eq core hqsort hpos hint buffer hint mem array hhalf

end

/-- A processor whose loads take longer each time. -/
def slowingCore : Core UInt64 :=
  ⟨fun _ cycles => 2 * cycles + 70, fun cycles => (cycles, cycles)⟩

/-- Three measurements: 70, 140 and 280 cycles. -/
theorem main_benchmarks_three :
    ∃ r, benchReport slowingCore Sorting.insertionSort 3 0 (2 ^ 31) 0 (fun _ => 0) = some r ∧
      ∀ times', times'.Perm (times slowingCore 0 3 0) → ∀ r' : Report, r'.Of times' ↔ r' = r := by
  have hrun := Prog.run_exec goodMachine
    (main true 1 { defaultArguments "bench" with iter := 3 } zeroStack) []
  have hmem : (⟨.benchLoop 3, ⟨[], []⟩⟩ : Event) ∈ (Prog.exec goodMachine
      (main true 1 { defaultArguments "bench" with iter := 3 } zeroStack) []).1 :=
    List.mem_of_getElem? (i := 20) rfl
  exact main_benchmarks true hrun hmem slowingCore Sorting.sorts_insertionSort 0 0 (fun _ => 0)
    (by decide)

end CacheNoise
