import CacheNoise.Main.Steps
import Mathlib

/-!
# The data sets that `main` leaves behind

The visualizer takes the number of data sets of a file as the number of iterations and reads
them by their numerals. This module says when that is right. In every run, the `k`-th attempt to
create a data set uses the name `k`, whether or not it succeeds, also across the repeated
evaluations of `profile` by `EXIT_ON_FAIL` (`Numbered`). So the names of the file are the
positions of the successful attempts, and they are `0, …, N-1` with complete contents if and
only if every write succeeds and no attempt succeeds after a failed one (`main_goodFile_iff`).
-/

namespace CacheNoise

open Interaction

/-! ### What a run shows of its data sets -/

/-- The attempts to create a data set, in order, with `true` for success. -/
def creates (t : List Event) : List Bool :=
  t.filterMap fun
    | ⟨.h5Dcreate .., a⟩ => some (decide (a.value ≠ -1))
    | _ => none

/-- The writes, in order, with `true` for success. -/
def writes (t : List Event) : List Bool :=
  t.filterMap fun
    | ⟨.h5Dwrite .., a⟩ => some (decide (a.value ≠ -1))
    | _ => none

/-- **A file as the visualizer expects it**: its names are `0, …, N-1` for some `N`, and each
data set is completely written. -/
def GoodFile (t : List Event) : Prop :=
  ∃ N : ℕ, (∀ name, name ∈ (h5File t).map DataSet.name ↔ ∃ k < N, name = toString k) ∧
    ∀ d ∈ h5File t, d.contents.isSome = true

/-- Every write succeeds, and no data set is created after a failed attempt. -/
def CleanWrites (t : List Event) : Prop :=
  (∀ w ∈ writes t, w = true) ∧ (creates t).Pairwise fun before after =>
    after = true → before = true

instance (t : List Event) : Decidable (CleanWrites t) :=
  inferInstanceAs (Decidable ((∀ w ∈ writes t, w = true) ∧ (creates t).Pairwise fun before after =>
    after = true → before = true))

theorem creates_append (t u : List Event) : creates (t ++ u) = creates t ++ creates u :=
  List.filterMap_append

theorem writes_append (t u : List Event) : writes (t ++ u) = writes t ++ writes u :=
  List.filterMap_append

theorem h5File_append (t u : List Event) : h5File (t ++ u) = u.foldl h5Step (h5File t) :=
  List.foldl_append

/-! ### Names by position -/

/-- The numerals of the successful attempts, the newest first. -/
def createdNames (flags : List Bool) : List String :=
  (flags.zipIdx.filterMap fun p => if p.1 = true then some (toString p.2) else none).reverse

theorem createdNames_append (flags : List Bool) (b : Bool) :
    createdNames (flags ++ [b]) =
      if b = true then toString flags.length :: createdNames flags else createdNames flags := by
  cases b <;> simp [createdNames, List.zipIdx_append, List.zipIdx_cons]

theorem mem_createdNames {flags : List Bool} {name : String} :
    name ∈ createdNames flags ↔ ∃ k : ℕ, flags[k]? = some true ∧ name = toString k := by
  rw [createdNames, List.mem_reverse, List.mem_filterMap]
  constructor
  · rintro ⟨⟨b, k⟩, hmem, hname⟩
    rw [List.mem_zipIdx_iff_getElem?] at hmem
    cases b with
    | false => exact absurd hname (by simp)
    | true => exact ⟨k, hmem, by simpa using hname.symm⟩
  · rintro ⟨k, hk, rfl⟩
    exact ⟨(true, k), List.mem_zipIdx_iff_getElem?.mpr hk, by simp⟩

/-- The names are an initial segment of the numerals if and only if the successful attempts
are an initial segment of all attempts. -/
theorem createdNames_initial_iff {flags : List Bool} :
    (∃ N : ℕ, ∀ name, name ∈ createdNames flags ↔ ∃ k < N, name = toString k) ↔
      flags.Pairwise fun before after => after = true → before = true := by
  have hname : ∀ {i j : ℕ}, toString i = toString j → i = j := fun h => Nat.repr_injective h
  rw [List.pairwise_iff_getElem]
  constructor
  · rintro ⟨N, hN⟩ i j hi hj hij hafter
    -- position `j` names an element below `N`, hence so does position `i`
    obtain ⟨k, hk, hjk⟩ := (hN (toString j)).mp
      (mem_createdNames.mpr ⟨j, by rw [List.getElem?_eq_getElem hj, hafter], rfl⟩)
    obtain rfl := hname hjk
    obtain ⟨i', hi', hii'⟩ := mem_createdNames.mp ((hN (toString i)).mpr ⟨i, by omega, rfl⟩)
    obtain rfl := hname hii'
    rw [List.getElem?_eq_getElem hi] at hi'
    exact Option.some_injective _ hi'
  · intro h
    refine ⟨flags.findIdx (· == false), fun name => ?_⟩
    rw [mem_createdNames]
    constructor
    · rintro ⟨k, hk, rfl⟩
      obtain ⟨hlt, hk⟩ := List.getElem?_eq_some_iff.mp hk
      refine ⟨k, ?_, rfl⟩
      by_contra hge
      have hfirst : flags.findIdx (· == false) < flags.length := by omega
      have hfalse := List.findIdx_getElem (w := hfirst)
      rcases Nat.lt_or_eq_of_le (Nat.le_of_not_lt hge) with hlt' | heq
      · rw [h _ k hfirst hlt hlt' hk] at hfalse
        simp at hfalse
      · simp only [heq, hk] at hfalse
        simp at hfalse
    · rintro ⟨k, hk, rfl⟩
      have hlt : k < flags.length := hk.trans_le List.findIdx_le_length
      refine ⟨k, ?_, rfl⟩
      rw [List.getElem?_eq_getElem hlt]
      simpa using List.not_of_lt_findIdx hk

/-! ### The invariant -/

/-- **Attempt `k` is named `k`**: with `iter = i` there have been `i` attempts, the file has the
names of the successful ones, and it is complete if and only if every write succeeded. -/
structure Numbered (i : ℕ) (t : List Event) : Prop where
  length_creates : (creates t).length = i
  names : (h5File t).map DataSet.name = createdNames (creates t)
  complete : (∀ d ∈ h5File t, d.contents.isSome = true) ↔ ∀ w ∈ writes t, w = true

/-- What the invariant says of the file. -/
theorem Numbered.goodFile_iff {i : ℕ} {t : List Event} (h : Numbered i t) :
    GoodFile t ↔ CleanWrites t := by
  rw [GoodFile, h.complete, h.names, exists_and_right, createdNames_initial_iff, CleanWrites,
    and_comm]

/-- Only calls that create, write or open change what the invariant is about. -/
theorem Numbered.append_of_kind {i : ℕ} {t : List Event} (h : Numbered i t) {e : Event}
    (he : e.1.kind ≠ .dataset ∧ e.1.kind ≠ .opening) : Numbered i (t ++ [e]) := by
  obtain ⟨c, a⟩ := e
  have hsame : creates (t ++ [⟨c, a⟩]) = creates t ∧ writes (t ++ [⟨c, a⟩]) = writes t ∧
      h5File (t ++ [⟨c, a⟩]) = h5File t := by
    rw [creates_append, writes_append, h5File_append]
    cases c <;>
      first
      | exact absurd rfl he.1
      | exact absurd rfl he.2
      | exact ⟨List.append_nil _, List.append_nil _, rfl⟩
  obtain ⟨hcreates, hwrites, hfile⟩ := hsame
  exact ⟨hcreates ▸ h.length_creates, hfile ▸ hcreates ▸ h.names, hfile ▸ hwrites ▸ h.complete⟩

/-- A failed attempt. -/
theorem Numbered.create_failed {i : ℕ} {t : List Event} (h : Numbered i t) {file : ℤ}
    {name : String} {fileType : H5Type} {dims : UInt64 × UInt64}
    {a : Answer (.h5Dcreate file name fileType dims)} (ha : a.value = -1) :
    Numbered (i + 1) (t ++ [⟨_, a⟩]) := by
  have hcreates : creates (t ++ [⟨_, a⟩]) = creates t ++ [false] := by
    have hone : creates [⟨_, a⟩] = [decide (a.value ≠ -1)] := rfl
    rw [creates_append, hone, decide_eq_false (not_not.mpr ha)]
  have hfile : h5File (t ++ [⟨_, a⟩]) = h5File t := by
    rw [h5File_append]
    exact if_pos ha
  have hwrites : writes (t ++ [⟨_, a⟩]) = writes t := by
    rw [writes_append]
    exact List.append_nil _
  refine ⟨?_, ?_, hfile ▸ hwrites ▸ h.complete⟩
  · rw [hcreates, List.length_append, h.length_creates]
    rfl
  · rw [hfile, hcreates, createdNames_append, h.names]
    rfl

/-- A successful attempt under the name of its position, followed by the write. -/
theorem Numbered.create_write {i : ℕ} {t : List Event} (h : Numbered i t) {file : ℤ}
    {fileType memType : H5Type} {dims : UInt64 × UInt64} {data : List UInt32}
    {a : Answer (.h5Dcreate file (toString i) fileType dims)} (ha : a.value ≠ -1)
    (b : Answer (.h5Dwrite a.value memType data)) :
    Numbered (i + 1) (t ++ [⟨_, a⟩, ⟨_, b⟩]) := by
  have hcreates : creates (t ++ [⟨_, a⟩, ⟨_, b⟩]) = creates t ++ [true] := by
    have hone : creates [⟨_, a⟩, ⟨_, b⟩] = [decide (a.value ≠ -1)] := rfl
    rw [creates_append, hone, decide_eq_true ha]
  have hwrites : writes (t ++ [⟨_, a⟩, ⟨_, b⟩]) = writes t ++ [decide (b.value ≠ -1)] := by
    rw [writes_append]
    rfl
  obtain ⟨contents, hcontents, hfile⟩ : ∃ contents : Option (List ℤ),
      (contents.isSome = true ↔ b.value ≠ -1) ∧ h5File (t ++ [⟨_, a⟩, ⟨_, b⟩]) =
        ⟨toString i, a.value, fileType, dims, contents⟩ :: h5File t := by
    rw [h5File_append]
    have hcreate : h5Step (h5File t) ⟨_, a⟩ =
        ⟨toString i, a.value, fileType, dims, none⟩ :: h5File t := if_neg ha
    rw [List.foldl_cons, List.foldl_cons, List.foldl_nil, hcreate]
    by_cases hb : b.value = -1
    · exact ⟨none, by simp [hb], if_pos hb⟩
    · refine ⟨some (data.map (memType.convert fileType)), by simp [hb], ?_⟩
      refine (if_neg hb).trans ?_
      rw [H5File.write, if_pos rfl]
  refine ⟨?_, ?_, ?_⟩
  · rw [hcreates, List.length_append, h.length_creates]
    rfl
  · rw [hfile, hcreates, createdNames_append, List.map_cons, h.names, h.length_creates]
    rfl
  · rw [hfile, hwrites, List.forall_mem_cons, List.forall_mem_append, List.forall_mem_singleton,
      hcontents, h.complete, decide_eq_true_iff, and_comm]

/-! ### Who keeps it -/

/-- Functions whose calls have nothing to do with data sets. -/
theorem triple_numbered_of_only {K : List Kind} {α : Type} {p : Proc α} (hp : Only K p)
    (hK : Kind.dataset ∉ K ∧ Kind.opening ∉ K) (i : ℕ) :
    p.Triple (Numbered i) (fun _ t => Numbered i t) fun t => ∃ i, Numbered i t := by
  have htriple := hp.triple (I := Numbered i) fun t e he h =>
    h.append_of_kind ⟨fun hk => hK.1 (hk ▸ he), fun hk => hK.2 (hk ▸ he)⟩
  intro t u o h hrun
  have hq := htriple t u o h hrun
  cases o with
  | none => exact ⟨i, hq⟩
  | some a => exact hq

theorem triple_outputwMatUi32 (output : OutputT) (data : UInt64 → UInt32) (dimX dimY : UInt64) :
    (outputwMatUi32 output data dimX dimY).Triple (Numbered output.iter)
      (fun r t => Numbered r.2.iter t) (fun t => ∃ i, Numbered i t) := by
  refine Prog.Triple.ite (fun _ => ?_) fun _ => Prog.Triple.ite (fun _ => ?_) fun _ =>
    Prog.triple_pure fun t h => h
  · exact (triple_numbered_of_only (only_fprintfAll _ _) (by simp) _).bind fun _ =>
      Prog.triple_pure fun t h => h
  · -- the three ways through the calls: create, write, close
    intro t u o h hrun
    obtain ⟨a, u₁, rfl, h₁⟩ := run_sys_bind.mp hrun
    split at h₁
    · next ha =>
      obtain ⟨rfl, rfl⟩ := h₁
      exact h.create_failed ha
    · next ha =>
      obtain ⟨b, u₂, rfl, h₂⟩ := run_sys_bind.mp h₁
      have hwritten := h.create_write ha b
      split at h₂
      · obtain ⟨rfl, rfl⟩ := h₂
        exact hwritten
      · obtain ⟨c, u₃, rfl, rfl, rfl⟩ := run_sys_bind.mp h₂
        have hclosed := hwritten.append_of_kind (e := ⟨_, c⟩) (by simp)
        rwa [List.append_assoc] at hclosed

theorem triple_profileLoop (cache : CacheInfo) (iterations : UInt32) (buffer : Ptr) (fd : UInt32)
    (fuel : ℕ) (j : UInt32) (output : OutputT) :
    (profileLoop cache iterations buffer fd fuel j output).Triple (Numbered output.iter)
      (fun r t => Numbered r.2.iter t) (fun t => ∃ i, Numbered i t) := by
  induction fuel generalizing j output with
  | zero => exact Prog.triple_stuck fun t h => ⟨_, h⟩
  | succ fuel ih =>
    have hmeasure : ∀ c : Call, c.kind = .measure → (sys c).Triple (Numbered output.iter)
        (fun _ t => Numbered output.iter t) fun t => ∃ i, Numbered i t := fun c hc =>
      triple_numbered_of_only (only_sys (K := [.measure]) (List.mem_singleton.mpr hc)) (by simp) _
    have hdone : (do
        let res ← disableCpuCycleCounter fd
        pure (res, output) : Proc (ErrorT × OutputT)).Triple (Numbered output.iter)
          (fun r t => Numbered r.2.iter t) (fun t => ∃ i, Numbered i t) :=
      (triple_numbered_of_only (only_disableCpuCycleCounter fd) (by simp) _).bind fun _ =>
        Prog.triple_pure fun t h => h
    refine Prog.Triple.ite (fun _ => ?_) fun _ => hdone
    refine (hmeasure _ rfl).bind fun terminated => Prog.Triple.ite (fun _ => hdone) fun _ => ?_
    refine (hmeasure _ rfl).bind fun _ => (hmeasure _ rfl).bind fun _ => ?_
    refine (hmeasure _ rfl).bind fun result => ?_
    refine (triple_outputwMatUi32 _ _ _ _).bind fun r => ?_
    exact Prog.Triple.ite (fun _ => Prog.triple_pure fun t h => h) fun _ => ih _ _

theorem triple_profile (fuel : ℕ) (cache : CacheInfo) (cpu iterations : UInt32) (buffer : Ptr)
    (output : OutputT) :
    (profile fuel cache cpu iterations buffer output).Triple (Numbered output.iter)
      (fun r t => Numbered r.2.iter t) (fun t => ∃ i, Numbered i t) := by
  refine (triple_numbered_of_only (only_enableCpuCycleCounter cpu) (by simp) _).bind fun r => ?_
  cases r with
  | error res => exact Prog.triple_pure fun t h => h
  | ok fd => exact triple_profileLoop _ _ _ _ _ _ _

/-! ### Whole runs -/

/-- Nothing about data sets has happened. -/
def NoData (t : List Event) : Prop := creates t = [] ∧ writes t = [] ∧ h5File t = []

theorem NoData.numbered {t : List Event} (h : NoData t) : Numbered 0 t := by
  obtain ⟨hcreates, hwrites, hfile⟩ := h
  exact ⟨by rw [hcreates]; rfl, by rw [hcreates, hfile]; rfl, by simp [hwrites, hfile]⟩

theorem NoData.append_of_kind {t : List Event} (h : NoData t) {e : Event}
    (he : e.1.kind ≠ .dataset) : NoData (t ++ [e]) := by
  obtain ⟨hcreates, hwrites, hfile⟩ := h
  obtain ⟨c, a⟩ := e
  rw [NoData, creates_append, writes_append, h5File_append, hcreates, hwrites, hfile]
  cases c <;> first | exact absurd rfl he | exact ⟨rfl, rfl, rfl⟩ | skip
  exact ⟨rfl, rfl, ite_self _⟩

/-- The parts of `main` that have nothing to do with data sets, before there are any. -/
theorem triple_noData {α κ : Type} {K : List Kind} {f : Locals → κ} {m : Main α}
    (hm : Cmd.Frame (fun e => e.1.kind ∈ K) f m) (hK : Kind.dataset ∉ K) :
    Cmd.Triple (fun _ t => NoData t) m (fun _ _ t => NoData t) fun _ t => ∃ i, Numbered i t :=
  hm.triple_of (I := fun _ t => NoData t)
    (fun _ _ _ he hI => hI.append_of_kind (ne_of_mem_of_not_mem he hK))
    fun _ _ hI => ⟨0, hI.numbered⟩

/-- The same afterwards. -/
theorem triple_numbered {α κ : Type} {K : List Kind} {f : Locals → κ} {m : Main α}
    (hm : Cmd.Frame (fun e => e.1.kind ∈ K) f m) (g : κ → ℕ) (hg : ∀ s, g (f s) = s.output.iter)
    (hK : Kind.dataset ∉ K ∧ Kind.opening ∉ K) :
    Cmd.Triple (fun s t => Numbered s.output.iter t) m (fun _ s t => Numbered s.output.iter t)
      fun _ t => ∃ i, Numbered i t := by
  have htriple := (hm.mono (fun _ h => h) g).triple_of (I := Numbered)
    (N := fun t => ∃ i, Numbered i t) (fun i t e he hI =>
      hI.append_of_kind ⟨fun hk => hK.1 (hk ▸ he), fun hk => hK.2 (hk ▸ he)⟩) fun i _ hI => ⟨i, hI⟩
  simpa only [hg] using htriple

section

variable (leftToRight : Bool)

/-- Every output starts to number at 0. -/
theorem triple_openOutput :
    Cmd.Triple (fun _ t => NoData t) (openOutput leftToRight)
      (fun _ s t => Numbered s.output.iter t) fun _ t => ∃ i, Numbered i t := by
  have hiter : Cmd.Triple (fun _ _ => True) (openOutput leftToRight)
      (fun _ s _ => s.output.iter = 0) fun _ _ => True := by
    refine Cmd.Triple.bind (M := fun _ _ _ => True) (Cmd.triple_get fun _ _ h => h) fun s => ?_
    cases s.arguments.outputFile with
    | none =>
      refine triple_exitOnFail_ok fun s h u s' a b _ hbody => ?_
      obtain ⟨-, heq⟩ := hbody
      obtain ⟨-, rfl⟩ := Prod.mk.inj (Option.some_injective _ heq)
      rfl
    | some file =>
      refine triple_exitOnFail_ok fun s h u s' a b _ hbody => ?_
      rcases Prog.run_bind.mp hbody with ⟨u₁, u₂, ⟨res, output⟩, rfl, h₁, h₂⟩ | ⟨h, -⟩
      · obtain ⟨rfl, heq⟩ := h₂
        obtain ⟨rfl, rfl⟩ := Prod.mk.inj (Option.some_injective _ heq)
        obtain ⟨fileId, u₂, rfl, h₂⟩ := run_sys_bind.mp h₁
        obtain ⟨mode, u₃, rfl, h₃⟩ := run_sys_bind.mp h₂
        split at h₃
        · exact absurd (Prod.mk.inj (Option.some_injective _ h₃.2)).1 (by decide)
        split at h₃
        · exact absurd (Prod.mk.inj (Option.some_injective _ h₃.2)).1 (by decide)
        · rw [(Prod.mk.inj (Option.some_injective _ h₃.2)).2]
      · exact absurd h (by simp)
  have hdata := triple_noData (frame_openOutput leftToRight) (by simp)
  exact (hdata.and hiter).mono (fun _ _ h => ⟨h, trivial⟩)
    (fun _ s t hQ => hQ.2 ▸ hQ.1.numbered) fun _ _ hX => hX.1

theorem triple_profileMode (fuel : ℕ) :
    Cmd.Triple (fun _ t => NoData t) (profileMode leftToRight fuel)
      (fun _ s t => Numbered s.output.iter t) fun _ t => ∃ i, Numbered i t := by
  have halloc := triple_numbered (frame_alloc leftToRight) (fun x => x.1.iter) (fun _ => rfl)
    (by simp)
  have hstart := triple_numbered (frame_startExternal leftToRight) (fun x => x.output.iter)
    (fun _ => rfl) (by simp)
  have halarm := triple_numbered frame_setAlarm (fun s => s.output.iter) (fun _ => rfl) (by simp)
  have hprofile : Cmd.Triple (fun s t => Numbered s.output.iter t)
      (exitOnFail leftToRight .profile (profileStep fuel))
      (fun _ s t => Numbered s.output.iter t) fun _ t => ∃ i, Numbered i t :=
    triple_exitOnFail (fun s t e he hI =>
        hI.append_of_kind ⟨by rw [he]; decide, by rw [he]; decide⟩) (fun s t hI => ⟨_, hI⟩)
      fun s => (triple_profile _ _ _ _ _ _).bind fun r => Prog.triple_pure fun t h => h
  exact (triple_openOutput leftToRight).bind fun _ => halloc.bind fun _ => hstart.bind fun _ =>
    halarm.bind fun _ => hprofile

theorem triple_mainBody_numbered (fuel : ℕ) :
    Cmd.Triple (fun _ t => NoData t) (mainBody leftToRight fuel)
      (fun _ _ t => ∃ i, Numbered i t) fun _ t => ∃ i, Numbered i t := by
  have hget : Cmd.Triple (fun _ t => NoData t) (Cmd.get : Main Locals) (fun _ _ t => NoData t)
      fun _ t => ∃ i, Numbered i t := Cmd.triple_get fun _ _ h => h
  have hmode : Cmd.Triple (fun _ t => NoData t) (runMode leftToRight fuel)
      (fun _ s t => ∃ i, Numbered i t) fun _ t => ∃ i, Numbered i t := by
    refine hget.bind fun s => Cmd.Triple.ite (fun _ => ?_) fun _ => Cmd.Triple.ite (fun _ => ?_)
      fun _ => Cmd.triple_throw fun s t h => ⟨0, h.numbered⟩
    · exact (triple_noData (frame_benchMode leftToRight) (by simp)).mono (fun _ _ h => h)
        (fun _ _ _ h => ⟨0, h.numbered⟩) fun _ _ h => h
    · exact (triple_profileMode leftToRight fuel).mono (fun _ _ h => h) (fun _ _ _ h => ⟨_, h⟩)
        fun _ _ h => h
  have hkill : Cmd.Triple (fun _ t => ∃ i, Numbered i t) killExternal
      (fun _ _ t => ∃ i, Numbered i t) fun _ t => ∃ i, Numbered i t :=
    frame_killExternal.triple_of (I := fun _ t => ∃ i, Numbered i t)
      (fun _ _ e he ⟨i, hI⟩ => ⟨i, hI.append_of_kind (by simp_all)⟩) fun _ _ h => h
  refine (triple_noData (frame_setUp leftToRight) (by simp)).bind fun _ => hget.bind fun s => ?_
  refine Cmd.Triple.ite (fun _ => Cmd.triple_pure fun _ t h => ⟨0, h.numbered⟩) fun _ => ?_
  exact (triple_noData (frame_checkRights leftToRight) (by simp)).bind fun _ =>
    hmode.bind fun _ => hkill

/-- **The file of a run** has the data sets `0, …, N-1`, all complete, if and only if every write
succeeds and no data set is created after a failed attempt. -/
theorem main_goodFile_iff (fuel : ℕ) (arguments : Arguments) (garbage : Locals)
    (t : List Event) (o : Option ℤ) (h : (main leftToRight fuel arguments garbage).Run t o) :
    GoodFile t ↔ CleanWrites t := by
  have hbody : ∀ t₁ o', (mainBody leftToRight fuel
      { garbage with arguments, buffer := .null }).Run t₁ o' → ∃ i, Numbered i t₁ := by
    intro t₁ o' h₁
    have := triple_mainBody_numbered leftToRight fuel _ [] t₁ o' ⟨rfl, rfl, rfl⟩ h₁
    rcases o' with _ | ⟨_ | _, _⟩ <;> simpa using this
  obtain ⟨i, hi⟩ : ∃ i, Numbered i t := by
    rcases main_run leftToRight h with ⟨t₁, t₂, r, s, o', rfl, -, h₁, h₂, -⟩ | ⟨s, h₁, -⟩ | ⟨h₁, -⟩
    · obtain ⟨i, hi⟩ := hbody t₁ _ h₁
      have hfinal := triple_numbered_of_only (only_finalize s) (by simp) i t₁ t₂ o' hi h₂
      cases o' with
      | none => exact hfinal
      | some _ => exact ⟨i, hfinal⟩
    · exact hbody t _ h₁
    · exact hbody t _ h₁
  exact hi.goodFile_iff

end

/-- A machine like the good one, on which one iteration runs and the attempts `fails` to create
a data set fail. -/
def createFails (fails : ℕ → Bool) (h : List Event) : (c : Call) → Answer c
  | .terminated => ⟨[], false⟩
  | .h5Dcreate .. => ⟨[], if fails (creates h).length = true then -1 else 2⟩
  | c => goodMachine h c

/-- The arguments of a run with one iteration and an HDF5 output. -/
def oneIteration : Arguments :=
  { defaultArguments "profile" with iter := 1, outputFile := some "noise.h5" }

theorem main_goodFile_iff_oneIteration :
    GoodFile ((main true 2 oneIteration zeroStack).exec (createFails fun _ => false) []).1 :=
  (main_goodFile_iff true 2 _ _ _ _ (Prog.run_exec (createFails fun _ => false) _ [])).mpr
    (by decide)

/-- A failed first attempt makes `EXIT_ON_FAIL` run `profile` again, which leaves the data sets 1
and 2. -/
theorem main_dataSets_gap :
    ¬ ∀ (leftToRight : Bool) (fuel : ℕ) (arguments : Arguments) (garbage : Locals)
      (t : List Event) (o : Option ℤ),
      (main leftToRight fuel arguments garbage).Run t o → GoodFile t := by
  intro h
  obtain ⟨N, hnames, -⟩ := h true 2 oneIteration zeroStack _ _
    (Prog.run_exec (createFails fun k => k == 0) _ [])
  obtain ⟨k, hk, hone⟩ := (hnames "1").mp (by decide)
  obtain rfl : 1 = k := Nat.repr_injective hone
  exact absurd ((hnames "0").mpr ⟨0, by omega, by decide⟩) (by decide)

end CacheNoise
