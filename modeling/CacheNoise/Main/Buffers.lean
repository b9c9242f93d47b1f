import CacheNoise.Main.Mappings
import CacheNoise.Profile.Iterations

/-!
# The buffer that `main` measures

`main` measures the buffer that its allocation step hands out, and `alloc_aligned` overwrites the
code of its search with the code of its last release. So `ERROR_NONE` may come with `MAP_FAILED`,
or with a buffer that the alignment test did not accept or that is unmapped already.

Every `prime` and `probe` of a run of `main` is on a buffer that is mapped and that the last
alignment test accepted, if and only if the last try of the search succeeded or the run never
measures (`main_measuresUsable_iff`).
-/

namespace CacheNoise

open Interaction Ledger

/-! ### Usable buffers -/

/-- The buffer that a call measures. -/
def touched : Event → Option Ptr
  | ⟨.prime _ _ _ _ buffer, _⟩ => some buffer
  | ⟨.probe _ _ _ buffer, _⟩ => some buffer
  | _ => none

/-- The last try of the search accepted this buffer. -/
def LastAccepted (address : UInt64) (h : List Event) : Prop :=
  (tries h).getLast? = some (.tested address errorNone)

/-- The buffer is mapped, and the last try of the search accepted it. -/
def Usable (buffer : Ptr) (h : List Event) : Prop :=
  buffer ∈ after [] (mappings h) ∧ ∃ address, buffer = .mapped address ∧ LastAccepted address h

/-- **Only usable buffers are measured**, each time. -/
def MeasuresUsable (t : List Event) : Prop :=
  ∀ h e u, t = h ++ e :: u → ∀ buffer ∈ touched e, Usable buffer h

/-- Nothing is measured. -/
def Untouched (t : List Event) : Prop := ∀ e ∈ t, touched e = none

/-- No try of the search succeeds. -/
def NoneAccepted (t : List Event) : Prop := ∀ address, Try.tested address errorNone ∉ tries t

theorem touched_of_kind {e : Event} (he : e.1.kind ≠ .measure) : touched e = none := by
  obtain ⟨c, a⟩ := e
  cases c <;> first | rfl | exact absurd rfl he

theorem Untouched.append {t u : List Event} (ht : Untouched t) (hu : Untouched u) :
    Untouched (t ++ u) := fun e he => (List.mem_append.mp he).elim (ht e) (hu e)

theorem Untouched.measuresUsable {t : List Event} (ht : Untouched t) : MeasuresUsable t := by
  rintro h e u rfl buffer hbuffer
  rw [ht e (by simp)] at hbuffer
  exact absurd hbuffer (by simp)

/-- One more call. -/
theorem MeasuresUsable.concat {t : List Event} {e : Event} (ht : MeasuresUsable t)
    (he : ∀ buffer ∈ touched e, Usable buffer t) : MeasuresUsable (t ++ [e]) := by
  intro h e' u hsplit
  obtain rfl | ⟨u, x, rfl⟩ := List.eq_nil_or_concat' u
  · obtain ⟨rfl, heq⟩ := List.append_inj' hsplit rfl
    obtain rfl := List.singleton_injective heq
    exact he
  · rw [← List.cons_append, ← List.append_assoc] at hsplit
    exact ht h e' u (List.append_inj' hsplit rfl).1

theorem MeasuresUsable.append {t u : List Event} (ht : MeasuresUsable t) (hu : Untouched u) :
    MeasuresUsable (t ++ u) := by
  induction u generalizing t with
  | nil => rwa [List.append_nil]
  | cons e u ih =>
    rw [List.append_cons]
    refine ih (ht.concat fun buffer hbuffer => ?_) fun e he => hu e (List.mem_cons_of_mem _ he)
    rw [hu e List.mem_cons_self] at hbuffer
    exact absurd hbuffer (by simp)

/-- Where no try succeeds, no buffer is ever usable. -/
theorem NoneAccepted.untouched {t : List Event} (hnone : NoneAccepted t)
    (ht : MeasuresUsable t) : Untouched t := by
  intro e he
  obtain ⟨h, u, rfl⟩ := List.append_of_mem he
  refine Option.eq_none_iff_forall_not_mem.mpr fun buffer hbuffer => ?_
  obtain ⟨-, address, -, hlast⟩ := ht h e u rfl buffer hbuffer
  refine hnone address ?_
  rw [tries_append]
  exact List.mem_append_left _ (List.mem_of_getLast? hlast)

theorem LastAccepted.not_noneAccepted {address : UInt64} {t : List Event}
    (h : LastAccepted address t) : ¬ NoneAccepted t := fun hnone =>
  hnone address (List.mem_of_getLast? h)

/-! ### What the allocation hands out -/

/-- **What `ERROR_NONE` of `alloc_aligned` is worth**: the buffer is usable, or no try of the search
succeeded. -/
theorem allocAligned_usable {cache : CacheInfo} {buffer buffer' : Ptr} {u : List Event}
    (h : (allocAligned cache buffer).Run u (some (errorNone, buffer')))
    (hfresh : Ledger.Fresh [] (mappings u)) : Usable buffer' u ∨ NoneAccepted u := by
  rcases allocAligned_run h hfresh with ⟨-, -, err, herr, ho⟩ |
    ⟨n, rs, e, t₀, t₁, t₂, o₁, rel, rfl, ⟨-, hfits, hnd⟩, ⟨htries₀, hmaps₀⟩, ⟨hrel, -⟩, hend⟩
  · exact absurd (Prod.mk.inj (Option.some_injective _ ho)).1.symm herr
  obtain ⟨-, -, ho⟩ | ⟨err, -, htail⟩ := hend
  · exact absurd ho (by simp)
  have htries : tries (t₀ ++ t₁ ++ t₂) = rs.map (.tested · errorNotAligned) ++ e.tries := by
    rw [tries_append, tries_append, htries₀, hrel.tries_eq, (allocTail_ledger htail).1,
      List.append_nil, List.append_nil]
  -- the rejected buffers were not accepted, so only the end of the search matters
  have hnone : (∀ address, .tested address errorNone ∉ e.tries) →
      NoneAccepted (t₀ ++ t₁ ++ t₂) := by
    intro hend address hmem
    rw [htries, List.mem_append, List.mem_map] at hmem
    obtain ⟨r, -, hr⟩ | hmem := hmem
    · exact absurd (Try.tested.inj hr).2 (by decide)
    · exact hend address hmem
  cases e with
  | exhausted => exact .inr (hnone fun address hmem => absurd hmem List.not_mem_nil)
  | failed => exact .inr (hnone fun address hmem => by simp [SearchEnd.tries] at hmem)
  | tested b code =>
    by_cases hcode : code = errorNone
    swap
    · refine .inr (hnone fun address hmem => hcode ?_)
      exact (Try.tested.inj (List.mem_singleton.mp hmem)).2.symm
    subst hcode
    rcases allocTail_run htail with ⟨-, -, rfl, ho⟩ | ⟨hfail, hrest⟩
    · obtain ⟨-, rfl⟩ := Prod.mk.inj (Option.some_injective _ ho)
      refine .inl ⟨?_, b, rfl, ?_⟩
      · rw [List.append_nil, mappings_append, hmaps₀, hrel.mappings_eq]
        exact mem_after_search hnd hrel.sublist (List.mem_singleton_self b)
      · rw [LastAccepted, htries]
        exact List.getLast?_concat
    · -- a release failed, and its code is returned
      have herr : err ≠ errorNone := fun herr =>
        hfail ⟨by simpa [SearchEnd.result] using hfits.1, herr⟩
      obtain ⟨-, -, ho⟩ | ⟨-, o', rel', -, ho⟩ := hrest
      · exact absurd (Prod.mk.inj (Option.some_injective _ ho)).1.symm herr
      · obtain _ | res := o'
        · exact absurd ho (by simp)
        have hres := (Prod.mk.inj (Option.some_injective _ ho)).1
        split at hres
        · next hne => exact absurd hres.symm hne
        · exact absurd hres.symm herr

/-! ### The parts of `main` -/

/-- Nothing is mapped or measured yet. -/
structure Blank (h : List Event) : Prop where
  tries_eq : tries h = []
  mappings_eq : mappings h = []
  untouched : Untouched h

/-- The measurement may begin: the buffer is usable, unless no try succeeded. -/
def Ready (buffer : Ptr) (h : List Event) : Prop :=
  (MeasuresUsable h ∧ Usable buffer h) ∨ NoneAccepted h

/-- What can be said of the measurements when they are over. -/
def Settled (h : List Event) : Prop :=
  Untouched h ∨ (MeasuresUsable h ∧ ∃ address, LastAccepted address h) ∨ NoneAccepted h

/-- An event that has to do neither with memory nor with measuring. -/
def Apart (e : Event) : Prop := e.1.kind ≠ .memory ∧ touched e = none

theorem Blank.append {h u : List Event} (hh : Blank h) (hu : ∀ e ∈ u, Apart e) :
    Blank (h ++ u) := by
  obtain ⟨htries, hmaps⟩ := unmapped_of_kinds fun e he => (hu e he).1
  refine ⟨?_, ?_, hh.untouched.append fun e he => (hu e he).2⟩
  · rw [tries_append, hh.tries_eq, htries, List.append_nil]
  · rw [mappings_append, hh.mappings_eq, hmaps, List.append_nil]

/-- A call that is no matter of memory, on the buffer or on none. -/
theorem Ready.concat {buffer : Ptr} {h : List Event} {e : Event} (hh : Ready buffer h)
    (hkind : e.1.kind ≠ .memory) (he : ∀ b ∈ touched e, b = buffer) : Ready buffer (h ++ [e]) := by
  obtain ⟨htries, hmaps⟩ := unmapped_of_kinds (t := [e]) (by simpa using hkind)
  have htries' : tries (h ++ [e]) = tries h := by rw [tries_append, htries, List.append_nil]
  have hmaps' : mappings (h ++ [e]) = mappings h := by
    rw [mappings_append, hmaps, List.append_nil]
  obtain ⟨hmeasures, husable⟩ | hnone := hh
  · refine .inl ⟨hmeasures.concat fun b hb => he b hb ▸ husable, ?_⟩
    simpa only [Usable, LastAccepted, hmaps', htries'] using husable
  · right
    rwa [NoneAccepted, htries']

theorem Ready.settled {buffer : Ptr} {h : List Event} (hh : Ready buffer h) : Settled h := by
  obtain ⟨hmeasures, -, address, -, hlast⟩ | hnone := hh
  · exact .inr (.inl ⟨hmeasures, address, hlast⟩)
  · exact .inr (.inr hnone)

/-- Nothing is measured any more. -/
theorem Settled.append {h u : List Event} (hh : Settled h) (htries : tries u = [])
    (hu : Untouched u) : Settled (h ++ u) := by
  have htries' : tries (h ++ u) = tries h := by rw [tries_append, htries, List.append_nil]
  obtain huntouched | ⟨hmeasures, address, hlast⟩ | hnone := hh
  · exact .inl (huntouched.append hu)
  · refine .inr (.inl ⟨hmeasures.append hu, address, ?_⟩)
    rwa [LastAccepted, htries']
  · right; right
    rwa [NoneAccepted, htries']

/-- **The two sides** of the criterion agree when the measurements are over. -/
theorem Settled.measuresUsable_iff {t : List Event} (h : Settled t) :
    MeasuresUsable t ↔ Untouched t ∨ ∃ address, LastAccepted address t := by
  constructor
  · intro ht
    obtain huntouched | ⟨-, hlast⟩ | hnone := h
    · exact .inl huntouched
    · exact .inr hlast
    · exact .inl (hnone.untouched ht)
  · rintro (huntouched | ⟨address, hlast⟩)
    · exact huntouched.measuresUsable
    · obtain huntouched | ⟨ht, -⟩ | hnone := h
      · exact huntouched.measuresUsable
      · exact ht
      · exact absurd hnone hlast.not_noneAccepted

/-- What holds when `main` leaves early. -/
abbrev SettledExit : Option (Exit × Locals) → List Event → Prop :=
  fun _ h => Ledger.Fresh [] (mappings h) → Settled h

theorem apart_of_kind {K : List Kind} {e : Event} (he : e.1.kind ∈ K)
    (hK : Kind.memory ∉ K ∧ Kind.measure ∉ K) : Apart e :=
  ⟨ne_of_mem_of_not_mem he hK.1, touched_of_kind (ne_of_mem_of_not_mem he hK.2)⟩

/-- The parts of `main` before the allocation. -/
theorem triple_blank {α κ : Type} {f : Locals → κ} {m : Main α} (hm : Cmd.Frame Apart f m) :
    Cmd.Triple (fun _ h => Blank h) m (fun _ _ h => Blank h) SettledExit :=
  (hm.mono (fun _ h => h) fun _ => ()).triple_of (I := fun _ h => Blank h)
    (fun _ _ _ he hh => hh.append (by simpa using he)) fun _ _ hh _ => .inl hh.untouched

/-- The parts of `main` between the allocation and the measurement. -/
theorem triple_ready {α κ : Type} {f : Locals → κ} {m : Main α} (hm : Cmd.Frame Apart f m)
    (g : κ → Ptr) (hg : ∀ s, g (f s) = s.buffer) :
    Cmd.Triple (fun s h => Ledger.Fresh [] (mappings h) → Ready s.buffer h) m
      (fun _ s h => Ledger.Fresh [] (mappings h) → Ready s.buffer h) SettledExit := by
  have htriple := (hm.mono (fun _ h => h) g).triple_of
    (I := fun buffer h => Ledger.Fresh [] (mappings h) → Ready buffer h)
    (N := fun h => Ledger.Fresh [] (mappings h) → Settled h)
    (fun buffer h e he hh hfresh => by
      rw [mappings_append] at hfresh
      exact (hh (along_append.mp hfresh).1).concat he.1 fun b hb => by
        rw [he.2] at hb
        exact absurd hb (by simp))
    fun buffer h hh hfresh => (hh hfresh).settled
  simp only [hg] at htriple
  exact htriple

section

variable (leftToRight : Bool)

/-- One evaluation of the allocation that succeeds. -/
theorem ready_evaluation {s s' : Locals} {h u : List Event} {a : Answer (.enter .alloc)}
    {b : Answer (.leave .alloc errorNone)} (hblank : Blank h)
    (hbody : (allocStep s).Run u (some (errorNone, s')))
    (hfresh : Ledger.Fresh [] (mappings (h ++ evaluation .alloc a u errorNone b)))
    (huntouched : Untouched (h ++ evaluation .alloc a u errorNone b)) :
    Ready s'.buffer (h ++ evaluation .alloc a u errorNone b) := by
  obtain ⟨res, buffer, halloc, ho⟩ | ⟨-, ho⟩ := allocStep_run hbody
  swap
  · exact absurd ho (by simp)
  obtain ⟨rfl, rfl⟩ := Prod.mk.inj (Option.some_injective _ ho)
  have hmaps : mappings (h ++ evaluation .alloc a u errorNone b) = mappings u := by
    rw [mappings_append, hblank.mappings_eq, mappings_evaluation, List.nil_append]
  have htries : tries (h ++ evaluation .alloc a u errorNone b) = tries u := by
    rw [tries_append, hblank.tries_eq, evaluation, tries_append]
    exact List.append_nil _
  obtain husable | hnone := allocAligned_usable halloc (hmaps ▸ hfresh)
  · refine .inl ⟨huntouched.measuresUsable, ?_⟩
    simpa only [Usable, LastAccepted, hmaps, htries] using husable
  · right
    rwa [NoneAccepted, htries]

theorem triple_alloc_ready :
    Cmd.Triple (fun _ h => Blank h) (exitOnFail leftToRight .alloc allocStep)
      (fun _ s h => Ledger.Fresh [] (mappings h) → Ready s.buffer h) SettledExit := by
  have huntouched : Cmd.Frame (fun e => touched e = none) (fun _ => ())
      (exitOnFail leftToRight .alloc allocStep) :=
    (frame_alloc leftToRight).mono (fun e he =>
      touched_of_kind (ne_of_mem_of_not_mem he (by simp))) fun _ => ()
  have hok : Cmd.Triple (fun _ h => Blank h) (exitOnFail leftToRight .alloc allocStep)
      (fun _ s h => Ledger.Fresh [] (mappings h) → Untouched h → Ready s.buffer h)
        fun _ _ => True :=
    triple_exitOnFail_ok fun _ _ _ _ _ _ hblank hbody => ready_evaluation hblank hbody
  intro s h t o hblank hrun
  have hexit : Untouched (h ++ t) := hblank.untouched.append (huntouched s t o hrun).1
  have hq := hok s h t o hblank hrun
  rcases o with _ | ⟨_ | _, s'⟩
  · exact fun _ => .inl hexit
  · exact fun _ => .inl hexit
  · exact fun hfresh => hq hfresh hexit

end

/-! ### The measurement -/

/-- Only this buffer is measured. -/
def Touches (buffer : Ptr) (t : List Event) : Prop := ∀ e ∈ t, ∀ b ∈ touched e, b = buffer

theorem Untouched.touches {buffer : Ptr} {t : List Event} (ht : Untouched t) :
    Touches buffer t := by
  intro e he b hb
  rw [ht e he] at hb
  exact absurd hb (by simp)

theorem Touches.append {buffer : Ptr} {t u : List Event} (ht : Touches buffer t)
    (hu : Touches buffer u) : Touches buffer (t ++ u) := fun e he =>
  (List.mem_append.mp he).elim (ht e) (hu e)

section

variable {cache : CacheInfo} {buffer : Ptr}

theorem Iteration.touches {output : OutputT} {t : List Event} {r : ErrorT × OutputT}
    (h : Iteration cache buffer output t r) : Touches buffer t := by
  obtain @⟨read, primed, yielded, probed, write, _, -, hwrite⟩ := h
  have hquiet : Untouched write := fun e he =>
    touched_of_kind (ne_of_mem_of_not_mem (only_outputwMatUi32 _ _ _ _ _ _ hwrite e he) (by simp))
  intro e he b hb
  simp only [List.mem_cons] at he
  obtain rfl | rfl | rfl | rfl | he := he
  · cases hb
  · exact (Option.some_injective _ hb).symm
  · cases hb
  · exact (Option.some_injective _ hb).symm
  · exact hquiet.touches e he b hb

theorem Iterations.touches {output output' : OutputT} {ts : List (List Event)}
    (h : Iterations cache buffer output ts output') : Touches buffer ts.flatten := by
  induction h with
  | nil => exact fun e he => absurd he List.not_mem_nil
  | cons hiteration _ ih => exact hiteration.touches.append ih

theorem untouched_disable {fd : UInt32} {t : List Event} {o : Option ErrorT}
    (h : (disableCpuCycleCounter fd).Run t o) : Untouched t :=
  within_disableCpuCycleCounter (E := fun e => touched e = none) (fun _ => rfl) t o h

theorem Ends.touches {iterations fd : UInt32} {j : ℕ} {output : OutputT} {t : List Event}
    {o : Option (ErrorT × OutputT)} (h : Ends cache buffer iterations fd j output t o) :
    Touches buffer t := by
  cases h with
  | cut => exact fun e he => absurd he List.not_mem_nil
  | done _ _ hdisable => exact (untouched_disable hdisable).touches
  | seen _ _ hdisable =>
    exact Untouched.touches (List.forall_mem_cons.mpr ⟨rfl, untouched_disable hdisable⟩)
  | failed _ _ hiteration => exact hiteration.touches

/-- **A run of `profile`** measures its buffer and no other. -/
theorem profile_touches {fuel : ℕ} {cpu iterations : UInt32} {output : OutputT} {t : List Event}
    {o : Option (ErrorT × OutputT)}
    (hrun : (profile fuel cache cpu iterations buffer output).Run t o) : Touches buffer t := by
  have henabled : ∀ {u r}, (enableCpuCycleCounter cpu).Run u r → Touches buffer u := fun hu =>
    Untouched.touches (within_enableCpuCycleCounter (E := fun e => touched e = none)
      (fun _ => rfl) (fun _ _ _ => rfl) _ _ hu)
  obtain ⟨-, henable⟩ | ⟨fd, start, ts, tail, output', rfl, henable, hts, hends, -⟩ :=
    profile_run hrun
  · exact henabled henable
  · exact (henabled henable).append (hts.touches.append hends.touches)

end

/-! ### Whole runs -/

section

variable (leftToRight : Bool)

/-- The benchmark does not measure the buffer. -/
theorem frame_benchMode_apart : Cmd.Frame Apart (fun _ => ()) (benchMode leftToRight) := by
  refine (Cmd.frame_modify fun s => ?_).bind fun _ => frame_exitOnFail_within _ _
    (fun e he => apart_of_kind (K := [.step]) (by rw [he]; simp) (by simp)) (fun s => ?_)
      fun _ _ _ _ => rfl
  · rfl
  refine Prog.Within.bind ?_ fun _ => Prog.within_pure
  exact within_benchmark (fun _ => ⟨by simp, rfl⟩) (fun _ => ⟨by simp, rfl⟩)
    (fun _ _ _ => ⟨by simp, rfl⟩) fun _ => ⟨by simp, rfl⟩

theorem triple_profile_ready (fuel : ℕ) :
    Cmd.Triple (fun s h => Ledger.Fresh [] (mappings h) → Ready s.buffer h)
      (exitOnFail leftToRight .profile (profileStep fuel))
      (fun _ s h => Ledger.Fresh [] (mappings h) → Ready s.buffer h) SettledExit := by
  refine triple_exitOnFail_within (f := fun s => s.buffer)
    (E := fun buffer e => e.1.kind ≠ .memory ∧ ∀ b ∈ touched e, b = buffer)
    (I := fun buffer h => Ledger.Fresh [] (mappings h) → Ready buffer h)
    (N := fun h => Ledger.Fresh [] (mappings h) → Settled h)
    (fun buffer e he => ⟨by rw [he]; decide, ?_⟩) (fun s => ?_) (fun s => ?_)
    (fun buffer h e he hh hfresh => ?_) fun buffer h hh hfresh => (hh hfresh).settled
  · rw [touched_of_kind (by rw [he]; decide)]
    simp
  · refine Prog.Within.bind (fun t o hrun e he => ⟨?_, ?_⟩) fun _ => Prog.within_pure
    · exact ne_of_mem_of_not_mem (only_profile _ _ _ _ _ _ t o hrun e he) (by simp)
    · exact profile_touches hrun e he
  · exact (Prog.returns_true _).bind fun _ _ => Prog.returns_pure rfl
  · rw [mappings_append] at hfresh
    exact (hh (along_append.mp hfresh).1).concat he.1 he.2

/-- **When the body of `main` is done**, so are the measurements. -/
theorem triple_mainBody_settled (fuel : ℕ) :
    Cmd.Triple (fun _ h => Blank h) (mainBody leftToRight fuel)
      (fun _ _ h => Ledger.Fresh [] (mappings h) → Settled h) SettledExit := by
  have hget : Cmd.Triple (fun _ h => Blank h) (Cmd.get : Main Locals) (fun _ _ h => Blank h)
      SettledExit := Cmd.triple_get fun _ _ h => h
  have hblank : ∀ {κ : Type} {K : List Kind} {f : Locals → κ} {m : Main Unit},
      Cmd.Frame (fun e => e.1.kind ∈ K) f m → Kind.memory ∉ K ∧ Kind.measure ∉ K →
        Cmd.Triple (fun _ h => Blank h) m (fun _ _ h => Blank h) SettledExit := fun hm hK =>
    triple_blank (hm.mono (fun _ he => apart_of_kind he hK) id)
  have hready : ∀ {κ : Type} {K : List Kind} {f : Locals → κ} {m : Main Unit},
      Cmd.Frame (fun e => e.1.kind ∈ K) f m → Kind.memory ∉ K ∧ Kind.measure ∉ K →
        ∀ g : κ → Ptr, (∀ s, g (f s) = s.buffer) →
          Cmd.Triple (fun s h => Ledger.Fresh [] (mappings h) → Ready s.buffer h) m
            (fun _ s h => Ledger.Fresh [] (mappings h) → Ready s.buffer h) SettledExit :=
    fun hm hK => triple_ready (hm.mono (fun _ he => apart_of_kind he hK) id)
  have hkill : Cmd.Triple (fun _ h => Ledger.Fresh [] (mappings h) → Settled h) killExternal
      (fun _ _ h => Ledger.Fresh [] (mappings h) → Settled h) SettledExit :=
    (frame_killExternal.mono (fun _ he => apart_of_kind he (by simp)) fun _ => ()).triple_of
      (I := fun _ h => Ledger.Fresh [] (mappings h) → Settled h)
      (N := fun h => Ledger.Fresh [] (mappings h) → Settled h)
      (fun _ h e he hh hfresh => by
        rw [mappings_append] at hfresh
        exact (hh (along_append.mp hfresh).1).append
          (unmapped_of_kinds (by simpa using he.1)).1 (by simpa [Untouched] using he.2))
      fun _ _ hh => hh
  refine (hblank (frame_setUp leftToRight) (by simp)).bind fun _ => hget.bind fun s => ?_
  refine Cmd.Triple.ite (fun _ => Cmd.triple_pure fun _ _ h _ => .inl h.untouched) fun _ => ?_
  refine (hblank (frame_checkRights leftToRight) (by simp)).bind fun _ =>
    Cmd.Triple.bind ?_ fun _ => hkill
  refine hget.bind fun s => Cmd.Triple.ite (fun _ => ?_) fun _ => Cmd.Triple.ite (fun _ => ?_)
    fun _ => Cmd.triple_throw fun s h hh _ => .inl hh.untouched
  · exact (triple_blank (frame_benchMode_apart leftToRight)).mono (fun _ _ h => h)
      (fun _ _ _ h _ => .inl h.untouched) fun _ _ h => h
  · refine (hblank (frame_openOutput leftToRight) (by simp)).bind fun _ => ?_
    refine (triple_alloc_ready leftToRight).bind fun _ => ?_
    refine (hready (frame_startExternal leftToRight) (by simp) (fun s => s.buffer)
      fun _ => rfl).bind fun _ => ?_
    refine (hready frame_setAlarm (by simp) (fun s => s.buffer) fun _ => rfl).bind fun _ => ?_
    exact (triple_profile_ready leftToRight fuel).mono (fun _ _ h => h)
      (fun _ _ _ h hfresh => (h hfresh).settled) fun _ _ h => h

/-- `FINALIZE` tries and measures nothing. -/
theorem finalize_quiet {s : Locals} {t : List Event} {o : Option Unit}
    (h : (finalize s).Run t o) : tries t = [] ∧ Untouched t := by
  refine ⟨?_, fun e he => touched_of_kind (ne_of_mem_of_not_mem (only_finalize s t o h e he)
    (by simp))⟩
  have hclose : ∀ {u o}, (outputClose s.output).Run u o → tries u = [] := fun hu =>
    (unmapped_of_kinds fun e he =>
      ne_of_mem_of_not_mem (only_outputClose _ _ _ hu e he) (by simp)).1
  obtain ⟨u₁, u₂, _, rfl, h₁, h₂⟩ | ⟨-, h₁⟩ := Prog.run_bind.mp h
  swap
  · exact hclose h₁
  rw [tries_append, hclose h₁, List.nil_append]
  split at h₂
  · obtain ⟨u₃, u₄, _, rfl, h₃, rfl, -⟩ | ⟨-, h₃⟩ := Prog.run_bind.mp h₂
    · rw [List.append_nil]
      exact (freeAligned_run h₃).choose_spec.tries_eq
    · exact (freeAligned_run h₃).choose_spec.tries_eq
  · rw [h₂.1]
    rfl

/-- **What `main` measures**: each `prime` and `probe` is on a buffer that is mapped and that the
last alignment test accepted, if and only if the last try of the search succeeded or the run
never measures. -/
theorem main_measuresUsable_iff (fuel : ℕ) (arguments : Arguments) (garbage : Locals)
    (t : List Event) (o : Option ℤ) (h : (main leftToRight fuel arguments garbage).Run t o)
    (hfresh : Ledger.Fresh [] (mappings t)) :
    MeasuresUsable t ↔ Untouched t ∨ ∃ address, LastAccepted address t := by
  have hbody : ∀ t₁ o', (mainBody leftToRight fuel
      { garbage with arguments, buffer := .null }).Run t₁ o' →
        Ledger.Fresh [] (mappings t₁) → Settled t₁ := by
    intro t₁ o' h₁
    have hempty : Blank [] := ⟨rfl, rfl, fun e he => absurd he List.not_mem_nil⟩
    have hq := triple_mainBody_settled leftToRight fuel _ [] t₁ o' hempty h₁
    rcases o' with _ | ⟨_ | _, _⟩ <;> exact hq
  refine Settled.measuresUsable_iff ?_
  rcases main_run leftToRight h with ⟨t₁, t₂, r, s, o', rfl, -, h₁, h₂, -⟩ | ⟨s, h₁, -⟩ | ⟨h₁, -⟩
  · obtain ⟨htries, huntouched⟩ := finalize_quiet h₂
    rw [mappings_append] at hfresh
    exact (hbody t₁ _ h₁ (along_append.mp hfresh).1).append htries huntouched
  · exact hbody t _ h₁ hfresh
  · exact hbody t _ h₁ hfresh

end

/-- A machine on which the second buffer is the aligned one, and no signal comes. -/
def measuringSecondTry (h : List Event) : (c : Call) → Answer c
  | .terminated => ⟨[], false⟩
  | c => secondTry (some errorNone) h c

/-- One iteration on this machine, with its matrix in a file. -/
def measuringSecond : List Event × Option ℤ :=
  (main true 2 { defaultArguments "profile" with iter := 1, outputFile := some "noise.h5" }
    zeroStack).exec measuringSecondTry []

/-- The second buffer is the one that is measured. -/
theorem main_measuresUsable_second :
    ¬ Untouched measuringSecond.1 ∧ MeasuresUsable measuringSecond.1 := by
  refine ⟨fun h => ?_, (main_measuresUsable_iff true 2 _ _ _ _
    (Prog.run_exec measuringSecondTry _ []) (by decide)).mpr (.inr ⟨0xc00000, rfl⟩)⟩
  have hall : measuringSecond.1.all (fun e => touched e = none) = true :=
    List.all_eq_true.mpr fun e he => decide_eq_true (h e he)
  exact absurd hall (by decide)

end CacheNoise
