import CacheNoise.Main.Pipeline

/-!
# Nothing is done without the rights

The calls of `main` that act on more than the process itself, or measure, come after its checks: the
cache has been described, the user is root, and the instruction `rdpmc` is available to everybody
(`main_guarded`). This holds on every way through `main`, with the evaluations that `EXIT_ON_FAIL`
repeats. The closing of an output at `FINALIZE` is not among these calls: it is reached without the
checks, too.
-/

namespace CacheNoise

open Interaction

/-- Calls for which the rights are checked before. -/
def Kind.guarded : Kind → Bool
  | .memory | .process | .kill | .opening | .dataset | .print | .measure => true
  | .setup | .closing | .step => false

/-- The cache is described, the user is root, and `rdpmc` is available. -/
structure Authorized (h : List Event) : Prop where
  described : ∃ cache, Described cache h
  root : ∃ a : Answer .getuid, ⟨_, a⟩ ∈ h ∧ a.value = 0
  rdpmc : ∃ a : Answer (.readProp .rdpmc), ⟨_, a⟩ ∈ h ∧ a.value = .read 2

/-- Whatever needs the rights comes after the checks. -/
def Guarded (t : List Event) : Prop :=
  ∀ before e after, t = before ++ e :: after → e.1.kind.guarded = true → Authorized before

/-- Nothing needs the rights. -/
def Harmless (t : List Event) : Prop := ∀ e ∈ t, e.1.kind.guarded = false

theorem Authorized.append {h : List Event} (hh : Authorized h) (u : List Event) :
    Authorized (h ++ u) where
  described := hh.described.imp fun _ hd => hd.append u
  root := hh.root.imp fun _ ha => ⟨List.mem_append_left u ha.1, ha.2⟩
  rdpmc := hh.rdpmc.imp fun _ ha => ⟨List.mem_append_left u ha.1, ha.2⟩

theorem Harmless.concat {t : List Event} {e : Event} (ht : Harmless t)
    (he : e.1.kind.guarded = false) : Harmless (t ++ [e]) :=
  List.forall_mem_append.mpr ⟨ht, List.forall_mem_singleton.mpr he⟩

theorem Harmless.guarded {t : List Event} (ht : Harmless t) : Guarded t := by
  rintro before e after rfl he
  exact absurd he (by rw [ht e (by simp)]; decide)

/-- One more event, which needs no rights or comes after the checks. -/
theorem Guarded.concat {t : List Event} {e : Event} (ht : Guarded t)
    (he : e.1.kind.guarded = true → Authorized t) : Guarded (t ++ [e]) := by
  intro before e' after hsplit he'
  obtain rfl | ⟨after, x, rfl⟩ := List.eq_nil_or_concat' after
  · obtain ⟨rfl, heq⟩ := List.append_inj' hsplit rfl
    obtain rfl := List.singleton_inj.mp heq
    exact he he'
  · rw [← List.cons_append, ← List.append_assoc] at hsplit
    exact ht before e' after (List.append_inj' hsplit rfl).1 he'

/-! ### The checks -/

section

variable (leftToRight : Bool)

theorem checkRights_rdpmc {s s' : Locals} {u : List Event}
    (h : (keeping (fun _ => canUseRdpmc) s).Run u (some (errorNone, s'))) :
    ∃ a : Answer (.readProp .rdpmc), ⟨_, a⟩ ∈ u ∧ a.value = .read 2 := by
  obtain ⟨t₁, t₂, res, rfl, h₁, rfl, ho⟩ | ⟨ho, -⟩ := Prog.run_bind.mp h
  swap
  · cases ho
  obtain rfl : errorNone = res := congrArg Prod.fst (Option.some.inj ho)
  obtain ⟨t₃, t₄, r, rfl, h₃, h₄⟩ | ⟨ho, -⟩ := Prog.run_bind.mp h₁
  swap
  · cases ho
  obtain ⟨a, t₅, rfl, h₅⟩ := run_sys_bind.mp h₃
  refine ⟨a, by simp, ?_⟩
  rcases hvalue : a.value with _ | _ | value <;> rw [hvalue] at h₅ <;> obtain ⟨rfl, hr⟩ := h₅ <;>
    obtain rfl := Option.some.inj hr <;> obtain ⟨rfl, ho⟩ := h₄
  · cases ho
  · cases ho
  · have hres := Option.some.inj ho
    split_ifs at hres with hne
    · cases hres
    · rw [not_not.mp hne]

/-- Every program may have any events, and the variables are not looked at. -/
theorem frame_any {α : Type} (m : Main α) : Cmd.Frame (fun _ => True) (fun _ => ()) m :=
  fun _ _ _ _ => ⟨fun _ _ => trivial, fun _ _ _ => rfl⟩

/-- What the history keeps when it grows holds after every program. -/
theorem triple_grows {α : Type} {I N : List Event → Prop} (m : Main α)
    (hI : ∀ h e, I h → I (h ++ [e])) (hN : ∀ h, I h → N h) :
    Cmd.Triple (fun _ h => I h) m (fun _ _ h => I h) fun _ h => N h :=
  (frame_any m).triple_of (I := fun _ h => I h) (fun _ h e _ hh => hI h e hh) fun _ h hh => hN h hh

/-- **The checks succeed** only with the rights. -/
theorem succeeds_checkRights_authorized :
    Succeeds (fun _ h => ∃ cache, Described cache h) (checkRights leftToRight)
      fun _ _ h => Authorized h := by
  have hroot : Succeeds (fun _ h => ∃ cache, Described cache h) (Cmd.lift hasRootAccess : Main Bool)
      fun root _ h => (∃ cache, Described cache h) ∧
        (root = true → ∃ a : Answer .getuid, ⟨_, a⟩ ∈ h ∧ a.value = 0) := by
    refine Cmd.triple_lift fun s => ?_
    rintro h t o ⟨cache, hd⟩ hrun
    obtain ⟨a, t', rfl, rfl, rfl⟩ := run_sys_bind.mp hrun
    exact ⟨⟨cache, hd.append _⟩, fun hzero => ⟨a, by simp, by simpa using hzero⟩⟩
  have hrdpmc : Succeeds (fun _ _ => True) (exitOnFail leftToRight .rdpmc
      (keeping fun _ => canUseRdpmc)) fun _ _ h =>
        ∃ a : Answer (.readProp .rdpmc), ⟨_, a⟩ ∈ h ∧ a.value = .read 2 := by
    refine triple_exitOnFail_ok fun s h u s' a b _ hbody => ?_
    obtain ⟨c, hc, hvalue⟩ := checkRights_rdpmc hbody
    exact ⟨c, by simp [evaluation, hc], hvalue⟩
  refine hroot.bind fun root => Cmd.Triple.bind (M := fun _ _ h => (∃ cache, Described cache h) ∧
    ∃ a : Answer .getuid, ⟨_, a⟩ ∈ h ∧ a.value = 0) ?_ fun _ => ?_
  · refine Cmd.Triple.ite (fun _ => Cmd.triple_throw fun _ _ _ => trivial) fun hc => ?_
    exact Cmd.triple_pure fun _ _ hh => ⟨hh.1, hh.2 (by simpa using hc)⟩
  · have hkeeps := triple_grows (N := fun _ => True) (exitOnFail leftToRight .rdpmc
      (keeping fun _ => canUseRdpmc)) (I := fun h => (∃ cache, Described cache h) ∧
        ∃ a : Answer .getuid, ⟨_, a⟩ ∈ h ∧ a.value = 0)
      (fun h e hh => ⟨hh.1.imp fun _ hd => hd.append _, hh.2.imp fun _ ha =>
        ⟨List.mem_append_left _ ha.1, ha.2⟩⟩) fun _ _ => trivial
    exact (hkeeps.and hrdpmc).mono (fun _ _ h => ⟨h, trivial⟩)
      (fun _ _ _ h => ⟨h.1.1, h.1.2, h.2⟩) fun _ _ _ => trivial

/-! ### The body of `main` -/

/-- The state before the checks: nothing has been done, and nothing is to be released. -/
def Untried (s : Locals) (h : List Event) : Prop := s.buffer = .null ∧ Harmless h

/-- What is known at the exits. -/
abbrev Checked : Option (Exit × Locals) → List Event → Prop
  | none, h => Guarded h
  | some (_, s), h => Untried s h ∨ (Guarded h ∧ Authorized h)

/-- The parts before the end of the checks. -/
theorem triple_untried {α κ : Type} {K : List Kind} {f : Locals → κ} {m : Main α}
    (hm : Cmd.Frame (fun e => e.1.kind ∈ K) f m) (hK : ∀ k ∈ K, k.guarded = false) (g : κ → Ptr)
    (hg : ∀ s, g (f s) = s.buffer) : Cmd.Triple Untried m (fun _ s h => Untried s h) Checked := by
  have htriple := (hm.mono (fun _ h => h) g).triple
    (I := fun buffer h => buffer = .null ∧ Harmless h) fun _ _ e he hh =>
      ⟨hh.1, hh.2.concat (hK _ he)⟩
  simp only [hg] at htriple
  refine htriple.mono_exit fun x h hx => ?_
  obtain ⟨buffer, ⟨rfl, hharmless⟩, hs⟩ := hx
  rcases x with _ | ⟨e, s⟩
  · exact hharmless.guarded
  · exact .inl ⟨hs e s rfl, hharmless⟩

theorem triple_mainBody_checked (fuel : ℕ) : Cmd.Triple Untried (mainBody leftToRight fuel)
    (fun _ s h => Untried s h ∨ (Guarded h ∧ Authorized h)) Checked := by
  have hsetUp : Cmd.Triple Untried (setUp leftToRight)
      (fun _ s h => Untried s h ∧ ∃ cache, Described cache h) Checked :=
    ((triple_untried (frame_setUp leftToRight) (by decide) (fun x => x.2.1) fun _ => rfl).and
      (succeeds_setUp_described leftToRight)).mono (fun _ _ h => ⟨h, trivial⟩)
        (fun _ s _ h => ⟨h.1, s.cache, h.2⟩) fun _ _ h => h.1
  have hchecks : Cmd.Triple (fun s h => Untried s h ∧ ∃ cache, Described cache h)
      (checkRights leftToRight) (fun _ _ h => Guarded h ∧ Authorized h) Checked :=
    ((triple_untried (frame_checkRights leftToRight) (by decide) Locals.buffer fun _ => rfl).and
      (succeeds_checkRights_authorized leftToRight)).mono (fun _ _ h => h)
        (fun _ _ _ h => ⟨h.1.2.guarded, h.2⟩) fun _ _ h => h.1
  -- after the checks, anything may be done
  have hafter : ∀ m : Main Unit, Cmd.Triple (fun _ h => Guarded h ∧ Authorized h) m
      (fun _ _ h => Guarded h ∧ Authorized h) Checked := fun m =>
    (triple_grows m (I := fun h => Guarded h ∧ Authorized h) (fun h e hh =>
      ⟨hh.1.concat fun _ => hh.2, hh.2.append _⟩) fun _ hh => hh).mono_exit fun x h hx => by
        rcases x with _ | _
        · exact hx.1
        · exact .inr hx
  have hget : Cmd.Triple (fun s h => Untried s h ∧ ∃ cache, Described cache h)
      (Cmd.get : Main Locals) (fun _ s h => Untried s h ∧ ∃ cache, Described cache h) Checked :=
    Cmd.triple_get fun _ _ h => h
  refine hsetUp.bind fun _ => hget.bind fun s => Cmd.Triple.ite
    (fun _ => Cmd.triple_pure fun _ _ hh => .inl hh.1) fun _ => ?_
  exact (hchecks.bind fun _ => (hafter _).bind fun _ => hafter _).mono (fun _ _ h => h)
    (fun _ _ _ h => .inr h) fun _ _ h => h

end

/-! ### Whole runs -/

/-- **Nothing is done without the rights.** -/
theorem main_guarded {leftToRight : Bool} {fuel : ℕ} {arguments : Arguments} {garbage : Locals}
    {t : List Event} {o : Option ℤ} (h : (main leftToRight fuel arguments garbage).Run t o) :
    Guarded t := by
  have hbody := fun t₁ o' =>
    triple_mainBody_checked leftToRight fuel { garbage with arguments, buffer := .null } [] t₁ o'
      ⟨rfl, fun e he => absurd he List.not_mem_nil⟩
  rcases main_run leftToRight h with ⟨t₁, t₂, r, s, o', rfl, -, h₁, h₂, rfl⟩ | ⟨s, h₁, rfl⟩ |
    ⟨h₁, rfl⟩
  · have hq : Untried s t₁ ∨ (Guarded t₁ ∧ Authorized t₁) := by
      have hq := hbody t₁ _ h₁
      rcases r with _ | _ <;> exact hq
    obtain ⟨hbuffer, hharmless⟩ | ⟨hguarded, hauthorized⟩ := hq
    · -- only the output is closed
      have hclosing : ∀ e ∈ t₂, e.1.kind ∈ [Kind.closing] := by
        obtain ⟨t₃, t₄, res, rfl, h₃, h₄⟩ | ⟨-, h₃⟩ := Prog.run_bind.mp h₂
        · rw [if_neg (not_not.mpr hbuffer)] at h₄
          obtain ⟨rfl, -⟩ := h₄
          rw [List.append_nil]
          exact only_outputClose _ _ _ h₃
        · exact only_outputClose _ _ _ h₃
      refine Harmless.guarded (List.forall_mem_append.mpr ⟨hharmless, fun e he => ?_⟩)
      rw [List.mem_singleton.mp (hclosing e he)]
      rfl
    · have hkeeps : Prog.Triple (fun h => Guarded h ∧ Authorized h) (finalize s)
          (fun _ h => Guarded h ∧ Authorized h) fun h => Guarded h ∧ Authorized h :=
        Prog.Within.triple (E := fun _ => True) (fun _ _ _ _ _ => trivial) fun h e _ hh =>
          ⟨hh.1.concat fun _ => hh.2, hh.2.append _⟩
      have hq := hkeeps t₁ t₂ o' ⟨hguarded, hauthorized⟩ h₂
      rcases o' with _ | _ <;> exact hq.1
  · obtain ⟨-, hharmless⟩ | ⟨hguarded, -⟩ := hbody t _ h₁
    · exact hharmless.guarded
    · exact hguarded
  · exact hbody t _ h₁

/-- On a machine where every call succeeds, the buffer is mapped after the checks. -/
theorem main_guarded_goodMachine :
    Guarded ((main true 1 (defaultArguments "profile") zeroStack).exec goodMachine []).1 :=
  main_guarded (Prog.run_exec goodMachine _ [])

end CacheNoise
