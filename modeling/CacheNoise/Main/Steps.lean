import CacheNoise.Main.Frames

/-!
# Steps under `EXIT_ON_FAIL`

How often a run of `main` evaluates its steps, and what it prints about a failure. A step that
succeeds is evaluated once (`exitOnFail_run`). A step that fails is evaluated **three times**:
the second and third evaluation are arguments of the message, and the printed codes are
theirs. So a run treats its steps as it should if and only if none of them fails
(`main_stepsOnce_iff`).
-/

namespace CacheNoise

open Interaction

/-! ### Runs of a step -/

section

variable {leftToRight : Bool} {step : Step} {body : Locals → Proc (ErrorT × Locals)}

/-- The events of one evaluation that returned. -/
def evaluation (step : Step) (a : Answer (.enter step)) (u : List Event) (res : ErrorT)
    (b : Answer (.leave step res)) : List Event :=
  ⟨.enter step, a⟩ :: u ++ [⟨.leave step res, b⟩]

theorem execute_run {s : Locals} {t : List Event} {o : Option (Except Exit ErrorT × Locals)} :
    (execute step body s).Run t o ↔
      (∃ a u res s' b, t = evaluation step a u res b ∧ (body s).Run u (some (res, s')) ∧
        o = some (.ok res, s')) ∨
      (∃ a u, t = ⟨.enter step, a⟩ :: u ∧ (body s).Run u none ∧ o = none) := by
  rw [execute, Cmd.run_liftState]
  constructor
  · rintro ⟨o', hrun, rfl⟩
    rcases Prog.run_bind.mp hrun with ⟨t₁, t₂, _, rfl, h₁, h₂⟩ | ⟨rfl, h₁⟩
    · obtain ⟨a, rfl, -⟩ := run_sys.mp h₁
      rcases Prog.run_bind.mp h₂ with ⟨u, t₃, ⟨res, s'⟩, rfl, hbody, h₃⟩ | ⟨rfl, hbody⟩
      · rcases Prog.run_bind.mp h₃ with ⟨t₄, t₅, _, rfl, h₄, rfl, rfl⟩ | ⟨-, h₄⟩
        · obtain ⟨b, rfl, -⟩ := run_sys.mp h₄
          exact .inl ⟨a, u, res, s', b, by simp [evaluation], hbody, rfl⟩
        · obtain ⟨b, -, hb⟩ := run_sys.mp h₄
          exact absurd hb (by simp)
      · exact .inr ⟨a, t₂, rfl, hbody, rfl⟩
    · obtain ⟨a, -, ha⟩ := run_sys.mp h₁
      exact absurd ha (by simp)
  · rintro (⟨a, u, res, s', b, rfl, hbody, rfl⟩ | ⟨a, u, rfl, hbody, rfl⟩)
    · refine ⟨some (res, s'), ?_, rfl⟩
      refine Prog.run_bind.mpr (.inl ⟨[_], _, _, rfl, run_sys.mpr ⟨a, rfl, rfl⟩, ?_⟩)
      refine hbody.bind ?_
      exact Prog.run_bind.mpr (.inl ⟨[_], [], _, rfl, run_sys.mpr ⟨b, rfl, rfl⟩, rfl, rfl⟩)
    · refine ⟨none, ?_, rfl⟩
      refine Prog.run_bind.mpr (.inl ⟨[_], _, _, rfl, run_sys.mpr ⟨a, rfl, rfl⟩, ?_⟩)
      exact Prog.run_bind.mpr (.inr ⟨rfl, hbody⟩)

theorem execute_run_ok {s s' : Locals} {t : List Event} {res : ErrorT} :
    (execute step body s).Run t (some (.ok res, s')) ↔
      ∃ a u b, t = evaluation step a u res b ∧ (body s).Run u (some (res, s')) := by
  rw [execute_run]
  constructor
  · rintro (⟨a, u, res', s₁, b, rfl, hbody, heq⟩ | ⟨a, u, -, -, h⟩)
    · obtain ⟨hres, rfl⟩ := Prod.mk.inj (Option.some_injective _ heq)
      obtain rfl := Except.ok.inj hres
      exact ⟨a, u, b, rfl, hbody⟩
    · exact absurd h (by simp)
  · rintro ⟨a, u, b, rfl, hbody⟩
    exact .inl ⟨a, u, res, s', b, rfl, hbody, rfl⟩

theorem execute_run_error {s s' : Locals} {t : List Event} {e : Exit} :
    ¬ (execute step body s).Run t (some (.error e, s')) := by
  rw [execute_run]
  rintro (⟨a, u, res', s₁, b, -, -, h⟩ | ⟨a, u, -, -, h⟩) <;> exact absurd h (by simp)

theorem execute_run_none {s : Locals} {t : List Event} :
    (execute step body s).Run t none ↔
      ∃ a u, t = ⟨.enter step, a⟩ :: u ∧ (body s).Run u none := by
  rw [execute_run]
  constructor
  · rintro (⟨a, u, res', s₁, b, -, -, h⟩ | ⟨a, u, rfl, hbody, -⟩)
    · exact absurd h (by simp)
    · exact ⟨a, u, rfl, hbody⟩
  · rintro ⟨a, u, rfl, hbody⟩
    exact .inr ⟨a, u, rfl, hbody, rfl⟩

/-- Runs of the failing branch: two more evaluations and a message, as far as the evaluations
return. -/
theorem failStep_run {s : Locals} {t : List Event} {o : Option (Except Exit Unit × Locals)}
    (h : (failStep leftToRight step body s).Run t o) :
    (∃ a u, t = ⟨.enter step, a⟩ :: u ∧ (body s).Run u none ∧ o = none) ∨
    (∃ a u res s₁ b a' u', t = evaluation step a u res b ++ ⟨.enter step, a'⟩ :: u' ∧
      (body s).Run u (some (res, s₁)) ∧ (body s₁).Run u' none ∧ o = none) ∨
    ∃ a u res s₁ b a' u' res' s₂ b' c,
      t = evaluation step a u res b ++ evaluation step a' u' res' b' ++
        [⟨.report step (if leftToRight = true then res else res')
          (if leftToRight = true then res' else res), c⟩] ∧
      (body s).Run u (some (res, s₁)) ∧ (body s₁).Run u' (some (res', s₂)) ∧
      o = some (.error .finalize, s₂) := by
  rcases Cmd.run_bind.mp h with ⟨t₁, t₂, res, s₁, rfl, h₁, h₂⟩ | ⟨e, s₁, -, h₁⟩ | ⟨rfl, h₁⟩
  · obtain ⟨a, u, b, rfl, hu⟩ := execute_run_ok.mp h₁
    rcases Cmd.run_bind.mp h₂ with ⟨t₃, t₄, res', s₂, rfl, h₃, h₄⟩ | ⟨e, s₂, -, h₃⟩ | ⟨rfl, h₃⟩
    · obtain ⟨a', u', b', rfl, hu'⟩ := execute_run_ok.mp h₃
      rcases Cmd.run_bind.mp h₄ with ⟨t₅, t₆, _, s₃, rfl, h₅, rfl, rfl⟩ | ⟨e, s₃, -, h₅⟩ |
        ⟨-, h₅⟩ <;> obtain ⟨o', hc, ho'⟩ := Cmd.run_lift.mp h₅ <;>
        obtain ⟨c, rfl, rfl⟩ := run_sys.mp hc
      · obtain ⟨-, rfl⟩ := Prod.mk.inj (Option.some_injective _ ho')
        refine .inr (.inr ⟨a, u, res, s₁, b, a', u', res', s₃, b', c, ?_, hu, hu', rfl⟩)
        simp
      · exact absurd ho' (by simp)
      · exact absurd ho' (by simp)
    · exact absurd h₃ execute_run_error
    · obtain ⟨a', u', rfl, hu'⟩ := execute_run_none.mp h₃
      exact .inr (.inl ⟨a, u, res, s₁, b, a', u', rfl, hu, hu', rfl⟩)
  · exact absurd h₁ execute_run_error
  · obtain ⟨a, u, rfl, hu⟩ := execute_run_none.mp h₁
    exact .inl ⟨a, u, rfl, hu, rfl⟩

/-- **Runs of `EXIT_ON_FAIL`**: one evaluation without an error, or one that does not return,
or a failing one followed by the failing branch. -/
theorem exitOnFail_run {s : Locals} {t : List Event} {o : Option (Except Exit Unit × Locals)}
    (h : (exitOnFail leftToRight step body s).Run t o) :
    (∃ a u s' b, t = evaluation step a u errorNone b ∧
      (body s).Run u (some (errorNone, s')) ∧ o = some (.ok (), s')) ∨
    (∃ a u, t = ⟨.enter step, a⟩ :: u ∧ (body s).Run u none ∧ o = none) ∨
    ∃ a u res s₁ b t', t = evaluation step a u res b ++ t' ∧ res ≠ errorNone ∧
      (body s).Run u (some (res, s₁)) ∧ (failStep leftToRight step body s₁).Run t' o := by
  rcases Cmd.run_bind.mp h with ⟨t₁, t₂, res, s₁, rfl, h₁, h₂⟩ | ⟨e, s₁, -, h₁⟩ | ⟨rfl, h₁⟩
  · obtain ⟨a, u, b, rfl, hu⟩ := execute_run_ok.mp h₁
    by_cases hfail : res = errorNone
    · subst hfail
      obtain ⟨rfl, rfl⟩ := h₂
      exact .inl ⟨a, u, s₁, b, List.append_nil _, hu, rfl⟩
    · rw [if_pos hfail] at h₂
      exact .inr (.inr ⟨a, u, res, s₁, b, t₂, rfl, hfail, hu, h₂⟩)
  · exact absurd h₁ execute_run_error
  · obtain ⟨a, u, rfl, hu⟩ := execute_run_none.mp h₁
    exact .inr (.inl ⟨a, u, rfl, hu, rfl⟩)

/-- A normal exit comes from one evaluation, without an error. -/
theorem triple_exitOnFail_ok {P J : Locals → List Event → Prop}
    (hbody : ∀ s h u s' a b, P s h → (body s).Run u (some (errorNone, s')) →
      J s' (h ++ evaluation step a u errorNone b)) :
    Cmd.Triple P (exitOnFail leftToRight step body) (fun _ s h => J s h) fun _ _ => True := by
  intro s h t o hP hrun
  rcases exitOnFail_run hrun with ⟨a, u, s', b, rfl, hu, rfl⟩ | ⟨a, u, rfl, -, rfl⟩ |
    ⟨a, u, res, s₁, b, t', rfl, -, -, hfail⟩
  · exact hbody s h u s' a b hP hu
  · trivial
  · rcases failStep_run hfail with ⟨_, _, -, -, rfl⟩ | ⟨_, _, _, _, _, _, _, -, -, -, rfl⟩ |
      ⟨_, _, _, _, _, _, _, _, _, _, _, -, -, -, rfl⟩ <;> trivial

end

section

variable {leftToRight : Bool} {step : Step} {body : Locals → Proc (ErrorT × Locals)}

/-- An invariant that the body of a step keeps, and the marks of `EXIT_ON_FAIL` too, holds
after the step, however often it was evaluated. -/
theorem triple_exitOnFail {I : Locals → List Event → Prop} {D : List Event → Prop}
    (hmark : ∀ s h e, e.1.kind = .step → I s h → I s (h ++ [e])) (hD : ∀ s h, I s h → D h)
    (hbody : ∀ s, (body s).Triple (I s) (fun r h => I r.2 h) D) :
    Cmd.Triple I (exitOnFail leftToRight step body) (fun _ s h => I s h) fun _ h => D h := by
  have hsys : ∀ s (c : Call), c.kind = .step → (sys c).Triple (I s) (fun _ h => I s h) D := by
    intro s c hc h t o hI hrun
    obtain ⟨a, rfl, rfl⟩ := run_sys.mp hrun
    exact hmark s h _ hc hI
  have hexec : Cmd.Triple I (execute step body) (fun _ s h => I s h) fun _ h => D h := by
    refine Cmd.triple_liftState fun s => ?_
    refine (hsys s _ rfl).bind fun _ => (hbody s).bind fun r => ?_
    exact (hsys r.2 _ rfl).bind fun _ => Prog.triple_pure fun h hI => hI
  refine hexec.bind fun res => Cmd.Triple.ite (fun _ => ?_) fun _ =>
    Cmd.triple_pure fun s h hI => hI
  refine hexec.bind fun first => hexec.bind fun second => ?_
  refine (Cmd.triple_lift fun s => hsys s _ rfl).bind fun _ => ?_
  exact Cmd.triple_throw fun s h hI => hD s h hI

/-- The same for an invariant of what the step keeps, where the events of its body depend on
it. -/
theorem triple_exitOnFail_within {κ : Type} {f : Locals → κ} {E : κ → Event → Prop}
    {I : κ → List Event → Prop} {N : List Event → Prop}
    (hmark : ∀ b e, e.1.kind = .step → E b e) (hbody : ∀ s, (body s).Within (E (f s)))
    (hf : ∀ s, (body s).Returns fun x => f x.2 = f s)
    (hI : ∀ b h e, E b e → I b h → I b (h ++ [e])) (hN : ∀ b h, I b h → N h) :
    Cmd.Triple (fun s h => I (f s) h) (exitOnFail leftToRight step body)
      (fun _ s h => I (f s) h) fun _ h => N h := by
  refine triple_exitOnFail (fun s h e he => hI _ h e (hmark _ e he)) (fun s => hN _) fun s => ?_
  intro h t o hh hrun
  have hkept := (hbody s).triple (hI (f s)) h t o hh hrun
  cases o with
  | none => exact hN _ _ hkept
  | some x =>
    change I (f x.2) (h ++ t)
    rwa [hf s t x hrun]

/-- An invariant that whole evaluations of a step keep holds after the step, too. -/
theorem triple_exitOnFail_evaluations {I : Locals → List Event → Prop}
    (heval : ∀ s h u res s' a b, I s h → (body s).Run u (some (res, s')) →
      I s' (h ++ evaluation step a u res b))
    (hreport : ∀ s h decoded number c, I s h → I s (h ++ [⟨.report step decoded number, c⟩])) :
    Cmd.Triple I (exitOnFail leftToRight step body) (fun _ s h => I s h)
      fun x h => ∀ e s, x = some (e, s) → I s h := by
  intro s h t o hI hrun
  rcases exitOnFail_run hrun with ⟨a, u, s', b, rfl, hu, rfl⟩ | ⟨a, u, -, -, rfl⟩ |
    ⟨a, u, res, s₁, b, t', rfl, -, hu, hfail⟩
  · exact heval s h u errorNone s' a b hI hu
  · simp
  · have h₁ := heval s h u res s₁ a b hI hu
    rcases failStep_run hfail with ⟨_, _, -, -, rfl⟩ | ⟨_, _, _, _, _, _, _, -, -, -, rfl⟩ |
      ⟨a', u', res', s₂, b', a'', u'', res'', s₃, b'', c, rfl, hu', hu'', rfl⟩
    · simp
    · simp
    · rintro e s ⟨rfl⟩
      have h₂ := heval s₁ _ u' res' s₂ a' b' h₁ hu'
      have h₃ := hreport _ _ _ _ c (heval s₂ _ u'' res'' _ a'' b'' h₂ hu'')
      simpa only [List.append_assoc] using h₃

end

/-! ### Parts that never fail -/

/-- `m` never leaves with `exit(EXIT_FAILURE)`. -/
def NeverFails {α : Type} (m : Main α) : Prop :=
  Cmd.Triple (fun _ _ => True) m (fun _ _ _ => True) fun x _ => ∀ s, x ≠ some (.failure, s)

theorem NeverFails.bind {α β : Type} {m : Main α} {k : α → Main β} (hm : NeverFails m)
    (hk : ∀ a, NeverFails (k a)) : NeverFails (m >>= k) := Cmd.Triple.bind hm hk

theorem NeverFails.ite {α : Type} {c : Prop} [Decidable c] {m n : Main α} (hm : NeverFails m)
    (hn : NeverFails n) : NeverFails (if c then m else n) :=
  Cmd.Triple.ite (fun _ => hm) fun _ => hn

theorem neverFails_pure {α : Type} (a : α) : NeverFails (pure a : Main α) :=
  Cmd.triple_pure fun _ _ _ => trivial

theorem neverFails_get : NeverFails (Cmd.get : Main Locals) :=
  Cmd.triple_get fun _ _ _ => trivial

theorem neverFails_lift {α : Type} (p : Proc α) : NeverFails (Cmd.lift p : Main α) :=
  Cmd.triple_lift fun _ _ _ o _ _ => by
    cases o with
    | none => simp
    | some _ => trivial

section

variable (leftToRight : Bool)

theorem neverFails_exitOnFail (step : Step) (body : Locals → Proc (ErrorT × Locals)) :
    NeverFails (exitOnFail leftToRight step body) := by
  intro s h t o _ hrun
  rcases exitOnFail_run hrun with ⟨_, _, _, _, -, -, rfl⟩ | ⟨_, _, -, -, rfl⟩ |
    ⟨_, _, _, _, _, _, -, -, -, hfail⟩
  · trivial
  · simp
  · rcases failStep_run hfail with ⟨_, _, -, -, rfl⟩ | ⟨_, _, _, _, _, _, _, -, -, -, rfl⟩ |
      ⟨_, _, _, _, _, _, _, _, _, _, _, -, -, -, rfl⟩
    · simp
    · simp
    · simp

theorem neverFails_startExternal : NeverFails (startExternal leftToRight) :=
  neverFails_get.bind fun _ => (neverFails_exitOnFail _ _ _).ite
    ((neverFails_exitOnFail _ _ _).ite (neverFails_pure _))

theorem neverFails_setAlarm : NeverFails setAlarm :=
  neverFails_get.bind fun _ => (neverFails_lift _).ite (neverFails_pure _)

theorem neverFails_killExternal : NeverFails killExternal :=
  neverFails_get.bind fun _ =>
    ((neverFails_lift _).bind fun _ => neverFails_pure _).ite (neverFails_pure _)

end

/-! ### What a run shows of its steps -/

/-- The steps that are evaluated, in order. -/
def entered (t : List Event) : List Step :=
  t.filterMap fun
    | ⟨.enter step, _⟩ => some step
    | _ => none

/-- The evaluations that return, in order, with their codes. -/
def left (t : List Event) : List (Step × ErrorT) :=
  t.filterMap fun
    | ⟨.leave step res, _⟩ => some (step, res)
    | _ => none

/-- The messages, with the code passed to `decode_error` and the printed code. -/
def reports (t : List Event) : List (Step × ErrorT × ErrorT) :=
  t.filterMap fun
    | ⟨.report step decoded number, _⟩ => some (step, decoded, number)
    | _ => none

/-- No step of the run fails. -/
def NoStepFails (t : List Event) : Prop := ∀ x ∈ left t, x.2 = errorNone

instance (t : List Event) : Decidable (NoStepFails t) :=
  inferInstanceAs (Decidable (∀ x ∈ left t, x.2 = errorNone))

/-- **Steps as they should be**: none is evaluated twice, and a message is about the code that
the failing evaluation of its step returned. -/
def StepsOnce (t : List Event) : Prop :=
  (entered t).Nodup ∧ ∀ r ∈ reports t,
    (left t).find? (fun x => x.1 = r.1) = some (r.1, r.2.1) ∧ r.2.2 = r.2.1

theorem entered_append (t u : List Event) : entered (t ++ u) = entered t ++ entered u :=
  List.filterMap_append

theorem left_append (t u : List Event) : left (t ++ u) = left t ++ left u :=
  List.filterMap_append

theorem reports_append (t u : List Event) : reports (t ++ u) = reports t ++ reports u :=
  List.filterMap_append

theorem noStepFails_append {t u : List Event} :
    NoStepFails (t ++ u) ↔ NoStepFails t ∧ NoStepFails u := by
  rw [NoStepFails, left_append]
  exact List.forall_mem_append

/-- Calls other than the marks of `EXIT_ON_FAIL` show nothing. -/
theorem quiet_of_kinds {t : List Event} (h : ∀ e ∈ t, e.1.kind ≠ .step) :
    entered t = [] ∧ left t = [] ∧ reports t = [] := by
  refine ⟨?_, ?_, ?_⟩ <;>
  · refine List.filterMap_eq_nil_iff.mpr fun e he => ?_
    have hkind := h e he
    obtain ⟨c, a⟩ := e
    cases c <;> first | rfl | exact absurd rfl hkind

/-- What a part of a run shows when its steps are among `S`, in this order: while no step fails,
each is evaluated at most once and nothing is reported; once one has failed, some step has been
evaluated twice. -/
def StepsAmong (S : List Step) (t : List Event) : Prop :=
  (NoStepFails t → (entered t).Sublist S ∧ reports t = []) ∧
    (¬ NoStepFails t → ¬ (entered t).Nodup)

theorem StepsAmong.append {S S' : List Step} {t u : List Event} (ht : StepsAmong S t)
    (hu : StepsAmong S' u) : StepsAmong (S ++ S') (t ++ u) := by
  constructor
  · intro h
    obtain ⟨h₁, h₂⟩ := noStepFails_append.mp h
    rw [entered_append, reports_append, (ht.1 h₁).2, (hu.1 h₂).2]
    exact ⟨(ht.1 h₁).1.append (hu.1 h₂).1, rfl⟩
  · intro h hnd
    rw [entered_append] at hnd
    by_cases h₁ : NoStepFails t
    · exact hu.2 (fun h₂ => h (noStepFails_append.mpr ⟨h₁, h₂⟩)) hnd.of_append_right
    · exact ht.2 h₁ hnd.of_append_left

theorem StepsAmong.mono {S S' : List Step} {t : List Event} (ht : StepsAmong S t)
    (h : S.Sublist S') : StepsAmong S' t :=
  ⟨fun hn => ⟨(ht.1 hn).1.trans h, (ht.1 hn).2⟩, ht.2⟩

theorem stepsAmong_of_kinds {t : List Event} (h : ∀ e ∈ t, e.1.kind ≠ .step) :
    StepsAmong [] t := by
  obtain ⟨hentered, hleft, hreports⟩ := quiet_of_kinds h
  refine ⟨fun _ => ⟨hentered ▸ List.Sublist.refl _, hreports⟩, fun hfail => ?_⟩
  exact absurd (fun x hx => by rw [hleft] at hx; exact absurd hx List.not_mem_nil) hfail

/-! ### The steps of `main` -/

/-- All runs of a part of `main` show steps among `S`. -/
def Stepwise (S : List Step) {α : Type} (m : Main α) : Prop :=
  ∀ s t o, (m s).Run t o → StepsAmong S t

theorem Stepwise.bind {S T : List Step} {α β : Type} {m : Main α} {k : α → Main β}
    (hm : Stepwise S m) (hk : ∀ a, Stepwise T (k a)) : Stepwise (S ++ T) (m >>= k) := by
  intro s t o hrun
  rcases Cmd.run_bind.mp hrun with ⟨t₁, t₂, a, s₁, rfl, h₁, h₂⟩ | ⟨e, s₁, -, h₁⟩ | ⟨-, h₁⟩
  · exact (hm s t₁ _ h₁).append (hk a s₁ t₂ _ h₂)
  · exact (hm s t _ h₁).mono (List.sublist_append_left S T)
  · exact (hm s t _ h₁).mono (List.sublist_append_left S T)

theorem Stepwise.ite {S : List Step} {α : Type} {c : Prop} [Decidable c] {m n : Main α}
    (hm : Stepwise S m) (hn : Stepwise S n) : Stepwise S (if c then m else n) := by
  split
  · exact hm
  · exact hn

theorem Stepwise.mono {S S' : List Step} {α : Type} {m : Main α} (hm : Stepwise S m)
    (h : S.Sublist S') : Stepwise S' m := fun s t o hrun => (hm s t o hrun).mono h

theorem stepwise_of_frame {α κ : Type} {K : List Kind} {f : Locals → κ} {m : Main α}
    (hm : Cmd.Frame (fun e => e.1.kind ∈ K) f m) (hK : Kind.step ∉ K) : Stepwise [] m :=
  fun s t o hrun => stepsAmong_of_kinds fun e he h => hK (h ▸ (hm s t o hrun).1 e he)

section

variable {leftToRight : Bool} {step : Step} {body : Locals → Proc (ErrorT × Locals)}
  {K : List Kind}

private theorem entered_enter {t : List Event} (a : Answer (.enter step)) :
    entered (⟨.enter step, a⟩ :: t) = step :: entered t := rfl

private theorem left_enter {t : List Event} (a : Answer (.enter step)) :
    left (⟨.enter step, a⟩ :: t) = left t := rfl

theorem shown_evaluation {a : Answer (.enter step)} {u : List Event} {res : ErrorT}
    {b : Answer (.leave step res)} (h : ∀ e ∈ u, e.1.kind ≠ .step) :
    entered (evaluation step a u res b) = [step] ∧
      left (evaluation step a u res b) = [(step, res)] ∧
      reports (evaluation step a u res b) = [] := by
  obtain ⟨hentered, hleft, hreports⟩ := quiet_of_kinds h
  refine ⟨?_, ?_, ?_⟩
  · rw [evaluation, List.cons_append, entered_enter, entered_append, hentered]
    rfl
  · rw [evaluation, List.cons_append, left_enter, left_append, hleft]
    rfl
  · rw [evaluation, List.cons_append, reports]
    change reports (u ++ _) = []
    rw [reports_append, hreports]
    rfl

/-- **`EXIT_ON_FAIL` evaluates a step once, unless it fails.** -/
theorem stepwise_exitOnFail (hbody : ∀ s, Only K (body s)) (hK : Kind.step ∉ K) :
    Stepwise [step] (exitOnFail leftToRight step body) := by
  have hquiet : ∀ {s u o}, (body s).Run u o → ∀ e ∈ u, e.1.kind ≠ .step :=
    fun hu e he h => hK (h ▸ hbody _ _ _ hu e he)
  intro s t o hrun
  rcases exitOnFail_run hrun with ⟨a, u, s', b, rfl, hu, -⟩ | ⟨a, u, rfl, hu, -⟩ |
    ⟨a, u, res, s₁, b, t', rfl, hres, hu, hfail⟩
  · obtain ⟨hentered, hleft, hreports⟩ := shown_evaluation (a := a) (b := b) (hquiet hu)
    refine ⟨fun _ => ⟨hentered ▸ List.Sublist.refl _, hreports⟩, fun h => absurd ?_ h⟩
    rw [NoStepFails, hleft]
    simp
  · obtain ⟨hentered, hleft, hreports⟩ := quiet_of_kinds (hquiet hu)
    refine ⟨fun _ => ⟨by rw [entered_enter, hentered], hreports⟩, fun h => absurd ?_ h⟩
    rw [NoStepFails, left_enter, hleft]
    simp
  · -- the failing branch begins with a second evaluation
    obtain ⟨hentered, hleft, -⟩ := shown_evaluation (a := a) (b := b) (hquiet hu)
    have hsecond : ∃ a' t'', t' = ⟨.enter step, a'⟩ :: t'' := by
      rcases failStep_run hfail with ⟨a', u', rfl, -⟩ | ⟨a', u', _, _, b', a'', u'', rfl, -⟩ |
        ⟨a', u', _, _, b', a'', u'', _, _, b'', c, rfl, -⟩
      · exact ⟨a', u', rfl⟩
      · exact ⟨a', _, rfl⟩
      · exact ⟨a', _, rfl⟩
    obtain ⟨a', t'', rfl⟩ := hsecond
    refine ⟨fun h => ?_, fun _ hnd => ?_⟩
    · have := (noStepFails_append.mp h).1
      rw [NoStepFails, hleft] at this
      exact absurd (this _ (List.mem_singleton_self _)) hres
    · rw [entered_append, hentered, entered_enter] at hnd
      simp at hnd

end

section

variable (leftToRight : Bool)

theorem stepwise_chooseCpu (thisPid : ℤ) :
    Stepwise [.focusThis, .currentCore] (chooseCpu leftToRight thisPid) := by
  refine Stepwise.bind (S := []) (stepwise_of_frame (K := []) (f := id) Cmd.frame_get (by simp))
    fun s => Stepwise.ite ?_ ?_
  · refine (stepwise_exitOnFail (K := [.setup]) (fun s => ?_) (by simp)).mono (by simp)
    exact (only_focusCpuCore _ _).bind fun _ => only_pure _
  · refine (Stepwise.bind (S := [.currentCore]) (T := []) ?_ fun _ => ?_).mono (by simp)
    · refine stepwise_exitOnFail (K := [.setup]) (fun s => ?_) (by simp)
      refine only_getCurrentCpuCore.bind fun r => ?_
      cases r <;> exact only_pure _
    · exact stepwise_of_frame (K := []) (f := fun s => s.buffer) (Cmd.frame_modify fun _ => rfl)
        (by simp)

theorem stepwise_setUp :
    Stepwise [.focusThis, .currentCore, .cacheInfo] (setUp leftToRight) := by
  have hpid : Stepwise [] (Cmd.lift (sys .getpid) : Main ℤ) :=
    stepwise_of_frame (K := [.setup]) (f := id) (frame_lift_sys (by simp)) (by simp)
  have hfail : ∀ c, Stepwise [] (failIf c) := fun c =>
    stepwise_of_frame (K := []) (f := id) (frame_failIf c) (by simp)
  have hhandlers : Stepwise [] installHandlers :=
    stepwise_of_frame (K := [.setup]) (f := id) (frame_installHandlers (by simp)) (by simp)
  have hcache : Stepwise [.cacheInfo] (exitOnFail leftToRight .cacheInfo cacheInfoStep) :=
    stepwise_exitOnFail (K := [.setup])
      (fun s => (only_sys (by simp)).bind fun _ => only_pure _) (by simp)
  exact hpid.bind fun _ => (hfail _).bind fun _ => hhandlers.bind fun _ =>
    (stepwise_chooseCpu leftToRight _).bind fun _ => hcache

theorem stepwise_checkRights : Stepwise [.rdpmc] (checkRights leftToRight) := by
  refine Stepwise.bind (S := []) (stepwise_of_frame (K := [.setup]) (f := id)
    (Cmd.frame_lift only_hasRootAccess) (by simp)) fun _ => ?_
  refine Stepwise.bind (S := []) (stepwise_of_frame (K := []) (f := id) (frame_failIf _)
    (by simp)) fun _ => ?_
  exact stepwise_exitOnFail (K := [.setup])
    (fun s => only_canUseRdpmc.bind fun _ => only_pure _) (by simp)

theorem stepwise_benchMode : Stepwise [.benchmark] (benchMode leftToRight) := by
  refine Stepwise.bind (S := []) (stepwise_of_frame (K := []) (f := fun s => s.buffer)
    (Cmd.frame_modify fun s => by split <;> rfl) (by simp)) fun _ => ?_
  exact stepwise_exitOnFail (K := [.setup, .measure])
    (fun s => (only_benchmark _).bind fun _ => only_pure _) (by simp)

theorem stepwise_openOutput :
    Stepwise [.outputStdout, .outputFile] (openOutput leftToRight) := by
  refine Stepwise.bind (S := []) (stepwise_of_frame (K := []) (f := id) Cmd.frame_get (by simp))
    fun s => ?_
  cases s.arguments.outputFile with
  | none =>
    refine (stepwise_exitOnFail (K := []) (fun s => ?_) (by simp)).mono (by simp)
    exact (only_pure _).bind fun _ => only_pure _
  | some file =>
    refine (stepwise_exitOnFail (K := [.opening]) (fun s => ?_) (by simp)).mono (by simp)
    exact (only_outputcHd5File _ _).bind fun _ => only_pure _

theorem stepwise_startExternal :
    Stepwise [.focusGiven, .program] (startExternal leftToRight) := by
  refine Stepwise.bind (S := []) (stepwise_of_frame (K := []) (f := id) Cmd.frame_get (by simp))
    fun s => Stepwise.ite ?_ (Stepwise.ite ?_ ?_)
  · refine (stepwise_exitOnFail (K := [.setup]) (fun s => ?_) (by simp)).mono (by simp)
    exact (only_focusCpuCore _ _).bind fun _ => only_pure _
  · refine (stepwise_exitOnFail (K := [.setup, .process]) (fun s => ?_) (by simp)).mono (by simp)
    exact (only_runProgram _ _ _).bind fun _ => only_pure _
  · exact (stepwise_of_frame (K := []) (f := id) Cmd.frame_pure (by simp)).mono (by simp)

theorem stepwise_profileMode (fuel : ℕ) :
    Stepwise [.outputStdout, .outputFile, .alloc, .focusGiven, .program, .profile]
      (profileMode leftToRight fuel) := by
  have halloc : Stepwise [.alloc] (exitOnFail leftToRight .alloc allocStep) :=
    stepwise_exitOnFail (K := [.setup, .memory])
      (fun s => (only_allocAligned _ _).bind fun _ => only_pure _) (by simp)
  have halarm : Stepwise [] setAlarm := stepwise_of_frame frame_setAlarm (by simp)
  have hprofile : Stepwise [.profile] (exitOnFail leftToRight .profile (profileStep fuel)) :=
    stepwise_exitOnFail (K := [.measure, .dataset, .closing, .print])
      (fun s => (only_profile _ _ _ _ _ _).bind fun _ => only_pure _) (by simp)
  exact (stepwise_openOutput leftToRight).bind fun _ => halloc.bind fun _ =>
    (stepwise_startExternal leftToRight).bind fun _ => halarm.bind fun _ => hprofile

/-- All steps, in the order of `main`. -/
def allSteps : List Step :=
  [.focusThis, .currentCore, .cacheInfo, .rdpmc, .benchmark, .outputStdout, .outputFile, .alloc,
    .focusGiven, .program, .profile]

theorem stepwise_mainBody (fuel : ℕ) : Stepwise allSteps (mainBody leftToRight fuel) := by
  have hget : Stepwise [] (Cmd.get : Main Locals) :=
    stepwise_of_frame (K := []) (f := id) Cmd.frame_get (by simp)
  have hmode : Stepwise [.benchmark, .outputStdout, .outputFile, .alloc, .focusGiven, .program,
      .profile] (runMode leftToRight fuel) := by
    refine hget.bind fun s => Stepwise.ite ?_ (Stepwise.ite ?_ ?_)
    · exact (stepwise_benchMode leftToRight).mono (by simp)
    · exact (stepwise_profileMode leftToRight fuel).mono (by simp)
    · exact (stepwise_of_frame (K := []) (f := id) Cmd.frame_throw (by simp)).mono (by simp)
  have hkill : Stepwise [] killExternal := stepwise_of_frame frame_killExternal (by simp)
  refine (stepwise_setUp leftToRight).bind fun _ => hget.bind fun s => Stepwise.ite ?_ ?_
  · exact (stepwise_of_frame (K := []) (f := id) Cmd.frame_pure (by simp)).mono (by simp)
  · exact (stepwise_checkRights leftToRight).bind fun _ => hmode.bind fun _ => hkill

/-- A run of `main` is one of its body, and then one of `FINALIZE` or none. -/
theorem main_run {fuel : ℕ} {arguments : Arguments} {garbage : Locals} {t : List Event}
    {o : Option ℤ} (h : (main leftToRight fuel arguments garbage).Run t o) :
    (∃ t₁ t₂ r s o', t = t₁ ++ t₂ ∧ r ≠ .error .failure ∧
      (mainBody leftToRight fuel { garbage with arguments, buffer := .null }).Run t₁
        (some (r, s)) ∧ (finalize s).Run t₂ o' ∧ o = o'.map fun _ => 0) ∨
    (∃ s, (mainBody leftToRight fuel { garbage with arguments, buffer := .null }).Run t
      (some (.error .failure, s)) ∧ o = some 1) ∨
    ((mainBody leftToRight fuel { garbage with arguments, buffer := .null }).Run t none ∧
      o = none) := by
  have hfin : ∀ {s t₂}, (do finalize s; pure 0 : Proc ℤ).Run t₂ o →
      ∃ o', (finalize s).Run t₂ o' ∧ o = o'.map fun _ => 0 := by
    intro s t₂ h₂
    rcases Prog.run_bind.mp h₂ with ⟨t₃, t₄, _, rfl, h₃, rfl, rfl⟩ | ⟨rfl, h₃⟩
    · exact ⟨some (), by simpa using h₃, rfl⟩
    · exact ⟨none, h₃, rfl⟩
  rcases Prog.run_bind.mp h with ⟨t₁, t₂, ⟨r, s⟩, rfl, h₁, h₂⟩ | ⟨rfl, h₁⟩
  · rcases r with (_ | _) | _
    · obtain ⟨o', hf, rfl⟩ := hfin h₂
      exact .inl ⟨t₁, t₂, _, s, o', rfl, by simp, h₁, hf, rfl⟩
    · obtain ⟨rfl, rfl⟩ := h₂
      exact .inr (.inl ⟨s, by simpa using h₁, rfl⟩)
    · obtain ⟨o', hf, rfl⟩ := hfin h₂
      exact .inl ⟨t₁, t₂, _, s, o', rfl, by simp, h₁, hf, rfl⟩
  · exact .inr (.inr ⟨h₁, rfl⟩)

/-- **The steps of a run of `main`** are as they should be if and only if none fails. -/
theorem main_stepsOnce_iff (fuel : ℕ) (arguments : Arguments) (garbage : Locals)
    (t : List Event) (o : Option ℤ) (h : (main leftToRight fuel arguments garbage).Run t o) :
    StepsOnce t ↔ NoStepFails t := by
  have hsteps : StepsAmong allSteps t := by
    rcases main_run leftToRight h with ⟨t₁, t₂, r, s, o', rfl, -, h₁, h₂, -⟩ | ⟨s, h₁, -⟩ | ⟨h₁, -⟩
    · have hquiet : ∀ e ∈ t₂, e.1.kind ≠ .step := fun e he hk => by
        have hmem : e.1.kind ∈ [Kind.closing, Kind.memory] := only_finalize s t₂ o' h₂ e he
        rw [hk] at hmem
        simp at hmem
      simpa using (stepwise_mainBody leftToRight fuel _ t₁ _ h₁).append
        (stepsAmong_of_kinds hquiet)
    · exact stepwise_mainBody leftToRight fuel _ t _ h₁
    · exact stepwise_mainBody leftToRight fuel _ t _ h₁
  constructor
  · intro honce
    by_contra hfail
    exact hsteps.2 hfail honce.1
  · intro hok
    obtain ⟨hsub, hreports⟩ := hsteps.1 hok
    refine ⟨hsub.nodup (by decide), fun r hr => ?_⟩
    rw [hreports] at hr
    exact absurd hr List.not_mem_nil

end

/-- On a machine where every call succeeds, the steps of a measurement are as they should be. -/
theorem main_stepsOnce_iff_goodMachine :
    StepsOnce ((main true 1 (defaultArguments "profile") zeroStack).exec goodMachine []).1 :=
  (main_stepsOnce_iff true 1 _ _ _ _ (Prog.run_exec goodMachine _ [])).mpr (by decide)

/-- A machine on which the first `posix_spawnp` fails, and later ones succeed. -/
def spawnFailsOnce (h : List Event) : (c : Call) → Answer c
  | .posixSpawnp .. => ⟨[], if (entered h).count .program = 1 then (2, 0) else (0, 200)⟩
  | c => goodMachine h c

/-- A program whose first start fails is started again by the message about it, and the
message says that nothing failed. -/
theorem main_steps_repeated :
    ¬ ∀ (leftToRight : Bool) (fuel : ℕ) (arguments : Arguments) (garbage : Locals)
      (t : List Event) (o : Option ℤ),
      (main leftToRight fuel arguments garbage).Run t o → StepsOnce t := by
  intro h
  have hrun := h true 1 { defaultArguments "profile" with program := some "/bin/true" } zeroStack
    _ _ (Prog.run_exec spawnFailsOnce _ [])
  exact absurd hrun.1 (by decide)

end CacheNoise
