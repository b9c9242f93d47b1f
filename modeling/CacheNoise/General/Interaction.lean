import Mathlib.Tactic

/-!
# Programs that call an environment

A program is a tree of **calls**: at each call the environment answers with a value of the
call's response type and the program goes on (`Prog`). Nothing is assumed of the answers, so
a statement about every run of a program is a statement about every outcome of every call it
makes, in every order.

* `Prog.Run p t o`: the program `p` ends in `o` after the events `t`, a list of calls with
  their answers. `o = none` says that it does not return: a loop that never ends, or that was
  cut off by the bound it runs with. The rules `run_pure`, `run_perform` and `run_bind` take a run
  of a composite program apart.
* `Prog.exec env p h`: the run of `p` in the environment `env`, which may answer according to
  the whole history; every environment has one (`run_exec`).
* `Prog.Within E p`: all events of `p` lie in the class `E`; the frame rule of this setting.
* `Cmd`: programs over a state with exceptions that keep the state, for a function body with
  local variables and early exits. `Cmd.Triple` is its Hoare triple over the whole history: pre-
  and postconditions speak of the state and of the events so far, with one postcondition for
  the normal exit, and one for early exits and for not returning. `Cmd.Frame` says which class
  of events a command has and which part of the state it keeps, and `Frame.triple` turns that
  into the triple of any invariant that depends on nothing else.
-/

namespace Interaction

/-- A program over the calls `C` with responses `R`. `stuck` never returns. -/
inductive Prog (C : Type) (R : C → Type) (α : Type) : Type
  | ret (a : α)
  | stuck
  | call (c : C) (k : R c → Prog C R α)

variable {C : Type} {R : C → Type} {α β γ : Type}

/-- A call with its answer. -/
abbrev Event (R : C → Type) : Type := (c : C) × R c

namespace Prog

/-- Sequential composition. -/
def bind : Prog C R α → (α → Prog C R β) → Prog C R β
  | .ret a, f => f a
  | .stuck, _ => .stuck
  | .call c k, f => .call c fun r => (k r).bind f

instance : Monad (Prog C R) where
  pure := .ret
  bind := .bind

/-- One call. -/
def perform (c : C) : Prog C R (R c) := .call c .ret

/-! ### Runs -/

/-- `p` ends in `o` after the events `t`; `none` when it does not return. -/
def Run : Prog C R α → List (Event R) → Option α → Prop
  | .ret a, t, o => t = [] ∧ o = some a
  | .stuck, t, o => t = [] ∧ o = none
  | .call c k, t, o => ∃ r t', t = ⟨c, r⟩ :: t' ∧ (k r).Run t' o

@[simp]
theorem run_pure {a : α} {t : List (Event R)} {o : Option α} :
    (pure a : Prog C R α).Run t o ↔ t = [] ∧ o = some a := Iff.rfl

@[simp]
theorem run_ret {a : α} {t : List (Event R)} {o : Option α} :
    (ret a : Prog C R α).Run t o ↔ t = [] ∧ o = some a := Iff.rfl

@[simp]
theorem run_stuck {t : List (Event R)} {o : Option α} :
    (stuck : Prog C R α).Run t o ↔ t = [] ∧ o = none := Iff.rfl

@[simp]
theorem run_perform {c : C} {t : List (Event R)} {o : Option (R c)} :
    (perform c : Prog C R (R c)).Run t o ↔ ∃ r, t = [⟨c, r⟩] ∧ o = some r := by
  constructor
  · rintro ⟨r, t', rfl, rfl, rfl⟩
    exact ⟨r, rfl, rfl⟩
  · rintro ⟨r, rfl, rfl⟩
    exact ⟨r, [], rfl, rfl, rfl⟩

/-- **Runs of a composition**: the first program returns and the second goes on from its
value, or the first does not return. -/
theorem run_bind {p : Prog C R α} {f : α → Prog C R β} {t : List (Event R)} {o : Option β} :
    (p >>= f).Run t o ↔
      (∃ t₁ t₂ a, t = t₁ ++ t₂ ∧ p.Run t₁ (some a) ∧ (f a).Run t₂ o) ∨
        (o = none ∧ p.Run t none) := by
  change (p.bind f).Run t o ↔ _
  induction p generalizing t with
  | ret a =>
    constructor
    · intro h
      exact .inl ⟨[], t, a, rfl, ⟨rfl, rfl⟩, h⟩
    · rintro (⟨t₁, t₂, b, rfl, ⟨rfl, hb⟩, h⟩ | ⟨-, -, h⟩)
      · obtain rfl : b = a := Option.some_injective _ hb
        exact h
      · exact absurd h (by simp)
  | stuck =>
    constructor
    · rintro ⟨rfl, rfl⟩
      exact .inr ⟨rfl, rfl, rfl⟩
    · rintro (⟨t₁, t₂, b, -, ⟨-, hb⟩, -⟩ | ⟨rfl, rfl, -⟩)
      · exact absurd hb (by simp)
      · exact ⟨rfl, rfl⟩
  | call c k ih =>
    constructor
    · rintro ⟨r, t', rfl, h⟩
      rcases (ih r).mp h with ⟨t₁, t₂, a, rfl, h₁, h₂⟩ | ⟨rfl, hk⟩
      · exact .inl ⟨⟨c, r⟩ :: t₁, t₂, a, rfl, ⟨r, t₁, rfl, h₁⟩, h₂⟩
      · exact .inr ⟨rfl, r, t', rfl, hk⟩
    · rintro (⟨t₁, t₂, a, rfl, ⟨r, t', rfl, h₁⟩, h₂⟩ | ⟨rfl, r, t', rfl, h⟩)
      · exact ⟨r, t' ++ t₂, rfl, (ih r).mpr (.inl ⟨t', t₂, a, rfl, h₁, h₂⟩)⟩
      · exact ⟨r, t', rfl, (ih r).mpr (.inr ⟨rfl, h⟩)⟩

/-- A run of a composition whose first part is done. -/
theorem Run.bind {p : Prog C R α} {f : α → Prog C R β} {t₁ t₂ : List (Event R)} {a : α}
    {o : Option β} (h₁ : p.Run t₁ (some a)) (h₂ : (f a).Run t₂ o) : (p >>= f).Run (t₁ ++ t₂) o :=
  run_bind.mpr (.inl ⟨t₁, t₂, a, rfl, h₁, h₂⟩)

/-! ### Execution in an environment -/

/-- The events and the outcome of `p` in the environment `env`, after the events `h`. -/
def exec (env : List (Event R) → (c : C) → R c) :
    Prog C R α → List (Event R) → List (Event R) × Option α
  | .ret a, _ => ([], some a)
  | .stuck, _ => ([], none)
  | .call c k, h =>
    let e : Event R := ⟨c, env h c⟩
    let rest := (k (env h c)).exec env (h ++ [e])
    (e :: rest.1, rest.2)

/-- **Every environment has a run.** -/
theorem run_exec (env : List (Event R) → (c : C) → R c) (p : Prog C R α) (h : List (Event R)) :
    p.Run (p.exec env h).1 (p.exec env h).2 := by
  induction p generalizing h with
  | ret a => exact ⟨rfl, rfl⟩
  | stuck => exact ⟨rfl, rfl⟩
  | call c k ih => exact ⟨env h c, _, rfl, ih _ _⟩

/-- An environment that only gives answers of a class has only events of the class. -/
theorem forall_mem_exec {E : Event R → Prop} {env : List (Event R) → (c : C) → R c}
    (henv : ∀ h c, E ⟨c, env h c⟩) (p : Prog C R α) (h : List (Event R)) :
    ∀ e ∈ (p.exec env h).1, E e := by
  induction p generalizing h with
  | ret a => exact fun e he => absurd he List.not_mem_nil
  | stuck => exact fun e he => absurd he List.not_mem_nil
  | call c k ih => exact List.forall_mem_cons.mpr ⟨henv h c, ih _ _⟩

/-! ### Classes of events -/

/-- Every event of every run of `p` lies in the class `E`. -/
def Within (E : Event R → Prop) (p : Prog C R α) : Prop :=
  ∀ t o, p.Run t o → ∀ e ∈ t, E e

variable {E : Event R → Prop}

theorem within_pure {a : α} : Within E (pure a : Prog C R α) := by
  rintro t o ⟨rfl, -⟩ e he
  simp at he

theorem within_stuck : Within E (stuck : Prog C R α) := by
  rintro t o ⟨rfl, -⟩ e he
  simp at he

theorem within_perform {c : C} (h : ∀ r, E ⟨c, r⟩) : Within E (perform c : Prog C R (R c)) := by
  intro t o hrun e he
  obtain ⟨r, rfl, -⟩ := run_perform.mp hrun
  rw [List.mem_singleton.mp he]
  exact h r

theorem Within.bind {p : Prog C R α} {f : α → Prog C R β} (hp : Within E p)
    (hf : ∀ a, Within E (f a)) : Within E (p >>= f) := by
  intro t o hrun e he
  rcases run_bind.mp hrun with ⟨t₁, t₂, a, rfl, h₁, h₂⟩ | ⟨-, h⟩
  · rcases List.mem_append.mp he with he | he
    · exact hp t₁ _ h₁ e he
    · exact hf a t₂ _ h₂ e he
  · exact hp t _ h e he

theorem Within.ite {c : Prop} [Decidable c] {p q : Prog C R α} (hp : Within E p)
    (hq : Within E q) : Within E (if c then p else q) := by
  split
  · exact hp
  · exact hq

theorem Within.mono {E' : Event R → Prop} {p : Prog C R α} (hp : Within E p)
    (h : ∀ e, E e → E' e) : Within E' p := fun t o hrun e he => h e (hp t o hrun e he)

/-- Every value that `p` returns has `Q`. -/
def Returns (Q : α → Prop) (p : Prog C R α) : Prop := ∀ t a, p.Run t (some a) → Q a

theorem returns_pure {Q : α → Prop} {a : α} (h : Q a) : Returns Q (pure a : Prog C R α) := by
  rintro t b ⟨-, hb⟩
  obtain rfl := Option.some_injective _ hb
  exact h

theorem Returns.bind {Q : β → Prop} {P : α → Prop} {p : Prog C R α} {f : α → Prog C R β}
    (hp : Returns P p) (hf : ∀ a, P a → Returns Q (f a)) : Returns Q (p >>= f) := by
  intro t b hrun
  rcases run_bind.mp hrun with ⟨t₁, t₂, a, -, h₁, h₂⟩ | ⟨h, -⟩
  · exact hf a (hp t₁ a h₁) t₂ b h₂
  · exact absurd h (by simp)

theorem returns_stuck {Q : α → Prop} : Returns Q (stuck : Prog C R α) := by
  rintro t a ⟨-, h⟩
  exact absurd h (by simp)

theorem Returns.ite {c : Prop} [Decidable c] {Q : α → Prop} {p q : Prog C R α}
    (hp : Returns Q p) (hq : Returns Q q) : Returns Q (if c then p else q) := by
  split
  · exact hp
  · exact hq

theorem returns_true (p : Prog C R α) : Returns (fun _ => True) p := fun _ _ _ => trivial

/-- Every value that `p` returns in a run whose events lie in the class `E` has `Q`. -/
def ReturnsIn (E : Event R → Prop) (Q : α → Prop) (p : Prog C R α) : Prop :=
  ∀ t a, (∀ e ∈ t, E e) → p.Run t (some a) → Q a

theorem Returns.returnsIn {Q : α → Prop} {p : Prog C R α} (h : Returns Q p) : ReturnsIn E Q p :=
  fun t a _ hrun => h t a hrun

theorem returnsIn_pure {Q : α → Prop} {a : α} (h : Q a) : ReturnsIn E Q (pure a : Prog C R α) :=
  (returns_pure h).returnsIn

theorem returnsIn_perform {c : C} {Q : R c → Prop} (h : ∀ r, E ⟨c, r⟩ → Q r) :
    ReturnsIn E Q (perform c : Prog C R (R c)) := by
  intro t a hE hrun
  obtain ⟨r, rfl, hr⟩ := run_perform.mp hrun
  obtain rfl := Option.some_injective _ hr
  exact h a (hE _ (List.mem_singleton_self _))

theorem ReturnsIn.bind {Q : β → Prop} {P : α → Prop} {p : Prog C R α} {f : α → Prog C R β}
    (hp : ReturnsIn E P p) (hf : ∀ a, P a → ReturnsIn E Q (f a)) : ReturnsIn E Q (p >>= f) := by
  intro t b hE hrun
  rcases run_bind.mp hrun with ⟨t₁, t₂, a, rfl, h₁, h₂⟩ | ⟨h, -⟩
  · obtain ⟨hE₁, hE₂⟩ := List.forall_mem_append.mp hE
    exact hf a (hp t₁ a hE₁ h₁) t₂ b hE₂ h₂
  · exact absurd h (by simp)

theorem ReturnsIn.ite {c : Prop} [Decidable c] {Q : α → Prop} {p q : Prog C R α}
    (hp : c → ReturnsIn E Q p) (hq : ¬ c → ReturnsIn E Q q) :
    ReturnsIn E Q (if c then p else q) := by
  split
  · next h => exact hp h
  · next h => exact hq h

theorem ReturnsIn.mono {Q Q' : α → Prop} {p : Prog C R α} (hp : ReturnsIn E Q p)
    (h : ∀ a, Q a → Q' a) : ReturnsIn E Q' p := fun t a hE hrun => h a (hp t a hE hrun)

theorem ReturnsIn.and {Q Q' : α → Prop} {p : Prog C R α} (hp : ReturnsIn E Q p)
    (hq : ReturnsIn E Q' p) : ReturnsIn E (fun a => Q a ∧ Q' a) p :=
  fun t a hE hrun => ⟨hp t a hE hrun, hq t a hE hrun⟩

/-! ### Programs that do not return -/

/-- Where `p` does not return, its events have `D`. -/
def Stops (D : List (Event R) → Prop) (p : Prog C R α) : Prop := ∀ t, p.Run t none → D t

section

variable {D : List (Event R) → Prop}

theorem stops_pure {a : α} : Stops D (pure a : Prog C R α) := by
  rintro t ⟨-, h⟩
  exact absurd h (by simp)

/-- What the last events have is had by all. -/
theorem Stops.bind {p : Prog C R α} {f : α → Prog C R β} (hD : ∀ u t, D t → D (u ++ t))
    (hp : Stops D p) (hf : ∀ a, Stops D (f a)) : Stops D (p >>= f) := by
  intro t hrun
  rcases run_bind.mp hrun with ⟨t₁, t₂, a, rfl, -, h₂⟩ | ⟨-, h⟩
  · exact hD t₁ t₂ (hf a t₂ h₂)
  · exact hp t h

theorem Stops.mono {D' : List (Event R) → Prop} {p : Prog C R α} (hp : Stops D p)
    (h : ∀ t, D t → D' t) : Stops D' p := fun t hrun => h t (hp t hrun)

theorem Stops.ite {c : Prop} [Decidable c] {p q : Prog C R α} (hp : c → Stops D p)
    (hq : ¬ c → Stops D q) : Stops D (if c then p else q) := by
  split
  · next h => exact hp h
  · next h => exact hq h

/-- `p` stops exactly at an event of `E`. -/
def StopsAt (E : Event R → Prop) (p : Prog C R α) : Prop :=
  ∀ t o, p.Run t o → (o = none ↔ ∃ e ∈ t, E e)

theorem stopsAt_pure {a : α} : StopsAt E (pure a : Prog C R α) := by
  rintro t o ⟨rfl, rfl⟩
  exact iff_of_false (Option.some_ne_none a) fun ⟨e, he, _⟩ => List.not_mem_nil he

theorem stopsAt_perform {c : C} (h : ∀ r, ¬ E ⟨c, r⟩) :
    StopsAt E (perform c : Prog C R (R c)) := by
  intro t o hrun
  obtain ⟨r, rfl, rfl⟩ := run_perform.mp hrun
  refine iff_of_false (Option.some_ne_none r) ?_
  rintro ⟨e, he, hE⟩
  obtain rfl := List.mem_singleton.mp he
  exact h r hE

theorem StopsAt.bind {p : Prog C R α} {f : α → Prog C R β} (hp : StopsAt E p)
    (hf : ∀ a, StopsAt E (f a)) : StopsAt E (p >>= f) := by
  intro t o hrun
  obtain ⟨t₁, t₂, a, rfl, h₁, h₂⟩ | ⟨rfl, h₁⟩ := run_bind.mp hrun
  · have hnone := (hp t₁ _ h₁).not.mp (Option.some_ne_none a)
    simp only [hf a t₂ o h₂, List.mem_append, or_and_right, exists_or, hnone, false_or]
  · exact iff_of_true rfl ((hp t none h₁).mp rfl)

theorem StopsAt.ite {c : Prop} [Decidable c] {p q : Prog C R α} (hp : StopsAt E p)
    (hq : StopsAt E q) : StopsAt E (if c then p else q) := by
  split
  · exact hp
  · exact hq

end

/-! ### Triples over the history -/

/-- From a history with `P`, `p` returns with `Q`, or does not return and leaves `D`. -/
def Triple (P : List (Event R) → Prop) (p : Prog C R α) (Q : α → List (Event R) → Prop)
    (D : List (Event R) → Prop) : Prop :=
  ∀ h t o, P h → p.Run t o →
    match o with
    | some a => Q a (h ++ t)
    | none => D (h ++ t)

variable {P : List (Event R) → Prop} {D : List (Event R) → Prop}

theorem triple_pure {a : α} {Q : α → List (Event R) → Prop} (h : ∀ h, P h → Q a h) :
    Triple P (pure a : Prog C R α) Q D := by
  rintro u t o hP ⟨rfl, rfl⟩
  rw [List.append_nil]
  exact h u hP

theorem triple_stuck {Q : α → List (Event R) → Prop} (h : ∀ h, P h → D h) :
    Triple P (stuck : Prog C R α) Q D := by
  rintro u t o hP ⟨rfl, rfl⟩
  rw [List.append_nil]
  exact h u hP

theorem Triple.bind {p : Prog C R α} {f : α → Prog C R β} {M : α → List (Event R) → Prop}
    {Q : β → List (Event R) → Prop} (hp : Triple P p M D) (hf : ∀ a, Triple (M a) (f a) Q D) :
    Triple P (p >>= f) Q D := by
  intro h t o hP hrun
  rcases run_bind.mp hrun with ⟨t₁, t₂, a, rfl, h₁, h₂⟩ | ⟨rfl, h₁⟩
  · rw [← List.append_assoc]
    exact hf a (h ++ t₁) t₂ o (hp h t₁ _ hP h₁) h₂
  · exact hp h t _ hP h₁

theorem Triple.ite {c : Prop} [Decidable c] {p q : Prog C R α} {Q : α → List (Event R) → Prop}
    (hp : c → Triple P p Q D) (hq : ¬ c → Triple P q Q D) :
    Triple P (if c then p else q) Q D := by
  split
  · next h => exact hp h
  · next h => exact hq h

/-- The frame rule: what the events of the class keep, the program keeps. -/
theorem Within.triple {p : Prog C R α} (hp : Within E p) {I : List (Event R) → Prop}
    (hI : ∀ h e, E e → I h → I (h ++ [e])) : Triple I p (fun _ h => I h) I := by
  have hext : ∀ t h, (∀ e ∈ t, E e) → I h → I (h ++ t) := by
    intro t
    induction t with
    | nil => intro h _ hh; rwa [List.append_nil]
    | cons e t ih =>
      intro h hE hh
      rw [List.append_cons]
      exact ih _ (fun e' he' => hE e' (List.mem_cons_of_mem _ he'))
        (hI h e (hE e List.mem_cons_self) hh)
  intro h t o hh hrun
  have hall := hext t h (hp t o hrun) hh
  cases o <;> exact hall

end Prog

/-! ### Commands: state and early exits -/

/-- A program over the state `σ` with early exits `ε`; an early exit keeps the state. -/
def Cmd (C : Type) (R : C → Type) (σ ε α : Type) : Type := σ → Prog C R (Except ε α × σ)

namespace Cmd

variable {σ ε : Type}

instance : Monad (Cmd C R σ ε) where
  pure a := fun s => .ret (.ok a, s)
  bind m f := fun s => m s >>= fun
    | (.ok a, s') => f a s'
    | (.error e, s') => .ret (.error e, s')

/-- Leave early. -/
def throw (e : ε) : Cmd C R σ ε α := fun s => .ret (.error e, s)

/-- The current state. -/
def get : Cmd C R σ ε σ := fun s => .ret (.ok s, s)

/-- Change the state. -/
def modify (f : σ → σ) : Cmd C R σ ε Unit := fun s => .ret (.ok (), f s)

/-- Run a program that does not see the state. -/
def lift (p : Prog C R α) : Cmd C R σ ε α := fun s => p >>= fun a => .ret (.ok a, s)

/-- Run a program that reads and replaces the state. -/
def liftState (f : σ → Prog C R (α × σ)) : Cmd C R σ ε α :=
  fun s => f s >>= fun p => .ret (.ok p.1, p.2)

/-- **Runs of a composition** of commands: the first ends normally and the second goes on,
or the first leaves early, or the first does not return. -/
theorem run_bind {m : Cmd C R σ ε α} {f : α → Cmd C R σ ε β} {s : σ} {t : List (Event R)}
    {o : Option (Except ε β × σ)} :
    Prog.Run ((m >>= f) s) t o ↔
      (∃ t₁ t₂ a s', t = t₁ ++ t₂ ∧ (m s).Run t₁ (some (.ok a, s')) ∧ (f a s').Run t₂ o) ∨
        (∃ e s', o = some (.error e, s') ∧ (m s).Run t (some (.error e, s'))) ∨
          (o = none ∧ (m s).Run t none) := by
  change Prog.Run (m s >>= _) t o ↔ _
  rw [Prog.run_bind]
  constructor
  · rintro (⟨t₁, t₂, ⟨a | a, s'⟩, rfl, h₁, h₂⟩ | h)
    · obtain ⟨rfl, rfl⟩ := h₂
      exact .inr (.inl ⟨a, s', rfl, by simpa using h₁⟩)
    · exact .inl ⟨t₁, t₂, a, s', rfl, h₁, h₂⟩
    · exact .inr (.inr h)
  · rintro (⟨t₁, t₂, a, s', rfl, h₁, h₂⟩ | ⟨e, s', rfl, h⟩ | h)
    · exact .inl ⟨t₁, t₂, (.ok a, s'), rfl, h₁, h₂⟩
    · exact .inl ⟨t, [], (.error e, s'), by simp, h, rfl, rfl⟩
    · exact .inr h

@[simp]
theorem run_pure {a : α} {s : σ} {t : List (Event R)} {o : Option (Except ε α × σ)} :
    Prog.Run ((pure a : Cmd C R σ ε α) s) t o ↔ t = [] ∧ o = some (.ok a, s) := Iff.rfl

@[simp]
theorem run_throw {e : ε} {s : σ} {t : List (Event R)} {o : Option (Except ε α × σ)} :
    Prog.Run ((throw e : Cmd C R σ ε α) s) t o ↔ t = [] ∧ o = some (.error e, s) := Iff.rfl

@[simp]
theorem run_get {s : σ} {t : List (Event R)} {o : Option (Except ε σ × σ)} :
    Prog.Run ((get : Cmd C R σ ε σ) s) t o ↔ t = [] ∧ o = some (.ok s, s) := Iff.rfl

@[simp]
theorem run_modify {f : σ → σ} {s : σ} {t : List (Event R)} {o : Option (Except ε Unit × σ)} :
    Prog.Run ((modify f : Cmd C R σ ε Unit) s) t o ↔ t = [] ∧ o = some (.ok (), f s) := Iff.rfl

theorem run_liftState {f : σ → Prog C R (α × σ)} {s : σ} {t : List (Event R)}
    {o : Option (Except ε α × σ)} :
    Prog.Run ((liftState f : Cmd C R σ ε α) s) t o ↔
      ∃ o', (f s).Run t o' ∧ o = o'.map fun p => (.ok p.1, p.2) := by
  change Prog.Run (f s >>= _) t o ↔ _
  rw [Prog.run_bind]
  constructor
  · rintro (⟨t₁, t₂, p, rfl, h₁, rfl, rfl⟩ | ⟨rfl, h⟩)
    · exact ⟨some p, by simpa using h₁, rfl⟩
    · exact ⟨none, h, rfl⟩
  · rintro ⟨_ | p, h, rfl⟩
    · exact .inr ⟨rfl, h⟩
    · exact .inl ⟨t, [], p, by simp, h, rfl, rfl⟩

theorem run_lift {p : Prog C R α} {s : σ} {t : List (Event R)} {o : Option (Except ε α × σ)} :
    Prog.Run ((lift p : Cmd C R σ ε α) s) t o ↔
      ∃ o', p.Run t o' ∧ o = o'.map fun a => (.ok a, s) := by
  change Prog.Run (p >>= _) t o ↔ _
  rw [Prog.run_bind]
  constructor
  · rintro (⟨t₁, t₂, a, rfl, h₁, rfl, rfl⟩ | ⟨rfl, h⟩)
    · exact ⟨some a, by simpa using h₁, rfl⟩
    · exact ⟨none, h, rfl⟩
  · rintro ⟨_ | a, h, rfl⟩
    · exact .inr ⟨rfl, h⟩
    · exact .inl ⟨t, [], a, by simp, h, rfl, rfl⟩

/-! ### Frames -/

variable {κ : Type*} {E : Event R → Prop} {f : σ → κ}

/-- `m` has only events of the class `E` and keeps the value of `f`. -/
def Frame (E : Event R → Prop) (f : σ → κ) (m : Cmd C R σ ε α) : Prop :=
  ∀ s t o, (m s).Run t o → (∀ e ∈ t, E e) ∧ ∀ r s', o = some (r, s') → f s' = f s

theorem frame_pure {a : α} : Frame E f (pure a : Cmd C R σ ε α) := by
  rintro s t o ⟨rfl, rfl⟩
  refine ⟨fun e he => absurd he List.not_mem_nil, ?_⟩
  rintro r s' ⟨rfl⟩
  rfl

theorem frame_throw {e : ε} : Frame E f (throw e : Cmd C R σ ε α) := by
  rintro s t o ⟨rfl, rfl⟩
  refine ⟨fun e he => absurd he List.not_mem_nil, ?_⟩
  rintro r s' ⟨rfl⟩
  rfl

theorem frame_get : Frame E f (get : Cmd C R σ ε σ) := by
  rintro s t o ⟨rfl, rfl⟩
  refine ⟨fun e he => absurd he List.not_mem_nil, ?_⟩
  rintro r s' ⟨rfl⟩
  rfl

theorem frame_modify {g : σ → σ} (hg : ∀ s, f (g s) = f s) :
    Frame E f (modify g : Cmd C R σ ε Unit) := by
  rintro s t o ⟨rfl, rfl⟩
  refine ⟨fun e he => absurd he List.not_mem_nil, ?_⟩
  rintro r s' ⟨rfl⟩
  exact hg s

theorem frame_lift {p : Prog C R α} (hp : p.Within E) : Frame E f (lift p : Cmd C R σ ε α) := by
  intro s t o hrun
  obtain ⟨o', hp', rfl⟩ := run_lift.mp hrun
  refine ⟨hp t o' hp', fun r s' h => ?_⟩
  cases o' with
  | none => exact absurd h (by simp)
  | some a =>
    obtain ⟨-, rfl⟩ := Prod.mk.inj (Option.some_injective _ h)
    rfl

theorem frame_liftState {p : σ → Prog C R (α × σ)} (hp : ∀ s, (p s).Within E)
    (hf : ∀ s, (p s).Returns fun x => f x.2 = f s) :
    Frame E f (liftState p : Cmd C R σ ε α) := by
  intro s t o hrun
  obtain ⟨o', hp', rfl⟩ := run_liftState.mp hrun
  refine ⟨hp s t o' hp', fun r s' h => ?_⟩
  cases o' with
  | none => exact absurd h (by simp)
  | some x =>
    obtain ⟨-, rfl⟩ := Prod.mk.inj (Option.some_injective _ h)
    exact hf s t x hp'

theorem Frame.bind {m : Cmd C R σ ε α} {k : α → Cmd C R σ ε β} (hm : Frame E f m)
    (hk : ∀ a, Frame E f (k a)) : Frame E f (m >>= k) := by
  intro s t o hrun
  rcases run_bind.mp hrun with ⟨t₁, t₂, a, s₁, rfl, h₁, h₂⟩ | ⟨e, s₁, rfl, h₁⟩ | ⟨rfl, h₁⟩
  · obtain ⟨hE₁, hf₁⟩ := hm s t₁ _ h₁
    obtain ⟨hE₂, hf₂⟩ := hk a s₁ t₂ _ h₂
    refine ⟨fun e he => ?_, fun r s' h => (hf₂ r s' h).trans (hf₁ _ _ rfl)⟩
    rcases List.mem_append.mp he with he | he
    · exact hE₁ e he
    · exact hE₂ e he
  · obtain ⟨hE, hf⟩ := hm s t _ h₁
    refine ⟨hE, fun r s' h => ?_⟩
    obtain ⟨-, rfl⟩ := Prod.mk.inj (Option.some_injective _ h)
    exact hf _ _ rfl
  · exact ⟨(hm s t _ h₁).1, fun r s' h => absurd h (by simp)⟩

theorem Frame.ite {c : Prop} [Decidable c] {m n : Cmd C R σ ε α} (hm : Frame E f m)
    (hn : Frame E f n) : Frame E f (if c then m else n) := by
  split
  · exact hm
  · exact hn

/-- A command framed in a smaller class that keeps more. -/
theorem Frame.mono {κ' : Type*} {E' : Event R → Prop} {m : Cmd C R σ ε α} (hm : Frame E f m)
    (hE : ∀ e, E e → E' e) (g : κ → κ') : Frame E' (fun s => g (f s)) m := by
  intro s t o hrun
  obtain ⟨h₁, h₂⟩ := hm s t o hrun
  exact ⟨fun e he => hE e (h₁ e he), fun r s' h => congrArg g (h₂ r s' h)⟩

/-! ### Triples over the history -/

/-- From a state and a history with `P`, a normal exit of `m` is to a state and a history
with `Q`; an early exit, or not returning, is with `X`. -/
def Triple (P : σ → List (Event R) → Prop) (m : Cmd C R σ ε α)
    (Q : α → σ → List (Event R) → Prop) (X : Option (ε × σ) → List (Event R) → Prop) : Prop :=
  ∀ s h t o, P s h → (m s).Run t o →
    match o with
    | some (.ok a, s') => Q a s' (h ++ t)
    | some (.error e, s') => X (some (e, s')) (h ++ t)
    | none => X none (h ++ t)

variable {P P' : σ → List (Event R) → Prop} {Q : α → σ → List (Event R) → Prop}
  {X : Option (ε × σ) → List (Event R) → Prop}

/-- A program that reads and replaces the state. -/
theorem triple_liftState {p : σ → Prog C R (α × σ)}
    (hp : ∀ s, (p s).Triple (P s) (fun x h => Q x.1 x.2 h) (X none)) :
    Triple P (liftState p : Cmd C R σ ε α) Q X := by
  intro s h t o hP hrun
  obtain ⟨o', hrun', rfl⟩ := run_liftState.mp hrun
  have hq := hp s h t o' hP hrun'
  cases o' <;> exact hq

/-- A program that does not see the state. -/
theorem triple_lift {p : Prog C R α} (hp : ∀ s, p.Triple (P s) (fun a h => Q a s h) (X none)) :
    Triple P (lift p : Cmd C R σ ε α) Q X := by
  intro s h t o hP hrun
  obtain ⟨o', hrun', rfl⟩ := run_lift.mp hrun
  have hq := hp s h t o' hP hrun'
  cases o' <;> exact hq

theorem triple_pure {a : α} (h : ∀ s h, P s h → Q a s h) :
    Triple P (pure a : Cmd C R σ ε α) Q X := by
  rintro s u t o hP ⟨rfl, rfl⟩
  rw [List.append_nil]
  exact h s u hP

theorem triple_throw {e : ε} (h : ∀ s h, P s h → X (some (e, s)) h) :
    Triple P (throw e : Cmd C R σ ε α) Q X := by
  rintro s u t o hP ⟨rfl, rfl⟩
  change X (some (e, s)) (u ++ [])
  rw [List.append_nil]
  exact h s u hP

theorem triple_get {Q : σ → σ → List (Event R) → Prop} (h : ∀ s h, P s h → Q s s h) :
    Triple P (get : Cmd C R σ ε σ) Q X := by
  rintro s u t o hP ⟨rfl, rfl⟩
  change Q s s (u ++ [])
  rw [List.append_nil]
  exact h s u hP

theorem triple_modify {f : σ → σ} {Q : Unit → σ → List (Event R) → Prop}
    (h : ∀ s h, P s h → Q () (f s) h) : Triple P (modify f : Cmd C R σ ε Unit) Q X := by
  rintro s u t o hP ⟨rfl, rfl⟩
  change Q () (f s) (u ++ [])
  rw [List.append_nil]
  exact h s u hP

theorem Triple.bind {β : Type} {m : Cmd C R σ ε β} {k : β → Cmd C R σ ε α}
    {M : β → σ → List (Event R) → Prop} (hm : Triple P m M X)
    (hk : ∀ b, Triple (M b) (k b) Q X) : Triple P (m >>= k) Q X := by
  intro s u t o hP hrun
  rcases run_bind.mp hrun with ⟨t₁, t₂, b, s₁, rfl, h₁, h₂⟩ | ⟨e, s₁, rfl, h₁⟩ | ⟨rfl, h₁⟩
  · rw [← List.append_assoc]
    exact hk b s₁ (u ++ t₁) t₂ o (hm s u t₁ _ hP h₁) h₂
  · exact hm s u t _ hP h₁
  · exact hm s u t _ hP h₁

theorem Triple.ite {c : Prop} [Decidable c] {m n : Cmd C R σ ε α} (hm : c → Triple P m Q X)
    (hn : ¬ c → Triple P n Q X) : Triple P (if c then m else n) Q X := by
  split
  · next h => exact hm h
  · next h => exact hn h

/-- A fact that the precondition implies may be assumed. -/
theorem Triple.of_pre {K : Prop} {m : Cmd C R σ ε α} (hK : ∀ s h, P s h → K)
    (hm : K → Triple P m Q X) : Triple P m Q X := fun s h t o hP => hm (hK s h hP) s h t o hP

/-- The rule of consequence. -/
theorem Triple.mono {m : Cmd C R σ ε α} {Q' : α → σ → List (Event R) → Prop}
    {X' : Option (ε × σ) → List (Event R) → Prop} (hm : Triple P m Q X)
    (hP : ∀ s h, P' s h → P s h) (hQ : ∀ a s h, Q a s h → Q' a s h)
    (hX : ∀ x h, X x h → X' x h) : Triple P' m Q' X' := by
  intro s u t o hP' hrun
  have h := hm s u t o (hP s u hP') hrun
  rcases o with _ | ⟨_ | a, s'⟩
  · exact hX _ _ h
  · exact hX _ _ h
  · exact hQ _ _ _ h

/-- The rule of consequence for the exits. -/
theorem Triple.mono_exit {m : Cmd C R σ ε α}
    {X' : Option (ε × σ) → List (Event R) → Prop} (hm : Triple P m Q X)
    (hX : ∀ x h, X x h → X' x h) : Triple P m Q X' :=
  hm.mono (fun _ _ hP => hP) (fun _ _ _ hQ => hQ) hX

/-- **The frame rule**: an invariant of the kept part of the state, and of a history up to
events of the class, holds at every exit. -/
theorem Frame.triple {m : Cmd C R σ ε α} (hm : Frame E f m)
    {I : κ → List (Event R) → Prop} (hI : ∀ b h e, E e → I b h → I b (h ++ [e])) :
    Triple (fun s h => I (f s) h) m (fun _ s h => I (f s) h)
      (fun x h => ∃ b, I b h ∧ ∀ e s, x = some (e, s) → f s = b) := by
  have hext : ∀ b t h, (∀ e ∈ t, E e) → I b h → I b (h ++ t) := by
    intro b t
    induction t with
    | nil => intro h _ hb; rwa [List.append_nil]
    | cons e t ih =>
      intro h hE hb
      rw [List.append_cons]
      exact ih _ (fun e' he' => hE e' (List.mem_cons_of_mem _ he'))
        (hI b h e (hE e List.mem_cons_self) hb)
  intro s u t o hb hrun
  obtain ⟨hE, hf⟩ := hm s t o hrun
  have hall := hext (f s) t u hE hb
  rcases o with _ | ⟨e | a, s'⟩
  · exact ⟨f s, hall, fun e s h => absurd h (by simp)⟩
  · refine ⟨f s, hall, fun e' s'' h => ?_⟩
    obtain ⟨-, rfl⟩ := Prod.mk.inj (Option.some_injective _ h)
    exact hf _ _ rfl
  · change I (f s') (u ++ t)
    rw [hf _ _ rfl]
    exact hall

/-- The frame rule with one postcondition for every exit but the normal one. -/
theorem Frame.triple_of {m : Cmd C R σ ε α} (hm : Frame E f m)
    {I : κ → List (Event R) → Prop} {N : List (Event R) → Prop}
    (hI : ∀ b h e, E e → I b h → I b (h ++ [e])) (hN : ∀ b h, I b h → N h) :
    Triple (fun s h => I (f s) h) m (fun _ s h => I (f s) h) fun _ h => N h :=
  (hm.triple hI).mono_exit fun _ h hx => hN _ h hx.choose_spec.1

theorem Triple.and {Q' : α → σ → List (Event R) → Prop}
    {X' : Option (ε × σ) → List (Event R) → Prop} {m : Cmd C R σ ε α} (h₁ : Triple P m Q X)
    (h₂ : Triple P' m Q' X') :
    Triple (fun s h => P s h ∧ P' s h) m (fun a s h => Q a s h ∧ Q' a s h)
      fun x h => X x h ∧ X' x h := by
  intro s u t o hP hrun
  have hq := h₁ s u t o hP.1 hrun
  have hq' := h₂ s u t o hP.2 hrun
  rcases o with _ | ⟨_ | a, s'⟩ <;> exact ⟨hq, hq'⟩

end Cmd

end Interaction
