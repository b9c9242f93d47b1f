import CacheNoise.General.Interaction

/-!
# Programs against a server

An environment that answers from a state of its own is a `Server`: to each call it has an answer
and its next state, or none if the call is undefined there. Against a server a program has one
outcome (`Prog.against`), which is composed like the program (`against_bind`).
-/

namespace Interaction

variable {C : Type} {R : C → Type} {S α β : Type}

/-- The answer to each call, and the next state. -/
abbrev Server (C : Type) (R : C → Type) (S : Type) : Type := S → (c : C) → Option (R c × S)

namespace Prog

variable (serve : Server C R S)

/-- The outcome of a program, and the state of the server afterwards; none if it does not return,
or makes a call that is undefined. -/
def against : Prog C R α → S → Option (α × S)
  | .ret a, s => some (a, s)
  | .stuck, _ => none
  | .call c k, s => (serve s c).bind fun (r, s') => (k r).against s'

@[simp]
theorem against_pure (a : α) (s : S) : (pure a : Prog C R α).against serve s = some (a, s) := rfl

@[simp]
theorem against_stuck (s : S) : (stuck : Prog C R α).against serve s = none := rfl

@[simp]
theorem against_perform (c : C) (s : S) : (perform c : Prog C R (R c)).against serve s =
    serve s c := by
  rw [perform, against]
  cases serve s c <;> rfl

/-- **The outcome of a composition.** -/
theorem against_bind (p : Prog C R α) (f : α → Prog C R β) (s : S) :
    (p >>= f).against serve s = (p.against serve s).bind fun (a, s') => (f a).against serve s' := by
  change (p.bind f).against serve s = _
  induction p generalizing s with
  | ret a => rfl
  | stuck => rfl
  | call c k ih =>
    rw [Prog.bind, against, against]
    cases serve s c with
    | none => rfl
    | some next => exact ih next.1 next.2

end Prog

namespace Cmd

variable {σ ε : Type} (serve : Server C R S)

/-- **The outcome of a composition** of commands. -/
theorem against_bind (m : Cmd C R σ ε α) (f : α → Cmd C R σ ε β) (x : σ) (s : S) :
    Prog.against serve ((m >>= f) x) s = (Prog.against serve (m x) s).bind fun
      | ((.ok a, x'), s') => Prog.against serve (f a x') s'
      | ((.error e, x'), s') => some ((.error e, x'), s') := by
  change Prog.against serve (m x >>= _) s = _
  rw [Prog.against_bind]
  refine congrArg (Option.bind _) (funext fun ⟨⟨res, x'⟩, s'⟩ => ?_)
  cases res <;> rfl

theorem against_lift (p : Prog C R α) (x : σ) (s : S) :
    Prog.against serve ((lift p : Cmd C R σ ε α) x) s =
      (p.against serve s).map fun (a, s') => ((.ok a, x), s') := by
  change Prog.against serve (p >>= _) s = _
  rw [Prog.against_bind]
  cases p.against serve s <;> rfl

end Cmd

end Interaction
