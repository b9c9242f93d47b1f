import Mathlib.Data.List.Forall2
import Mathlib.Tactic

/-!
# Programs that may fail

A traversal of a list that may fail has a value if and only if all elements have one
(`mapM_eq_ok`, `exists_of_mapM_eq_ok`), and what it raises is raised by one of them
(`exists_of_mapM_eq_error`).

The rest is about one program that is run over two types of values. If the operations on the values
take related values to related values, so does the program. `Results R` relates two results that may
be errors: both runs raise the same, or they have related values. The rules go along the
constructions of a program: sequence (`Results.bind`), traversals (`Results.mapM`,
`Results.foldlM`), and lists that are zipped (`forall₂_zipWith`).
-/

namespace Related

variable {ε α β γ δ ι κ : Type}

/-! ### Traversals -/

theorem mapM_eq_ok {f : ι → Except ε α} {g : ι → α} {l : List ι}
    (h : ∀ x ∈ l, f x = .ok (g x)) : l.mapM f = .ok (l.map g) := by
  induction l with
  | nil => rfl
  | cons x l ih =>
    rw [List.mapM_cons, h x List.mem_cons_self, ih fun y hy => h y (List.mem_cons_of_mem x hy)]
    rfl

/-- What a traversal raises is raised by one of the elements. -/
theorem exists_of_mapM_eq_error {f : ι → Except ε α} {l : List ι} {e : ε}
    (h : l.mapM f = .error e) : ∃ x ∈ l, f x = .error e := by
  induction l with
  | nil => cases h
  | cons x l ih =>
    rw [List.mapM_cons] at h
    rcases hx : f x with e' | y
    · rw [hx] at h
      exact ⟨x, List.mem_cons_self, hx.trans (congrArg Except.error (Except.error.inj h))⟩
    rcases hl : l.mapM f with e' | ys
    · rw [hx, hl] at h
      obtain ⟨z, hz, he⟩ := ih (hl.trans (congrArg Except.error (Except.error.inj h)))
      exact ⟨z, List.mem_cons_of_mem x hz, he⟩
    · rw [hx, hl] at h
      cases h

/-- A traversal that has a value has one for each element. -/
theorem exists_of_mapM_eq_ok {f : ι → Except ε α} {l : List ι} {ys : List α}
    (h : l.mapM f = .ok ys) : ∀ x ∈ l, ∃ y, f x = .ok y := by
  induction l generalizing ys with
  | nil => exact fun x hx => absurd hx List.not_mem_nil
  | cons x l ih =>
    rw [List.mapM_cons] at h
    rcases hx : f x with e | y
    · rw [hx] at h
      cases h
    rcases hl : l.mapM f with e | ys'
    · rw [hx, hl] at h
      cases h
    · exact List.forall_mem_cons.mpr ⟨⟨y, hx⟩, ih hl⟩

/-! ### Related results -/

/-- Both raise the same, or have related values. -/
inductive Results (R : α → β → Prop) : Except ε α → Except ε β → Prop
  | error (e : ε) : Results R (.error e) (.error e)
  | ok {a : α} {b : β} (h : R a b) : Results R (.ok a) (.ok b)

variable {R : α → β → Prop} {S : γ → δ → Prop} {P : ι → κ → Prop}

/-- If the first run has a value, the second has a related one. -/
theorem Results.exists_of_ok {x : Except ε α} {y : Except ε β} (h : Results R x y) {a : α}
    (hx : x = .ok a) : ∃ b, y = .ok b ∧ R a b := by
  cases h with
  | error e => cases hx
  | ok h =>
    obtain rfl := Except.ok.inj hx
    exact ⟨_, rfl, h⟩

/-- If the second run has a value, the first has a related one. -/
theorem Results.exists_of_ok' {x : Except ε α} {y : Except ε β} (h : Results R x y) {b : β}
    (hy : y = .ok b) : ∃ a, x = .ok a ∧ R a b := by
  cases h with
  | error e => cases hy
  | ok h =>
    obtain rfl := Except.ok.inj hy
    exact ⟨_, rfl, h⟩

theorem Results.bind {x : Except ε α} {y : Except ε β} {f : α → Except ε γ} {g : β → Except ε δ}
    (h : Results R x y) (hf : ∀ a b, R a b → Results S (f a) (g b)) :
    Results S (x >>= f) (y >>= g) := by
  cases h with
  | error e => exact .error e
  | ok h => exact hf _ _ h

theorem Results.mono {T : α → β → Prop} {x : Except ε α} {y : Except ε β}
    (hRT : ∀ a b, R a b → T a b) (h : Results R x y) : Results T x y := by
  cases h with
  | error e => exact .error e
  | ok h => exact .ok (hRT _ _ h)

theorem Results.refl (x : Except ε α) : Results (· = ·) x x := by
  cases x with
  | error e => exact .error e
  | ok a => exact .ok rfl

/-- Related elements are mapped to related results. -/
theorem Results.mapM {f : ι → Except ε α} {g : κ → Except ε β}
    (hf : ∀ x y, P x y → Results R (f x) (g y)) {xs : List ι} {ys : List κ}
    (h : List.Forall₂ P xs ys) : Results (List.Forall₂ R) (xs.mapM f) (ys.mapM g) := by
  induction h with
  | nil => exact .ok .nil
  | cons hxy _ ih =>
    rw [List.mapM_cons, List.mapM_cons]
    exact (hf _ _ hxy).bind fun _ _ hab => ih.bind fun _ _ hrest => .ok (.cons hab hrest)

/-- A loop over one list, with related states. -/
theorem Results.foldlM {f : α → ι → Except ε α} {g : β → ι → Except ε β}
    (hf : ∀ i a b, R a b → Results R (f a i) (g b i)) (l : List ι) {a : α} {b : β} (h : R a b) :
    Results R (l.foldlM f a) (l.foldlM g b) := by
  induction l generalizing a b with
  | nil => exact .ok h
  | cons i l ih =>
    rw [List.foldlM_cons, List.foldlM_cons]
    exact (hf i _ _ h).bind fun _ _ hab => ih hab

theorem forall₂_replicate {a : α} {b : β} (h : R a b) (n : ℕ) :
    List.Forall₂ R (List.replicate n a) (List.replicate n b) := by
  induction n with
  | zero => exact .nil
  | succ n ih => exact .cons h ih

/-- Lists are zipped element by element. -/
theorem forall₂_zipWith {f : α → γ → ι} {g : β → δ → κ} (hf : ∀ a b c d, R a b → S c d →
    P (f a c) (g b d)) {as : List α} {bs : List β} {cs : List γ} {ds : List δ}
    (hab : List.Forall₂ R as bs) (hcd : List.Forall₂ S cs ds) :
    List.Forall₂ P (List.zipWith f as cs) (List.zipWith g bs ds) := by
  induction hab generalizing cs ds with
  | nil => exact .nil
  | cons h _ ih =>
    cases hcd with
    | nil => exact .nil
    | cons h' hcd => exact .cons (hf _ _ _ _ h h') (ih hcd)

end Related
