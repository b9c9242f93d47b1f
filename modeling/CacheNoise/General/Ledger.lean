import Mathlib.Data.List.Nodup
import Mathlib.Data.List.Perm.Subperm
import Mathlib.Tactic

/-!
# Ledgers of acquisitions and releases

A ledger lists what was done with some resources: one is acquired, or a release of one is tried,
with success or without. `after held l` is what is held after the ledger `l`, and two rules say
what a ledger should be like, entry by entry (`Along`):

* `Proper`: a release is only tried of what is held. This excludes the release of something that
  was never acquired and the second release of one acquisition.
* `Fresh`: what is acquired is not held already. It is the promise of whoever hands out the
  resources, and it keeps what is held free of duplicates (`Fresh.nodup`).
-/

namespace Ledger

variable {R : Type}

/-- One entry of a ledger. -/
inductive Entry (R : Type)
  | acquire (r : R)
  | release (r : R) (done : Bool)
  deriving DecidableEq

/-- The ledger of the releases `rs`, tried in this order. -/
def releases (rs : List (R × Bool)) : List (Entry R) := rs.map fun x => .release x.1 x.2

theorem releases_append (rs rs' : List (R × Bool)) :
    releases (rs ++ rs') = releases rs ++ releases rs' := List.map_append

theorem mem_releases {rs : List (R × Bool)} {r : R} {done : Bool} :
    Entry.release r done ∈ releases rs ↔ (r, done) ∈ rs := by
  simp [releases]

/-- No release that fails. -/
def Entry.Done : Entry R → Prop
  | .acquire _ => True
  | .release _ done => done = true

instance : (e : Entry R) → Decidable e.Done
  | .acquire _ => isTrue trivial
  | .release _ done => inferInstanceAs (Decidable (done = true))

variable [DecidableEq R]

/-- What an entry makes of the resources held. -/
def Entry.apply (held : List R) : Entry R → List R
  | .acquire r => held ++ [r]
  | .release r true => held.erase r
  | .release _ false => held

/-- What is held after a ledger. -/
def after (held : List R) (l : List (Entry R)) : List R := l.foldl Entry.apply held

@[simp]
theorem after_nil (held : List R) : after held [] = held := rfl

@[simp]
theorem after_cons (held : List R) (e : Entry R) (l : List (Entry R)) :
    after held (e :: l) = after (e.apply held) l := rfl

@[simp]
theorem after_append (held : List R) (l m : List (Entry R)) :
    after held (l ++ m) = after (after held l) m := List.foldl_append

/-- Every entry has `P` of what is held before it. -/
def Along (P : List R → Entry R → Prop) : List R → List (Entry R) → Prop
  | _, [] => True
  | held, e :: l => P held e ∧ Along P (e.apply held) l

variable {P : List R → Entry R → Prop} {held : List R}

@[simp]
theorem along_nil : Along P held [] := trivial

@[simp]
theorem along_cons {e : Entry R} {l : List (Entry R)} :
    Along P held (e :: l) ↔ P held e ∧ Along P (e.apply held) l := Iff.rfl

@[simp]
theorem along_append {l m : List (Entry R)} :
    Along P held (l ++ m) ↔ Along P held l ∧ Along P (after held l) m := by
  induction l generalizing held with
  | nil => simp
  | cons e l ih => rw [List.cons_append, along_cons, ih, along_cons, after_cons, and_assoc]

/-- Whether every entry has `P` can be decided entry by entry. -/
def decidableAlong [∀ held e, Decidable (P held e)] :
    (held : List R) → (l : List (Entry R)) → Decidable (Along P held l)
  | _, [] => isTrue trivial
  | held, e :: l =>
    have : Decidable (Along P (e.apply held) l) := decidableAlong _ l
    inferInstanceAs (Decidable (P held e ∧ Along P (e.apply held) l))

instance [∀ held e, Decidable (P held e)] (held : List R) (l : List (Entry R)) :
    Decidable (Along P held l) := decidableAlong held l

theorem count_releases (rs : List (R × Bool)) (r : R) (done : Bool) :
    (releases rs).count (.release r done) = rs.count (r, done) := by
  have hinj : Function.Injective fun x : R × Bool => Entry.release x.1 x.2 := by
    rintro ⟨r, b⟩ ⟨r', b'⟩ h
    simpa using h
  exact List.count_map_of_injective _ _ hinj (r, done)

/-! ### The two rules -/

/-- Only what is held may be released. -/
def Entry.Proper (held : List R) : Entry R → Prop
  | .acquire _ => True
  | .release r _ => r ∈ held

/-- Only what is not held is handed out. -/
def Entry.Fresh (held : List R) : Entry R → Prop
  | .acquire r => r ∉ held
  | .release _ _ => True

instance (held : List R) : (e : Entry R) → Decidable (e.Proper held)
  | .acquire _ => isTrue trivial
  | .release r _ => inferInstanceAs (Decidable (r ∈ held))

instance (held : List R) : (e : Entry R) → Decidable (e.Fresh held)
  | .acquire r => inferInstanceAs (Decidable (r ∉ held))
  | .release _ _ => isTrue trivial

/-- Releases are only tried of what is held. -/
abbrev Proper (held : List R) (l : List (Entry R)) : Prop := Along Entry.Proper held l

/-- What is acquired is not held. -/
abbrev Fresh (held : List R) (l : List (Entry R)) : Prop := Along Entry.Fresh held l

theorem Fresh.nodup {l : List (Entry R)} (h : Fresh held l) (hheld : held.Nodup) :
    (after held l).Nodup := by
  induction l generalizing held with
  | nil => exact hheld
  | cons e l ih =>
    refine ih h.2 ?_
    rcases e with r | ⟨r, done⟩
    · refine hheld.append (List.nodup_singleton r) ?_
      exact List.disjoint_singleton.mpr h.1
    · cases done with
      | true => exact hheld.erase r
      | false => exact hheld

/-- What may be handed out while more is held may be handed out while less is held. -/
theorem Fresh.mono {l : List (Entry R)} (h : Fresh held l) {held' : List R}
    (hsub : held'.Subperm held) : Fresh held' l := by
  induction l generalizing held held' with
  | nil => trivial
  | cons e l ih =>
    obtain ⟨hfirst, hrest⟩ := h
    rcases e with r | ⟨r, _ | _⟩
    · exact ⟨fun hr => hfirst (hsub.subset hr), ih hrest (hsub.append (List.Subperm.refl [r]))⟩
    · exact ⟨trivial, ih hrest hsub⟩
    · exact ⟨trivial, ih hrest (hsub.erase r)⟩

/-! ### Acquisitions -/

theorem after_acquire (held rs : List R) :
    after held (rs.map Entry.acquire) = held ++ rs := by
  induction rs generalizing held with
  | nil => simp
  | cons r rs ih => simp [ih, Entry.apply]

theorem Fresh.of_acquire {rs : List R} (h : Fresh held (rs.map Entry.acquire))
    (hheld : held.Nodup) : (held ++ rs).Nodup := after_acquire held rs ▸ h.nodup hheld

theorem proper_acquire (held rs : List R) : Proper held (rs.map Entry.acquire) := by
  induction rs generalizing held with
  | nil => trivial
  | cons r rs ih => exact ⟨trivial, ih _⟩

/-! ### Releases -/

theorem after_releases (held : List R) (rs : List (R × Bool)) :
    after held (releases rs) = held.diff ((rs.filter Prod.snd).map Prod.fst) := by
  induction rs generalizing held with
  | nil => rfl
  | cons x rs ih =>
    obtain ⟨r, done⟩ := x
    change after (Entry.apply held (.release r done)) (releases rs) = _
    rw [ih]
    cases done <;> simp [Entry.apply]

theorem after_releases_done (held : List R) {rs : List (R × Bool)}
    (h : ∀ x ∈ releases rs, x.Done) : after held (releases rs) = held.diff (rs.map Prod.fst) := by
  have hall : ∀ x ∈ rs, x.2 = true := fun x hx => h _ (mem_releases.mpr hx)
  rw [after_releases, List.filter_eq_self.mpr hall]

/-- Different resources that are held can be released one after the other. -/
theorem proper_releases {rs : List (R × Bool)} (hnd : (rs.map Prod.fst).Nodup)
    (hheld : ∀ r ∈ rs.map Prod.fst, r ∈ held) : Proper held (releases rs) := by
  induction rs generalizing held with
  | nil => trivial
  | cons x rs ih =>
    obtain ⟨r, done⟩ := x
    rw [List.map_cons, List.nodup_cons] at hnd
    refine ⟨hheld r (by simp), ih hnd.2 fun r' hr' => ?_⟩
    have hne : r' ≠ r := fun h => hnd.1 (h ▸ hr')
    have hmem := hheld r' (List.mem_cons_of_mem _ hr')
    cases done with
    | true => exact (List.mem_erase_of_ne hne).mpr hmem
    | false => exact hmem

end Ledger
