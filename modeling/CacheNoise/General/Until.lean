import Mathlib.Data.ENat.Basic
import Mathlib.Tactic

/-!
# Counting up to a first element

`countUntil p q l` is the number of elements of `l` with `p` before the first one with `q`, and `⊤`
if there is no element with `q`: the time of a first event, in units of another kind of event. The
rules take a list apart at its front: a part without `q` is counted (`countUntil_append`), and an
element with `q` ends the counting (`countUntil_cons_of_pos`).
-/

namespace Until

variable {α : Type*} {p q : α → Bool}

/-- The number of elements with `p` before the first one with `q`. -/
def countUntil (p q : α → Bool) : List α → ℕ∞
  | [] => ⊤
  | a :: l => if q a then 0 else (if p a then 1 else 0) + countUntil p q l

theorem countUntil_cons_of_pos {a : α} (h : q a = true) (l : List α) :
    countUntil p q (a :: l) = 0 := if_pos h

theorem countUntil_cons_of_neg {a : α} (h : q a = false) (l : List α) :
    countUntil p q (a :: l) = (if p a then 1 else 0) + countUntil p q l :=
  if_neg (by rw [h]; exact Bool.false_ne_true)

/-- A part without the element that ends the counting. -/
theorem countUntil_append {l : List α} (h : ∀ a ∈ l, q a = false) (l' : List α) :
    countUntil p q (l ++ l') = l.countP p + countUntil p q l' := by
  induction l with
  | nil => rw [List.nil_append, List.countP_nil, Nat.cast_zero, zero_add]
  | cons a l ih =>
    obtain ⟨ha, hl⟩ := List.forall_mem_cons.mp h
    rw [List.cons_append, countUntil_cons_of_neg ha, ih hl, List.countP_cons, Nat.cast_add,
      ← add_assoc]
    cases p a with
    | false => rw [if_neg Bool.false_ne_true, zero_add, if_neg Bool.false_ne_true, Nat.cast_zero,
        add_zero]
    | true => rw [if_pos rfl, if_pos rfl, Nat.cast_one, add_comm 1]

/-- Nothing ends the counting. -/
theorem countUntil_eq_top {l : List α} (h : ∀ a ∈ l, q a = false) : countUntil p q l = ⊤ := by
  rw [← List.append_nil l, countUntil_append h]
  exact add_top _

/-- Nothing is counted before the end. -/
theorem countUntil_eq_zero {l : List α} (hp : ∀ a ∈ l, p a = false) (hq : ∃ a ∈ l, q a = true) :
    countUntil p q l = 0 := by
  induction l with
  | nil => simp at hq
  | cons a l ih =>
    obtain ⟨hpa, hpl⟩ := List.forall_mem_cons.mp hp
    cases hqa : q a with
    | true => exact countUntil_cons_of_pos hqa l
    | false =>
      obtain ⟨b, hb, hqb⟩ := hq
      rcases List.mem_cons.mp hb with rfl | hb
      · rw [hqa] at hqb
        cases hqb
      · rw [countUntil_cons_of_neg hqa, hpa, ih hpl ⟨b, hb, hqb⟩]
        rfl

end Until
