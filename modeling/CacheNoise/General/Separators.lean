import Mathlib.Data.List.Basic
import Mathlib.Tactic

/-!
# Texts with separators

Two ways of writing a list of pieces as one text, and how the pieces are read back: a separator
after every piece (`terminated`, `lines_terminated`), or one between each two
(`List.intercalate`, of which core has `List.splitOn_intercalate`). Neither loses anything as long
as no piece contains the separator. Pieces of one positive length need no separator at all
(`flatten_inj`).
-/

namespace Separators

section

variable {α : Type*} [BEq α] [LawfulBEq α] {sep : α}

/-- The pieces, each with the separator after it. -/
def terminated (sep : α) (pieces : List (List α)) : List α := pieces.flatMap (· ++ [sep])

/-- What stands before each separator of a text. -/
def lines (sep : α) (text : List α) : List (List α) := (text.splitOn sep).dropLast

omit [BEq α] [LawfulBEq α] in
theorem terminated_append (sep : α) (pieces pieces' : List (List α)) :
    terminated sep (pieces ++ pieces') = terminated sep pieces ++ terminated sep pieces' :=
  List.flatMap_append

theorem splitOn_terminated {pieces : List (List α)} (h : ∀ piece ∈ pieces, sep ∉ piece) :
    (terminated sep pieces).splitOn sep = pieces ++ [[]] := by
  induction pieces with
  | nil => rfl
  | cons piece pieces ih =>
    obtain ⟨hpiece, hpieces⟩ := List.forall_mem_cons.mp h
    rw [terminated, List.flatMap_cons, List.append_assoc, List.singleton_append,
      List.splitOn_append_cons_self_of_not_mem hpiece, List.cons_append]
    exact congrArg (piece :: ·) (ih hpieces)

/-- **Terminated pieces are read back.** -/
theorem lines_terminated {pieces : List (List α)} (h : ∀ piece ∈ pieces, sep ∉ piece) :
    lines sep (terminated sep pieces) = pieces := by
  rw [lines, splitOn_terminated h, List.dropLast_concat]

omit [BEq α] [LawfulBEq α] in
/-- The separators between pieces stand before all but the first. -/
theorem intercalate_cons (piece : List α) (pieces : List (List α)) :
    [sep].intercalate (piece :: pieces) = piece ++ pieces.flatMap (sep :: ·) := by
  induction pieces generalizing piece with
  | nil => simp
  | cons next pieces ih =>
    rw [List.intercalate_cons_cons, ih, List.flatMap_cons, List.append_assoc]
    rfl

omit [BEq α] [LawfulBEq α] in
/-- Nothing is in the text but the separator and what is in the pieces. -/
theorem notMem_intercalate {a : α} {pieces : List (List α)} (hsep : a ≠ sep)
    (h : ∀ piece ∈ pieces, a ∉ piece) : a ∉ [sep].intercalate pieces := by
  cases pieces with
  | nil => exact List.not_mem_nil
  | cons piece pieces =>
    obtain ⟨hpiece, hpieces⟩ := List.forall_mem_cons.mp h
    rw [intercalate_cons, List.mem_append, not_or, List.mem_flatMap]
    refine ⟨hpiece, ?_⟩
    rintro ⟨next, hnext, hmem⟩
    exact (List.mem_cons.mp hmem).elim hsep (hpieces next hnext)

end

section

variable {α : Type*} {n : ℕ}

/-- Pieces that are not empty make up a text that is not empty. -/
theorem eq_nil_of_flatten (hn : 0 < n) {l : List (List α)} (hl : ∀ piece ∈ l, piece.length = n)
    (h : l.flatten = []) : l = [] := by
  refine List.eq_nil_iff_forall_not_mem.mpr fun piece hpiece => ?_
  have hlength := hl piece hpiece
  rw [List.flatten_eq_nil_iff.mp h piece hpiece] at hlength
  exact hn.ne hlength

/-- **Pieces of one positive length** are determined by the text that they make up. -/
theorem flatten_inj (hn : 0 < n) {l l' : List (List α)} (hl : ∀ piece ∈ l, piece.length = n)
    (hl' : ∀ piece ∈ l', piece.length = n) (h : l.flatten = l'.flatten) : l = l' := by
  induction l generalizing l' with
  | nil => exact (eq_nil_of_flatten hn hl' h.symm).symm
  | cons piece l ih =>
    cases l' with
    | nil => exact eq_nil_of_flatten hn hl h
    | cons piece' l' =>
      obtain ⟨hpiece, hl⟩ := List.forall_mem_cons.mp hl
      obtain ⟨hpiece', hl'⟩ := List.forall_mem_cons.mp hl'
      rw [List.flatten_cons, List.flatten_cons] at h
      obtain ⟨heq, hrest⟩ := List.append_inj h (hpiece.trans hpiece'.symm)
      rw [heq, ih hl hl' hrest]

end

end Separators
