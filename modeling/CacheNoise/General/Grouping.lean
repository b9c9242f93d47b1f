import Mathlib.Data.List.Basic
import Mathlib.Data.List.Nodup
import Mathlib.Tactic

/-!
# Grouping by a key

A list is put element by element into groups by a key, as into a dictionary that keeps the order
of insertion (`group`). What an insertion preserves is that the groups have different keys, that
their keys are those of the elements, and that the members of each are the elements with its
key, in their order (`Groups`).
-/

namespace Grouping

variable {κ α : Type*} [DecidableEq κ] (key : α → κ)

/-- Put an element into the group of its key, or into a new one at the end. -/
def insert (groups : List (κ × List α)) (a : α) : List (κ × List α) :=
  if key a ∈ groups.map Prod.fst then
    groups.map fun g => if key a = g.1 then (g.1, g.2 ++ [a]) else g
  else groups ++ [(key a, [a])]

/-- Put all elements into groups. -/
def group (l : List α) : List (κ × List α) := l.foldl (insert key) []

/-- The groups of a list. -/
structure Groups (l : List α) (groups : List (κ × List α)) : Prop where
  nodup : (groups.map Prod.fst).Nodup
  mem_iff : ∀ k, k ∈ groups.map Prod.fst ↔ ∃ a ∈ l, key a = k
  members : ∀ g ∈ groups, g.2 = l.filter fun a => key a = g.1

variable {key} {l : List α} {groups groups' : List (κ × List α)}

/-- An element that is put into its group changes no key. -/
private theorem keys_update (groups : List (κ × List α)) (a : α) :
    (groups.map fun g => if key a = g.1 then (g.1, g.2 ++ [a]) else g).map Prod.fst =
      groups.map Prod.fst := by
  rw [List.map_map]
  refine List.map_congr_left fun g _ => ?_
  rw [Function.comp_apply]
  split <;> rfl

/-- One more element. -/
theorem Groups.insert (h : Groups key l groups) (a : α) :
    Groups key (l ++ [a]) (insert key groups a) := by
  have hmem : ∀ k, (∃ b ∈ l ++ [a], key b = k) ↔ (∃ b ∈ l, key b = k) ∨ key a = k := by
    intro k
    simp only [List.mem_append, List.mem_singleton, or_and_right, exists_or, exists_eq_left]
  have hfilter : ∀ k, ((l ++ [a]).filter fun b => key b = k) =
      (l.filter fun b => key b = k) ++ if key a = k then [a] else [] := by
    intro k
    rw [List.filter_append]
    by_cases hkey : key a = k <;> simp [hkey]
  rw [Grouping.insert]
  split
  · next hold =>
    refine ⟨(keys_update groups a).symm ▸ h.nodup, fun k => ?_, fun g hg => ?_⟩
    · rw [keys_update groups a, hmem, h.mem_iff]
      refine ⟨.inl, fun hk => hk.elim id fun hk => ?_⟩
      rw [← hk]
      exact (h.mem_iff (key a)).mp hold
    · obtain ⟨g', hg', rfl⟩ := List.mem_map.mp hg
      split
      · next hkey => rw [hfilter, ← h.members g' hg', if_pos hkey]
      · next hkey => rw [hfilter, ← h.members g' hg', if_neg hkey, List.append_nil]
  · next hnew =>
    refine ⟨?_, fun k => ?_, fun g hg => ?_⟩
    · rw [List.map_append, List.nodup_append]
      refine ⟨h.nodup, List.nodup_singleton _, fun k hk k' hk' => ?_⟩
      rw [List.mem_singleton.mp hk']
      rintro rfl
      exact hnew hk
    · rw [List.map_append, List.mem_append, hmem, h.mem_iff]
      exact or_congr_right (List.mem_singleton.trans eq_comm)
    · obtain hg | hg := List.mem_append.mp hg
      · have hkey : key a ≠ g.1 := fun hkey => hnew (hkey ▸ List.mem_map_of_mem hg)
        rw [hfilter, ← h.members g hg, if_neg hkey, List.append_nil]
      · obtain rfl := List.mem_singleton.mp hg
        have hnil : (l.filter fun b => key b = key a) = [] := by
          refine List.filter_eq_nil_iff.mpr fun b hb hkey => hnew ?_
          exact (h.mem_iff _).mpr ⟨b, hb, of_decide_eq_true hkey⟩
        rw [hfilter, hnil, if_pos rfl, List.nil_append]

/-- **The groups of all elements.** -/
theorem groups_group (key : α → κ) (l : List α) : Groups key l (group key l) := by
  induction l using List.reverseRecOn with
  | nil => exact ⟨List.nodup_nil, by simp [group], fun g hg => absurd hg List.not_mem_nil⟩
  | append_singleton l a ih =>
    rw [group, List.foldl_append]
    exact ih.insert a

/-- Every element has its group. -/
theorem Groups.exists_of_mem (h : Groups key l groups) {a : α} (ha : a ∈ l) :
    ∃ g ∈ groups, g.1 = key a ∧ a ∈ g.2 := by
  obtain ⟨g, hg, hkey⟩ := List.mem_map.mp ((h.mem_iff (key a)).mpr ⟨a, ha, rfl⟩)
  refine ⟨g, hg, hkey, ?_⟩
  rw [h.members g hg]
  exact List.mem_filter.mpr ⟨ha, decide_eq_true hkey.symm⟩

/-- An element that is put into its group is one element more. -/
private theorem perm_update {groups : List (κ × List α)} (hnodup : (groups.map Prod.fst).Nodup)
    {a : α} (ha : key a ∈ groups.map Prod.fst) :
    ((groups.map fun g => if key a = g.1 then (g.1, g.2 ++ [a]) else g).flatMap Prod.snd).Perm
      (groups.flatMap Prod.snd ++ [a]) := by
  induction groups with
  | nil => exact absurd ha List.not_mem_nil
  | cons g groups ih =>
    obtain ⟨hg, hgroups⟩ := List.nodup_cons.mp hnodup
    rw [List.map_cons, List.flatMap_cons, List.flatMap_cons, List.append_assoc]
    by_cases hkey : key a = g.1
    · have hsame : (groups.map fun g => if key a = g.1 then (g.1, g.2 ++ [a]) else g) = groups := by
        refine (List.map_congr_left fun g' hg' => ?_).trans (List.map_id groups)
        refine if_neg fun hkey' => hg ?_
        rw [← hkey, hkey']
        exact List.mem_map_of_mem hg'
      rw [if_pos hkey, hsame, List.append_assoc]
      exact (List.perm_append_comm).append_left g.2
    · rw [if_neg hkey]
      exact (ih hgroups ((List.mem_cons.mp ha).resolve_left hkey)).append_left g.2

/-- **No element is lost or in two groups.** -/
theorem perm_group (key : α → κ) (l : List α) : ((group key l).flatMap Prod.snd).Perm l := by
  induction l using List.reverseRecOn with
  | nil => exact List.Perm.refl _
  | append_singleton l a ih =>
    rw [group, List.foldl_append]
    change ((insert key (group key l) a).flatMap Prod.snd).Perm (l ++ [a])
    refine List.Perm.trans ?_ (ih.append_right [a])
    rw [insert]
    split
    · next hold => exact perm_update (groups_group key l).nodup hold
    · rw [List.flatMap_append]
      exact List.Perm.refl _

/-- The groups that there are keep their places. -/
theorem prefix_keys (key : α → κ) (l : List α) (groups : List (κ × List α)) :
    groups.map Prod.fst <+: (l.foldl (insert key) groups).map Prod.fst := by
  induction l generalizing groups with
  | nil => exact List.prefix_rfl
  | cons a l ih =>
    refine List.IsPrefix.trans ?_ (ih (insert key groups a))
    rw [insert]
    split
    · rw [keys_update groups a]
    · rw [List.map_append]
      exact List.prefix_append _ _

/-- The group of the first element comes first. -/
theorem exists_group_cons (key : α → κ) (a : α) (l : List α) :
    ∃ g rest, group key (a :: l) = g :: rest ∧ g.1 = key a := by
  obtain ⟨keys, hkeys⟩ : [key a] <+: (group key (a :: l)).map Prod.fst :=
    prefix_keys key l [(key a, [a])]
  obtain ⟨g, rest, hgroup, hkey, -⟩ := List.map_eq_cons_iff.mp hkeys.symm
  exact ⟨g, rest, hgroup, hkey⟩

end Grouping
