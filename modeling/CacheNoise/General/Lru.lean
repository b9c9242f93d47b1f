import Mathlib.Tactic
import Mathlib.Data.Finset.Dedup
import Mathlib.Data.Finset.Card

/-!
# Least-recently-used sets

A set of a set-associative cache with true LRU replacement, as the list of its lines with
the most recently used one first. The bounded set is a prefix of an **unbounded recency
stack** (`touch_take`): replacement never has to be followed, since a set of `W` lines holds
exactly the first `W` entries of the stack, and an access hits if and only if the line lies
less than `W` deep in it (`mem_take_append_cons`).

* `promote` and `promoteAll`: the unbounded stack. After any accesses `xs` it is the recency
  order of `xs` followed by the untouched rest (`promoteAll_eq`), and the recency order has
  one entry for each distinct line (`length_recent`).
* `LruSet W`: at most `W` distinct lines, so that no invalid set can be built, with the access
  `LruSet.touch`, the run `LruSet.touchAll` and the record of hits and misses `LruSet.log`.
* `LruSet.log_stack`: the record of one pass over distinct lines that lie on the stack in the
  order of the pass, with anything above them.
* `SetAssoc`: sets side by side, with an index function from lines to sets. What a run does
  to a set, and records about it, is what the accesses with that index do
  (`SetAssoc.touchAll_apply`, `SetAssoc.log_filter`).
-/

namespace Lru

variable {α : Type*} [DecidableEq α]

/-! ### The unbounded recency stack -/

/-- Move `x` to the front of the stack, or put it there. -/
def promote (x : α) (l : List α) : List α := x :: l.erase x

/-- Access the lines `xs` one after another. -/
def promoteAll (xs l : List α) : List α := xs.foldl (fun l x => promote x l) l

/-- The lines of `xs`, each once, the last accessed one first. -/
def recent (xs : List α) : List α := promoteAll xs []

@[simp]
theorem promoteAll_nil (l : List α) : promoteAll [] l = l := rfl

@[simp]
theorem promoteAll_cons (x : α) (xs l : List α) :
    promoteAll (x :: xs) l = promoteAll xs (promote x l) := rfl

theorem promoteAll_append (xs ys l : List α) :
    promoteAll (xs ++ ys) l = promoteAll ys (promoteAll xs l) :=
  List.foldl_append

theorem promote_nodup {x : α} {l : List α} (h : l.Nodup) : (promote x l).Nodup :=
  List.nodup_cons.mpr ⟨h.not_mem_erase, h.erase x⟩

theorem promoteAll_nodup {xs l : List α} (h : l.Nodup) : (promoteAll xs l).Nodup := by
  induction xs generalizing l with
  | nil => exact h
  | cons x xs ih => exact ih (promote_nodup h)

theorem recent_nodup (xs : List α) : (recent xs).Nodup := promoteAll_nodup List.nodup_nil

/-- **The stack after a run**: the recency order of the accesses, then the untouched rest. -/
theorem promoteAll_eq (xs : List α) {l : List α} (h : l.Nodup) :
    promoteAll xs l = recent xs ++ l.filter fun y => decide (y ∉ xs) := by
  induction xs using List.reverseRecOn with
  | nil => simp [recent]
  | append_singleton xs x ih =>
    have hnd : (recent xs ++ l.filter fun y => decide (y ∉ xs)).Nodup := ih ▸ promoteAll_nodup h
    have hrec : recent (xs ++ [x]) = x :: (recent xs).filter (· != x) := by
      rw [recent, promoteAll_append, promoteAll_cons, promoteAll_nil, promote,
        List.Nodup.erase_eq_filter (promoteAll_nodup List.nodup_nil)]
      rfl
    rw [promoteAll_append, ih, promoteAll_cons, promoteAll_nil, promote,
      hnd.erase_eq_filter, List.filter_append, hrec, List.cons_append, List.filter_filter]
    refine congrArg _ (congrArg _ (List.filter_congr fun y _ => ?_))
    by_cases hy : y = x <;> simp [hy]

theorem mem_recent {x : α} {xs : List α} : x ∈ recent xs ↔ x ∈ xs := by
  induction xs using List.reverseRecOn with
  | nil => simp [recent]
  | append_singleton xs y ih =>
    rw [recent, promoteAll_append, promoteAll_cons, promoteAll_nil, promote, List.mem_cons]
    rw [recent] at ih
    rcases eq_or_ne x y with rfl | hxy
    · simp
    · rw [List.mem_erase_of_ne hxy, ih]
      simp [hxy]

/-- The recency order has one entry for each distinct line accessed. -/
theorem length_recent (xs : List α) : (recent xs).length = xs.toFinset.card := by
  rw [← List.toFinset_card_of_nodup (recent_nodup xs)]
  exact congrArg _ (Finset.ext fun x => by simp [mem_recent])

/-- Distinct lines end up on the stack in the reverse of the order of access. -/
theorem recent_of_nodup {xs : List α} (h : xs.Nodup) : recent xs = xs.reverse := by
  induction xs using List.reverseRecOn with
  | nil => rfl
  | append_singleton xs x ih =>
    obtain ⟨hxs, -, hdis⟩ := List.nodup_append.mp h
    have hx : x ∉ recent xs := fun hmem =>
      hdis x (mem_recent.mp hmem) x (List.mem_singleton_self x) rfl
    rw [recent, promoteAll_append, promoteAll_cons, promoteAll_nil, promote]
    change x :: (recent xs).erase x = _
    rw [List.erase_of_not_mem hx, ih hxs, List.reverse_append, List.reverse_singleton,
      List.singleton_append]

/-! ### The bounded set as a prefix of the stack -/

/-- Access `x` in a set of `W` lines: a hit moves it to the front, a miss puts it there and
drops the least recently used line of a full set. -/
def touch (W : ℕ) (x : α) (l : List α) : List α := (promote x l).take W

private theorem take_erase_take (n : ℕ) (x : α) (l : List α) :
    ((l.take (n + 1)).erase x).take n = (l.erase x).take n := by
  induction l generalizing n with
  | nil => simp
  | cons a l ih =>
    rw [List.take_succ_cons, List.erase_cons, List.erase_cons]
    by_cases hax : a = x
    · simp [hax]
    · rw [if_neg (by simpa using hax), if_neg (by simpa using hax)]
      cases n with
      | zero => simp
      | succ n => rw [List.take_succ_cons, List.take_succ_cons, ih]

/-- **The stack property**: accessing a set that holds the first `W` entries of the stack
leaves it holding the first `W` entries of the new stack. -/
theorem touch_take (W : ℕ) (x : α) (l : List α) :
    touch W x (l.take W) = (promote x l).take W := by
  cases W with
  | zero => simp [touch]
  | succ W =>
    rw [touch, promote, promote, List.take_succ_cons, List.take_succ_cons, take_erase_take]

theorem touch_nodup {W : ℕ} {x : α} {l : List α} (h : l.Nodup) : (touch W x l).Nodup :=
  (promote_nodup h).sublist (List.take_sublist _ _)

omit [DecidableEq α] in
/-- A line is among the first `n` entries if and only if fewer than `n` entries lie above
it. -/
theorem mem_take_append_cons {x : α} {above below : List α} (h : x ∉ above) (n : ℕ) :
    x ∈ (above ++ x :: below).take n ↔ above.length < n := by
  rw [List.take_append, List.mem_append]
  constructor
  · rintro (hmem | hmem)
    · exact absurd (List.mem_of_mem_take hmem) h
    · by_contra hle
      rw [Nat.sub_eq_zero_of_le (by omega)] at hmem
      simp at hmem
  · intro hlt
    obtain ⟨k, hk⟩ : ∃ k, n - above.length = k + 1 := ⟨n - above.length - 1, by omega⟩
    rw [hk]
    simp

/-! ### Sets that carry their invariant -/

/-- A set of at most `W` distinct lines, the most recently used one first. -/
structure LruSet (α : Type*) (W : ℕ) where
  lines : List α
  nodup : lines.Nodup
  length_le : lines.length ≤ W

namespace LruSet

variable {W : ℕ}

/-- The set that holds the first `W` entries of a recency stack. -/
def ofStack (W : ℕ) (l : List α) (h : l.Nodup) : LruSet α W :=
  ⟨l.take W, h.sublist (List.take_sublist _ _), List.length_take_le _ _⟩

/-- Access one line. -/
def touch (x : α) (c : LruSet α W) : LruSet α W :=
  ⟨Lru.touch W x c.lines, touch_nodup c.nodup, List.length_take_le _ _⟩

/-- Access lines one after another. -/
def touchAll (xs : List α) (c : LruSet α W) : LruSet α W := xs.foldl (fun c x => c.touch x) c

/-- The accesses in order, each with `true` when the line was missing. -/
def log (c : LruSet α W) : List α → List (α × Bool)
  | [] => []
  | x :: xs => (x, decide (x ∉ c.lines)) :: (c.touch x).log xs

omit [DecidableEq α] in
theorem ext_lines {c d : LruSet α W} (h : c.lines = d.lines) : c = d := by
  cases c
  cases d
  simpa using h

omit [DecidableEq α] in
theorem eq_ofStack (c : LruSet α W) : c = ofStack W c.lines c.nodup :=
  ext_lines (List.take_of_length_le c.length_le).symm

theorem touch_ofStack (x : α) {l : List α} (h : l.Nodup) :
    (ofStack W l h).touch x = ofStack W (promote x l) (promote_nodup h) :=
  ext_lines (touch_take W x l)

theorem touchAll_ofStack (xs : List α) {l : List α} (h : l.Nodup) :
    (ofStack W l h).touchAll xs = ofStack W (promoteAll xs l) (promoteAll_nodup h) := by
  induction xs generalizing l with
  | nil => rfl
  | cons x xs ih =>
    change ((ofStack W l h).touch x).touchAll xs = _
    rw [touch_ofStack, ih]
    rfl

/-- **One pass in stack order.** Accessing the distinct lines `bs`, which lie on the stack in
that order below `above`, misses at the `w`-th of them if and only if `above.length + w`
reaches the size of the set: what the pass itself has moved to the front counts as deep as
it stood before. -/
theorem log_stack (above bs rest : List α) (h : (above ++ bs ++ rest).Nodup) :
    (ofStack W (above ++ bs ++ rest) h).log bs =
      (bs.zipIdx above.length).map fun p => (p.1, decide (W ≤ p.2)) := by
  induction bs generalizing above with
  | nil => rfl
  | cons b bs ih =>
    have hstack : above ++ b :: bs ++ rest = above ++ b :: (bs ++ rest) := by simp
    have hb : b ∉ above := fun hmem => by
      rw [hstack] at h
      exact (List.nodup_append.mp h).2.2 b hmem b (List.mem_cons_self) rfl
    have hmiss : decide (b ∉ (ofStack W (above ++ b :: bs ++ rest) h).lines) =
        decide (W ≤ above.length) := by
      refine decide_eq_decide.mpr ?_
      change b ∉ (above ++ b :: bs ++ rest).take W ↔ _
      rw [hstack, mem_take_append_cons hb, Nat.not_lt]
    have hnext : promote b (above ++ b :: bs ++ rest) = (b :: above) ++ bs ++ rest := by
      rw [promote, hstack, List.erase_append_right _ hb, List.erase_cons_head]
      simp
    have htouch : (ofStack W (above ++ b :: bs ++ rest) h).touch b =
        ofStack W ((b :: above) ++ bs ++ rest) (hnext ▸ promote_nodup h) :=
      ext_lines (by rw [touch_ofStack]; exact congrArg (List.take W) hnext)
    rw [log, hmiss, htouch, ih (b :: above), List.zipIdx_cons, List.map_cons, List.length_cons]

/-- **A pass back over a pass.** After a pass over the distinct lines `bs` in reverse and any
accesses `xs` to other lines, a pass over `bs` misses at its `w`-th line if and only if the
number of distinct lines of `xs` plus `w` reaches the size of the set. -/
theorem log_reverse_then (c : LruSet α W) {bs xs : List α} (hbs : bs.Nodup)
    (hxs : ∀ b ∈ bs, b ∉ xs) :
    ((c.touchAll bs.reverse).touchAll xs).log bs =
      bs.zipIdx.map fun p => (p.1, decide (W ≤ xs.toFinset.card + p.2)) := by
  -- the reverse pass leaves `bs` on top of the stack, and `xs` put their own lines above it
  have hback : ∃ rest, promoteAll bs.reverse c.lines = bs ++ rest := by
    rw [promoteAll_eq _ c.nodup, recent_of_nodup (List.nodup_reverse.mpr hbs), List.reverse_reverse]
    exact ⟨_, rfl⟩
  obtain ⟨rest, hrest⟩ := hback
  have hnd : (bs ++ rest).Nodup := hrest ▸ promoteAll_nodup c.nodup
  have hkeep : bs.filter (fun y => decide (y ∉ xs)) = bs :=
    List.filter_eq_self.mpr fun b hb => decide_eq_true (hxs b hb)
  have hstack : promoteAll xs (promoteAll bs.reverse c.lines) =
      recent xs ++ bs ++ rest.filter fun y => decide (y ∉ xs) := by
    rw [hrest, promoteAll_eq xs hnd, List.filter_append, hkeep, List.append_assoc]
  have hset : (c.touchAll bs.reverse).touchAll xs =
      ofStack W (recent xs ++ bs ++ rest.filter fun y => decide (y ∉ xs))
        (hstack ▸ promoteAll_nodup (promoteAll_nodup c.nodup)) := by
    refine ext_lines ?_
    conv_lhs => rw [c.eq_ofStack, touchAll_ofStack, touchAll_ofStack]
    exact congrArg (List.take W) hstack
  rw [hset, log_stack, length_recent, List.zipIdx_eq_map_add, List.map_map]
  refine List.map_congr_left fun p _ => ?_
  simp [Nat.add_comm]

end LruSet

/-! ### Set-associative caches -/

/-- One LRU set of `W` lines for every index. -/
def SetAssoc (ι α : Type*) (W : ℕ) : Type _ := ι → LruSet α W

namespace SetAssoc

variable {ι : Type*} [DecidableEq ι] {W : ℕ} (index : α → ι)

/-- Access a line in the set of its index. -/
def touch (x : α) (c : SetAssoc ι α W) : SetAssoc ι α W :=
  Function.update c (index x) ((c (index x)).touch x)

/-- Whether a line is missing from the set of its index. -/
def missing (c : SetAssoc ι α W) (x : α) : Bool := decide (x ∉ (c (index x)).lines)

/-- Access lines one after another. -/
def touchAll (xs : List α) (c : SetAssoc ι α W) : SetAssoc ι α W :=
  xs.foldl (fun c x => c.touch index x) c

/-- The accesses in order, each with `true` when the line was missing. -/
def log (c : SetAssoc ι α W) : List α → List (α × Bool)
  | [] => []
  | x :: xs => (x, c.missing index x) :: (c.touch index x).log xs

theorem touch_self (x : α) (c : SetAssoc ι α W) :
    c.touch index x (index x) = (c (index x)).touch x :=
  Function.update_self ..

theorem touch_of_ne {x : α} {i : ι} (h : index x ≠ i) (c : SetAssoc ι α W) :
    c.touch index x i = c i :=
  Function.update_of_ne h.symm ..

/-- A run changes a set as the accesses with its index do. -/
theorem touchAll_apply (xs : List α) (c : SetAssoc ι α W) (i : ι) :
    c.touchAll index xs i = (c i).touchAll (xs.filter fun x => index x = i) := by
  induction xs generalizing c with
  | nil => rfl
  | cons x xs ih =>
    change (c.touch index x).touchAll index xs i = _
    rw [ih]
    by_cases hx : index x = i
    · subst hx
      rw [touch_self, List.filter_cons_of_pos (by simp)]
      rfl
    · rw [touch_of_ne index hx, List.filter_cons_of_neg (by simpa using hx)]

/-- Only accessed lines are recorded. -/
theorem mem_of_mem_log {xs : List α} {c : SetAssoc ι α W} {e : α × Bool}
    (h : e ∈ c.log index xs) : e.1 ∈ xs := by
  induction xs generalizing c with
  | nil => exact absurd h List.not_mem_nil
  | cons x xs ih =>
    rw [log] at h
    rcases List.mem_cons.mp h with rfl | h
    · exact List.mem_cons_self
    · exact List.mem_cons_of_mem _ (ih h)

/-- A run records about a set what the accesses with its index record. -/
theorem log_filter (xs : List α) (c : SetAssoc ι α W) (i : ι) :
    (c.log index xs).filter (fun e => index e.1 = i) =
      (c i).log (xs.filter fun x => index x = i) := by
  induction xs generalizing c with
  | nil => rfl
  | cons x xs ih =>
    rw [log]
    by_cases hx : index x = i
    · subst hx
      rw [List.filter_cons_of_pos (by simp), List.filter_cons_of_pos (by simp), ih,
        LruSet.log, touch_self]
      rfl
    · rw [List.filter_cons_of_neg (by simpa using hx), List.filter_cons_of_neg (by simpa using hx),
        ih, touch_of_ne index hx]

end SetAssoc

end Lru
