import CacheNoise.Alloc.Contract
import CacheNoise.Main.Steps
import Mathlib.Data.List.TakeWhile

/-!
# What `main` unmaps

Over a whole run of `main`, the ledger of its huge-page mappings: which of them it unmaps, and
when. The buffer of `main` is unmapped in the block `FINALIZE`, which only asks whether it is
`NULL`, while `alloc_aligned` leaves `MAP_FAILED` or a buffer that it has released behind when
it fails, and is then evaluated twice more by `EXIT_ON_FAIL`.

The ledger is as it should be in every run in which at most one evaluation of the step maps
anything, and this one hands out its last buffer (`CleanAllocations`, `main_unmapsOnce`).
-/

namespace CacheNoise

open Interaction Ledger

/-! ### Clean allocations -/

/-- The mark at which an evaluation of the allocation step begins. -/
def startsAllocation : Event → Bool
  | ⟨.enter .alloc, _⟩ => true
  | _ => false

/-- The calls of each evaluation of the allocation step, up to the next mark. -/
def allocations : List Event → List (List Event)
  | [] => []
  | e :: t =>
    if startsAllocation e = true then
      t.takeWhile (fun e => e.1.kind ≠ .step) :: allocations t
    else allocations t

/-- The code of a try, if it got as far as the test. -/
def Try.code : Try → Option ErrorT
  | .failed => none
  | .tested _ code => some code

/-- The last buffer mapped is not rejected, and it is the first one and aligned, or the last
rejected one is released. -/
def CleanAllocation (u : List Event) : Prop :=
  ∀ last ∈ (tries u).getLast?, ∃ code ∈ last.code, code ≠ errorNotAligned ∧
    if rejected u = [] then code = errorNone
    else ∃ r ∈ (rejected u).getLast?, Entry.release (.mapped r) true ∈ mappings u

instance (u : List Event) : Decidable (CleanAllocation u) :=
  inferInstanceAs (Decidable (∀ last ∈ (tries u).getLast?, ∃ code ∈ last.code,
    code ≠ errorNotAligned ∧ if rejected u = [] then code = errorNone
    else ∃ r ∈ (rejected u).getLast?, Entry.release (.mapped r) true ∈ mappings u))

/-- The huge page sizes that are read after the first mapping. -/
def sizesWhileMapped (t : List Event) : List (Option UInt64) :=
  pageSizes (t.dropWhile fun e => mappingOf e = none)

/-- At most one evaluation of the allocation step maps anything, and each is clean; and if every
release succeeds, then so does every reading of the page size that a release needs. -/
def CleanAllocations (t : List Event) : Prop :=
  (∀ u ∈ allocations t, CleanAllocation u) ∧
    (allocations t).Pairwise (fun u v => tries u = [] ∨ tries v = []) ∧
      ((∀ x ∈ mappings t, x.Done) → none ∉ sizesWhileMapped t)

instance (t : List Event) : Decidable (CleanAllocations t) :=
  inferInstanceAs (Decidable ((∀ u ∈ allocations t, CleanAllocation u) ∧
    (allocations t).Pairwise (fun u v => tries u = [] ∨ tries v = []) ∧
      ((∀ x ∈ mappings t, x.Done) → none ∉ sizesWhileMapped t)))

theorem allocations_append (h t : List Event) : allocations t <:+ allocations (h ++ t) := by
  induction h with
  | nil => exact List.suffix_rfl
  | cons e h ih =>
    rw [List.cons_append, allocations]
    split
    · exact ih.trans (List.suffix_cons _ _)
    · exact ih

theorem allocations_of_kinds {u : List Event} (h : ∀ e ∈ u, e.1.kind ≠ .step) (t : List Event) :
    allocations (u ++ t) = allocations t := by
  induction u with
  | nil => rfl
  | cons e u ih =>
    have hstart : startsAllocation e = false := by
      have hkind := h e List.mem_cons_self
      obtain ⟨c, a⟩ := e
      cases c <;> first | rfl | exact absurd rfl hkind
    rw [List.cons_append, allocations, hstart, if_neg (by simp)]
    exact ih fun e he => h e (List.mem_cons_of_mem _ he)

theorem allocations_evaluation {u : List Event} (h : ∀ e ∈ u, e.1.kind ≠ .step)
    (a : Answer (.enter .alloc)) (res : ErrorT) (b : Answer (.leave .alloc res))
    (t : List Event) : allocations (evaluation .alloc a u res b ++ t) = u :: allocations t := by
  have hall : ∀ e ∈ u, decide (e.1.kind ≠ .step) = true := fun e he => decide_eq_true (h e he)
  have htake : (u ++ (⟨.leave .alloc res, b⟩ :: t)).takeWhile (fun e => e.1.kind ≠ .step) = u := by
    rw [List.takeWhile_append_of_pos hall, List.takeWhile_cons_of_neg (by simp),
      List.append_nil]
  have hrest : allocations (u ++ (⟨.leave .alloc res, b⟩ :: t)) = allocations t := by
    rw [allocations_of_kinds h]
    rfl
  rw [evaluation, List.append_assoc, List.cons_append, List.singleton_append]
  change _ :: _ = _
  rw [htake, hrest]

/-! ### One allocation -/

section

variable {cache : CacheInfo} {buffer : Ptr} {u : List Event}

/-- Without a try, `alloc_aligned` leaves with an error and does nothing. -/
theorem allocAligned_quiet {o : Option (ErrorT × Ptr)} (h : (allocAligned cache buffer).Run u o)
    (hfresh : Fresh [] (mappings u)) (htries : tries u = []) :
    mappings u = [] ∧ ∃ err, err ≠ errorNone ∧ o = some (err, buffer) := by
  rcases allocAligned_run h hfresh with ⟨-, hmaps, herr⟩ |
    ⟨n, rs, e, t₀, t₁, t₂, o₁, rel, rfl, ⟨hn, hfits, -⟩, ⟨htries₀, -⟩, -, -⟩
  · exact ⟨hmaps, herr⟩
  · -- a search makes at least one try
    rw [tries_append, tries_append, htries₀, List.append_eq_nil_iff, List.append_eq_nil_iff,
      List.append_eq_nil_iff, List.map_eq_nil_iff] at htries
    obtain ⟨⟨⟨rfl, hend⟩, -⟩, -⟩ := htries
    cases e with
    | exhausted => exact absurd hfits (Nat.ne_of_lt hn)
    | failed => exact absurd hend (by simp [SearchEnd.tries])
    | tested b code => exact absurd hend (by simp [SearchEnd.tries])

/-- As long as it does not return, `alloc_aligned` releases only what it has mapped. -/
theorem allocAligned_stuck (h : (allocAligned cache buffer).Run u none)
    (hfresh : Fresh [] (mappings u)) (held : List Ptr) : Proper held (mappings u) := by
  rcases allocAligned_run h hfresh with ⟨-, -, err, -, ho⟩ |
    ⟨n, rs, e, t₀, t₁, t₂, o₁, rel, rfl, ⟨-, -, hnd⟩, ⟨-, hmaps₀⟩, ⟨hrel, -⟩, hend⟩
  · exact absurd ho (by simp)
  · have htail : mappings t₂ = [] := by
      obtain ⟨-, rfl, -⟩ | ⟨err, -, htail⟩ := hend
      · rfl
      · rcases allocTail_run htail with ⟨-, -, -, ho⟩ | ⟨-, ⟨-, -, ho⟩ | ⟨-, o', rel₂, hrel₂, ho⟩⟩
        · exact absurd ho (by simp)
        · exact absurd ho (by simp)
        · have hlength := (hrel₂.stuck (Option.map_eq_none_iff.mp ho.symm)).2
          rw [hrel₂.mappings_eq, List.length_eq_zero_iff.mp (Nat.lt_one_iff.mp hlength)]
          rfl
    rw [mappings_append, mappings_append, hmaps₀, hrel.mappings_eq, htail, List.append_nil]
    exact proper_search hnd hrel.sublist held

/-- A clean allocation hands out its last buffer, and releases the others. -/
theorem allocAligned_clean {res : ErrorT} {buffer' : Ptr}
    (h : (allocAligned cache buffer).Run u (some (res, buffer')))
    (hfresh : Fresh [] (mappings u)) (hclean : CleanAllocation u) (htries : tries u ≠ []) :
    res = errorNone ∧ ∃ (rs : List UInt64) (b : UInt64) (t₀ t₁ : List Event)
      (rel : List (Ptr × Bool)), buffer' = .mapped b ∧ u = t₀ ++ t₁ ∧ (rs ++ [b]).Nodup ∧
        mappings t₀ = ((rs ++ [b]).map Ptr.mapped).map .acquire ∧
          Releasing (rs.map Ptr.mapped) t₁ (some errorNone) rel := by
  rcases allocAligned_run h hfresh with ⟨hnone, -, -⟩ |
    ⟨n, rs, e, t₀, t₁, t₂, o₁, rel, rfl, ⟨hn, hfits, hnd⟩, ⟨htries₀, hmaps₀⟩, ⟨hrel, hnil⟩, hend⟩
  · exact absurd hnone htries
  obtain ⟨-, -, ho⟩ | ⟨err, rfl, htail⟩ := hend
  · exact absurd ho (by simp)
  obtain ⟨htries₂, rel₂, hmaps₂, hsub₂⟩ := allocTail_ledger htail
  have htries' : tries (t₀ ++ t₁ ++ t₂) = rs.map (.tested · errorNotAligned) ++ e.tries := by
    rw [tries_append, tries_append, htries₀, hrel.tries_eq, htries₂, List.append_nil,
      List.append_nil]
  rw [CleanAllocation, rejected_eq htries' hfits, htries'] at hclean
  cases e with
  | exhausted =>
    obtain ⟨r, hr⟩ : ∃ r, rs.getLast? = some r :=
      Option.ne_none_iff_exists'.mp (by simpa [← List.length_pos_iff] using hfits ▸ hn)
    obtain ⟨code, hcode, hne, -⟩ := hclean (.tested r errorNotAligned)
      (by simp [SearchEnd.tries, hr])
    exact absurd (Option.some_injective _ hcode).symm hne
  | failed =>
    obtain ⟨code, hcode, -⟩ := hclean .failed (by simp [SearchEnd.tries])
    exact absurd hcode (by simp [Try.code])
  | tested b code =>
    obtain ⟨code', hcode, -, hlast⟩ := hclean (.tested b code) (by simp [SearchEnd.tries])
    obtain rfl : code = code' := Option.some_injective _ hcode
    have herr : err = errorNone := by
      by_cases hrs : rs = []
      · rw [if_pos hrs] at hlast
        exact (Option.some_injective _ (hnil hrs)).trans hlast
      · rw [if_neg hrs] at hlast
        obtain ⟨r, hr, hmem⟩ := hlast
        refine (hrel.code err rfl (.mapped r) ?_).mpr ?_
        · rw [List.getLast?_map, Option.mem_def.mp hr]
          rfl
        · have hmem' : (Ptr.mapped r, true) ∈ rel ∨ (Ptr.mapped r, true) ∈ rel₂ := by
            simpa [hmaps₀, hrel.mappings_eq, hmaps₂, mem_releases] using hmem
          refine hmem'.resolve_right fun hr₂ => ?_
          -- the tail releases the last buffer, which is another one
          have hb := List.mem_singleton.mp (hsub₂.subset (List.mem_map_of_mem hr₂))
          obtain rfl : r = b := Ptr.mapped.inj hb
          exact (List.nodup_append.mp hnd).2.2 r (List.mem_of_getLast? hr) r
            (List.mem_singleton_self r) rfl
    rcases allocTail_run htail with ⟨-, -, rfl, ho⟩ | ⟨hfail, -⟩
    · obtain ⟨rfl, rfl⟩ := Prod.mk.inj (Option.some_injective _ ho)
      subst herr
      exact ⟨rfl, rs, b, t₀, t₁, rel, rfl, List.append_nil _, hnd, hmaps₀, hrel⟩
    · exact absurd ⟨by simpa [SearchEnd.result] using hfits.1, herr⟩ hfail

end

/-! ### Ownership -/

/-- `buffer` is mapped, and it is all that is mapped once every release has succeeded. -/
structure Owned (buffer : Ptr) (h : List Event) : Prop where
  proper : Proper [] (mappings h)
  held : buffer ∈ after [] (mappings h)
  only : (∀ x ∈ mappings h, x.Done) → none ∉ sizesWhileMapped h →
    after [] (mappings h) = [buffer]

/-- Nothing was ever mapped and the buffer is `NULL`, or the buffer is owned. -/
def Owns (buffer : Ptr) (h : List Event) : Prop :=
  (buffer = .null ∧ mappings h = []) ∨ (buffer ≠ .null ∧ Owned buffer h)

/-- The history can be that of a run as it should be. -/
def Promised (h : List Event) : Prop :=
  ∃ v, Fresh [] (mappings (h ++ v)) ∧ CleanAllocations (h ++ v)

theorem Promised.of_append {h u : List Event} (hp : Promised (h ++ u)) : Promised h := by
  obtain ⟨v, hv⟩ := hp
  exact ⟨u ++ v, by rwa [← List.append_assoc]⟩

/-- What is read after the first mapping. -/
theorem sizesWhileMapped_append {t : List Event} (ht : mappings t ≠ []) (u : List Event) :
    sizesWhileMapped (t ++ u) = sizesWhileMapped t ++ pageSizes u := by
  have hdrop : (t.dropWhile fun e => mappingOf e = none).isEmpty = false := by
    rw [List.isEmpty_eq_false_iff]
    intro hnil
    refine ht (List.filterMap_eq_nil_iff.mpr fun e he => ?_)
    simpa using List.dropWhile_eq_nil_iff.mp hnil e he
  rw [sizesWhileMapped, List.dropWhile_append, hdrop, if_neg (by simp), pageSizes_append]
  rfl

theorem Owned.mappings_ne_nil {buffer : Ptr} {h : List Event} (ho : Owned buffer h) :
    mappings h ≠ [] := by
  intro hnil
  have hheld := ho.held
  rw [hnil] at hheld
  exact List.not_mem_nil hheld

/-- Calls that map and release nothing change nothing. -/
theorem Owns.append {buffer : Ptr} {h u : List Event} (ho : Owns buffer h)
    (hu : mappings u = []) : Owns buffer (h ++ u) := by
  have hmaps : mappings (h ++ u) = mappings h := by rw [mappings_append, hu, List.append_nil]
  rcases ho with ⟨rfl, hnil⟩ | ⟨hne, ho⟩
  · exact .inl ⟨rfl, hmaps.trans hnil⟩
  · refine .inr ⟨hne, hmaps ▸ ho.proper, hmaps ▸ ho.held, fun hdone hsizes => ?_⟩
    rw [sizesWhileMapped_append ho.mappings_ne_nil, List.mem_append, not_or] at hsizes
    rw [hmaps] at hdone ⊢
    exact ho.only hdone hsizes.1

theorem Owns.proper {buffer : Ptr} {h : List Event} (ho : Owns buffer h) :
    Proper [] (mappings h) := by
  rcases ho with ⟨-, hnil⟩ | ⟨-, ho⟩
  · rw [hnil]
    trivial
  · exact ho.proper

/-- **A clean evaluation**: it leaves early, or it makes its buffer the only mapping. -/
theorem owns_evaluation {cache : CacheInfo} {buffer buffer' : Ptr} {h u : List Event}
    {res : ErrorT} {a : Answer (.enter .alloc)} {b : Answer (.leave .alloc res)}
    (hrun : (allocAligned cache buffer).Run u (some (res, buffer'))) (hempty : mappings h = [])
    (hfresh : Fresh [] (mappings u)) (hclean : CleanAllocation u) :
    (tries u = [] ∧ mappings u = [] ∧ res ≠ errorNone ∧ buffer' = buffer) ∨
      (tries u ≠ [] ∧ res = errorNone ∧ Owns buffer' (h ++ evaluation .alloc a u res b)) := by
  by_cases htries : tries u = []
  · obtain ⟨hmaps, err, herr, ho⟩ := allocAligned_quiet hrun hfresh htries
    obtain ⟨rfl, rfl⟩ := Prod.mk.inj (Option.some_injective _ ho)
    exact .inl ⟨htries, hmaps, herr, rfl⟩
  · obtain ⟨hres, rs, b', t₀, t₁, rel, rfl, rfl, hnd, hmaps₀, hrel⟩ :=
      allocAligned_clean hrun hfresh hclean htries
    refine .inr ⟨htries, hres, .inr ?_⟩
    have hbefore : mappings (h ++ ⟨.enter .alloc, a⟩ :: t₀) =
        ((rs ++ [b']).map Ptr.mapped).map .acquire := by
      rw [mappings_append, hempty, List.nil_append, ← hmaps₀]
      rfl
    have hsplit : h ++ evaluation .alloc a (t₀ ++ t₁) res b =
        (h ++ ⟨.enter .alloc, a⟩ :: t₀) ++ (t₁ ++ [⟨.leave .alloc res, b⟩]) := by
      simp [evaluation]
    have hmaps : mappings (h ++ evaluation .alloc a (t₀ ++ t₁) res b) =
        ((rs ++ [b']).map Ptr.mapped).map .acquire ++ releases rel := by
      rw [hsplit, mappings_append, hbefore, mappings_append, hrel.mappings_eq]
      exact congrArg _ (List.append_nil _)
    refine ⟨by simp, ?_, ?_, fun hdone hsizes => ?_⟩
    · rw [hmaps]
      exact proper_search hnd hrel.sublist []
    · rw [hmaps]
      exact mem_after_search hnd hrel.sublist (List.mem_singleton_self b')
    · rw [hsplit, sizesWhileMapped_append (by simp [hbefore]), pageSizes_append, List.mem_append,
        List.mem_append, not_or, not_or] at hsizes
      rw [hmaps] at hdone ⊢
      exact after_search_done (hrel.complete (by simp) hsizes.2.1) fun x hx =>
        hdone x (List.mem_append_right _ hx)

/-! ### The parts of `main` -/

/-- Nothing is mapped yet. -/
def NotYet (buffer : Ptr) (h : List Event) : Prop := buffer = .null ∧ mappings h = []

/-- How `main` may go on from an early exit: nothing is left to do, or the buffer is for
`FINALIZE`. -/
def ExitOwns : Option (Exit × Locals) → List Event → Prop
  | none, h => Promised h → Proper [] (mappings h)
  | some (.failure, _), h => mappings h = []
  | some (.finalize, s), h => Promised h → Owns s.buffer h

/-- The parts of `main` before the allocation. -/
theorem triple_notYet {α κ : Type} {K : List Kind} {f : Locals → κ} {m : Main α}
    (hm : Cmd.Frame (fun e => e.1.kind ∈ K) f m) (g : κ → Ptr) (hg : ∀ s, g (f s) = s.buffer)
    (hK : Kind.memory ∉ K) :
    Cmd.Triple (fun s h => NotYet s.buffer h) m (fun _ s h => NotYet s.buffer h) ExitOwns := by
  have htriple := (hm.mono (fun _ h => h) g).triple (I := NotYet) fun b h e he hI => by
    refine ⟨hI.1, ?_⟩
    rw [mappings_append, hI.2, mappings_singleton_of_kind (ne_of_mem_of_not_mem he hK)]
    rfl
  simp only [hg] at htriple
  refine htriple.mono_exit fun x h ⟨b, ⟨hb, hnil⟩, hx⟩ => ?_
  rcases x with _ | ⟨_ | _, s⟩
  · intro _
    rw [hnil]
    trivial
  · exact fun _ => .inl ⟨(hx _ _ rfl).trans hb, hnil⟩
  · exact hnil

/-- The parts of `main` after it. -/
theorem triple_owns {α κ : Type} {K : List Kind} {f : Locals → κ} {m : Main α}
    (hm : Cmd.Frame (fun e => e.1.kind ∈ K) f m) (g : κ → Ptr) (hg : ∀ s, g (f s) = s.buffer)
    (hK : Kind.memory ∉ K)
    (hexit : Cmd.Triple (fun _ _ => True) m (fun _ _ _ => True)
      fun x _ => ∀ s, x ≠ some (.failure, s)) :
    Cmd.Triple (fun s h => Promised h → Owns s.buffer h) m
      (fun _ s h => Promised h → Owns s.buffer h) ExitOwns := by
  have htriple := (hm.mono (fun _ h => h) g).triple
    (I := fun buffer h => Promised h → Owns buffer h) fun b h e he hI hp =>
      (hI hp.of_append).append (mappings_singleton_of_kind (ne_of_mem_of_not_mem he hK))
  simp only [hg] at htriple
  refine (htriple.and hexit).mono (fun _ _ h => ⟨h, trivial⟩) (fun _ _ _ h => h.1)
    fun x h ⟨⟨b, hI, hx⟩, hne⟩ => ?_
  rcases x with _ | ⟨_ | _, s⟩
  · exact fun hp => (hI hp).proper
  · exact fun hp => (hx _ _ rfl).symm ▸ hI hp
  · exact absurd rfl (hne s)

section

variable {h u : List Event} {res : ErrorT} {a : Answer (.enter .alloc)}
  {b : Answer (.leave .alloc res)}

/-- What is promised of one evaluation. -/
theorem Promised.evaluation {w : List Event} (hkinds : ∀ e ∈ u, e.1.kind ≠ .step)
    (hp : Promised (h ++ evaluation .alloc a u res b ++ w)) :
    Fresh [] (mappings u) ∧ CleanAllocation u := by
  obtain ⟨v, hfresh, hclean, -⟩ := hp
  rw [List.append_assoc, List.append_assoc] at hfresh hclean
  refine ⟨?_, hclean u ?_⟩
  · rw [mappings_append, mappings_append] at hfresh
    have hmaps : mappings (CacheNoise.evaluation .alloc a u res b) = mappings u := by
      rw [CacheNoise.evaluation, mappings_append]
      exact List.append_nil _
    have hfresh' := (along_append.mp (along_append.mp hfresh).2).1
    exact Fresh.mono (hmaps ▸ hfresh') List.nil_subperm
  · refine (allocations_append h _).subset ?_
    rw [allocations_evaluation hkinds]
    exact List.mem_cons_self

/-- What is promised of two evaluations. -/
theorem Promised.two_evaluations {u' w : List Event} {res' : ErrorT} {a' : Answer (.enter .alloc)}
    {b' : Answer (.leave .alloc res')} (hkinds : ∀ e ∈ u, e.1.kind ≠ .step)
    (hkinds' : ∀ e ∈ u', e.1.kind ≠ .step)
    (hp : Promised (h ++ CacheNoise.evaluation .alloc a u res b ++
      (CacheNoise.evaluation .alloc a' u' res' b' ++ w))) : tries u = [] ∨ tries u' = [] := by
  obtain ⟨v, -, -, hpairs, -⟩ := hp
  rw [List.append_assoc, List.append_assoc, List.append_assoc] at hpairs
  have hsuffix := hpairs.sublist (allocations_append h _).sublist
  rw [allocations_evaluation hkinds, allocations_evaluation hkinds', List.pairwise_cons] at hsuffix
  exact hsuffix.1 u' List.mem_cons_self

end

section

variable {s : Locals} {u : List Event}

theorem allocStep_run {o : Option (ErrorT × Locals)} (h : (allocStep s).Run u o) :
    (∃ res buffer, (allocAligned s.cache s.buffer).Run u (some (res, buffer)) ∧
      o = some (res, { s with buffer })) ∨
    ((allocAligned s.cache s.buffer).Run u none ∧ o = none) := by
  rcases Prog.run_bind.mp h with ⟨u₁, u₂, ⟨res, buffer⟩, rfl, h₁, rfl, rfl⟩ | ⟨rfl, h₁⟩
  · rw [List.append_nil]
    exact .inl ⟨res, buffer, h₁, rfl⟩
  · exact .inr ⟨h₁, rfl⟩

theorem allocStep_kinds {o : Option (ErrorT × Locals)} (h : (allocStep s).Run u o) :
    ∀ e ∈ u, e.1.kind ≠ .step := by
  have honly : Only [.setup, .memory] (allocStep s) :=
    (only_allocAligned _ _).bind fun _ => only_pure _
  intro e he hk
  have hmem : e.1.kind ∈ [Kind.setup, .memory] := honly u o h e he
  rw [hk] at hmem
  simp at hmem

variable {h w : List Event} {res : ErrorT} {s' : Locals} {a : Answer (.enter .alloc)}
  {b : Answer (.leave .alloc res)}

theorem mappings_evaluation :
    mappings (evaluation .alloc a u res b) = mappings u := by
  rw [evaluation, mappings_append]
  exact List.append_nil _

/-- An evaluation before anything is mapped. -/
theorem notYet_evaluation (hrun : (allocStep s).Run u (some (res, s')))
    (hnot : NotYet s.buffer h) (hp : Promised (h ++ evaluation .alloc a u res b ++ w)) :
    (tries u = [] ∧ res ≠ errorNone ∧ NotYet s'.buffer (h ++ evaluation .alloc a u res b)) ∨
      (tries u ≠ [] ∧ res = errorNone ∧ Owns s'.buffer (h ++ evaluation .alloc a u res b)) := by
  obtain ⟨hfresh, hclean⟩ := hp.evaluation (allocStep_kinds hrun)
  rcases allocStep_run hrun with ⟨res', buffer, halloc, ho⟩ | ⟨-, ho⟩
  · obtain ⟨rfl, rfl⟩ := Prod.mk.inj (Option.some_injective _ ho)
    rcases owns_evaluation (a := a) (b := b) halloc hnot.2 hfresh hclean with
      ⟨htries, hmaps, hres, rfl⟩ | howns
    · refine .inl ⟨htries, hres, hnot.1, ?_⟩
      rw [mappings_append, hnot.2, mappings_evaluation, hmaps]
      rfl
    · exact .inr howns
  · exact absurd ho (by simp)

/-- An evaluation that maps nothing. -/
theorem owns_evaluation_quiet (hrun : (allocStep s).Run u (some (res, s')))
    (howns : Owns s.buffer h) (hp : Promised (h ++ evaluation .alloc a u res b ++ w))
    (htries : tries u = []) : Owns s'.buffer (h ++ evaluation .alloc a u res b) := by
  obtain ⟨hfresh, -⟩ := hp.evaluation (allocStep_kinds hrun)
  rcases allocStep_run hrun with ⟨res', buffer, halloc, ho⟩ | ⟨-, ho⟩
  · obtain ⟨rfl, rfl⟩ := Prod.mk.inj (Option.some_injective _ ho)
    obtain ⟨hmaps, err, -, ho'⟩ := allocAligned_quiet halloc hfresh htries
    obtain ⟨-, rfl⟩ := Prod.mk.inj (Option.some_injective _ ho')
    exact howns.append (mappings_evaluation.trans hmaps)
  · exact absurd ho (by simp)

end

/-- An evaluation that does not return. -/
theorem proper_stuck {s : Locals} {h u : List Event} {a : Answer (.enter .alloc)}
    (hrun : (allocStep s).Run u none) (hbefore : Proper [] (mappings h))
    (hp : Promised (h ++ ⟨.enter .alloc, a⟩ :: u)) :
    Proper [] (mappings (h ++ ⟨.enter .alloc, a⟩ :: u)) := by
  obtain ⟨v, hfresh, -⟩ := hp
  have hmaps : mappings (⟨.enter .alloc, a⟩ :: u) = mappings u := rfl
  rw [mappings_append, mappings_append, hmaps] at hfresh
  rw [mappings_append, hmaps]
  refine along_append.mpr ⟨hbefore, ?_⟩
  have hfresh' := (along_append.mp (along_append.mp hfresh).1).2
  rcases allocStep_run hrun with ⟨res, buffer, -, ho⟩ | ⟨halloc, -⟩
  · exact absurd ho (by simp)
  · exact allocAligned_stuck halloc (Fresh.mono hfresh' List.nil_subperm) _

theorem triple_alloc (leftToRight : Bool) :
    Cmd.Triple (fun s h => NotYet s.buffer h) (exitOnFail leftToRight .alloc allocStep)
      (fun _ s h => Promised h → Owns s.buffer h) ExitOwns := by
  rintro s h t o ⟨hnull, hempty⟩ hrun
  rcases exitOnFail_run hrun with ⟨a, u, s', b, rfl, hbody, rfl⟩ | ⟨a, u, rfl, hbody, rfl⟩ |
    ⟨a, u, res, s₁, b, t', rfl, hres, hbody, hfail⟩
  · intro hp
    rw [← List.append_nil (h ++ _)] at hp
    rcases notYet_evaluation hbody ⟨hnull, hempty⟩ hp with ⟨-, hres, -⟩ | ⟨-, -, howns⟩
    · exact absurd rfl hres
    · exact howns
  · intro hp
    exact proper_stuck hbody (by rw [hempty]; trivial) hp
  · -- the first evaluation has failed, so it has mapped nothing
    have hfirst : Promised (h ++ (evaluation .alloc a u res b ++ t')) →
        NotYet s₁.buffer (h ++ evaluation .alloc a u res b) := fun hp => by
      rw [← List.append_assoc] at hp
      rcases notYet_evaluation hbody ⟨hnull, hempty⟩ hp with ⟨-, -, hnot⟩ | ⟨-, hnone, -⟩
      · exact hnot
      · exact absurd hnone hres
    rcases failStep_run hfail with ⟨a', u', rfl, hbody', rfl⟩ |
      ⟨a', u', res', s₂, b', a'', u'', rfl, hbody', hbody'', rfl⟩ |
        ⟨a', u', res', s₂, b', a'', u'', res'', s₃, b'', c, rfl, hbody', hbody'', rfl⟩
    · intro hp
      have hnot := hfirst hp
      rw [← List.append_assoc] at hp ⊢
      exact proper_stuck hbody' (by rw [hnot.2]; trivial) hp
    · intro hp
      have hnot := hfirst hp
      rw [← List.append_assoc, ← List.append_assoc] at hp ⊢
      refine proper_stuck hbody'' ?_ hp
      rcases notYet_evaluation hbody' hnot hp with ⟨-, -, hnot'⟩ | ⟨-, -, howns⟩
      · exact Owns.proper (.inl hnot')
      · exact howns.proper
    · intro hp
      have hnot := hfirst hp
      rw [List.append_assoc, ← List.append_assoc, ← List.append_assoc] at hp
      rw [← List.append_assoc, ← List.append_assoc, ← List.append_assoc]
      refine Owns.append ?_ rfl
      rcases notYet_evaluation hbody' hnot hp with ⟨-, -, hnot'⟩ | ⟨htries, -, howns⟩
      · rw [← List.append_assoc] at hp
        rcases notYet_evaluation hbody'' hnot' hp with ⟨-, -, hnot''⟩ | ⟨-, -, howns⟩
        · exact .inl hnot''
        · exact howns
      · have hquiet := (hp.two_evaluations (allocStep_kinds hbody')
          (allocStep_kinds hbody'')).resolve_left htries
        rw [← List.append_assoc] at hp
        exact owns_evaluation_quiet hbody'' howns hp hquiet

/-! ### Whole runs -/

section

variable (leftToRight : Bool)

theorem triple_mainBody_owns (fuel : ℕ) :
    Cmd.Triple (fun s h => NotYet s.buffer h) (mainBody leftToRight fuel)
      (fun _ s h => Promised h → Owns s.buffer h) ExitOwns := by
  have hget : Cmd.Triple (fun s h => NotYet s.buffer h) (Cmd.get : Main Locals)
      (fun _ s h => NotYet s.buffer h) ExitOwns := Cmd.triple_get fun _ _ h => h
  have hsetUp := triple_notYet (frame_setUp leftToRight) (fun x => x.2.1) (fun _ => rfl) (by simp)
  have hrights := triple_notYet (frame_checkRights leftToRight) (fun s => s.buffer) (fun _ => rfl)
    (by simp)
  have hbench := triple_notYet (frame_benchMode leftToRight) (fun x => x.2.1) (fun _ => rfl)
    (by simp)
  have hopen := triple_notYet (frame_openOutput leftToRight) (fun x => x.1) (fun _ => rfl) (by simp)
  have hstart := triple_owns (frame_startExternal leftToRight) (fun s => s.buffer) (fun _ => rfl)
    (by simp) (neverFails_startExternal leftToRight)
  have halarm := triple_owns frame_setAlarm (fun s => s.buffer) (fun _ => rfl) (by simp)
    neverFails_setAlarm
  have hprofile := triple_owns (frame_profile leftToRight fuel) (fun x => x.1) (fun _ => rfl)
    (by simp) (neverFails_exitOnFail leftToRight _ _)
  have hkill := triple_owns frame_killExternal (fun s => s.buffer) (fun _ => rfl) (by simp)
    neverFails_killExternal
  refine hsetUp.bind fun _ => hget.bind fun s => ?_
  refine Cmd.Triple.ite (fun _ => Cmd.triple_pure fun _ _ h _ => .inl h) fun _ => ?_
  refine hrights.bind fun _ => Cmd.Triple.bind ?_ fun _ => hkill
  refine hget.bind fun s => Cmd.Triple.ite (fun _ => ?_) fun _ => Cmd.Triple.ite (fun _ => ?_)
    fun _ => Cmd.triple_throw fun s h hI _ => .inl hI
  · exact hbench.mono (fun _ _ h => h) (fun _ _ _ h _ => .inl h) fun _ _ h => h
  · exact hopen.bind fun _ => (triple_alloc leftToRight).bind fun _ => hstart.bind fun _ =>
      halarm.bind fun _ => hprofile

/-- What is mapped when the body of `main` is done: the buffer, or nothing if the run exits. -/
def LeftOver (t : List Event) : Option (Except Exit Unit × Locals) → Prop
  | some (.error .failure, _) => mappings t = []
  | some (_, s) => Owns s.buffer t
  | none => Proper [] (mappings t)

/-- `FINALIZE` unmaps the buffer that is owned. -/
theorem owns_finalize {s : Locals} {t u : List Event} {o : Option Unit}
    (hrun : (finalize s).Run u o) (howns : Owns s.buffer t) :
    Proper [] (mappings (t ++ u)) ∧
      (o ≠ none → (∀ x ∈ mappings (t ++ u), x.Done) → none ∉ sizesWhileMapped (t ++ u) →
        after [] (mappings (t ++ u)) = []) := by
  have hclose : ∀ {u o}, (outputClose s.output).Run u o → mappings u = [] := fun hu =>
    (unmapped_of_kinds fun e he hk => by
      have hmem : e.1.kind ∈ [Kind.closing] := only_outputClose _ _ _ hu e he
      rw [hk] at hmem
      simp at hmem).2
  rcases Prog.run_bind.mp hrun with ⟨u₁, u₂, _, rfl, h₁, h₂⟩ | ⟨rfl, h₁⟩
  swap
  · exact ⟨(howns.append (hclose h₁)).proper, fun h => absurd rfl h⟩
  have howns' := howns.append (hclose h₁)
  rw [← List.append_assoc]
  rcases howns' with ⟨hnull, hempty⟩ | ⟨hne, howned⟩
  · rw [if_neg (not_not.mpr hnull)] at h₂
    obtain ⟨rfl, -⟩ := h₂
    rw [List.append_nil, hempty]
    exact ⟨trivial, fun _ _ _ => rfl⟩
  · rw [if_pos hne] at h₂
    have hfree : ∃ o' rel, Releasing [s.buffer] u₂ o' rel ∧ (o ≠ none → o' ≠ none) := by
      rcases Prog.run_bind.mp h₂ with ⟨u₃, u₄, res, rfl, h₃, rfl, -⟩ | ⟨rfl, h₃⟩
      · obtain ⟨rel, hrel⟩ := freeAligned_run h₃
        exact ⟨some res, rel, by rwa [List.append_nil], fun _ => by simp⟩
      · obtain ⟨rel, hrel⟩ := freeAligned_run h₃
        exact ⟨none, rel, hrel, fun h => absurd rfl h⟩
    obtain ⟨o', rel, hrel, ho'⟩ := hfree
    rw [mappings_append, hrel.mappings_eq]
    refine ⟨along_append.mpr ⟨howned.proper, ?_⟩, fun ho hdone hsizes => ?_⟩
    · refine proper_releases (hrel.sublist.nodup (List.nodup_singleton _)) fun p hp => ?_
      rw [List.mem_singleton.mp (hrel.sublist.subset hp)]
      exact howned.held
    · rw [sizesWhileMapped_append howned.mappings_ne_nil, List.mem_append, not_or] at hsizes
      rw [after_append, howned.only (fun x hx => hdone x (List.mem_append_left _ hx)) hsizes.1,
        after_releases_done _ fun x hx => hdone x (List.mem_append_right _ hx),
        hrel.complete (ho' ho) hsizes.2]
      simp

/-- **What `main` unmaps**: `munmap` is only called on mappings that `alloc_aligned` has made and
that are still there; and when `main` returns and every `munmap` has succeeded, all of them are
gone. This holds in every run in which the allocations are clean. -/
theorem main_unmapsOnce (fuel : ℕ) (arguments : Arguments) (garbage : Locals) (t : List Event)
    (o : Option ℤ) (h : (main leftToRight fuel arguments garbage).Run t o)
    (hfresh : Fresh [] (mappings t)) (hclean : CleanAllocations t) :
    Proper [] (mappings t) ∧
      (o ≠ none → (∀ x ∈ mappings t, x.Done) → after [] (mappings t) = []) := by
  have hbody : ∀ t₁ o', (mainBody leftToRight fuel
      { garbage with arguments, buffer := .null }).Run t₁ o' → Promised t₁ → LeftOver t₁ o' := by
    intro t₁ o' h₁ hp
    have hq := triple_mainBody_owns leftToRight fuel _ [] t₁ o' ⟨rfl, rfl⟩ h₁
    rcases o' with _ | ⟨(_ | _) | _, _⟩
    · exact hq hp
    · exact hq hp
    · exact hq
    · exact hq hp
  rcases main_run leftToRight h with ⟨t₁, t₂, r, s, o', rfl, hr, h₁, h₂, rfl⟩ | ⟨s, h₁, rfl⟩ |
    ⟨h₁, rfl⟩
  · have hp : Promised t₁ := ⟨t₂, hfresh, hclean⟩
    have howns : Owns s.buffer t₁ := by
      have hq := hbody t₁ _ h₁ hp
      rcases r with (_ | _) | _
      · exact hq
      · exact absurd rfl hr
      · exact hq
    obtain ⟨hproper, hafter⟩ := owns_finalize h₂ howns
    refine ⟨hproper, fun ho hdone => hafter ?_ hdone (hclean.2.2 hdone)⟩
    rintro rfl
    exact ho rfl
  · have hnil := hbody t _ h₁ ⟨[], by simpa using ⟨hfresh, hclean⟩⟩
    rw [show mappings t = [] from hnil]
    exact ⟨trivial, fun _ _ => rfl⟩
  · exact ⟨hbody t _ h₁ ⟨[], by simpa using ⟨hfresh, hclean⟩⟩, fun ho => absurd rfl ho⟩

end

/-- A machine without huge pages to map. -/
def mmapFails (h : List Event) : (c : Call) → Answer c
  | .mmap _ => ⟨[], none⟩
  | c => goodMachine h c

/-- When the second buffer is the aligned one, both are unmapped in the end. -/
theorem main_unmapsOnce_secondTry :
    after [] (mappings ((main true 1 (defaultArguments "profile") zeroStack).exec
      (secondTry (some errorNone)) []).1) = [] :=
  (main_unmapsOnce true 1 _ _ _ _ (Prog.run_exec (secondTry (some errorNone)) _ []) (by decide)
    (by decide)).2 (by decide) (by decide)

/-- When the first `mmap` fails, `FINALIZE` calls `munmap` on `MAP_FAILED`. -/
theorem main_unmaps_mapFailed :
    ¬ ∀ (leftToRight : Bool) (fuel : ℕ) (arguments : Arguments) (garbage : Locals)
      (t : List Event) (o : Option ℤ), (main leftToRight fuel arguments garbage).Run t o →
        Fresh [] (mappings t) → Proper [] (mappings t) ∧
          (o ≠ none → (∀ x ∈ mappings t, x.Done) → after [] (mappings t) = []) := by
  intro h
  have hrun := h true 1 (defaultArguments "profile") zeroStack _ _
    (Prog.run_exec mmapFails _ []) (by decide)
  exact absurd hrun.1 (by decide)

end CacheNoise
