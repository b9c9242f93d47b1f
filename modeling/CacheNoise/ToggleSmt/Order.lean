import CacheNoise.General.Attempts
import CacheNoise.ToggleSmt.Disable

/-!
# The order in which the CPUs are listed

A run of the script with the state of the CPUs when it ends (`toggleSmtUntil`), also when it ends
by an exception: that happens where a CPU without the file `online` is to be switched off, and the
calls before it have been done by then.

The CPUs of a core are sorted by their ids, as printing them does, and the cores by theirs, so that
the calls come in the same order whatever order the directories are listed in
(`pairwise_allTargets`). There is one exception. The CPUs that are offline are sorted like a core
with the id 9999, and if there is such a core, the two come in the order in which they are listed.
This matters if and only if the run ends in that core (`Collision`, `orderIrrelevant_iff`).
-/

namespace CacheNoise

/-! ### Runs with exceptions -/

/-- What `enable_smt` does with the CPUs of a core. -/
def PhysicalCpuCore.enableTargets (core : PhysicalCpuCore) : List Target :=
  core.theoreticalCores.map fun t => (t, true)

/-- The calls of `enable` and `disable` in a run of `main`, in their order. -/
def calls (choice : Choice) (cpus : List Cpu) : List Target :=
  match choice with
  | .enable => (printedCores cpus).flatMap PhysicalCpuCore.enableTargets
  | .disable => allTargets cpus
  | .other => []

/-- `main` of `toggleSMT.py`: the CPUs when it ends, and whether it raises no exception. -/
def toggleSmtUntil (choice : Choice) (cpus : List Cpu) : List Cpu × Bool :=
  Attempts.run put cpus (calls choice cpus)

theorem foldlM_enableSmt (printed : List PhysicalCpuCore) (cpus : List Cpu) :
    printed.foldlM (fun cpus core => core.enableSmt cpus) cpus =
      (printed.flatMap PhysicalCpuCore.enableTargets).foldlM put cpus := by
  induction printed generalizing cpus with
  | nil => rfl
  | cons core printed ih =>
    rw [List.foldlM_cons, List.flatMap_cons, List.foldlM_append, PhysicalCpuCore.enableSmt,
      PhysicalCpuCore.enableTargets, List.foldlM_map]
    exact congrArg _ (funext ih)

/-- **The two models agree** on the runs without an exception. -/
theorem toggleSmt_eq_some_iff {choice : Choice} {cpus cpus' : List Cpu} :
    toggleSmt choice cpus = some cpus' ↔ toggleSmtUntil choice cpus = (cpus', true) := by
  rw [toggleSmtUntil, Attempts.run_eq_iff]
  cases choice with
  | enable => rw [calls, ← foldlM_enableSmt, toggleSmt]
  | disable => rw [calls, toggleSmt_eq_foldlM]
  | other => exact Iff.rfl

/-! ### The first call that fails -/

/-- The file of the CPU is missing, and it would be written. -/
def fails (cpus : List Cpu) (p : Target) : Bool :=
  p.1.online && !p.2 && cpus.all fun c => c.id ≠ p.1.id || c.online.isNone

section

variable {targets : List Target} {cpus : List Cpu}

theorem fails_iff {p : Target} : fails cpus p = true ↔
    p.1.online = true ∧ p.2 = false ∧ ∀ c ∈ cpus, c.id = p.1.id → c.online = none := by
  simp only [fails, Bool.and_eq_true, Bool.not_eq_true', List.all_eq_true, Bool.or_eq_true,
    decide_eq_true_eq, Option.isNone_iff_eq_none, and_assoc, ne_eq, imp_iff_not_or]

/-- A call that fails still does after calls for other CPUs. -/
theorem put_of_fails {p : Target} (hother : ∀ q ∈ targets, q.1.id ≠ p.1.id)
    (h : fails cpus p = true) : put (cpus.map (Cpu.after targets)) p = none := by
  obtain ⟨honline, hvalue, hnone⟩ := fails_iff.mp h
  have hrun : put (cpus.map (Cpu.after targets)) p =
      write p.1.id false (cpus.map (Cpu.after targets)) := by
    rw [put, hvalue, if_neg (by decide), TheoreticalCpuCore.disable, if_pos honline]
  rw [hrun, write, if_neg]
  rintro ⟨c', hc', hid, hfile⟩
  obtain ⟨c, hc, rfl⟩ := List.mem_map.mp hc'
  by_cases hcid : c.id = p.1.id
  · rw [after_of_notMem fun q hq hq' => hother q hq (hq'.trans hcid)] at hfile
    exact hfile (hnone c hc hcid)
  · exact hcid ((after_id targets c).symm.trans hid)

/-- **The CPUs when the run ends**: the calls before the first that fails have been done. -/
theorem run_put (hids : (cpus.map Cpu.id).Nodup)
    (hnodup : (targets.map fun p => p.1.id).Nodup)
    (hread : ∀ p ∈ targets, ∀ c ∈ cpus, c.id = p.1.id → c.isOnline = p.1.online)
    (hlisted : ∀ p ∈ targets, ∃ c ∈ cpus, c.id = p.1.id) :
    (Attempts.run put cpus targets).1 =
      cpus.map (Cpu.after (targets.takeWhile fun p => !fails cpus p)) := by
  obtain ⟨done, rest, hsplit, htake, hgood, hrest⟩ :=
    Attempts.exists_takeWhile (fun p => !fails cpus p) targets
  rw [htake]
  have hmem : ∀ p ∈ done, p ∈ targets := fun p hp => hsplit ▸ List.mem_append_left rest hp
  have hnodup' : (done.map fun p => p.1.id).Nodup := by
    rw [hsplit] at hnodup
    exact ((List.sublist_append_left done rest).map _).nodup hnodup
  have hread' := fun p hp => hread p (hmem p hp)
  obtain ⟨cpus', hdone⟩ := foldlM_put_isSome hnodup' hread' fun p hp => by
    obtain ⟨c, hc, hid⟩ := hlisted p (hmem p hp)
    refine ⟨c, hc, hid, fun hnone => ?_⟩
    by_contra hvalue
    have honline : p.1.online = true := by
      rw [← hread' p hp c hc hid, Cpu.isOnline, hnone]
      rfl
    have hfails : fails cpus p = true := fails_iff.mpr
      ⟨honline, Bool.eq_false_iff.mpr hvalue, fun d hd hdid =>
        eq_of_id_eq hids hd hc (hdid.trans hid.symm) ▸ hnone⟩
    exact absurd hfails (by simpa using hgood p hp)
  obtain rfl := foldlM_put hnodup' hread' hdone
  obtain rfl | ⟨p, rest, rfl, hp⟩ := hrest
  · rw [List.append_nil] at hsplit
    rw [hsplit, Attempts.run_eq_iff.mpr hdone]
  · have hfails : fails cpus p = true := by simpa using hp
    have hother : ∀ q ∈ done, q.1.id ≠ p.1.id := by
      rw [hsplit, List.map_append, List.nodup_append] at hnodup
      exact fun q hq => hnodup.2.2 _ (List.mem_map_of_mem hq) _ List.mem_cons_self
    rw [hsplit, Attempts.run_of_fails hdone (put_of_fails hother hfails)]

end

/-! ### The order of the calls -/

/-- What the physical cores are sorted by. -/
def sortKey (physicalId : Option ℤ) : ℤ := physicalId.getD 9999

theorem pairwise_printedCores (cpus : List Cpu) :
    (printedCores cpus).Pairwise fun a b => sortKey a.id ≤ sortKey b.id := by
  rw [printedCores, List.pairwise_map]
  have htotal : Std.Total fun a b : PhysicalCpuCore => a.id.getD 9999 ≤ b.id.getD 9999 :=
    ⟨fun a b => le_total _ _⟩
  have htrans : IsTrans PhysicalCpuCore fun a b => a.id.getD 9999 ≤ b.id.getD 9999 :=
    ⟨fun _ _ _ => le_trans⟩
  exact List.pairwise_insertionSort (fun a b : PhysicalCpuCore => a.id.getD 9999 ≤ b.id.getD 9999) _

/-- A call can stand before another one. -/
def Before (p q : Target) : Prop :=
  sortKey p.1.physicalId ≤ sortKey q.1.physicalId ∧
    (p.1.physicalId = q.1.physicalId → p.1.id ≤ q.1.id)

theorem physicalId_of_mem_targets {cpus : List Cpu} {core : PhysicalCpuCore}
    (hcore : core ∈ printedCores cpus) {p : Target} (hp : p ∈ core.targets) :
    p.1.physicalId = core.id := by
  have hfst : p.1 ∈ core.theoreticalCores := map_fst_targets core ▸ List.mem_map_of_mem hp
  obtain ⟨c, -, -, hid⟩ := (mem_members hcore).mp hfst
  exact hid

/-- The calls are in the order of the cores, and within a core in that of the ids. -/
theorem pairwise_allTargets (cpus : List Cpu) : (allTargets cpus).Pairwise Before := by
  have hprinted := printed_printedCores cpus
  rw [allTargets, List.pairwise_flatMap]
  constructor
  · intro core hcore
    have hsorted : (core.targets.map Prod.fst).Pairwise fun a b => a.id ≤ b.id :=
      map_fst_targets core ▸ hprinted.sorted core hcore
    refine (List.pairwise_map.mp hsorted).imp_of_mem fun hp hq hle => ⟨?_, fun _ => hle⟩
    rw [physicalId_of_mem_targets hcore hp, physicalId_of_mem_targets hcore hq]
  · have hkeys := (pairwise_printedCores cpus).and (List.pairwise_map.mp hprinted.nodup)
    refine hkeys.imp_of_mem fun hcore hcore' hle p hp q hq => ?_
    rw [Before, physicalId_of_mem_targets hcore hp, physicalId_of_mem_targets hcore' hq]
    exact ⟨hle.1, fun heq => absurd heq hle.2⟩

section

variable {cpus : List Cpu}

/-- A CPU that is to be switched off and has no file. -/
def Unwritable (cpus : List Cpu) (c : Cpu) : Prop := c.online = none ∧ ¬ Leads cpus c

instance (cpus : List Cpu) (c : Cpu) : Decidable (Unwritable cpus c) :=
  inferInstanceAs (Decidable (c.online = none ∧ ¬ Leads cpus c))

/-- The call for a CPU fails, or one for a CPU that comes before it in any order. -/
def Blocked (cpus : List Cpu) (c : Cpu) : Prop :=
  ∃ f ∈ cpus, Unwritable cpus f ∧
    (sortKey f.theoretical.physicalId < sortKey c.theoretical.physicalId ∨
      f.theoretical.physicalId = c.theoretical.physicalId ∧ f.id ≤ c.id)

instance (cpus : List Cpu) (c : Cpu) : Decidable (Blocked cpus c) :=
  inferInstanceAs (Decidable (∃ f ∈ cpus, Unwritable cpus f ∧ _))

/-- The CPU in the end. -/
def settled (cpus : List Cpu) (c : Cpu) : Cpu :=
  if Blocked cpus c then c else c.set (Leads cpus c)

/-- The CPUs that are offline are sorted like a core with the id 9999, and that core has a CPU
at which a run can end. -/
def Collision (cpus : List Cpu) : Prop :=
  (∃ c ∈ cpus, c.isOnline = false) ∧ (∃ f ∈ cpus, Unwritable cpus f ∧ f.coreId = 9999) ∧
    ∀ f ∈ cpus, Unwritable cpus f → 9999 ≤ f.coreId

instance (cpus : List Cpu) : Decidable (Collision cpus) :=
  inferInstanceAs (Decidable (_ ∧ _ ∧ ∀ f ∈ cpus, Unwritable cpus f → _))

theorem Unwritable.isOnline {f : Cpu} (h : Unwritable cpus f) : f.isOnline = true := by
  rw [Cpu.isOnline, h.1]
  rfl

theorem Unwritable.physicalId {f : Cpu} (h : Unwritable cpus f) :
    f.theoretical.physicalId = some f.coreId := theoretical_of_online h.isOnline

/-- If a CPU of another core is sorted like one at which a run can end, it is offline. -/
theorem Unwritable.offline_of_sortKey {f c : Cpu} (hbad : Unwritable cpus f)
    (hkey : sortKey f.theoretical.physicalId = sortKey c.theoretical.physicalId)
    (hphys : f.theoretical.physicalId ≠ c.theoretical.physicalId) :
    c.isOnline = false ∧ f.coreId = 9999 := by
  have hoff : c.isOnline = false := by
    by_contra hon
    rw [Bool.not_eq_false] at hon
    rw [hbad.physicalId, theoretical_of_online hon] at hkey hphys
    exact hphys (congrArg some hkey)
  rw [hbad.physicalId, theoretical_of_offline (Bool.eq_false_iff.mp hoff)] at hkey
  exact ⟨hoff, hkey⟩

/-- Apart from a collision, a run that can end at the core 9999 can end before it, and before the
CPUs that are offline. -/
theorem exists_before_offline (hcollision : ¬ Collision cpus) {f c : Cpu} (hf : f ∈ cpus)
    (hbad : Unwritable cpus f) (hcore : f.coreId = 9999) (hc : c ∈ cpus)
    (hoff : c.isOnline = false) : ∃ g ∈ cpus, Unwritable cpus g ∧
      sortKey g.theoretical.physicalId < sortKey c.theoretical.physicalId := by
  have hless : ¬ ∀ g ∈ cpus, Unwritable cpus g → 9999 ≤ g.coreId := fun hall =>
    hcollision ⟨⟨c, hc, hoff⟩, ⟨f, hf, hbad, hcore⟩, hall⟩
  simp only [not_forall, not_le] at hless
  obtain ⟨g, hg, hgbad, hlt⟩ := hless
  refine ⟨g, hg, hgbad, ?_⟩
  rw [hgbad.physicalId, theoretical_of_offline (Bool.eq_false_iff.mp hoff)]
  exact hlt

variable (hids : (cpus.map Cpu.id).Nodup)

include hids

/-- A call fails if and only if it would switch off a CPU without a file. -/
theorem fails_target_iff {c : Cpu} (hc : c ∈ cpus) :
    fails cpus (c.theoretical, decide (Leads cpus c)) = true ↔ Unwritable cpus c := by
  rw [fails_iff, decide_eq_false_iff_not]
  constructor
  · rintro ⟨-, hleads, hnone⟩
    exact ⟨hnone c hc rfl, hleads⟩
  · intro h
    exact ⟨h.isOnline, h.2, fun d hd hid => eq_of_id_eq hids hd hc hid ▸ h.1⟩

/-- **The CPUs when a run with `d` ends**: the CPUs with a call before the first that fails are
as they should be, and the others as they were. -/
theorem toggleSmtUntil_disable : (toggleSmtUntil .disable cpus).1 = cpus.map fun c =>
    if (c.theoretical, decide (Leads cpus c)) ∈
        (allTargets cpus).takeWhile fun p => !fails cpus p
    then c.set (Leads cpus c) else c := by
  have hlisted : ∀ p ∈ allTargets cpus, ∃ c ∈ cpus, c.id = p.1.id := fun p hp => by
    obtain ⟨c, hc, rfl⟩ := eq_of_mem_allTargets hids hp
    exact ⟨c, hc, rfl⟩
  have hrun : (toggleSmtUntil .disable cpus).1 =
      cpus.map (Cpu.after ((allTargets cpus).takeWhile fun p => !fails cpus p)) :=
    run_put hids (nodup_allTargets hids) (read_allTargets hids) hlisted
  rw [hrun]
  exact List.map_congr_left fun c hc => after_eq hids (List.takeWhile_prefix _).subset hc

/-- The calls before and after the one for a CPU. -/
theorem exists_split {c : Cpu} (hc : c ∈ cpus) : ∃ pre post,
    allTargets cpus = pre ++ (c.theoretical, decide (Leads cpus c)) :: post ∧
      (c.theoretical, decide (Leads cpus c)) ∉ pre := by
  obtain ⟨pre, post, hsplit⟩ := List.append_of_mem (target_mem hids hc)
  refine ⟨pre, post, hsplit, fun hmem => ?_⟩
  have hnodup := List.Nodup.of_map _ (nodup_allTargets hids)
  rw [hsplit] at hnodup
  exact (List.nodup_append.mp hnodup).2.2 _ hmem _ List.mem_cons_self rfl

/-- A CPU is reached if neither its call nor one before it fails. -/
theorem reached_iff {c : Cpu} (hc : c ∈ cpus) {pre post : List Target}
    (hsplit : allTargets cpus = pre ++ (c.theoretical, decide (Leads cpus c)) :: post)
    (hpre : (c.theoretical, decide (Leads cpus c)) ∉ pre) :
    (c.theoretical, decide (Leads cpus c)) ∈
        (allTargets cpus).takeWhile (fun p => !fails cpus p) ↔
      (∀ f ∈ cpus, (f.theoretical, decide (Leads cpus f)) ∈ pre → ¬ Unwritable cpus f) ∧
        ¬ Unwritable cpus c := by
  rw [hsplit, Attempts.mem_takeWhile_iff hpre]
  simp only [Bool.not_eq_true', ← Bool.not_eq_true, fails_target_iff hids hc]
  refine and_congr_left fun _ => ⟨fun h f hf hmem hbad => ?_, fun h p hp hfails => ?_⟩
  · exact h _ hmem ((fails_target_iff hids hf).mpr hbad)
  · obtain ⟨f, hf, rfl⟩ := eq_of_mem_allTargets hids (hsplit ▸ List.mem_append_left _ hp)
    exact h f hf hp ((fails_target_iff hids hf).mp hfails)

/-- A CPU that is blocked is not reached in any order, and apart from a collision, all others
are. -/
theorem reached_iff_not_blocked (hcollision : ¬ Collision cpus) {c : Cpu} (hc : c ∈ cpus) :
    (c.theoretical, decide (Leads cpus c)) ∈
        (allTargets cpus).takeWhile (fun p => !fails cpus p) ↔ ¬ Blocked cpus c := by
  obtain ⟨pre, post, hsplit, hpre⟩ := exists_split hids hc
  have hbefore := pairwise_allTargets cpus
  rw [hsplit, List.pairwise_append, List.pairwise_cons] at hbefore
  obtain ⟨-, ⟨hpost, -⟩, hleft⟩ := hbefore
  rw [reached_iff hids hc hsplit hpre]
  constructor
  · rintro ⟨hgood, hself⟩ ⟨f, hf, hbad, hrel⟩
    have hmem := target_mem hids hf
    rw [hsplit] at hmem
    obtain hmem | hmem := List.mem_append.mp hmem
    · exact hgood f hf hmem hbad
    obtain heq | hmem := List.mem_cons.mp hmem
    · obtain rfl := eq_of_id_eq hids hf hc
        (congrArg (fun p : Target => p.1.id) heq : f.theoretical.id = c.theoretical.id)
      exact hself hbad
    · obtain ⟨hkey, hid⟩ := hpost _ hmem
      obtain hlt | ⟨hphys, hle⟩ := hrel
      · exact absurd hlt (not_lt.mpr hkey)
      · obtain rfl := eq_of_id_eq hids hf hc (le_antisymm hle (hid hphys.symm))
        exact hself hbad
  · intro hfree
    refine ⟨fun f hf hmem hbad => hfree ?_, fun hbad => hfree ⟨c, hc, hbad, .inr ⟨rfl, le_rfl⟩⟩⟩
    obtain ⟨hkey, hid⟩ := hleft _ hmem _ List.mem_cons_self
    obtain hlt | heq := lt_or_eq_of_le hkey
    · exact ⟨f, hf, hbad, .inl hlt⟩
    by_cases hphys : f.theoretical.physicalId = c.theoretical.physicalId
    · exact ⟨f, hf, hbad, .inr ⟨hphys, hid hphys⟩⟩
    -- the key is shared, so one of the two is offline
    obtain ⟨hoff, hcore⟩ := hbad.offline_of_sortKey heq hphys
    obtain ⟨g, hg, hgbad, hlt⟩ := exists_before_offline hcollision hf hbad hcore hc hoff
    exact ⟨g, hg, hgbad, .inl hlt⟩

/-- Apart from a collision, the order does not matter. -/
theorem toggleSmtUntil_settled (hcollision : ¬ Collision cpus) :
    (toggleSmtUntil .disable cpus).1 = cpus.map (settled cpus) := by
  rw [toggleSmtUntil_disable hids]
  refine List.map_congr_left fun c hc => ?_
  rw [if_congr (reached_iff_not_blocked hids hcollision hc) rfl rfl, settled, ite_not]

end

/-! ### Collisions -/

/-- The core of the CPU that is listed first is printed before those that are not sorted before
it. -/
theorem pair_printedCores {x d : Cpu} {cpus : List Cpu} (hd : d ∈ x :: cpus)
    (hne : d.theoretical.physicalId ≠ x.theoretical.physicalId)
    (hkey : sortKey x.theoretical.physicalId ≤ sortKey d.theoretical.physicalId) :
    ∃ a b, [a, b].Sublist (printedCores (x :: cpus)) ∧ a.id = x.theoretical.physicalId ∧
      b.id = d.theoretical.physicalId := by
  obtain ⟨g, rest, hgroup, hg⟩ := Grouping.exists_group_cons TheoreticalCpuCore.physicalId
    x.theoretical (parseTheoreticalCores cpus)
  obtain ⟨g', hmem, hg', -⟩ := (Grouping.groups_group TheoreticalCpuCore.physicalId
    (parseTheoreticalCores (x :: cpus))).exists_of_mem (List.mem_map_of_mem hd)
  have hparse : parsePhysicalCores (parseTheoreticalCores (x :: cpus)) =
      (⟨g.1, g.2⟩ :: rest.map fun g => ⟨g.1, g.2⟩ : List PhysicalCpuCore) := by
    rw [parsePhysicalCores, parseTheoreticalCores, List.map_cons, ← parseTheoreticalCores, hgroup]
    rfl
  have hrest : g' ∈ rest := by
    rw [parseTheoreticalCores, List.map_cons, ← parseTheoreticalCores, hgroup] at hmem
    refine (List.mem_cons.mp hmem).resolve_left ?_
    rintro rfl
    exact hne (hg'.symm.trans hg)
  have hpair : [(⟨g.1, g.2⟩ : PhysicalCpuCore), ⟨g'.1, g'.2⟩].Sublist
      (parsePhysicalCores (parseTheoreticalCores (x :: cpus))) := by
    rw [hparse]
    exact List.Sublist.cons_cons _
      (List.singleton_sublist.mpr (List.mem_map.mpr ⟨g', hrest, rfl⟩))
  have hle : (⟨g.1, g.2⟩ : PhysicalCpuCore).id.getD 9999 ≤
      (⟨g'.1, g'.2⟩ : PhysicalCpuCore).id.getD 9999 := by
    change sortKey g.1 ≤ sortKey g'.1
    rwa [hg, hg']
  have hsorted := List.pair_sublist_insertionSort
    (r := fun a b : PhysicalCpuCore => a.id.getD 9999 ≤ b.id.getD 9999) hle hpair
  exact ⟨_, _, hsorted.map PhysicalCpuCore.str, hg, hg'⟩

/-- So its calls come first, too. -/
theorem pair_allTargets {x c d : Cpu} {cpus : List Cpu} (hids : ((x :: cpus).map Cpu.id).Nodup)
    (hc : c ∈ x :: cpus) (hd : d ∈ x :: cpus)
    (hcx : c.theoretical.physicalId = x.theoretical.physicalId)
    (hne : d.theoretical.physicalId ≠ x.theoretical.physicalId)
    (hkey : sortKey x.theoretical.physicalId ≤ sortKey d.theoretical.physicalId) :
    [(c.theoretical, decide (Leads (x :: cpus) c)),
      (d.theoretical, decide (Leads (x :: cpus) d))].Sublist (allTargets (x :: cpus)) := by
  obtain ⟨a, b, hpair, ha, hb⟩ := pair_printedCores hd hne hkey
  have hac := target_mem_core hids hc (hpair.subset List.mem_cons_self) (ha.trans hcx.symm)
  have hbd := target_mem_core hids hd
    (hpair.subset (List.mem_cons_of_mem _ List.mem_cons_self)) hb
  have hflat : (a.targets ++ b.targets).Sublist (allTargets (x :: cpus)) := by
    have hsub := hpair.flatMap PhysicalCpuCore.targets
    rwa [List.flatMap_cons, List.flatMap_cons, List.flatMap_nil, List.append_nil] at hsub
  exact ((List.singleton_sublist.mpr hac).append (List.singleton_sublist.mpr hbd)).trans hflat

/-- The order of the CPUs does not change what they are. -/
theorem leads_congr {l cpus : List Cpu} (h : l.Perm cpus) (c : Cpu) :
    Leads l c ↔ Leads cpus c :=
  forall_congr' fun d => by rw [h.mem_iff]

theorem unwritable_congr {l cpus : List Cpu} (h : l.Perm cpus) (c : Cpu) :
    Unwritable l c ↔ Unwritable cpus c := and_congr_right fun _ => not_congr (leads_congr h c)

theorem collision_congr {l cpus : List Cpu} (h : l.Perm cpus) : Collision l ↔ Collision cpus := by
  simp only [Collision, h.mem_iff, unwritable_congr h]

theorem settled_congr {l cpus : List Cpu} (h : l.Perm cpus) (c : Cpu) :
    settled l c = settled cpus c := by
  have hblocked : Blocked l c ↔ Blocked cpus c := by
    simp only [Blocked, h.mem_iff, unwritable_congr h]
  rw [settled, settled, decide_eq_decide.mpr (leads_congr h c)]
  exact if_congr hblocked rfl rfl

theorem toggleSmtUntil_ids {l : List Cpu} (hids : (l.map Cpu.id).Nodup) :
    (toggleSmtUntil .disable l).1.map Cpu.id = l.map Cpu.id := by
  rw [toggleSmtUntil_disable hids, List.map_map]
  refine List.map_congr_left fun c _ => ?_
  rw [Function.comp_apply]
  split
  · exact Cpu.set_id _ c
  · rfl

section

variable {cpus : List Cpu} (hids : (cpus.map Cpu.id).Nodup)

include hids

/-- If a CPU at which the run ends is listed first, the CPUs that are offline stay so. -/
theorem mem_of_unwritable_first {f u : Cpu} (hf : f ∈ cpus) (hu : u ∈ cpus)
    (hbad : Unwritable cpus f) (hcore : f.coreId = 9999) (hoff : u.isOnline = false) :
    u ∈ (toggleSmtUntil .disable (f :: cpus.erase f)).1 := by
  have hperm := (List.perm_cons_erase hf).symm
  have hids' := (hperm.map Cpu.id).nodup_iff.mpr hids
  have hu' := hperm.mem_iff.mpr hu
  have hnone := theoretical_of_offline (Bool.eq_false_iff.mp hoff)
  rw [toggleSmtUntil_disable hids']
  refine List.mem_map.mpr ⟨u, hu', if_neg fun hreached => ?_⟩
  obtain ⟨pre, post, hsplit, hpre⟩ := exists_split hids' hu'
  obtain ⟨hgood, -⟩ := (reached_iff hids' hu' hsplit hpre).mp hreached
  have hpair := pair_allTargets hids' (hperm.mem_iff.mpr hf) hu' rfl
    (by rw [hbad.physicalId, hnone]; exact fun h => nomatch h)
    (by rw [hbad.physicalId, hnone, hcore]; exact le_rfl)
  have hnodup := List.Nodup.of_map _ (nodup_allTargets hids')
  rw [hsplit] at hpair hnodup
  exact hgood f (hperm.mem_iff.mpr hf) (Attempts.mem_left_of_sublist hnodup hpair)
    ((unwritable_congr hperm f).mpr hbad)

/-- If the CPU with the first id of those that are offline is listed first, it is switched on
before the run ends. -/
theorem mem_of_offline_first {u : Cpu} (hu : u ∈ cpus) (hleads : Leads cpus u)
    (hoff : u.isOnline = false)
    (hcollision : ∀ f ∈ cpus, Unwritable cpus f → 9999 ≤ f.coreId) :
    u.set true ∈ (toggleSmtUntil .disable (u :: cpus.erase u)).1 := by
  have hperm := (List.perm_cons_erase hu).symm
  have hids' := (hperm.map Cpu.id).nodup_iff.mpr hids
  have hu' := hperm.mem_iff.mpr hu
  have hnone := theoretical_of_offline (Bool.eq_false_iff.mp hoff)
  rw [toggleSmtUntil_disable hids']
  refine List.mem_map.mpr ⟨u, hu', ?_⟩
  obtain ⟨pre, post, hsplit, hpre⟩ := exists_split hids' hu'
  have hnodup := List.Nodup.of_map _ (nodup_allTargets hids')
  have hreached :=
    (reached_iff hids' hu' hsplit hpre).mpr ⟨fun f hf hmem hbad => ?_, fun hbad => ?_⟩
  · rw [if_pos hreached, decide_eq_true ((leads_congr hperm u).mpr hleads)]
  · have hbad' := (unwritable_congr hperm f).mp hbad
    have hcore := hcollision f (hperm.mem_iff.mp hf) hbad'
    -- the call for `u` comes first
    have hpair := pair_allTargets hids' hu' hf rfl
      (by rw [hbad'.physicalId, hnone]; exact fun h => nomatch h)
      (by rw [hbad'.physicalId, hnone]; exact hcore)
    obtain ⟨pre₁, pre₂, rfl⟩ := List.append_of_mem hmem
    rw [hsplit, List.append_assoc] at hpair hnodup
    exact hpre (List.mem_append_left _ (Attempts.mem_left_of_sublist hnodup hpair))
  · rw [hbad.isOnline] at hoff
    cases hoff

/-- **In a collision, the order matters.** -/
theorem not_perm_of_collision (h : Collision cpus) : ∃ l₁ l₂, l₁.Perm cpus ∧ l₂.Perm cpus ∧
    ¬ (toggleSmtUntil .disable l₁).1.Perm (toggleSmtUntil .disable l₂).1 := by
  obtain ⟨⟨c, hc, hoff⟩, ⟨f, hf, hbad, hcore⟩, hall⟩ := h
  obtain ⟨u, hu, hleads, hkey⟩ := exists_leads hc
  have huoff : u.isOnline = false := by
    by_contra hon
    rw [Bool.not_eq_false] at hon
    rw [theoretical_of_online hon, theoretical_of_offline (Bool.eq_false_iff.mp hoff)] at hkey
    cases hkey
  refine ⟨_, _, (List.perm_cons_erase hf).symm, (List.perm_cons_erase hu).symm, fun hperm => ?_⟩
  have hstays := hperm.mem_iff.mp (mem_of_unwritable_first hids hf hu hbad hcore huoff)
  have hon := mem_of_offline_first hids hu hleads huoff hall
  have hids' := ((List.perm_cons_erase hu).symm.map Cpu.id).nodup_iff.mpr hids
  have hfinal : ((toggleSmtUntil .disable (u :: cpus.erase u)).1.map Cpu.id).Nodup := by
    rwa [toggleSmtUntil_ids hids']
  have heq := List.inj_on_of_nodup_map hfinal hstays hon (Cpu.set_id true u).symm
  have hval := congrArg Cpu.isOnline heq
  rw [huoff, Cpu.set_isOnline] at hval
  cases hval

end

/-! ### Enabling -/

section

variable {cpus : List Cpu}

/-- The calls of a run with `e` are one `enable` for each CPU. -/
theorem mem_calls_enable {p : Target} :
    p ∈ calls .enable cpus ↔ ∃ c ∈ cpus, p = (c.theoretical, true) := by
  rw [calls, List.mem_flatMap]
  constructor
  · rintro ⟨core, hcore, hp⟩
    obtain ⟨t, ht, rfl⟩ := List.mem_map.mp hp
    obtain ⟨c, hc, rfl, -⟩ := (mem_members hcore).mp ht
    exact ⟨c, hc, rfl⟩
  · rintro ⟨c, hc, rfl⟩
    obtain ⟨core, hcore, hid⟩ :=
      (printed_printedCores cpus).exists_of_mem c.theoretical (List.mem_map_of_mem hc)
    exact ⟨core, hcore, List.mem_map_of_mem ((mem_members hcore).mpr ⟨c, hc, rfl, hid.symm⟩)⟩

variable (hids : (cpus.map Cpu.id).Nodup)

include hids

theorem nodup_calls_enable : ((calls .enable cpus).map fun p => p.1.id).Nodup := by
  have hmap : (calls .enable cpus).map (fun p => p.1.id) = (printedCores cpus).flatMap fun core =>
      core.theoreticalCores.map TheoreticalCpuCore.id := by
    rw [calls, List.map_flatMap]
    refine congrArg (fun f => List.flatMap f (printedCores cpus)) (funext fun core => ?_)
    rw [PhysicalCpuCore.enableTargets, List.map_map]
    rfl
  rw [hmap]
  exact nodup_ids_printedCores hids

/-- **After a run with `e`**, all CPUs are online; it raises no exception. -/
theorem toggleSmtUntil_enable :
    toggleSmtUntil .enable cpus = (cpus.map (Cpu.set true), true) := by
  have hread : ∀ p ∈ calls .enable cpus, ∀ c ∈ cpus, c.id = p.1.id → c.isOnline = p.1.online := by
    intro p hp c hc hid
    obtain ⟨d, hd, rfl⟩ := mem_calls_enable.mp hp
    rw [eq_of_id_eq hids hc hd hid]
    rfl
  have hfile : ∀ p ∈ calls .enable cpus,
      ∃ c ∈ cpus, c.id = p.1.id ∧ (c.online = none → p.2 = true) := by
    intro p hp
    obtain ⟨c, hc, rfl⟩ := mem_calls_enable.mp hp
    exact ⟨c, hc, rfl, fun _ => rfl⟩
  obtain ⟨cpus', hrun⟩ := foldlM_put_isSome (nodup_calls_enable hids) hread hfile
  rw [toggleSmtUntil, Attempts.run_eq_iff.mpr hrun, foldlM_put (nodup_calls_enable hids) hread hrun]
  refine congrArg (·, true) (List.map_congr_left fun c hc => ?_)
  rw [Cpu.after]
  rcases hfind : (calls .enable cpus).find? fun p => p.1.id = c.id with _ | p
  · exact absurd (decide_eq_true rfl)
      (List.find?_eq_none.mp hfind _ (mem_calls_enable.mpr ⟨c, hc, rfl⟩))
  · obtain ⟨d, -, rfl⟩ := mem_calls_enable.mp (List.mem_of_find?_eq_some hfind)
    simp only [hfind]

end

/-! ### When the order does not matter -/

/-- The CPUs of a system on which CPU 0 is online. -/
structure CpuTopology extends Topology where
  /-- The directories are `cpu` and a numeral. -/
  digits : ∀ c ∈ cpus, c.id.toList ≠ [] ∧ ∀ ch ∈ c.id.toList, ch.isDigit = true
  zero_online : ∃ c ∈ cpus, c.id = "0" ∧ c.isOnline = true

/-- **What a run should come to**, in whatever order the directories are listed. -/
structure OrderIrrelevant (t : CpuTopology) : Prop where
  same : ∀ choice l₁ l₂, l₁.Perm t.cpus → l₂.Perm t.cpus →
    (toggleSmtUntil choice l₁).1.Perm (toggleSmtUntil choice l₂).1
  /-- CPU 0 is not switched off, not even for a time. -/
  zero : ∀ l, l.Perm t.cpus → (∀ p ∈ calls .disable l, p.1.id = "0" → p.2 = true) ∧
    ∃ c ∈ (toggleSmtUntil .disable l).1, c.id = "0" ∧ c.isOnline = true
  enabled : ∀ l, l.Perm t.cpus → (toggleSmtUntil .enable l).2 = true ∧
    (toggleSmtUntil .enable l).1.map Cpu.id = l.map Cpu.id ∧
    ∀ c ∈ (toggleSmtUntil .enable l).1, c.isOnline = true
  /-- No CPU is lost, or in two physical cores. -/
  grouped : ∀ l, l.Perm t.cpus →
    ((parsePhysicalCores (parseTheoreticalCores l)).flatMap PhysicalCpuCore.theoreticalCores).Perm
      (parseTheoreticalCores l)

/-- The id 0 is the first of all. -/
theorem zero_le_of_digits {id : String} (hne : id.toList ≠ [])
    (hdigits : ∀ ch ∈ id.toList, ch.isDigit = true) : "0" ≤ id := by
  rw [String.le_iff_toList_le]
  obtain ⟨ch, rest, hlist⟩ := List.exists_cons_of_ne_nil hne
  rw [hlist] at hdigits ⊢
  have hdigit := hdigits ch List.mem_cons_self
  have hle : '0' ≤ ch := by
    simp only [Char.isDigit, Bool.and_eq_true, decide_eq_true_eq] at hdigit
    exact hdigit.1
  refine not_lt.mp fun hlt => ?_
  obtain hlt | ⟨-, hlt⟩ := List.cons_lt_cons_iff.mp hlt
  · exact absurd hlt (not_lt.mpr hle)
  · exact List.not_lt_nil rest hlt

section

variable (t : CpuTopology) {l : List Cpu} (hl : l.Perm t.cpus)

include hl

/-- CPU 0 leads its core. -/
theorem leads_zero {c : Cpu} (hid : c.id = "0") : Leads l c := by
  intro d hd _
  obtain ⟨hne, hdigits⟩ := t.digits d (hl.mem_iff.mp hd)
  rw [hid]
  exact zero_le_of_digits hne hdigits

theorem zero_disable : (∀ p ∈ calls .disable l, p.1.id = "0" → p.2 = true) ∧
    ∃ c ∈ (toggleSmtUntil .disable l).1, c.id = "0" ∧ c.isOnline = true := by
  have hids := (hl.map Cpu.id).nodup_iff.mpr t.nodup
  constructor
  · intro p hp hid
    obtain ⟨c, -, rfl⟩ := eq_of_mem_allTargets hids hp
    exact decide_eq_true (leads_zero t hl hid)
  · obtain ⟨c, hc, hid, hon⟩ := t.zero_online
    rw [toggleSmtUntil_disable hids]
    refine ⟨_, List.mem_map_of_mem (hl.mem_iff.mpr hc), ?_⟩
    rw [decide_eq_true (leads_zero t hl hid)]
    split
    · exact ⟨(Cpu.set_id true c).trans hid, Cpu.set_isOnline true c⟩
    · exact ⟨hid, hon⟩

end

/-- The grouping keeps the CPUs. -/
theorem perm_parsePhysicalCores (cores : List TheoreticalCpuCore) :
    ((parsePhysicalCores cores).flatMap PhysicalCpuCore.theoreticalCores).Perm cores := by
  rw [parsePhysicalCores, List.flatMap_map]
  exact Grouping.perm_group TheoreticalCpuCore.physicalId cores

/-- **The order does not matter** if and only if the CPUs that are offline do not collide with a
core. -/
theorem orderIrrelevant_iff (t : CpuTopology) : OrderIrrelevant t ↔ ¬ Collision t.cpus := by
  constructor
  · intro h hcollision
    obtain ⟨l₁, l₂, h₁, h₂, hdiffer⟩ := not_perm_of_collision t.nodup hcollision
    exact hdiffer (h.same .disable l₁ l₂ h₁ h₂)
  · intro hfree
    have hids : ∀ l : List Cpu, l.Perm t.cpus → (l.map Cpu.id).Nodup := fun l hl =>
      (hl.map Cpu.id).nodup_iff.mpr t.nodup
    refine ⟨fun choice l₁ l₂ h₁ h₂ => ?_, fun l hl => zero_disable t hl, fun l hl => ?_,
      fun l _ => perm_parsePhysicalCores _⟩
    · have hperm := h₁.trans h₂.symm
      cases choice with
      | enable =>
        rw [toggleSmtUntil_enable (hids l₁ h₁), toggleSmtUntil_enable (hids l₂ h₂)]
        exact hperm.map _
      | disable =>
        have hsettled : ∀ l, l.Perm t.cpus →
            (toggleSmtUntil .disable l).1 = l.map (settled t.cpus) := fun l hl => by
          rw [toggleSmtUntil_settled (hids l hl) (mt (collision_congr hl).mp hfree)]
          exact List.map_congr_left fun c _ => settled_congr hl c
        rw [hsettled l₁ h₁, hsettled l₂ h₂]
        exact hperm.map _
      | other => exact hperm
    · rw [toggleSmtUntil_enable (hids l hl)]
      refine ⟨rfl, ?_, fun c hc => ?_⟩
      · rw [List.map_map]
        exact List.map_congr_left fun c _ => Cpu.set_id true c
      · obtain ⟨d, -, rfl⟩ := List.mem_map.mp hc
        exact Cpu.set_isOnline true d

/-- A core with the id 9999, whose CPUs have no file, and a CPU that is offline. -/
def coreNineThousand : CpuTopology where
  cpus := [⟨"0", 0, 0, none⟩, ⟨"1", 0, 9999, none⟩, ⟨"2", 0, 9999, none⟩, ⟨"3", 0, 1, some false⟩]
  nodup := by decide
  digits := by simp
  zero_online := by decide

/-- If CPU 3 is listed first, it is switched on before the run ends at CPU 2. -/
theorem toggleSmtUntil_coreNineThousand :
    toggleSmtUntil .disable coreNineThousand.cpus = (coreNineThousand.cpus, false) ∧
      toggleSmtUntil .disable [⟨"3", 0, 1, some false⟩, ⟨"0", 0, 0, none⟩, ⟨"1", 0, 9999, none⟩,
        ⟨"2", 0, 9999, none⟩] = ([⟨"3", 0, 1, some true⟩, ⟨"0", 0, 0, none⟩, ⟨"1", 0, 9999, none⟩,
        ⟨"2", 0, 9999, none⟩], false) ∧
      ¬ OrderIrrelevant coreNineThousand := by
  have hfirst : toggleSmtUntil .disable coreNineThousand.cpus = (coreNineThousand.cpus, false) := by
    decide
  have hsecond : toggleSmtUntil .disable [⟨"3", 0, 1, some false⟩, ⟨"0", 0, 0, none⟩,
      ⟨"1", 0, 9999, none⟩, ⟨"2", 0, 9999, none⟩] = ([⟨"3", 0, 1, some true⟩, ⟨"0", 0, 0, none⟩,
      ⟨"1", 0, 9999, none⟩, ⟨"2", 0, 9999, none⟩], false) := by decide
  refine ⟨hfirst, hsecond, fun h => ?_⟩
  have hperm := h.same .disable _ [⟨"3", 0, 1, some false⟩, ⟨"0", 0, 0, none⟩,
    ⟨"1", 0, 9999, none⟩, ⟨"2", 0, 9999, none⟩] (.refl _) (by decide)
  rw [hfirst, hsecond] at hperm
  exact absurd hperm (by decide)

end CacheNoise
