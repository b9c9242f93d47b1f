import CacheNoise.ToggleSmt

/-!
# Disabling SMT

The CPUs with one physical id, as the script reads it, are a group, and the one with the first
id leads it (`Leads`). A run with the choice `d` ends with exactly the leaders online
(`toggleSmt_disable`).

All CPUs that are offline are one group, so one of them is switched on. Therefore a run changes
something whenever a CPU is offline, and a second run undoes a part of the first: the script
does what it should if and only if it has nothing to do, apart from a single CPU that is offline
(`smtDisabled_iff`).
-/

namespace CacheNoise

/-! ### Groups -/

/-- The CPU with the first id among those with its physical id. -/
def Leads (cpus : List Cpu) (c : Cpu) : Prop :=
  ∀ d ∈ cpus, d.theoretical.physicalId = c.theoretical.physicalId → c.id ≤ d.id

instance (cpus : List Cpu) (c : Cpu) : Decidable (Leads cpus c) :=
  inferInstanceAs (Decidable (∀ d ∈ cpus,
    d.theoretical.physicalId = c.theoretical.physicalId → c.id ≤ d.id))

/-- The physical cores that are printed: a group for each physical id, sorted by the ids. -/
structure Printed (cores : List TheoreticalCpuCore) (printed : List PhysicalCpuCore) : Prop where
  nodup : (printed.map PhysicalCpuCore.id).Nodup
  members : ∀ core ∈ printed,
    core.theoreticalCores.Perm (cores.filter fun t => t.physicalId = core.id)
  sorted : ∀ core ∈ printed, core.theoreticalCores.Pairwise fun a b => a.id ≤ b.id
  exists_of_mem : ∀ t ∈ cores, ∃ core ∈ printed, core.id = t.physicalId
  nonempty : ∀ core ∈ printed, core.theoreticalCores ≠ []

theorem printed_printedCores (cpus : List Cpu) :
    Printed (parseTheoreticalCores cpus) (printedCores cpus) := by
  set cores := parseTheoreticalCores cpus with hcores
  have hgroups := Grouping.groups_group TheoreticalCpuCore.physicalId cores
  have hperm : (printedCores cpus).Perm
      ((Grouping.group TheoreticalCpuCore.physicalId cores).map fun g =>
        PhysicalCpuCore.str ⟨g.1, g.2⟩) := by
    refine ((List.perm_insertionSort _ _).map PhysicalCpuCore.str).trans ?_
    rw [parsePhysicalCores, List.map_map]
    rfl
  have hof : ∀ core ∈ printedCores cpus,
      ∃ g ∈ Grouping.group TheoreticalCpuCore.physicalId cores,
        core = PhysicalCpuCore.str ⟨g.1, g.2⟩ := by
    intro core hcore
    obtain ⟨g, hg, rfl⟩ := List.mem_map.mp (hperm.mem_iff.mp hcore)
    exact ⟨g, hg, rfl⟩
  have hmembers : ∀ core ∈ printedCores cpus,
      core.theoreticalCores.Perm (cores.filter fun t => t.physicalId = core.id) := by
    intro core hcore
    obtain ⟨g, hg, rfl⟩ := hof core hcore
    exact (List.perm_insertionSort _ _).trans (.of_eq (hgroups.members g hg))
  refine ⟨?_, hmembers, fun core hcore => ?_, fun t ht => ?_, fun core hcore hnil => ?_⟩
  · refine (hperm.map _).nodup_iff.mpr ?_
    rw [List.map_map]
    exact hgroups.nodup
  · obtain ⟨g, hg, rfl⟩ := hof core hcore
    exact List.pairwise_insertionSort _ _
  · obtain ⟨g, hg, hkey, -⟩ := hgroups.exists_of_mem ht
    exact ⟨_, hperm.mem_iff.mpr (List.mem_map_of_mem hg), hkey⟩
  · obtain ⟨g, hg, rfl⟩ := hof core hcore
    obtain ⟨t, ht, hkey⟩ := (hgroups.mem_iff g.1).mp (List.mem_map_of_mem hg)
    have hmem := (hmembers _ hcore).mem_iff.mpr
      (List.mem_filter.mpr ⟨ht, decide_eq_true hkey⟩)
    rw [hnil] at hmem
    cases hmem

/-! ### What is written -/

/-- Switch a CPU on or off. -/
def Cpu.set (value : Bool) (c : Cpu) : Cpu :=
  if c.isOnline = value then c else { c with online := some value }

@[simp]
theorem Cpu.set_id (value : Bool) (c : Cpu) : (c.set value).id = c.id := by
  rw [Cpu.set]
  split <;> rfl

@[simp]
theorem Cpu.set_package (value : Bool) (c : Cpu) : (c.set value).package = c.package := by
  rw [Cpu.set]
  split <;> rfl

@[simp]
theorem Cpu.set_coreId (value : Bool) (c : Cpu) : (c.set value).coreId = c.coreId := by
  rw [Cpu.set]
  split <;> rfl

@[simp]
theorem Cpu.set_isOnline (value : Bool) (c : Cpu) : (c.set value).isOnline = value := by
  rw [Cpu.set]
  split
  · next h => exact h
  · rfl

/-- A CPU that the script has read, and whether it is to be online. -/
abbrev Target : Type := TheoreticalCpuCore × Bool

/-- `enable` or `disable`. -/
def put (cpus : List Cpu) (p : Target) : Option (List Cpu) :=
  if p.2 = true then p.1.enable cpus else p.1.disable cpus

/-- What `disable_smt` does with the CPUs of a core. -/
def PhysicalCpuCore.targets (core : PhysicalCpuCore) : List Target :=
  match core.theoreticalCores with
  | [] => []
  | first :: rest => (first, true) :: rest.map fun t => (t, false)

theorem disableSmt_eq {core : PhysicalCpuCore} (h : core.theoreticalCores ≠ [])
    (cpus : List Cpu) : core.disableSmt cpus = core.targets.foldlM put cpus := by
  obtain ⟨first, rest, hcores⟩ := List.exists_cons_of_ne_nil h
  rw [PhysicalCpuCore.disableSmt, PhysicalCpuCore.targets, hcores]
  simp only [List.foldlM_cons, List.foldlM_map]
  rfl

/-- The CPU after the targets. -/
def Cpu.after (targets : List Target) (c : Cpu) : Cpu :=
  match targets.find? fun p => p.1.id = c.id with
  | some p => c.set p.2
  | none => c

theorem after_id (targets : List Target) (c : Cpu) : (c.after targets).id = c.id := by
  rw [Cpu.after]
  split
  · exact Cpu.set_id _ c
  · rfl

/-- A CPU that is no target stays as it is. -/
theorem after_of_notMem {targets : List Target} {c : Cpu} (h : ∀ p ∈ targets, p.1.id ≠ c.id) :
    c.after targets = c := by
  have hnone : targets.find? (fun p => p.1.id = c.id) = none :=
    List.find?_eq_none.mpr fun p hp hid => h p hp (of_decide_eq_true hid)
  rw [Cpu.after, hnone]

/-- One target: its CPU is switched on or off, if that changes it. -/
theorem put_eq {cpus cpus' : List Cpu} {p : Target} (h : put cpus p = some cpus')
    (hread : ∀ c ∈ cpus, c.id = p.1.id → c.isOnline = p.1.online) :
    cpus' = cpus.map fun c => if c.id = p.1.id then c.set p.2 else c := by
  by_cases hsame : p.1.online = p.2
  · -- `enable` and `disable` write only where the state that was read differs
    have hrun : put cpus p = some cpus := by
      rw [put, TheoreticalCpuCore.enable, TheoreticalCpuCore.disable, hsame]
      cases p.2 <;> rfl
    obtain rfl := Option.some.inj (hrun.symm.trans h)
    refine ((List.map_congr_left fun c hc => ?_).trans (List.map_id cpus)).symm
    split
    · next hid => rw [Cpu.set, if_pos ((hread c hc hid).trans hsame), id]
    · rfl
  · have hrun : put cpus p = write p.1.id p.2 cpus := by
      rw [put, TheoreticalCpuCore.enable, TheoreticalCpuCore.disable]
      revert hsame
      cases p.1.online <;> cases p.2 <;> simp
    rw [hrun, write] at h
    split at h
    · obtain rfl := Option.some.inj h
      refine List.map_congr_left fun c hc => ?_
      split
      · next hid => rw [Cpu.set, if_neg fun hval => hsame ((hread c hc hid).symm.trans hval)]
      · rfl
    · cases h

/-- A CPU with a file can be switched, and one without can be left online. -/
theorem put_isSome {cpus : List Cpu} {p : Target} {c : Cpu} (hc : c ∈ cpus) (hid : c.id = p.1.id)
    (hread : c.isOnline = p.1.online) (hfile : c.online = none → p.2 = true) :
    ∃ cpus', put cpus p = some cpus' := by
  by_cases hnone : c.online = none
  · have honline : p.1.online = true := by rw [← hread, Cpu.isOnline, hnone]; rfl
    refine ⟨cpus, ?_⟩
    rw [put, if_pos (hfile hnone), TheoreticalCpuCore.enable, if_neg (by rw [honline]; decide)]
  · have hwrite : ∀ value, ∃ cpus', write p.1.id value cpus = some cpus' := fun value =>
      ⟨_, if_pos ⟨c, hc, hid, hnone⟩⟩
    rw [put, TheoreticalCpuCore.enable, TheoreticalCpuCore.disable]
    split_ifs
    · exact hwrite true
    · exact ⟨cpus, rfl⟩
    · exact hwrite false
    · exact ⟨cpus, rfl⟩

section

variable {targets : List Target} {cpus : List Cpu}

private theorem id_ne_of_nodup {p : Target}
    (hnodup : ((p :: targets).map fun p => p.1.id).Nodup) : ∀ q ∈ targets, q.1.id ≠ p.1.id :=
  fun q hq h => (List.nodup_cons.mp hnodup).1 (List.mem_map.mpr ⟨q, hq, h⟩)

/-- The first target leaves the CPUs of the others as they were read. -/
private theorem read_after_put {p : Target}
    (hnodup : ((p :: targets).map fun p => p.1.id).Nodup)
    (hread : ∀ q ∈ p :: targets, ∀ c ∈ cpus, c.id = q.1.id → c.isOnline = q.1.online) :
    ∀ q ∈ targets, ∀ c ∈ cpus.map fun c => if c.id = p.1.id then c.set p.2 else c,
      c.id = q.1.id → c.isOnline = q.1.online := by
  intro q hq c' hc' hid
  obtain ⟨c, hc, rfl⟩ := List.mem_map.mp hc'
  by_cases hp : c.id = p.1.id
  · rw [if_pos hp, Cpu.set_id, hp] at hid
    exact absurd hid.symm (id_ne_of_nodup hnodup q hq)
  · rw [if_neg hp] at hid ⊢
    exact hread q (List.mem_cons_of_mem p hq) c hc hid

/-- **The CPUs after all targets**, each CPU being the target of one of them at most. -/
theorem foldlM_put (hnodup : (targets.map fun p => p.1.id).Nodup)
    (hread : ∀ p ∈ targets, ∀ c ∈ cpus, c.id = p.1.id → c.isOnline = p.1.online) {cpus' : List Cpu}
    (h : targets.foldlM put cpus = some cpus') : cpus' = cpus.map (Cpu.after targets) := by
  induction targets generalizing cpus with
  | nil =>
    obtain rfl := Option.some.inj h
    exact (List.map_id cpus).symm
  | cons p targets ih =>
    rw [List.foldlM_cons] at h
    obtain ⟨cpus₁, hp, hrest⟩ := Option.bind_eq_some_iff.mp h
    obtain rfl := put_eq hp (hread p List.mem_cons_self)
    rw [ih (List.nodup_cons.mp hnodup).2 (read_after_put hnodup hread) hrest, List.map_map]
    refine List.map_congr_left fun c _ => ?_
    by_cases hid : c.id = p.1.id
    · -- no other target is this CPU
      have hnone : targets.find? (fun q => q.1.id = (c.set p.2).id) = none := by
        refine List.find?_eq_none.mpr fun q hq hq' => id_ne_of_nodup hnodup q hq ?_
        rw [of_decide_eq_true hq', Cpu.set_id, hid]
      rw [Function.comp_apply, if_pos hid, Cpu.after, Cpu.after, hnone, List.find?_cons,
        decide_eq_true hid.symm]
    · rw [Function.comp_apply, if_neg hid, Cpu.after, Cpu.after, List.find?_cons,
        decide_eq_false fun h => hid h.symm]

/-- Nothing is written that can not be written. -/
theorem foldlM_put_isSome (hnodup : (targets.map fun p => p.1.id).Nodup)
    (hread : ∀ p ∈ targets, ∀ c ∈ cpus, c.id = p.1.id → c.isOnline = p.1.online)
    (hfile : ∀ p ∈ targets, ∃ c ∈ cpus, c.id = p.1.id ∧ (c.online = none → p.2 = true)) :
    ∃ cpus', targets.foldlM put cpus = some cpus' := by
  induction targets generalizing cpus with
  | nil => exact ⟨cpus, rfl⟩
  | cons p targets ih =>
    obtain ⟨c, hc, hid, hnone⟩ := hfile p List.mem_cons_self
    obtain ⟨cpus₁, hp⟩ := put_isSome hc hid (hread p List.mem_cons_self c hc hid) hnone
    rw [List.foldlM_cons, hp]
    obtain rfl := put_eq hp (hread p List.mem_cons_self)
    refine ih (List.nodup_cons.mp hnodup).2 (read_after_put hnodup hread) fun q hq => ?_
    obtain ⟨d, hd, hdid, hdnone⟩ := hfile q (List.mem_cons_of_mem p hq)
    refine ⟨d, List.mem_map.mpr ⟨d, hd, if_neg fun hp => ?_⟩, hdid, hdnone⟩
    exact id_ne_of_nodup hnodup q hq (hdid.symm.trans hp)

end

/-! ### All targets -/

theorem foldlM_disableSmt {printed : List PhysicalCpuCore}
    (h : ∀ core ∈ printed, core.theoreticalCores ≠ []) (cpus : List Cpu) :
    printed.foldlM (fun cpus core => core.disableSmt cpus) cpus =
      (printed.flatMap PhysicalCpuCore.targets).foldlM put cpus := by
  induction printed generalizing cpus with
  | nil => rfl
  | cons core printed ih =>
    rw [List.foldlM_cons, disableSmt_eq (h core List.mem_cons_self), List.flatMap_cons,
      List.foldlM_append]
    exact congrArg _ (funext fun cpus' => ih (fun core' hcore' =>
      h core' (List.mem_cons_of_mem core hcore')) cpus')

theorem map_fst_targets (core : PhysicalCpuCore) :
    core.targets.map Prod.fst = core.theoreticalCores := by
  rw [PhysicalCpuCore.targets]
  rcases core.theoreticalCores with _ | ⟨first, rest⟩
  · rfl
  · rw [List.map_cons, List.map_map]
    exact congrArg _ (List.map_id rest)

/-- In a sorted group with different ids, the CPU with the first id is to be online. -/
theorem mem_targets {core : PhysicalCpuCore}
    (hsorted : core.theoreticalCores.Pairwise fun a b => a.id ≤ b.id)
    (hids : (core.theoreticalCores.map TheoreticalCpuCore.id).Nodup) {t : TheoreticalCpuCore}
    (ht : t ∈ core.theoreticalCores) :
    (t, decide (∀ d ∈ core.theoreticalCores, t.id ≤ d.id)) ∈ core.targets := by
  rw [PhysicalCpuCore.targets]
  rcases hcores : core.theoreticalCores with _ | ⟨first, rest⟩
  · rw [hcores] at ht
    cases ht
  rw [hcores] at ht hsorted hids
  have hfirst := (List.pairwise_cons.mp hsorted).1
  -- only the first one is less than or equal to all others, as no two ids are equal
  obtain rfl | ht := List.mem_cons.mp ht
  · have hlead : ∀ d ∈ t :: rest, t.id ≤ d.id :=
      List.forall_mem_cons.mpr ⟨le_rfl, fun d hd => hfirst d hd⟩
    rw [decide_eq_true hlead]
    exact List.mem_cons_self
  · have hlt : ¬ ∀ d ∈ first :: rest, t.id ≤ d.id := fun hle => by
      have heq : first.id = t.id := le_antisymm (hfirst t ht) (hle first List.mem_cons_self)
      exact (List.nodup_cons.mp hids).1 (heq ▸ List.mem_map_of_mem ht)
    rw [decide_eq_false hlt]
    exact List.mem_cons_of_mem _ (List.mem_map_of_mem ht)

/-- The targets of a run. -/
def allTargets (cpus : List Cpu) : List Target :=
  (printedCores cpus).flatMap PhysicalCpuCore.targets

theorem toggleSmt_eq_foldlM (cpus : List Cpu) :
    toggleSmt .disable cpus = (allTargets cpus).foldlM put cpus :=
  foldlM_disableSmt (printed_printedCores cpus).nonempty cpus

section

variable {cpus : List Cpu}

/-- What is known about the members of a core. -/
theorem mem_members {core : PhysicalCpuCore} (hcore : core ∈ printedCores cpus)
    {t : TheoreticalCpuCore} : t ∈ core.theoreticalCores ↔
      ∃ c ∈ cpus, c.theoretical = t ∧ t.physicalId = core.id := by
  rw [((printed_printedCores cpus).members core hcore).mem_iff, List.mem_filter,
    decide_eq_true_eq, parseTheoreticalCores, List.mem_map]
  constructor
  · rintro ⟨⟨c, hc, ht⟩, hid⟩
    exact ⟨c, hc, ht, hid⟩
  · rintro ⟨c, hc, ht, hid⟩
    exact ⟨⟨c, hc, ht⟩, hid⟩

variable (hids : (cpus.map Cpu.id).Nodup)

include hids

/-- A CPU is known by its id. -/
theorem eq_of_id_eq {c d : Cpu} (hc : c ∈ cpus) (hd : d ∈ cpus) (h : c.id = d.id) : c = d :=
  List.inj_on_of_nodup_map hids hc hd h

theorem nodup_ids_members {core : PhysicalCpuCore} (hcore : core ∈ printedCores cpus) :
    (core.theoreticalCores.map TheoreticalCpuCore.id).Nodup := by
  have hperm := (printed_printedCores cpus).members core hcore
  refine ((hperm.map _).nodup_iff).mpr (List.Sublist.nodup (List.filter_sublist.map _) ?_)
  rw [parseTheoreticalCores, List.map_map]
  exact hids

/-- No CPU is a member of two cores, or twice of one. -/
theorem nodup_ids_printedCores : ((printedCores cpus).flatMap fun core =>
    core.theoreticalCores.map TheoreticalCpuCore.id).Nodup := by
  rw [List.nodup_flatMap]
  refine ⟨fun core hcore => nodup_ids_members hids hcore, ?_⟩
  have hkeys := List.pairwise_map.mp (printed_printedCores cpus).nodup
  refine hkeys.imp_of_mem fun hcore hcore' hne i hi hi' => hne ?_
  obtain ⟨t, ht, rfl⟩ := List.mem_map.mp hi
  obtain ⟨t', ht', hid⟩ := List.mem_map.mp hi'
  obtain ⟨c, hc, rfl, hkey⟩ := (mem_members hcore).mp ht
  obtain ⟨c', hc', rfl, hkey'⟩ := (mem_members hcore').mp ht'
  rw [← hkey, ← hkey', eq_of_id_eq hids hc' hc hid]

/-- No CPU is the target of two writes. -/
theorem nodup_allTargets : ((allTargets cpus).map fun p => p.1.id).Nodup := by
  have hmap : (allTargets cpus).map (fun p => p.1.id) = (printedCores cpus).flatMap fun core =>
      core.theoreticalCores.map TheoreticalCpuCore.id := by
    rw [allTargets, List.map_flatMap]
    refine congrArg (fun f => List.flatMap f (printedCores cpus)) (funext fun core => ?_)
    rw [← map_fst_targets, List.map_map]
    rfl
  rw [hmap]
  exact nodup_ids_printedCores hids

/-- The target in the core of a CPU. -/
theorem target_mem_core {c : Cpu} (hc : c ∈ cpus) {core : PhysicalCpuCore}
    (hcore : core ∈ printedCores cpus) (hid : core.id = c.theoretical.physicalId) :
    (c.theoretical, decide (Leads cpus c)) ∈ core.targets := by
  have hmem := (mem_members hcore).mpr ⟨c, hc, rfl, hid.symm⟩
  have htarget := mem_targets ((printed_printedCores cpus).sorted core hcore)
    (nodup_ids_members hids hcore) hmem
  have hleads : (∀ d ∈ core.theoreticalCores, c.theoretical.id ≤ d.id) ↔ Leads cpus c := by
    constructor
    · intro h d hd hkey
      exact h d.theoretical ((mem_members hcore).mpr ⟨d, hd, rfl, hkey.trans hid.symm⟩)
    · intro h t ht
      obtain ⟨d, hd, rfl, hkey⟩ := (mem_members hcore).mp ht
      exact h d hd (hkey.trans hid)
  rwa [decide_eq_decide.mpr hleads] at htarget

/-- **Each CPU is to be online if it leads its group**, and offline otherwise. -/
theorem target_mem {c : Cpu} (hc : c ∈ cpus) :
    (c.theoretical, decide (Leads cpus c)) ∈ allTargets cpus := by
  obtain ⟨core, hcore, hid⟩ :=
    (printed_printedCores cpus).exists_of_mem c.theoretical (List.mem_map_of_mem hc)
  exact List.mem_flatMap.mpr ⟨core, hcore, target_mem_core hids hc hcore hid⟩

/-- There are no other targets. -/
theorem eq_of_mem_allTargets {p : Target} (hp : p ∈ allTargets cpus) :
    ∃ c ∈ cpus, p = (c.theoretical, decide (Leads cpus c)) := by
  obtain ⟨core, hcore, hmem⟩ := List.mem_flatMap.mp hp
  have hfst : p.1 ∈ core.theoreticalCores := map_fst_targets core ▸ List.mem_map_of_mem hmem
  obtain ⟨c, hc, ht, -⟩ := (mem_members hcore).mp hfst
  refine ⟨c, hc, List.inj_on_of_nodup_map (nodup_allTargets hids) hp (target_mem hids hc) ?_⟩
  exact congrArg TheoreticalCpuCore.id ht.symm

theorem read_allTargets : ∀ p ∈ allTargets cpus, ∀ c ∈ cpus, c.id = p.1.id →
    c.isOnline = p.1.online := by
  intro p hp c hc hid
  obtain ⟨d, hd, rfl⟩ := eq_of_mem_allTargets hids hp
  rw [eq_of_id_eq hids hc hd hid]
  rfl

/-- A CPU after some of the targets. -/
theorem after_eq {done : List Target} (hdone : done ⊆ allTargets cpus) {c : Cpu} (hc : c ∈ cpus) :
    c.after done =
      if (c.theoretical, decide (Leads cpus c)) ∈ done then c.set (Leads cpus c) else c := by
  -- the target of a CPU is the only one with its id
  have htarget : ∀ p ∈ done, p.1.id = c.id → p = (c.theoretical, decide (Leads cpus c)) :=
    fun p hp hid => List.inj_on_of_nodup_map (nodup_allTargets hids) (hdone hp)
      (target_mem hids hc) hid
  split
  · next hmem =>
    rw [Cpu.after]
    rcases hfind : done.find? fun p => p.1.id = c.id with _ | p
    · exact absurd (decide_eq_true rfl) (List.find?_eq_none.mp hfind _ hmem)
    · have hid : p.1.id = c.id := by simpa using List.find?_some hfind
      have heq := htarget p (List.mem_of_find?_eq_some hfind) hid
      simp only [hfind, heq]
  · next hmem => exact after_of_notMem fun p hp hid => hmem (htarget p hp hid ▸ hp)

/-- **After a run with `d`**, the leaders of the groups are online, and no others. -/
theorem toggleSmt_disable {cpus' : List Cpu} (h : toggleSmt .disable cpus = some cpus') :
    cpus' = cpus.map fun c => c.set (Leads cpus c) := by
  rw [toggleSmt_eq_foldlM] at h
  rw [foldlM_put (nodup_allTargets hids) (read_allTargets hids) h]
  refine List.map_congr_left fun c hc => ?_
  rw [after_eq hids (List.Subset.refl _) hc, if_pos (target_mem hids hc)]

/-- A run raises no exception if every CPU without a file leads its group. -/
theorem toggleSmt_disable_isSome (hfile : ∀ c ∈ cpus, c.online = none → Leads cpus c) :
    ∃ cpus', toggleSmt .disable cpus = some cpus' := by
  rw [toggleSmt_eq_foldlM]
  refine foldlM_put_isSome (nodup_allTargets hids) (read_allTargets hids) fun p hp => ?_
  obtain ⟨c, hc, rfl⟩ := eq_of_mem_allTargets hids hp
  exact ⟨c, hc, rfl, fun hnone => decide_eq_true (hfile c hc hnone)⟩

end

/-! ### When SMT is disabled -/

/-- The logical CPUs of a machine, in the order in which their directories are listed. -/
structure Topology where
  cpus : List Cpu
  nodup : (cpus.map Cpu.id).Nodup

/-- A run with `d` leaves at most one CPU of each physical core online, and one of each core
that had one; and another run, with the directories in any order, changes nothing. -/
def SmtDisabled (t : Topology) : Prop :=
  ∃ cpus', toggleSmt .disable t.cpus = some cpus' ∧
    (∀ c ∈ cpus', ∀ d ∈ cpus', c.isOnline = true → d.isOnline = true → c.package = d.package →
      c.coreId = d.coreId → c.id = d.id) ∧
    (∀ c ∈ t.cpus, c.isOnline = true → ∃ d ∈ cpus', d.isOnline = true ∧
      d.package = c.package ∧ d.coreId = c.coreId) ∧
    ∀ listed, listed.Perm cpus' → toggleSmt .disable listed = some listed

section

variable {cpus : List Cpu}

theorem theoretical_of_online {c : Cpu} (h : c.isOnline = true) :
    c.theoretical.physicalId = some c.coreId := if_pos h

theorem theoretical_of_offline {c : Cpu} (h : c.isOnline ≠ true) :
    c.theoretical.physicalId = none := if_neg h

/-- Two leaders with one physical id are the same. -/
theorem Leads.id_eq {c d : Cpu} (hc : Leads cpus c) (hd : Leads cpus d) (hcm : c ∈ cpus)
    (hdm : d ∈ cpus) (h : c.theoretical.physicalId = d.theoretical.physicalId) : c.id = d.id :=
  le_antisymm (hc d hdm h.symm) (hd c hcm h)

/-- Somebody leads each group. -/
theorem exists_leads {c : Cpu} (hc : c ∈ cpus) :
    ∃ d ∈ cpus, Leads cpus d ∧ d.theoretical.physicalId = c.theoretical.physicalId := by
  have hmem : ∀ d, d ∈ (cpus.filter fun d =>
      d.theoretical.physicalId = c.theoretical.physicalId).toFinset ↔
        d ∈ cpus ∧ d.theoretical.physicalId = c.theoretical.physicalId := fun d => by
    rw [List.mem_toFinset, List.mem_filter, decide_eq_true_eq]
  obtain ⟨d, hd, hmin⟩ := Finset.exists_min_image _ Cpu.id ⟨c, (hmem c).mpr ⟨hc, rfl⟩⟩
  obtain ⟨hdm, hkey⟩ := (hmem d).mp hd
  exact ⟨d, hdm, fun e he hek => hmin e ((hmem e).mpr ⟨he, hek.trans hkey⟩), hkey⟩

/-- A run that changes nothing finds all CPUs online, with different core ids. -/
theorem all_online_of_fixed (hids : (cpus.map Cpu.id).Nodup)
    (h : toggleSmt .disable cpus = some cpus) :
    (∀ c ∈ cpus, c.isOnline = true) ∧ (cpus.map Cpu.coreId).Nodup := by
  have hleads : ∀ c ∈ cpus, c.isOnline = decide (Leads cpus c) := by
    intro c hc
    have hmap := (List.map_id cpus).trans (toggleSmt_disable hids h)
    have hfixed := List.map_eq_map_iff.mp hmap c hc
    rw [← Cpu.set_isOnline (decide (Leads cpus c)) c, ← hfixed, id]
  have honline : ∀ c ∈ cpus, c.isOnline = true := by
    intro c hc
    by_contra hoff
    -- the leader of the CPUs that are offline would be online
    obtain ⟨d, hd, hdleads, hkey⟩ := exists_leads hc
    have hdon := (hleads d hd).trans (decide_eq_true hdleads)
    rw [theoretical_of_online hdon, theoretical_of_offline hoff] at hkey
    cases hkey
  refine ⟨honline, (List.Nodup.of_map _ hids).map_on fun c hc d hd hcore => ?_⟩
  have hlead : ∀ e ∈ cpus, Leads cpus e := fun e he =>
    of_decide_eq_true ((hleads e he).symm.trans (honline e he))
  refine eq_of_id_eq hids hc hd ((hlead c hc).id_eq (hlead d hd) hc hd ?_)
  rw [theoretical_of_online (honline c hc), theoretical_of_online (honline d hd), hcore]

/-- With different core ids and at most one CPU offline, each CPU is a group of its own. -/
theorem leads_of_nodup (hcores : (cpus.map Cpu.coreId).Nodup)
    (hoff : ∀ c ∈ cpus, ∀ d ∈ cpus, c.isOnline = false → d.isOnline = false → c.id = d.id)
    {c : Cpu} (hc : c ∈ cpus) : Leads cpus c := by
  intro d hd hkey
  by_cases hon : c.isOnline = true
  · rw [theoretical_of_online hon] at hkey
    by_cases hdon : d.isOnline = true
    · rw [theoretical_of_online hdon] at hkey
      exact (List.inj_on_of_nodup_map hcores hd hc (Option.some.inj hkey)) ▸ le_rfl
    · rw [theoretical_of_offline hdon] at hkey
      cases hkey
  · by_cases hdon : d.isOnline = true
    · rw [theoretical_of_online hdon, theoretical_of_offline hon] at hkey
      cases hkey
    · exact (hoff c hc d hd (Bool.eq_false_iff.mpr hon) (Bool.eq_false_iff.mpr hdon)).le

/-- Then a run switches on the CPU that is offline. -/
theorem toggleSmt_of_leads (hids : (cpus.map Cpu.id).Nodup) (h : ∀ c ∈ cpus, Leads cpus c) :
    toggleSmt .disable cpus = some (cpus.map (Cpu.set true)) := by
  obtain ⟨cpus', hrun⟩ := toggleSmt_disable_isSome hids fun c hc _ => h c hc
  rw [hrun, toggleSmt_disable hids hrun]
  refine congrArg some (List.map_congr_left fun c hc => ?_)
  rw [decide_eq_true (h c hc)]

end

/-- **SMT is disabled as it should be** if and only if all CPUs have different core ids and at
most one of them is offline. -/
theorem smtDisabled_iff (t : Topology) : SmtDisabled t ↔ (t.cpus.map Cpu.coreId).Nodup ∧
    ∀ c ∈ t.cpus, ∀ d ∈ t.cpus, c.isOnline = false → d.isOnline = false → c.id = d.id := by
  obtain ⟨cpus, hids⟩ := t
  have hmapIds : ∀ f : Cpu → Bool, (cpus.map fun c => c.set (f c)).map Cpu.id = cpus.map Cpu.id :=
    fun f => by rw [List.map_map]; exact List.map_congr_left fun c _ => Cpu.set_id _ c
  have hmapCores : ∀ f : Cpu → Bool,
      (cpus.map fun c => c.set (f c)).map Cpu.coreId = cpus.map Cpu.coreId :=
    fun f => by rw [List.map_map]; exact List.map_congr_left fun c _ => Cpu.set_coreId _ c
  constructor
  · rintro ⟨cpus', hrun, -, -, hagain⟩
    obtain rfl := toggleSmt_disable hids hrun
    -- the second run changes nothing, so after the first one all CPUs are online: they all lead
    obtain ⟨honline, hcores⟩ := all_online_of_fixed ((hmapIds _).symm ▸ hids) (hagain _ (.refl _))
    rw [hmapCores] at hcores
    have hleads : ∀ c ∈ cpus, Leads cpus c := fun c hc => by
      have hon := honline _ (List.mem_map_of_mem hc)
      rw [Cpu.set_isOnline] at hon
      exact of_decide_eq_true hon
    refine ⟨hcores, fun c hc d hd hcoff hdoff => ?_⟩
    refine (hleads c hc).id_eq (hleads d hd) hc hd ?_
    rw [theoretical_of_offline (Bool.eq_false_iff.mp hcoff),
      theoretical_of_offline (Bool.eq_false_iff.mp hdoff)]
  · rintro ⟨hcores, hoff⟩
    have hrun := toggleSmt_of_leads hids fun c hc => leads_of_nodup hcores hoff hc
    have honline : ∀ c ∈ cpus.map (Cpu.set true), c.isOnline = true := by
      intro c hc
      obtain ⟨d, -, rfl⟩ := List.mem_map.mp hc
      exact Cpu.set_isOnline true d
    have hids' : ((cpus.map (Cpu.set true)).map Cpu.id).Nodup := (hmapIds fun _ => true).symm ▸ hids
    have hcores' : ((cpus.map (Cpu.set true)).map Cpu.coreId).Nodup :=
      (hmapCores fun _ => true).symm ▸ hcores
    refine ⟨_, hrun, fun c hc d hd _ _ _ hcore => ?_, fun c hc _ => ?_, fun listed hlisted => ?_⟩
    · exact congrArg Cpu.id (List.inj_on_of_nodup_map hcores' hc hd hcore)
    · exact ⟨_, List.mem_map_of_mem hc, Cpu.set_isOnline true c, Cpu.set_package true c,
        Cpu.set_coreId true c⟩
    · have hon : ∀ c ∈ listed, c.isOnline = true := fun c hc => honline c (hlisted.mem_iff.mp hc)
      have hidsListed := (hlisted.map Cpu.id).nodup_iff.mpr hids'
      have hcoresListed := (hlisted.map Cpu.coreId).nodup_iff.mpr hcores'
      rw [toggleSmt_of_leads hidsListed fun c hc => leads_of_nodup hcoresListed
        (fun c hc d hd hcoff => absurd (hon c hc) (Bool.eq_false_iff.mp hcoff)) hc]
      refine congrArg some ((List.map_congr_left fun c hc => ?_).trans (List.map_id listed))
      rw [Cpu.set, if_pos (hon c hc), id]

/-- Two CPUs of one core, both online. -/
def twoThreads : Topology where
  cpus := [⟨"0", 0, 0, none⟩, ⟨"1", 0, 0, some true⟩]
  nodup := by decide

/-- The second run switches the second CPU on again. -/
theorem toggleSmt_twoThreads :
    toggleSmt .disable twoThreads.cpus = some [⟨"0", 0, 0, none⟩, ⟨"1", 0, 0, some false⟩] ∧
      toggleSmt .disable [⟨"0", 0, 0, none⟩, ⟨"1", 0, 0, some false⟩] =
        some [⟨"0", 0, 0, none⟩, ⟨"1", 0, 0, some true⟩] ∧
      ¬ SmtDisabled twoThreads := by
  have hfirst : toggleSmt .disable twoThreads.cpus =
      some [⟨"0", 0, 0, none⟩, ⟨"1", 0, 0, some false⟩] := by decide
  have hsecond : toggleSmt .disable [⟨"0", 0, 0, none⟩, ⟨"1", 0, 0, some false⟩] =
      some [⟨"0", 0, 0, none⟩, ⟨"1", 0, 0, some true⟩] := by decide
  refine ⟨hfirst, hsecond, ?_⟩
  rintro ⟨cpus', hrun, -, -, hagain⟩
  obtain rfl := Option.some.inj (hfirst.symm.trans hrun)
  exact absurd (hsecond.symm.trans (hagain _ (.refl _))) (by decide)

end CacheNoise
