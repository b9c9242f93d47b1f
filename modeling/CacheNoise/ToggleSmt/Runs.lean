import CacheNoise.ToggleSmt.Order

/-!
# Runs of the script one after another

A machine with all CPUs online, and then any number of runs with any choices, each with the
directories in some order (`Toggled`). What matters is the number of runs with `d` since the last
one with `e` (`pending`).

The first run with `d` leaves the first CPU of each core online. Each further one finds the others
offline, in one group, and wakes the first of them that it has not just found awake, while it puts
that one to sleep again. So the runs alternate between the first two of these CPUs, and all others
stay offline until a run with `e` (`toggled_awake`).
-/

namespace CacheNoise

/-- A machine with all CPUs online. A CPU without the file `online` is the first of its core. -/
structure OnlineTopology extends Topology where
  online : ∀ c ∈ cpus, c.isOnline = true
  file : ∀ c ∈ cpus, c.online = none → Leads cpus c

/-- The CPUs that are not the first of their cores, in the order of their ids. -/
def siblings (cpus : List Cpu) : List Cpu :=
  (cpus.filter fun c => ¬ Leads cpus c).insertionSort fun a b => a.id ≤ b.id

/-- The CPU that the `n`-th further run with `d` wakes: the first sibling or the second one, in
turns. -/
def woken (cpus : List Cpu) : ℕ → Option Cpu
  | 0 => none
  | n + 1 => (siblings cpus)[n % 2]?

/-- The CPUs that are online after `n` runs with `d`. -/
def Awake (cpus : List Cpu) : ℕ → Cpu → Prop
  | 0, _ => True
  | n + 1, c => Leads cpus c ∨ woken cpus n = some c

theorem awake_zero (cpus : List Cpu) (c : Cpu) : Awake cpus 0 c := trivial

theorem awake_succ {cpus : List Cpu} {n : ℕ} {c : Cpu} :
    Awake cpus (n + 1) c ↔ Leads cpus c ∨ woken cpus n = some c := Iff.rfl

instance (cpus : List Cpu) : (n : ℕ) → (c : Cpu) → Decidable (Awake cpus n c)
  | 0, _ => isTrue trivial
  | n + 1, c => inferInstanceAs (Decidable (Leads cpus c ∨ woken cpus n = some c))

/-- The CPUs after `n` runs with `d`. -/
def slept (cpus : List Cpu) (n : ℕ) : List Cpu := cpus.map fun c => c.set (Awake cpus n c)

/-- The number of runs with `d` since the last one with `e`, after one more run. -/
def Choice.pending (n : ℕ) : Choice → ℕ
  | .enable => 0
  | .disable => n + 1
  | .other => n

/-- The number of runs with `d` since the last one with `e`. -/
def pending (choices : List Choice) : ℕ := choices.foldl Choice.pending 0

/-- Runs of the script one after another, each with the directories in some order. -/
inductive Toggled : List Cpu → List Choice → List Cpu → Prop
  | nil (cpus : List Cpu) : Toggled cpus [] cpus
  | cons {cpus listed cpus' cpus'' : List Cpu} {choice : Choice} {choices : List Choice}
      (hlisted : listed.Perm cpus) (hrun : toggleSmt choice listed = some cpus')
      (hrest : Toggled cpus' choices cpus'') : Toggled cpus (choice :: choices) cpus''

/-! ### The siblings -/

theorem mem_siblings {cpus : List Cpu} {c : Cpu} :
    c ∈ siblings cpus ↔ c ∈ cpus ∧ ¬ Leads cpus c := by
  rw [siblings, (List.perm_insertionSort _ _).mem_iff, List.mem_filter, decide_eq_true_eq]

theorem mem_siblings_of_woken {cpus : List Cpu} {n : ℕ} {c : Cpu} (h : woken cpus n = some c) :
    c ∈ siblings cpus := by
  cases n with
  | zero => cases h
  | succ n => exact List.mem_of_getElem? h

/-- The first of a list sorted by ids, with one place left out. -/
theorem getElem?_iff_first {l : List Cpu} (h : l.Pairwise fun a b => a.id < b.id) {i j : ℕ}
    (hij : i = if j = 0 then 1 else 0) {c : Cpu} : l[i]? = some c ↔
      c ∈ l ∧ l[j]? ≠ some c ∧ ∀ d ∈ l, l[j]? ≠ some d → c.id ≤ d.id := by
  rw [List.pairwise_iff_getElem] at h
  have hne : i ≠ j := by split at hij <;> omega
  have hle : ∀ k, k ≠ j → i ≤ k := fun k hk => by split at hij <;> omega
  -- no two places hold the same id
  have hplace : ∀ k (hk : k < l.length), k ≠ j → l[j]? ≠ some l[k] := by
    intro k hk hkj heq
    obtain ⟨hj, heq⟩ := List.getElem?_eq_some_iff.mp heq
    obtain hlt | hlt := lt_or_gt_of_ne hkj
    · exact absurd (h k j hk hj hlt) (by rw [heq]; exact lt_irrefl _)
    · exact absurd (h j k hj hk hlt) (by rw [heq]; exact lt_irrefl _)
  constructor
  · intro hc
    obtain ⟨hi, rfl⟩ := List.getElem?_eq_some_iff.mp hc
    refine ⟨List.getElem_mem hi, hplace i hi hne, fun d hd hdj => ?_⟩
    obtain ⟨k, hk, rfl⟩ := List.getElem_of_mem hd
    obtain rfl | hlt := (hle k fun hkj => hdj (by
      rw [← hkj, List.getElem?_eq_getElem hk])).eq_or_lt
    · exact le_rfl
    · exact (h i k hi hk hlt).le
  · rintro ⟨hc, hcj, hfirst⟩
    obtain ⟨k, hk, rfl⟩ := List.getElem_of_mem hc
    have hkj : k ≠ j := fun hkj => hcj (by rw [← hkj, List.getElem?_eq_getElem hk])
    obtain rfl | hlt := (hle k hkj).eq_or_lt
    · exact List.getElem?_eq_getElem hk
    · have hid := hfirst l[i] (List.getElem_mem (hlt.trans hk)) (hplace i (hlt.trans hk) hne)
      exact absurd (h i k (hlt.trans hk) hk hlt) (not_lt.mpr hid)

section

variable {t : OnlineTopology}

theorem pairwise_siblings : (siblings t.cpus).Pairwise fun a b => a.id < b.id := by
  have hsorted : (siblings t.cpus).Pairwise fun a b => a.id ≤ b.id := by
    have : IsTrans Cpu fun a b => a.id ≤ b.id := ⟨fun _ _ _ h h' => le_trans h h'⟩
    have : Std.Total fun a b : Cpu => a.id ≤ b.id := ⟨fun a b => le_total a.id b.id⟩
    exact List.pairwise_insertionSort _ _
  have hne : (siblings t.cpus).Pairwise fun a b => a.id ≠ b.id := by
    refine List.pairwise_map.mp (((List.perm_insertionSort _ _).map Cpu.id).nodup_iff.mpr ?_)
    exact t.nodup.sublist (List.filter_sublist.map Cpu.id)
  exact hsorted.imp₂ (fun _ _ hle hne => lt_of_le_of_ne hle hne) hne

/-- **The CPU that is woken** is the first sibling that has been asleep. -/
theorem woken_succ_iff (n : ℕ) {c : Cpu} : woken t.cpus (n + 1) = some c ↔
    c ∈ siblings t.cpus ∧ woken t.cpus n ≠ some c ∧
      ∀ d ∈ siblings t.cpus, woken t.cpus n ≠ some d → c.id ≤ d.id := by
  obtain _ | n := n
  · have hnone : woken t.cpus 0 = (siblings t.cpus)[(siblings t.cpus).length + 1]? :=
      (List.getElem?_eq_none (Nat.le_succ _)).symm
    rw [hnone]
    exact getElem?_iff_first (j := (siblings t.cpus).length + 1) (pairwise_siblings (t := t)) rfl
  · refine getElem?_iff_first (pairwise_siblings (t := t)) ?_
    split <;> omega

/-! ### One more run -/

/-- The CPUs that are grouped after `n` runs with `d`. -/
theorem physicalId_set (value : Bool) (c : Cpu) :
    (c.set value).theoretical.physicalId = if value = true then some c.coreId else none := by
  rw [Cpu.theoretical, Cpu.set_isOnline, Cpu.set_coreId]

/-- **One more run with `d`**: the leaders of the groups are those that are awake after it. -/
theorem leads_slept (n : ℕ) {c : Cpu} (hc : c ∈ t.cpus) :
    Leads (slept t.cpus n) (c.set (Awake t.cpus n c)) ↔ Awake t.cpus (n + 1) c := by
  have hleads : Leads (slept t.cpus n) (c.set (Awake t.cpus n c)) ↔ ∀ d ∈ t.cpus,
      (if Awake t.cpus n d then some d.coreId else none) =
        (if Awake t.cpus n c then some c.coreId else none) → c.id ≤ d.id := by
    simp only [Leads, slept, List.forall_mem_map, physicalId_set, Cpu.set_id, decide_eq_true_eq]
  have honline : ∀ d ∈ t.cpus, d.theoretical.physicalId = some d.coreId := fun d hd =>
    theoretical_of_online (t.online d hd)
  rw [hleads]
  obtain _ | n := n
  · -- all CPUs are online, so the groups are the cores
    have hcores : ∀ d ∈ t.cpus, (d.theoretical.physicalId = c.theoretical.physicalId ↔
        (if Awake t.cpus 0 d then some d.coreId else none) =
          if Awake t.cpus 0 c then some c.coreId else none) := fun d hd => by
      rw [honline d hd, honline c hc, if_pos (awake_zero _ d), if_pos (awake_zero _ c)]
    change _ ↔ Leads t.cpus c ∨ none = some c
    rw [or_iff_left (by simp)]
    exact forall₂_congr fun d hd => imp_congr_left (hcores d hd).symm
  by_cases hfirst : Leads t.cpus c
  · -- the first CPU of a core still leads it
    refine iff_of_true (fun d hd hkey => hfirst d hd ?_) (.inl hfirst)
    rw [if_pos (awake_succ.mpr (.inl hfirst))] at hkey
    split at hkey
    · rw [honline d hd, honline c hc, hkey]
    · cases hkey
  have hawake : Awake t.cpus (n + 1 + 1) c ↔ woken t.cpus (n + 1) = some c :=
    awake_succ.trans (or_iff_right hfirst)
  rw [hawake, woken_succ_iff]
  by_cases hwoken : woken t.cpus n = some c
  · -- the sibling that was woken is in the group of its core again
    refine iff_of_false (fun hall => ?_) fun h => h.2.1 hwoken
    obtain ⟨e, he, hleads, hkey⟩ := exists_leads hc
    rw [honline e he, honline c hc] at hkey
    have hle := hall e he (by
      rw [if_pos (awake_succ.mpr (.inl hleads)), if_pos (awake_succ.mpr (.inr hwoken)), hkey])
    have hge := hleads c hc (by rw [honline e he, honline c hc, hkey])
    have hid : e.id = c.id := le_antisymm hge hle
    exact hfirst (eq_of_id_eq t.nodup he hc hid ▸ hleads)
  · -- the siblings that are asleep are one group
    have hasleep : ¬ Awake t.cpus (n + 1) c := fun h => h.elim hfirst hwoken
    rw [if_neg hasleep, and_iff_right (mem_siblings.mpr ⟨hc, hfirst⟩), and_iff_right hwoken]
    refine ⟨fun hall d hd hdw => hall d (mem_siblings.mp hd).1 (if_neg ?_),
      fun hall d hd hkey => ?_⟩
    · exact fun h => h.elim (mem_siblings.mp hd).2 hdw
    · have hd' : ¬ Awake t.cpus (n + 1) d := fun h => by
        rw [if_pos h] at hkey
        cases hkey
      exact hall d (mem_siblings.mpr ⟨hd, fun h => hd' (.inl h)⟩) fun h => hd' (.inr h)

theorem Cpu.set_set {c : Cpu} (honline : c.isOnline = true) {value : Bool}
    (hfile : c.online = none → value = true) (value' : Bool) :
    (c.set value).set value' = c.set value' := by
  obtain ⟨id, package, coreId, _ | online⟩ := c
  · obtain rfl := hfile rfl
    rfl
  · obtain rfl : online = true := honline
    cases value <;> cases value' <;> rfl

/-- A CPU without the file `online` is never put to sleep. -/
theorem awake_of_no_file (n : ℕ) {c : Cpu} (hc : c ∈ t.cpus) (hfile : c.online = none) :
    Awake t.cpus n c := by
  cases n with
  | zero => exact trivial
  | succ n => exact .inl (t.file c hc hfile)

theorem nodup_slept (n : ℕ) : ((slept t.cpus n).map Cpu.id).Nodup := by
  have hmap : (slept t.cpus n).map Cpu.id = t.cpus.map Cpu.id := by
    rw [slept, List.map_map]
    exact List.map_congr_left fun c _ => Cpu.set_id _ c
  rw [hmap]
  exact t.nodup

theorem map_set_slept (n : ℕ) (value : Cpu → Bool) :
    (t.cpus.map fun c => (c.set (Awake t.cpus n c)).set (value c)) =
      t.cpus.map fun c => c.set (value c) :=
  List.map_congr_left fun c hc => Cpu.set_set (t.online c hc)
    (fun hnone => decide_eq_true (awake_of_no_file n hc hnone)) _

/-- **A run**, whatever order the directories are listed in. -/
theorem perm_slept_of_run {n : ℕ} {choice : Choice} {listed next : List Cpu}
    (hlisted : listed.Perm (slept t.cpus n)) (hrun : toggleSmt choice listed = some next) :
    next.Perm (slept t.cpus (choice.pending n)) := by
  have hids : (listed.map Cpu.id).Nodup := (hlisted.map Cpu.id).nodup_iff.mpr (nodup_slept n)
  cases choice with
  | enable =>
    have henabled := toggleSmt_eq_some_iff.mpr (toggleSmtUntil_enable hids)
    obtain rfl := Option.some.inj (hrun.symm.trans henabled)
    refine (hlisted.map (Cpu.set true)).trans (.of_eq ?_)
    rw [slept, List.map_map]
    exact map_set_slept n fun _ => true
  | disable =>
    rw [toggleSmt_disable hids hrun]
    have hleads : ∀ c ∈ slept t.cpus n, c.set (Leads listed c) = c.set (Leads (slept t.cpus n) c) :=
      fun c _ => by rw [decide_eq_decide.mpr (leads_congr hlisted c)]
    refine (hlisted.map _).trans (.of_eq ((List.map_congr_left hleads).trans ?_))
    have hawake : ∀ c ∈ t.cpus, (c.set (Awake t.cpus n c)).set
        (Leads (slept t.cpus n) (c.set (Awake t.cpus n c))) =
          (c.set (Awake t.cpus n c)).set (Awake t.cpus (n + 1) c) :=
      fun c hc => by rw [decide_eq_decide.mpr (leads_slept n hc)]
    rw [slept, List.map_map]
    exact (List.map_congr_left hawake).trans (map_set_slept n _)
  | other =>
    obtain rfl := Option.some.inj hrun
    exact hlisted

/-- A run raises no exception. -/
theorem run_slept_isSome {n : ℕ} {listed : List Cpu} (hlisted : listed.Perm (slept t.cpus n))
    (choice : Choice) : ∃ next, toggleSmt choice listed = some next := by
  have hids : (listed.map Cpu.id).Nodup := (hlisted.map Cpu.id).nodup_iff.mpr (nodup_slept n)
  cases choice with
  | enable => exact ⟨_, toggleSmt_eq_some_iff.mpr (toggleSmtUntil_enable hids)⟩
  | disable =>
    refine toggleSmt_disable_isSome hids fun c hc hnone => ?_
    obtain ⟨d, hd, rfl⟩ := List.mem_map.mp (hlisted.mem_iff.mp hc)
    rw [leads_congr hlisted, leads_slept n hd]
    -- a CPU that was switched off has the file
    have hfile : d.online = none := by
      rw [Cpu.set] at hnone
      split at hnone
      · exact hnone
      · cases hnone
    exact awake_of_no_file (n + 1) hd hfile
  | other => exact ⟨listed, rfl⟩

/-! ### Any number of runs -/

/-- The runs, from the CPUs after `n` runs with `d`. -/
theorem Toggled.perm_slept {n : ℕ} {cpus cpus' : List Cpu} {choices : List Choice}
    (h : Toggled cpus choices cpus') (hcpus : cpus.Perm (slept t.cpus n)) :
    cpus'.Perm (slept t.cpus (choices.foldl Choice.pending n)) := by
  induction h generalizing n with
  | nil => exact hcpus
  | cons hlisted hrun _ ih => exact ih (perm_slept_of_run (hlisted.trans hcpus) hrun)

theorem slept_zero : slept t.cpus 0 = t.cpus :=
  (List.map_congr_left fun c hc => if_pos (t.online c hc)).trans (List.map_id t.cpus)

/-- At most one CPU of each core is online, as far as the script tells the cores apart. -/
def SmtOff (cpus : List Cpu) : Prop :=
  ∀ c ∈ cpus, ∀ d ∈ cpus, c.isOnline = true → d.isOnline = true → c.coreId = d.coreId → c.id = d.id

instance (cpus : List Cpu) : Decidable (SmtOff cpus) :=
  inferInstanceAs (Decidable (∀ c ∈ cpus, ∀ d ∈ cpus, _ → _ → _ → _))

theorem smtOff_congr {cpus cpus' : List Cpu} (h : cpus.Perm cpus') :
    SmtOff cpus ↔ SmtOff cpus' := by
  simp only [SmtOff, h.mem_iff]

/-- Two CPUs of one core are online if a sibling is. -/
theorem smtOff_slept_iff (n : ℕ) :
    SmtOff (slept t.cpus n) ↔ ∀ c ∈ t.cpus, Awake t.cpus n c → Leads t.cpus c := by
  have hphysical : ∀ c ∈ t.cpus, c.theoretical.physicalId = some c.coreId := fun c hc =>
    theoretical_of_online (t.online c hc)
  simp only [SmtOff, slept, List.forall_mem_map, Cpu.set_isOnline, Cpu.set_coreId, Cpu.set_id,
    decide_eq_true_eq]
  constructor
  · intro hoff c hc hawake
    obtain ⟨e, he, hleads, hkey⟩ := exists_leads hc
    rw [hphysical e he, hphysical c hc] at hkey
    have hawake' : Awake t.cpus n e := by
      cases n with
      | zero => exact trivial
      | succ n => exact .inl hleads
    have hid := hoff e he c hc hawake' hawake (Option.some.inj hkey)
    exact eq_of_id_eq t.nodup he hc hid ▸ hleads
  · intro hall c hc d hd hcawake hdawake hcore
    refine (hall c hc hcawake).id_eq (hall d hd hdawake) hc hd ?_
    rw [hphysical c hc, hphysical d hd, hcore]

/-- SMT is off after `n` runs with `d` if the last of them woke no sibling. -/
theorem smtOff_slept (n : ℕ) : SmtOff (slept t.cpus n) ↔
    siblings t.cpus = [] ∨ ∃ m, n = m + 1 ∧ woken t.cpus m = none := by
  rw [smtOff_slept_iff]
  constructor
  · intro hall
    obtain _ | m := n
    · refine .inl (List.eq_nil_iff_forall_not_mem.mpr fun c hc => ?_)
      exact (mem_siblings.mp hc).2 (hall c (mem_siblings.mp hc).1 trivial)
    · refine .inr ⟨m, rfl, Option.eq_none_iff_forall_ne_some.mpr fun c hc => ?_⟩
      have hmem := mem_siblings.mp (mem_siblings_of_woken hc)
      exact hmem.2 (hall c hmem.1 (.inr hc))
  · rintro (hnil | ⟨m, rfl, hnone⟩) c hc hawake
    · by_contra hleads
      have hmem := mem_siblings.mpr ⟨hc, hleads⟩
      rw [hnil] at hmem
      cases hmem
    · obtain hleads | hwoken := hawake
      · exact hleads
      · rw [hnone] at hwoken
        cases hwoken

/-- **After any runs of the script**, the CPUs are those that are left by the runs with `d` since
the last one with `e`; a further run raises no exception; and SMT is off if and only if the last
of these runs woke no sibling. -/
theorem toggled_awake (t : OnlineTopology) {choices : List Choice} {cpus' : List Cpu}
    (h : Toggled t.cpus choices cpus') :
    cpus'.Perm (slept t.cpus (pending choices)) ∧
      (∀ choice listed, listed.Perm cpus' → ∃ next, toggleSmt choice listed = some next) ∧
      (SmtOff cpus' ↔
        siblings t.cpus = [] ∨ ∃ n, pending choices = n + 1 ∧ woken t.cpus n = none) := by
  have hperm : cpus'.Perm (slept t.cpus (pending choices)) :=
    h.perm_slept (.of_eq slept_zero.symm)
  refine ⟨hperm, fun choice listed hlisted => run_slept_isSome (hlisted.trans hperm) choice, ?_⟩
  rw [smtOff_congr hperm, smtOff_slept]

end

/-- Two cores with two CPUs each. -/
def twoCores : OnlineTopology where
  cpus := [⟨"0", 0, 0, none⟩, ⟨"1", 0, 0, some true⟩, ⟨"2", 0, 1, some true⟩,
    ⟨"3", 0, 1, some true⟩]
  nodup := by decide
  online := by decide
  file := by decide

/-- After the second run with `d`, CPU 1 is online. The third one finds CPU 3 alone in its group
of CPUs that are offline, and wakes it in place of CPU 1: SMT is not off. -/
theorem toggled_awake_twoCores :
    slept twoCores.cpus 2 = [⟨"0", 0, 0, none⟩, ⟨"1", 0, 0, some true⟩, ⟨"2", 0, 1, some true⟩,
      ⟨"3", 0, 1, some false⟩] ∧
    ¬ SmtOff [⟨"3", 0, 1, some true⟩, ⟨"2", 0, 1, some true⟩, ⟨"1", 0, 0, some false⟩,
      ⟨"0", 0, 0, none⟩] := by
  have hfirst : toggleSmt .disable twoCores.cpus = some [⟨"0", 0, 0, none⟩, ⟨"1", 0, 0, some false⟩,
      ⟨"2", 0, 1, some true⟩, ⟨"3", 0, 1, some false⟩] := by decide
  have hsecond : toggleSmt .disable [⟨"0", 0, 0, none⟩, ⟨"1", 0, 0, some false⟩,
      ⟨"2", 0, 1, some true⟩, ⟨"3", 0, 1, some false⟩] = some [⟨"0", 0, 0, none⟩,
      ⟨"1", 0, 0, some true⟩, ⟨"2", 0, 1, some true⟩, ⟨"3", 0, 1, some false⟩] := by decide
  have hthird : toggleSmt .disable [⟨"3", 0, 1, some false⟩, ⟨"2", 0, 1, some true⟩,
      ⟨"1", 0, 0, some true⟩, ⟨"0", 0, 0, none⟩] = some [⟨"3", 0, 1, some true⟩,
      ⟨"2", 0, 1, some true⟩, ⟨"1", 0, 0, some false⟩, ⟨"0", 0, 0, none⟩] := by decide
  have hruns := Toggled.cons (.refl _) hfirst
    (.cons (.refl _) hsecond (.cons (List.reverse_perm _) hthird (.nil _)))
  obtain ⟨-, -, hoff⟩ := toggled_awake twoCores hruns
  refine ⟨by decide, fun h => ?_⟩
  obtain hnil | ⟨n, hn, hnone⟩ := hoff.mp h
  · exact absurd hnil (by decide)
  · obtain rfl : n = 2 := Nat.succ_injective hn.symm
    exact absurd hnone (by decide)

end CacheNoise
