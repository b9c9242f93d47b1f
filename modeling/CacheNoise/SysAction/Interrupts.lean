import CacheNoise.SysAction

/-!
# The handler of `SIGCHLD` in small steps

`Signal` says what happens between two calls of the profiler in whole steps: a child ends, a handler
runs. Here the same is told in smaller ones (`Interrupts.step`). The signal of a child that ends
becomes pending, and those of several children are one; it is delivered when the handler is not
running, as it is blocked until the handler has returned; and between two calls of `waitpid`, more
children may end and other signals be handled.

No child is lost by this: one that waits to be reaped has a signal pending or the handler running,
which reaps until none waits (`Interrupts.Sound`). Therefore the children are the same as if each
run of the handler were one step, at its end (`interrupted_coarse`).
-/

namespace CacheNoise

/-- The profiler between two of its calls, as far as signals go. -/
structure Interrupts where
  children : Processes
  /-- `SIGCHLD` is pending. -/
  pending : Bool
  /-- `extern_process_signal_handler` is in its loop. -/
  handling : Bool
  terminated : Bool

/-- What happens in one small step. -/
inductive Interrupts.Act
  /-- A child ends. -/
  | exited (pid : ℤ)
  /-- `SIGCHLD` is delivered: its handler begins. -/
  | delivered
  /-- A pass of the loop of the handler, which returns after the last one. -/
  | pass
  /-- `signal_handler` runs. -/
  | handled (signo : Signo)
  deriving DecidableEq

/-- A small step; `none` if it can not happen. -/
def Interrupts.step (s : Interrupts) : Interrupts.Act → Option Interrupts
  | .exited pid =>
    if (pid, .running) ∈ s.children then
      some { s with children := (Signal.exited pid).act s.children, pending := true }
    else none
  | .delivered =>
    if s.pending = true ∧ s.handling = false then
      some { s with pending := false, handling := true }
    else none
  | .pass =>
    if s.handling = false then none
    else if (waitpid s.children).1 > 0 then some { s with children := (waitpid s.children).2 }
    else
      some { s with children := (waitpid s.children).2, handling := false, terminated := true }
  | .handled _ => some { s with terminated := true }

/-- The whole step that a small one completes, if any. -/
def Interrupts.signals (s : Interrupts) : Interrupts.Act → List Signal
  | .exited pid => [.exited pid]
  | .delivered => []
  | .pass => if (waitpid s.children).1 > 0 then [] else [.sigchld]
  | .handled signo => [.handled signo]

/-- Small steps one after another, with the whole steps that they complete. -/
inductive Interrupted : Interrupts → List Interrupts.Act → List Signal → Interrupts → Prop
  | nil (s : Interrupts) : Interrupted s [] [] s
  | cons {s s₁ s₂ : Interrupts} {act : Interrupts.Act} {acts : List Interrupts.Act}
      {signals : List Signal} (h : s.step act = some s₁) (hrest : Interrupted s₁ acts signals s₂) :
      Interrupted s (act :: acts) (s.signals act ++ signals) s₂

/-- The PIDs are those of processes, no child waits in vain, and none has ended in vain. -/
structure Interrupts.Sound (s : Interrupts) : Prop where
  positive : ∀ child ∈ s.children, 0 < child.1
  waiting : ∀ child ∈ s.children, child.2 = .waiting → s.pending = true ∨ s.handling = true
  ended : ∀ child ∈ s.children, child.2 ≠ .running →
    s.terminated = true ∨ s.pending = true ∨ s.handling = true

/-! ### `waitpid` -/

/-- A child that waits is reaped. -/
def reap (child : ℤ × ChildState) : ℤ × ChildState :=
  if child.2 = .waiting then (child.1, .reaped) else child

theorem map_reap {children : Processes} (h : ∀ child ∈ children, child.2 ≠ .waiting) :
    children.map reap = children :=
  (List.map_congr_left fun child hchild => if_neg (h child hchild)).trans (List.map_id children)

/-- **`waitpid`** reaps the first child that waits, or there is none. -/
theorem waitpid_cases {children : Processes} (hpos : ∀ child ∈ children, 0 < child.1) :
    (0 < (waitpid children).1 ∧ ∃ pre pid post, children = pre ++ (pid, .waiting) :: post ∧
      (waitpid children).2 = pre ++ (pid, .reaped) :: post) ∨
    (¬ 0 < (waitpid children).1 ∧ (waitpid children).2 = children ∧
      ∀ child ∈ children, child.2 ≠ .waiting) := by
  induction children with
  | nil => exact .inr ⟨by decide, rfl, fun child h => absurd h List.not_mem_nil⟩
  | cons child rest ih =>
    obtain ⟨hchild, hrest⟩ := List.forall_mem_cons.mp hpos
    obtain ⟨pid, _ | _ | _⟩ := child
    · -- a child that is running is passed over
      have hres : 0 < (waitpid ((pid, .running) :: rest)).1 ↔ 0 < (waitpid rest).1 := by
        change 0 < max (waitpid rest).1 0 ↔ _
        omega
      rw [hres]
      refine (ih hrest).imp ?_ ?_
      · rintro ⟨hpos, pre, pid', post, hsplit, hnext⟩
        exact ⟨hpos, (pid, .running) :: pre, pid', post, congrArg _ hsplit, congrArg _ hnext⟩
      · rintro ⟨hnone, hsame, hall⟩
        exact ⟨hnone, congrArg _ hsame, List.forall_mem_cons.mpr ⟨nofun, hall⟩⟩
    · exact .inl ⟨hchild, [], pid, rest, rfl, rfl⟩
    · refine (ih hrest).imp ?_ ?_
      · rintro ⟨hpos, pre, pid', post, hsplit, hnext⟩
        exact ⟨hpos, (pid, .reaped) :: pre, pid', post, congrArg _ hsplit, congrArg _ hnext⟩
      · rintro ⟨hnone, hsame, hall⟩
        exact ⟨hnone, congrArg _ hsame, List.forall_mem_cons.mpr ⟨nofun, hall⟩⟩

/-- **The handler** reaps all children that wait, and changes nothing else. -/
theorem externProcessSignalHandler_eq {children : Processes}
    (hpos : ∀ child ∈ children, 0 < child.1) :
    externProcessSignalHandler children = children.map reap := by
  have hloop : ∀ fuel (children : Processes), (∀ child ∈ children, 0 < child.1) →
      children.countP (fun child => child.2 = .waiting) < fuel →
        externProcessSignalHandlerLoop fuel children = children.map reap := by
    intro fuel
    induction fuel with
    | zero => exact fun _ _ h => absurd h (Nat.not_lt_zero _)
    | succ fuel ih =>
      intro children hpos hlt
      rw [externProcessSignalHandlerLoop]
      obtain ⟨hres, pre, pid, post, rfl, hnext⟩ | ⟨hres, hsame, hnone⟩ := waitpid_cases hpos
      · rw [if_pos hres, hnext, ih]
        · simp [reap]
        · simpa [or_imp, forall_and] using hpos
        · simp only [List.countP_append, List.countP_cons] at hlt ⊢
          simp at hlt ⊢
          omega
      · rw [if_neg hres, hsame, map_reap hnone]
  exact hloop _ _ hpos (Nat.lt_succ_of_le List.countP_le_length)

/-! ### No child is lost -/

/-- A child that ends waits. -/
theorem mem_act_exited {children : Processes} {pid : ℤ} {child : ℤ × ChildState}
    (h : child ∈ (Signal.exited pid).act children) :
    child ∈ children ∨ (child = (pid, .waiting) ∧ (pid, .running) ∈ children) := by
  obtain ⟨child', hchild', heq⟩ := List.mem_map.mp h
  split_ifs at heq with hrunning
  · exact .inr ⟨heq.symm, hrunning ▸ hchild'⟩
  · exact .inl (heq ▸ hchild')

/-- What a small step can be. -/
inductive Interrupts.Stepped (s : Interrupts) : Interrupts.Act → Interrupts → Prop
  | exited {pid : ℤ} (hrunning : (pid, .running) ∈ s.children) : Stepped s (.exited pid)
      { s with children := (Signal.exited pid).act s.children, pending := true }
  | delivered (hidle : s.handling = false) :
      Stepped s .delivered { s with pending := false, handling := true }
  /-- A pass that reaps a child. -/
  | reaped {pre post : Processes} {pid : ℤ} (hhandling : s.handling = true)
      (hres : 0 < (waitpid s.children).1) (hsplit : s.children = pre ++ (pid, .waiting) :: post)
      (hnext : (waitpid s.children).2 = pre ++ (pid, .reaped) :: post) :
      Stepped s .pass { s with children := (waitpid s.children).2 }
  /-- The last pass. -/
  | returned (hhandling : s.handling = true) (hres : ¬ 0 < (waitpid s.children).1)
      (hnone : ∀ child ∈ s.children, child.2 ≠ .waiting) :
      Stepped s .pass { s with handling := false, terminated := true }
  | handled (signo : Signo) : Stepped s (.handled signo) { s with terminated := true }

theorem Interrupts.Sound.stepped {s s' : Interrupts} (hs : s.Sound) {act : Interrupts.Act}
    (h : s.step act = some s') : s.Stepped act s' := by
  cases act with
  | exited pid =>
    rw [Interrupts.step] at h
    split_ifs at h with hrunning
    obtain rfl := Option.some.inj h
    exact .exited hrunning
  | delivered =>
    rw [Interrupts.step] at h
    split_ifs at h with hdelivered
    obtain rfl := Option.some.inj h
    exact .delivered hdelivered.2
  | pass =>
    rw [Interrupts.step] at h
    split_ifs at h with hidle hres <;> obtain rfl := Option.some.inj h <;>
      obtain ⟨hpos, pre, pid, post, hsplit, hnext⟩ | ⟨hpos, hsame, hnone⟩ :=
        waitpid_cases hs.positive
    · exact .reaped (eq_true_of_ne_false hidle) hres hsplit hnext
    · exact absurd hres hpos
    · exact absurd hpos hres
    · rw [hsame]
      exact .returned (eq_true_of_ne_false hidle) hres hnone
  | handled signo =>
    obtain rfl := Option.some.inj h
    exact .handled signo

/-- **A small step loses no child.** -/
theorem Interrupts.Stepped.sound {s s' : Interrupts} {act : Interrupts.Act}
    (h : s.Stepped act s') (hs : s.Sound) : s'.Sound := by
  cases h with
  | @exited pid hrunning =>
    refine ⟨fun child hchild => ?_, fun _ _ _ => .inl rfl, fun _ _ _ => .inr (.inl rfl)⟩
    obtain hmem | ⟨rfl, -⟩ := mem_act_exited hchild
    · exact hs.positive child hmem
    · exact hs.positive (pid, .running) hrunning
  | delivered hidle => exact ⟨hs.positive, fun _ _ _ => .inr rfl, fun _ _ _ => .inr (.inr rfl)⟩
  | @reaped pre post pid hhandling hres hsplit hnext =>
    refine ⟨?_, fun _ _ _ => .inr hhandling, fun _ _ _ => .inr (.inr hhandling)⟩
    have hpos := hs.positive
    rw [hsplit] at hpos
    rw [hnext]
    simpa [or_imp, forall_and] using hpos
  | returned hhandling hres hnone =>
    exact ⟨hs.positive, fun child hchild hwaits => absurd hwaits (hnone child hchild),
      fun _ _ _ => .inl rfl⟩
  | handled signo => exact ⟨hs.positive, hs.waiting, fun _ _ _ => .inl rfl⟩

/-! ### Small steps and whole ones -/

/-- What has become of a child in small steps is what it has in whole ones, or it has been reaped
by the handler that is running. -/
def Behind (handling : Bool) (whole small : ℤ × ChildState) : Prop :=
  small = whole ∨ (handling = true ∧ whole.2 = .waiting ∧ small = reap whole)

theorem Behind.eq {whole small : ℤ × ChildState} (h : Behind false whole small) : small = whole :=
  h.resolve_right fun h => Bool.false_ne_true h.1

theorem behind_refl {handling : Bool} (children : Processes) :
    List.Forall₂ (Behind handling) children children :=
  List.forall₂_same.mpr fun _ _ => .inl rfl

theorem behind_handling {handling : Bool} {whole small : Processes}
    (h : List.Forall₂ (Behind handling) whole small) : List.Forall₂ (Behind true) whole small :=
  h.imp fun _ _ hb => hb.imp_right fun hb => ⟨rfl, hb.2⟩

/-- A child ends, in both. -/
theorem behind_exited {handling : Bool} {whole small : Processes}
    (h : List.Forall₂ (Behind handling) whole small) (pid : ℤ) :
    List.Forall₂ (Behind handling) ((Signal.exited pid).act whole)
      ((Signal.exited pid).act small) := by
  rw [Signal.act, Signal.act, List.forall₂_map_left_iff, List.forall₂_map_right_iff]
  refine h.imp fun w v hb => ?_
  obtain rfl | ⟨hhandling, hwaiting, rfl⟩ := hb
  · exact .inl rfl
  · -- neither a child that waits nor one that was reaped ends
    have hw : w ≠ (pid, .running) := by
      rintro rfl
      cases hwaiting
    have hreap : reap w ≠ (pid, .running) := by
      rw [reap, if_pos hwaiting]
      exact fun h => absurd (Prod.mk.inj h).2 (by decide)
    rw [if_neg hw, if_neg hreap]
    exact .inr ⟨hhandling, hwaiting, rfl⟩

/-- A child is reaped in small steps. -/
theorem behind_waitpid {whole small : Processes} (h : List.Forall₂ (Behind true) whole small) :
    List.Forall₂ (Behind true) whole (waitpid small).2 := by
  induction h with
  | nil => exact .nil
  | @cons w v whole small hb hrest ih =>
    obtain ⟨pid, _ | _ | _⟩ := v
    · exact .cons hb ih
    · refine .cons (.inr ⟨rfl, ?_⟩) hrest
      obtain rfl | ⟨-, hwaiting, hreap⟩ := hb
      · exact ⟨rfl, rfl⟩
      · rw [reap, if_pos hwaiting] at hreap
        cases hreap
    · exact .cons hb ih

/-- When none waits any more, the whole step has been done. -/
theorem behind_finished {whole small : Processes} (h : List.Forall₂ (Behind true) whole small)
    (hnone : ∀ child ∈ small, child.2 ≠ .waiting) : small = whole.map reap := by
  induction h with
  | nil => rfl
  | @cons w v whole small hb hrest ih =>
    obtain ⟨hv, hsmall⟩ := List.forall_mem_cons.mp hnone
    rw [List.map_cons, ih hsmall]
    obtain rfl | ⟨-, -, rfl⟩ := hb
    · rw [reap, if_neg hv]
    · rfl

/-- The PIDs are the same. -/
theorem behind_positive {handling : Bool} {whole small : Processes}
    (h : List.Forall₂ (Behind handling) whole small) (hpos : ∀ child ∈ small, 0 < child.1) :
    ∀ child ∈ whole, 0 < child.1 := by
  induction h with
  | nil => exact fun child hchild => absurd hchild List.not_mem_nil
  | @cons w v whole small hb hrest ih =>
    obtain ⟨hv, hsmall⟩ := List.forall_mem_cons.mp hpos
    refine List.forall_mem_cons.mpr ⟨?_, ih hsmall⟩
    obtain rfl | ⟨-, hwaiting, rfl⟩ := hb
    · exact hv
    · rwa [reap, if_pos hwaiting] at hv

/-- **A small step**, and the whole steps that it completes. -/
theorem Interrupts.Stepped.simulates {s s' : Interrupts} {act : Interrupts.Act}
    (h : s.Stepped act s') (hs : s.Sound) {whole : Processes}
    (hb : List.Forall₂ (Behind s.handling) whole s.children) :
    List.Forall₂ (Behind s'.handling) ((s.signals act).foldl Signal.act whole) s'.children := by
  cases h with
  | @exited pid hrunning => exact behind_exited hb pid
  | delivered hidle => exact behind_handling hb
  | reaped hhandling hres hsplit hnext =>
    rw [hhandling] at hb
    rw [Interrupts.signals, if_pos hres]
    exact hhandling.symm ▸ behind_waitpid hb
  | returned hhandling hres hnone =>
    have hwhole := externProcessSignalHandler_eq (behind_positive hb hs.positive)
    have hfinished := behind_finished (behind_handling hb) hnone
    rw [Interrupts.signals, if_neg hres]
    change List.Forall₂ _ (externProcessSignalHandler whole) s.children
    rw [hwhole, hfinished]
    exact behind_refl _
  | handled signo => exact hb

/-! ### The handler returns -/

/-- The children that have not been reaped. -/
def unreaped (children : Processes) : ℕ := children.countP fun child => child.2 ≠ .reaped

/-- The passes that are left if no child is spawned and no signal delivered. -/
def Interrupts.passes (s : Interrupts) : ℕ := unreaped s.children + s.handling.toNat

theorem unreaped_act_exited (children : Processes) (pid : ℤ) :
    unreaped ((Signal.exited pid).act children) = unreaped children := by
  rw [unreaped, Signal.act, List.countP_map]
  refine List.countP_congr fun child _ => ?_
  rw [Function.comp_apply]
  split_ifs with h
  · rw [h]
    exact iff_of_true rfl rfl
  · exact Iff.rfl

/-- **Each pass is one less.** -/
theorem Interrupts.Stepped.passes {s s' : Interrupts} {act : Interrupts.Act}
    (h : s.Stepped act s') :
    s'.passes + [act].count .pass = s.passes + [act].count .delivered := by
  cases h with
  | @exited pid hrunning =>
    exact congrArg (· + s.handling.toNat) (unreaped_act_exited s.children pid)
  | delivered hidle =>
    rw [Interrupts.passes, Interrupts.passes, hidle]
    rfl
  | reaped hhandling hres hsplit hnext =>
    have hless : unreaped (waitpid s.children).2 + 1 = unreaped s.children := by
      rw [hnext, hsplit, unreaped, unreaped]
      simp [List.countP_append]
      omega
    change unreaped (waitpid s.children).2 + s.handling.toNat + 1 =
      unreaped s.children + s.handling.toNat + 0
    omega
  | returned hhandling hres hnone =>
    rw [Interrupts.passes, Interrupts.passes, hhandling]
    rfl
  | handled signo => rfl

/-! ### Whole runs -/

/-- What a run of small steps keeps, and what it comes to. -/
theorem Interrupted.run {s s' : Interrupts} {acts : List Interrupts.Act} {signals : List Signal}
    (h : Interrupted s acts signals s') (hs : s.Sound) {whole : Processes}
    (hb : List.Forall₂ (Behind s.handling) whole s.children) :
    s'.Sound ∧ List.Forall₂ (Behind s'.handling) (signals.foldl Signal.act whole) s'.children ∧
      s'.passes + acts.count .pass = s.passes + acts.count .delivered := by
  induction h generalizing whole with
  | nil s => exact ⟨hs, hb, rfl⟩
  | @cons s s₁ s₂ act acts signals hstep hrest ih =>
    have hstepped := hs.stepped hstep
    obtain ⟨hsound, hbehind, hpasses⟩ := ih (hstepped.sound hs) (hstepped.simulates hs hb)
    have hone := hstepped.passes
    refine ⟨hsound, ?_, ?_⟩
    · rwa [List.foldl_append]
    · rw [← List.singleton_append, List.count_append, List.count_append]
      omega

/-- **Signals in small steps** between two calls, when no handler is running at either: the
children are the same as after the whole steps; if no signal is pending, none of them waits, and
the flag is set if any of them has ended; and the handlers have called `waitpid` once for each child
that they reaped, and once more each. -/
theorem interrupted_coarse {s s' : Interrupts} {acts : List Interrupts.Act} {signals : List Signal}
    (h : Interrupted s acts signals s') (hs : s.Sound) (hidle : s.handling = false)
    (hidle' : s'.handling = false) :
    s'.children = signals.foldl Signal.act s.children ∧
      (s'.pending = false → (∀ child ∈ s'.children, child.2 ≠ .waiting) ∧
        ((∃ child ∈ s'.children, child.2 ≠ .running) → s'.terminated = true)) ∧
      unreaped s'.children + acts.count .pass = unreaped s.children + acts.count .delivered := by
  obtain ⟨hsound, hbehind, hpasses⟩ := h.run hs (behind_refl s.children)
  rw [hidle'] at hbehind
  refine ⟨?_, fun hpending => ⟨fun child hchild hwaits => ?_, ?_⟩, ?_⟩
  · have hsame : List.Forall₂ (· = ·) (signals.foldl Signal.act s.children) s'.children :=
      hbehind.imp fun _ _ hb => hb.eq.symm
    rw [List.forall₂_eq_eq_eq] at hsame
    exact hsame.symm
  · obtain hp | hp := hsound.waiting child hchild hwaits
    · rw [hpending] at hp
      cases hp
    · rw [hidle'] at hp
      cases hp
  · rintro ⟨child, hchild, hended⟩
    obtain hset | hp | hp := hsound.ended child hchild hended
    · exact hset
    · rw [hpending] at hp
      cases hp
    · rw [hidle'] at hp
      cases hp
  · rwa [Interrupts.passes, Interrupts.passes, hidle, hidle'] at hpasses

/-- Two children are running. -/
def twoRunning : Interrupts := ⟨[(200, .running), (300, .running)], false, false, false⟩

/-- The second child ends while the handler of the first is running: it is reaped by that handler,
and the one that its own signal is delivered to finds none. -/
theorem interrupted_coarse_twoRunning : ([(200, .reaped), (300, .reaped)] : Processes) =
    [.exited 200, .exited 300, .sigchld, .sigchld].foldl Signal.act twoRunning.children := by
  have hrun : Interrupted twoRunning
      [.exited 200, .delivered, .exited 300, .pass, .pass, .pass, .delivered, .pass]
      [.exited 200, .exited 300, .sigchld, .sigchld]
      ⟨[(200, .reaped), (300, .reaped)], false, false, true⟩ :=
    .cons rfl (.cons rfl (.cons rfl (.cons rfl (.cons rfl (.cons rfl (.cons rfl (.cons rfl
      (.nil _))))))))
  exact (interrupted_coarse hrun ⟨by decide, by decide, by decide⟩ rfl rfl).1

end CacheNoise
