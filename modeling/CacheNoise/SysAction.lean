import CacheNoise.System

/-!
# Queries and actions

The functions of `sys_info.c` that `main` calls, as far as they are not pure, and those of
`sys_action.c`: the affinity of a process, the cycle counter and the external program, with the
handler of `SIGCHLD`.

`Processes` is the table of the processes that this run has spawned. `processes` reads it off
the events of a run: `posix_spawnp` adds a running child, an exit turns it into one that waits
for its parent, and the handler reaps those that wait. The handler calls `waitpid` until no
child is left to report, so after it none waits (`externProcessSignalHandler_waiting`).
-/

namespace CacheNoise

open Interaction

/-! ### Queries -/

/-- `READ_PROP_PUT`, with the error code of its suffix. -/
def readPropPut (file : PropFile) (errorIoSuffix : ErrorT) : Proc (Except ErrorT UInt32) := do
  match ← sys (.readProp file) with
  | .missing => pure (.error errorIoSuffix)
  | .empty => pure (.error errorFmt)
  | .read value => pure (.ok value)

/-- `get_hugepagenr`. -/
def getHugepagenr : Proc (Except ErrorT UInt32) := readPropPut .nrHugepages errorIoHugepageNumber

/-- `get_hugepagesize`. -/
def getHugepagesize : Proc (Except ErrorT UInt64) := do
  match ← sys .meminfo with
  | none => pure (.error errorIoProcMeminfo)
  | some size => pure (.ok size)

/-- `has_root_access`. -/
def hasRootAccess : Proc Bool := do
  let uid ← sys .getuid
  pure (uid == 0)

/-- `get_current_cpu_core`. -/
def getCurrentCpuCore : Proc (Except ErrorT UInt32) := do
  let res ← sys .schedGetcpu
  pure (if res < 0 then .error errorGetCpuCore else .ok res.toUInt32)

/-- `can_use_rdpmc`. -/
def canUseRdpmc : Proc ErrorT := do
  match ← readPropPut .rdpmc errorIoRdpmc with
  | .error res => pure res
  | .ok value => pure (if value ≠ 2 then errorRdpmc else errorNone)

/-! ### Affinity and the cycle counter -/

/-- `focus_cpu_core`. -/
def focusCpuCore (pid cpu : UInt32) : Proc ErrorT := do
  let res ← sys (.schedSetaffinity pid cpu)
  pure (if res ≠ 0 then errorSetAffinity else errorNone)

/-- `enable_cpu_cycle_counter`; the descriptor is returned on success. -/
def enableCpuCycleCounter (cpu : UInt32) : Proc (Except ErrorT UInt32) := do
  let fd ← sys (.perfEventOpen cpu)
  -- `-1`, as the unsigned `*fd` is compared with it
  if fd = 0xffffffff then pure (.error errorFdCycle)
  else do
    let reset ← sys (.ioctl fd .reset)
    if reset ≠ 0 then pure (.error errorFdCycle)
    else do
      let enable ← sys (.ioctl fd .enable)
      pure (if enable ≠ 0 then .error errorFdCycle else .ok fd)

/-- `disable_cpu_cycle_counter`. -/
def disableCpuCycleCounter (fd : UInt32) : Proc ErrorT := do
  let disable ← sys (.ioctl fd .disable)
  pure (if disable ≠ 0 then errorFdCycleClose else errorNone)

/-! ### The external program -/

/-- The part of a path after its last slash, GNU `basename`. -/
def basename (path : String) : String := (path.splitOn "/").getLast?.getD ""

/-- The end of `run_program`: the error code, with `*pid`. -/
def spawn (path : String) (argv : List String) : Proc (ErrorT × Int32) := do
  let (ret, pid) ← sys (.posixSpawnp path argv)
  pure (if ret ≠ 0 then errorSpawnSpawn else errorNone, pid)

/-- `run_program`, with `*pid` before and after. The code that `wordexp` returns is not
looked at. -/
def runProgram (path arguments : Option String) (pid : Int32) : Proc (ErrorT × Int32) := do
  match path with
  | none => pure (errorSpawnPathNull, pid)
  | some path => do
    let attr ← sys .posixSpawnattrInit
    if attr ≠ 0 then pure (errorSpawnAttrInit, pid)
    else do
      let actions ← sys .posixSpawnFileActionsInit
      if actions ≠ 0 then pure (errorSpawnFileInit, pid)
      else
        match arguments with
        | some arguments => do
          let p ← sys (.wordexp arguments)
          let argv ← sys .malloc
          if argv = false then pure (errorAllocation, pid)
          else spawn path (basename path :: p.words)
        | none => spawn path [basename path]

/-! ### The children of a run -/

/-- What has become of a child. -/
inductive ChildState
  | running
  /-- Ended, and not yet reaped. -/
  | waiting
  | reaped
  deriving DecidableEq

/-- The children of a run, in the order of their spawning. -/
abbrev Processes : Type := List (ℤ × ChildState)

/-- `waitpid(-1, &status, WNOHANG)`: a child that waits is reaped and its PID returned;
otherwise the result is 0, or -1 when there is no child. -/
def waitpid : Processes → ℤ × Processes
  | [] => (-1, [])
  | (pid, .waiting) :: rest => (pid, (pid, .reaped) :: rest)
  | (pid, .running) :: rest =>
    let (res, rest) := waitpid rest
    (max res 0, (pid, .running) :: rest)
  | (pid, .reaped) :: rest =>
    let (res, rest) := waitpid rest
    (res, (pid, .reaped) :: rest)

/-- The loop of `extern_process_signal_handler`, with a bound on its passes. -/
def externProcessSignalHandlerLoop : ℕ → Processes → Processes
  | 0, children => children
  | fuel + 1, children =>
    if (waitpid children).1 > 0 then externProcessSignalHandlerLoop fuel (waitpid children).2
    else (waitpid children).2

/-- `extern_process_signal_handler`: every pass but the last reaps a child. That it also sets
`terminated` is seen by the call that reads the flag. -/
def externProcessSignalHandler (children : Processes) : Processes :=
  externProcessSignalHandlerLoop (children.length + 1) children

/-- What a signal does to the table. -/
def Signal.act (children : Processes) : Signal → Processes
  | .exited pid =>
    children.map fun child => if child = (pid, .running) then (pid, .waiting) else child
  | .sigchld => externProcessSignalHandler children
  | .handled _ => children

/-- What an event does to the table: its signals come first. -/
def spawnStep (children : Processes) (e : Event) : Processes :=
  let children := e.2.signals.foldl Signal.act children
  match e with
  | ⟨.posixSpawnp .., a⟩ =>
    if a.value.1 = 0 then children ++ [(a.value.2.toInt, .running)] else children
  | _ => children

/-- The table after the events of a run. -/
def processes (t : List Event) : Processes := t.foldl spawnStep []

/-! ### The handler reaps -/

private theorem waitpid_pos {children : Processes} (hpos : ∀ child ∈ children, 0 < child.1) :
    (∀ child ∈ (waitpid children).2, 0 < child.1) ∧
      (0 < (waitpid children).1 →
        (waitpid children).2.countP (fun child => child.2 = .waiting) + 1 =
          children.countP fun child => child.2 = .waiting) ∧
      (¬ 0 < (waitpid children).1 →
        (waitpid children).2.countP (fun child => child.2 = .waiting) = 0) := by
  induction children with
  | nil => simp [waitpid]
  | cons child rest ih =>
    obtain ⟨hchild, hrest⟩ := List.forall_mem_cons.mp hpos
    obtain ⟨ihpos, ihreap, ihnone⟩ := ih hrest
    obtain ⟨pid, _ | _ | _⟩ := child
    · refine ⟨?_, fun h => ?_, fun h => ?_⟩
      · exact List.forall_mem_cons.mpr ⟨hchild, ihpos⟩
      · have hres : 0 < (waitpid rest).1 := by
          change 0 < max (waitpid rest).1 0 at h
          omega
        simpa [waitpid, List.countP_cons] using ihreap hres
      · have hres : ¬ 0 < (waitpid rest).1 := by
          change ¬ 0 < max (waitpid rest).1 0 at h
          omega
        simpa [waitpid, List.countP_cons] using ihnone hres
    · refine ⟨List.forall_mem_cons.mpr ⟨hchild, hrest⟩, fun _ => ?_, fun h => ?_⟩
      · simp [waitpid]
      · exact absurd hchild h
    · refine ⟨List.forall_mem_cons.mpr ⟨hchild, ihpos⟩, fun h => ?_, fun h => ?_⟩
      · simpa [waitpid, List.countP_cons] using ihreap h
      · simpa [waitpid, List.countP_cons] using ihnone h

/-- **The handler reaps every child that waits.** -/
theorem externProcessSignalHandler_waiting {children : Processes}
    (hpos : ∀ child ∈ children, 0 < child.1) :
    (externProcessSignalHandler children).countP (fun child => child.2 = .waiting) = 0 := by
  have hloop : ∀ fuel, ∀ children : Processes, (∀ child ∈ children, 0 < child.1) →
      children.countP (fun child => child.2 = .waiting) < fuel →
        (externProcessSignalHandlerLoop fuel children).countP
          (fun child => child.2 = .waiting) = 0 := by
    intro fuel
    induction fuel with
    | zero => intro _ _ h; omega
    | succ fuel ih =>
      intro children hpos hlt
      obtain ⟨hpos', hreap, hnone⟩ := waitpid_pos hpos
      rw [externProcessSignalHandlerLoop]
      by_cases hres : 0 < (waitpid children).1
      · rw [if_pos hres]
        exact ih _ hpos' (by have := hreap hres; omega)
      · rw [if_neg hres]
        exact hnone hres
  exact hloop _ _ hpos (Nat.lt_succ_of_le List.countP_le_length)

/-! ### Whose children they are -/

/-- The PIDs that `posix_spawnp` returned. -/
def spawned (t : List Event) : List ℤ :=
  t.filterMap fun
    | ⟨.posixSpawnp .., a⟩ => if a.value.1 = 0 then some a.value.2.toInt else none
    | _ => none

theorem spawned_append (t u : List Event) : spawned (t ++ u) = spawned t ++ spawned u :=
  List.filterMap_append

theorem spawned_of_eq_zero {path : String} {argv : List String}
    {a : Answer (.posixSpawnp path argv)} (h : a.value.1 = 0) :
    spawned [⟨_, a⟩] = [a.value.2.toInt] :=
  List.filterMap_cons_some (if_pos h)

theorem spawned_of_ne_zero {path : String} {argv : List String}
    {a : Answer (.posixSpawnp path argv)} (h : a.value.1 ≠ 0) : spawned [⟨_, a⟩] = [] :=
  List.filterMap_cons_none (if_neg h)

private theorem waitpid_pids (children : Processes) :
    (waitpid children).2.map Prod.fst = children.map Prod.fst := by
  induction children with
  | nil => rfl
  | cons child rest ih =>
    obtain ⟨pid, _ | _ | _⟩ := child
    · exact congrArg (pid :: ·) ih
    · rfl
    · exact congrArg (pid :: ·) ih

private theorem externProcessSignalHandlerLoop_pids (fuel : ℕ) (children : Processes) :
    (externProcessSignalHandlerLoop fuel children).map Prod.fst = children.map Prod.fst := by
  induction fuel generalizing children with
  | zero => rfl
  | succ fuel ih =>
    rw [externProcessSignalHandlerLoop]
    split
    · rw [ih, waitpid_pids]
    · exact waitpid_pids children

/-- Signals change what has become of the children, not which they are. -/
theorem signals_pids (signals : List Signal) (children : Processes) :
    (signals.foldl Signal.act children).map Prod.fst = children.map Prod.fst := by
  induction signals generalizing children with
  | nil => rfl
  | cons s signals ih =>
    rw [List.foldl_cons, ih]
    cases s with
    | exited pid =>
      rw [Signal.act, List.map_map]
      refine List.map_congr_left fun child _ => ?_
      change (if child = (pid, .running) then (pid, ChildState.waiting) else child).1 = child.1
      split
      · next h => rw [h]
      · rfl
    | sigchld => exact externProcessSignalHandlerLoop_pids _ _
    | handled signo => rfl

/-- The table holds the children that were spawned. -/
theorem processes_pids (t : List Event) : (processes t).map Prod.fst = spawned t := by
  induction t using List.reverseRecOn with
  | nil => rfl
  | append_singleton t e ih =>
    rw [processes, List.foldl_append, spawned_append, ← ih]
    change (spawnStep (processes t) e).map Prod.fst = (processes t).map Prod.fst ++ spawned [e]
    obtain ⟨c, a⟩ := e
    cases c <;> try exact (signals_pids _ _).trans (List.append_nil _).symm
    change List.map Prod.fst (if a.value.1 = 0 then _ else _) = _
    by_cases hret : a.value.1 = 0
    · rw [if_pos hret, List.map_append, signals_pids, spawned_of_eq_zero hret]
      rfl
    · rw [if_neg hret, signals_pids, spawned_of_ne_zero hret, List.append_nil]

/-! ### Killing -/

/-- The kills of a run: the PID, with the table at that time. -/
def killsFrom (children : Processes) : List Event → List (ℤ × Processes)
  | [] => []
  | e :: t =>
    let rest := killsFrom (spawnStep children e) t
    match e with
    | ⟨.kill pid, a⟩ => (pid, a.signals.foldl Signal.act children) :: rest
    | _ => rest

/-- The kills of a whole run. -/
def kills (t : List Event) : List (ℤ × Processes) := killsFrom [] t

theorem killsFrom_append (children : Processes) (t u : List Event) :
    killsFrom children (t ++ u) =
      killsFrom children t ++ killsFrom (t.foldl spawnStep children) u := by
  induction t generalizing children with
  | nil => rfl
  | cons e t ih =>
    obtain ⟨c, a⟩ := e
    rw [List.cons_append, List.foldl_cons]
    cases c <;> simp only [killsFrom, ih, List.cons_append]

theorem kills_append (t u : List Event) :
    kills (t ++ u) = kills t ++ killsFrom (processes t) u := killsFrom_append [] t u

theorem killsFrom_of_kinds {t : List Event} (h : ∀ e ∈ t, e.1.kind ≠ .kill)
    (children : Processes) : killsFrom children t = [] := by
  induction t generalizing children with
  | nil => rfl
  | cons e t ih =>
    obtain ⟨hkind, ht⟩ := List.forall_mem_cons.mp h
    obtain ⟨c, a⟩ := e
    cases c <;> first | exact ih ht _ | exact absurd rfl hkind

end CacheNoise
