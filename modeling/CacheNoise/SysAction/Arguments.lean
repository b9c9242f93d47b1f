import CacheNoise.General.Numbers
import CacheNoise.SysAction
import CacheNoise.SysInfo.Hugepagesize

/-!
# The argument vector

`run_program` with the memory of the argument vector: a block of `argc + 1` null pointers, into
which the name of the program, the words of `wordexp` and a last `NULL` are written. The writes
stay inside, and the vector is right, as long as `argc + 1` is an `int` (`argvBlock_iff`); then
the vector that is passed on is the one in `runProgram` (`run_runProgramArgv_iff`).

The code that `wordexp` returns is not looked at. So the arguments of a program are right if and
only if `wordexp` succeeds whenever `calloc` does (`runsWords_iff`).
-/

namespace CacheNoise

open Interaction

/-! ### The block -/

/-- A block of pointers to strings; `none` is `NULL`. -/
abbrev PtrBlock : Type := List (Option String)

/-- `block[i] = s`. -/
def PtrBlock.store (block : PtrBlock) (i : ℤ) (s : Option String) : Except Undefined PtrBlock :=
  if 0 ≤ i ∧ i < block.length then .ok (block.set i.toNat s) else .error .outOfBounds

/-- The strings before the first `NULL`. -/
def PtrBlock.strings (block : PtrBlock) : List String :=
  (block.takeWhile Option.isSome).reduceOption

/-- The sum of two `int`s. -/
def intAdd (a b : ℤ) : Except Undefined ℤ :=
  if -2 ^ 31 ≤ a + b ∧ a + b < 2 ^ 31 then .ok (a + b) else .error .overflow

/-- `argc`: the sum is a `size_t`, and the `int` keeps its low 32 bits. -/
def argcOf (words : List String) : ℤ :=
  Numbers.asInt (UInt64.ofNat words.length + 1).toUInt32

/-- The number of pointers that `calloc` is asked for, an `int` that becomes a `size_t`. -/
def callocCount (argc : ℤ) : Except Undefined ℕ := do
  let count ← intAdd argc 1
  return (count % 2 ^ 64).toNat

/-- The loop over the words, with its counter. -/
def copyWords : List String → ℤ → PtrBlock → Except Undefined PtrBlock
  | [], _, argv => .ok argv
  | word :: words, i, argv => do
    let next ← intAdd i 1
    let argv ← argv.store next (some word)
    copyWords words next argv

/-- All writes to the block. -/
def fillArgv (path : String) (words : List String) (argv : PtrBlock) :
    Except Undefined PtrBlock := do
  let argv ← argv.store 0 (some (basename path))
  let argv ← copyWords words 0 argv
  argv.store (argcOf words) none

/-- The argument vector, in a block of `calloc`. -/
def argvBlock (path : String) (words : List String) : Except Undefined PtrBlock := do
  let count ← callocCount (argcOf words)
  fillArgv path words (List.replicate count none)

/-- The end of `run_program`, after `wordexp`. -/
def spawnWords (path : String) (words : List String) (pid : Int32) :
    Proc (Except Undefined (ErrorT × Int32)) :=
  match callocCount (argcOf words) with
  | .error e => pure (.error e)
  | .ok count => do
    let argv ← sys .malloc
    if argv = false then pure (.ok (errorAllocation, pid))
    else
      match fillArgv path words (List.replicate count none) with
      | .error e => pure (.error e)
      | .ok argv => do
        let res ← spawn path argv.strings
        pure (.ok res)

/-- `run_program`, with the memory of the argument vector. -/
def runProgramArgv (path arguments : Option String) (pid : Int32) :
    Proc (Except Undefined (ErrorT × Int32)) := do
  match path with
  | none => pure (.ok (errorSpawnPathNull, pid))
  | some path => do
    let attr ← sys .posixSpawnattrInit
    if attr ≠ 0 then pure (.ok (errorSpawnAttrInit, pid))
    else do
      let actions ← sys .posixSpawnFileActionsInit
      if actions ≠ 0 then pure (.ok (errorSpawnFileInit, pid))
      else
        match arguments with
        | some arguments => do
          let p ← sys (.wordexp arguments)
          spawnWords path p.words pid
        | none => do
          let res ← spawn path [basename path]
          pure (.ok res)

/-- The vector that a program should get. -/
def argvOf (path : String) (words : List String) : PtrBlock :=
  (basename path :: words).map some ++ [none]

/-! ### What is in the block -/

theorem strings_argvOf (path : String) (words : List String) :
    (argvOf path words).strings = basename path :: words := by
  have hsome : ∀ s ∈ (basename path :: words).map some, Option.isSome s = true := by
    intro s hs
    obtain ⟨word, -, rfl⟩ := List.mem_map.mp hs
    rfl
  rw [PtrBlock.strings, argvOf, List.takeWhile_append_of_pos hsome]
  change ((basename path :: words).map some ++ []).filterMap id = _
  rw [List.append_nil, List.filterMap_map]
  exact List.filterMap_some

/-- A store into the block behind what is already written. -/
theorem store_append {done rest : PtrBlock} {old s : Option String} {i : ℤ}
    (hi : i = done.length) : (done ++ old :: rest).store i s = .ok (done ++ s :: rest) := by
  have hroom : 0 ≤ i ∧ i < (done ++ old :: rest).length := by
    rw [List.length_append, List.length_cons]
    omega
  rw [PtrBlock.store, if_pos hroom, hi, Int.toNat_natCast, List.set_append_right _ _ le_rfl,
    Nat.sub_self, List.set_cons_zero]

theorem intAdd_ok {a b : ℤ} (h : -2 ^ 31 ≤ a + b ∧ a + b < 2 ^ 31) : intAdd a b = .ok (a + b) :=
  if_pos h

/-- One pass of the loop. -/
theorem copyWords_cons {word : String} {words : List String} {i next : ℤ} {argv argv' : PtrBlock}
    (hnext : intAdd i 1 = .ok next) (hstore : argv.store next (some word) = .ok argv') :
    copyWords (word :: words) i argv = copyWords words next argv' := by
  rw [copyWords, hnext]
  change (argv.store next (some word) >>= fun argv => copyWords words next argv) = _
  rw [hstore]
  rfl

/-- The loop writes the words behind what is already written. -/
theorem copyWords_append (words : List String) :
    ∀ (i : ℤ) (done rest : PtrBlock), i + 1 = done.length → done.length + words.length < 2 ^ 31 →
      copyWords words i (done ++ (List.replicate words.length none ++ rest)) =
        .ok (done ++ (words.map some ++ rest)) := by
  induction words with
  | nil => intro i done rest _ _; rfl
  | cons word words ih =>
    intro i done rest hi hlength
    rw [List.length_cons] at hlength
    have hdone : (done ++ [some word]).length = done.length + 1 := by
      rw [List.length_append, List.length_singleton]
    have hstore : (done ++ (List.replicate (word :: words).length none ++ rest)).store (i + 1)
        (some word) = .ok (done ++ some word :: (List.replicate words.length none ++ rest)) :=
      store_append hi
    rw [copyWords_cons (intAdd_ok (by omega)) hstore, List.append_cons,
      ih (i + 1) (done ++ [some word]) rest (by omega) (by omega), List.append_assoc]
    rfl

theorem argcOf_eq {words : List String} (h : words.length + 2 < 2 ^ 31) :
    argcOf words = words.length + 1 := by
  have hcount : (UInt64.ofNat words.length + 1).toUInt32.toNat = words.length + 1 := by
    rw [UInt64.toNat_toUInt32, UInt64.toNat_add, UInt64.toNat_ofNat']
    simp only [UInt64.toNat_one]
    omega
  rw [argcOf, Numbers.asInt, hcount, if_pos (by omega)]
  push_cast
  rfl

theorem callocCount_eq {words : List String} (h : words.length + 2 < 2 ^ 31) :
    callocCount (argcOf words) = .ok (words.length + 2) := by
  rw [argcOf_eq h, callocCount, intAdd_ok (by omega)]
  refine congrArg Except.ok ?_
  omega

/-- All stores are inside, and the block is filled. -/
theorem argvBlock_eq (path : String) {words : List String} (h : words.length + 2 < 2 ^ 31) :
    argvBlock path words = .ok (argvOf path words) := by
  have hname : PtrBlock.store (List.replicate (words.length + 2) none) 0 (some (basename path)) =
      .ok ([some (basename path)] ++ (List.replicate words.length none ++ [none])) := by
    have hblock : List.replicate (words.length + 2) (none : Option String) =
        [] ++ none :: (List.replicate words.length none ++ [none]) := by
      rw [List.replicate_succ, List.replicate_succ', List.nil_append]
    rw [hblock]
    exact store_append rfl
  have hwords := copyWords_append words 0 [some (basename path)] [none] rfl
    (by rw [List.length_singleton]; omega)
  have hlast : PtrBlock.store ([some (basename path)] ++ (words.map some ++ [none]))
      (argcOf words) none = .ok (argvOf path words) := by
    have hlength : argcOf words = ((some (basename path) :: words.map some).length : ℤ) := by
      rw [argcOf_eq h, List.length_cons, List.length_map]
      push_cast
      rfl
    exact @store_append (some (basename path) :: words.map some) [] none none _ hlength
  rw [argvBlock, callocCount_eq h]
  change fillArgv path words (List.replicate (words.length + 2) none) = _
  rw [fillArgv, hname]
  change (copyWords words 0 _ >>= fun argv => argv.store (argcOf words) none) = _
  rw [hwords]
  exact hlast

/-! ### How long the block is -/

theorem of_store {block block' : PtrBlock} {i : ℤ} {s : Option String}
    (h : block.store i s = .ok block') :
    0 ≤ i ∧ i < block.length ∧ block'.length = block.length := by
  rw [PtrBlock.store] at h
  split_ifs at h with hin
  obtain rfl := Except.ok.inj h
  exact ⟨hin.1, hin.2, List.length_set⟩

theorem length_of_copyWords {words : List String} : ∀ {i : ℤ} {argv argv' : PtrBlock},
    copyWords words i argv = .ok argv' → argv'.length = argv.length := by
  induction words with
  | nil =>
    intro i argv argv' h
    rw [Except.ok.inj h]
  | cons word words ih =>
    intro i argv argv' h
    obtain ⟨next, -, h₁⟩ := bind_eq_ok.mp h
    obtain ⟨stored, hstore, h₂⟩ := bind_eq_ok.mp h₁
    rw [ih h₂, (of_store hstore).2.2]

/-- The last store has an index, so `argc` is not negative and `argc + 1` is an `int`. -/
theorem length_of_argvBlock {path : String} {words : List String} {argv : PtrBlock}
    (h : argvBlock path words = .ok argv) : argv.length < 2 ^ 31 := by
  obtain ⟨count, hcount, h₁⟩ := bind_eq_ok.mp h
  obtain ⟨named, hname, h₂⟩ := bind_eq_ok.mp h₁
  obtain ⟨copied, hcopy, hlast⟩ := bind_eq_ok.mp h₂
  obtain ⟨hargc, -, hlength⟩ := of_store hlast
  have hcopied := length_of_copyWords hcopy
  have hnamed := (of_store hname).2.2
  rw [List.length_replicate] at hnamed
  obtain ⟨n, hn, hsize⟩ := bind_eq_ok.mp hcount
  rw [intAdd] at hn
  split_ifs at hn with hint
  obtain rfl := Except.ok.inj hn
  obtain rfl := Except.ok.inj hsize
  omega

/-- **The argument vector is right**, with all writes inside the block, if and only if its length
is an `int`. -/
theorem argvBlock_iff (path : String) (words : List String) :
    argvBlock path words = .ok (argvOf path words) ↔ words.length + 2 < 2 ^ 31 := by
  refine ⟨fun h => ?_, argvBlock_eq path⟩
  have hlength := length_of_argvBlock h
  rwa [argvOf, List.length_append, List.length_map, List.length_cons, List.length_singleton]
    at hlength

/-! ### Runs -/

/-- What `wordexp` left in the runs of it. -/
def wordexps (t : List Event) : List WordExp :=
  t.filterMap fun
    | ⟨.wordexp _, a⟩ => some a.value
    | _ => none

/-- Whether the blocks could be allocated. -/
def callocs (t : List Event) : List Bool :=
  t.filterMap fun
    | ⟨.malloc, a⟩ => some a.value
    | _ => none

/-- The programs that `posix_spawnp` was called for, with their argument vectors. -/
def spawnCalls (t : List Event) : List (String × List String) :=
  t.filterMap fun
    | ⟨.posixSpawnp path argv, _⟩ => some (path, argv)
    | _ => none

/-- **What `run_program` should do with a string of arguments**, by what `wordexp` makes of it. -/
structure RunsWords (path : String) (pid : Int32) (t : List Event)
    (res : Except Undefined (ErrorT × Int32)) : Prop where
  vector : ∀ p ∈ wordexps t, p.code = 0 → argvBlock path p.words = .ok (argvOf path p.words)
  spawned : ∀ p ∈ wordexps t, p.code = 0 → false ∉ callocs t →
    spawnCalls t = [(path, basename path :: p.words)]
  /-- There is no memory for the vector. -/
  unallocated : ∀ p ∈ wordexps t, p.code = 0 → false ∈ callocs t →
    spawnCalls t = [] ∧ res = .ok (errorAllocation, pid)
  /-- The string could not be expanded. -/
  failed : ∀ p ∈ wordexps t, p.code ≠ 0 →
    spawnCalls t = [] ∧ ∃ code, res = .ok (code, pid) ∧ code ≠ errorNone

/-- The words of `wordexp` are not too many for an `int`, and it fails only if `calloc` fails,
too. -/
def WordsUsable (t : List Event) : Prop :=
  ∀ p ∈ wordexps t, (p.code = 0 → p.words.length + 2 < 2 ^ 31) ∧ (p.code ≠ 0 → false ∈ callocs t)

section

variable {path : String} {words : List String} {pid : Int32} {t : List Event}

theorem run_spawn {argv : List String} {r : ErrorT × Int32}
    (h : (spawn path argv).Run t (some r)) :
    ∃ a : Answer (.posixSpawnp path argv), t = [⟨.posixSpawnp path argv, a⟩] := by
  obtain ⟨a, t', rfl, rfl, -⟩ := run_sys_bind.mp h
  exact ⟨a, rfl⟩

/-- **After `wordexp`**: nothing is spawned if the block can not be allocated or something
undefined happens, and otherwise the program is spawned with the strings in the block. -/
theorem run_spawnWords {res : Except Undefined (ErrorT × Int32)}
    (h : (spawnWords path words pid).Run t (some res)) : wordexps t = [] ∧
      ((∃ e, argvBlock path words = .error e ∧ res = .error e ∧ false ∉ callocs t) ∨
      (false ∈ callocs t ∧ spawnCalls t = [] ∧ res = .ok (errorAllocation, pid)) ∨
      ∃ argv, argvBlock path words = .ok argv ∧ false ∉ callocs t ∧
        spawnCalls t = [(path, argv.strings)]) := by
  rw [spawnWords] at h
  cases hcount : callocCount (argcOf words) with
  | error e =>
    rw [hcount] at h
    obtain ⟨rfl, hres⟩ := h
    obtain rfl := Option.some.inj hres
    refine ⟨rfl, .inl ⟨e, ?_, rfl, List.not_mem_nil⟩⟩
    rw [argvBlock, hcount]
    rfl
  | ok count =>
    rw [hcount] at h
    have hblock : argvBlock path words = fillArgv path words (List.replicate count none) := by
      rw [argvBlock, hcount]
      rfl
    obtain ⟨a, t', rfl, h₁⟩ := run_sys_bind.mp h
    split at h₁
    · next hfalse =>
      obtain ⟨rfl, hres⟩ := h₁
      exact ⟨rfl, .inr (.inl ⟨hfalse ▸ List.mem_cons_self, rfl, Option.some.inj hres⟩)⟩
    next htrue =>
    have hcallocs : false ∉ callocs [⟨.malloc, a⟩] := fun hmem =>
      htrue (List.mem_singleton.mp hmem).symm
    cases hfill : fillArgv path words (List.replicate count none) with
    | error e =>
      rw [hfill] at h₁
      obtain ⟨rfl, hres⟩ := h₁
      exact ⟨rfl, .inl ⟨e, hblock.trans hfill, Option.some.inj hres, hcallocs⟩⟩
    | ok argv =>
      rw [hfill] at h₁
      obtain ⟨t₁, t₂, r, rfl, hspawn, rfl, -⟩ | ⟨hnone, -⟩ := Prog.run_bind.mp h₁
      · obtain ⟨b, rfl⟩ := run_spawn hspawn
        exact ⟨rfl, .inr (.inr ⟨argv, hblock.trans hfill, hcallocs, rfl⟩)⟩
      · cases hnone

theorem spawnWords_unallocated {res : Except Undefined (ErrorT × Int32)}
    (h : (spawnWords path words pid).Run t (some res)) (hfalse : false ∈ callocs t) :
    spawnCalls t = [] ∧ res = .ok (errorAllocation, pid) := by
  obtain ⟨-, ⟨e, -, -, hno⟩ | ⟨-, hend⟩ | ⟨argv, -, hno, -⟩⟩ := run_spawnWords h
  · exact absurd hfalse hno
  · exact hend
  · exact absurd hfalse hno

theorem spawnWords_allocated {res : Except Undefined (ErrorT × Int32)}
    (h : (spawnWords path words pid).Run t (some res)) (hno : false ∉ callocs t)
    (hsmall : words.length + 2 < 2 ^ 31) : spawnCalls t = [(path, basename path :: words)] := by
  have hblock := argvBlock_eq path hsmall
  obtain ⟨-, ⟨e, herror, -⟩ | ⟨hfalse, -⟩ | ⟨argv, hargv, -, hspawn⟩⟩ := run_spawnWords h
  · rw [hblock] at herror
    cases herror
  · exact absurd hfalse hno
  · obtain rfl := Except.ok.inj (hblock.symm.trans hargv)
    rw [hspawn, strings_argvOf]

/-- With memory, something is spawned unless something undefined happens. -/
theorem false_mem_callocs {r : ErrorT × Int32}
    (h : (spawnWords path words pid).Run t (some (.ok r))) (hnone : spawnCalls t = []) :
    false ∈ callocs t := by
  obtain ⟨-, ⟨e, -, herror, -⟩ | ⟨hfalse, -⟩ | ⟨argv, -, -, hspawn⟩⟩ := run_spawnWords h
  · cases herror
  · exact hfalse
  · rw [hspawn] at hnone
    cases hnone

/-- For a list of words, the end of `run_program` does what it should if and only if the words
are usable. -/
theorem runsWords_spawnWords {p : WordExp} {t' : List Event}
    {res : Except Undefined (ErrorT × Int32)}
    (h : (spawnWords path p.words pid).Run t' (some res)) (hwords : wordexps t = [p])
    (hcallocs : callocs t = callocs t') (hcalls : spawnCalls t = spawnCalls t') :
    RunsWords path pid t res ↔ WordsUsable t := by
  have hp : p ∈ wordexps t := hwords ▸ List.mem_singleton_self p
  have heq : ∀ q ∈ wordexps t, q = p := fun q hq => List.mem_singleton.mp (hwords ▸ hq)
  constructor
  · intro hruns q hq
    obtain rfl := heq q hq
    refine ⟨fun hcode => (argvBlock_iff path q.words).mp (hruns.vector q hp hcode),
      fun hcode => ?_⟩
    obtain ⟨hnone, code, rfl, -⟩ := hruns.failed q hp hcode
    exact hcallocs ▸ false_mem_callocs h (hcalls ▸ hnone)
  · intro husable
    obtain ⟨hsmall, hfails⟩ := husable p hp
    refine ⟨fun q hq hcode => ?_, fun q hq hcode hno => ?_, fun q hq hcode hfalse => ?_,
      fun q hq hcode => ?_⟩
    all_goals obtain rfl := heq q hq
    · exact argvBlock_eq path (hsmall hcode)
    · rw [hcalls]
      exact spawnWords_allocated h (hcallocs ▸ hno) (hsmall hcode)
    · rw [hcalls]
      exact spawnWords_unallocated h (hcallocs ▸ hfalse)
    · obtain ⟨hnone, hres⟩ := spawnWords_unallocated h (hcallocs ▸ hfails hcode)
      exact ⟨hcalls.trans hnone, errorAllocation, hres, by decide⟩

/-- **`run_program` is right** about a string of arguments if and only if the words are usable. -/
theorem runsWords_iff {arguments : String} {res : Except Undefined (ErrorT × Int32)}
    (h : (runProgramArgv (some path) (some arguments) pid).Run t (some res)) :
    RunsWords path pid t res ↔ WordsUsable t := by
  have hnone : wordexps t = [] → (RunsWords path pid t res ↔ WordsUsable t) := fun hnil => by
    refine iff_of_true ⟨?_, ?_, ?_, ?_⟩ ?_ <;> intro q hq <;> rw [hnil] at hq <;> cases hq
  obtain ⟨attr, t₁, rfl, h₁⟩ := run_sys_bind.mp h
  split at h₁
  · obtain ⟨rfl, -⟩ := h₁
    exact hnone rfl
  obtain ⟨actions, t₂, rfl, h₂⟩ := run_sys_bind.mp h₁
  split at h₂
  · obtain ⟨rfl, -⟩ := h₂
    exact hnone rfl
  obtain ⟨p, t₃, rfl, h₃⟩ := run_sys_bind.mp h₂
  refine runsWords_spawnWords h₃ ?_ rfl rfl
  change p.value :: wordexps t₃ = [p.value]
  rw [(run_spawnWords h₃).1]

end

/-- A value that is wrapped at the end of a run. -/
theorem run_bind_ok {m : Proc (ErrorT × Int32)} {t : List Event} {r : ErrorT × Int32} :
    (m >>= fun r => pure (Except.ok r : Except Undefined (ErrorT × Int32))).Run t
      (some (.ok r)) ↔ m.Run t (some r) := by
  rw [Prog.run_bind]
  constructor
  · rintro (⟨t₁, t₂, r', rfl, hm, rfl, hr⟩ | ⟨hnone, -⟩)
    · obtain rfl := Except.ok.inj (Option.some.inj hr)
      rwa [List.append_nil]
    · cases hnone
  · exact fun h => .inl ⟨t, [], r, (List.append_nil t).symm, h, rfl, rfl⟩

/-- If there are not too many words, the block is what `runProgram` takes for it. -/
theorem run_spawnWords_iff {path : String} {words : List String} (h : words.length + 2 < 2 ^ 31)
    {pid : Int32} {t : List Event} {r : ErrorT × Int32} :
    (spawnWords path words pid).Run t (some (.ok r)) ↔
      (sys .malloc >>= fun argv => if argv = false then pure (errorAllocation, pid)
        else spawn path (basename path :: words)).Run t (some r) := by
  have hfill : fillArgv path words (List.replicate (words.length + 2) none) =
      .ok (argvOf path words) := by
    have hblock := argvBlock_eq path h
    rw [argvBlock, callocCount_eq h] at hblock
    exact hblock
  rw [spawnWords, callocCount_eq h]
  simp only [hfill, strings_argvOf]
  rw [run_sys_bind, run_sys_bind]
  refine exists_congr fun a => exists_congr fun t' => and_congr_right fun _ => ?_
  split
  · exact ⟨fun ⟨ht, hr⟩ => ⟨ht, congrArg some (Except.ok.inj (Option.some.inj hr))⟩,
      fun ⟨ht, hr⟩ => ⟨ht, congrArg (some ∘ Except.ok) (Option.some.inj hr)⟩⟩
  · exact run_bind_ok

/-- **The two models agree**: on runs without too many words, `runProgram` leaves out nothing but
the memory of the argument vector. -/
theorem run_runProgramArgv_iff {path arguments : Option String} {pid : Int32} {t : List Event}
    {r : ErrorT × Int32} (h : ∀ p ∈ wordexps t, p.words.length + 2 < 2 ^ 31) :
    (runProgramArgv path arguments pid).Run t (some (.ok r)) ↔
      (runProgram path arguments pid).Run t (some r) := by
  have hpure : ∀ {res : ErrorT × Int32} {u : List Event},
      (pure (.ok res) : Proc (Except Undefined (ErrorT × Int32))).Run u (some (.ok r)) ↔
        (pure res : Proc (ErrorT × Int32)).Run u (some r) := fun {res u} => by
    rw [Prog.run_pure, Prog.run_pure, Option.some.injEq, Option.some.injEq, Except.ok.injEq]
  cases path with
  | none => exact hpure
  | some path =>
    simp only [runProgramArgv, runProgram]
    rw [run_sys_bind, run_sys_bind]
    refine exists_congr fun attr => exists_congr fun t₁ => and_congr_right ?_
    rintro rfl
    split
    · exact hpure
    rw [run_sys_bind, run_sys_bind]
    refine exists_congr fun actions => exists_congr fun t₂ => and_congr_right ?_
    rintro rfl
    split
    · exact hpure
    cases arguments with
    | none => exact run_bind_ok
    | some arguments =>
      simp only
      rw [run_sys_bind, run_sys_bind]
      refine exists_congr fun p => exists_congr fun t₃ => and_congr_right ?_
      rintro rfl
      exact run_spawnWords_iff (h p.value List.mem_cons_self)

/-- The words of a string that could be expanded. -/
def listing : List Event :=
  [⟨.posixSpawnattrInit, ⟨[], 0⟩⟩, ⟨.posixSpawnFileActionsInit, ⟨[], 0⟩⟩,
    ⟨.wordexp "-l '/my dir'", ⟨[], ⟨0, ["-l", "/my dir"]⟩⟩⟩, ⟨.malloc, ⟨[], true⟩⟩,
    ⟨.posixSpawnp "/bin/ls" [basename "/bin/ls", "-l", "/my dir"], ⟨[], (0, 42)⟩⟩]

/-- The program gets its name and the words. -/
theorem runsWords_listing : RunsWords "/bin/ls" 0 listing (.ok (errorNone, 42)) := by
  have hrun : (runProgramArgv (some "/bin/ls") (some "-l '/my dir'") 0).Run listing
      (some (.ok (errorNone, 42))) :=
    ⟨⟨[], 0⟩, _, rfl, ⟨[], 0⟩, _, rfl, ⟨[], ⟨0, ["-l", "/my dir"]⟩⟩, _, rfl, ⟨[], true⟩, _, rfl,
      ⟨[], (0, 42)⟩, _, rfl, rfl, rfl⟩
  refine (runsWords_iff hrun).mpr fun p hp => ?_
  obtain rfl := List.mem_singleton.mp hp
  exact ⟨fun _ => by decide, fun h => absurd rfl h⟩

/-- A quote that is not closed: `wordexp` reports a syntax error, and the program is spawned. -/
def unclosedQuote : List Event :=
  [⟨.posixSpawnattrInit, ⟨[], 0⟩⟩, ⟨.posixSpawnFileActionsInit, ⟨[], 0⟩⟩,
    ⟨.wordexp "'", ⟨[], ⟨5, []⟩⟩⟩, ⟨.malloc, ⟨[], true⟩⟩,
    ⟨.posixSpawnp "/bin/ls" [basename "/bin/ls"], ⟨[], (0, 42)⟩⟩]

theorem run_unclosedQuote :
    (runProgramArgv (some "/bin/ls") (some "'") 0).Run unclosedQuote
      (some (.ok (errorNone, 42))) ∧
      ¬ RunsWords "/bin/ls" 0 unclosedQuote (.ok (errorNone, 42)) := by
  constructor
  · exact ⟨⟨[], 0⟩, _, rfl, ⟨[], 0⟩, _, rfl, ⟨[], ⟨5, []⟩⟩, _, rfl, ⟨[], true⟩, _, rfl,
      ⟨[], (0, 42)⟩, _, rfl, rfl, rfl⟩
  · intro h
    have hnone := (h.failed ⟨5, []⟩ List.mem_cons_self (by decide)).1
    cases hnone

end CacheNoise
