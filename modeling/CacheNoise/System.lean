import CacheNoise.General.Interaction
import CacheNoise.SysInfo

/-!
# Calls to the outside

The profiler seen from the outside is a sequence of **calls**: to the C library, the kernel
and HDF5, and to the assembly loops. `Call` lists them and `Call.Value` says what each returns.
Nothing is assumed of the values, so a statement about every run of a function covers every
outcome of every call that it makes; the documented behaviour of a call is a hypothesis of the
theorems that need it.

* An answer also carries the **signals** that arrived since the previous call, before the call
  took effect (`Answer`). This is how a signal interleaves with the program in every order.
* Functions that only read a file are one call: `readProp` for `READ_PROP_PUT`, `meminfo` for
  the search in `/proc/meminfo`. So are the assembly loops and `testAlignment`, which stands for
  the loop of the alignment test. These loops have their own models. A call always answers here;
  the loop of the test itself does not end where a page is smaller than a line and the first line
  is in its place.
* `enter` and `leave` are not calls of the program: they mark where `main` evaluates a step
  under `EXIT_ON_FAIL`, so that a run shows how often and with what outcome it did.

`Proc` is a C function over these calls.
-/

namespace CacheNoise

open Interaction

/-- A pointer to a mapping made by `mmap`. -/
inductive Ptr
  | null
  /-- `MAP_FAILED`. -/
  | mapFailed
  | mapped (address : UInt64)
  deriving DecidableEq

/-- The HDF5 number types that the profiler uses. -/
inductive H5Type
  /-- `H5T_STD_U32BE`. -/
  | stdU32Be
  /-- `H5T_NATIVE_INT`. -/
  | nativeInt
  deriving DecidableEq

/-- The streams that an output can have. -/
inductive Stream
  | null
  | stdout
  deriving DecidableEq

/-- A signal whose disposition `main` sets to `signal_handler`. -/
inductive Signo
  | sigterm
  | sigalrm
  | sigint
  deriving DecidableEq

/-- What can happen between two calls. -/
inductive Signal
  /-- A process ends; its parent has not waited for it yet. -/
  | exited (pid : ℤ)
  /-- `SIGCHLD` is handled. -/
  | sigchld
  /-- `signal_handler` runs. -/
  | handled (signo : Signo)
  deriving DecidableEq

/-- The steps that `main` runs under `EXIT_ON_FAIL`. -/
inductive Step
  | focusThis
  | currentCore
  | cacheInfo
  | rdpmc
  | benchmark
  | outputStdout
  | outputFile
  | alloc
  | focusGiven
  | program
  | profile
  deriving DecidableEq

/-- The files read by `READ_PROP_PUT` on the way through `main`. -/
inductive PropFile
  /-- `/proc/sys/vm/nr_hugepages` -/
  | nrHugepages
  /-- `/sys/bus/event_source/devices/cpu/rdpmc` -/
  | rdpmc
  deriving DecidableEq

/-- What `READ_PROP_PUT` meets: no file, an empty one, or one after whose reading the
variable holds `value`. -/
inductive PropRead
  | missing
  | empty
  | read (value : UInt32)
  deriving DecidableEq

/-- What `wordexp` returns and leaves in its result. -/
structure WordExp where
  code : ℤ
  words : List String

/-- What an `ioctl` of the cycle counter asks for. -/
inductive CounterOp
  | reset
  | enable
  | disable
  deriving DecidableEq

/-- The calls. -/
inductive Call
  -- setting up
  | getpid
  | signal (signo : Signo)
  | sigactionChild
  | schedSetaffinity (pid cpu : UInt32)
  | schedGetcpu
  | cacheInfoNew (cpu level : UInt8)
  | getuid
  | readProp (file : PropFile)
  | malloc
  | alarm (seconds : Int32)
  -- memory
  | meminfo
  | mmap (length : UInt64)
  | testAlignment (buffer : Ptr) (pageSize : UInt64)
  | munmap (buffer : Ptr) (length : UInt64)
  -- processes
  | posixSpawnattrInit
  | posixSpawnFileActionsInit
  | wordexp (arguments : String)
  | posixSpawnp (path : String) (argv : List String)
  | kill (pid : ℤ)
  -- output
  | h5Fcreate (file : String)
  | chmod (file : String)
  | h5Fclose (file : ℤ)
  | h5Dcreate (file : ℤ) (name : String) (fileType : H5Type) (dims : UInt64 × UInt64)
  | h5Dwrite (dataset : ℤ) (memType : H5Type) (data : List UInt32)
  | h5Dclose (dataset : ℤ)
  | fprintf (stream : Stream) (text : String)
  -- measuring
  | perfEventOpen (cpu : UInt32)
  | ioctl (fd : UInt32) (op : CounterOp)
  | terminated
  | prime (lineSize setCount wayCount totalSize : UInt64) (buffer : Ptr)
  | schedYield
  | probe (lineSize setCount wayCount : UInt64) (buffer : Ptr)
  | benchLoop (iterations : UInt64)
  -- `EXIT_ON_FAIL`
  | enter (step : Step)
  | leave (step : Step) (res : ErrorT)
  | report (step : Step) (decoded number : ErrorT)

/-- What a call returns. Where a C function also fills a variable through a pointer, the
value has the contents of the variable afterwards. -/
@[reducible] def Call.Value : Call → Type
  | .getpid => ℤ
  /- `true` for `SIG_ERR` -/
  | .signal _ => Bool
  | .sigactionChild => ℤ
  | .schedSetaffinity .. => ℤ
  | .schedGetcpu => Int32
  | .cacheInfoNew .. => ErrorT × CacheInfo
  | .getuid => UInt32
  | .readProp _ => PropRead
  /- `false` for `NULL` -/
  | .malloc => Bool
  | .alarm _ => Unit
  /- the huge page size in bytes, unless the file or its line cannot be read -/
  | .meminfo => Option UInt64
  /- `none` for `MAP_FAILED` -/
  | .mmap _ => Option UInt64
  | .testAlignment .. => ErrorT
  | .munmap .. => ℤ
  | .posixSpawnattrInit => ℤ
  | .posixSpawnFileActionsInit => ℤ
  | .wordexp _ => WordExp
  /- with `*pid` -/
  | .posixSpawnp .. => ℤ × Int32
  | .kill _ => ℤ
  | .h5Fcreate _ => ℤ
  | .chmod _ => ℤ
  | .h5Fclose _ => ℤ
  | .h5Dcreate .. => ℤ
  | .h5Dwrite .. => ℤ
  | .h5Dclose _ => ℤ
  | .fprintf .. => ℤ
  | .perfEventOpen _ => UInt32
  | .ioctl .. => ℤ
  | .terminated => Bool
  | .prime .. => Unit
  | .schedYield => Unit
  /- with the result array -/
  | .probe .. => UInt64 → UInt32
  | .benchLoop _ => List UInt32
  | .enter _ => Unit
  | .leave .. => Unit
  | .report .. => Unit

/-- The answer to a call: the signals before it, and its value. -/
structure Answer (c : Call) where
  signals : List Signal
  value : c.Value

/-- A C function. -/
abbrev Proc (α : Type) : Type := Prog Call Answer α

/-- A call with its answer. -/
abbrev Event : Type := Interaction.Event Answer

/-- Make a call. -/
def sys (c : Call) : Proc c.Value := Prog.perform c >>= fun a => pure a.value

@[simp]
theorem run_sys {c : Call} {t : List Event} {o : Option c.Value} :
    (sys c).Run t o ↔ ∃ a : Answer c, t = [⟨c, a⟩] ∧ o = some a.value := by
  rw [sys, Prog.run_bind]
  constructor
  · rintro (⟨t₁, t₂, a, rfl, h₁, rfl, rfl⟩ | ⟨-, h⟩)
    · obtain ⟨r, rfl, hr⟩ := Prog.run_perform.mp h₁
      obtain rfl := Option.some_injective _ hr
      exact ⟨a, rfl, rfl⟩
    · obtain ⟨r, -, hr⟩ := Prog.run_perform.mp h
      exact absurd hr (by simp)
  · rintro ⟨a, rfl, rfl⟩
    exact .inl ⟨[⟨c, a⟩], [], a, rfl, Prog.run_perform.mpr ⟨a, rfl, rfl⟩, rfl, rfl⟩

/-- Runs that begin with a call. -/
theorem run_sys_bind {α : Type} {c : Call} {f : c.Value → Proc α} {t : List Event}
    {o : Option α} :
    (sys c >>= f).Run t o ↔ ∃ (a : Answer c) (t' : List Event), t = ⟨c, a⟩ :: t' ∧
      (f a.value).Run t' o := by
  rw [Prog.run_bind]
  constructor
  · rintro (⟨t₁, t₂, v, rfl, h₁, h₂⟩ | ⟨-, h⟩)
    · obtain ⟨a, rfl, hv⟩ := run_sys.mp h₁
      obtain rfl := Option.some_injective _ hv
      exact ⟨a, t₂, rfl, h₂⟩
    · obtain ⟨a, -, ha⟩ := run_sys.mp h
      exact absurd ha (by simp)
  · rintro ⟨a, t', rfl, h⟩
    exact .inl ⟨[⟨c, a⟩], t', a.value, rfl, run_sys.mpr ⟨a, rfl, rfl⟩, h⟩

/-- A call lies in every class that has all of its answers. -/
theorem within_sys {E : Event → Prop} {c : Call} (h : ∀ a, E ⟨c, a⟩) : (sys c).Within E :=
  (Prog.within_perform h).bind fun _ => Prog.within_pure

/-! ### Kinds of calls -/

/-- The part of the outside that a call belongs to. -/
inductive Kind
  | setup
  | memory
  | process
  | kill
  | opening
  | closing
  | dataset
  | print
  | measure
  | step
  deriving DecidableEq

/-- The kind of a call. -/
@[simp]
def Call.kind : Call → Kind
  | .getpid | .signal _ | .sigactionChild | .schedSetaffinity .. | .schedGetcpu
  | .cacheInfoNew .. | .getuid | .readProp _ | .malloc | .alarm _ => .setup
  | .meminfo | .mmap _ | .testAlignment .. | .munmap .. => .memory
  | .posixSpawnattrInit | .posixSpawnFileActionsInit | .wordexp _ | .posixSpawnp .. => .process
  | .kill _ => .kill
  | .h5Fcreate _ | .chmod _ => .opening
  | .h5Fclose _ | .h5Dclose _ => .closing
  | .h5Dcreate .. | .h5Dwrite .. => .dataset
  | .fprintf .. => .print
  | .perfEventOpen _ | .ioctl .. | .terminated | .prime .. | .schedYield | .probe ..
  | .benchLoop _ => .measure
  | .enter _ | .leave .. | .report .. => .step

/-- `p` makes only calls of the kinds `K`. -/
def Only (K : List Kind) {α : Type} (p : Proc α) : Prop := p.Within fun e => e.1.kind ∈ K

theorem only_sys {K : List Kind} {c : Call} (h : c.kind ∈ K) : Only K (sys c) :=
  within_sys fun _ => h

theorem only_pure {K : List Kind} {α : Type} (a : α) : Only K (pure a : Proc α) :=
  Prog.within_pure

theorem Only.bind {K : List Kind} {α β : Type} {p : Proc α} {f : α → Proc β} (hp : Only K p)
    (hf : ∀ a, Only K (f a)) : Only K (p >>= f) := Prog.Within.bind hp hf

theorem Only.ite {K : List Kind} {α : Type} {c : Prop} [Decidable c] {p q : Proc α}
    (hp : Only K p) (hq : Only K q) : Only K (if c then p else q) := Prog.Within.ite hp hq

theorem Only.mono {K K' : List Kind} {α : Type} {p : Proc α} (hp : Only K p) (h : K ⊆ K') :
    Only K' p := Prog.Within.mono hp fun _ he => h he

end CacheNoise
