import CacheNoise.Machine
import CacheNoise.Alloc.Search
import CacheNoise.Profile.Run

/-!
# `main`

`main` after `argp_parse`, as a command over its local variables with two kinds of early exit:
`goto FINALIZE` and `exit(EXIT_FAILURE)`. What it prints about its progress is left out; the
messages of `EXIT_ON_FAIL` are the calls `report`.

**`EXIT_ON_FAIL`** is a macro, and its argument is the call to be made. On the failing branch
the argument stands twice more, as an argument of `decode_error` and as one of `fprintf`, so
the call is made twice more. C leaves the order of these two open; `leftToRight` says which it
is.
-/

namespace CacheNoise

open Interaction

/-- `arguments_t`, after parsing. -/
structure Arguments where
  mode : String
  level : Int32
  iter : Int32
  pid : Int32
  seconds : Int32
  cpu : Int32
  outputFile : Option String
  program : Option String
  programArgs : Option String

/-- The variables of `main`. -/
structure Locals where
  output : OutputT
  arguments : Arguments
  cache : CacheInfo
  buffer : Ptr
  /-- The variable of the block that asks for the current core. -/
  core : UInt32

/-- Ways out of the body of `main`. -/
inductive Exit
  /-- `goto FINALIZE` -/
  | finalize
  /-- `exit(EXIT_FAILURE)` -/
  | failure
  deriving DecidableEq

/-- A part of the body of `main`. -/
abbrev Main : Type → Type := Cmd Call Answer Locals Exit

/-! ### `EXIT_ON_FAIL` -/

/-- One evaluation of a step. -/
def execute (step : Step) (body : Locals → Proc (ErrorT × Locals)) : Main ErrorT :=
  Cmd.liftState fun s => do
    sys (.enter step)
    let (res, s) ← body s
    sys (.leave step res)
    pure (res, s)

/-- The failing branch of `EXIT_ON_FAIL`: evaluate the arguments of `fprintf`, print, and leave.
The argument of `decode_error` stands left of the printed number. -/
def failStep (leftToRight : Bool) (step : Step) (body : Locals → Proc (ErrorT × Locals)) :
    Main Unit := do
  let first ← execute step body
  let second ← execute step body
  let decoded := if leftToRight = true then first else second
  let number := if leftToRight = true then second else first
  Cmd.lift (sys (.report step decoded number))
  Cmd.throw .finalize

/-- `EXIT_ON_FAIL`. -/
def exitOnFail (leftToRight : Bool) (step : Step) (body : Locals → Proc (ErrorT × Locals)) :
    Main Unit := do
  let res ← execute step body
  if res ≠ errorNone then failStep leftToRight step body else pure ()

/-! ### The steps -/

/-- A step that leaves the variables alone. -/
def keeping (p : Locals → Proc ErrorT) (s : Locals) : Proc (ErrorT × Locals) := do
  let res ← p s
  pure (res, s)

def currentCoreStep (s : Locals) : Proc (ErrorT × Locals) := do
  match ← getCurrentCpuCore with
  | .error res => pure (res, s)
  | .ok core => pure (errorNone, { s with core })

def cacheInfoStep (s : Locals) : Proc (ErrorT × Locals) := do
  let (res, cache) ← sys (.cacheInfoNew s.arguments.cpu.toUInt32.toUInt8
    s.arguments.level.toUInt32.toUInt8)
  pure (res, { s with cache })

def outputStdoutStep (s : Locals) : Proc (ErrorT × Locals) := do
  let (res, output) ← outputcStdout .stdout
  pure (res, { s with output })

def outputFileStep (file : String) (s : Locals) : Proc (ErrorT × Locals) := do
  let (res, output) ← outputcHd5File s.output file
  pure (res, { s with output })

def allocStep (s : Locals) : Proc (ErrorT × Locals) := do
  let (res, buffer) ← allocAligned s.cache s.buffer
  pure (res, { s with buffer })

def programStep (s : Locals) : Proc (ErrorT × Locals) := do
  let (res, pid) ← runProgram s.arguments.program s.arguments.programArgs s.arguments.pid
  pure (res, { s with arguments.pid := pid })

def profileStep (fuel : ℕ) (s : Locals) : Proc (ErrorT × Locals) := do
  let (res, output) ← profile fuel s.cache s.arguments.cpu.toUInt32 s.arguments.iter.toUInt32
    s.buffer s.output
  pure (res, { s with output })

/-! ### The body -/

/-- Leave with `exit(EXIT_FAILURE)` on a condition. -/
def failIf (condition : Bool) : Main Unit :=
  if condition = true then Cmd.throw .failure else pure ()

/-- Install the handlers of `SIGTERM`, `SIGALRM`, `SIGINT` and `SIGCHLD`. -/
def installHandlers : Main Unit := do
  let term ← Cmd.lift (sys (.signal .sigterm))
  failIf term
  let alrm ← Cmd.lift (sys (.signal .sigalrm))
  failIf alrm
  let int ← Cmd.lift (sys (.signal .sigint))
  failIf int
  let child ← Cmd.lift (sys .sigactionChild)
  failIf (child != 0)

section

variable (leftToRight : Bool)

/-- Bind this process to a core, or find out the core it runs on. -/
def chooseCpu (thisPid : ℤ) : Main Unit := do
  let s ← Cmd.get
  if s.arguments.cpu > -1 then
    exitOnFail leftToRight .focusThis
      (keeping fun s => focusCpuCore (UInt32.ofInt thisPid) s.arguments.cpu.toUInt32)
  else do
    exitOnFail leftToRight .currentCore currentCoreStep
    Cmd.modify fun s => { s with arguments.cpu := s.core.toInt32 }

/-- `main` up to the choice of the mode. -/
def setUp : Main Unit := do
  let thisPid ← Cmd.lift (sys .getpid)
  failIf (thisPid == 0)
  installHandlers
  chooseCpu leftToRight thisPid
  exitOnFail leftToRight .cacheInfo cacheInfoStep

/-- What the modes other than `info` need. -/
def checkRights : Main Unit := do
  let root ← Cmd.lift hasRootAccess
  failIf (!root)
  exitOnFail leftToRight .rdpmc (keeping fun _ => canUseRdpmc)

/-- The mode `bench`. -/
def benchMode : Main Unit := do
  Cmd.modify fun s => if s.arguments.iter < 1 then { s with arguments.iter := 1000000 } else s
  exitOnFail leftToRight .benchmark
    (keeping fun s => benchmark s.arguments.iter.toInt64.toUInt64)

/-- Open the output. -/
def openOutput : Main Unit := do
  let s ← Cmd.get
  match s.arguments.outputFile with
  | none => exitOnFail leftToRight .outputStdout outputStdoutStep
  | some file => exitOnFail leftToRight .outputFile (outputFileStep file)

/-- Bring the other process to the same core: a given one is moved there, a program is
started. -/
def startExternal : Main Unit := do
  let s ← Cmd.get
  if s.arguments.pid ≠ 0 then
    exitOnFail leftToRight .focusGiven
      (keeping fun s => focusCpuCore s.arguments.pid.toUInt32 s.arguments.cpu.toUInt32)
  else if s.arguments.program.isSome = true then
    exitOnFail leftToRight .program programStep
  else pure ()

/-- Set the timer of the measurement. -/
def setAlarm : Main Unit := do
  let s ← Cmd.get
  if s.arguments.seconds > 0 then Cmd.lift (sys (.alarm s.arguments.seconds)) else pure ()

/-- The mode `profile`. -/
def profileMode (fuel : ℕ) : Main Unit := do
  openOutput leftToRight
  exitOnFail leftToRight .alloc allocStep
  startExternal leftToRight
  setAlarm
  exitOnFail leftToRight .profile (profileStep fuel)

/-- Choose the mode; an unknown one goes to `FINALIZE`. -/
def runMode (fuel : ℕ) : Main Unit := do
  let s ← Cmd.get
  if s.arguments.mode = "bench" then benchMode leftToRight
  else if s.arguments.mode = "profile" then profileMode leftToRight fuel
  else Cmd.throw .finalize

/-- Kill the external process. -/
def killExternal : Main Unit := do
  let s ← Cmd.get
  if s.arguments.pid ≠ 0 ∧ s.arguments.program.isSome = true then do
    let _ ← Cmd.lift (sys (.kill s.arguments.pid.toInt))
    pure ()
  else pure ()

/-- The body of `main`, up to `FINALIZE`. -/
def mainBody (fuel : ℕ) : Main Unit := do
  setUp leftToRight
  let s ← Cmd.get
  if s.arguments.mode = "info" then pure ()
  else do
    checkRights leftToRight
    runMode leftToRight fuel
    killExternal

/-- The block `FINALIZE`. Its own failures are only printed. -/
def finalize (s : Locals) : Proc Unit := do
  let _ ← outputClose s.output
  if s.buffer ≠ .null then do
    let _ ← freeAligned s.buffer s.cache
    pure ()
  else pure ()

/-- `main` after the parsing of its arguments, with its exit status. `garbage` is what the
stack holds where `main` puts the variables that it does not initialise. -/
def main (fuel : ℕ) (arguments : Arguments) (garbage : Locals) : Proc ℤ := do
  match ← mainBody leftToRight fuel { garbage with arguments, buffer := .null } with
  | (.error .failure, _) => pure 1
  | (_, s) => do
    finalize s
    pure 0

end

/-! ### Some arguments -/

/-- The arguments `mode`, and the defaults. -/
def defaultArguments (mode : String) : Arguments :=
  { mode, level := 1, iter := 0, pid := 0, seconds := 0, cpu := 0, outputFile := none
    program := none, programArgs := none }

/-- Zeroes on the stack. -/
def zeroStack : Locals :=
  { output := ⟨0, .null, 0, 0⟩, arguments := defaultArguments "", cache := fourMiBCache
    buffer := .null, core := 0 }

end CacheNoise
