import CacheNoise.General.Options
import CacheNoise.SysInfo.Stdio
import CacheNoise.Main

/-!
# The command line of `main`

`parse_opt`, the calls that `argp_parse` makes of it, and `main` with the words of its command
line. The words are read as `getopt_long` reads them (`Options`), with the table `arg_options` and
the options that `argp` adds.

A command line is accepted if and only if it follows the rules, has exactly one word that is no
option, asks for no help, and its numbers fit into an `int`, also those that later ones replace;
each variable then holds the last value given or its default (`argpParse_ok_iff`). So what the
stack held in `mode` is never seen, and all values of `arguments_t` can be given
(`mainArgv_reaches`).
-/

namespace CacheNoise

open Options

/-! ### `atoi` -/

namespace Argp

/-- What ends the parsing before its end. -/
inductive Stop
  /-- `exit(status)` -/
  | exited (status : ℤ)
  | undefined (cause : Undefined)
  deriving DecidableEq

/-- The number at the begin of a text, 0 if there is none. -/
def strtol (str : List Char) : ℤ :=
  match str.dropWhile isSpace with
  | '-' :: digits => -decimal (digits.takeWhile Char.isDigit)
  | '+' :: digits => decimal (digits.takeWhile Char.isDigit)
  | digits => decimal (digits.takeWhile Char.isDigit)

/-- The number fits into an `int`. -/
def IsInt (str : List Char) : Prop := -2 ^ 31 ≤ strtol str ∧ strtol str < 2 ^ 31

instance (str : List Char) : Decidable (IsInt str) := inferInstanceAs (Decidable (_ ∧ _))

/-- `atoi`. -/
def atoi (str : List Char) : Except Stop Int32 :=
  if IsInt str then .ok (Int32.ofInt (strtol str)) else .error (.undefined .overflow)

/-! ### `parse_opt` -/

/-- The options of `arg_options`. -/
inductive Name
  | iter | seconds | cpu | pid | level | program | programArgs | output
  deriving DecidableEq

/-- The argument `key` of `parse_opt`. -/
inductive Key
  | option (name : Name)
  /-- `ARGP_KEY_ARG` -/
  | arg
  /-- `ARGP_KEY_END` -/
  | done
  /-- Any other, of those that `argp` defines. -/
  | other
  deriving DecidableEq

/-- `ARGP_ERR_UNKNOWN` -/
def argpErrUnknown : ErrorT := 7

/-- `argp_usage` prints how to call the program, and exits with `EX_USAGE`. -/
def argpUsage {α : Type} : Except Stop α := .error (.exited 64)

/-- `parse_opt`. -/
def parseOpt (key : Key) (arg : List Char) (argNum : ℕ) (s : Arguments) :
    Except Stop (ErrorT × Arguments) :=
  match key with
  | .option .pid => do return (0, { s with pid := ← atoi arg })
  | .option .cpu => do return (0, { s with cpu := ← atoi arg })
  | .option .level => do return (0, { s with level := ← atoi arg })
  | .option .iter => do return (0, { s with iter := ← atoi arg })
  | .option .seconds => do return (0, { s with seconds := ← atoi arg })
  | .option .output => .ok (0, { s with outputFile := some (String.ofList arg) })
  | .option .program => .ok (0, { s with program := some (String.ofList arg) })
  | .option .programArgs => .ok (0, { s with programArgs := some (String.ofList arg) })
  | .arg => if argNum ≥ 1 then argpUsage else .ok (0, { s with mode := String.ofList arg })
  | .done => if argNum < 1 then argpUsage else .ok (0, s)
  | .other => .ok (argpErrUnknown, s)

/-! ### `argp_parse` -/

/-- The options of the program: those of `arg_options`, and those that `argp` adds to them. -/
inductive OptionKey
  | parsed (name : Name)
  | help | usage | version | programName | hang
  deriving DecidableEq

/-- `arg_options`, and the options of `argp`. -/
def argOptions : Table OptionKey where
  specs :=
    [⟨.parsed .iter, ['i', 't', 'e', 'r'], some 'i', .required⟩,
      ⟨.parsed .seconds, ['s', 'e', 'c', 'o', 'n', 'd', 's'], some 's', .required⟩,
      ⟨.parsed .cpu, ['c', 'p', 'u'], some 'c', .required⟩,
      ⟨.parsed .pid, ['p', 'i', 'd'], some 'p', .required⟩,
      ⟨.parsed .level, ['l', 'e', 'v', 'e', 'l'], some 'l', .required⟩,
      ⟨.parsed .program, ['p', 'r', 'o', 'g', 'r', 'a', 'm'], none, .required⟩,
      ⟨.parsed .programArgs, ['p', 'r', 'o', 'g', 'r', 'a', 'm', '-', 'a', 'r', 'g', 's'], none,
        .required⟩,
      ⟨.parsed .output, ['o', 'u', 't', 'p', 'u', 't'], some 'o', .required⟩,
      ⟨.help, ['h', 'e', 'l', 'p'], some '?', .nothing⟩,
      ⟨.programName, ['p', 'r', 'o', 'g', 'r', 'a', 'm', '-', 'n', 'a', 'm', 'e'], none,
        .required⟩,
      ⟨.usage, ['u', 's', 'a', 'g', 'e'], none, .nothing⟩,
      ⟨.hang, ['H', 'A', 'N', 'G'], none, .optional⟩,
      ⟨.version, ['v', 'e', 'r', 's', 'i', 'o', 'n'], some 'V', .nothing⟩]
  short_ne := by decide

/-- An option with its argument, on a command line. -/
abbrev Given : Type := OptionKey × Option (List Char)

/-- What `argp_parse` does at an option: call `parse_opt`, or see to its own options. -/
def takeOption (s : Arguments) : Given → Except Stop Arguments
  | (.parsed name, arg) => (·.2) <$> parseOpt (.option name) (arg.getD []) 0 s
  | (.help, _) | (.usage, _) | (.version, _) => .error (.exited 0)
  | (.programName, _) | (.hang, _) => .ok s

/-- What `argp_parse` does at a word, after a number of others. -/
def takeWord (s : Arguments) (word : List Char × ℕ) : Except Stop Arguments :=
  (·.2) <$> parseOpt .arg word.1 word.2 s

/-- The words that are no options, and the end. -/
def takeWords (s : Arguments) (words : List (List Char)) : Except Stop Arguments := do
  let s ← words.zipIdx.foldlM takeWord s
  let (_, s) ← parseOpt .done [] words.length s
  return s

/-- `argp_parse`: the options, then the other words. Before and after these it calls `parse_opt`
with keys that it does not know, and ignores that. -/
def argpParse (line : List (List Char)) (s : Arguments) : Except Stop Arguments := do
  let (_, s) ← parseOpt .other [] 0 s
  let s ← (argOptions.scan line).1.foldlM takeOption s
  match (argOptions.scan line).2 with
  | none => argpUsage
  | some words => do
    let s ← takeWords s words
    let (_, s) ← parseOpt .other [] words.length s
    return s

end Argp

open Argp

/-- The variable `arguments` of `main`, before it is parsed. -/
def initialArguments (garbage : Arguments) : Arguments :=
  { garbage with
    level := 1
    iter := 0
    pid := 0
    cpu := 0
    seconds := 0
    outputFile := none
    program := none
    programArgs := none }

/-- `main`, with the words of its command line. -/
def mainArgv (leftToRight : Bool) (fuel : ℕ) (line : List (List Char)) (garbage : Locals) :
    Proc (Except Stop ℤ) :=
  match argpParse line (initialArguments garbage.arguments) with
  | .error stop => pure (.error stop)
  | .ok arguments => .ok <$> main leftToRight fuel arguments garbage

/-! ### What a command line gives -/

namespace Argp

/-- What is given for an option at last. -/
def lastArg (name : Name) (items : List Given) : Option (List Char) :=
  (items.filterMap fun item =>
    if item.1 = .parsed name then some (item.2.getD []) else none).getLast?

/-- The number that is given at last, or another. -/
def givenInt (name : Name) (items : List Given) (default : Int32) : Int32 :=
  (lastArg name items).elim default fun arg => Int32.ofInt (strtol arg)

/-- The text that is given at last, or another. -/
def givenText (name : Name) (items : List Given) (default : Option String) : Option String :=
  (lastArg name items).elim default fun arg => some (String.ofList arg)

/-- The variables as the options give them. -/
def given (items : List Given) (s : Arguments) : Arguments where
  mode := s.mode
  level := givenInt .level items s.level
  iter := givenInt .iter items s.iter
  pid := givenInt .pid items s.pid
  seconds := givenInt .seconds items s.seconds
  cpu := givenInt .cpu items s.cpu
  outputFile := givenText .output items s.outputFile
  program := givenText .program items s.program
  programArgs := givenText .programArgs items s.programArgs

/-- The options that take a number. -/
def Name.IsNumber (name : Name) : Prop :=
  name = .level ∨ name = .iter ∨ name = .pid ∨ name = .seconds ∨ name = .cpu

instance (name : Name) : Decidable name.IsNumber := inferInstanceAs (Decidable (_ ∨ _))

/-- An option with which the parsing goes on: none that prints something and exits, and no number
that does not fit. -/
def Passes : Given → Prop
  | (.parsed name, arg) => name.IsNumber → IsInt (arg.getD [])
  | (.programName, _) | (.hang, _) => True
  | (.help, _) | (.usage, _) | (.version, _) => False

theorem lastArg_cons (name : Name) (item : Given) (items : List Given) :
    lastArg name (item :: items) = (lastArg name items).or (lastArg name [item]) := by
  rw [lastArg, lastArg, lastArg, ← List.singleton_append, List.filterMap_append,
    List.getLast?_append]

theorem givenInt_cons (name : Name) (item : Given) (items : List Given) (default : Int32) :
    givenInt name (item :: items) default = givenInt name items (givenInt name [item] default) := by
  rw [givenInt, lastArg_cons, givenInt]
  cases lastArg name items <;> rfl

theorem givenText_cons (name : Name) (item : Given) (items : List Given)
    (default : Option String) :
    givenText name (item :: items) default =
      givenText name items (givenText name [item] default) := by
  rw [givenText, lastArg_cons, givenText]
  cases lastArg name items <;> rfl

theorem given_cons (item : Given) (items : List Given) (s : Arguments) :
    given (item :: items) s = given items (given [item] s) := by
  simp only [given, givenInt_cons _ item items, givenText_cons _ item items]

/-- **One option.** -/
theorem takeOption_eq (s : Arguments) (name : Name) (arg : Option (List Char)) :
    takeOption s (.parsed name, arg) =
      if name.IsNumber → IsInt (arg.getD []) then .ok (given [(.parsed name, arg)] s)
      else .error (.undefined .overflow) := by
  by_cases hnumber : name.IsNumber
  · by_cases h : IsInt (arg.getD [])
    · rw [if_pos fun _ => h]
      rcases hnumber with rfl | rfl | rfl | rfl | rfl <;>
        simp only [takeOption, parseOpt, atoi, if_pos h] <;> rfl
    · rw [if_neg fun hint => h (hint hnumber)]
      rcases hnumber with rfl | rfl | rfl | rfl | rfl <;>
        simp only [takeOption, parseOpt, atoi, if_neg h] <;> rfl
  · rw [if_pos fun h => absurd h hnumber]
    cases name <;> first | rfl | exact absurd (by decide) hnumber

theorem takeOption_eq_ok {s s' : Arguments} {item : Given} :
    takeOption s item = .ok s' ↔ Passes item ∧ s' = given [item] s := by
  obtain ⟨name | _, arg⟩ := item
  · rw [takeOption_eq]
    split_ifs with h
    · exact ⟨fun heq => ⟨h, (Except.ok.inj heq).symm⟩, fun heq => congrArg _ heq.2.symm⟩
    · exact ⟨fun heq => (nomatch heq), fun heq => absurd heq.1 h⟩
  -- the options of `argp` itself
  · exact ⟨fun h => (nomatch h), fun h => h.1.elim⟩
  · exact ⟨fun h => (nomatch h), fun h => h.1.elim⟩
  · exact ⟨fun h => (nomatch h), fun h => h.1.elim⟩
  · exact ⟨fun h => ⟨trivial, (Except.ok.inj h).symm⟩, fun h => congrArg _ h.2.symm⟩
  · exact ⟨fun h => ⟨trivial, (Except.ok.inj h).symm⟩, fun h => congrArg _ h.2.symm⟩

/-- **All options.** -/
theorem foldlM_takeOption {items : List Given} {s s' : Arguments} :
    items.foldlM takeOption s = .ok s' ↔ (∀ item ∈ items, Passes item) ∧ s' = given items s := by
  induction items generalizing s with
  | nil => exact ⟨fun h => ⟨nofun, (Except.ok.inj h).symm⟩, fun h => congrArg _ h.2.symm⟩
  | cons item items ih =>
    rw [List.foldlM_cons, List.forall_mem_cons]
    cases hitem : takeOption s item with
    | error stop =>
      refine ⟨fun h => (nomatch h), fun h => ?_⟩
      rw [takeOption_eq_ok.mpr ⟨h.1.1, rfl⟩] at hitem
      cases hitem
    | ok s₁ =>
      obtain ⟨hpass, rfl⟩ := takeOption_eq_ok.mp hitem
      rw [given_cons item items, and_iff_right hpass]
      exact ih

/-- **The words**: there is exactly one. -/
theorem takeWords_eq_ok {words : List (List Char)} {s s' : Arguments} :
    takeWords s words = .ok s' ↔
      ∃ mode, words = [mode] ∧ s' = { s with mode := String.ofList mode } := by
  match words with
  | [] => exact ⟨fun h => (nomatch h), fun ⟨_, h, _⟩ => (nomatch h)⟩
  | [mode] =>
    refine ⟨fun h => ⟨mode, rfl, (Except.ok.inj h).symm⟩, ?_⟩
    rintro ⟨_, ⟨rfl⟩, rfl⟩
    rfl
  | mode :: word :: words => exact ⟨fun h => (nomatch h), fun ⟨_, h, _⟩ => (nomatch h)⟩

/-- The keys that `parse_opt` does not know change nothing. -/
theorem argpParse_eq (line : List (List Char)) (s : Arguments) :
    argpParse line s = ((argOptions.scan line).1.foldlM takeOption s).bind fun s =>
      (argOptions.scan line).2.elim argpUsage (takeWords s) := by
  refine congrArg (Except.bind _) (funext fun s => ?_)
  cases (argOptions.scan line).2 with
  | none => rfl
  | some words =>
    change (takeWords s words).bind _ = takeWords s words
    cases takeWords s words <;> rfl

theorem argpParse_of_line {line : List (List Char)} {items : List Given} {mode : List Char}
    (hline : argOptions.Line line items [mode]) (hpass : ∀ item ∈ items, Passes item)
    (s : Arguments) :
    argpParse line s = .ok (given items { s with mode := String.ofList mode }) := by
  rw [argpParse_eq, Table.scan_eq_iff.mpr hline, foldlM_takeOption.mpr ⟨hpass, rfl⟩]
  exact takeWords_eq_ok.mpr ⟨mode, rfl, rfl⟩

/-- **The command lines that are accepted**, and what they give. -/
theorem argpParse_ok_iff {line : List (List Char)} {s s' : Arguments} :
    argpParse line s = .ok s' ↔ ∃ items mode, argOptions.Line line items [mode] ∧
      (∀ item ∈ items, Passes item) ∧ s' = given items { s with mode := String.ofList mode } := by
  constructor
  · intro h
    rw [argpParse_eq] at h
    cases hitems : (argOptions.scan line).1.foldlM takeOption s with
    | error stop =>
      rw [hitems] at h
      cases h
    | ok s₁ =>
      rw [hitems] at h
      cases hwords : (argOptions.scan line).2 with
      | none =>
        rw [hwords] at h
        cases h
      | some words =>
        rw [hwords] at h
        obtain ⟨hpass, rfl⟩ := foldlM_takeOption.mp hitems
        obtain ⟨mode, rfl, rfl⟩ := takeWords_eq_ok.mp h
        exact ⟨_, mode, Table.scan_eq_iff.mp (Prod.ext rfl hwords), hpass, rfl⟩
  · rintro ⟨items, mode, hline, hpass, rfl⟩
    exact argpParse_of_line hline hpass s

/-! ### A command line for each value -/

theorem isSpace_of_isDigit {c : Char} (h : c.isDigit = true) : isSpace c = false := by
  rw [Char.isDigit_iff_toNat] at h
  refine decide_eq_false ?_
  rintro (rfl | hc)
  · exact absurd h (by decide)
  · exact absurd (h.1.trans hc.2) (by decide)

/-- The value of a numeral. -/
theorem strtol_toDigits (k : ℕ) : strtol (Nat.toDigits 10 k) = k := by
  have hdigits : ∀ c ∈ Nat.toDigits 10 k, c.isDigit = true := fun c hc =>
    Nat.isDigit_of_mem_toDigits (by norm_num) (by norm_num) hc
  have hvalue : decimal (Nat.toDigits 10 k) = k := Nat.ofDigitChars_ten_toDigits
  cases htext : Nat.toDigits 10 k with
  | nil => exact absurd htext Nat.toDigits_ne_nil
  | cons c digits =>
    rw [htext] at hdigits hvalue
    have hc : c.isDigit = true := hdigits c List.mem_cons_self
    rw [strtol, List.dropWhile_cons_of_neg (by rw [isSpace_of_isDigit hc]; decide)]
    split
    · rename_i heq
      rw [List.head_eq_of_cons_eq heq] at hc
      exact absurd hc (by decide)
    · rename_i heq
      rw [List.head_eq_of_cons_eq heq] at hc
      exact absurd hc (by decide)
    · rw [List.takeWhile_eq_self_iff.mpr hdigits, hvalue]

/-- **A number is read back.** -/
theorem strtol_intText (n : Int32) : strtol (Stdio.intText n) = n.toInt := by
  rw [Stdio.intText]
  cases n.toInt with
  | ofNat k => exact strtol_toDigits k
  | negSucc k =>
    have hdigits : ∀ c ∈ Nat.toDigits 10 (k + 1), c.isDigit = true := fun c hc =>
      Nat.isDigit_of_mem_toDigits (by norm_num) (by norm_num) hc
    have hvalue : decimal (Nat.toDigits 10 (k + 1)) = k + 1 := Nat.ofDigitChars_ten_toDigits
    change -((decimal ((Nat.toDigits 10 (k + 1)).takeWhile Char.isDigit) : ℕ) : ℤ) = _
    rw [List.takeWhile_eq_self_iff.mpr hdigits, hvalue]
    rfl

theorem isInt_intText (n : Int32) : IsInt (Stdio.intText n) := by
  rw [IsInt, strtol_intText]
  exact ⟨n.le_toInt, n.toInt_lt⟩

/-- Options that give all variables but `mode`. -/
def itemsFor (s : Arguments) : List Given :=
  [(.parsed .level, some (Stdio.intText s.level)), (.parsed .iter, some (Stdio.intText s.iter)),
    (.parsed .pid, some (Stdio.intText s.pid)), (.parsed .seconds, some (Stdio.intText s.seconds)),
    (.parsed .cpu, some (Stdio.intText s.cpu))] ++
  (s.outputFile.map fun text => (.parsed .output, some text.toList)).toList ++
  (s.program.map fun text => (.parsed .program, some text.toList)).toList ++
  (s.programArgs.map fun text => (.parsed .programArgs, some text.toList)).toList

theorem given_itemsFor (s garbage : Arguments) :
    given (itemsFor s) { initialArguments garbage with mode := s.mode } = s := by
  obtain ⟨mode, level, iter, pid, seconds, cpu, outputFile, program, programArgs⟩ := s
  cases outputFile <;> cases program <;> cases programArgs <;>
    simp [given, givenInt, givenText, lastArg, itemsFor, strtol_intText, initialArguments]

/-- Each option is the one of its name. -/
theorem long_name : ∀ spec ∈ argOptions.specs,
    '=' ∉ spec.name ∧ argOptions.long spec.name = some spec := by decide

theorem exists_spec (name : Name) : ∃ spec ∈ argOptions.specs,
    spec.key = .parsed name ∧ spec.takes = .required := by
  cases name <;> decide

/-- Options with their arguments, and a mode, have a command line. -/
theorem line_of_items {items : List Given}
    (h : ∀ item ∈ items, ∃ name arg, item = (.parsed name, some arg)) (mode : List Char) :
    ∃ line, argOptions.Line line items [mode] := by
  induction items with
  | nil => exact ⟨_, .quote [mode]⟩
  | cons item items ih =>
    obtain ⟨⟨name, arg, rfl⟩, hitems⟩ := List.forall_mem_cons.mp h
    obtain ⟨line, hline⟩ := ih hitems
    obtain ⟨spec, hspec, hkey, htakes⟩ := exists_spec name
    obtain ⟨heq, hlong⟩ := long_name spec hspec
    have hspelled := Table.Spelled.longJoined heq hlong (by rw [htakes]; decide) arg
    exact ⟨_, .options (hkey ▸ hspelled) hline⟩

theorem parsed_itemsFor (s : Arguments) :
    ∀ item ∈ itemsFor s, ∃ name arg, item = (.parsed name, some arg) := by
  simp [itemsFor, or_imp, forall_and]

theorem passes_itemsFor (s : Arguments) : ∀ item ∈ itemsFor s, Passes item := by
  simp [itemsFor, or_imp, forall_and, Passes, isInt_intText, Name.IsNumber]

end Argp

/-- **All values can be given**, and the rest of the program is then what it is for them; what was
on the stack before does not matter. -/
theorem mainArgv_reaches (arguments : Arguments) : ∃ line, ∀ leftToRight fuel garbage,
    mainArgv leftToRight fuel line garbage = .ok <$> main leftToRight fuel arguments garbage := by
  obtain ⟨line, hline⟩ := line_of_items (parsed_itemsFor arguments) arguments.mode.toList
  refine ⟨line, fun leftToRight fuel garbage => ?_⟩
  have hparse := argpParse_of_line hline (passes_itemsFor arguments)
    (initialArguments garbage.arguments)
  rw [String.ofList_toList, given_itemsFor] at hparse
  rw [mainArgv, hparse]

end CacheNoise
