import Mathlib.Data.List.TakeWhile
import Mathlib.Tactic

/-!
# Options on a command line

A command line is a list of words: options, long or short, with their arguments, and other words,
in any order. `Table.scan` reads it from left to right, the way of `getopt_long`. What a command
line means is told by rules (`Table.Spelled`, `Table.Line`): how an option with its argument may be
spelled, and how a line is put together. The reader follows the rules and accepts every line that
they allow (`Table.scan_eq_iff`); in particular, no line means two things.
-/

namespace Options

/-- Whether an option takes an argument. -/
inductive Takes
  | nothing
  /-- Only if it is joined to the option. -/
  | optional
  | required
  deriving DecidableEq

/-- An option. -/
structure Spec (κ : Type*) where
  key : κ
  name : List Char
  short : Option Char
  takes : Takes
  deriving DecidableEq

/-- The options of a program. -/
structure Table (κ : Type*) where
  specs : List (Spec κ)
  /-- Two dashes begin a long option, not two short ones. -/
  short_ne : ∀ spec ∈ specs, spec.short ≠ some '-'

variable {κ : Type*} (table : Table κ)

namespace Table

/-! ### The reader -/

/-- The long option with a name, or with a name that begins so if it is the only one. -/
def long (name : List Char) : Option (Spec κ) :=
  match table.specs.find? (·.name = name) with
  | some spec => some spec
  | none =>
    match table.specs.filter (name <+: ·.name) with
    | [spec] => some spec
    | _ => none

/-- The short option of a character. -/
def short (c : Char) : Option (Spec κ) := table.specs.find? (·.short = some c)

/-- What a word is. -/
inductive Reading (κ : Type*)
  /-- No option. -/
  | word
  /-- The two dashes after which there are no options. -/
  | quote
  /-- Options with their arguments. -/
  | options (items : List (κ × Option (List Char)))
  /-- Options, the last of which has the next word as its argument. -/
  | needs (items : List (κ × Option (List Char))) (key : κ)
  /-- Options, and then something else. -/
  | invalid (items : List (κ × Option (List Char)))

/-- An option more at the beginning. -/
def Reading.cons (item : κ × Option (List Char)) : Reading κ → Reading κ
  | .word => .word
  | .quote => .quote
  | .options items => .options (item :: items)
  | .needs items key => .needs (item :: items) key
  | .invalid items => .invalid (item :: items)

/-- A word after two dashes. -/
def readLong (text : List Char) : Reading κ :=
  match table.long (text.takeWhile (· ≠ '=')), text.dropWhile (· ≠ '=') with
  | none, _ => .invalid []
  | some spec, [] =>
    match spec.takes with
    | .required => .needs [] spec.key
    | _ => .options [(spec.key, none)]
  | some spec, _ :: arg =>
    match spec.takes with
    | .nothing => .invalid []
    | _ => .options [(spec.key, some arg)]

/-- A word after one dash: options without arguments, up to one that takes the rest as its own. -/
def readShort : List Char → Reading κ
  | [] => .options []
  | c :: text =>
    match table.short c with
    | none => .invalid []
    | some spec =>
      match spec.takes with
      | .nothing => (readShort text).cons (spec.key, none)
      | .optional => .options [(spec.key, if text = [] then none else some text)]
      | .required => if text = [] then .needs [] spec.key else .options [(spec.key, some text)]

/-- A word of a command line. -/
def read : List Char → Reading κ
  | ['-', '-'] => .quote
  | '-' :: '-' :: text => table.readLong text
  | '-' :: c :: text => table.readShort (c :: text)
  | _ => .word

/-- The options of a command line and the other words, or no words if it is not valid; then these
are the options up to there. -/
def scan : List (List Char) → List (κ × Option (List Char)) × Option (List (List Char))
  | [] => ([], some [])
  | word :: rest =>
    match table.read word with
    | .word => ((scan rest).1, (scan rest).2.map (word :: ·))
    | .quote => ([], some rest)
    | .options items => (items ++ (scan rest).1, (scan rest).2)
    | .needs items key =>
      match rest with
      | [] => (items, none)
      | arg :: rest => (items ++ (key, some arg) :: (scan rest).1, (scan rest).2)
    | .invalid items => (items, none)

/-! ### The rules -/

/-- How options with their arguments are spelled, in one word or two. -/
inductive Spelled : List (List Char) → List (κ × Option (List Char)) → Prop
  | long {name : List Char} {spec : Spec κ} (hname : name ≠ []) (heq : '=' ∉ name)
      (h : table.long name = some spec) (htakes : spec.takes ≠ .required) :
      Spelled ['-' :: '-' :: name] [(spec.key, none)]
  | longJoined {name : List Char} {spec : Spec κ} (heq : '=' ∉ name)
      (h : table.long name = some spec) (htakes : spec.takes ≠ .nothing) (arg : List Char) :
      Spelled ['-' :: '-' :: (name ++ '=' :: arg)] [(spec.key, some arg)]
  | longApart {name : List Char} {spec : Spec κ} (hname : name ≠ []) (heq : '=' ∉ name)
      (h : table.long name = some spec) (htakes : spec.takes = .required) (arg : List Char) :
      Spelled ['-' :: '-' :: name, arg] [(spec.key, some arg)]
  | short {c : Char} {spec : Spec κ} (h : table.short c = some spec)
      (htakes : spec.takes ≠ .required) : Spelled [['-', c]] [(spec.key, none)]
  | shortJoined {c : Char} {spec : Spec κ} (h : table.short c = some spec)
      (htakes : spec.takes ≠ .nothing) {arg : List Char} (harg : arg ≠ []) :
      Spelled ['-' :: c :: arg] [(spec.key, some arg)]
  | shortApart {c : Char} {spec : Spec κ} (h : table.short c = some spec)
      (htakes : spec.takes = .required) (arg : List Char) :
      Spelled [['-', c], arg] [(spec.key, some arg)]
  /-- An option without an argument, and more in the same word. -/
  | cluster {c c' : Char} {spec : Spec κ} {text : List Char} {rest : List (List Char)}
      {items : List (κ × Option (List Char))} (h : table.short c = some spec)
      (htakes : spec.takes = .nothing) (hdash : c' ≠ '-')
      (hrest : Spelled (('-' :: c' :: text) :: rest) items) :
      Spelled (('-' :: c :: c' :: text) :: rest) ((spec.key, none) :: items)

/-- A word that is no option: it does not begin with a dash, or is one. -/
def IsWord (word : List Char) : Prop := word.head? ≠ some '-' ∨ word = ['-']

/-- A command line, with the options and the other words on it. -/
inductive Line : List (List Char) → List (κ × Option (List Char)) → List (List Char) → Prop
  | nil : Line [] [] []
  /-- After two dashes there are only words. -/
  | quote (words : List (List Char)) : Line (['-', '-'] :: words) [] words
  | word {word : List Char} {rest words : List (List Char)}
      {items : List (κ × Option (List Char))} (h : IsWord word) (hrest : Line rest items words) :
      Line (word :: rest) items (word :: words)
  | options {spelled rest words : List (List Char)} {items items' : List (κ × Option (List Char))}
      (h : table.Spelled spelled items) (hrest : Line rest items' words) :
      Line (spelled ++ rest) (items ++ items') words

variable {table}

/-! ### The reader follows the rules -/

/-- What a reading of a word tells about it. -/
def Reading.Tells (table : Table κ) (word : List Char) : Reading κ → Prop
  | .word => IsWord word
  | .quote => word = ['-', '-']
  | .options items => table.Spelled [word] items
  | .needs items key => ∀ arg, table.Spelled [word, arg] (items ++ [(key, some arg)])
  | .invalid _ => True

theorem not_isWord {c : Char} {text : List Char} : ¬ IsWord ('-' :: c :: text) := by
  rintro (h | h)
  · exact h rfl
  · cases h

theorem short_dash : table.short '-' = none :=
  List.find?_eq_none.mpr fun spec hspec h => table.short_ne spec hspec (of_decide_eq_true h)

theorem ne_dash {c : Char} {spec : Spec κ} (h : table.short c = some spec) : c ≠ '-' := by
  rintro rfl
  rw [short_dash] at h
  cases h

/-- **One more option** without an argument at the beginning of a word. -/
theorem Reading.Tells.cons {c c' : Char} {spec : Spec κ} {text : List Char} {r : Reading κ}
    (hr : r.Tells table ('-' :: c' :: text)) (h : table.short c = some spec)
    (htakes : spec.takes = .nothing) (hdash : c' ≠ '-') :
    (r.cons (spec.key, none)).Tells table ('-' :: c :: c' :: text) := by
  cases r with
  | word => exact absurd hr not_isWord
  | quote => exact absurd (List.head_eq_of_cons_eq (List.tail_eq_of_cons_eq hr)) hdash
  | options items => exact .cluster h htakes hdash hr
  | needs items key => exact fun arg => .cluster h htakes hdash (hr arg)
  | invalid items => trivial

/-- **The rest of a word after one dash.** -/
theorem tells_readShort (c : Char) (text : List Char) :
    (table.readShort (c :: text)).Tells table ('-' :: c :: text) := by
  induction text generalizing c with
  | nil =>
    cases h : table.short c with
    | none => simp only [readShort, h, Reading.Tells]
    | some spec =>
      cases ht : spec.takes with
      | nothing => simpa only [readShort, h, ht] using .short h (by simp [ht])
      | optional => simpa only [readShort, h, ht, if_true] using .short h (by simp [ht])
      | required =>
        simp only [readShort, h, ht, if_true]
        exact fun arg => .shortApart h ht arg
  | cons c' text ih =>
    have hne : c' :: text ≠ [] := List.cons_ne_nil c' text
    cases h : table.short c with
    | none => simp only [readShort, h, Reading.Tells]
    | some spec =>
      cases ht : spec.takes with
      | nothing =>
        simp only [readShort, h, ht]
        by_cases hdash : c' = '-'
        · -- no short option is a dash
          rw [hdash, short_dash]
          trivial
        · exact (ih c').cons h ht hdash
      | optional =>
        simpa only [readShort, h, ht, if_neg hne] using .shortJoined h (by simp [ht]) hne
      | required =>
        simpa only [readShort, h, ht, if_neg hne] using .shortJoined h (by simp [ht]) hne

theorem takeWhile_name {name : List Char} (heq : '=' ∉ name) :
    name.takeWhile (· ≠ '=') = name ∧ name.dropWhile (· ≠ '=') = [] := by
  have hname : ∀ c ∈ name, decide (c ≠ '=') = true := fun c hc =>
    decide_eq_true (ne_of_mem_of_not_mem hc heq)
  exact ⟨List.takeWhile_eq_self_iff.mpr hname, List.dropWhile_eq_nil_iff.mpr hname⟩

theorem takeWhile_joined {name : List Char} (heq : '=' ∉ name) (arg : List Char) :
    (name ++ '=' :: arg).takeWhile (· ≠ '=') = name ∧
      (name ++ '=' :: arg).dropWhile (· ≠ '=') = '=' :: arg := by
  have hname : ∀ c ∈ name, decide (c ≠ '=') = true := fun c hc =>
    decide_eq_true (ne_of_mem_of_not_mem hc heq)
  constructor
  · rw [List.takeWhile_append_of_pos hname]
    simp
  · rw [List.dropWhile_append_of_pos hname]
    simp

/-- A text is a name, or a name and what stands after `=`. -/
theorem text_cases (text : List Char) :
    '=' ∉ text ∨ ∃ name arg, '=' ∉ name ∧ text = name ++ '=' :: arg := by
  by_cases hmem : '=' ∈ text
  · obtain ⟨name, arg, htext, heq⟩ := List.eq_append_cons_of_mem hmem
    exact .inr ⟨name, arg, heq, htext⟩
  · exact .inl hmem

/-- **The rest of a word after two dashes.** -/
theorem tells_readLong {text : List Char} (hne : text ≠ []) :
    (table.readLong text).Tells table ('-' :: '-' :: text) := by
  obtain heq | ⟨name, arg, heq, rfl⟩ := text_cases text
  · obtain ⟨htake, hdrop⟩ := takeWhile_name heq
    cases h : table.long text with
    | none => simp only [readLong, htake, hdrop, h, Reading.Tells]
    | some spec =>
      cases ht : spec.takes with
      | nothing => simpa only [readLong, htake, hdrop, h, ht] using .long hne heq h (by simp [ht])
      | optional => simpa only [readLong, htake, hdrop, h, ht] using .long hne heq h (by simp [ht])
      | required =>
        simp only [readLong, htake, hdrop, h, ht]
        exact fun arg => .longApart hne heq h ht arg
  · obtain ⟨htake, hdrop⟩ := takeWhile_joined heq arg
    cases h : table.long name with
    | none => simp only [readLong, htake, hdrop, h, Reading.Tells]
    | some spec =>
      cases ht : spec.takes with
      | nothing => simp only [readLong, htake, hdrop, h, ht, Reading.Tells]
      | optional =>
        simpa only [readLong, htake, hdrop, h, ht] using .longJoined heq h (by simp [ht]) arg
      | required =>
        simpa only [readLong, htake, hdrop, h, ht] using .longJoined heq h (by simp [ht]) arg

theorem read_long {text : List Char} (hne : text ≠ []) :
    table.read ('-' :: '-' :: text) = table.readLong text := by
  rw [read]
  exact hne

theorem read_short {c : Char} (hdash : c ≠ '-') (text : List Char) :
    table.read ('-' :: c :: text) = table.readShort (c :: text) := by
  rw [read]
  · exact fun h _ => hdash h
  · exact hdash

theorem read_word {word : List Char} (h : IsWord word) : table.read word = .word := by
  rw [read]
  · rintro rfl
    exact not_isWord h
  · rintro text rfl
    exact not_isWord h
  · rintro c text rfl
    exact not_isWord h

theorem isWord_cases (word : List Char) :
    IsWord word ∨ ∃ c text, word = '-' :: c :: text := by
  match word with
  | [] => exact .inl (.inl nofun)
  | [c] =>
    by_cases h : c = '-'
    · exact .inl (.inr (congrArg (fun c => [c]) h))
    · exact .inl (.inl fun hc => h (Option.some.inj hc))
  | c :: c' :: text =>
    by_cases h : c = '-'
    · exact .inr ⟨c', text, by rw [h]⟩
    · exact .inl (.inl fun hc => h (Option.some.inj hc))

/-- **A word.** -/
theorem tells_of_read {word : List Char} {r : Reading κ} (h : table.read word = r) :
    r.Tells table word := by
  subst h
  obtain h | ⟨c, text, rfl⟩ := isWord_cases word
  · rw [read_word h]
    exact h
  · by_cases hdash : c = '-'
    · subst hdash
      by_cases hne : text = []
      · rw [hne]
        rfl
      · rw [read_long hne]
        exact tells_readLong hne
    · rw [read_short hdash]
      exact tells_readShort c text

/-- What the reader makes of options, in one word or two. -/
def Reads (table : Table κ) (spelled : List (List Char)) (items : List (κ × Option (List Char))) :
    Prop :=
  (∃ word, spelled = [word] ∧ table.read word = .options items) ∨
  ∃ word arg items' key, spelled = [word, arg] ∧ items = items' ++ [(key, some arg)] ∧
    table.read word = .needs items' key

/-- **The reader accepts all options that the rules allow.** -/
theorem Spelled.reads {spelled : List (List Char)} {items : List (κ × Option (List Char))}
    (h : table.Spelled spelled items) : Reads table spelled items := by
  induction h with
  | @long name spec hname heq h htakes =>
    obtain ⟨htake, hdrop⟩ := takeWhile_name heq
    refine .inl ⟨_, rfl, ?_⟩
    rw [read_long hname]
    cases ht : spec.takes <;> simp_all only [readLong, ne_eq, not_true_eq_false]
  | @longJoined name spec heq h htakes arg =>
    obtain ⟨htake, hdrop⟩ := takeWhile_joined heq arg
    have hne : name ++ '=' :: arg ≠ [] := List.append_ne_nil_of_right_ne_nil _ nofun
    refine .inl ⟨_, rfl, ?_⟩
    rw [read_long hne]
    cases ht : spec.takes <;> simp_all only [readLong, ne_eq, not_true_eq_false]
  | @longApart name spec hname heq h htakes arg =>
    obtain ⟨htake, hdrop⟩ := takeWhile_name heq
    refine .inr ⟨_, arg, [], spec.key, rfl, rfl, ?_⟩
    rw [read_long hname]
    simp only [readLong, htake, hdrop, h, htakes]
  | @short c spec h htakes =>
    refine .inl ⟨_, rfl, ?_⟩
    rw [read_short (ne_dash h)]
    cases ht : spec.takes <;>
      simp_all only [readShort, Reading.cons, if_true, ne_eq, not_true_eq_false]
  | @shortJoined c spec h htakes arg harg =>
    refine .inl ⟨_, rfl, ?_⟩
    rw [read_short (ne_dash h)]
    cases ht : spec.takes <;> simp_all only [readShort, if_false, ne_eq, not_true_eq_false]
  | @shortApart c spec h htakes arg =>
    refine .inr ⟨_, arg, [], spec.key, rfl, rfl, ?_⟩
    rw [read_short (ne_dash h)]
    simp only [readShort, h, htakes, if_true]
  | @cluster c c' spec text rest items h htakes hdash hrest ih =>
    have hread : table.read ('-' :: c :: c' :: text) =
        (table.read ('-' :: c' :: text)).cons (spec.key, none) := by
      rw [read_short (ne_dash h), read_short hdash, readShort]
      simp only [h, htakes]
    obtain ⟨word, hword, hr⟩ | ⟨word, arg, items', key, hword, rfl, hr⟩ := ih
    · obtain ⟨rfl, rfl⟩ := List.cons_eq_cons.mp hword
      exact .inl ⟨_, rfl, by rw [hread, hr, Reading.cons]⟩
    · obtain ⟨rfl, rfl⟩ := List.cons_eq_cons.mp hword
      refine .inr ⟨_, arg, (spec.key, none) :: items', key, rfl, rfl, ?_⟩
      rw [hread, hr, Reading.cons]

theorem line_of_scan {line words : List (List Char)} {items : List (κ × Option (List Char))}
    (h : table.scan line = (items, some words)) : table.Line line items words := by
  fun_induction table.scan line generalizing items words with
  | case1 =>
    cases h
    exact .nil
  | case2 word rest hread ih =>
    obtain ⟨rfl, hwords⟩ := Prod.mk.inj h
    obtain ⟨words, hrest, rfl⟩ := Option.map_eq_some_iff.mp hwords
    exact .word (tells_of_read hread) (ih (Prod.ext rfl hrest))
  | case3 word rest hread =>
    cases h
    obtain rfl : word = ['-', '-'] := tells_of_read hread
    exact .quote rest
  | case4 word rest items₁ hread ih =>
    obtain ⟨rfl, hrest⟩ := Prod.mk.inj h
    exact .options (tells_of_read hread) (ih (Prod.ext rfl hrest))
  | case5 => cases h
  | case6 word items₁ key hread arg rest ih =>
    obtain ⟨rfl, hrest⟩ := Prod.mk.inj h
    have hline := Line.options (tells_of_read hread arg) (ih (Prod.ext rfl hrest))
    rwa [List.append_assoc] at hline
  | case7 => cases h

theorem Line.scan {line words : List (List Char)} {items : List (κ × Option (List Char))}
    (h : table.Line line items words) : table.scan line = (items, some words) := by
  induction h with
  | nil => rfl
  | quote words => rfl
  | word h hrest ih => rw [Table.scan, read_word h, ih]; rfl
  | options h hrest ih =>
    obtain ⟨word, rfl, hr⟩ | ⟨word, arg, items', key, rfl, rfl, hr⟩ := h.reads
    · rw [List.singleton_append, Table.scan, hr]
      simp only [ih]
    · rw [List.cons_append, List.singleton_append, Table.scan, hr]
      simp only [ih, List.append_assoc, List.singleton_append]

/-- **The reader accepts exactly the lines that the rules allow**, and gives what they say. -/
theorem scan_eq_iff {line words : List (List Char)} {items : List (κ × Option (List Char))} :
    table.scan line = (items, some words) ↔ table.Line line items words :=
  ⟨line_of_scan, Line.scan⟩

end Table

end Options
