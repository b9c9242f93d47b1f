import CacheNoise.Alloc.Lookup

/-!
# Open streams

Whatever the C library answers, a function that reads files has at most one stream open at a time,
uses it only while it is open, and closes it once; when the function returns, with success or with
an error, no stream is open (`ClosesAll`). `watch` is the automaton that sees to this.
-/

namespace CacheNoise

namespace Stdio

open Interaction

/-- The stream that is open after a call, if any; none if the call is not on the open stream. -/
def watch : Option ℕ → (e : Interaction.Event FileCall.Value) → Option (Option ℕ)
  | none, ⟨.fopen _, stream⟩ => some stream
  | none, ⟨.opendir _, dir⟩ => some dir
  | some h, ⟨.fscanf stream, _⟩ => if stream = h then some (some h) else none
  | some h, ⟨.fgetc stream, _⟩ => if stream = h then some (some h) else none
  | some h, ⟨.fgets stream _, _⟩ => if stream = h then some (some h) else none
  | some h, ⟨.fseek stream _, _⟩ => if stream = h then some (some h) else none
  | some h, ⟨.fread stream, _⟩ => if stream = h then some (some h) else none
  | some h, ⟨.readdir dir, _⟩ => if dir = h then some (some h) else none
  | some h, ⟨.fclose stream, _⟩ => if stream = h then some none else none
  | some h, ⟨.closedir dir, _⟩ => if dir = h then some none else none
  | opened, ⟨.sysconf, _⟩ => some opened
  | opened, ⟨.malloc, _⟩ => some opened
  | opened, ⟨.free, _⟩ => some opened
  | _, _ => none

/-- The stream that is open after some calls. -/
def opened (t : List (Interaction.Event FileCall.Value)) : Option (Option ℕ) := t.foldlM watch none

/-- Every call is on the open stream, and none is open when the program returns. -/
def ClosesAll {α : Type} (p : Reader α) : Prop :=
  ∀ t o, p.Run t o → ∃ stream, opened t = some stream ∧ (o ≠ none → stream = none)

/-! ### One call -/

/-- This stream is open. -/
def At (stream : Option ℕ) (h : List (Interaction.Event FileCall.Value)) : Prop :=
  opened h = some stream

/-- No call was on another stream than the open one. -/
def Watched (h : List (Interaction.Event FileCall.Value)) : Prop := ∃ stream, At stream h

theorem At.watched {stream : Option ℕ} {h : List (Interaction.Event FileCall.Value)}
    (hat : At stream h) : Watched h := ⟨stream, hat⟩

/-- A program that takes one open stream to another. -/
abbrev Moves {α : Type} (stream : Option ℕ) (p : Reader α) (next : α → Option ℕ) : Prop :=
  p.Triple (At stream) (fun a => At (next a)) Watched

theorem moves_call {stream : Option ℕ} {c : FileCall} {next : c.Value → Option ℕ}
    (h : ∀ a, watch stream ⟨c, a⟩ = some (next a)) : Moves stream (call c) next := by
  intro u t o hu hrun
  obtain ⟨a, rfl, rfl⟩ := Prog.run_perform.mp hrun
  change opened (u ++ [⟨c, a⟩]) = some (next a)
  rw [opened, List.foldlM_append, show u.foldlM watch none = some stream from hu]
  change (watch stream ⟨c, a⟩ >>= pure) = _
  rw [h a]
  rfl

theorem moves_pure {α : Type} (stream : Option ℕ) (a : α) :
    Moves stream (pure a : Reader α) fun _ => stream :=
  Prog.triple_pure fun _ h => h

theorem moves_stuck {α : Type} {stream : Option ℕ} {next : α → Option ℕ} :
    Moves stream (Prog.stuck : Reader α) next :=
  Prog.triple_stuck fun _ h => h.watched

theorem moves_defined {α : Type} (stream : Option ℕ) (x : Except Undefined α) :
    Moves stream (defined x) fun _ => stream := by
  cases x with
  | error e => exact moves_stuck
  | ok a => exact moves_pure stream a

theorem closesAll_of_moves {α : Type} {p : Reader α} (h : Moves none p fun _ => none) :
    ClosesAll p := by
  intro t o hrun
  have hat := h [] t o rfl hrun
  rw [List.nil_append] at hat
  cases o with
  | none =>
    obtain ⟨stream, hstream⟩ := hat
    exact ⟨stream, hstream, fun h => absurd rfl h⟩
  | some a => exact ⟨none, hat, fun _ => rfl⟩

section

variable (h : ℕ)

theorem moves_fopen (path : List Char) : Moves none (call (.fopen path)) fun stream => stream :=
  moves_call fun _ => rfl

theorem moves_opendir (path : List Char) : Moves none (call (.opendir path)) fun dir => dir :=
  moves_call fun _ => rfl

theorem moves_fscanf : Moves (some h) (call (.fscanf h)) fun _ => some h :=
  moves_call fun _ => if_pos rfl

theorem moves_fgetc : Moves (some h) (call (.fgetc h)) fun _ => some h :=
  moves_call fun _ => if_pos rfl

theorem moves_fgets (size : ℕ) : Moves (some h) (call (.fgets h size)) fun _ => some h :=
  moves_call fun _ => if_pos rfl

theorem moves_fseek (offset : UInt64) : Moves (some h) (call (.fseek h offset)) fun _ => some h :=
  moves_call fun _ => if_pos rfl

theorem moves_fread : Moves (some h) (call (.fread h)) fun _ => some h :=
  moves_call fun _ => if_pos rfl

theorem moves_fclose : Moves (some h) (call (.fclose h)) fun _ => none :=
  moves_call fun _ => if_pos rfl

theorem moves_readdir : Moves (some h) (call (.readdir h)) fun _ => some h :=
  moves_call fun _ => if_pos rfl

theorem moves_closedir : Moves (some h) (call (.closedir h)) fun _ => none :=
  moves_call fun _ => if_pos rfl

theorem moves_free (stream : Option ℕ) : Moves stream (call .free) fun _ => stream :=
  moves_call fun _ => by cases stream <;> rfl

end

/-- The stream is closed, and a value returned. -/
theorem moves_closed {α : Type} (h : ℕ) (a : α) :
    Moves (some h) (do
      let _ ← call (.fclose h)
      pure a) fun _ => none :=
  (moves_fclose h).bind fun _ => moves_pure none a

/-! ### The functions -/

section

variable (garbage : ℕ → Char)

theorem moves_readPropPut (path filename : List Char) (errorIo : ErrorT) :
    Moves none (readPropPut garbage path filename errorIo) fun _ => none := by
  refine (moves_defined none _).bind fun newPath => (moves_fopen newPath).bind fun file => ?_
  cases file with
  | none => exact moves_pure none _
  | some h =>
    refine (moves_fscanf h).bind fun res => (moves_fclose h).bind fun _ => ?_
    cases res <;> exact moves_pure none _

theorem moves_readType (h : ℕ) : Moves (some h) (readType h) fun _ => some h := by
  refine (moves_fgetc h).bind fun c => (moves_free (some h)).bind fun _ => ?_
  refine .ite (fun _ => moves_pure _ _) fun _ => .ite (fun _ => moves_pure _ _) fun _ => ?_
  refine .ite (fun _ => ?_) fun _ => moves_pure _ _
  refine (moves_fgetc h).bind fun c => .ite (fun _ => ?_) fun _ => moves_pure _ _
  exact (moves_fgetc h).bind fun c => .ite (fun _ => moves_pure _ _) fun _ => moves_pure _ _

theorem moves_typeOf (path : List Char) : Moves none (typeOf garbage path) fun _ => none := by
  have hmalloc : Moves none (call .malloc) fun _ => none := moves_call fun _ => rfl
  refine hmalloc.bind fun allocated => .ite (fun _ => moves_stuck) fun _ => ?_
  refine (moves_defined none _).bind fun newPath => (moves_fopen newPath).bind fun file => ?_
  cases file with
  | none => exact moves_stuck
  | some h => exact (moves_readType h).bind fun ctype => moves_closed h ctype

theorem moves_countEntries (dir fuel : ℕ) (count : UInt32) :
    Moves (some dir) (countEntries dir fuel count) fun _ => some dir := by
  induction fuel generalizing count with
  | zero => exact moves_stuck
  | succ fuel ih =>
    refine (moves_readdir dir).bind fun name => ?_
    cases name with
    | none => exact moves_pure _ _
    | some name => exact ih _

theorem moves_cacheCount (fuel : ℕ) (cpu : UInt32) :
    Moves none (cacheCount garbage fuel cpu) fun _ => none := by
  refine (moves_defined none _).bind fun cpuPath => (moves_opendir cpuPath).bind fun dir => ?_
  cases dir with
  | none => exact moves_pure none _
  | some dir =>
    refine (moves_countEntries dir fuel 0).bind fun count => ?_
    exact (moves_closedir dir).bind fun _ => moves_pure none _

theorem moves_readLines (file fuel : ℕ) (line : List Char) :
    Moves (some file) (readLines file fuel line) fun _ => some file := by
  induction fuel generalizing line with
  | zero => exact moves_stuck
  | succ fuel ih =>
    refine (moves_fgets file 99).bind fun read => ?_
    cases read with
    | none => exact moves_pure _ _
    | some read =>
      refine (moves_defined _ _).bind fun line => (moves_defined _ _).bind fun str => ?_
      exact .ite (fun _ => moves_pure _ _) fun _ => ih line

theorem moves_getHugepagesize (fuel : ℕ) :
    Moves none (getHugepagesize garbage fuel) fun _ => none := by
  refine (moves_fopen procMeminfo).bind fun meminfo => ?_
  cases meminfo with
  | none => exact moves_pure none _
  | some h =>
    refine (moves_defined _ _).bind fun line => (moves_readLines h fuel line).bind fun line => ?_
    refine (moves_defined _ _).bind fun str => .ite (fun _ => moves_closed h _) fun _ => ?_
    refine .ite (fun _ => moves_stuck) fun _ => ?_
    refine (moves_defined _ _).bind fun n => (moves_defined _ _).bind fun size => ?_
    exact moves_closed h _

end

theorem moves_pagemapEntryFrom (offset : UInt64) :
    Moves none (pagemapEntryFrom offset) fun _ => none := by
  refine (moves_fopen procSelfPagemap).bind fun map => ?_
  cases map with
  | none => exact moves_pure none _
  | some h =>
    refine (moves_fseek h offset).bind fun res => .ite (fun _ => moves_closed h _) fun _ => ?_
    refine (moves_fread h).bind fun data => ?_
    cases data <;> exact moves_closed h _

theorem moves_getPhysicalAddress (addr : UInt64) :
    Moves none (getPhysicalAddress addr) fun _ => none := by
  have hsysconf : Moves none (call .sysconf) fun _ => none := moves_call fun _ => rfl
  refine hsysconf.bind fun pageSize => .ite (fun _ => moves_pure none _) fun _ => ?_
  refine (moves_pagemapEntryFrom _).bind fun entry => ?_
  cases entry with
  | error res => exact moves_pure none _
  | ok entry =>
    refine .ite (fun _ => moves_pure none _) fun _ => .ite (fun _ => moves_stuck) fun _ => ?_
    exact moves_pure none _

theorem moves_testAlignment (buffer : UInt64) (info : CacheInfo) (pageSize : UInt64) (fuel : ℕ) :
    Moves none (testAlignment buffer info pageSize fuel) fun _ => none := by
  have hloop : ∀ fuel currentLine,
      Moves none (alignmentLoop buffer info pageSize fuel currentLine) fun _ => none := by
    intro fuel
    induction fuel with
    | zero => exact fun _ => moves_stuck
    | succ fuel ih =>
      refine fun currentLine => .ite (fun _ => moves_stuck) fun _ => .ite (fun _ => ?_) fun _ =>
        moves_pure none _
      refine (moves_getPhysicalAddress _).bind fun target => ?_
      cases target with
      | error res => exact moves_pure none res
      | ok target => exact .ite (fun _ => moves_pure none _) fun _ => ih _
  exact hloop fuel 0

/-! ### `cache_info_new` -/

/-- How a function that fills in a description is left. -/
def Left : Option (ErrorT × CacheInfo) → List (Interaction.Event FileCall.Value) → Prop
  | some _ => At none
  | none => Watched

/-- No stream is open before, and none after. -/
abbrev Keeps {α : Type} (m : Filler α) : Prop :=
  Cmd.Triple (fun _ => At none) m (fun _ _ => At none) Left

theorem keeps_lift {α : Type} {p : Reader α} (hp : Moves none p fun _ => none) :
    Keeps (Cmd.lift p) :=
  Cmd.triple_lift fun _ => hp

theorem keeps_pure {α : Type} (a : α) : Keeps (pure a) := Cmd.triple_pure fun _ _ h => h

theorem keeps_modify (f : CacheInfo → CacheInfo) : Keeps (Cmd.modify f) :=
  Cmd.triple_modify fun _ _ h => h

theorem keeps_forwardOnFail {α : Type} {p : Reader (Except ErrorT α)}
    (hp : Moves none p fun _ => none) : Keeps (forwardOnFail p) := by
  refine (keeps_lift hp).bind fun res => ?_
  cases res with
  | error res => exact Cmd.triple_throw fun _ _ h => h
  | ok a => exact keeps_pure a

section

variable (garbage : ℕ → Char)

theorem keeps_readPropPutInto (path filename : List Char)
    (writeBack : UInt32 → CacheInfo → CacheInfo) (errorIo : ErrorT) :
    Keeps (readPropPutInto garbage path filename writeBack errorIo) := by
  refine (keeps_forwardOnFail (moves_readPropPut garbage _ _ _)).bind fun value => ?_
  cases value with
  | none => exact keeps_pure ()
  | some value => exact keeps_modify _

theorem keeps_cacheInfoFill (cache cpu : UInt32) : Keeps (cacheInfoFill garbage cache cpu) := by
  refine (keeps_lift (moves_defined none _)).bind fun cpuPath => ?_
  refine (keeps_readPropPutInto garbage _ _ _ _).bind fun _ => ?_
  refine (keeps_readPropPutInto garbage _ _ _ _).bind fun _ => ?_
  refine (keeps_modify _).bind fun _ => ?_
  refine (keeps_readPropPutInto garbage _ _ _ _).bind fun _ => ?_
  refine (keeps_readPropPutInto garbage _ _ _ _).bind fun _ => ?_
  refine (keeps_readPropPutInto garbage _ _ _ _).bind fun _ => ?_
  refine (keeps_modify _).bind fun _ => ?_
  exact (keeps_lift (moves_typeOf garbage _)).bind fun _ => keeps_modify _

theorem keeps_fillLoop (cpu level : UInt8) (count : UInt32) (fuel i : ℕ) :
    Keeps (fillLoop garbage cpu level count fuel i) := by
  induction fuel generalizing i with
  | zero => exact keeps_lift moves_stuck
  | succ fuel ih =>
    refine .ite (fun _ => ?_) fun _ => keeps_pure ()
    refine (keeps_cacheInfoFill garbage _ _).bind fun _ => ?_
    refine (Cmd.triple_get fun _ _ h => h).bind fun info => ?_
    refine .ite (fun _ => keeps_pure ()) fun _ => .ite (fun _ => keeps_lift moves_stuck) fun _ => ?_
    exact ih (i + 1)

theorem keeps_cacheInfoNew (fuel : ℕ) (cpu level : UInt8) :
    Keeps (cacheInfoNew garbage fuel cpu level) := by
  refine (keeps_forwardOnFail (moves_cacheCount garbage _ _)).bind fun count => ?_
  refine (keeps_fillLoop garbage cpu level count _ _).bind fun _ => ?_
  refine (Cmd.triple_get fun _ _ h => h).bind fun info => ?_
  exact .ite (fun _ => Cmd.triple_throw fun _ _ h => h) fun _ => keeps_pure ()

end

/-- **All streams are closed**, by every function, whatever fails. -/
theorem readers_closeAll :
    (∀ garbage fuel cpu level info, ClosesAll (cacheInfoNew garbage fuel cpu level info)) ∧
      (∀ garbage fuel, ClosesAll (getHugepagesize garbage fuel)) ∧
      (∀ garbage, ClosesAll (getHugepagenr garbage)) ∧
      (∀ garbage value, ClosesAll (canUseRdpmc garbage value)) ∧
      ∀ buffer info pageSize fuel, ClosesAll (testAlignment buffer info pageSize fuel) := by
  refine ⟨fun garbage fuel cpu level info => ?_, fun garbage fuel => ?_, fun garbage => ?_,
    fun garbage value => ?_, fun buffer info pageSize fuel => ?_⟩
  · refine closesAll_of_moves fun h t o hat hrun => ?_
    have hleft := keeps_cacheInfoNew garbage fuel cpu level info h t o hat hrun
    rcases o with _ | ⟨_ | _, _⟩ <;> exact hleft
  · exact closesAll_of_moves (moves_getHugepagesize garbage fuel)
  · exact closesAll_of_moves (moves_readPropPut garbage _ _ _)
  · refine closesAll_of_moves ((moves_readPropPut garbage _ _ _).bind fun read => ?_)
    cases read <;> exact moves_pure none _
  · exact closesAll_of_moves (moves_testAlignment buffer info pageSize fuel)

end Stdio

end CacheNoise
