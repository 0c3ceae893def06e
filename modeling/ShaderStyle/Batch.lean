import ShaderStyle.Announcer
import ShaderStyle.FileTree
import ShaderStyle.Report
import ShaderStyle.Settings.Lookup

/-!
# Runs over files

A run formats or checks the file at a path, or all shader files below it. The rules for all files are
looked up first; if that fails, nothing is read or written. Then the files are taken one after the
other. A file that cannot be read or lexed is reported and passed over. When formatting, a file is
written back if formatting changed it and nothing is left to be mended by hand.

A run shows events on a console and writes files, in an order that matters: what comes of a file is shown
before the file is written. If the console refuses an event, the run ends there without a status; what it
has done by then stays done.
-/

namespace ShaderStyle

/-- How the dialect of a file is chosen. -/
inductive DialectChoice where
  | byExtension
  | forced (d : Dialect)
  deriving DecidableEq, Repr

namespace DialectChoice

/-- The word that asks for a choice by extension. -/
def automatic : Text := ['a', 'u', 't', 'o']

/-- The choice that a word asks for. -/
def ofText? (requested : Text) : Option DialectChoice :=
  if requested = automatic then some .byExtension
  else (Dialect.ofName? requested).map .forced

/-- What is said about a word that asks for no dialect. -/
def unknownMessage (requested : Text) : String :=
  "unknown dialect '" ++ String.ofList requested ++ "' (expected auto, hlsl or glsl)"

/-- The dialect of a file. An extension that is not known stands for HLSL. -/
def dialectOf (choice : DialectChoice) (file : Path) : Dialect :=
  match choice with
  | .forced d => d
  | .byExtension => (Dialect.ofExtension? file.suffix).getD .hlsl

end DialectChoice

namespace Batch

/-- What a run does with what it finds. -/
inductive Mode where
  | format
  | check
  deriving DecidableEq, Repr

/-! ## Actions -/

/-- What ends a run without a status. -/
inductive Raised where
  | unknownDialect (requested : Text)
  | unshown (event : Event) (complaint : String)
  | unwritten (e : FileError)

/-- What is said about the end of a run without a status. -/
def Raised.describe : Raised → String
  | unknownDialect requested => DialectChoice.unknownMessage requested
  | unshown _ complaint => complaint
  | unwritten e => e.message

/-- What a run has done so far: the files as they are now, and the events that have been shown. -/
structure Effects where
  tree : FileTree
  events : List Event

/-- A part of a run. It returns a value or is ended, and leaves its effects in both cases. -/
abbrev Action : Type → Type :=
  EStateM Raised Effects

/-- Shows an event on the console. -/
def print (console : Console) (event : Event) : Action Unit := fun s =>
  match console.print s.events event with
  | .error complaint => .error (.unshown event complaint) s
  | .ok () => .ok () { s with events := s.events ++ [event] }

/-- Writes a text to a file. -/
def write (file : Path) (text : Text) : Action Unit := fun s =>
  match s.tree.write file.toText text with
  | .error e => .error (.unwritten e) s
  | .ok tree => .ok () { s with tree }

/-- The files after a run, what it showed, and how it ended: with a status, which is zero if all is well,
one if a file needs attention and two if the run could not be carried out, or without one. -/
structure Result where
  tree : FileTree
  events : List Event
  ending : Except Raised Nat

/-- Carries out an action that gives a status. -/
def Action.on (a : Action Nat) (tree : FileTree) : Result :=
  match a ⟨tree, []⟩ with
  | .ok status s => ⟨s.tree, s.events, .ok status⟩
  | .error raised s => ⟨s.tree, s.events, .error raised⟩

/-! ## The files and their rules -/

/-- The extensions of all shader files. -/
def shaderExtensions : List String :=
  Dialect.all.flatMap Dialect.extensions

/-- The files that a path stands for. -/
def collect (tree : FileTree) (target : Path) : List Path :=
  let resolved := tree.resolve target
  if tree.isDirectory resolved then tree.filesWith shaderExtensions resolved else [resolved]

/-- Whether a run over a directory reads a file of this name: a shader file or a settings file. -/
def reads (name : Text) : Bool :=
  name = Settings.fileName ||
    shaderExtensions.contains (String.ofList (Text.lowercase (Path.extensionOf name)))

/-- The file tree as a source of settings. -/
def settingsSource (tree : FileTree) : Settings.Source where
  list := tree.list
  read := fun p => (tree.read p.toText).mapError FileError.message

/-- The rules for a file, looked up from its directory. -/
def rulesFor (tree : FileTree) (file : Path) : Except SettingsError RuleSet :=
  match (Settings.lookup (settingsSource tree) file.parent none).result with
  | .error e => .error e
  | .ok found => .ok found.rules

/-- The rules for every file. -/
def rulesForAll (tree : FileTree) (files : List Path) :
    Except SettingsError (List (Path × RuleSet)) :=
  files.mapM fun file => do return (file, ← rulesFor tree file)

/-! ## One file -/

/-- What comes of one file. -/
inductive FileResult where
  | unreadable (e : FileError)
  | unlexable (fault : LexFault)
  | done (source : Text) (o : Outcome)

/-- Reads a file, formats and checks it. -/
def examine (tree : FileTree) (choice : DialectChoice) (file : Path) (rules : RuleSet) :
    FileResult :=
  match tree.read file.toText with
  | .error e => .unreadable e
  | .ok source =>
    match process rules (choice.dialectOf file) source with
    | .error fault => .unlexable fault
    | .ok o => .done source o

namespace FileResult

/-- The verdict on a file that could be read and lexed. -/
def verdict? : FileResult → Option Verdict
  | done _ o => some o.verdict
  | _ => none

/-- Whether the file needs attention. -/
def fails (mode : Mode) (r : FileResult) : Bool :=
  match r.verdict? with
  | none => true
  | some v =>
    match mode with
    | .format => v = .manualFix
    | .check => v ≠ .clean

/-- The text to be written back to the file. -/
def newText? (mode : Mode) : FileResult → Option Text
  | done _ o => if mode = .format && o.shouldWrite then some o.text else none
  | _ => none

/-- What is found about the file, as it is shown. -/
def findings (console : Console) (announcer : Announcer) (mode : Mode) (path : String) :
    FileResult → List Event
  | unreadable e => [announcer.error (path ++ ": cannot read file: " ++ e.message)]
  | unlexable fault => [announcer.error (path ++ ": " ++ fault.describe)]
  | done source o =>
    Report.file path o ::
      if mode = .check && o.changed then Report.difference console path source o.text else []

/-- Shows what is found about the file, and then writes the file back if it is to be. That it was written
is shown in the end. -/
def report (console : Console) (announcer : Announcer) (mode : Mode) (file : Path) (x : FileResult) :
    Action Unit := do
  let path := String.ofList file.toText
  (x.findings console announcer mode path).forM (print console)
  match x.newText? mode with
  | none => return ()
  | some text =>
    write file text
    print console (announcer.step ("Formatted " ++ path))

end FileResult

/-! ## One file after the other -/

/-- What is known of the files taken so far: the verdicts on those that could be read and lexed, and
whether one of them needs attention. -/
structure Tally where
  verdicts : List Verdict
  failed : Bool

/-- Takes one file. -/
def advance (console : Console) (announcer : Announcer) (mode : Mode) (choice : DialectChoice)
    (t : Tally) (entry : Path × RuleSet) : Action Tally := do
  let s ← get
  let result := examine s.tree choice entry.1 entry.2
  result.report console announcer mode entry.1
  return ⟨t.verdicts ++ result.verdict?.toList, t.failed || result.fails mode⟩

/-- Takes the files with their rules, and shows a summary. -/
def treat (console : Console) (announcer : Announcer) (mode : Mode) (choice : DialectChoice)
    (entries : List (Path × RuleSet)) : Action Nat := do
  let t ← entries.foldlM (advance console announcer mode choice) ⟨[], false⟩
  print console (Report.summary t.verdicts)
  return if t.failed then 1 else 0

/-- What is shown if a path stands for no files. -/
def noFiles (announcer : Announcer) (target : Path) : Event :=
  announcer.warning ("no shader files found under " ++ String.ofList target.toText)

/-- Formats or checks what a path stands for. -/
def carryOut (console : Console) (announcer : Announcer) (mode : Mode) (target : Path)
    (requested : Text) : Action Nat := do
  let s ← get
  match collect s.tree target with
  | [] =>
    print console (noFiles announcer target)
    return 0
  | files =>
    match rulesForAll s.tree files with
    | .error e =>
      print console (announcer.error e.describe)
      return 2
    | .ok entries =>
      match DialectChoice.ofText? requested with
      | none => throw (.unknownDialect requested)
      | some choice => treat console announcer mode choice entries

/-- Lists the tokens of a file. -/
def listTokens (console : Console) (announcer : Announcer) (target : Path) (requested : Text) :
    Action Nat := do
  let s ← get
  let file := s.tree.resolve target
  let path := String.ofList file.toText
  match DialectChoice.ofText? requested with
  | none => throw (.unknownDialect requested)
  | some choice =>
    match s.tree.read file.toText with
    | .error e =>
      print console (announcer.error (path ++ ": " ++ e.message))
      return 1
    | .ok source =>
      match tokenize (choice.dialectOf file) source with
      | .error fault =>
        print console (announcer.error (path ++ ": " ++ fault.describe))
        return 1
      | .ok ts =>
        print console (Report.tokens path ts)
        return 0

/-- A run over what a path stands for in a tree. -/
def run (console : Console) (announcer : Announcer) (mode : Mode) (tree : FileTree) (target : Path)
    (requested : Text) : Result :=
  (carryOut console announcer mode target requested).on tree

end Batch

end ShaderStyle
