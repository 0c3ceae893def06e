import ShaderStyle.Batch
import ShaderStyle.CommandLine.Options

/-!
# The command line

The tool has three commands: one formats files, one checks them and one lists the tokens of a file.
Each takes a path and, if wanted, the name of a dialect. A command line that asks for help or cannot
be understood shows nothing here; only its exit status differs. A run that is ended without a status, as by
a console that refuses an event, fails.
-/

namespace ShaderStyle.CommandLine

/-- The commands. -/
inductive Command where
  | format
  | check
  | tokens
  deriving DecidableEq, Repr

namespace Command

/-- All commands. -/
def all : List Command := [.format, .check, .tokens]

/-- The command's name. -/
def name : Command → String
  | .format => "format"
  | .check => "check"
  | .tokens => "tokens"

end Command

/-- What a command line asks for. -/
inductive Request where
  | help
  | misuse
  | run (command : Command) (target dialect : Text)
  deriving DecidableEq, Repr

/-- The option that asks for help. -/
def helpOption : OptionRule := ⟨"help".toList, none, false⟩

/-- The option for a fuller log. -/
def verboseOption : OptionRule := ⟨"verbose".toList, some 'v', false⟩

/-- The option that names a dialect. -/
def dialectOption : OptionRule := ⟨"dialect".toList, some 'd', true⟩

/-- What the words behind a command ask for. -/
def readCommand (command : Command) (words : List Text) : Request :=
  match read [dialectOption, helpOption] true words with
  | none => .misuse
  | some w =>
    if w.has helpOption.long then .help
    else match w.others with
      | [target] =>
        .run command target ((w.valueOf? dialectOption.long).getD DialectChoice.automatic)
      | _ => .misuse

/-- The options before a command, and the words from the command on. -/
def readTool (words : List Text) : Option Words :=
  read [verboseOption, helpOption] false words

/-- Whether the options before a command ask for help. -/
def asksForHelp (words : List Text) : Bool :=
  (readTool words).any fun w => w.has helpOption.long

/-- What a command line asks for. Where no command stands in the place of one, what stands there is
looked at once more, so that a request for help is met also behind two dashes. -/
def readRequest (words : List Text) : Request :=
  match readTool words with
  | none => .misuse
  | some w =>
    if w.has helpOption.long then .help
    else match w.others with
      | [] => .misuse
      | name :: rest =>
        match Command.all.find? fun c => c.name.toList = name with
        | none => if asksForHelp w.others then .help else .misuse
        | some command => readCommand command rest

/-- The files after a command, what it showed and its exit status. If it was ended without a status of
its own, there is something to say about that. -/
structure Result where
  tree : FileTree
  events : List Event
  status : Nat
  complaint : Option String

/-- The exit status for the end of a run. Naming a dialect that is not known is a misuse. -/
def exitStatus : Except Batch.Raised Nat → Nat
  | .ok status => status
  | .error (.unknownDialect _) => 2
  | .error _ => 1

/-- What is to be said about the end of a run. -/
def complaint? : Except Batch.Raised Nat → Option String
  | .ok _ => none
  | .error raised => some raised.describe

/-- What a command does. Formatting and checking start with the banner. -/
def Command.action (console : Console) (announcer : Announcer) (target : Path) (dialect : Text) :
    Command → Batch.Action Nat
  | .format => do
    Batch.print console announcer.banner
    Batch.carryOut console announcer .format target dialect
  | .check => do
    Batch.print console announcer.banner
    Batch.carryOut console announcer .check target dialect
  | .tokens => Batch.listTokens console announcer target dialect

/-- Carries out what a command line asks for. -/
def execute (announcer : Announcer) (tree : FileTree) (words : List Text)
    (console : Console := .plain) : Result :=
  match readRequest words with
  | .help => ⟨tree, [], 0, none⟩
  | .misuse => ⟨tree, [], 2, none⟩
  | .run command target dialect =>
    let r := (command.action console announcer (Path.ofText target) dialect).on tree
    ⟨r.tree, r.events, exitStatus r.ending, complaint? r.ending⟩

end ShaderStyle.CommandLine
