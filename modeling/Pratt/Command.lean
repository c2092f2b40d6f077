import Pratt.Expr.Json
import Pratt.Expr.Outline
import Pratt.FileSystem
import Pratt.Json.Printer
import Pratt.Parser

set_option autoImplicit false

/-!
# The command line

A command lists the tokens of a source or parses it. The source is an argument,
a file, or the standard input. The outcome is an exit code with what goes to the
two outputs: 0 for an answer, 2 for arguments that make no command, 65 for a
source that does not parse, 66 for a source that cannot be read.
-/

namespace Pratt

/-- How a tree is shown. -/
inductive Format where
  /-- The fully parenthesized text. -/
  | tree
  /-- Indented JSON. -/
  | json
  /-- An outline with one part in a line. -/
  | debug
  deriving DecidableEq, Repr, Inhabited

namespace Format

/-- The format of a name. -/
def ofName? (name : String) : Option Format :=
  if name = "tree" then some .tree
  else if name = "json" then some .json
  else if name = "debug" then some .debug
  else none

/-- An expression in a format. -/
def render (format : Format) (e : Expr) : String :=
  match format with
  | .tree => e.print
  | .json => e.toJson.indented
  | .debug => e.outline.lines

end Format

/-- What is done with a source. -/
inductive Task where
  /-- Its tokens are listed. -/
  | tokenize
  /-- It is parsed and its tree is shown. -/
  | parse (format : Format)
  deriving DecidableEq, Repr, Inhabited

/-- Where a source comes from. -/
inductive Origin where
  /-- It is given on the command line. -/
  | argument (source : String)
  /-- It stands in a file. -/
  | file (path : String)
  /-- It comes from the standard input. -/
  | standardInput
  deriving DecidableEq, Repr, Inhabited

/-- The name of a source in error reports, if it has one. -/
def Origin.name? : Origin → Option String
  | .file path => some path
  | _ => none

/-- What the command line asks for: what is done, and with which source. -/
structure Command where
  task : Task
  origin : Origin
  deriving DecidableEq, Repr, Inhabited

namespace Command

/-! ## Arguments -/

/-- The arguments behind the name of a task, sorted. What was not given is
missing. -/
structure Arguments where
  source : Option String
  file : Option String
  format : Option Format
  deriving DecidableEq, Repr, Inhabited

namespace Arguments

/-- Adds the source, which is given at most once. -/
def addSource? (arguments : Arguments) (source : String) : Option Arguments :=
  if arguments.source.isSome then none
  else some { arguments with source := some source }

/-- Adds an option and its value. Each option is given at most once, a path is
not empty, and a format has one of its names. -/
def addOption? (arguments : Arguments) (option value : String) : Option Arguments :=
  if option = "--file" then
    if arguments.file.isSome ∨ value = "" then none
    else some { arguments with file := some value }
  else if option = "--format" then
    if arguments.format.isSome then none
    else (Format.ofName? value).map fun format =>
      { arguments with format := some format }
  else none

/-- Whether an argument is an option: it starts with a hyphen and is more than
that. -/
def isOption (argument : String) : Bool :=
  match argument.toList with
  | '-' :: _ :: _ => true
  | _ => false

/-- Sorts arguments. Behind `--` all of them are sources; before, an option
takes its value behind an equals sign or from the next argument, which must not
look like an option. -/
def collect? (arguments : Arguments) : List String → Option Arguments
  | [] => some arguments
  | argument :: rest =>
    if argument = "--" then rest.foldlM addSource? arguments
    else if !isOption argument then do
      collect? (← arguments.addSource? argument) rest
    else
      let name := argument.toList.takeWhile (· ≠ '=')
      match argument.toList.drop name.length with
      | _ :: value => do
        collect? (← arguments.addOption? (String.ofList name)
          (String.ofList value)) rest
      | [] =>
        match rest with
        | value :: rest =>
          if isOption value then none
          else do collect? (← arguments.addOption? argument value) rest
        | [] => none

/-- Where the source comes from, which cannot be given in two ways. -/
def origin? (arguments : Arguments) : Option Origin :=
  match arguments.source, arguments.file with
  | some source, none => some (.argument source)
  | none, some path => some (.file path)
  | none, none => some .standardInput
  | some _, some _ => none

end Arguments

/-- The command of an argument list: a task, then options and a source in any
order. -/
def ofArguments? : List String → Option Command
  | [] => none
  | task :: rest => do
    let arguments ← Arguments.collect? ⟨none, none, none⟩ rest
    let origin ← arguments.origin?
    if task = "parse" then return ⟨.parse (arguments.format.getD .tree), origin⟩
    else if task = "tokenize" ∧ arguments.format = none then
      return ⟨.tokenize, origin⟩
    else none

end Command

/-! ## Outcomes -/

/-- What a command leaves behind: its exit code and what it writes. -/
structure Outcome where
  code : Nat
  stdout : String
  stderr : String
  deriving DecidableEq, Repr, Inhabited

namespace Outcome

/-- The outcome of arguments that make no command. -/
def usage : Outcome :=
  ⟨2, "", "Usage: tokenize [EXPR] [--file PATH]\n" ++
    "       parse [EXPR] [--file PATH] [--format tree|json|debug]\n"⟩

/-- The outcome of a source that cannot be read. -/
def unreadable (fault : ReadFault) : Outcome :=
  ⟨66, "", "Error: failed to read input: " ++ fault.message ++ "\n"⟩

end Outcome

/-- Does a task with a source. -/
def Task.outcome (task : Task) (source : String) (file : Option String) : Outcome :=
  match task with
  | .tokenize =>
    ⟨0, String.join
      ((Pratt.tokenize source file).map fun token => token.text ++ "\n"), ""⟩
  | .parse format =>
    match Pratt.parse source file with
    | .ok e => ⟨0, format.render e ++ "\n", ""⟩
    | .error error => ⟨65, "", error.report source⟩

namespace Command

/-! ## Carrying out a command

What is read for a command is read in some monad, so that a command is carried
out in the same way on given inputs and by the program. -/

section

variable {m : Type → Type} [Monad m] (input : m (Except ReadFault ByteArray))
  (file : String → m (Except ReadFault ByteArray))

/-- Reads the source of a command, of which the standard input and the files are
given as what reads them. -/
def source (command : Command) : m (Except ReadFault String) := do
  match command.origin with
  | .argument source => return .ok source
  | .file path => return (← file path).bind decodeText
  | .standardInput => return (← input).bind decodeText

/-- Carries out a command whose source was read. -/
def outcome (command : Command) (source : Except ReadFault String) : Outcome :=
  match source with
  | .ok source => command.task.outcome source command.origin.name?
  | .error fault => .unreadable fault

/-- Carries out an argument list. -/
def perform (arguments : List String) : m Outcome := do
  match ofArguments? arguments with
  | some command => return command.outcome (← command.source input file)
  | none => return .usage

end

/-- The source of a command with a given standard input and given files. -/
def sourceOf (command : Command) (stdin : ByteArray) (files : FileSystem) :
    Except ReadFault String :=
  Id.run (command.source (pure (.ok stdin)) fun path => pure (files.read path))

/-- Carries out an argument list with a given standard input and given files. -/
def run (arguments : List String) (stdin : ByteArray)
    (files : FileSystem) : Outcome :=
  Id.run (perform (pure (.ok stdin)) (fun path => pure (files.read path)) arguments)

theorem run_of_ofArguments? {arguments : List String} {command : Command}
    (h : ofArguments? arguments = some command) (stdin : ByteArray)
    (files : FileSystem) :
    run arguments stdin files = command.outcome (command.sourceOf stdin files) := by
  rw [run, perform, h]
  rfl

section

variable {m : Type → Type} [Monad m] [LawfulMonad m] (stdin : ByteArray)
  (files : FileSystem)

theorem source_pure (command : Command) :
    command.source (m := m) (pure (.ok stdin))
        (fun path => pure (files.read path)) =
      pure (command.sourceOf stdin files) := by
  obtain ⟨task, origin⟩ := command
  cases origin with
  | argument source => rfl
  | file path => exact pure_bind _ _
  | standardInput => exact pure_bind _ _

/-- In whatever monad the standard input and the files are read, the outcome
depends on nothing but what is read. -/
theorem perform_pure (arguments : List String) :
    perform (m := m) (pure (.ok stdin)) (fun path => pure (files.read path))
        arguments =
      pure (run arguments stdin files) := by
  unfold run perform
  cases ofArguments? arguments with
  | none => rfl
  | some command =>
    simp only [source_pure, pure_bind]
    rfl

end

end Command

end Pratt
