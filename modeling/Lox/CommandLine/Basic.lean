import Lox.CommandLine.FileName
import Lox.Session
import Lox.Token.Listing
import Lox.Tree.Printer

/-!
# The command line

`tokenize [--json] FILE` lists the tokens of a file, `parse FILE` prints its trees,
`run FILE` runs it, and `run` alone starts a prompt that runs line after line in one
session.  The option `--log` is accepted everywhere and changes nothing that is
shown; behind `--` nothing is an option.
-/

namespace Lox

/-! ## Commands -/

/-- What the command line can be asked for. -/
inductive Command where
  | tokenize (json : Bool) (file : String)
  | parse (file : String)
  | run (file : String)
  | prompt
deriving DecidableEq, Repr

namespace Command

/-- The options of a command line, and its other arguments in their order. -/
def splitOptions : List String → List String × List String
  | [] => ([], [])
  | argument :: others =>
    if argument = "--" then
      ([], others)
    else
      let (options, operands) := splitOptions others
      if argument.startsWith "-" && argument != "-" then
        (argument :: options, operands)
      else
        (options, argument :: operands)

/-- The command that the arguments of a command line ask for. -/
def ofArguments? (arguments : List String) : Option Command :=
  let (options, operands) := splitOptions arguments
  let isKnown := options.all (· == "--log")
  match operands with
  | ["tokenize", file] =>
    if options.all fun option => option == "--log" || option == "--json" then
      some (.tokenize (options.contains "--json") file)
    else
      none
  | ["parse", file] => if isKnown then some (.parse file) else none
  | ["run", file] => if isKnown then some (.run file) else none
  | ["run"] => if isKnown then some .prompt else none
  | _ => none

end Command

/-! ## Responses -/

/-- What a command writes, and its exit code. -/
structure Response where
  output : String
  errors : String
  exitCode : Nat
deriving DecidableEq, Repr

/-- Texts as lines. -/
def unlines (lines : List String) : String :=
  "".intercalate (lines.map (· ++ "\n"))

/-- Why a file yields no text. -/
inductive ReadFault where
  | missing
  | notText
  /-- The system gives another reason. -/
  | system (description : String) (code : Nat)
deriving DecidableEq, Repr

/-- The wording of a failure to read a file. -/
def ReadFault.message : ReadFault → String
  | missing => "No such file or directory (os error 2)"
  | notText => "stream did not contain valid UTF-8"
  | system description code => description ++ " (os error " ++ code.repr ++ ")"

namespace Response

/-- The response to a file that yields no text. -/
def unreadable (file : String) (fault : ReadFault) : Response where
  output := ""
  errors := "Error: Failed to read file " ++ FileName.quote file ++ "\n\nCaused by:\n    " ++
    fault.message ++ "\n"
  exitCode := 1

/-- The response to arguments that ask for nothing. -/
def usage : Response where
  output := ""
  errors := "Usage: [--log] (tokenize [--json] FILE | parse FILE | run [FILE])\n"
  exitCode := 2

/-- The response to a program that needs more calls than the machine has time for. -/
def exhausted : Response where
  output := ""
  errors := "Evaluation stopped.\n"
  exitCode := 70

/-- The tokens of a source text, and its lexical errors. -/
def tokenize (json : Bool) (source : String) : Response :=
  let items := Item.scan source
  let tokens := (Item.tokens items).map fun token => if json then token.toJson else token.toText
  let errors := (Item.errors items).map fun error => (Diagnostic.lexical error).render
  ⟨unlines tokens, unlines errors, if errors.isEmpty then 0 else 65⟩

/-- The trees of a source text, unless something is wrong with it. -/
def parse (source : String) : Response :=
  let reading := Reading.ofSource 0 source
  if reading.errors.isEmpty then
    ⟨unlines (reading.statements.map Stmt.text), "", 0⟩
  else
    ⟨"", unlines (reading.errors.map Diagnostic.render), 65⟩

/-- What a run of a source text prints. -/
def run (fuel : Nat) (clock : Float) (source : String) : Response :=
  match (Session.start clock).run fuel source with
  | some (report, _) =>
    match report.outcome with
    | .success _ => ⟨unlines report.printed, "", 0⟩
    | outcome => ⟨unlines report.printed, unlines [outcome.render], outcome.exitCode⟩
  | none => exhausted

end Response

/-! ## The prompt -/

namespace Prompt

/-- What is written before a line is read. -/
def mark : String := "> "

/-- What the prompt writes about a line that it runs. -/
def reportLine (report : Report) : Response :=
  match report.outcome with
  | .success _ => ⟨unlines (report.printed ++ [report.outcome.render]), "", 0⟩
  | outcome => ⟨unlines report.printed, unlines [outcome.render], 0⟩

/-- Runs a line, and yields the session after it. -/
def step (fuel : Nat) (line : String) (session : Session) : Response × Session :=
  match session.run fuel line with
  | some (report, session) => (reportLine report, session)
  | none => (Response.exhausted, session)

/-- Runs lines one after the other until they end. -/
def runLines (fuel : Nat) (session : Session) : List String → Response
  | [] => ⟨mark, "", 0⟩
  | line :: lines =>
    let (first, session) := step fuel line session
    let others := runLines fuel session lines
    ⟨mark ++ first.output ++ others.output, first.errors ++ others.errors, others.exitCode⟩

/-- The lines of a text.  A line ends at a line break, which may follow a carriage return. -/
def splitLines : List Char → List (List Char)
  | [] => []
  | '\n' :: rest => [] :: splitLines rest
  | '\r' :: '\n' :: rest => [] :: splitLines rest
  | char :: rest =>
    match splitLines rest with
    | [] => [[char]]
    | line :: lines => (char :: line) :: lines

/-- The prompt on an input. -/
def respond (fuel : Nat) (clock : Float) (input : String) : Response :=
  runLines fuel (.start clock) ((splitLines input.toList).map String.ofList)

end Prompt

/-- The response to a command, given the texts of files and the standard input. -/
def Command.respond (fuel : Nat) (clock : Float) (read : String → Except ReadFault String)
    (input : String) (command : Command) : Response :=
  let onFile (file : String) (answer : String → Response) : Response :=
    match read file with
    | .ok source => answer source
    | .error fault => .unreadable file fault
  match command with
  | .tokenize json file => onFile file (.tokenize json)
  | .parse file => onFile file .parse
  | .run file => onFile file (.run fuel clock)
  | .prompt => Prompt.respond fuel clock input

/-- The response to the arguments of a command line. -/
def respond (fuel : Nat) (clock : Float) (read : String → Except ReadFault String)
    (input : String) (arguments : List String) : Response :=
  match Command.ofArguments? arguments with
  | some command => command.respond fuel clock read input
  | none => .usage

end Lox
