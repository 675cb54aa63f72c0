import Lox.CommandLine.Basic
import Std.Time.DateTime.Timestamp

/-!
# The program

Reads files, the clock and the standard input, and writes what the commands respond.
-/

namespace Lox

/-- A bound on the depth of the evaluation that no run lives to reach. -/
def unboundedFuel : Nat := 1000000000000000000

/-- The time in seconds since the start of the year 1970. -/
def currentTime : IO Float := do
  let now ← Std.Time.Timestamp.now
  return Float.ofInt now.toMillisecondsSinceUnixEpoch.val / 1000

/-- Why the system yields no bytes. -/
def ReadFault.ofError : IO.Error → ReadFault
  | .noFileOrDirectory .. => .missing
  | .inappropriateType _ code description => .system description code.toNat
  | .invalidArgument _ code description => .system description code.toNat
  | .permissionDenied _ code description => .system description code.toNat
  | .resourceExhausted _ code description => .system description code.toNat
  | .hardwareFault code description => .system description code.toNat
  | .otherError code description => .system description code.toNat
  | error => .system (toString error) 0

/-- The text of a file. -/
def readText (file : String) : IO (Except ReadFault String) := do
  try
    let bytes ← IO.FS.readBinFile file
    match String.fromUTF8? bytes with
    | some text => return .ok text
    | none => return .error .notText
  catch error => return .error (.ofError error)

/-- Writes a response. -/
def Response.write (response : Response) : IO Unit := do
  IO.print response.output
  (← IO.getStdout).flush
  IO.eprint response.errors

/-- Reads, runs and answers line after line until the input ends. -/
partial def promptLoop (clock : IO Float) (session : Session) : IO UInt32 := do
  IO.print Prompt.mark
  (← IO.getStdout).flush
  let input ← (← IO.getStdin).getLine
  match Prompt.splitLines input.toList with
  | [] => return 0
  | line :: _ =>
    let session := session.setClock (← clock)
    let (response, session) := Prompt.step unboundedFuel (.ofList line) session
    response.write
    promptLoop clock session

/-- Reads the file that a command names, if it names one, and writes the response. -/
def runCommand (command : Command) : IO UInt32 := do
  let clock ← currentTime
  let answerFile (file : String) : IO UInt32 := do
    let text ← readText file
    let response := command.respond unboundedFuel clock (fun _ => text) ""
    response.write
    return UInt32.ofNat response.exitCode
  match command with
  | .tokenize _ file => answerFile file
  | .parse file => answerFile file
  | .run file => answerFile file
  | .prompt => promptLoop currentTime (.start clock)

end Lox

def main (arguments : List String) : IO UInt32 := do
  match Lox.Command.ofArguments? arguments with
  | some command => Lox.runCommand command
  | none =>
    Lox.Response.usage.write
    return 2
