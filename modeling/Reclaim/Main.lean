import Reclaim.CommandLine.Pipeline

/-!
# The command line

The outer layer: it reads the source file, hands it to `CommandLine.execute`, writes what that gives
to the two output streams, and ends with its exit code.
-/

namespace Reclaim.CommandLine

/-- How the command is called. -/
def usage : String :=
  "usage: -c PATH [--entry NAME] [--reuse] [--stats] [--check-leaks] [--dump-trees] [--pretty-print]\n" ++
  "       [--dump-ir] [--color auto|always|ansi|never]\n"

/-- What the system says about a file that it cannot read.  The number of an error that is met while
the file is opened comes with its sign turned, in 32 bits. -/
def readFailure : IO.Error → String
  | .noFileOrDirectory .. => "No such file or directory (os error 2)"
  | .permissionDenied .. => "Permission denied (os error 13)"
  | .invalidArgument _ 4294967260 _ => "File name too long (os error 36)"
  | .inappropriateType _ 21 _ => "Is a directory (os error 21)"
  | .inappropriateType .. => "Not a directory (os error 20)"
  | e => toString e

/-- The text of a file, or why it cannot be read. -/
def readSource (path : String) : IO (Except String String) := do
  match ← (IO.FS.readBinFile path).toBaseIO with
  | .error e => return .error (readFailure e)
  | .ok bytes => return (String.fromUTF8? bytes).elim (.error "stream did not contain valid UTF-8") .ok

/-- Whether the terminal takes colours, by its name and the user's wish. -/
def takesColours : IO Bool := do
  let terminal ← IO.getEnv "TERM"
  let refusal ← IO.getEnv "NO_COLOR"
  return terminal.any (· != "dumb") && refusal.isNone

/-- Carries out what the arguments ask for, and gives the exit code. -/
def start (args : List String) : IO UInt32 := do
  match Options.ofArgs? args with
  | none =>
    IO.eprint usage
    return 1
  | some o =>
    let text ← readSource o.source
    let outcome := execute (o.settled (← takesColours)) fun _ => text
    IO.print outcome.transcript.out
    IO.eprint outcome.transcript.err
    return outcome.code.toUInt32

end Reclaim.CommandLine

/-- The program. -/
def main (args : List String) : IO UInt32 := Reclaim.CommandLine.start args
