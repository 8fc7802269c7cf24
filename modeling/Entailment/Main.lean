import Entailment.CommandLine.Path
import Entailment.CommandLine.Session
import Std.Time.Zoned

/-!
# The program

The program runs a session of the prover in the real world: it reads the file,
prints the answers, writes the log with the time of day, and reads the clock
and the memory in use.
-/

namespace Entailment.Program

/-- How the program is called. -/
def usage : String :=
  "Answer queries against a knowledge base\n\n" ++
  "Usage: kbprover [OPTIONS] <FILE>\n\n" ++
  "Options:\n" ++
  "      --ask <QUERY>             Query to prove, may be repeated\n" ++
  "      --bindings <QUERY>        Query to list the answers of, may be repeated\n" ++
  "      --propositional           Read the file as propositional formulas\n" ++
  "      --dimacs <QUERY>          Print the DIMACS problem of this propositional query\n" ++
  "      --max-resolutions <N>     Resolutions allowed for a single predicate [default: 100]\n" ++
  "      --answers <ANSWERS>       Which answers are reported: any, ground, constants\n" ++
  "      --proofs                  Print the proof of every successful query\n" ++
  "      --proof-graph <GRAPH>     Print the proof of every query as a graph: last, all\n" ++
  "      --timeout <SECONDS>       Give up a query after this many seconds\n" ++
  "      --memory-limit <MB>       Give up a query beyond this many megabytes\n" ++
  "  -h, --help                    Print help\n"

/-- Whether the command line asks for help. -/
def asksForHelp (arguments : List String) : Bool :=
  (arguments.takeWhile (· != "--")).any fun argument => argument == "--help" || argument == "-h"

/-- Two digits of a number below a hundred. -/
def twoDigits (n : Int) : String :=
  if n < 10 then "0" ++ toString n else toString n

/-- The time of day, such as `08:15:30`. -/
def timeOfDay : IO String := do
  let now ← Std.Time.PlainTime.now
  return twoDigits now.hour.val ++ ":" ++ twoDigits now.minute.val ++ ":" ++
    twoDigits now.second.val

/-- A reading of the clock. -/
def readClock : IO Duration := do
  return Duration.ofParts 0 (← IO.monoNanosNow)

/-- The number of bytes in a page of memory. -/
def pageSize : Nat := 4096

/-- A reading of the memory in use, where the system tells it. -/
def readMemory : IO (Option Nat) := do
  try
    let text ← IO.FS.readFile "/proc/self/statm"
    match Text.words text.toList with
    | _ :: pages :: _ => return (Text.digits? pages).map (· * pageSize)
    | _ => return none
  catch _ => return none

/-- Show some output of a session. -/
def present (output : CommandLine.Output) : IO Unit := do
  match output.logText? (← timeOfDay) with
  | some text => IO.eprint text
  | none =>
      let stdout ← IO.getStdout
      stdout.putStr output.text
      stdout.flush

/-- The fault of a file that a failure to read it stands for. -/
def fileError : IO.Error → FileError
  | .noFileOrDirectory _ _ _ => .notFound
  | .permissionDenied _ _ _ => .notPermitted
  | .inappropriateType _ _ _ => .isDirectory
  | other => .unreadable (toString other)

/-- The text of a file. -/
def readText (path : String) : IO (Except Error String) := do
  match CommandLine.pathFault? path with
  | some fault => return .error (.file fault)
  | none =>
      try
        return CommandLine.decode (← IO.FS.readBinFile path)
      catch error => return .error (.file (fileError error))

/-- Run the program on the arguments of a command line. -/
def run (arguments : List String) : IO UInt32 := do
  if asksForHelp arguments then
    IO.print usage
    return 0
  else
    match CommandLine.Options.parse arguments with
    | none =>
        IO.eprint usage
        return 2
    | some options =>
        let content ← readText options.file
        let exitCode ←
          (CommandLine.run options content).interpret present readClock readMemory
        return exitCode.toUInt32

end Entailment.Program

/-- The entry point. -/
def main (arguments : List String) : IO UInt32 :=
  Entailment.Program.run arguments
