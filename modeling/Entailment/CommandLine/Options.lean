import Entailment.FirstOrder.Config
import Entailment.FirstOrder.ProofIndex
import Entailment.Text.Numeral

/-!
# Command line options

The command line names the file with the axioms, the queries and the settings.
An option takes its value from the next argument or after an equals sign.  The
next argument is no value if it looks like an option itself, that is if it is
longer than one character and begins with a dash.  The argument `--` ends the
options.

Only queries may be given more than once.  Every other repetition is refused,
and so is an option, number or choice that is not known.
-/

namespace Entailment.CommandLine

/-- What the command line asks for. -/
structure Options where
  file : String
  asks : List String
  bindings : List String
  propositional : Bool
  dimacs : Option String
  maxResolutions : Nat
  answerFilter : FirstOrder.AnswerFilter
  proofs : Bool
  proofGraph : Option FirstOrder.GraphScope
  timeout : Option Nat
  memoryLimit : Option Nat
  deriving DecidableEq, Repr

/-- The options that have been read so far.  What is missing has not been
given. -/
structure Given where
  file : Option String
  asks : List String
  bindings : List String
  propositional : Option Unit
  dimacs : Option String
  maxResolutions : Option Nat
  answerFilter : Option FirstOrder.AnswerFilter
  proofs : Option Unit
  proofGraph : Option FirstOrder.GraphScope
  timeout : Option Nat
  memoryLimit : Option Nat
  deriving DecidableEq, Repr

namespace Given

/-- Nothing has been read. -/
def nothing : Given :=
  ⟨none, [], [], none, none, none, none, none, none, none, none⟩

/-- Give a setting its value, unless it has one already. -/
def once {α : Type} (setting : Option α) (value : α) : Option (Option α) :=
  match setting with
  | none => some (some value)
  | some _ => none

/-- Take an argument that is not an option. -/
def addFile (path : String) (given : Given) : Option Given :=
  if path.isEmpty then none
  else (once given.file path).map fun file => { given with file := file }

/-- Take an option without a value.  There is no result if the name is not that
of one. -/
def addFlag? (name : String) (given : Given) : Option (Option Given) :=
  match name with
  | "propositional" =>
      some ((once given.propositional ()).map fun flag => { given with propositional := flag })
  | "proofs" => some ((once given.proofs ()).map fun flag => { given with proofs := flag })
  | _ => none

/-- The answers that a choice on the command line stands for. -/
def answerFilter? (choice : String) : Option FirstOrder.AnswerFilter :=
  match choice with
  | "any" => some .any
  | "ground" => some .ground
  | "constants" => some .constantsOnly
  | _ => none

/-- The part of a proof that a choice on the command line stands for. -/
def graphScope? (choice : String) : Option FirstOrder.GraphScope :=
  match choice with
  | "last" => some .refutation
  | "all" => some .everything
  | _ => none

/-- The number that a text stands for, if it fits into 64 bits. -/
def number? (value : String) : Option Nat :=
  Text.natural? Text.largest64 value.toList

/-- Take an option with its value. -/
def addValue (name value : String) (given : Given) : Option Given := do
  match name with
  | "ask" => return { given with asks := given.asks ++ [value] }
  | "bindings" => return { given with bindings := given.bindings ++ [value] }
  | "dimacs" => return { given with dimacs := ← once given.dimacs value }
  | "max-resolutions" =>
      return { given with maxResolutions := ← once given.maxResolutions (← number? value) }
  | "answers" =>
      return { given with answerFilter := ← once given.answerFilter (← answerFilter? value) }
  | "proof-graph" =>
      return { given with proofGraph := ← once given.proofGraph (← graphScope? value) }
  | "timeout" => return { given with timeout := ← once given.timeout (← number? value) }
  | "memory-limit" =>
      return { given with memoryLimit := ← once given.memoryLimit (← number? value) }
  | _ => none

/-- Whether an argument looks like an option: it is longer than one character
and begins with a dash. -/
def isOption (argument : String) : Bool :=
  match argument.toList with
  | '-' :: _ :: _ => true
  | _ => false

/-- Cut the text of an option at its first equals sign. -/
def splitValue (option : List Char) : String × Option String :=
  let name := option.takeWhile (· != '=')
  match option.drop name.length with
  | [] => (String.ofList name, none)
  | _ :: value => (String.ofList name, some (String.ofList value))

/-- Read the arguments one after the other. -/
def read : List String → Given → Option Given
  | [], given => some given
  | "--" :: rest, given => rest.foldlM (fun given path => given.addFile path) given
  | argument :: rest, given =>
      match argument.toList with
      | '-' :: '-' :: option =>
          match splitValue option with
          | (name, some value) => do read rest (← given.addValue name value)
          | (name, none) =>
              match given.addFlag? name with
              | some given => do read rest (← given)
              | none =>
                  match rest with
                  | [] => none
                  | value :: rest =>
                      if isOption value then none
                      else do read rest (← given.addValue name value)
      | _ =>
          if isOption argument then none
          else do read rest (← given.addFile argument)

/-- The options that result when everything has been read. -/
def toOptions (given : Given) : Option Options := do
  return {
    file := ← given.file
    asks := given.asks
    bindings := given.bindings
    propositional := given.propositional.isSome
    dimacs := given.dimacs
    maxResolutions := given.maxResolutions.getD FirstOrder.Config.default.maxResolutions
    answerFilter := given.answerFilter.getD FirstOrder.Config.default.answerFilter
    proofs := given.proofs.isSome
    proofGraph := given.proofGraph
    timeout := given.timeout
    memoryLimit := given.memoryLimit }

end Given

namespace Options

/-- The options of a command line, if it is well formed. -/
def parse (arguments : List String) : Option Options := do
  (← Given.nothing.read arguments).toOptions

/-- A number of megabytes in bytes, at most the largest number of 64 bits. -/
def megabytes (count : Nat) : Nat :=
  min (count * (1024 * 1024)) Text.largest64

/-- The settings of a search.  Proofs are recorded if they are shown in any
form. -/
def config (options : Options) : FirstOrder.Config :=
  { maxResolutions := options.maxResolutions
    answerFilter := options.answerFilter
    trackProofs := options.proofs || options.proofGraph.isSome
    limits := ⟨options.timeout, options.memoryLimit.map megabytes⟩ }

end Options

end Entailment.CommandLine
