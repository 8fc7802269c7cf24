import Entailment.CommandLine.Options
import Entailment.FirstOrder.KnowledgeBase
import Entailment.Propositional.KnowledgeBase
import Entailment.Text.ControlSequence

/-!
# A session of the prover

A session reads axioms from a text, one in each line, tells them to a knowledge
base and answers the queries of the command line: first all that ask for a
proof, then all that ask for bindings.  An axiom that cannot be read is skipped
with a warning.  Any other failure ends the session.

A session is a computation that reports what it prints and what it logs, and
whose value is the exit code.
-/

namespace Entailment.CommandLine

/-- A part of the program that logs messages. -/
inductive Source where
  | program
  | knowledgeBase
  deriving DecidableEq, Repr

/-- The name of a source in the log. -/
def Source.name : Source → String
  | program => "kbprover"
  | knowledgeBase => "kbreslib::kb"

/-- What a session shows. -/
inductive Output where
  | print (text : String)
  | warning (source : Source) (message : String)
  | failure (message : String)
  deriving DecidableEq, Repr

/-- Fill a text with spaces at its end. -/
def padEnd (width : Nat) (text : String) : String :=
  text ++ String.ofList (List.replicate (width - text.length) ' ')

/-- A line of the log without its time. -/
def logLine (level : String) (source : Source) (message : String) : String :=
  "|" ++ padEnd 7 level ++ "|" ++ padEnd 10 source.name ++ "| " ++ message

/-- The line of the log that belongs to some output. -/
def Output.logLine? : Output → Option String
  | print _ => none
  | warning source message => some (logLine "WARN" source message)
  | failure message => some (logLine "ERROR" .program message)

/-- What is written to the log for some output at a time of day.  The log is
plain text, so a sequence that is not closed takes the end of its line with
it. -/
def Output.logText? (time : String) (output : Output) : Option String :=
  output.logLine?.map fun line => Text.plain (time ++ line ++ "\n")

/-- The text that belongs to some output. -/
def Output.text : Output → String
  | print text => text
  | _ => ""

/-- Whether a line has nothing to say: it is empty or begins with two slashes. -/
def isComment : List Char → Bool
  | [] => true
  | '/' :: '/' :: _ => true
  | _ => false

/-- The axioms in a text: its lines without the blanks around them, except
comments. -/
def axiomLines (text : String) : List String :=
  let lines := (Text.lines text.toList).map Text.trim
  (lines.filter fun line => !isComment line).map String.ofList

/-- The text of a file with the given content. -/
def decode (content : ByteArray) : Except Error String :=
  match String.fromUTF8? content with
  | some text => .ok text
  | none => .error (.file .notText)

/-- What a session needs of a knowledge base.  `report` is what is shown after a
query. -/
structure Backend (σ : Type) where
  tell : String → σ → Monitored Output (Except Error σ)
  ask : String → σ → Monitored Output (Except Error (Bool × σ))
  askBindings : String → σ → Monitored Output (Except Error (Answers × σ))
  statistics : σ → Statistics
  report : σ → List Output

namespace Backend

variable {σ : Type}

/-- Tell some axioms, skipping those that cannot be read. -/
def tellAll (backend : Backend σ) : List String → σ → Monitored Output (Except Error σ)
  | [], kb => return .ok kb
  | line :: rest, kb => do
      match ← backend.tell line kb with
      | .ok kb => backend.tellAll rest kb
      | .error error =>
          if error.isRecoverable then
            Monitored.tell
              (.warning .program ("Skipping " ++ line ++ ": " ++ error.message))
            backend.tellAll rest kb
          else return .error error

/-- The line that shows the answer to a query. -/
def answerLine (backend : Backend σ) (verb query answer : String) (kb : σ) : String :=
  verb ++ " " ++ query ++ ": " ++ answer ++ " (" ++ (backend.statistics kb).render ++ ")\n"

/-- Ask for the proofs of some queries. -/
def askAll (backend : Backend σ) : List String → σ → Monitored Output (Except Error σ)
  | [], kb => return .ok kb
  | query :: rest, kb => do
      match ← backend.ask query kb with
      | .error error => return .error error
      | .ok (proven, kb) =>
          Monitored.tell (.print (backend.answerLine "ask" query (toString proven) kb))
          Monitored.tellAll (backend.report kb)
          backend.askAll rest kb

/-- Ask for the bindings of some queries. -/
def bindAll (backend : Backend σ) : List String → σ → Monitored Output (Except Error σ)
  | [], kb => return .ok kb
  | query :: rest, kb => do
      match ← backend.askBindings query kb with
      | .error error => return .error error
      | .ok (answers, kb) =>
          let count := toString answers.size ++ " answer(s)"
          Monitored.tell (.print (backend.answerLine "bindings" query count kb))
          Monitored.tell (.print answers.render)
          Monitored.tellAll (backend.report kb)
          backend.bindAll rest kb

/-- Answer the queries of the command line. -/
def answerAll (backend : Backend σ) (options : Options) (kb : σ) :
    Monitored Output (Except Error Unit) := do
  match ← backend.askAll options.asks kb with
  | .error error => return .error error
  | .ok kb =>
      match ← backend.bindAll options.bindings kb with
      | .error error => return .error error
      | .ok _ => return .ok ()

end Backend

/-- The propositional knowledge base, which decides queries by search. -/
def propositional : Backend Propositional.KnowledgeBase where
  tell line kb := return kb.tell line
  ask query kb := kb.ask .search query
  askBindings query kb := kb.askBindings .search query
  statistics kb := kb.statistics
  report _ := []

/-- The warning in an event of the first-order knowledge base. -/
def eventWarning? (signature : FirstOrder.Signature) (event : FirstOrder.Event) : Option Output :=
  match event.severity with
  | .warn => some (.warning .knowledgeBase (event.message signature))
  | _ => none

/-- The proof of the last query, in the forms that the command line asks for. -/
def proofReport (options : Options) (kb : FirstOrder.KnowledgeBase) : List Output :=
  let tree := if options.proofs then (kb.lastProof.renderTree? kb.signature).toList else []
  let graph := options.proofGraph.toList.map fun scope =>
    kb.lastProof.renderGraph kb.signature scope ++ "\n"
  (tree ++ graph).map .print

/-- The first-order knowledge base. -/
def firstOrder (options : Options) : Backend FirstOrder.KnowledgeBase where
  tell line kb := (kb.tell line).filterMap (eventWarning? kb.signature)
  ask query kb := (kb.ask query).filterMap (eventWarning? kb.signature)
  askBindings query kb := (kb.askBindings query).filterMap (eventWarning? kb.signature)
  statistics kb := kb.statistics
  report kb := proofReport options kb

/-- A session with propositional axioms.  The problem of a query is shown before
any query is answered. -/
def runPropositional (options : Options) (lines : List String) :
    Monitored Output (Except Error Unit) := do
  match ← propositional.tellAll lines .empty with
  | .error error => return .error error
  | .ok kb =>
      match options.dimacs.mapM fun query => kb.dimacs query with
      | .error error => return .error error
      | .ok problem =>
          Monitored.tellAll (problem.toList.map fun named => .print named.render)
          propositional.answerAll options kb

/-- A session with first-order axioms. -/
def runFirstOrder (options : Options) (lines : List String) :
    Monitored Output (Except Error Unit) := do
  Monitored.tellAll
    (if options.dimacs.isSome then
      [.warning .program "--dimacs only applies to propositional knowledge bases"]
    else [])
  let backend := firstOrder options
  match ← backend.tellAll lines (.empty options.config) with
  | .error error => return .error error
  | .ok kb => backend.answerAll options kb

/-- A session with the axioms of a file. -/
def runFile (options : Options) (content : Except Error String) :
    Monitored Output (Except Error Unit) :=
  match content with
  | .error error => return .error error
  | .ok text =>
      if options.propositional then runPropositional options (axiomLines text)
      else runFirstOrder options (axiomLines text)

/-- A whole session.  Its value is the exit code. -/
def run (options : Options) (content : Except Error String) : Monitored Output Nat := do
  match ← runFile options content with
  | .ok () => return 0
  | .error error =>
      Monitored.tell (.failure error.message)
      return 1

end Entailment.CommandLine
