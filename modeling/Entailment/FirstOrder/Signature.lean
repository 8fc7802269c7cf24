import Entailment.FirstOrder.Term

/-!
# Signatures

A signature gives names to variables and names and arities to function and
predicate symbols.  Each kind is numbered from zero in the order of creation,
and nothing is ever taken out.

* Function and predicate symbols are known by name and arity: interning a known
  one gives the same symbol again.
* Skolem functions are always new.  Their names contain a `#`, which no name in
  a formula does.
* Variables are always new, whatever their names.
* The canonical variables `_1, _2, …` are ordinary variables that are created
  when they are first needed.  Clauses are renamed onto them.

The numbers have no bound here.  In words of 32 bits they stand for the same
symbols as long as there are fewer than `2 ^ 32` of each kind, which is assumed
throughout.
-/

namespace Entailment.FirstOrder

/-- What is known of a function symbol. -/
structure FunctionInfo where
  name : String
  arity : Nat
  skolem : Bool
  deriving DecidableEq, Repr

/-- What is known of a predicate symbol. -/
structure PredicateInfo where
  name : String
  arity : Nat
  deriving DecidableEq, Repr

/-- The names in use, in the order of their numbers.  `canonical` lists the
canonical variables. -/
structure Signature where
  vars : Array String
  functions : Array FunctionInfo
  predicates : Array PredicateInfo
  canonical : Array Variable
  skolems : Nat
  deriving DecidableEq

namespace Signature

/-- The signature without symbols. -/
def empty : Signature := ⟨#[], #[], #[], #[], 0⟩

/-- The name of the binary predicate that `s = t` is read into. -/
def equality : String := "="

/-! ## Looking up -/

/-- The name of a variable. -/
def variableName (signature : Signature) (v : Variable) : String :=
  signature.vars[v.index]?.getD ""

/-- What is known of a function symbol. -/
def functionInfo (signature : Signature) (f : FunctionSymbol) : FunctionInfo :=
  signature.functions[f.index]?.getD ⟨"", 0, false⟩

/-- What is known of a predicate symbol. -/
def predicateInfo (signature : Signature) (p : PredicateSymbol) : PredicateInfo :=
  signature.predicates[p.index]?.getD ⟨"", 0⟩

/-- The name of a predicate symbol. -/
def predicateName (signature : Signature) (p : PredicateSymbol) : String :=
  (signature.predicateInfo p).name

/-- The function symbol of a name and an arity, the last one when a Skolem
function has taken a name over. -/
def function? (name : String) (arity : Nat) (signature : Signature) : Option FunctionSymbol :=
  signature.functions.toList.zipIdx.foldl
    (fun found (info, index) =>
      if info.name = name ∧ info.arity = arity then some ⟨index⟩ else found)
    none

/-- The predicate symbol of a name and an arity. -/
def predicate? (name : String) (arity : Nat) (signature : Signature) : Option PredicateSymbol :=
  (signature.predicates.findIdx? fun info => decide (info.name = name ∧ info.arity = arity)).map
    PredicateSymbol.mk

/-- A canonical variable that has been created. -/
def canonicalVariable (signature : Signature) (index : Nat) : Variable :=
  signature.canonical[index]?.getD ⟨0⟩

/-! ## Adding -/

/-- Create a variable. -/
def addVariable (name : String) (signature : Signature) : Variable × Signature :=
  (⟨signature.vars.size⟩, { signature with vars := signature.vars.push name })

/-- The function symbol of a name and an arity. -/
def internFunction (name : String) (arity : Nat) (signature : Signature) :
    FunctionSymbol × Signature :=
  match signature.function? name arity with
  | some f => (f, signature)
  | none =>
      (⟨signature.functions.size⟩,
        { signature with functions := signature.functions.push ⟨name, arity, false⟩ })

/-- The name of the Skolem function of the given number. -/
def skolemName (number : Nat) : String :=
  "sk#" ++ toString number

/-- Create a Skolem function. -/
def addSkolem (arity : Nat) (signature : Signature) : FunctionSymbol × Signature :=
  let number := signature.skolems + 1
  (⟨signature.functions.size⟩,
    { signature with
      functions := signature.functions.push ⟨skolemName number, arity, true⟩
      skolems := number })

/-- The predicate symbol of a name and an arity. -/
def internPredicate (name : String) (arity : Nat) (signature : Signature) :
    PredicateSymbol × Signature :=
  match signature.predicate? name arity with
  | some p => (p, signature)
  | none =>
      (⟨signature.predicates.size⟩,
        { signature with predicates := signature.predicates.push ⟨name, arity⟩ })

/-- The name of the canonical variable of the given number, counted from
zero. -/
def canonicalName (index : Nat) : String :=
  "_" ++ toString (index + 1)

/-- Create some more canonical variables. -/
def addCanonical : Nat → Signature → Signature
  | 0, signature => signature
  | count + 1, signature =>
      let (v, extended) := signature.addVariable (canonicalName signature.canonical.size)
      addCanonical count { extended with canonical := extended.canonical.push v }

/-- Create canonical variables until there are at least `count` of them. -/
def reserveCanonical (count : Nat) (signature : Signature) : Signature :=
  signature.addCanonical (count - signature.canonical.size)

end Signature

end Entailment.FirstOrder
