import Entailment.FirstOrder.Renaming
import Entailment.Order.SortedLemmas
import Entailment.FirstOrder.Order
import Entailment.Proofs.FirstOrder.Replacement
import Mathlib.Data.List.Nodup

/-!
# Growing signatures and what is written over them

A signature only ever grows: a symbol keeps its number, its name and its arity.
A term is over a signature when its variables and function symbols are in it and
every function symbol has as many arguments as its arity says, and what is over
a signature is over every signature that the signature grows to.

Replacing variables by terms over the signature stays inside it, so the same
holds for instances of atoms and clauses.
-/

namespace Entailment.FirstOrder

/-- A name that a text can contain. -/
def IsPlain (name : String) : Prop := '#' ∉ name.toList

theorem isPlain_equality : IsPlain Signature.equality := by
  simp [IsPlain, Signature.equality]

theorem not_isPlain_skolemName (number : Nat) : ¬IsPlain (Signature.skolemName number) := by
  simp [IsPlain, Signature.skolemName]

namespace Signature

/-- A signature grows to another one that has the same symbols and variables
under the same numbers, and perhaps more. -/
structure GrowsTo (signature extended : Signature) : Prop where
  vars : signature.vars.toList <+: extended.vars.toList
  functions : signature.functions.toList <+: extended.functions.toList
  predicates : signature.predicates.toList <+: extended.predicates.toList
  canonical : signature.canonical.toList <+: extended.canonical.toList

namespace GrowsTo

variable {signature extended further : Signature}

theorem refl (signature : Signature) : signature.GrowsTo signature :=
  ⟨List.prefix_rfl, List.prefix_rfl, List.prefix_rfl, List.prefix_rfl⟩

theorem trans (first : signature.GrowsTo extended) (second : extended.GrowsTo further) :
    signature.GrowsTo further :=
  ⟨first.vars.trans second.vars, first.functions.trans second.functions,
    first.predicates.trans second.predicates, first.canonical.trans second.canonical⟩

theorem varsSize (grows : signature.GrowsTo extended) :
    signature.vars.size ≤ extended.vars.size := by
  simpa using grows.vars.length_le

theorem functionsSize (grows : signature.GrowsTo extended) :
    signature.functions.size ≤ extended.functions.size := by
  simpa using grows.functions.length_le

theorem predicatesSize (grows : signature.GrowsTo extended) :
    signature.predicates.size ≤ extended.predicates.size := by
  simpa using grows.predicates.length_le

theorem canonicalSize (grows : signature.GrowsTo extended) :
    signature.canonical.size ≤ extended.canonical.size := by
  simpa using grows.canonical.length_le

/-- The entries of an array are those of the array it grows to. -/
theorem getElem?_eq {α : Type} {short long : Array α} (grows : short.toList <+: long.toList)
    {index : Nat} (bound : index < short.size) : long[index]? = short[index]? := by
  obtain ⟨rest, equal⟩ := grows
  rw [← Array.getElem?_toList, ← Array.getElem?_toList, ← equal,
    List.getElem?_append_left (by simpa using bound)]

theorem variableName (grows : signature.GrowsTo extended) {v : Variable}
    (bound : v.index < signature.vars.size) :
    extended.variableName v = signature.variableName v := by
  simp only [Signature.variableName, getElem?_eq grows.vars bound]

theorem functionInfo (grows : signature.GrowsTo extended) {f : FunctionSymbol}
    (bound : f.index < signature.functions.size) :
    extended.functionInfo f = signature.functionInfo f := by
  simp only [Signature.functionInfo, getElem?_eq grows.functions bound]

theorem predicateInfo (grows : signature.GrowsTo extended) {p : PredicateSymbol}
    (bound : p.index < signature.predicates.size) :
    extended.predicateInfo p = signature.predicateInfo p := by
  simp only [Signature.predicateInfo, getElem?_eq grows.predicates bound]

theorem canonicalVariable (grows : signature.GrowsTo extended) {index : Nat}
    (bound : index < signature.canonical.size) :
    extended.canonicalVariable index = signature.canonicalVariable index := by
  simp only [Signature.canonicalVariable, getElem?_eq grows.canonical bound]

end GrowsTo

/-- The canonical variables of a signature are variables of it. -/
def HasCanonical (signature : Signature) : Prop :=
  ∀ v ∈ signature.canonical, v.index < signature.vars.size

/-- No two function symbols have both the same plain name and the same arity. -/
def HasDistinctFunctions (signature : Signature) : Prop :=
  signature.functions.toList.Pairwise fun earlier later =>
    IsPlain later.name → ¬(earlier.name = later.name ∧ earlier.arity = later.arity)

/-- A signature whose canonical variables are variables of it in the order of their
creation, and in which name and arity tell predicate symbols apart, and function
symbols with plain names. -/
structure IsProper (signature : Signature) : Prop where
  hasCanonical : signature.HasCanonical
  increasingCanonical : signature.canonical.toList.Pairwise fun v w => v.index < w.index
  distinctPredicates : signature.predicates.toList.Nodup
  distinctFunctions : signature.HasDistinctFunctions

/-! ## Operations -/

/-- A new entry at the end of an array. -/
theorem pairwise_push {α : Type} {related : α → α → Prop} {entries : Array α} {entry : α}
    (pairwise : entries.toList.Pairwise related)
    (last : ∀ other ∈ entries.toList, related other entry) :
    (entries.push entry).toList.Pairwise related := by
  rw [Array.toList_push, List.pairwise_append]
  refine ⟨pairwise, List.pairwise_singleton .., fun other otherMem _ entryMem => ?_⟩
  rw [List.mem_singleton.mp entryMem]
  exact last other otherMem

theorem growsTo_addVariable (name : String) (signature : Signature) :
    signature.GrowsTo (signature.addVariable name).2 :=
  ⟨by simp [addVariable], List.prefix_rfl, List.prefix_rfl, List.prefix_rfl⟩

theorem growsTo_internFunction (name : String) (arity : Nat) (signature : Signature) :
    signature.GrowsTo (signature.internFunction name arity).2 := by
  unfold internFunction
  split
  · exact .refl signature
  · exact ⟨List.prefix_rfl, by simp, List.prefix_rfl, List.prefix_rfl⟩

theorem growsTo_addSkolem (arity : Nat) (signature : Signature) :
    signature.GrowsTo (signature.addSkolem arity).2 :=
  ⟨List.prefix_rfl, by simp [addSkolem], List.prefix_rfl, List.prefix_rfl⟩

theorem growsTo_internPredicate (name : String) (arity : Nat) (signature : Signature) :
    signature.GrowsTo (signature.internPredicate name arity).2 := by
  unfold internPredicate
  split
  · exact .refl signature
  · exact ⟨List.prefix_rfl, List.prefix_rfl, by simp, List.prefix_rfl⟩

theorem HasCanonical.mono {signature extended : Signature} (has : signature.HasCanonical)
    (grows : signature.GrowsTo extended) (same : extended.canonical = signature.canonical) :
    extended.HasCanonical := by
  intro v mem
  rw [same] at mem
  exact Nat.lt_of_lt_of_le (has v mem) grows.varsSize

/-- A signature stays proper when neither its canonical variables nor its
predicate symbols change. -/
theorem IsProper.mono {signature extended : Signature} (proper : signature.IsProper)
    (grows : signature.GrowsTo extended) (sameCanonical : extended.canonical = signature.canonical)
    (samePredicates : extended.predicates = signature.predicates)
    (distinctFunctions : extended.HasDistinctFunctions) : extended.IsProper where
  hasCanonical := proper.hasCanonical.mono grows sameCanonical
  increasingCanonical := sameCanonical ▸ proper.increasingCanonical
  distinctPredicates := samePredicates ▸ proper.distinctPredicates
  distinctFunctions := distinctFunctions

/-- A signature gains variables and nothing else. -/
structure GainsVariables (signature extended : Signature) : Prop where
  grows : signature.GrowsTo extended
  functions : extended.functions = signature.functions
  predicates : extended.predicates = signature.predicates
  skolems : extended.skolems = signature.skolems
  hasCanonical : signature.HasCanonical → extended.HasCanonical
  proper : signature.IsProper → extended.IsProper

theorem GainsVariables.refl (signature : Signature) : signature.GainsVariables signature :=
  ⟨.refl signature, rfl, rfl, rfl, id, id⟩

theorem GainsVariables.trans {signature extended further : Signature}
    (first : signature.GainsVariables extended) (second : extended.GainsVariables further) :
    signature.GainsVariables further :=
  ⟨first.grows.trans second.grows, second.functions.trans first.functions,
    second.predicates.trans first.predicates, second.skolems.trans first.skolems,
    fun has => second.hasCanonical (first.hasCanonical has),
    fun proper => second.proper (first.proper proper)⟩

/-- What creating canonical variables does: the signature has that many
canonical variables more. -/
theorem addCanonical_spec (count : Nat) (signature : Signature) :
    signature.GainsVariables (signature.addCanonical count) ∧
      (signature.addCanonical count).canonical.size = signature.canonical.size + count := by
  induction count generalizing signature with
  | zero => exact ⟨.refl signature, rfl⟩
  | succ count ih =>
      obtain ⟨gains, size⟩ :=
        ih { signature with
          vars := signature.vars.push (canonicalName signature.canonical.size)
          canonical := signature.canonical.push ⟨signature.vars.size⟩ }
      have first : signature.GainsVariables
          { signature with
            vars := signature.vars.push (canonicalName signature.canonical.size)
            canonical := signature.canonical.push ⟨signature.vars.size⟩ } := by
        have has (has : signature.HasCanonical) : HasCanonical
            { signature with
              vars := signature.vars.push (canonicalName signature.canonical.size)
              canonical := signature.canonical.push ⟨signature.vars.size⟩ } := by
          intro v mem
          simp only [Array.mem_push] at mem
          simp only [Array.size_push]
          rcases mem with mem | rfl
          · exact Nat.lt_succ_of_lt (has v mem)
          · exact Nat.lt_succ_self _
        refine ⟨⟨by simp, List.prefix_rfl, List.prefix_rfl, by simp⟩, rfl, rfl, rfl, has,
          fun proper => ?_⟩
        refine ⟨has proper.hasCanonical, ?_, proper.distinctPredicates, proper.distinctFunctions⟩
        -- The new variable is the last one, and the canonical variables are old ones.
        exact pairwise_push proper.increasingCanonical fun v mem =>
          proper.hasCanonical v (Array.mem_toList_iff.mp mem)
      refine ⟨first.trans gains, ?_⟩
      simp only [Array.size_push] at size
      simp only [addCanonical, addVariable, size]
      omega

/-- What reserving canonical variables does. -/
theorem reserveCanonical_spec (count : Nat) (signature : Signature) :
    signature.GainsVariables (signature.reserveCanonical count) ∧
      count ≤ (signature.reserveCanonical count).canonical.size := by
  obtain ⟨gains, size⟩ := addCanonical_spec (count - signature.canonical.size) signature
  refine ⟨gains, ?_⟩
  rw [reserveCanonical, size]
  omega

/-- A canonical variable that has been created is a variable of the signature. -/
theorem HasCanonical.canonicalVariable_lt {signature : Signature} (has : signature.HasCanonical)
    {index : Nat} (bound : index < signature.canonical.size) :
    (signature.canonicalVariable index).index < signature.vars.size := by
  have found : signature.canonicalVariable index = signature.canonical[index] := by
    simp [canonicalVariable, bound]
  rw [found]
  exact has _ (Array.getElem_mem bound)

/-- No two predicates have a name and an arity in common. -/
theorem IsProper.predicate_inj {signature : Signature} (proper : signature.IsProper)
    {p q : PredicateSymbol} (pBound : p.index < signature.predicates.size)
    (qBound : q.index < signature.predicates.size)
    (same : signature.predicateInfo p = signature.predicateInfo q) : p = q := by
  simp only [predicateInfo, Array.getElem?_eq_getElem, pBound, qBound, Option.getD_some] at same
  have places : p.index = q.index :=
    proper.distinctPredicates.getElem_inj_iff.mp same
  cases p
  cases q
  cases places
  rfl

/-- Where no two functions have a name of some kind and an arity in common, these say
which function it is. -/
theorem function_inj {signature : Signature} {kind : String → Prop}
    (distinct : signature.functions.toList.Pairwise fun earlier later => kind later.name →
      ¬(earlier.name = later.name ∧ earlier.arity = later.arity))
    {f g : FunctionSymbol} (fBound : f.index < signature.functions.size)
    (gBound : g.index < signature.functions.size) (plain : kind (signature.functionInfo f).name)
    (sameName : (signature.functionInfo f).name = (signature.functionInfo g).name)
    (sameArity : (signature.functionInfo f).arity = (signature.functionInfo g).arity) : f = g := by
  have distinct := List.pairwise_iff_getElem.mp distinct
  simp only [functionInfo, Array.getElem?_eq_getElem, fBound, gBound, Option.getD_some]
    at plain sameName sameArity
  rcases Nat.lt_trichotomy f.index g.index with less | equal | greater
  · exact absurd ⟨sameName, sameArity⟩ (distinct _ _ fBound gBound less (sameName ▸ plain))
  · exact congrArg FunctionSymbol.mk equal
  · exact absurd ⟨sameName.symm, sameArity.symm⟩ (distinct _ _ gBound fBound greater plain)

end Signature

/-! ## Terms over a signature -/

/-- A term over a signature. -/
inductive Term.IsOver (signature : Signature) : Term → Prop
  | var {v : Variable} (bound : v.index < signature.vars.size) : IsOver signature (.var v)
  | app {f : FunctionSymbol} {args : List Term} (bound : f.index < signature.functions.size)
      (arity : args.length = (signature.functionInfo f).arity)
      (isOver : ∀ t ∈ args, IsOver signature t) : IsOver signature (.app f args)

/-- An atom over a signature. -/
structure Atom.IsOver (signature : Signature) (a : Atom) : Prop where
  bound : a.predicate.index < signature.predicates.size
  arity : a.args.length = (signature.predicateInfo a.predicate).arity
  isOver : ∀ t ∈ a.args, t.IsOver signature

/-- A clause over a signature. -/
def Clause.IsOver (signature : Signature) (c : Clause) : Prop :=
  ∀ literal ∈ c.literals, literal.atom.IsOver signature

/-- A substitution by terms over a signature. -/
def Substitution.IsOver (signature : Signature) (σ : Substitution) : Prop :=
  ∀ v : Variable, v.index < signature.vars.size → (σ.image v).IsOver signature

variable {signature extended : Signature}

namespace Term

variable {t : Term}

@[simp]
theorem isOver_var {v : Variable} : (var v).IsOver signature ↔ v.index < signature.vars.size :=
  ⟨fun isOver => by cases isOver; assumption, .var⟩

@[simp]
theorem isOver_app {f : FunctionSymbol} {args : List Term} :
    (app f args).IsOver signature ↔ f.index < signature.functions.size ∧
      args.length = (signature.functionInfo f).arity ∧ ∀ t ∈ args, t.IsOver signature := by
  constructor
  · intro isOver
    cases isOver with
    | app bound arity isOver => exact ⟨bound, arity, isOver⟩
  · rintro ⟨bound, arity, isOver⟩
    exact .app bound arity isOver

theorem IsOver.mono (grows : signature.GrowsTo extended) (isOver : t.IsOver signature) :
    t.IsOver extended := by
  induction isOver with
  | var bound => exact .var (Nat.lt_of_lt_of_le bound grows.varsSize)
  | app bound arity _ ih =>
      exact .app (Nat.lt_of_lt_of_le bound grows.functionsSize)
        (by rw [grows.functionInfo bound, arity]) ih

theorem IsOver.index_lt (isOver : t.IsOver signature) {v : Variable} (mem : v ∈ t.vars) :
    v.index < signature.vars.size := by
  induction isOver with
  | var bound =>
      rw [vars_var, List.mem_singleton] at mem
      exact mem ▸ bound
  | app _ _ _ ih =>
      rw [vars_app, List.mem_flatMap] at mem
      obtain ⟨t, tMem, vMem⟩ := mem
      exact ih t tMem vMem

/-- Terms over a signature put in for the variables of a term give a term over
the signature. -/
theorem IsOver.replace {image : Variable → Term} (isOver : t.IsOver signature)
    (images : ∀ v ∈ t.vars, (image v).IsOver extended) (grows : signature.GrowsTo extended) :
    (t.replace image).IsOver extended := by
  induction isOver with
  | var bound => exact images _ (by simp)
  | app bound arity _ ih =>
      rw [replace_app]
      refine .app (Nat.lt_of_lt_of_le bound grows.functionsSize) ?_ ?_
      · rw [List.length_map, grows.functionInfo bound, arity]
      · intro t mem
        obtain ⟨s, sMem, rfl⟩ := List.mem_map.mp mem
        exact ih s sMem fun v vMem => images v (by simpa using ⟨s, sMem, vMem⟩)

end Term

namespace Substitution

variable {t : Term}

theorem isOver_empty : Substitution.empty.IsOver signature := fun _ bound => .var bound

theorem IsOver.apply {σ : Substitution} (σOver : σ.IsOver signature) (isOver : t.IsOver signature) :
    (σ.apply t).IsOver signature := by
  rw [apply_eq_replace]
  exact isOver.replace (fun v mem => σOver v (isOver.index_lt mem)) (.refl signature)

theorem isOver_single (v : Variable) (isOver : t.IsOver signature) :
    (single v t).IsOver signature := by
  intro w bound
  rw [image_single]
  split
  · exact isOver
  · exact .var bound

theorem IsOver.compose {σ : Substitution} (σOver : σ.IsOver signature) (v : Variable)
    (isOver : t.IsOver signature) : (σ.compose v t).IsOver signature := by
  intro w bound
  rw [image_compose]
  exact (isOver_single v isOver).apply (σOver w bound)

end Substitution

namespace Atom

theorem IsOver.mono (grows : signature.GrowsTo extended) {a : Atom} (isOver : a.IsOver signature) :
    a.IsOver extended where
  bound := Nat.lt_of_lt_of_le isOver.bound grows.predicatesSize
  arity := by rw [grows.predicateInfo isOver.bound, isOver.arity]
  isOver t mem := (isOver.isOver t mem).mono grows

theorem IsOver.apply {σ : Substitution} (σOver : σ.IsOver signature) {a : Atom}
    (isOver : a.IsOver signature) : (a.apply σ).IsOver signature where
  bound := isOver.bound
  arity := by simp only [Atom.apply, List.length_map, isOver.arity]
  isOver t mem := by
    obtain ⟨s, sMem, rfl⟩ := List.mem_map.mp mem
    exact σOver.apply (isOver.isOver s sMem)

end Atom

namespace Clause

variable {c : Clause} {σ : Substitution}

theorem IsOver.mono (grows : signature.GrowsTo extended) (isOver : c.IsOver signature) :
    c.IsOver extended :=
  fun literal mem => (isOver literal mem).mono grows

@[simp]
theorem isOver_empty : Clause.empty.IsOver signature := by
  intro literal mem
  cases mem

theorem isOver_ofList {literals : List (Literal Atom)} :
    (ofList literals).IsOver signature ↔ ∀ literal ∈ literals, literal.atom.IsOver signature := by
  simp [IsOver, ofList]

/-- The literals of an instance are the instances of the literals. -/
theorem mem_literals_apply {literal : Literal Atom} :
    literal ∈ (c.apply σ).literals ↔
      ∃ original ∈ c.literals, original.map (Atom.apply σ) = literal := by
  unfold apply
  split
  · rename_i isEmpty
    obtain ⟨bindings⟩ := σ
    have noBinding : bindings = [] := by simpa [Substitution.isEmpty] using isEmpty
    subst noBinding
    have unchanged (original : Literal Atom) :
        original.map (Atom.apply (Substitution.mk [])) = original := by
      obtain ⟨⟨p, args⟩, sign⟩ := original
      have same : Substitution.apply (Substitution.mk []) = id := funext fun t => rfl
      simp [Literal.map, Atom.apply, same]
    simp [unchanged]
  · simp [ofList]

theorem nodup_apply (nodup : c.literals.Nodup) : (c.apply σ).literals.Nodup := by
  unfold apply
  split
  · exact nodup
  · exact (Sorted.isIncreasing_ofList _).nodup

/-- Applying a substitution to a clause in order. -/
theorem apply_eq_ofList (increasing : Sorted.IsIncreasing c.literals) (σ : Substitution) :
    c.apply σ = ofList (c.literals.map (Literal.map (Atom.apply σ))) := by
  have instances : (c.apply σ).literals =
      Sorted.ofList (c.literals.map (Literal.map (Atom.apply σ))) := by
    refine Sorted.IsIncreasing.eq_of_mem_iff ?_ (Sorted.isIncreasing_ofList _) fun literal => ?_
    · unfold apply
      split
      · exact increasing
      · exact Sorted.isIncreasing_ofList _
    · rw [mem_literals_apply, Sorted.mem_ofList, List.mem_map]
  exact congrArg Clause.mk instances

theorem IsOver.apply (σOver : σ.IsOver signature) (isOver : c.IsOver signature) :
    (c.apply σ).IsOver signature := by
  intro literal mem
  obtain ⟨original, originalMem, rfl⟩ := mem_literals_apply.mp mem
  exact Atom.IsOver.apply σOver (isOver original originalMem)

end Clause

end Entailment.FirstOrder
