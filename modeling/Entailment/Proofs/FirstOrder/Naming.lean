import Entailment.FirstOrder.Lowering
import Entailment.Proofs.FirstOrder.Structure
import Entailment.Proofs.FirstOrder.WrittenNames

/-!
# Structures for names

A written formula is true or false in a structure that interprets names.  A
model of a signature reads such a structure when it interprets every symbol with
a plain name, one without `#`, as the structure interprets the name.  Skolem
functions and the predicate that collects answers have no plain names, so a
model may interpret them in any way.

A model that reads a structure can be extended to one over a grown signature
without changing what it says about the old symbols.
-/

namespace Entailment.FirstOrder

universe u

variable {D : Type u}

/-! ## Truth of written formulas -/

namespace SurfaceTerm

mutual

/-- The value of a written term. -/
def value (N : Structure String String D) (ρ : String → D) : SurfaceTerm → D
  | var name => ρ name
  | app name args => N.function name (values N ρ args)

/-- The values of some written terms. -/
def values (N : Structure String String D) (ρ : String → D) : List SurfaceTerm → List D
  | [] => []
  | t :: ts => value N ρ t :: values N ρ ts

end

end SurfaceTerm

/-- The truth of a written atom.  An equation is an atom of the predicate `=`. -/
def SurfaceAtom.Holds (N : Structure String String D) (ρ : String → D) : SurfaceAtom → Prop
  | .predicate name args => N.predicate name (SurfaceTerm.values N ρ args)
  | .equation left right =>
      N.predicate Signature.equality (SurfaceTerm.values N ρ [left, right])

/-- The truth of a written formula under a valuation of its variables. -/
def SurfaceFormula.Holds (N : Structure String String D) (ρ : String → D)
    (formula : SurfaceFormula) : Prop :=
  Formula.Holds (fun ρ a => SurfaceAtom.Holds N ρ a) ρ formula

/-- A structure satisfies the universal closure of a written formula when the
formula is true under every valuation. -/
def Structure.SatisfiesClosure (N : Structure String String D) (formula : SurfaceFormula) : Prop :=
  ∀ ρ, formula.Holds N ρ

/-! ## Plain names -/

theorem IsName.isPlain {name : String} (isName : IsName name) : IsPlain name := by
  intro mem
  have isNameChar := isName '#' mem
  cases isNameChar

/-! ## Looking symbols up -/

namespace Signature

variable {signature extended : Signature}
variable {name : String} {arity : Nat}

theorem functionInfo_of_function? {f : FunctionSymbol}
    (found : signature.function? name arity = some f) :
    f.index < signature.functions.size ∧ (signature.functionInfo f).name = name ∧
      (signature.functionInfo f).arity = arity := by
  -- The last match is kept while the fold goes on.
  have last {entries : List (FunctionInfo × Nat)} {start : Option FunctionSymbol}
      (found : entries.foldl (fun found entry =>
        if entry.1.name = name ∧ entry.1.arity = arity then some ⟨entry.2⟩ else found) start =
          some f) :
      start = some f ∨ ∃ info, (info, f.index) ∈ entries ∧ info.name = name ∧
        info.arity = arity := by
    induction entries generalizing start with
    | nil => exact .inl found
    | cons entry rest ih =>
        obtain ⟨info, index⟩ := entry
        rcases ih found with here | ⟨other, mem, matched⟩
        · simp only at here
          split at here
          · rename_i matched
            cases here
            exact .inr ⟨info, List.mem_cons_self .., matched⟩
          · exact .inl here
        · exact .inr ⟨other, List.mem_cons_of_mem _ mem, matched⟩
  rcases last found with impossible | ⟨info, mem, rfl, rfl⟩
  · cases impossible
  · have entry : signature.functions[f.index]? = some info := by
      simpa [List.mem_zipIdx_iff_getElem?] using mem
    obtain ⟨bound, -⟩ := Array.getElem?_eq_some_iff.mp entry
    exact ⟨bound, by simp only [functionInfo, entry, Option.getD_some, and_self]⟩

/-- A name and an arity that are not found belong to no function symbol. -/
theorem not_mem_functions_of_function? (missing : signature.function? name arity = none) :
    ∀ info ∈ signature.functions.toList, ¬(info.name = name ∧ info.arity = arity) := by
  -- A match is never dropped, only replaced by a later one.
  have kept {entries : List (FunctionInfo × Nat)} {start : Option FunctionSymbol}
      (none : entries.foldl (fun found entry =>
        if entry.1.name = name ∧ entry.1.arity = arity then some ⟨entry.2⟩ else found) start =
          none) :
      start = .none ∧ ∀ entry ∈ entries, ¬(entry.1.name = name ∧ entry.1.arity = arity) := by
    induction entries generalizing start with
    | nil => exact ⟨none, nofun⟩
    | cons entry rest ih =>
        obtain ⟨here, others⟩ := ih none
        simp only at here
        split at here
        · cases here
        · rename_i unmatched
          exact ⟨here, List.forall_mem_cons.mpr ⟨unmatched, others⟩⟩
  intro info mem
  obtain ⟨index, bound, rfl⟩ := List.mem_iff_getElem.mp mem
  exact (kept missing).2 (signature.functions.toList[index], index)
    (List.mem_zipIdx_iff_getElem?.mpr (List.getElem?_eq_getElem bound))

theorem predicateInfo_of_predicate? {p : PredicateSymbol}
    (found : signature.predicate? name arity = some p) :
    p.index < signature.predicates.size ∧ signature.predicateInfo p = ⟨name, arity⟩ := by
  obtain ⟨index, isIndex, rfl⟩ := Option.map_eq_some_iff.mp found
  obtain ⟨bound, matched, -⟩ := Array.findIdx?_eq_some_iff_getElem.mp isIndex
  obtain ⟨sameName, sameArity⟩ := decide_eq_true_eq.mp matched
  refine ⟨bound, ?_⟩
  simp only [predicateInfo, Array.getElem?_eq_getElem bound, Option.getD_some]
  cases info : signature.predicates[index] with
  | mk otherName otherArity =>
      rw [info] at sameName sameArity
      exact congrArg₂ PredicateInfo.mk sameName sameArity

/-- A name and an arity that are not found are not in use. -/
theorem not_mem_predicates_of_predicate? (missing : signature.predicate? name arity = none) :
    ⟨name, arity⟩ ∉ signature.predicates.toList := by
  intro mem
  have none := Array.findIdx?_eq_none_iff.mp (Option.map_eq_none_iff.mp missing)
  have unmatched := none _ (Array.mem_toList_iff.mp mem)
  simp at unmatched

/-- The symbols a signature gains have names with a property. -/
structure GainsSymbols (property : String → Prop) (signature extended : Signature) : Prop where
  grows : signature.GrowsTo extended
  canonical : signature.HasCanonical → extended.HasCanonical
  proper : signature.IsProper → extended.IsProper
  function : ∀ f : FunctionSymbol, signature.functions.size ≤ f.index →
    f.index < extended.functions.size → property (extended.functionInfo f).name
  predicate : ∀ p : PredicateSymbol, signature.predicates.size ≤ p.index →
    p.index < extended.predicates.size → property (extended.predicateInfo p).name

variable {property : String → Prop}

theorem GainsVariables.gainsSymbols (gains : signature.GainsVariables extended) :
    signature.GainsSymbols property extended where
  grows := gains.grows
  canonical := gains.hasCanonical
  proper := gains.proper
  function f old bound := by
    rw [gains.functions] at bound
    omega
  predicate p old bound := by
    rw [gains.predicates] at bound
    omega

theorem GainsSymbols.refl (signature : Signature) : signature.GainsSymbols property signature :=
  (GainsVariables.refl signature).gainsSymbols

theorem GainsSymbols.trans {further : Signature}
    (first : signature.GainsSymbols property extended)
    (second : extended.GainsSymbols property further) :
    signature.GainsSymbols property further where
  grows := first.grows.trans second.grows
  canonical has := second.canonical (first.canonical has)
  proper proper := second.proper (first.proper proper)
  function f isNew bound := by
    by_cases middle : f.index < extended.functions.size
    · rw [second.grows.functionInfo middle]
      exact first.function f isNew middle
    · exact second.function f (Nat.le_of_not_lt middle) bound
  predicate p isNew bound := by
    by_cases middle : p.index < extended.predicates.size
    · rw [second.grows.predicateInfo middle]
      exact first.predicate p isNew middle
    · exact second.predicate p (Nat.le_of_not_lt middle) bound

theorem gainsSymbols_addVariable (name : String) (signature : Signature) :
    signature.GainsSymbols property (signature.addVariable name).2 :=
  have grows := growsTo_addVariable name signature
  ⟨grows, fun has => has.mono grows rfl,
    fun proper => proper.mono grows rfl rfl proper.distinctFunctions,
    fun _ old bound => absurd bound (Nat.not_lt.mpr old),
    fun _ old bound => absurd bound (Nat.not_lt.mpr old)⟩

/-- Interning a function symbol: the symbol has its name and its arity. -/
theorem internFunction_spec (name : String) (arity : Nat) (signature : Signature)
    (good : property name) :
    signature.GainsSymbols property (signature.internFunction name arity).2 ∧
      (signature.internFunction name arity).1.index <
        (signature.internFunction name arity).2.functions.size ∧
      ((signature.internFunction name arity).2.functionInfo
        (signature.internFunction name arity).1).name = name ∧
      ((signature.internFunction name arity).2.functionInfo
        (signature.internFunction name arity).1).arity = arity := by
  have grows := growsTo_internFunction name arity signature
  unfold internFunction at grows ⊢
  cases found : signature.function? name arity with
  | some f => exact ⟨.refl signature, functionInfo_of_function? found⟩
  | none =>
      rw [found] at grows
      refine ⟨⟨grows, fun has => has.mono grows rfl,
        fun proper => proper.mono grows rfl rfl ?_, fun f old bound => ?_,
        fun p old bound => absurd bound (Nat.not_lt.mpr old)⟩, ?_⟩
      · exact pairwise_push proper.distinctFunctions fun info mem _ =>
          not_mem_functions_of_function? found info mem
      · have last : f.index = signature.functions.size := by
          simp only [Array.size_push] at bound
          omega
        simp [functionInfo, last, good]
      · simp [functionInfo]

/-- Interning a predicate symbol. -/
theorem internPredicate_spec (name : String) (arity : Nat) (signature : Signature)
    (good : property name) :
    signature.GainsSymbols property (signature.internPredicate name arity).2 ∧
      (signature.internPredicate name arity).1.index <
        (signature.internPredicate name arity).2.predicates.size ∧
      (signature.internPredicate name arity).2.predicateInfo
        (signature.internPredicate name arity).1 = ⟨name, arity⟩ := by
  have grows := growsTo_internPredicate name arity signature
  unfold internPredicate at grows ⊢
  cases found : signature.predicate? name arity with
  | some p => exact ⟨.refl signature, predicateInfo_of_predicate? found⟩
  | none =>
      rw [found] at grows
      refine ⟨⟨grows, fun has => has.mono grows rfl,
        fun proper => ⟨proper.hasCanonical.mono grows rfl, proper.increasingCanonical, ?_,
          proper.distinctFunctions⟩,
        fun f old bound => absurd bound (Nat.not_lt.mpr old), fun p old bound => ?_⟩, ?_⟩
      · refine pairwise_push proper.distinctPredicates fun info mem same => ?_
        exact not_mem_predicates_of_predicate? found (same ▸ mem)
      · have last : p.index = signature.predicates.size := by
          simp only [Array.size_push] at bound
          omega
        simp [predicateInfo, last, good]
      · simp [predicateInfo]

theorem vars_internFunction (name : String) (arity : Nat) (signature : Signature) :
    (signature.internFunction name arity).2.vars = signature.vars := by
  unfold internFunction
  split <;> rfl

theorem vars_internPredicate (name : String) (arity : Nat) (signature : Signature) :
    (signature.internPredicate name arity).2.vars = signature.vars := by
  unfold internPredicate
  split <;> rfl

/-- Creating a Skolem function. -/
theorem addSkolem_spec (arity : Nat) (signature : Signature) :
    signature.GainsSymbols (fun name => ¬IsPlain name) (signature.addSkolem arity).2 ∧
      (signature.addSkolem arity).1 = ⟨signature.functions.size⟩ ∧
      (signature.addSkolem arity).2.functions.size = signature.functions.size + 1 ∧
      ((signature.addSkolem arity).2.functionInfo (signature.addSkolem arity).1).arity = arity := by
  have grows := growsTo_addSkolem arity signature
  refine ⟨⟨grows, fun has => has.mono grows rfl, fun proper => proper.mono grows rfl rfl ?_,
    fun f old bound => ?_, fun p old bound => absurd bound (Nat.not_lt.mpr old)⟩, rfl,
    by simp [addSkolem], ?_⟩
  · exact pairwise_push proper.distinctFunctions fun _ _ plain =>
      absurd plain (not_isPlain_skolemName _)
  · have last : f.index = signature.functions.size := by
      simp only [addSkolem, Array.size_push] at bound
      omega
    simp [functionInfo, addSkolem, last, not_isPlain_skolemName]
  · simp [functionInfo, addSkolem]

end Signature

/-! ## Models that read a structure for names -/

/-- A model that interprets the symbols with plain names as a structure for names
does. -/
structure Structure.Reads (signature : Signature) (M : Model D) (N : Structure String String D) :
    Prop where
  function : ∀ f : FunctionSymbol, f.index < signature.functions.size →
    IsPlain (signature.functionInfo f).name →
      M.function f = N.function (signature.functionInfo f).name
  predicate : ∀ p : PredicateSymbol, p.index < signature.predicates.size →
    IsPlain (signature.predicateInfo p).name →
      M.predicate p = N.predicate (signature.predicateInfo p).name

variable {signature extended : Signature} {N : Structure String String D} {M : Model D}

theorem Structure.Reads.of_growsTo (reads : M.Reads extended N)
    (grows : signature.GrowsTo extended) : M.Reads signature N where
  function f bound plain := by
    rw [← grows.functionInfo bound] at plain ⊢
    exact reads.function f (Nat.lt_of_lt_of_le bound grows.functionsSize) plain
  predicate p bound plain := by
    rw [← grows.predicateInfo bound] at plain ⊢
    exact reads.predicate p (Nat.lt_of_lt_of_le bound grows.predicatesSize) plain

/-- A model reads the same structure after symbols without plain names have come
in, and so does a model that differs from it on such symbols only. -/
theorem Structure.Reads.gain {M' : Model D} (reads : M.Reads signature N)
    (gains : signature.GainsSymbols (fun name => ¬IsPlain name) extended)
    (agree : M'.AgreesOn signature M) : M'.Reads extended N where
  function f bound plain := by
    by_cases old : f.index < signature.functions.size
    · rw [agree.function f old, gains.grows.functionInfo old]
      rw [gains.grows.functionInfo old] at plain
      exact reads.function f old plain
    · exact absurd plain (gains.function f (Nat.le_of_not_lt old) bound)
  predicate p bound plain := by
    by_cases old : p.index < signature.predicates.size
    · rw [agree.predicate p old, gains.grows.predicateInfo old]
      rw [gains.grows.predicateInfo old] at plain
      exact reads.predicate p old plain
    · exact absurd plain (gains.predicate p (Nat.le_of_not_lt old) bound)

/-- A model, with the symbols that a signature does not have interpreted by their
names. -/
def Structure.extend (M : Model D) (N : Structure String String D)
    (signature extended : Signature) : Model D where
  function f :=
    if f.index < signature.functions.size then M.function f
    else N.function (extended.functionInfo f).name
  predicate p :=
    if p.index < signature.predicates.size then M.predicate p
    else N.predicate (extended.predicateInfo p).name

theorem Structure.extend_agreesOn (M : Model D) (N : Structure String String D)
    (signature extended : Signature) : (M.extend N signature extended).AgreesOn signature M where
  function _ bound := if_pos bound
  predicate _ bound := if_pos bound

/-- Extending a model that reads a structure gives a model that reads it over the
grown signature. -/
theorem Structure.Reads.extend (reads : M.Reads signature N)
    (grows : signature.GrowsTo extended) :
    (M.extend N signature extended).Reads extended N where
  function f bound plain := by
    by_cases old : f.index < signature.functions.size
    · rw [grows.functionInfo old] at plain ⊢
      rw [(M.extend_agreesOn N signature extended).function f old]
      exact reads.function f old plain
    · exact if_neg old
  predicate p bound plain := by
    by_cases old : p.index < signature.predicates.size
    · rw [grows.predicateInfo old] at plain ⊢
      rw [(M.extend_agreesOn N signature extended).predicate p old]
      exact reads.predicate p old plain
    · exact if_neg old

end Entailment.FirstOrder
