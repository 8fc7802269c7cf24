import Entailment.Proofs.FirstOrder.LoweringMeaning
import Entailment.Proofs.FirstOrder.RenumberedFormulas

/-!
# Lowering over two signatures

A written formula speaks of symbols by their names.  Over two signatures it is
lowered to the same formula with other numbers, when a renumbering takes the symbols
that the one signature has in the end to those of the same names that the other one
has.  Which symbols a signature has in the end, and in which order, depends on what
was interned before.
-/

namespace Entailment.FirstOrder

variable {ρ : Renumbering} {signature renumbered last renumberedLast : Signature}
variable {place : Nat → Nat} {α : Type}

/-! ## Places in a longer list -/

/-- Places in a list that follow on a first one, one further than given. -/
def shiftPlace (place : Nat → Nat) : Nat → Nat
  | 0 => 0
  | index + 1 => place index + 1

theorem strictMono_shiftPlace (mono : StrictMono place) : StrictMono (shiftPlace place) := by
  intro first second less
  cases second with
  | zero => cases less
  | succ second =>
      cases first with
      | zero => exact Nat.succ_pos _
      | succ first => exact Nat.succ_lt_succ (mono (Nat.lt_of_succ_lt_succ less))

/-- Places for the elements of a list in a list that it is a part of: the places of a
common start stay, and what comes after the one list goes after the other one. -/
structure PlacesIn {α : Type} (start short long : List α) (place : Nat → Nat) : Prop where
  mono : StrictMono place
  start : ∀ index < start.length, place index = index
  same : ∀ index < short.length, long[place index]? = short[index]?
  after : ∀ count, place (short.length + count) = long.length + count

theorem PlacesIn.cons {α : Type} {start short long : List α} {place : Nat → Nat}
    (places : PlacesIn start short long place) (a : α) :
    PlacesIn (a :: start) (a :: short) (a :: long) (shiftPlace place) where
  mono := strictMono_shiftPlace places.mono
  start index bound := by
    cases index with
    | zero => rfl
    | succ index => exact congrArg (· + 1) (places.start index (Nat.lt_of_succ_lt_succ bound))
  same index bound := by
    cases index with
    | zero => rfl
    | succ index =>
        simp only [shiftPlace, List.getElem?_cons_succ]
        exact places.same index (Nat.lt_of_succ_lt_succ bound)
  after count := by
    have after := places.after count
    simp only [List.length_cons, Nat.add_right_comm _ 1 count, shiftPlace]
    omega

theorem PlacesIn.skip {short long : List α} (places : PlacesIn [] short long place) (a : α) :
    PlacesIn [] short (a :: long) fun index => place index + 1 where
  mono _ _ less := Nat.succ_lt_succ (places.mono less)
  start _ bound := absurd bound (Nat.not_lt_zero _)
  same index bound := by
    simp only [List.getElem?_cons_succ]
    exact places.same index bound
  after count := by
    have after := places.after count
    simp only [List.length_cons]
    omega

/-- There are such places for every sublist. -/
theorem exists_placesIn {start short long : List α} (shortStart : start <+: short)
    (longStart : start <+: long) (sublist : short.Sublist long) :
    ∃ place, PlacesIn start short long place := by
  obtain ⟨short, rfl⟩ := shortStart
  obtain ⟨long, rfl⟩ := longStart
  induction start with
  | nil =>
      simp only [List.nil_append] at sublist ⊢
      induction sublist with
      | slnil => exact ⟨id, strictMono_id, nofun, nofun, fun _ => rfl⟩
      | cons a _ ih =>
          obtain ⟨place, places⟩ := ih
          exact ⟨_, places.skip a⟩
      | cons_cons a _ ih =>
          obtain ⟨place, places⟩ := ih
          exact ⟨_, { places.cons a with start := nofun }⟩
  | cons a start ih =>
      obtain ⟨place, places⟩ := ih (List.cons_sublist_cons.mp sublist)
      exact ⟨_, places.cons a⟩

/-! ## Symbols -/

/-- A renumbering takes every symbol of a signature to the symbol of the same name in
another one. -/
structure Signature.KeepsNames (ρ : Renumbering) (signature renumbered : Signature) : Prop where
  function : ∀ f : FunctionSymbol, f.index < signature.functions.size →
    (ρ.onFunction f).index < renumbered.functions.size ∧
      renumbered.functionInfo (ρ.onFunction f) = signature.functionInfo f
  predicate : ∀ p : PredicateSymbol, p.index < signature.predicates.size →
    (ρ.onPredicate p).index < renumbered.predicates.size ∧
      renumbered.predicateInfo (ρ.onPredicate p) = signature.predicateInfo p

/-- Places for the symbols of a signature among those of another one keep their
names. -/
theorem Signature.keepsNames_ofPlaces {startFunctions : List FunctionInfo}
    {startPredicates : List PredicateInfo} {vars functions predicates : Nat → Nat}
    (onVars : StrictMono vars)
    (onFunctions : PlacesIn startFunctions signature.functions.toList renumbered.functions.toList
      functions)
    (onPredicates : PlacesIn startPredicates signature.predicates.toList
      renumbered.predicates.toList predicates) :
    signature.KeepsNames (.ofPlaces onVars onFunctions.mono onPredicates.mono) renumbered where
  function f bound := by
    have sameEntry := onFunctions.same f.index (by simpa using bound)
    simp only [Array.getElem?_toList, Array.getElem?_eq_getElem bound] at sameEntry
    exact ⟨(Array.getElem?_eq_some_iff.mp sameEntry).1, by
      simp only [functionInfo, Renumbering.ofPlaces, sameEntry, Array.getElem?_eq_getElem bound]⟩
  predicate p bound := by
    have sameEntry := onPredicates.same p.index (by simpa using bound)
    simp only [Array.getElem?_toList, Array.getElem?_eq_getElem bound] at sameEntry
    exact ⟨(Array.getElem?_eq_some_iff.mp sameEntry).1, by
      simp only [predicateInfo, Renumbering.ofPlaces, sameEntry, Array.getElem?_eq_getElem bound]⟩

/-- Interning a function symbol in two signatures, in view of what they grow to. -/
theorem Signature.KeepsNames.internFunction (keeps : last.KeepsNames ρ renumberedLast)
    (proper : renumberedLast.IsProper) {name : String} (plain : IsPlain name) {arity : Nat}
    (grows : (signature.internFunction name arity).2.GrowsTo last)
    (renumberedGrows : (renumbered.internFunction name arity).2.GrowsTo renumberedLast) :
    (renumbered.internFunction name arity).1 =
      ρ.onFunction (signature.internFunction name arity).1 := by
  obtain ⟨-, bound, sameName, sameArity⟩ :=
    @Signature.internFunction_spec (fun _ => True) name arity signature trivial
  obtain ⟨-, renumberedBound, renumberedName, renumberedArity⟩ :=
    @Signature.internFunction_spec (fun _ => True) name arity renumbered trivial
  obtain ⟨targetBound, target⟩ :=
    keeps.function _ (Nat.lt_of_lt_of_le bound grows.functionsSize)
  rw [grows.functionInfo bound] at target
  rw [← renumberedGrows.functionInfo renumberedBound] at renumberedName renumberedArity
  refine Signature.function_inj proper.distinctFunctions
    (Nat.lt_of_lt_of_le renumberedBound renumberedGrows.functionsSize) targetBound ?_ ?_ ?_
  · rwa [renumberedName]
  · rw [target, renumberedName, sameName]
  · rw [target, renumberedArity, sameArity]

/-- Interning a predicate symbol in two signatures, in view of what they grow to. -/
theorem Signature.KeepsNames.internPredicate (keeps : last.KeepsNames ρ renumberedLast)
    (proper : renumberedLast.IsProper) {name : String} {arity : Nat}
    (grows : (signature.internPredicate name arity).2.GrowsTo last)
    (renumberedGrows : (renumbered.internPredicate name arity).2.GrowsTo renumberedLast) :
    (renumbered.internPredicate name arity).1 =
      ρ.onPredicate (signature.internPredicate name arity).1 := by
  obtain ⟨-, bound, info⟩ :=
    @Signature.internPredicate_spec (fun _ => True) name arity signature trivial
  obtain ⟨-, renumberedBound, renumberedInfo⟩ :=
    @Signature.internPredicate_spec (fun _ => True) name arity renumbered trivial
  obtain ⟨targetBound, target⟩ :=
    keeps.predicate _ (Nat.lt_of_lt_of_le bound grows.predicatesSize)
  refine proper.predicate_inj (Nat.lt_of_lt_of_le renumberedBound renumberedGrows.predicatesSize)
    targetBound ?_
  rw [target, grows.predicateInfo bound, renumberedGrows.predicateInfo renumberedBound, info,
    renumberedInfo]

namespace Lowering

/-! ## Lowering in step -/

/-- Variables under their names, over the new numbers. -/
abbrev renumberEntries (ρ : Renumbering) : List (String × Variable) → List (String × Variable) :=
  List.map (Prod.map id ρ.onVariable)

theorem find?_renumberEntries (name : String) (entries : List (String × Variable)) :
    find? name (renumberEntries ρ entries) = (find? name entries).map ρ.onVariable := by
  induction entries with
  | nil => rfl
  | cons entry rest ih =>
      simp only [List.map_cons, Prod.map, id, find?]
      split
      · rfl
      · exact ih

/-- Two lowerings have met the same free variables and create the same ones from now
on. -/
structure Renumbers (ρ : Renumbering) (state renumbered : Lowering) : Prop where
  nextVariables : state.signature.VariablesInStep ρ renumbered.signature
  free : renumbered.free = renumberEntries ρ state.free

variable {bound : List (String × Variable)} {state other : Lowering}

theorem Renumbers.lowerVariable (renumbers : state.Renumbers ρ other)
    (bound : List (String × Variable)) (name : String) :
    (lowerVariable (renumberEntries ρ bound) name other).1 =
        ρ.onVariable (lowerVariable bound name state).1 ∧
      (Lowering.lowerVariable bound name state).2.Renumbers ρ
        (Lowering.lowerVariable (renumberEntries ρ bound) name other).2 := by
  simp only [Lowering.lowerVariable, find?_renumberEntries, renumbers.free]
  cases find? name bound with
  | some v => exact ⟨rfl, renumbers⟩
  | none =>
      cases find? name state.free with
      | some v => exact ⟨rfl, renumbers⟩
      | none =>
          obtain ⟨sameVariable, nextVariables⟩ := renumbers.nextVariables.addVariable name name
          refine ⟨sameVariable, nextVariables, ?_⟩
          simp only [Option.map_none, sameVariable, List.map_append, List.map_cons, List.map_nil,
            Prod.map, id]

/-- Symbols do not matter for what is known of two lowerings. -/
theorem Renumbers.withSymbols (renumbers : state.Renumbers ρ other)
    (sameVariables : signature.vars = state.signature.vars)
    (sameRenumbered : renumbered.vars = other.signature.vars) :
    Renumbers ρ { state with signature := signature } { other with signature := renumbered } := by
  refine ⟨fun count => ?_, renumbers.free⟩
  simp only [sameVariables, sameRenumbered]
  exact renumbers.nextVariables count

mutual

/-- A written term is lowered alike over two signatures. -/
theorem lowerTerm_renumber (keeps : last.KeepsNames ρ renumberedLast)
    (proper : renumberedLast.IsProper) {state other : Lowering}
    (renumbers : state.Renumbers ρ other) :
    (t : SurfaceTerm) → t.IsNamed →
      (lowerTerm bound t state).2.signature.GrowsTo last →
      (lowerTerm (renumberEntries ρ bound) t other).2.signature.GrowsTo renumberedLast →
      (lowerTerm (renumberEntries ρ bound) t other).1 = (lowerTerm bound t state).1.renumber ρ ∧
        (lowerTerm bound t state).2.Renumbers ρ (lowerTerm (renumberEntries ρ bound) t other).2
  | .var name, _, _, _ => by
      obtain ⟨sameVariable, after⟩ := renumbers.lowerVariable bound name
      exact ⟨congrArg Term.var sameVariable, after⟩
  | .app name args, .app isName named, grows, renumberedGrows => by
      have argsGrow := (Signature.growsTo_internFunction ..).trans grows
      have renumberedArgsGrow := (Signature.growsTo_internFunction ..).trans renumberedGrows
      obtain ⟨sameArgs, after⟩ :=
        lowerTerms_renumber keeps proper renumbers args named argsGrow renumberedArgsGrow
      simp only [lowerTerm, sameArgs, List.length_map] at grows renumberedGrows ⊢
      refine ⟨?_, after.withSymbols (Signature.vars_internFunction ..)
        (Signature.vars_internFunction ..)⟩
      rw [keeps.internFunction proper isName.isPlain grows renumberedGrows, Term.renumber_app]

/-- Some written terms are lowered alike over two signatures. -/
theorem lowerTerms_renumber (keeps : last.KeepsNames ρ renumberedLast)
    (proper : renumberedLast.IsProper) {state other : Lowering}
    (renumbers : state.Renumbers ρ other) :
    (args : List SurfaceTerm) → (∀ t ∈ args, t.IsNamed) →
      (lowerTerms bound args state).2.signature.GrowsTo last →
      (lowerTerms (renumberEntries ρ bound) args other).2.signature.GrowsTo renumberedLast →
      (lowerTerms (renumberEntries ρ bound) args other).1 =
          (lowerTerms bound args state).1.map (Term.renumber ρ) ∧
        (lowerTerms bound args state).2.Renumbers ρ
          (lowerTerms (renumberEntries ρ bound) args other).2
  | [], _, _, _ => ⟨rfl, renumbers⟩
  | t :: ts, named, grows, renumberedGrows => by
      obtain ⟨firstNamed, restNamed⟩ := List.forall_mem_cons.mp named
      have firstGrows := ((keeps_growsTo _).lowerTerms _ (.refl _) ts restNamed).trans grows
      have renumberedFirstGrows :=
        ((keeps_growsTo _).lowerTerms _ (.refl _) ts restNamed).trans renumberedGrows
      obtain ⟨sameFirst, afterFirst⟩ :=
        lowerTerm_renumber keeps proper renumbers t firstNamed firstGrows renumberedFirstGrows
      obtain ⟨sameRest, afterRest⟩ :=
        lowerTerms_renumber keeps proper afterFirst ts restNamed grows renumberedGrows
      exact ⟨congrArg₂ List.cons sameFirst sameRest, afterRest⟩

end

section

variable (keeps : last.KeepsNames ρ renumberedLast) (proper : renumberedLast.IsProper)

include keeps proper

theorem lowerPredicate_renumber (renumbers : state.Renumbers ρ other) {name : String}
    {args : List SurfaceTerm} (named : ∀ t ∈ args, t.IsNamed)
    (grows : (lowerPredicate bound name args state).2.signature.GrowsTo last)
    (renumberedGrows :
      (lowerPredicate (renumberEntries ρ bound) name args other).2.signature.GrowsTo
        renumberedLast) :
    (lowerPredicate (renumberEntries ρ bound) name args other).1 =
        (lowerPredicate bound name args state).1.renumber ρ ∧
      (lowerPredicate bound name args state).2.Renumbers ρ
        (lowerPredicate (renumberEntries ρ bound) name args other).2 := by
  have argsGrow := (Signature.growsTo_internPredicate ..).trans grows
  have renumberedArgsGrow := (Signature.growsTo_internPredicate ..).trans renumberedGrows
  obtain ⟨sameArgs, after⟩ :=
    lowerTerms_renumber keeps proper renumbers args named argsGrow renumberedArgsGrow
  simp only [lowerPredicate, sameArgs, List.length_map] at grows renumberedGrows ⊢
  refine ⟨?_, after.withSymbols (Signature.vars_internPredicate ..)
    (Signature.vars_internPredicate ..)⟩
  rw [keeps.internPredicate proper grows renumberedGrows, Atom.renumber]

theorem lowerAtom_renumber (renumbers : state.Renumbers ρ other) {a : SurfaceAtom}
    (named : a.IsNamed) (grows : (lowerAtom bound a state).2.signature.GrowsTo last)
    (renumberedGrows : (lowerAtom (renumberEntries ρ bound) a other).2.signature.GrowsTo
      renumberedLast) :
    (lowerAtom (renumberEntries ρ bound) a other).1 = (lowerAtom bound a state).1.renumber ρ ∧
      (lowerAtom bound a state).2.Renumbers ρ (lowerAtom (renumberEntries ρ bound) a other).2 := by
  cases a with
  | predicate name args =>
      exact lowerPredicate_renumber keeps proper renumbers named.2 grows renumberedGrows
  | equation left right =>
      have bothNamed : ∀ t ∈ [left, right], t.IsNamed := by
        simpa [SurfaceAtom.IsNamed] using named
      exact lowerPredicate_renumber keeps proper renumbers bothNamed grows renumberedGrows

/-- A written formula is lowered alike over two signatures. -/
theorem lowerFormula_renumber (renumbers : state.Renumbers ρ other) {formula : SurfaceFormula}
    (named : formula.IsNamed) (grows : (lowerFormula bound formula state).2.signature.GrowsTo last)
    (renumberedGrows : (lowerFormula (renumberEntries ρ bound) formula other).2.signature.GrowsTo
      renumberedLast) :
    (lowerFormula (renumberEntries ρ bound) formula other).1 =
        renumberFormula ρ (lowerFormula bound formula state).1 ∧
      (lowerFormula bound formula state).2.Renumbers ρ
        (lowerFormula (renumberEntries ρ bound) formula other).2 := by
  induction formula generalizing bound state other with
  | truth => exact ⟨rfl, renumbers⟩
  | atom a =>
      obtain ⟨sameAtom, after⟩ :=
        lowerAtom_renumber keeps proper renumbers (named []) grows renumberedGrows
      exact ⟨congrArg Formula.atom sameAtom, after⟩
  | not body ih =>
      obtain ⟨sameBody, after⟩ := ih renumbers named grows renumberedGrows
      exact ⟨congrArg Formula.not sameBody, after⟩
  | binary connective left right leftIh rightIh =>
      have leftGrows := ((keeps_growsTo _).lowerFormula (.refl _) (named []).2).trans grows
      have renumberedLeftGrows :=
        ((keeps_growsTo _).lowerFormula (.refl _) (named []).2).trans renumberedGrows
      obtain ⟨sameLeft, afterLeft⟩ :=
        leftIh renumbers (fun bound => (named bound).1) leftGrows renumberedLeftGrows
      obtain ⟨sameRight, afterRight⟩ :=
        rightIh afterLeft (fun bound => (named bound).2) grows renumberedGrows
      exact ⟨congrArg₂ (Formula.binary connective) sameLeft sameRight, afterRight⟩
  | quantified quantifier name body ih =>
      obtain ⟨sameVariable, nextVariables⟩ := renumbers.nextVariables.addVariable name name
      have inside : Renumbers ρ
          { state with signature := (state.signature.addVariable name).2 }
          { other with signature := (other.signature.addVariable name).2 } :=
        ⟨nextVariables, renumbers.free⟩
      have bodyNamed : SurfaceFormula.IsNamed body :=
        (show Formula.EveryAtom _ [name] body from named []).anyBound
      have sameBound : (name, (other.signature.addVariable name).1) :: renumberEntries ρ bound =
          renumberEntries ρ ((name, (state.signature.addVariable name).1) :: bound) := by
        rw [sameVariable]
        rfl
      simp only [lowerFormula, sameBound] at grows renumberedGrows ⊢
      obtain ⟨sameBody, after⟩ := ih inside bodyNamed grows renumberedGrows
      refine ⟨?_, after⟩
      rw [sameBody, sameVariable]
      rfl

end

end Lowering

theorem Lowered.close_renumber (formula : Formula Variable Atom) (free : List (String × Variable)) :
    Lowered.close ⟨renumberFormula ρ formula, Lowering.renumberEntries ρ free⟩ =
      renumberFormula ρ (Lowered.close ⟨formula, free⟩) := by
  induction free with
  | nil => rfl
  | cons entry rest ih => exact congrArg (Formula.quantified .universal _) ih

section

variable {formula : SurfaceFormula} (named : formula.IsNamed)
  (nextVariables : signature.VariablesInStep ρ renumbered)
  (keeps : (formula.lower signature).2.KeepsNames ρ (formula.lower renumbered).2)
  (proper : (formula.lower renumbered).2.IsProper)

include named nextVariables keeps proper

/-- A written formula is lowered alike over two signatures, with its free variables. -/
theorem SurfaceFormula.lower_eq_renumber :
    (formula.lower renumbered).1 =
        ⟨renumberFormula ρ (formula.lower signature).1.formula,
          Lowering.renumberEntries ρ (formula.lower signature).1.free⟩ ∧
      (formula.lower signature).2.VariablesInStep ρ (formula.lower renumbered).2 := by
  have start : Lowering.Renumbers ρ ⟨signature, []⟩ ⟨renumbered, []⟩ := ⟨nextVariables, rfl⟩
  obtain ⟨sameFormula, after⟩ :=
    @Lowering.lowerFormula_renumber ρ _ _ [] _ _ keeps proper start formula named (.refl _)
      (.refl _)
  exact ⟨congrArg₂ Lowered.mk sameFormula after.free, after.nextVariables⟩

/-- The closure of a written formula is lowered alike over two signatures. -/
theorem SurfaceFormula.lower_renumber :
    (formula.lower renumbered).1.close = renumberFormula ρ (formula.lower signature).1.close ∧
      (formula.lower signature).2.VariablesInStep ρ (formula.lower renumbered).2 := by
  obtain ⟨sameLowered, after⟩ :=
    SurfaceFormula.lower_eq_renumber named nextVariables keeps proper
  refine ⟨?_, after⟩
  rw [sameLowered]
  exact Lowered.close_renumber _ _

end

end Entailment.FirstOrder
