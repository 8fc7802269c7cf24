import Entailment.Proofs.FirstOrder.LoweringMeaning

/-!
# Lowering respects scoping

One name may be free in a formula, bound by several quantifiers, shadowed inside itself
and free again later.  Lowering lists the free names of a formula in the order of their
first occurrence.  Every quantifier and every free name gets a variable of its own, and
these are exactly the variables that are added to the signature.

A structure may interpret a name differently for every number of arguments.  The lowered
formula, over the symbols, is then true in the same cases as the written one.  This holds
over every signature and for names of every kind.
-/

namespace Entailment

/-- The binders of a formula from left to right, one for every quantifier. -/
def Formula.binders {β α : Type} : Formula β α → List β
  | truth _ => []
  | atom _ => []
  | not body => body.binders
  | binary _ left right => left.binders ++ right.binders
  | quantified _ binder body => binder :: body.binders

namespace FirstOrder

universe u

variable {D : Type u}

/-- The variables of a lowered formula: one for every quantifier, and the free ones. -/
def Lowered.vars (lowered : Lowered) : List Variable :=
  lowered.formula.binders ++ lowered.freeVariables

/-! ## The variables of a signature -/

namespace Signature

/-- The variables of a signature with their names. -/
def entries (signature : Signature) : List (String × Variable) :=
  signature.vars.toList.zipIdx.map (Prod.map id Variable.mk)

theorem entries_addVariable (name : String) (signature : Signature) :
    (signature.addVariable name).2.entries =
      signature.entries ++ [(name, (signature.addVariable name).1)] := by
  simp [entries, addVariable, List.zipIdx_append]

theorem map_snd_entries (signature : Signature) :
    signature.entries.map Prod.snd = (List.range signature.vars.size).map Variable.mk := by
  have places : signature.vars.toList.zipIdx.map Prod.snd = List.range signature.vars.size := by
    rw [List.zipIdx_map_snd, List.range_eq_range', Array.length_toList]
  rw [← places, entries, List.map_map, List.map_map]
  rfl

theorem mem_map_snd_entries {signature : Signature} {v : Variable} :
    v ∈ signature.entries.map Prod.snd ↔ v.index < signature.vars.size := by
  rw [map_snd_entries, List.mem_map]
  constructor
  · rintro ⟨index, mem, rfl⟩
    exact List.mem_range.mp mem
  · exact fun bound => ⟨v.index, List.mem_range.mpr bound, rfl⟩

theorem nodup_map_snd_entries (signature : Signature) :
    (signature.entries.map Prod.snd).Nodup := by
  rw [map_snd_entries]
  exact List.nodup_range.map fun _ _ same => congrArg Variable.index same

theorem variableName_of_mem_entries {signature : Signature} {name : String} {v : Variable}
    (mem : (name, v) ∈ signature.entries) : signature.variableName v = name := by
  obtain ⟨⟨other, index⟩, entryMem, same⟩ := List.mem_map.mp mem
  cases same
  have found := List.mem_zipIdx_iff_getElem?.mp entryMem
  rw [Array.getElem?_toList] at found
  simp [variableName, found]

end Signature

/-! ## What lowering adds -/

namespace Lowering

/-- The names that no quantifier around them binds. -/
def outside (bound : List (String × Variable)) (names : List String) : List String :=
  names.filter fun name => (find? name bound).isNone

@[simp]
theorem outside_append (bound : List (String × Variable)) (left right : List String) :
    outside bound (left ++ right) = outside bound left ++ outside bound right :=
  List.filter_append ..

theorem outside_nil (names : List String) : outside [] names = names := by
  simp [outside, find?]

/-- What is not bound inside a quantifier is free there and has another name. -/
theorem outside_cons (name : String) (v : Variable) (bound : List (String × Variable))
    (names : List String) :
    outside ((name, v) :: bound) names =
      outside bound (names.filter fun other => decide (other ≠ name)) := by
  rw [outside, outside, List.filter_filter]
  refine List.filter_congr fun other _ => ?_
  by_cases same : name = other
  · simp [find?, same]
  · simp [find?, same, Ne.symm same]

theorem find?_eq_none_iff {name : String} {entries : List (String × Variable)} :
    find? name entries = none ↔ name ∉ entries.map Prod.fst := by
  induction entries with
  | nil => simp [find?]
  | cons entry rest ih =>
      obtain ⟨other, v⟩ := entry
      rw [find?]
      split
      · rename_i same
        simp [same]
      · rename_i different
        simp [ih, Ne.symm different]

/-- Lowering goes from one state to another over some free occurrences of names and some
quantifiers, given with the variables they get. -/
structure Scopes (occurrences : List String) (quantified : List (String × Variable))
    (before after : Lowering) : Prop where
  /-- Each free name is listed where it first occurs. -/
  names : ∀ seen, before.free.map Prod.fst = seen.eraseDups →
    after.free.map Prod.fst = (seen ++ occurrences).eraseDups
  /-- The variables that come in are those of the quantifiers and the new free ones. -/
  created : ∃ added, after.free = before.free ++ added ∧
    (before.signature.entries ++ (quantified ++ added)).Perm after.signature.entries

/-- Symbols may come in without a change to the variables. -/
theorem Scopes.symbols {state : Lowering} {signature : Signature}
    (same : signature.vars = state.signature.vars) :
    Scopes [] [] state { state with signature := signature } where
  names seen listed := by rw [listed, List.append_nil]
  created := ⟨[], by simp, by simp [Signature.entries, same]⟩

theorem Scopes.refl (state : Lowering) : Scopes [] [] state state :=
  .symbols rfl

theorem Scopes.trans {first second third : Lowering} {names others : List String}
    {quantified more : List (String × Variable)} (left : Scopes names quantified first second)
    (right : Scopes others more second third) :
    Scopes (names ++ others) (quantified ++ more) first third where
  names seen listed := by
    rw [← List.append_assoc]
    exact right.names _ (left.names seen listed)
  created := by
    obtain ⟨added, addedEq, addedPerm⟩ := left.created
    obtain ⟨next, nextEq, nextPerm⟩ := right.created
    refine ⟨added ++ next, by rw [nextEq, addedEq, List.append_assoc], ?_⟩
    calc first.signature.entries ++ ((quantified ++ more) ++ (added ++ next))
      _ = (first.signature.entries ++ quantified) ++ (more ++ (added ++ next)) := by
          simp only [List.append_assoc]
      _ |>.Perm ((first.signature.entries ++ quantified) ++ (added ++ (more ++ next))) :=
          (List.perm_append_comm_assoc more added next).append_left _
      _ = (first.signature.entries ++ (quantified ++ added)) ++ (more ++ next) := by
          simp only [List.append_assoc]
      _ |>.Perm (second.signature.entries ++ (more ++ next)) := addedPerm.append_right _
      _ |>.Perm third.signature.entries := nextPerm

theorem Scopes.lowerVariable (bound : List (String × Variable)) (name : String)
    (state : Lowering) :
    Scopes (outside bound [name]) [] state (lowerVariable bound name state).2 := by
  unfold Lowering.lowerVariable
  cases isBound : find? name bound with
  | some v =>
      have none : outside bound [name] = [] := by simp [outside, isBound]
      rw [none]
      exact .refl state
  | none =>
      have one : outside bound [name] = [name] := by simp [outside, isBound]
      rw [one]
      cases isFree : find? name state.free with
      | some v =>
          refine ⟨fun seen listed => ?_, (Scopes.refl state).created⟩
          have known : name ∈ seen := by
            rw [← List.mem_eraseDups, ← listed]
            exact List.mem_map_of_mem (mem_of_find? isFree)
          rw [listed, List.eraseDups_append]
          simp [List.removeAll, known]
      | none =>
          refine ⟨fun seen listed => ?_, [(name, (state.signature.addVariable name).1)], rfl, ?_⟩
          · have fresh : name ∉ seen := by
              rw [← List.mem_eraseDups, ← listed]
              exact find?_eq_none_iff.mp isFree
            rw [List.eraseDups_append]
            simp [List.removeAll, fresh, listed, List.eraseDups_cons]
          · rw [Signature.entries_addVariable]
            exact .refl _

mutual

theorem Scopes.lowerTerm (bound : List (String × Variable)) :
    (t : SurfaceTerm) → (state : Lowering) →
      Scopes (outside bound t.vars) [] state (lowerTerm bound t state).2
  | .var name, state => .lowerVariable bound name state
  | .app name args, state => by
      have after := (Scopes.lowerTerms bound args state).trans
        (.symbols (Signature.vars_internFunction name
          (Lowering.lowerTerms bound args state).1.length _))
      rw [List.append_nil] at after
      rw [SurfaceTerm.vars_app]
      exact after

theorem Scopes.lowerTerms (bound : List (String × Variable)) :
    (args : List SurfaceTerm) → (state : Lowering) →
      Scopes (outside bound (args.flatMap SurfaceTerm.vars)) [] state
        (lowerTerms bound args state).2
  | [], state => .refl state
  | t :: ts, state => by
      rw [List.flatMap_cons, outside_append]
      exact (Scopes.lowerTerm bound t state).trans (Scopes.lowerTerms bound ts _)

end

theorem Scopes.lowerPredicate (bound : List (String × Variable)) (name : String)
    (args : List SurfaceTerm) (state : Lowering) :
    Scopes (outside bound (args.flatMap SurfaceTerm.vars)) [] state
      (lowerPredicate bound name args state).2 := by
  have after := (Scopes.lowerTerms bound args state).trans
    (.symbols (Signature.vars_internPredicate name
      (Lowering.lowerTerms bound args state).1.length _))
  rw [List.append_nil] at after
  exact after

theorem Scopes.lowerAtom (bound : List (String × Variable)) (a : SurfaceAtom)
    (state : Lowering) :
    Scopes (outside bound a.vars) [] state (lowerAtom bound a state).2 := by
  cases a with
  | predicate name args => exact .lowerPredicate bound name args state
  | equation left right => exact .lowerPredicate bound _ [left, right] state

/-- Every quantifier of a written formula becomes one quantifier. -/
theorem length_binders_lowerFormula (bound : List (String × Variable))
    (formula : SurfaceFormula) (state : Lowering) :
    (lowerFormula bound formula state).1.binders.length = formula.binders.length := by
  induction formula generalizing bound state with
  | truth value => rfl
  | atom a => rfl
  | not body ih => exact ih bound state
  | binary connective left right leftIh rightIh =>
      simp only [lowerFormula, Formula.binders, List.length_append, leftIh, rightIh]
  | quantified quantifier name body ih =>
      simp only [lowerFormula, Formula.binders, List.length_cons, ih]

theorem Scopes.lowerFormula (bound : List (String × Variable)) (formula : SurfaceFormula)
    (state : Lowering) :
    Scopes (outside bound formula.freeOccurrences)
      (formula.binders.zip (lowerFormula bound formula state).1.binders) state
      (lowerFormula bound formula state).2 := by
  induction formula generalizing bound state with
  | truth value => exact .refl state
  | atom a => exact .lowerAtom bound a state
  | not body ih => exact ih bound state
  | binary connective left right leftIh rightIh =>
      have both := (leftIh bound state).trans (rightIh bound _)
      rw [← outside_append, ← List.zip_append (length_binders_lowerFormula ..).symm] at both
      exact both
  | quantified quantifier name body ih =>
      have inside := ih ((name, (state.signature.addVariable name).1) :: bound)
        { state with signature := (state.signature.addVariable name).2 }
      rw [outside_cons] at inside
      refine ⟨inside.names, ?_⟩
      obtain ⟨added, addedEq, addedPerm⟩ := inside.created
      refine ⟨added, addedEq, ?_⟩
      rw [Signature.entries_addVariable, List.append_assoc] at addedPerm
      exact addedPerm

end Lowering

/-! ## Names with numbers of arguments -/

/-- A structure that interprets names by the number of their arguments, as a structure for
names. -/
def Structure.forNames (N : Structure (String × Nat) (String × Nat) D) :
    Structure String String D where
  function name args := N.function (name, args.length) args
  predicate name args := N.predicate (name, args.length) args

/-- The same structure for the symbols of a signature, which are interpreted by their names
and arities. -/
def Structure.forSymbols (N : Structure (String × Nat) (String × Nat) D)
    (signature : Signature) : Model D where
  function f := N.function ((signature.functionInfo f).name, (signature.functionInfo f).arity)
  predicate p :=
    N.predicate ((signature.predicateInfo p).name, (signature.predicateInfo p).arity)

theorem Structure.forSymbols_spells (N : Structure (String × Nat) (String × Nat) D)
    (signature : Signature) :
    (N.forSymbols signature).Spells (fun _ => True) signature N.forNames where
  function f _ _ args arity := by
    simp only [forSymbols, forNames, arity]
  predicate p _ _ args arity := by
    simp only [forSymbols, forNames, arity]

/-! ## Lowered formulas -/

/-- The variables of a signature after lowering are those before, those of the quantifiers
and the free ones. -/
theorem SurfaceFormula.perm_entries_lower (written : SurfaceFormula) (signature : Signature) :
    (signature.entries ++ (written.binders.zip (written.lower signature).1.formula.binders ++
      (written.lower signature).1.free)).Perm (written.lower signature).2.entries := by
  obtain ⟨added, addedEq, addedPerm⟩ :=
    (Lowering.Scopes.lowerFormula [] written ⟨signature, []⟩).created
  have free : (written.lower signature).1.free = added := addedEq
  rw [free]
  exact addedPerm

/-- The variables of a lowered formula come in new, each once. -/
theorem SurfaceFormula.nodup_vars_lower (written : SurfaceFormula) (signature : Signature) :
    (signature.entries.map Prod.snd ++ (written.lower signature).1.vars).Nodup ∧
      ∀ v ∈ (written.lower signature).1.vars,
        v.index < (written.lower signature).2.vars.size := by
  have sameLength : (written.lower signature).1.formula.binders.length = written.binders.length :=
    Lowering.length_binders_lowerFormula [] written ⟨signature, []⟩
  have perm := (written.perm_entries_lower signature).map Prod.snd
  rw [List.map_append, List.map_append, List.map_snd_zip (Nat.le_of_eq sameLength)] at perm
  refine ⟨perm.nodup_iff.mpr (Signature.nodup_map_snd_entries _), fun v mem => ?_⟩
  exact Signature.mem_map_snd_entries.mp (perm.mem_iff.mp (List.mem_append_right _ mem))

/-- The variable of a quantifier has the name that the quantifier was written with. -/
theorem SurfaceFormula.variableName_binders_lower (written : SurfaceFormula)
    (signature : Signature) :
    (written.lower signature).1.formula.binders.map (written.lower signature).2.variableName =
      written.binders := by
  have sameLength : (written.lower signature).1.formula.binders.length = written.binders.length :=
    Lowering.length_binders_lowerFormula [] written ⟨signature, []⟩
  have named : ∀ entry ∈ written.binders.zip (written.lower signature).1.formula.binders,
      (written.lower signature).2.variableName entry.2 = entry.1 := fun entry mem =>
    Signature.variableName_of_mem_entries ((written.perm_entries_lower signature).mem_iff.mp
      (List.mem_append_right _ (List.mem_append_left _ mem)))
  calc (written.lower signature).1.formula.binders.map (written.lower signature).2.variableName
    _ = ((written.binders.zip (written.lower signature).1.formula.binders).map Prod.snd).map
          (written.lower signature).2.variableName := by
        rw [List.map_snd_zip (Nat.le_of_eq sameLength)]
    _ = (written.binders.zip (written.lower signature).1.formula.binders).map Prod.fst := by
        rw [List.map_map]
        exact List.map_congr_left named
    _ = written.binders := List.map_fst_zip (Nat.le_of_eq sameLength.symm)

/-- Lowering respects scoping.  The free names are listed once each, in the order of their
first occurrence.  Every quantifier and every free name has a new variable of its own, and
each variable of an atom belongs to a quantifier around it or to a free name.  Under
valuations that agree on the free names the two formulas are true in the same cases. -/
theorem SurfaceFormula.lower_respects_scoping (written : SurfaceFormula) (signature : Signature)
    (N : Structure (String × Nat) (String × Nat) D) (ρ : String → D) (τ : Variable → D) :
    let lowered := (written.lower signature).1
    let extended := (written.lower signature).2
    lowered.free.map Prod.fst = written.freeNames ∧
      lowered.formula.binders.map extended.variableName = written.binders ∧
      lowered.vars.Nodup ∧
      (∀ v ∈ lowered.vars, signature.vars.size ≤ v.index ∧ v.index < extended.vars.size) ∧
      lowered.formula.EveryAtom (Atom.IsScoped extended lowered.freeVariables) [] ∧
      ((∀ entry ∈ lowered.free, τ entry.2 = ρ entry.1) →
        (formulaHolds (N.forSymbols extended) τ lowered.formula ↔ written.Holds N.forNames ρ)) := by
  have lowers : Lowering.LowersFormula.{u} (fun _ => True) [] ⟨signature, []⟩ written
      (written.lower signature).1.formula
      ⟨(written.lower signature).2, (written.lower signature).1.free⟩ :=
    Lowering.lowerFormula_spec.{u} (by simp [Lowering.BoundOver]) ⟨by simp, by simp⟩
      fun _ _ _ _ => trivial
  obtain ⟨nodup, bounded⟩ := written.nodup_vars_lower signature
  obtain ⟨-, distinct, apart⟩ := List.nodup_append.mp nodup
  refine ⟨?_, written.variableName_binders_lower signature, distinct, fun v mem => ⟨?_, ?_⟩,
    ?_, fun agree => ?_⟩
  · have names := (Lowering.Scopes.lowerFormula [] written ⟨signature, []⟩).names [] rfl
    rw [Lowering.outside_nil] at names
    exact names
  · refine Nat.le_of_not_lt fun old => ?_
    exact apart v (Signature.mem_map_snd_entries.mpr old) v mem rfl
  · exact bounded v mem
  · exact lowers.atoms.imp fun _ _ written => written.1
  · exact lowers.holds N.forNames _ (N.forSymbols_spells _) ρ τ (Lowering.agree_of_forall agree)

/-- `p(?x) ^ (!E ?x ~p(?x) ^ p(?x))`, where `p` is true of one element only: the name `x` is
free, then bound, then free again. -/
theorem SurfaceFormula.lower_respects_scoping_shadowed :
    let N : Structure (String × Nat) (String × Nat) Bool :=
      ⟨fun _ _ => false, fun _ args => args = [true]⟩
    let isP : SurfaceFormula := .atom (.predicate "p" [.var "x"])
    let written : SurfaceFormula :=
      .binary .and isP (.binary .and (.quantified .existential "x" (.not isP)) isP)
    let known := (Signature.empty.addVariable "x").2
    (written.lower known).1.free = [("x", ⟨1⟩)] ∧
      formulaHolds (N.forSymbols (written.lower known).2) (fun v => v == ⟨1⟩)
        (written.lower known).1.formula := by
  intro N isP written known
  have free : (written.lower known).1.free = [("x", ⟨1⟩)] := by decide
  have respects := written.lower_respects_scoping known N (fun _ => true) fun v => v == ⟨1⟩
  refine ⟨free, (respects.2.2.2.2.2 ?_).mpr ⟨rfl, ⟨false, ?_⟩, rfl⟩⟩
  · rw [free]
    decide
  · exact fun isTrue => Bool.false_ne_true (List.cons.inj isTrue).1

end FirstOrder

end Entailment
