import Entailment.Proofs.FirstOrder.Naming
import Entailment.Proofs.FirstOrder.SurfaceNames
import Mathlib.Data.List.Nodup

/-!
# Lowering keeps the meaning of a formula

A written formula and the formula it is lowered to are true in the same cases,
in a structure for names and in a model that reads it, under valuations that give
a name and its variable the same value.  Shadowing needs no care: a quantifier
gets a variable that is new, so neither a variable around it nor a free variable
met later is taken for its own.

For this it is enough that the model interprets the symbols with the names of the
formula as the structure does, on as many arguments as the symbols take.
-/

namespace Entailment.FirstOrder

universe u

variable {D : Type u} {signature : Signature} {M : Model D} {N : Structure String String D}

/-! ## Names and what they are read as -/

namespace SurfaceTerm

theorem IsNamed.isPlain {t : SurfaceTerm} (named : t.IsNamed) :
    ∀ name ∈ t.symbols, IsPlain name := by
  induction named with
  | var name => simp [symbols, gather]
  | app isName _ ih =>
      rw [symbols_app, List.forall_mem_cons, List.forall_mem_flatMap]
      exact ⟨isName.isPlain, ih⟩

end SurfaceTerm

theorem SurfaceAtom.IsNamed.isPlain {a : SurfaceAtom} (named : a.IsNamed) :
    ∀ name ∈ a.symbols, IsPlain name := by
  cases a with
  | predicate name args =>
      rw [symbols, List.forall_mem_cons, List.forall_mem_flatMap]
      exact ⟨named.1.isPlain, fun t mem => (named.2 t mem).isPlain⟩
  | equation left right =>
      rw [symbols, List.forall_mem_cons, List.forall_mem_flatMap]
      simpa using ⟨isPlain_equality, named.1.isPlain, named.2.isPlain⟩

/-- A model that interprets the symbols whose names have a property as a structure for
names does, on as many arguments as the symbols take. -/
structure Structure.Spells (readable : String → Prop) (signature : Signature) (M : Model D)
    (N : Structure String String D) : Prop where
  function : ∀ f : FunctionSymbol, f.index < signature.functions.size →
    readable (signature.functionInfo f).name → ∀ args : List D,
      args.length = (signature.functionInfo f).arity →
        M.function f args = N.function (signature.functionInfo f).name args
  predicate : ∀ p : PredicateSymbol, p.index < signature.predicates.size →
    readable (signature.predicateInfo p).name → ∀ args : List D,
      args.length = (signature.predicateInfo p).arity →
        (M.predicate p args ↔ N.predicate (signature.predicateInfo p).name args)

theorem Structure.Reads.spells (reads : M.Reads signature N) :
    M.Spells IsPlain signature N where
  function f bound plain args _ := by rw [reads.function f bound plain]
  predicate p bound plain args _ := by rw [reads.predicate p bound plain]

variable {readable : String → Prop}

theorem Structure.Spells.of_growsTo {extended : Signature} (spells : M.Spells readable extended N)
    (grows : signature.GrowsTo extended) : M.Spells readable signature N where
  function f bound good args := by
    rw [← grows.functionInfo bound] at good ⊢
    exact spells.function f (Nat.lt_of_lt_of_le bound grows.functionsSize) good args
  predicate p bound good args := by
    rw [← grows.predicateInfo bound] at good ⊢
    exact spells.predicate p (Nat.lt_of_lt_of_le bound grows.predicatesSize) good args

theorem Structure.Spells.function_eq (spells : M.Spells readable signature N) {f : FunctionSymbol}
    (bound : f.index < signature.functions.size) {name : String}
    (named : (signature.functionInfo f).name = name) (good : readable name) {args : List D}
    (arity : (signature.functionInfo f).arity = args.length) :
    M.function f args = N.function name args := by
  subst named
  exact spells.function f bound good args arity.symm

theorem Structure.Spells.predicate_iff (spells : M.Spells readable signature N)
    {p : PredicateSymbol} (bound : p.index < signature.predicates.size) {name : String}
    {args : List D} (info : signature.predicateInfo p = ⟨name, args.length⟩)
    (good : readable name) : M.predicate p args ↔ N.predicate name args := by
  have interpreted := spells.predicate p bound
  rw [info] at interpreted
  exact interpreted good args rfl

/-! ## Atoms in scope -/

/-- An atom over a signature, in a formula with some free variables and below some
binders: each of its variables is one of them. -/
structure Atom.IsScoped (signature : Signature) (free binders : List Variable) (a : Atom) :
    Prop where
  isOver : a.IsOver signature
  inScope : ∀ t ∈ a.args, ∀ v ∈ t.vars, v ∈ binders ∨ v ∈ free

/-- A scoped atom whose predicate has a plain name. -/
structure Atom.IsWritten (signature : Signature) (free binders : List Variable) (a : Atom) :
    Prop extends Atom.IsScoped signature free binders a where
  plain : IsPlain (signature.predicateInfo a.predicate).name

namespace Lowering

variable {bound entries free : List (String × Variable)} {name : String} {state : Lowering}
    {v : Variable} {signature : Signature}

/-! ## Looking variables up -/

theorem mem_of_find? (found : find? name entries = some v) : (name, v) ∈ entries := by
  induction entries with
  | nil => cases found
  | cons entry rest ih =>
      obtain ⟨other, w⟩ := entry
      unfold find? at found
      split at found
      · rename_i same
        cases found
        simp [same]
      · exact List.mem_cons_of_mem _ (ih found)

theorem find?_append_of_some (found : find? name entries = some v)
    (added : List (String × Variable)) : find? name (entries ++ added) = some v := by
  induction entries with
  | nil => cases found
  | cons entry rest ih =>
      obtain ⟨other, w⟩ := entry
      unfold find? at found
      rw [List.cons_append, find?]
      split at found
      · rename_i same
        rw [if_pos same, found]
      · rename_i different
        rw [if_neg different, ih found]

theorem find?_append_self (absent : find? name entries = none) (v : Variable) :
    find? name (entries ++ [(name, v)]) = some v := by
  induction entries with
  | nil => simp [find?]
  | cons entry rest ih =>
      obtain ⟨other, w⟩ := entry
      unfold find? at absent
      rw [List.cons_append, find?]
      split at absent
      · cases absent
      · rename_i different
        rw [if_neg different, ih absent]

/-- The variable that a name means, if it has one. -/
def lookUp? (bound free : List (String × Variable)) (name : String) : Option Variable :=
  (find? name bound).or (find? name free)

theorem mem_of_lookUp? (found : lookUp? bound free name = some v) :
    v ∈ bound.map Prod.snd ∨ v ∈ free.map Prod.snd := by
  rcases Option.or_eq_some_iff.mp found with isBound | ⟨-, isFree⟩
  · exact .inl (List.mem_map_of_mem (mem_of_find? isBound))
  · exact .inr (List.mem_map_of_mem (mem_of_find? isFree))

/-- Two valuations that give a name and its variable the same value. -/
def Agree (bound free : List (String × Variable)) (ρ : String → D) (τ : Variable → D) : Prop :=
  ∀ name v, lookUp? bound free name = some v → τ v = ρ name

theorem Agree.of_append {added : List (String × Variable)} {ρ : String → D} {τ : Variable → D}
    (agree : Agree bound (free ++ added) ρ τ) : Agree bound free ρ τ := by
  intro name v found
  refine agree name v ?_
  unfold lookUp? at found ⊢
  rcases Option.or_eq_some_iff.mp found with isBound | ⟨notBound, isFree⟩
  · rw [isBound, Option.some_or]
  · rw [notBound, Option.none_or, find?_append_of_some isFree]

/-- Valuations that agree still do inside a quantifier whose variable is not
taken. -/
theorem Agree.update {ρ : String → D} {τ : Variable → D} (agree : Agree bound free ρ τ)
    (notBound : v ∉ bound.map Prod.snd) (notFree : v ∉ free.map Prod.snd) (d : D) :
    Agree ((name, v) :: bound) free (Function.update ρ name d) (Function.update τ v d) := by
  intro other w found
  rw [lookUp?, find?] at found
  split at found
  · rename_i same
    rw [Option.some_or, Option.some.injEq] at found
    rw [← found, ← same, Function.update_self, Function.update_self]
  · rename_i different
    have taken := mem_of_lookUp? found
    have notIt : w ≠ v := by
      rintro rfl
      exact taken.elim notBound notFree
    rw [Function.update_of_ne notIt, Function.update_of_ne (Ne.symm different)]
    exact agree other w found

/-! ## What lowering does to its state -/

/-- The free variables of a state are different variables of its signature. -/
structure IsSound (state : Lowering) : Prop where
  isOver : ∀ entry ∈ state.free, entry.2.index < state.signature.vars.size
  nodup : (state.free.map Prod.snd).Nodup

/-- Lowering goes from one state to another: symbols and variables are added, and
the free variables that are added are new. -/
structure Extends (before after : Lowering) : Prop where
  gains : before.signature.GainsSymbols (fun _ => True) after.signature
  free : ∃ added, after.free = before.free ++ added ∧
    ∀ entry ∈ added, before.signature.vars.size ≤ entry.2.index

theorem Extends.refl (state : Lowering) : state.Extends state :=
  ⟨.refl _, [], by simp, by simp⟩

theorem Extends.trans {first second third : Lowering} (left : first.Extends second)
    (right : second.Extends third) : first.Extends third := by
  obtain ⟨added, addedEq, addedNew⟩ := left.free
  obtain ⟨more, moreEq, moreNew⟩ := right.free
  refine ⟨left.gains.trans right.gains, added ++ more,
    by rw [moreEq, addedEq, List.append_assoc], ?_⟩
  intro entry mem
  rcases List.mem_append.mp mem with mem | mem
  · exact addedNew entry mem
  · exact Nat.le_trans left.gains.grows.varsSize (moreNew entry mem)

theorem Extends.agree {before after : Lowering} (extension : before.Extends after)
    {bound : List (String × Variable)} {ρ : String → D} {τ : Variable → D}
    (agree : Agree bound after.free ρ τ) : Agree bound before.free ρ τ := by
  obtain ⟨added, addedEq, -⟩ := extension.free
  rw [addedEq] at agree
  exact agree.of_append

theorem Extends.mem_free {before after : Lowering} (extension : before.Extends after)
    (mem : v ∈ before.free.map Prod.snd) : v ∈ after.free.map Prod.snd := by
  obtain ⟨added, addedEq, -⟩ := extension.free
  rw [addedEq, List.map_append]
  exact List.mem_append_left _ mem

/-- A change of the signature alone. -/
theorem extends_of_gains (gains : state.signature.GainsSymbols (fun _ => True) signature) :
    state.Extends { state with signature := signature } :=
  ⟨gains, [], by simp, by simp⟩

theorem IsSound.of_gains (sound : state.IsSound)
    (gains : state.signature.GainsSymbols (fun _ => True) signature) :
    IsSound { state with signature := signature } :=
  ⟨fun entry mem => Nat.lt_of_lt_of_le (sound.isOver entry mem) gains.grows.varsSize, sound.nodup⟩

/-- The variables around a place are variables of a signature. -/
def BoundOver (bound : List (String × Variable)) (signature : Signature) : Prop :=
  ∀ entry ∈ bound, entry.2.index < signature.vars.size

theorem BoundOver.mono {extended : Signature} (isOver : BoundOver bound signature)
    (grows : signature.GrowsTo extended) : BoundOver bound extended :=
  fun entry mem => Nat.lt_of_lt_of_le (isOver entry mem) grows.varsSize

theorem lowerVariable_spec (name : String) (boundOver : BoundOver bound state.signature)
    (sound : state.IsSound) :
    state.Extends (lowerVariable bound name state).2 ∧ (lowerVariable bound name state).2.IsSound ∧
      (lowerVariable bound name state).1.index <
        (lowerVariable bound name state).2.signature.vars.size ∧
      lookUp? bound (lowerVariable bound name state).2.free name =
        some (lowerVariable bound name state).1 := by
  unfold lowerVariable
  cases isBound : find? name bound with
  | some v =>
      exact ⟨.refl _, sound, boundOver _ (mem_of_find? isBound), by simp [lookUp?, isBound]⟩
  | none =>
      cases isFree : find? name state.free with
      | some v =>
          exact ⟨.refl _, sound, sound.isOver _ (mem_of_find? isFree),
            by simp [lookUp?, isBound, isFree]⟩
      | none =>
          have gains : state.signature.GainsSymbols (fun _ => True) _ :=
            Signature.gainsSymbols_addVariable name state.signature
          refine ⟨⟨gains, [(name, ⟨state.signature.vars.size⟩)], rfl, ?_⟩, ⟨?_, ?_⟩, ?_, ?_⟩
          · simp
          · intro entry mem
            rcases List.mem_append.mp mem with mem | mem
            · exact Nat.lt_of_lt_of_le (sound.isOver entry mem) gains.grows.varsSize
            · rw [List.mem_singleton.mp mem]
              simp [Signature.addVariable]
          · simp only [List.map_append, List.map_cons, List.map_nil]
            refine List.nodup_append.mpr ⟨sound.nodup, by simp, ?_⟩
            rintro v old w isNew rfl
            obtain ⟨entry, mem, rfl⟩ := List.mem_map.mp old
            have bound := sound.isOver entry mem
            rw [List.mem_singleton.mp isNew] at bound
            exact Nat.lt_irrefl _ bound
          · simp [Signature.addVariable]
          · simp only [lookUp?, isBound, Option.none_or]
            exact find?_append_self isFree _

/-! ## What lowering keeps -/

/-- A property of signatures that is kept by every symbol that lowering adds. -/
structure Keeps (invariant : Signature → Prop) : Prop where
  addVariable : ∀ {signature} name, invariant signature → invariant (signature.addVariable name).2
  internFunction : ∀ {signature name} arity, IsName name → invariant signature →
    invariant (signature.internFunction name arity).2
  internPredicate : ∀ {signature} name arity, invariant signature →
    invariant (signature.internPredicate name arity).2

namespace Keeps

variable {invariant : Signature → Prop} {bound : List (String × Variable)} {state : Lowering}

theorem lowerVariable (keeps : Keeps invariant) (start : invariant state.signature)
    (name : String) : invariant (lowerVariable bound name state).2.signature := by
  unfold Lowering.lowerVariable
  split
  · exact start
  · split
    · exact start
    · exact keeps.addVariable name start

mutual

theorem lowerTerm (keeps : Keeps invariant) (state : Lowering) (start : invariant state.signature) :
    (t : SurfaceTerm) → t.IsNamed → invariant (lowerTerm bound t state).2.signature
  | .var name, _ => keeps.lowerVariable start name
  | .app _ args, .app isName named =>
      keeps.internFunction _ isName (keeps.lowerTerms state start args named)

theorem lowerTerms (keeps : Keeps invariant) (state : Lowering)
    (start : invariant state.signature) :
    (args : List SurfaceTerm) → (∀ t ∈ args, t.IsNamed) →
      invariant (lowerTerms bound args state).2.signature
  | [], _ => start
  | t :: ts, named =>
      keeps.lowerTerms _ (keeps.lowerTerm state start t (named t (List.mem_cons_self ..))) ts
        fun other mem => named other (List.mem_cons_of_mem t mem)

end

theorem lowerAtom (keeps : Keeps invariant) (start : invariant state.signature) {a : SurfaceAtom}
    (named : a.IsNamed) : invariant (lowerAtom bound a state).2.signature := by
  cases a with
  | predicate name args =>
      exact keeps.internPredicate _ _ (keeps.lowerTerms state start args named.2)
  | equation left right =>
      obtain ⟨leftNamed, rightNamed⟩ := named
      exact keeps.internPredicate _ _
        (keeps.lowerTerms state start [left, right] (by simp [leftNamed, rightNamed]))

theorem lowerFormula (keeps : Keeps invariant) {formula : SurfaceFormula}
    (start : invariant state.signature) {binders : List String}
    (named : formula.EveryAtom (fun _ a => SurfaceAtom.IsNamed a) binders) :
    invariant (lowerFormula bound formula state).2.signature := by
  induction formula generalizing bound state binders with
  | truth value => exact start
  | atom a => exact keeps.lowerAtom start named
  | not body ih => exact ih start named
  | binary connective left right leftIh rightIh => exact rightIh (leftIh start named.1) named.2
  | quantified quantifier name body ih => exact ih (keeps.addVariable name start) named

end Keeps

/-- Lowering only adds to a signature. -/
theorem keeps_growsTo (signature : Signature) : Keeps signature.GrowsTo where
  addVariable _ grows := grows.trans (Signature.growsTo_addVariable ..)
  internFunction _ _ grows := grows.trans (Signature.growsTo_internFunction ..)
  internPredicate _ _ grows := grows.trans (Signature.growsTo_internPredicate ..)

/-! ## Terms -/

/-- What is known of some terms that written terms were lowered to. -/
structure LowersTerms (readable : String → Prop) (bound : List (String × Variable))
    (before : Lowering) (written : List SurfaceTerm) (terms : List Term) (after : Lowering) :
    Prop where
  extension : before.Extends after
  sound : after.IsSound
  isOver : ∀ t ∈ terms, t.IsOver after.signature
  inScope : ∀ t ∈ terms, ∀ v ∈ t.vars, v ∈ bound.map Prod.snd ∨ v ∈ after.free.map Prod.snd
  value : ∀ ⦃D : Type u⦄ (N : Structure String String D) (M : Model D),
    M.Spells readable after.signature N → ∀ ρ τ, Agree bound after.free ρ τ →
      terms.map (Term.value M τ) = SurfaceTerm.values N ρ written

mutual

theorem lowerTerm_spec (bound : List (String × Variable)) (state : Lowering)
    (boundOver : BoundOver bound state.signature) (sound : state.IsSound) :
    (t : SurfaceTerm) → (∀ name ∈ t.symbols, readable name) →
      LowersTerms.{u} readable bound state [t] [(lowerTerm bound t state).1]
        (lowerTerm bound t state).2
  | .var name, _ => by
      obtain ⟨extension, afterSound, isOver, found⟩ := lowerVariable_spec name boundOver sound
      refine ⟨extension, afterSound, ?_, ?_, fun D N M spells ρ τ agree => ?_⟩
      · simpa [lowerTerm] using isOver
      · simpa [lowerTerm] using mem_of_lookUp? found
      · simpa [lowerTerm, SurfaceTerm.values, SurfaceTerm.value] using agree name _ found
  | .app name args, good => by
      rw [SurfaceTerm.symbols_app] at good
      obtain ⟨goodName, goodArgs⟩ := List.forall_mem_cons.mp good
      obtain ⟨extension, afterSound, isOver, inScope, value⟩ :=
        lowerTerms_spec bound state boundOver sound args goodArgs
      obtain ⟨gains, bounded, sameName, sameArity⟩ :=
        @Signature.internFunction_spec (fun _ => True) name
          (lowerTerms bound args state).1.length (lowerTerms bound args state).2.signature trivial
      refine ⟨extension.trans (extends_of_gains gains), afterSound.of_gains gains, ?_, ?_,
        fun D N M spells ρ τ agree => ?_⟩
      · intro t mem
        rw [List.mem_singleton.mp mem]
        exact .app bounded sameArity.symm fun s sMem => (isOver s sMem).mono gains.grows
      · intro t mem v vMem
        rw [List.mem_singleton.mp mem] at vMem
        simp only [lowerTerm, Term.vars_app, List.mem_flatMap] at vMem
        obtain ⟨s, sMem, vMem⟩ := vMem
        exact inScope s sMem v vMem
      · have values := value N M (spells.of_growsTo gains.grows) ρ τ agree
        have sameLength := congrArg List.length values
        rw [List.length_map] at sameLength
        have interpreted := spells.function_eq bounded sameName goodName
          (sameArity.trans sameLength)
        simp only [lowerTerm, List.map_cons, List.map_nil, Term.value_app, SurfaceTerm.values,
          SurfaceTerm.value, values, interpreted]

theorem lowerTerms_spec (bound : List (String × Variable)) (state : Lowering)
    (boundOver : BoundOver bound state.signature) (sound : state.IsSound) :
    (args : List SurfaceTerm) → (∀ name ∈ args.flatMap SurfaceTerm.symbols, readable name) →
      LowersTerms.{u} readable bound state args (lowerTerms bound args state).1
        (lowerTerms bound args state).2
  | [], _ => ⟨.refl _, sound, by simp [lowerTerms], by simp [lowerTerms], fun _ _ _ _ _ _ _ => rfl⟩
  | t :: ts, good => by
      obtain ⟨firstGood, restGood⟩ := List.forall_mem_append.mp good
      have first := lowerTerm_spec bound state boundOver sound t firstGood
      have rest := lowerTerms_spec bound (lowerTerm bound t state).2
        (boundOver.mono first.extension.gains.grows) first.sound ts restGood
      refine ⟨first.extension.trans rest.extension, rest.sound, ?_, ?_,
        fun D N M spells ρ τ agree => ?_⟩
      · rw [lowerTerms, List.forall_mem_cons]
        exact ⟨(first.isOver _ (by simp)).mono rest.extension.gains.grows, rest.isOver⟩
      · rw [lowerTerms, List.forall_mem_cons]
        exact ⟨fun v mem => (first.inScope _ (by simp) v mem).imp_right rest.extension.mem_free,
          rest.inScope⟩
      · have firstValue := first.value N M (spells.of_growsTo rest.extension.gains.grows) ρ τ
          (rest.extension.agree agree)
        have restValue := rest.value N M spells ρ τ agree
        simp only [List.map_cons, List.map_nil, SurfaceTerm.values, List.cons.injEq,
          and_true] at firstValue
        simp only [lowerTerms, List.map_cons, SurfaceTerm.values, firstValue, restValue]

end

/-! ## Formulas -/

theorem lowerPredicate_spec (boundOver : BoundOver bound state.signature) (sound : state.IsSound)
    (goodName : readable name) {args : List SurfaceTerm}
    (goodArgs : ∀ name ∈ args.flatMap SurfaceTerm.symbols, readable name) :
    state.Extends (lowerPredicate bound name args state).2 ∧
      (lowerPredicate bound name args state).2.IsSound ∧
      (lowerPredicate bound name args state).1.IsScoped
        (lowerPredicate bound name args state).2.signature
        ((lowerPredicate bound name args state).2.free.map Prod.snd) (bound.map Prod.snd) ∧
      readable ((lowerPredicate bound name args state).2.signature.predicateInfo
        (lowerPredicate bound name args state).1.predicate).name ∧
      ∀ ⦃D : Type u⦄ (N : Structure String String D) (M : Model D),
        M.Spells readable (lowerPredicate bound name args state).2.signature N →
        ∀ ρ τ, Agree bound (lowerPredicate bound name args state).2.free ρ τ →
          ((lowerPredicate bound name args state).1.Holds M τ ↔
            N.predicate name (SurfaceTerm.values N ρ args)) := by
  obtain ⟨extension, afterSound, isOver, inScope, value⟩ :=
    lowerTerms_spec bound state boundOver sound args goodArgs
  obtain ⟨gains, bounded, info⟩ :=
    @Signature.internPredicate_spec (fun _ => True) name
      (lowerTerms bound args state).1.length (lowerTerms bound args state).2.signature trivial
  refine ⟨extension.trans (extends_of_gains gains), afterSound.of_gains gains,
    ⟨⟨bounded, ?_, ?_⟩, inScope⟩, ?_, fun D N M spells ρ τ agree => ?_⟩
  · exact (congrArg PredicateInfo.arity info).symm
  · exact fun t mem => (isOver t mem).mono gains.grows
  · exact (congrArg PredicateInfo.name info).symm ▸ goodName
  · have values := value N M (spells.of_growsTo gains.grows) ρ τ agree
    have sameLength := congrArg List.length values
    rw [List.length_map] at sameLength
    have sameInfo := info.trans (congrArg (PredicateInfo.mk name) sameLength)
    have interpreted := spells.predicate_iff bounded sameInfo goodName
    simp only [lowerPredicate, Atom.Holds, values, interpreted]

/-- What is known of a formula that a written formula was lowered to. -/
structure LowersFormula (readable : String → Prop) (bound : List (String × Variable))
    (before : Lowering) (written : SurfaceFormula) (formula : Formula Variable Atom)
    (after : Lowering) : Prop where
  extension : before.Extends after
  sound : after.IsSound
  atoms : formula.EveryAtom (fun binders a =>
    a.IsScoped after.signature (after.free.map Prod.snd) binders ∧
      readable (after.signature.predicateInfo a.predicate).name) (bound.map Prod.snd)
  holds : ∀ ⦃D : Type u⦄ (N : Structure String String D) (M : Model D),
    M.Spells readable after.signature N → ∀ ρ τ, Agree bound after.free ρ τ →
      (formulaHolds M τ formula ↔ written.Holds N ρ)

theorem lowerAtom_spec (boundOver : BoundOver bound state.signature) (sound : state.IsSound)
    {a : SurfaceAtom} (good : ∀ name ∈ a.symbols, readable name) :
    LowersFormula.{u} readable bound state (.atom a) (.atom (lowerAtom bound a state).1)
      (lowerAtom bound a state).2 := by
  cases a with
  | predicate name args =>
      obtain ⟨goodName, goodArgs⟩ := List.forall_mem_cons.mp good
      obtain ⟨extension, afterSound, isScoped, isReadable, holds⟩ :=
        lowerPredicate_spec.{u} boundOver sound goodName goodArgs
      exact ⟨extension, afterSound, ⟨isScoped, isReadable⟩, holds⟩
  | equation left right =>
      obtain ⟨goodName, goodArgs⟩ := List.forall_mem_cons.mp good
      obtain ⟨extension, afterSound, isScoped, isReadable, holds⟩ :=
        lowerPredicate_spec.{u} boundOver sound goodName goodArgs
      exact ⟨extension, afterSound, ⟨isScoped, isReadable⟩, holds⟩

/-- What is known of a formula stays so in a later state. -/
theorem LowersFormula.mono {before after later : Lowering} {written : SurfaceFormula}
    {formula : Formula Variable Atom}
    (lowers : LowersFormula.{u} readable bound before written formula after) (sound : later.IsSound)
    (extension : after.Extends later) :
    LowersFormula.{u} readable bound before written formula later where
  extension := lowers.extension.trans extension
  sound := sound
  atoms := lowers.atoms.imp fun binders a written => by
    obtain ⟨isScoped, good⟩ := written
    have grows := extension.gains.grows
    refine ⟨⟨isScoped.isOver.mono grows,
      fun t tMem v vMem => (isScoped.inScope t tMem v vMem).imp_right extension.mem_free⟩, ?_⟩
    rw [grows.predicateInfo isScoped.isOver.bound]
    exact good
  holds D N M spells ρ τ agree :=
    lowers.holds N M (spells.of_growsTo extension.gains.grows) ρ τ (extension.agree agree)

theorem lowerFormula_spec (boundOver : BoundOver bound state.signature) (sound : state.IsSound)
    {formula : SurfaceFormula} (good : ∀ a ∈ formula.atoms, ∀ name ∈ a.symbols, readable name) :
    LowersFormula.{u} readable bound state formula (lowerFormula bound formula state).1
      (lowerFormula bound formula state).2 := by
  induction formula generalizing bound state with
  | truth value => exact ⟨.refl _, sound, trivial, fun _ _ _ _ _ _ _ => Iff.rfl⟩
  | atom a => exact lowerAtom_spec boundOver sound (good a (List.mem_singleton.mpr rfl))
  | not body ih =>
      have lowered := ih boundOver sound good
      exact ⟨lowered.extension, lowered.sound, lowered.atoms,
        fun D N M spells ρ τ agree => not_congr (lowered.holds N M spells ρ τ agree)⟩
  | binary connective left right leftIh rightIh =>
      obtain ⟨goodLeft, goodRight⟩ := List.forall_mem_append.mp good
      have first := leftIh boundOver sound goodLeft
      have second := rightIh (boundOver.mono first.extension.gains.grows) first.sound goodRight
      have first := first.mono second.sound second.extension
      refine ⟨first.extension, second.sound, ⟨first.atoms, second.atoms⟩,
        fun D N M spells ρ τ agree => ?_⟩
      have leftIff := first.holds N M spells ρ τ agree
      have rightIff := second.holds N M spells ρ τ agree
      simp only [lowerFormula, formulaHolds, SurfaceFormula.Holds, Formula.Holds]
        at leftIff rightIff ⊢
      rw [leftIff, rightIff]
  | quantified quantifier name body ih =>
      have gains : state.signature.GainsSymbols (fun _ => True) _ :=
        Signature.gainsSymbols_addVariable name state.signature
      have size : state.signature.vars.size < (state.signature.addVariable name).2.vars.size := by
        simp [Signature.addVariable]
      have lowered := @ih ((name, (state.signature.addVariable name).1) :: bound)
        { state with signature := (state.signature.addVariable name).2 }
        (List.forall_mem_cons.mpr ⟨size, boundOver.mono gains.grows⟩) (sound.of_gains gains) good
      -- The variable of the quantifier is newer than the variables around it, and older than
      -- the free variables that its body adds.
      have notBound : (state.signature.addVariable name).1 ∉ bound.map Prod.snd := by
        intro mem
        obtain ⟨entry, entryMem, same⟩ := List.mem_map.mp mem
        have older := boundOver entry entryMem
        rw [same] at older
        exact Nat.lt_irrefl _ older
      have notFree : (state.signature.addVariable name).1 ∉
          (lowerFormula bound (.quantified quantifier name body) state).2.free.map Prod.snd := by
        obtain ⟨added, addedEq, addedNew⟩ := lowered.extension.free
        intro mem
        have mem : (state.signature.addVariable name).1 ∈ (state.free ++ added).map Prod.snd :=
          addedEq ▸ mem
        obtain ⟨entry, entryMem, same⟩ := List.mem_map.mp mem
        rcases List.mem_append.mp entryMem with old | isNew
        · have older := sound.isOver entry old
          rw [same] at older
          exact Nat.lt_irrefl _ older
        · have newer := addedNew entry isNew
          rw [same] at newer
          exact Nat.lt_irrefl _ (Nat.lt_of_lt_of_le size newer)
      exact ⟨(extends_of_gains gains).trans lowered.extension, lowered.sound, lowered.atoms,
        fun D N M spells ρ τ agree => quantifier.holds_congr fun d =>
          lowered.holds N M spells _ _ (agree.update notBound notFree d)⟩

end Lowering

/-! ## Closed formulas -/

/-- What is known of the formula that a written formula is lowered to. -/
structure Lowered.Means (signature extended : Signature) (written : SurfaceFormula)
    (lowered : Lowered) : Prop where
  gains : signature.GainsSymbols (fun _ => True) extended
  freeOver : ∀ v ∈ lowered.freeVariables, v.index < extended.vars.size
  nodup : lowered.freeVariables.Nodup
  atoms : lowered.formula.EveryAtom (Atom.IsWritten extended lowered.freeVariables) []
  holds : ∀ ⦃D : Type u⦄ (N : Structure String String D) (M : Model D), M.Reads extended N →
    ∀ ρ τ, Lowering.Agree [] lowered.free ρ τ →
      (formulaHolds M τ lowered.formula ↔ written.Holds N ρ)

theorem SurfaceFormula.lower_means (signature : Signature) {written : SurfaceFormula}
    (named : written.IsNamed) :
    Lowered.Means.{u} signature (written.lower signature).2 written
      (written.lower signature).1 := by
  have empty : Lowering.IsSound ⟨signature, []⟩ := ⟨by simp, by simp⟩
  have noBinder : Lowering.BoundOver [] signature := by simp [Lowering.BoundOver]
  have plain : ∀ a ∈ written.atoms, ∀ name ∈ a.symbols, IsPlain name :=
    fun a mem => ((named []).of_mem_atoms mem).isPlain
  have lowers := Lowering.lowerFormula_spec.{u} noBinder empty plain
  refine ⟨lowers.extension.gains, fun v mem => ?_, lowers.sound.nodup,
    lowers.atoms.imp fun _ _ written => ⟨written.1, written.2⟩,
    fun D N M reads => lowers.holds N M reads.spells⟩
  obtain ⟨entry, entryMem, rfl⟩ := List.mem_map.mp mem
  exact lowers.sound.isOver entry entryMem

/-- Every valuation of variables agrees with one of names. -/
theorem Lowering.exists_agree_of_variables (free : List (String × Variable)) (τ : Variable → D) :
    ∃ ρ, Lowering.Agree [] free ρ τ := by
  refine ⟨fun name => ((Lowering.find? name free).map τ).getD (τ ⟨0⟩), fun name v found => ?_⟩
  have isFree : Lowering.find? name free = some v := found
  simp [isFree]

/-- Every valuation of names is one of variables, when no variable has two names. -/
theorem Lowering.exists_valuation_of_names {free : List (String × Variable)}
    (nodup : (free.map Prod.snd).Nodup) (ρ : String → D) :
    ∃ τ : Variable → D, ∀ entry ∈ free, τ entry.2 = ρ entry.1 := by
  refine ⟨fun v => ρ (((free.find? fun entry => decide (entry.2 = v)).map Prod.fst).getD ""),
    fun entry mem => ?_⟩
  cases searched : free.find? fun other => decide (other.2 = entry.2) with
  | none =>
      have absent := List.find?_eq_none.mp searched entry mem
      simp at absent
  | some other =>
      have same : other.2 = entry.2 := by simpa using List.find?_some searched
      have otherMem := List.mem_of_find?_eq_some searched
      have equal : other = entry := List.inj_on_of_nodup_map nodup otherMem mem same
      simp [searched, equal]

theorem Lowering.agree_of_forall {free : List (String × Variable)} {ρ : String → D}
    {τ : Variable → D} (same : ∀ entry ∈ free, τ entry.2 = ρ entry.1) :
    Lowering.Agree [] free ρ τ :=
  fun _ _ found => same _ (Lowering.mem_of_find? found)

/-- A structure satisfies the universal closure of a written formula when a model
that reads it satisfies the lowered formula under every valuation. -/
theorem Lowered.Means.satisfiesClosure_iff {extended : Signature} {written : SurfaceFormula}
    {lowered : Lowered} (means : Lowered.Means.{u} signature extended written lowered)
    (reads : M.Reads extended N) :
    N.SatisfiesClosure written ↔ ∀ τ, formulaHolds M τ lowered.formula := by
  constructor
  · intro satisfied τ
    obtain ⟨ρ, agree⟩ := Lowering.exists_agree_of_variables lowered.free τ
    exact (means.holds N M reads ρ τ agree).mpr (satisfied ρ)
  · intro holds ρ
    obtain ⟨τ, same⟩ := Lowering.exists_valuation_of_names means.nodup ρ
    exact (means.holds N M reads ρ τ (Lowering.agree_of_forall same)).mp (holds τ)

end Entailment.FirstOrder
