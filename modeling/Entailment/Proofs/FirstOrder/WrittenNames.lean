import Entailment.Proofs.FirstOrder.AcceptedTexts
import Entailment.Proofs.Formula.Truth

/-!
# Names in written formulas

The names of functions and predicates in a formula that was read from a text are
made of letters, digits and underscores.  So none of them contains a `#`, which
keeps them apart from the names of Skolem functions and of the predicate that
collects answers.

The rules of the grammar only copy names from tokens, and each of them leaves a part
of the tokens it got.
-/

namespace Entailment.FirstOrder

variable {tokens rest : List Token}

/-- Tokens of which all words are names. -/
def AreNamed (tokens : List Token) : Prop :=
  ∀ text, .word text ∈ tokens → IsName text

theorem AreNamed.tail {token : Token} (named : AreNamed (token :: tokens)) : AreNamed tokens :=
  fun text mem => named text (List.mem_cons_of_mem _ mem)

/-- A term in which every function name is a name. -/
inductive SurfaceTerm.IsNamed : SurfaceTerm → Prop
  | var (name : String) : IsNamed (.var name)
  | app {name : String} {args : List SurfaceTerm} (isName : IsName name)
      (named : ∀ t ∈ args, IsNamed t) : IsNamed (.app name args)

/-- An atom in which every function and predicate name is a name. -/
def SurfaceAtom.IsNamed : SurfaceAtom → Prop
  | .predicate name args => IsName name ∧ ∀ t ∈ args, t.IsNamed
  | .equation left right => left.IsNamed ∧ right.IsNamed

/-- A formula in which every function and predicate name is a name. -/
def SurfaceFormula.IsNamed (formula : SurfaceFormula) : Prop :=
  ∀ bound, Formula.EveryAtom (fun _ a => SurfaceAtom.IsNamed a) bound formula

/-- The tokens of a text. -/
theorem Tokenizes.areNamed {text : List Char} (tokenizes : Tokenizes text tokens) :
    AreNamed tokens := by
  induction tokenizes with
  | nil => exact nofun
  | blank _ _ ih => exact ih
  | token leads _ ih =>
      intro text mem
      rcases List.mem_cons.mp mem with rfl | mem
      · exact leads.isProper.2
      · exact ih text mem

/-! ## Derivations -/

mutual

theorem DerivesTerm.isNamed {tokens rest : List Token} {t : SurfaceTerm}
    (derives : DerivesTerm tokens t rest) (named : AreNamed tokens) :
    t.IsNamed ∧ AreNamed rest := by
  cases derives with
  | var name => exact ⟨.var name, named.tail⟩
  | app derivesArgs =>
      obtain ⟨argsNamed, restNamed⟩ := derivesArgs.isNamed named.tail
      exact ⟨.app (named _ (List.mem_cons_self ..)) argsNamed, restNamed⟩

theorem DerivesArgs.isNamed {tokens rest : List Token} {args : List SurfaceTerm}
    (derives : DerivesArgs tokens args rest) (named : AreNamed tokens) :
    (∀ t ∈ args, t.IsNamed) ∧ AreNamed rest := by
  cases derives with
  | none => exact ⟨nofun, named⟩
  | some derivesTerms => exact derivesTerms.isNamed named.tail

theorem DerivesTerms.isNamed {tokens rest : List Token} {args : List SurfaceTerm}
    (derives : DerivesTerms tokens args rest) (named : AreNamed tokens) :
    (∀ t ∈ args, t.IsNamed) ∧ AreNamed rest := by
  cases derives with
  | last derivesTerm =>
      obtain ⟨termNamed, restNamed⟩ := derivesTerm.isNamed named
      exact ⟨by simpa using termNamed, restNamed.tail⟩
  | more derivesTerm derivesTerms =>
      obtain ⟨termNamed, othersNamed⟩ := derivesTerm.isNamed named
      obtain ⟨argsNamed, restNamed⟩ := derivesTerms.isNamed othersNamed.tail
      exact ⟨List.forall_mem_cons.mpr ⟨termNamed, argsNamed⟩, restNamed⟩

end

theorem SurfaceFormula.isNamed_binary (connective : Connective) {left right : SurfaceFormula}
    (leftNamed : left.IsNamed) (rightNamed : right.IsNamed) :
    SurfaceFormula.IsNamed (.binary connective left right) :=
  fun bound => ⟨leftNamed bound, rightNamed bound⟩

/-- The names of a derived formula are words of its tokens. -/
theorem Derives.isNamed {category : Category} {f : SurfaceFormula}
    (derives : Derives category tokens f rest) (named : AreNamed tokens) :
    f.IsNamed ∧ AreNamed rest := by
  induction derives with
  | single _ ih | consequent _ ih | disjunct _ ih | conjunct _ ih => exact ih named
  | equiv _ _ leftIh rightIh | implies _ _ leftIh rightIh | or _ _ leftIh rightIh
  | and _ _ leftIh rightIh =>
      obtain ⟨leftNamed, othersNamed⟩ := leftIh named
      obtain ⟨rightNamed, restNamed⟩ := rightIh othersNamed.tail
      exact ⟨SurfaceFormula.isNamed_binary _ leftNamed rightNamed, restNamed⟩
  | not _ ih => exact ih named.tail
  | quantified _ _ ih =>
      obtain ⟨bodyNamed, restNamed⟩ := ih named.tail.tail
      exact ⟨fun _ => bodyNamed _, restNamed⟩
  | parentheses _ ih => exact (ih named.tail).imp_right AreNamed.tail
  | equation derivesLeft derivesRight | unequal derivesLeft derivesRight =>
      obtain ⟨leftNamed, othersNamed⟩ := derivesLeft.isNamed named
      obtain ⟨rightNamed, restNamed⟩ := derivesRight.isNamed othersNamed.tail
      exact ⟨fun _ => ⟨leftNamed, rightNamed⟩, restNamed⟩
  | constant => exact ⟨fun _ => trivial, named.tail⟩
  | predicate derivesArgs =>
      obtain ⟨argsNamed, restNamed⟩ := derivesArgs.isNamed named.tail
      exact ⟨fun _ => ⟨named _ (List.mem_cons_self ..), argsNamed⟩, restNamed⟩

/-- Every function and predicate name in a formula that was read from a text is
a name. -/
theorem SurfaceFormula.isNamed_of_parse {text : String} {formula : SurfaceFormula}
    (parsed : SurfaceFormula.parse text = .ok formula) : formula.IsNamed := by
  obtain ⟨tokens, tokenizes, derives⟩ := derives_of_parse parsed
  exact (derives.isNamed tokenizes.areNamed).1

end Entailment.FirstOrder
