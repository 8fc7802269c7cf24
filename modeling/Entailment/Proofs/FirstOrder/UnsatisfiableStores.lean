import Entailment.Proofs.FirstOrder.GroundDecision
import Entailment.Proofs.FirstOrder.Naming
import Entailment.Proofs.Runs

/-!
# Refuted stores have no model

A signature starts empty and gains variables, function symbols, Skolem
functions, predicate symbols and canonical variables.  However it came about,
its canonical variables are different variables of it, which is what the search
needs of a signature.  So a store of clauses over such a signature has no model
when a search refutes it: for every order, complete or not, in both modes, with
or without a query, and under every setting.
-/

namespace Entailment.FirstOrder

open Monitored

universe u

/-- A signature made by the operations on signatures. -/
inductive Signature.Built : Signature → Prop
  | empty : Built .empty
  | addVariable {signature : Signature} (built : Built signature) (name : String) :
      Built (signature.addVariable name).2
  | internFunction {signature : Signature} (built : Built signature) (name : String)
      (arity : Nat) : Built (signature.internFunction name arity).2
  | addSkolem {signature : Signature} (built : Built signature) (arity : Nat) :
      Built (signature.addSkolem arity).2
  | internPredicate {signature : Signature} (built : Built signature) (name : String)
      (arity : Nat) : Built (signature.internPredicate name arity).2
  | reserveCanonical {signature : Signature} (built : Built signature) (count : Nat) :
      Built (signature.reserveCanonical count)

theorem Signature.isProper_empty : Signature.empty.IsProper where
  hasCanonical v mem := by simp [empty] at mem
  increasingCanonical := List.Pairwise.nil
  distinctPredicates := List.nodup_nil
  distinctFunctions := List.Pairwise.nil

/-- Every operation keeps a signature proper. -/
theorem Signature.Built.isProper {signature : Signature} (built : signature.Built) :
    signature.IsProper := by
  induction built with
  | empty => exact isProper_empty
  | @addVariable signature _ name ih =>
      exact (@gainsSymbols_addVariable (fun _ => True) name signature).proper ih
  | @internFunction signature _ name arity ih =>
      exact (@internFunction_spec (fun _ => True) name arity signature trivial).1.proper ih
  | @addSkolem signature _ arity ih => exact (signature.addSkolem_spec arity).1.proper ih
  | @internPredicate signature _ name arity ih =>
      exact (@internPredicate_spec (fun _ => True) name arity signature trivial).1.proper ih
  | @reserveCanonical signature _ count ih =>
      exact (signature.reserveCanonical_spec count).1.proper ih

/-- A store that a search says is refuted has no model: no structure satisfies
the universal closures of all its clauses. -/
theorem not_isModelOf_of_refute {store : Store} {signature extended : Signature} {setup : Setup}
    {order : EliminationOrder} {query : Option AnswerQuery} {refutation : Refutation}
    (storeBuilt : store.Built) (signatureBuilt : signature.Built)
    (isOver : ∀ c ∈ store, c.IsOver signature)
    (returned : (store.refute setup order query signature).Returns (.ok refutation, extended))
    (refuted : refutation.status = .refuted) :
    ∀ ⦃D : Type u⦄ (M : Model D), ¬M.IsModelOf store := by
  obtain ⟨-, unsatisfiable⟩ := Store.refute_sound.{u} storeBuilt.consistent.1 isOver
    signatureBuilt.isProper.hasCanonical returned
  exact unsatisfiable refutation rfl refuted

/-- The variable `x`, the constant `a`, the function `f` and the predicates `p`
and `q`. -/
def Signature.successors : Signature :=
  ((((Signature.empty.addVariable "x").2.internFunction "a" 0).2.internFunction "f" 1).2.internPredicate
    "p" 1).2.internPredicate "q" 1 |>.2

/-- The clauses `p(a)`, `¬p(x) ∨ p(f(x))`, `¬p(f(f(x)))` and `¬p(x) ∨ q(x)`. -/
def Store.successors : Store :=
  Store.empty.insertAll
    [.ofList [.positive ⟨⟨0⟩, [.app ⟨0⟩ []]⟩],
      .ofList [.negative ⟨⟨0⟩, [.var ⟨0⟩]⟩, .positive ⟨⟨0⟩, [.app ⟨1⟩ [.var ⟨0⟩]]⟩],
      .ofList [.negative ⟨⟨0⟩, [.app ⟨1⟩ [.app ⟨1⟩ [.var ⟨0⟩]]]⟩],
      .ofList [.negative ⟨⟨0⟩, [.var ⟨0⟩]⟩, .positive ⟨⟨1⟩, [.var ⟨0⟩]⟩]]

/-- Eliminating one of the two predicates refutes the clauses on successors. -/
theorem not_isModelOf_of_refute_successors :
    (∃ refutation extended,
      (Store.successors.refute ⟨.default, .single, .zero⟩ (.fixed [⟨0⟩]) none
        .successors).Returns (.ok refutation, extended) ∧ refutation.status = .refuted) ∧
      ∀ ⦃D : Type u⦄ (M : Model D), ¬M.IsModelOf Store.successors := by
  have storeBuilt : Store.successors.Built :=
    (((Store.Built.empty.insert _).insert _).insert _).insert _
  have signatureBuilt : Signature.successors.Built :=
    ((((Signature.Built.empty.addVariable _).internFunction _ _).internFunction _ _).internPredicate
      _ _).internPredicate _ _
  have isOver : ∀ c ∈ Store.successors, c.IsOver .successors := by
    have known : Signature.successors =
        ⟨#["x"], #[⟨"a", 0, false⟩, ⟨"f", 1, false⟩], #[⟨"p", 1⟩, ⟨"q", 1⟩], #[], 0⟩ := by cbv
    intro c mem
    have inList := (((Store.consistent_empty.insertAll _).2 c).mp mem).resolve_right
      (Store.not_mem_empty c)
    simp only [List.mem_cons, List.not_mem_nil, or_false] at inList
    rcases inList with rfl | rfl | rfl | rfl
    all_goals
      rw [Clause.isOver_ofList, known]
      intro literal literalMem
      simp only [List.mem_cons, List.not_mem_nil, or_false] at literalMem
      rcases literalMem with rfl | rfl
      all_goals
        exact ⟨by decide, rfl, by
          simp [Literal.positive, Literal.negative, Signature.functionInfo]⟩
  have run : ∃ refutation extended,
      (Store.successors.refute ⟨.default, .single, .zero⟩ (.fixed [⟨0⟩]) none
        .successors).Returns (.ok refutation, extended) ∧ refutation.status = .refuted :=
    exists_run_ok_with Refutation.status (by cbv)
  refine ⟨run, ?_⟩
  obtain ⟨refutation, extended, returned, refuted⟩ := run
  exact not_isModelOf_of_refute storeBuilt signatureBuilt isOver returned refuted

end Entailment.FirstOrder
