import Entailment.Proofs.FirstOrder.InPlaceKnowledgeBase
import Entailment.Proofs.Propositional.InPlaceKnowledgeBase
import Entailment.Proofs.Runs

/-!
# Failures are atomic

Whatever texts the knowledge bases are given, an operation fails only because its
text cannot be read or, for a propositional query, because the oracle fails.  No
stage of the prover is ever handed what it does not expect.  A failure leaves the
clauses and their index, the tables of symbols, the elimination order, the
statistics and the last proof as they were, and a query never changes the clauses.
-/

namespace Entailment

open Monitored (returns_run exists_run)

/-- Every knowledge base that a run of operations in place reaches, of which some
may have failed, withstands every text. -/
theorem operations_fail_atomically :
    (∀ config requests kb,
      (FirstOrder.KnowledgeBase.serveAll requests (.empty config)).Returns kb →
        ∀ text, kb.Withstands text) ∧
      ∀ (ε : Type) calls kb,
        (Propositional.KnowledgeBase.serveAll calls .empty : Monitored ε _).Returns kb →
          ∀ oracle text, kb.Withstands ε oracle text := by
  refine ⟨fun config requests kb reached text => ?_, fun ε calls kb reached oracle text => ?_⟩
  · obtain ⟨told, sound⟩ := (FirstOrder.KnowledgeBase.isSound_empty config).serveAll reached
    exact sound.withstands text
  · obtain ⟨told, sound⟩ := Propositional.KnowledgeBase.isSound_empty.serveAll reached
    exact sound.withstands oracle text

/-- An oracle that never answers. -/
def Propositional.Oracle.silent : Propositional.Oracle := fun _ => .error (.oracle .unavailable)

/-- A fact, a text that breaks off and a query, and then the same text again; and an
implication, with a query that the oracle does not answer. -/
theorem operations_fail_atomically_unread :
    (∃ kb,
      (FirstOrder.KnowledgeBase.serveAll [.tell "p(a)", .tell "p(", .ask "p(?x)"]
        (.empty .default)).Returns kb ∧
      kb.Withstands "p(" ∧ (kb.askInPlace "p(").Returns
        (.error (.parse 2 .unexpectedEnd), kb)) ∧
    ∃ kb,
      (Propositional.KnowledgeBase.serveAll [.tell "a => b", .tell "a ^", .ask .silent "b"]
        .empty : Monitored Unit _).Returns kb ∧
      kb.Withstands Unit .silent "b" ∧
      (kb.askInPlace .silent "b" : Monitored Unit _).Returns
        (.error (.oracle .unavailable), kb) := by
  constructor
  · have reached := returns_run .zero none (FirstOrder.KnowledgeBase.serveAll
      [.tell "p(a)", .tell "p(", .ask "p(?x)"] (.empty .default))
    have unread : FirstOrder.SurfaceFormula.parse "p(" = .error (.parse 2 .unexpectedEnd) := by cbv
    refine ⟨_, reached, operations_fail_atomically.1 _ _ _ reached _, .zero, ?_⟩
    rw [unread]
    rfl
  · obtain ⟨kb, done, reached⟩ := exists_run (Propositional.KnowledgeBase.serveAll
      [.tell "a => b", .tell "a ^", .ask .silent "b"] .empty : Monitored Unit _)
    have asked : (kb.dimacs "b").isOk = true := by
      rw [← done]
      cbv
    refine ⟨kb, reached, operations_fail_atomically.2 _ _ _ reached _ _, .zero, ?_⟩
    cases problem : kb.dimacs "b" with
    | error error => simp [problem, Except.isOk, Except.toBool] at asked
    | ok named => rfl

end Entailment
