import Entailment.Proofs.FirstOrder.Conversation
import Entailment.Proofs.FirstOrder.SearchOutcome
import Entailment.Proofs.InPlace
import Entailment.Proofs.ReadingFailures

/-!
# A first-order knowledge base in place

The operations of a knowledge base are carried out here on one knowledge base that
is overwritten as they go along.  The signature is written once the clauses of the
formula are made, the planner before the search, the signature again after it, and
the statistics and the proof at the end.  So an operation that failed in between
would leave a knowledge base of which some parts are new and some old.

It never does: a text that can be read has clauses, and the search for a
refutation ends with a result.  An operation fails only when it is given a text
that cannot be read, and then nothing has been written.
-/

namespace Entailment.FirstOrder

open Monitored

namespace KnowledgeBase

variable {error : Error}

/-- Add a formula. -/
def tellInPlace (text : String) (kb : KnowledgeBase) :
    Monitored Event (Except Error Unit × KnowledgeBase) := do
  match SurfaceFormula.parse text with
  | .error error => return (.error error, kb)
  | .ok formula =>
      let (lowered, signature) := formula.lower kb.signature
      let clausified := lowered.clausify signature
      let written := { kb with signature := clausified.signature }
      Monitored.tellAll (witnessEvents clausified.witnesses)
      match clausified.clauses with
      | .error error => return (.error error, written)
      | .ok clauses =>
          let store := kb.store.insertAll clauses
          Monitored.tell (.told text clauses.length (store.size - kb.store.size))
          return (.ok (), { written with store := store })

/-- Try to refute a store over the signature of the knowledge base. -/
def refuteInPlace (start : Duration) (mode : ProofMode) (query : Option AnswerQuery)
    (store : Store) (kb : KnowledgeBase) :
    Monitored Event (Except Error Refutation × KnowledgeBase) := do
  let (order, computed, planner) := kb.planner.orderFor store (query.map AnswerQuery.predicate)
  Monitored.tellAll (if computed then [.planned order.order.length order.width] else [])
  let planned := { kb with planner := planner }
  let begun ← Monitored.clock
  let (outcome, signature) ← store.refute ⟨kb.config, mode, begun⟩ order query planned.signature
  let searched := { planned with signature := signature }
  match outcome with
  | .error error => return (.error error, searched)
  | .ok refutation =>
      let recorded ← record start refutation searched
      return (.ok refutation, recorded)

/-- Whether a query can be proven. -/
def askInPlace (text : String) (kb : KnowledgeBase) :
    Monitored Event (Except Error Bool × KnowledgeBase) := do
  let start ← Monitored.clock
  match SurfaceFormula.parse text with
  | .error error => return (.error error, kb)
  | .ok formula =>
      let (lowered, signature) := formula.lower kb.signature
      let negated := clausesOf true [] lowered.close signature
      let written := { kb with signature := negated.signature }
      Monitored.tellAll (witnessEvents negated.witnesses)
      match negated.clauses with
      | .error error => return (.error error, written)
      | .ok clauses =>
          Monitored.tellAll (clauses.map .negatedQuery)
          match ← written.refuteInPlace start .single none (kb.store.insertAll clauses) with
          | (.error error, left) => return (.error error, left)
          | (.ok refutation, asked) =>
              let proven := decide (refutation.status = .refuted)
              Monitored.tell (.asked text proven asked.statistics)
              return (.ok proven, asked)

/-- The values of the free variables for which a query could be proven. -/
def askBindingsInPlace (text : String) (kb : KnowledgeBase) :
    Monitored Event (Except Error Answers × KnowledgeBase) := do
  let start ← Monitored.clock
  match SurfaceFormula.parse text with
  | .error error => return (.error error, kb)
  | .ok formula =>
      let (lowered, signature) := formula.lower kb.signature
      let (answer, signature) := signature.internPredicate answerName lowered.free.length
      let clausified := answerClauses answer lowered signature
      let written := { kb with signature := clausified.signature }
      Monitored.tellAll (witnessEvents clausified.witnesses)
      match clausified.clauses with
      | .error error => return (.error error, written)
      | .ok clauses =>
          let query : AnswerQuery := ⟨answer, .start (lowered.free.map Prod.fst)⟩
          match ← written.refuteInPlace start .all (some query) (kb.store.insertAll clauses) with
          | (.error error, left) => return (.error error, left)
          | (.ok refutation, asked) =>
              match refutation.answers with
              | none => return (.error (.invariant .missingBindings), asked)
              | some answers =>
                  Monitored.tell (.askedBindings text answers.size asked.statistics)
                  return (.ok answers, asked)

/-! ## The same operations -/

theorem committed_tellInPlace (text : String) (kb : KnowledgeBase) :
    committed <$> kb.tellInPlace text = (Except.map fun after => ((), after)) <$> kb.tell text := by
  unfold tellInPlace tell
  cases SurfaceFormula.parse text with
  | error error => rfl
  | ok formula =>
      simp only [map_bind]
      congr 1
      funext _
      cases ((formula.lower kb.signature).1.clausify (formula.lower kb.signature).2).clauses with
      | error error => rfl
      | ok clauses => rfl

theorem committed_refuteInPlace (start : Duration) (mode : ProofMode) (query : Option AnswerQuery)
    (store : Store) (signature : Signature) (kb : KnowledgeBase) :
    committed <$> refuteInPlace start mode query store { kb with signature := signature } =
      kb.refute start mode query store signature := by
  simp only [refuteInPlace, refute, map_bind]
  congr 1
  funext _
  congr 1
  funext begun
  congr 1
  funext result
  obtain ⟨outcome, extended⟩ := result
  cases outcome with
  | error error => rfl
  | ok refutation => simp only [map_bind]; rfl

theorem committed_askInPlace (text : String) (kb : KnowledgeBase) :
    committed <$> kb.askInPlace text = kb.ask text := by
  simp only [askInPlace, ask, map_bind]
  congr 1
  funext start
  cases SurfaceFormula.parse text with
  | error error => rfl
  | ok formula =>
      simp only [map_bind]
      congr 1
      funext _
      cases (clausesOf true [] (formula.lower kb.signature).1.close
        (formula.lower kb.signature).2).clauses with
      | error error => rfl
      | ok clauses =>
          simp only [map_bind]
          congr 1
          funext _
          rw [← committed_refuteInPlace, bind_map_left]
          congr 1
          funext result
          rcases result with ⟨_ | _, _⟩ <;> rfl

theorem committed_askBindingsInPlace (text : String) (kb : KnowledgeBase) :
    committed <$> kb.askBindingsInPlace text = kb.askBindings text := by
  simp only [askBindingsInPlace, askBindings, map_bind]
  congr 1
  funext start
  cases SurfaceFormula.parse text with
  | error error => rfl
  | ok formula =>
      simp only [map_bind]
      congr 1
      funext _
      generalize formula.lower kb.signature = lowered
      generalize lowered.2.internPredicate answerName lowered.1.free.length = interned
      cases (answerClauses interned.1 lowered.1 interned.2).clauses with
      | error error => rfl
      | ok clauses =>
          simp only [map_bind]
          rw [← committed_refuteInPlace, bind_map_left]
          congr 1
          funext result
          rcases result with ⟨_ | refutation, _⟩
          · rfl
          · cases answered : refutation.answers <;> simp only [committed, answered] <;> rfl

/-! ## No failure but a refusal -/

variable {told : List SurfaceFormula} {text : String} {kb after : KnowledgeBase}

/-- A refutation that a sound knowledge base tries in place ends with a result. -/
theorem IsReady.refuteInPlace {clauses : List Clause} {signature : Signature}
    (ready : kb.IsReady clauses signature) {start : Duration} {mode : ProofMode}
    {query : Option AnswerQuery} {done : Except Error Refutation × KnowledgeBase}
    (returned : (KnowledgeBase.refuteInPlace start mode query (kb.store.insertAll clauses)
      { kb with signature := signature }).Returns done)
    (fits : signature.Fits (query.map AnswerQuery.heading))
    (increasing : ∀ asked ∈ query, Sorted.IsIncreasing asked.answers.tuples) :
    ∃ refutation, done.1 = .ok refutation ∧
      refutation.answers.map Answers.vars = query.map fun asked => asked.answers.vars := by
  simp only [KnowledgeBase.refuteInPlace, returns_bind, returns_tellAll, returns_clock, true_and,
    exists_const] at returned
  obtain ⟨begun, ⟨outcome, extended⟩, refuted, returned⟩ := returned
  obtain ⟨refutation, rfl, vars⟩ := Store.refute_succeeds ready.consistent ready.isOver
    ready.hasCanonical fits increasing refuted
  simp only [returns_bind, returns_pure] at returned
  obtain ⟨recorded, -, rfl⟩ := returned
  exact ⟨refutation, rfl, vars⟩

/-- The predicate that collects answers keeps its arity while clauses are made. -/
theorem GainsAnswer.fits {signature extended later : Signature} {answer : PredicateSymbol}
    {names : List String} {arity : Nat} (gains : GainsAnswer arity signature answer extended)
    (grows : extended.GrowsTo later) (length : names.length = arity) :
    later.Fits (some (answer, names)) := by
  rintro entry ⟨⟩
  rw [grows.predicateInfo gains.bound, gains.arity, length]

/-- Telling in place fails only on a text that cannot be read. -/
theorem IsSound.tellInPlace_error (sound : IsSound.{0} told kb)
    (returned : (kb.tellInPlace text).Returns (.error error, after)) :
    SurfaceFormula.parse text = .error error ∧ after = kb := by
  unfold KnowledgeBase.tellInPlace at returned
  cases parsed : SurfaceFormula.parse text with
  | error cause =>
      rw [parsed] at returned
      cases returned
      exact ⟨rfl, rfl⟩
  | ok formula =>
      have lowered :=
        SurfaceFormula.lower_means.{0} kb.signature (SurfaceFormula.isNamed_of_parse parsed)
      obtain ⟨normal, disjunctions, clauses, -, -, made, -⟩ :=
        clausesOf_spec.{0} (fun _ _ written => written.toIsScoped)
          (lowered.gains.canonical sound.hasCanonical) lowered.freeOver false lowered.atoms
      change ((formula.lower kb.signature).1.clausify (formula.lower kb.signature).2).clauses =
        .ok clauses at made
      simp only [parsed, made, returns_bind, returns_tellAll, returns_tell, true_and, exists_const,
        returns_pure] at returned
      cases returned

/-- Asking in place fails only on a text that cannot be read. -/
theorem IsSound.askInPlace_error (sound : IsSound.{0} told kb)
    (returned : (kb.askInPlace text).Returns (.error error, after)) :
    SurfaceFormula.parse text = .error error ∧ after = kb := by
  simp only [KnowledgeBase.askInPlace, returns_bind, returns_clock, true_and] at returned
  obtain ⟨start, returned⟩ := returned
  cases parsed : SurfaceFormula.parse text with
  | error cause =>
      rw [parsed] at returned
      cases returned
      exact ⟨rfl, rfl⟩
  | ok formula =>
      have lowered :=
        SurfaceFormula.lower_means.{0} kb.signature (SurfaceFormula.isNamed_of_parse parsed)
      obtain ⟨normal, disjunctions, clauses, -, -, made, clausifies⟩ :=
        clausesOf_spec.{0} (fun _ _ isScoped => isScoped)
          (lowered.gains.canonical sound.hasCanonical) (by simp) true
          (Lowered.everyAtom_close lowered.atoms)
      simp only [parsed, made, returns_bind, returns_tellAll, true_and, exists_const] at returned
      obtain ⟨⟨result, left⟩, refuted, returned⟩ := returned
      obtain ⟨refutation, isResult, -⟩ :=
        (sound.isReady lowered.gains clausifies.gains clausifies.isOver).refuteInPlace
          refuted (by rintro _ ⟨⟩) (by rintro _ ⟨⟩)
      obtain rfl : result = .ok refutation := isResult
      simp only [returns_bind, returns_tell, true_and, exists_const, returns_pure] at returned
      cases returned

/-- Asking for answers in place fails only on a text that cannot be read. -/
theorem IsSound.askBindingsInPlace_error (sound : IsSound.{0} told kb)
    (returned : (kb.askBindingsInPlace text).Returns (.error error, after)) :
    SurfaceFormula.parse text = .error error ∧ after = kb := by
  simp only [KnowledgeBase.askBindingsInPlace, returns_bind, returns_clock, true_and] at returned
  obtain ⟨start, returned⟩ := returned
  cases parsed : SurfaceFormula.parse text with
  | error cause =>
      rw [parsed] at returned
      cases returned
      exact ⟨rfl, rfl⟩
  | ok formula =>
      have lowered :=
        SurfaceFormula.lower_means.{0} kb.signature (SurfaceFormula.isNamed_of_parse parsed)
      have gains := gainsAnswer_internPredicate (formula.lower kb.signature).1.free.length
        (formula.lower kb.signature).2
      obtain ⟨ruleClauses, goalClauses, made, answerRule⟩ :=
        exists_answerRule.{0} sound.hasCanonical lowered gains
      have ready := sound.isReady_answerClauses parsed gains made
      simp only [parsed, made, returns_bind, returns_tellAll, true_and, exists_const] at returned
      obtain ⟨⟨result, left⟩, refuted, returned⟩ := returned
      obtain ⟨refutation, isResult, vars⟩ := ready.refuteInPlace refuted
        (gains.fits answerRule.gains.grows (List.length_map _))
        (by rintro _ ⟨⟩; exact List.Pairwise.nil)
      obtain rfl : result = .ok refutation := isResult
      cases answered : refutation.answers with
      | none => simp [answered] at vars
      | some answers =>
          simp only [answered, returns_bind, returns_tell, true_and, exists_const,
            returns_pure] at returned
          cases returned

/-! ## Runs -/

/-- Carry out a request in place. -/
def serve (request : Request) (kb : KnowledgeBase) : Monitored Event KnowledgeBase :=
  match request with
  | .tell text => Prod.snd <$> kb.tellInPlace text
  | .ask text => Prod.snd <$> kb.askInPlace text
  | .askBindings text => Prod.snd <$> kb.askBindingsInPlace text
  | .configure config => return kb.configure config

/-- Carry out some requests one after the other, whether they fail or not. -/
def serveAll : List Request → KnowledgeBase → Monitored Event KnowledgeBase
  | [], kb => return kb
  | request :: rest, kb => do serveAll rest (← kb.serve request)

/-- What a request in place can end with: the knowledge base as it was, when the
request fails, and otherwise what the operation ends with that it asks for. -/
theorem IsSound.step_of_serve {request : Request} (sound : IsSound.{0} told kb)
    (returned : (kb.serve request).Returns after) :
    ∃ accepted, Conversation.Step ⟨kb, told⟩ ⟨after, accepted⟩ := by
  cases request with
  | configure config =>
      cases returned
      exact ⟨told, .configure config⟩
  | tell text =>
      simp only [serve, map_eq_pure_bind, returns_bind, returns_pure] at returned
      obtain ⟨⟨_ | _, left⟩, telling, rfl⟩ := returned
      · obtain ⟨-, rfl⟩ := sound.tellInPlace_error telling
        exact ⟨told, .failed⟩
      · have isResult := returns_of_committed (committed_tellInPlace text kb) telling
        simp only [map_eq_pure_bind, returns_bind, returns_pure] at isResult
        obtain ⟨_ | next, accepted, isNext⟩ := isResult
        · cases isNext
        · cases isNext
          obtain ⟨formula, -, parsed, -⟩ := exists_of_tell accepted
          exact ⟨_, .tell parsed accepted⟩
  | ask text =>
      simp only [serve, map_eq_pure_bind, returns_bind, returns_pure] at returned
      obtain ⟨⟨_ | _, left⟩, asking, rfl⟩ := returned
      · obtain ⟨-, rfl⟩ := sound.askInPlace_error asking
        exact ⟨told, .failed⟩
      · exact ⟨told, .ask (returns_of_committed (committed_askInPlace text kb) asking)⟩
  | askBindings text =>
      simp only [serve, map_eq_pure_bind, returns_bind, returns_pure] at returned
      obtain ⟨⟨_ | _, left⟩, asking, rfl⟩ := returned
      · obtain ⟨-, rfl⟩ := sound.askBindingsInPlace_error asking
        exact ⟨told, .failed⟩
      · exact ⟨told,
          .askBindings (returns_of_committed (committed_askBindingsInPlace text kb) asking)⟩

/-- A run in place keeps a knowledge base sound. -/
theorem IsSound.serveAll {requests : List Request} (sound : IsSound.{0} told kb)
    (returned : (kb.serveAll requests).Returns after) : ∃ told, IsSound.{0} told after := by
  induction requests generalizing kb told with
  | nil =>
      cases returned
      exact ⟨told, sound⟩
  | cons request rest ih =>
      obtain ⟨next, served, returned⟩ := (returns_bind ..).mp returned
      obtain ⟨accepted, step⟩ := sound.step_of_serve served
      exact ih (step.isSound sound) returned

/-- The error of a text that cannot be read as a first-order formula. -/
def IsUnread (text : String) (error : Error) : Prop :=
  SurfaceFormula.parse text = .error error ∧ ∃ position cause, error = .parse position cause

theorem isUnread_of_parse (unread : SurfaceFormula.parse text = .error error) :
    IsUnread text error :=
  ⟨unread, Error.isRecoverable_iff.mp
    ((SurfaceFormula.parse_failsRecoverably text).of_error unread)⟩

/-- What a text can do to a knowledge base, whichever operation it is given to: the
operation fails atomically, and a query leaves the clauses alone in any case. -/
structure Withstands (text : String) (kb : KnowledgeBase) : Prop where
  tell : FailsAtomically kb (IsUnread text)
    ((Except.map fun after => ((), after)) <$> kb.tell text) (kb.tellInPlace text)
  ask : FailsAtomically kb (IsUnread text) (kb.ask text) (kb.askInPlace text)
  askBindings : FailsAtomically kb (IsUnread text) (kb.askBindings text)
    (kb.askBindingsInPlace text)
  askKeeps : ∀ done after, (kb.askInPlace text).Returns (done, after) → after.store = kb.store
  askBindingsKeeps : ∀ done after, (kb.askBindingsInPlace text).Returns (done, after) →
    after.store = kb.store

theorem IsSound.withstands (sound : IsSound.{0} told kb) (text : String) :
    kb.Withstands text where
  tell := ⟨committed_tellInPlace text kb, fun _ _ returned =>
    (sound.tellInPlace_error returned).imp_left isUnread_of_parse⟩
  ask := ⟨committed_askInPlace text kb, fun _ _ returned =>
    (sound.askInPlace_error returned).imp_left isUnread_of_parse⟩
  askBindings := ⟨committed_askBindingsInPlace text kb, fun _ _ returned =>
    (sound.askBindingsInPlace_error returned).imp_left isUnread_of_parse⟩
  askKeeps done after returned := by
    cases done with
    | error error => rw [(sound.askInPlace_error returned).2]
    | ok proven =>
        have asked := returns_of_committed (committed_askInPlace text kb) returned
        obtain ⟨_, _, _, _, _, -, -, -, store, -⟩ := KnowledgeBase.exists_of_ask asked
        exact store
  askBindingsKeeps done after returned := by
    cases done with
    | error error => rw [(sound.askBindingsInPlace_error returned).2]
    | ok answers =>
        have asked := returns_of_committed (committed_askBindingsInPlace text kb) returned
        obtain ⟨_, _, _, _, _, -, -, -, store, -⟩ := KnowledgeBase.exists_of_askBindings asked
        exact store

end KnowledgeBase

end Entailment.FirstOrder
