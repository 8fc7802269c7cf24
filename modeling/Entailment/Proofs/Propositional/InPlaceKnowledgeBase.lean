import Entailment.Proofs.InPlace
import Entailment.Proofs.Propositional.Decision
import Entailment.Proofs.ReadingFailures

/-!
# A propositional knowledge base in place

The operations are carried out on one knowledge base that is overwritten.  Telling
numbers the names of a formula before its clauses are made.  Asking works with a
copy of the vocabulary and writes the statistics once the oracle has answered.

The oracle of a query is arbitrary and may be another one for every query, so that
it may as well remember what it was asked before.  A query fails on a text that
cannot be read or with the error of its oracle, and both leave everything as it
was.
-/

namespace Entailment.Propositional

open Monitored (returns_bind returns_clock returns_pure)

variable {ε : Type}

namespace KnowledgeBase

/-- Add a formula. -/
def tellInPlace (text : String) (kb : KnowledgeBase) : Except Error Unit × KnowledgeBase :=
  match Proposition.parse text with
  | .error error => (.error error, kb)
  | .ok formula =>
      let (numbered, vocabulary) := kb.vocabulary.internFormula formula
      let written := { kb with vocabulary := vocabulary }
      match numbered.clauses false with
      | .error error => (.error error, written)
      | .ok clauses => (.ok (), { written with clauses := Sorted.union kb.clauses clauses })

/-- Whether a query is entailed. -/
def askInPlace (oracle : Oracle) (query : String) (kb : KnowledgeBase) :
    Monitored ε (Except Error Bool × KnowledgeBase) := do
  let start ← Monitored.clock
  match kb.dimacs query with
  | .error error => return (.error error, kb)
  | .ok named =>
      match oracle named.render with
      | .error error => return (.error error, kb)
      | .ok verdict =>
          let time := start.since (← Monitored.clock)
          let statistics :=
            { Statistics.start with
              time := time, clausesGenerated := named.problem.clauses.length }
          return (.ok (verdict = .unsatisfiable), { kb with statistics := statistics })

/-- The answers to a query, which has no variables. -/
def askBindingsInPlace (oracle : Oracle) (query : String) (kb : KnowledgeBase) :
    Monitored ε (Except Error Answers × KnowledgeBase) := do
  match ← kb.askInPlace oracle query with
  | (.error error, left) => return (.error error, left)
  | (.ok entailed, asked) =>
      let answers := Answers.start []
      if entailed then
        match answers.add [] with
        | .error error => return (.error error, asked)
        | .ok (_, answers) => return (.ok answers, asked)
      else return (.ok answers, asked)

/-! ## The same operations -/

theorem committed_tellInPlace (text : String) (kb : KnowledgeBase) :
    committed (kb.tellInPlace text) = (kb.tell text).map fun after => ((), after) := by
  simp only [tellInPlace, tell, bind, Except.bind]
  cases Proposition.parse text with
  | error error => rfl
  | ok formula =>
      simp only
      cases (kb.vocabulary.internFormula formula).1.clauses false with
      | error error => rfl
      | ok clauses => rfl

theorem committed_askInPlace (oracle : Oracle) (query : String) (kb : KnowledgeBase) :
    committed <$> (kb.askInPlace oracle query : Monitored ε _) = kb.ask oracle query := by
  simp only [askInPlace, ask, map_bind]
  congr 1
  funext start
  cases kb.dimacs query with
  | error error => rfl
  | ok named =>
      simp only
      cases oracle named.render with
      | error error => rfl
      | ok verdict => rfl

theorem committed_askBindingsInPlace (oracle : Oracle) (query : String) (kb : KnowledgeBase) :
    committed <$> (kb.askBindingsInPlace oracle query : Monitored ε _) =
      kb.askBindings oracle query := by
  simp only [askBindingsInPlace, askBindings, map_bind]
  rw [← committed_askInPlace, bind_map_left]
  congr 1
  funext result
  rcases result with ⟨_ | entailed, _⟩
  · rfl
  · cases entailed <;> rfl

/-! ## No failure but a refusal -/

variable {told : List Proposition} {kb after : KnowledgeBase} {text : String} {oracle : Oracle}
  {error : Error}

/-- Telling in place fails only on a text that cannot be read. -/
theorem IsSound.tellInPlace_error (sound : kb.IsSound told)
    (failed : kb.tellInPlace text = (.error error, after)) :
    Proposition.parse text = .error error ∧ after = kb := by
  cases parsed : Proposition.parse text with
  | error cause =>
      simp only [tellInPlace, parsed] at failed
      cases failed
      exact ⟨rfl, rfl⟩
  | ok formula =>
      obtain ⟨next, accepted, -⟩ := sound.exists_tell parsed
      have same := committed_tellInPlace text kb
      rw [failed, accepted] at same
      cases same

/-- The error of a text that cannot be read. -/
def IsUnread (text : String) (error : Error) : Prop :=
  Proposition.parse text = .error error ∧ ∃ position cause, error = .parse position cause

theorem isUnread_of_parse (unread : Proposition.parse text = .error error) : IsUnread text error :=
  ⟨unread, Error.isRecoverable_iff.mp ((Proposition.parse_failsRecoverably text).of_error unread)⟩

/-- The error of a text that cannot be read, or of the oracle that was asked. -/
inductive IsRefusal (oracle : Oracle) (text : String) (kb : KnowledgeBase) : Error → Prop where
  | unread {error : Error} (failed : IsUnread text error) : IsRefusal oracle text kb error
  | unanswered {named : NamedProblem} {error : Error} (asked : kb.dimacs text = .ok named)
      (failed : oracle named.render = .error error) : IsRefusal oracle text kb error

/-- Asking in place fails only on a text that cannot be read or with the error of
the oracle. -/
theorem IsSound.askInPlace_error (sound : kb.IsSound told)
    (returned : (kb.askInPlace oracle text : Monitored ε _).Returns (.error error, after)) :
    IsRefusal oracle text kb error ∧ after = kb := by
  simp only [askInPlace, returns_bind, returns_clock, true_and] at returned
  obtain ⟨start, returned⟩ := returned
  cases parsed : Proposition.parse text with
  | error cause =>
      have unread : kb.dimacs text = .error cause := by
        simp only [KnowledgeBase.dimacs, parsed, bind, Except.bind]
      rw [unread] at returned
      cases returned
      exact ⟨.unread (isUnread_of_parse parsed), rfl⟩
  | ok formula =>
      obtain ⟨named, isNamed, -⟩ := sound.dimacs parsed
      rw [isNamed] at returned
      cases answered : oracle named.render with
      | error cause =>
          simp only [answered] at returned
          cases returned
          exact ⟨.unanswered isNamed answered, rfl⟩
      | ok verdict =>
          simp only [answered, returns_bind, returns_clock, true_and, returns_pure] at returned
          obtain ⟨now, done⟩ := returned
          cases done

/-- Asking in place changes the statistics only. -/
theorem askInPlace_keeps {done : Except Error Bool}
    (returned : (kb.askInPlace oracle text : Monitored ε _).Returns (done, after)) :
    after.clauses = kb.clauses ∧ after.vocabulary = kb.vocabulary := by
  simp only [askInPlace, returns_bind, returns_clock, true_and] at returned
  obtain ⟨start, returned⟩ := returned
  split at returned
  · cases returned
    exact ⟨rfl, rfl⟩
  · split at returned
    · cases returned
      exact ⟨rfl, rfl⟩
    · simp only [returns_bind, returns_clock, true_and, returns_pure] at returned
      obtain ⟨now, done⟩ := returned
      cases done
      exact ⟨rfl, rfl⟩

/-- The table of a propositional query has place for its one answer. -/
theorem returns_askBindingsInPlace {done : Except Error Answers}
    (returned : (kb.askBindingsInPlace oracle text : Monitored ε _).Returns (done, after)) :
    ∃ asked, (kb.askInPlace oracle text : Monitored ε _).Returns (asked, after) ∧
      done = asked.map fun entailed => ⟨[], if entailed then [[]] else []⟩ := by
  simp only [askBindingsInPlace, returns_bind] at returned
  obtain ⟨⟨asked, left⟩, asking, returned⟩ := returned
  cases asked with
  | error error =>
      cases returned
      exact ⟨_, asking, rfl⟩
  | ok entailed =>
      cases entailed <;> cases returned <;> exact ⟨_, asking, rfl⟩

/-! ## Runs -/

/-- A request to a knowledge base, with the oracle that answers it. -/
inductive Call where
  | tell (text : String)
  | ask (oracle : Oracle) (text : String)
  | askBindings (oracle : Oracle) (text : String)

/-- Carry out a request in place. -/
def serve (call : Call) (kb : KnowledgeBase) : Monitored ε KnowledgeBase :=
  match call with
  | .tell text => return (kb.tellInPlace text).2
  | .ask oracle text => Prod.snd <$> kb.askInPlace oracle text
  | .askBindings oracle text => Prod.snd <$> kb.askBindingsInPlace oracle text

/-- Carry out some requests one after the other, whether they fail or not. -/
def serveAll : List Call → KnowledgeBase → Monitored ε KnowledgeBase
  | [], kb => return kb
  | call :: rest, kb => do serveAll rest (← kb.serve call)

/-- A request keeps a knowledge base sound, whether it fails or not. -/
theorem IsSound.serve {call : Call} (sound : kb.IsSound told)
    (returned : (kb.serve call : Monitored ε _).Returns after) : ∃ told, after.IsSound told := by
  cases call with
  | tell text =>
      cases returned
      cases telling : kb.tellInPlace text with
      | mk done left =>
          cases done with
          | error error =>
              obtain ⟨-, rfl⟩ := sound.tellInPlace_error telling
              exact ⟨told, sound⟩
          | ok _ =>
              have same := committed_tellInPlace text kb
              rw [telling] at same
              cases accepted : kb.tell text with
              | error error => simp [accepted, Except.map] at same
              | ok next =>
                  simp only [accepted, committed_ok, Except.map, Except.ok.injEq,
                    Prod.mk.injEq, true_and] at same
                  obtain ⟨formula, -, nextSound⟩ := sound.tell accepted
                  exact ⟨_, same ▸ nextSound⟩
  | ask oracle text =>
      simp only [KnowledgeBase.serve, map_eq_pure_bind, returns_bind, returns_pure] at returned
      obtain ⟨⟨done, left⟩, asking, rfl⟩ := returned
      obtain ⟨clauses, vocabulary⟩ := askInPlace_keeps asking
      exact ⟨told, vocabulary ▸ sound.written, by rw [clauses, vocabulary]; exact sound.describes⟩
  | askBindings oracle text =>
      simp only [KnowledgeBase.serve, map_eq_pure_bind, returns_bind, returns_pure] at returned
      obtain ⟨⟨done, left⟩, asking, rfl⟩ := returned
      obtain ⟨asked, asking, -⟩ := returns_askBindingsInPlace asking
      obtain ⟨clauses, vocabulary⟩ := askInPlace_keeps asking
      exact ⟨told, vocabulary ▸ sound.written, by rw [clauses, vocabulary]; exact sound.describes⟩

/-- A run in place keeps a knowledge base sound. -/
theorem IsSound.serveAll {calls : List Call} (sound : kb.IsSound told)
    (returned : (kb.serveAll calls : Monitored ε _).Returns after) :
    ∃ told, after.IsSound told := by
  induction calls generalizing kb told with
  | nil =>
      cases returned
      exact ⟨told, sound⟩
  | cons call rest ih =>
      obtain ⟨next, served, returned⟩ := (returns_bind ..).mp returned
      obtain ⟨nextTold, nextSound⟩ := sound.serve served
      exact ih nextSound returned

/-- What a text can do to a knowledge base, whichever operation it is given to: the
operation fails atomically, and a query leaves the clauses and the vocabulary alone
in any case. -/
structure Withstands (ε : Type) (oracle : Oracle) (text : String) (kb : KnowledgeBase) :
    Prop where
  tell : FailsAtomically kb (IsUnread text)
    (pure ((kb.tell text).map fun after => ((), after)) : Monitored ε _)
    (pure (kb.tellInPlace text))
  ask : FailsAtomically kb (IsRefusal oracle text kb) (kb.ask oracle text : Monitored ε _)
    (kb.askInPlace oracle text)
  askBindings : FailsAtomically kb (IsRefusal oracle text kb)
    (kb.askBindings oracle text : Monitored ε _) (kb.askBindingsInPlace oracle text)
  askKeeps : ∀ done after, (kb.askInPlace oracle text : Monitored ε _).Returns (done, after) →
    after.clauses = kb.clauses ∧ after.vocabulary = kb.vocabulary
  askBindingsKeeps : ∀ done after,
    (kb.askBindingsInPlace oracle text : Monitored ε _).Returns (done, after) →
      after.clauses = kb.clauses ∧ after.vocabulary = kb.vocabulary

theorem IsSound.withstands (sound : kb.IsSound told) (oracle : Oracle) (text : String) :
    kb.Withstands ε oracle text where
  tell := by
    refine ⟨?_, fun error after failed => ?_⟩
    · rw [map_pure, committed_tellInPlace]
    · exact (sound.tellInPlace_error failed).imp_left isUnread_of_parse
  ask := ⟨committed_askInPlace oracle text kb, fun _ _ returned => sound.askInPlace_error returned⟩
  askBindings := by
    refine ⟨committed_askBindingsInPlace oracle text kb, fun error after returned => ?_⟩
    obtain ⟨asked, asking, isError⟩ := returns_askBindingsInPlace returned
    cases asked with
    | error cause =>
        cases isError
        exact sound.askInPlace_error asking
    | ok entailed => cases isError
  askKeeps _ _ returned := askInPlace_keeps returned
  askBindingsKeeps _ _ returned := by
    obtain ⟨asked, asking, -⟩ := returns_askBindingsInPlace returned
    exact askInPlace_keeps asking

end KnowledgeBase

end Entailment.Propositional
