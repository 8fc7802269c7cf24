import Entailment.Proofs.FirstOrder.EliminationInvariant

/-!
# Refutations are sound

Every clause that a search keeps is over the signature of the moment and follows
from the clauses the search started with.  So a store that is refuted has no
model, whatever the order of elimination, the settings, and the clock and the
memory gauge are.
-/

namespace Entailment.FirstOrder

open Monitored

universe u

/-- A model of a store satisfies all its clauses. -/
def Structure.IsModelOf {D : Type u} (M : Model D) (store : Store) : Prop :=
  ∀ c ∈ store, M.Satisfies c

/-- A clause follows from a store when every model of the store satisfies it. -/
def Store.Entails (store : Store) (c : Clause) : Prop :=
  ∀ ⦃D : Type u⦄ (M : Model D), M.IsModelOf store → M.Satisfies c

/-- A store without a model. -/
def Store.IsUnsatisfiable (store : Store) : Prop :=
  ∀ ⦃D : Type u⦄ (M : Model D), ¬M.IsModelOf store

theorem Store.Entails.isUnsatisfiable {store : Store} (entails : Store.Entails.{u} store .empty) :
    Store.IsUnsatisfiable.{u} store :=
  fun _ M isModel => M.not_satisfies_empty (entails M isModel)

/-- What a search keeps of the store it started with: its clauses follow from the
store, and the empty clause shows that the store has no model. -/
def Store.consequences (store : Store) : Guarantee where
  bucket signature c := c.IsOver signature ∧ Store.Entails.{u} store c
  kept signature c := c.IsOver signature ∧ Store.Entails.{u} store c
  answer _ _ := True
  refuted := Store.IsUnsatisfiable.{u} store

theorem Store.maintained_consequences (store : Store) (filter : AnswerFilter)
    (p : PredicateSymbol) (collects : Bool) :
    (Store.consequences.{u} store).Maintained filter p collects where
  bucketGrows grows good := ⟨good.1.mono grows, good.2⟩
  keptGrows grows good := ⟨good.1.mono grows, good.2⟩
  answerGrows _ _ := trivial
  bucketOver good := good.1
  resolvent := by
    intro signature extended c d left right r apart cGood dGood mem
    have sound := RenamedApart.resolvent_spec.{u} apart mem
    have follows : Store.Entails.{u} store r :=
      fun _ M isModel => sound.2 M (cGood.2 M isModel) (dGood.2 M isModel)
    have fateSpec := r.fate_spec p collects
    cases fate : r.fate p collects with
    | refutation =>
        rw [fate] at fateSpec
        subst fateSpec
        exact Store.Entails.isUnsatisfiable follows
    | tautology => trivial
    | disjunctiveAnswer => trivial
    | returned => exact ⟨sound.1, follows⟩
    | kept => exact ⟨sound.1, follows⟩
  answered _ _ _ _ _ _ _ _ := trivial

section

variable {store : Store} {signature : Signature}

/-- The search before the first elimination. -/
theorem Search.meets_start (setup : Setup) (query : Option AnswerQuery)
    (consistent : store.Consistent) (isOver : ∀ c ∈ store, c.IsOver signature)
    (has : signature.HasCanonical) :
    (Search.start setup store query signature).Meets (Store.consequences.{u} store).kept
      (Store.consequences.{u} store).toPromise signature (query.map AnswerQuery.heading) where
  consistent := consistent
  findings := ⟨.refl signature, has, rfl, fun _ _ _ _ => trivial, nofun⟩
  clauses c mem := ⟨isOver c mem, fun _ _ isModel => isModel c mem⟩

theorem Store.Consistent.isUnsatisfiable_of_containsEmpty (consistent : store.Consistent)
    (isEmpty : store.containsEmpty = true) : Store.IsUnsatisfiable.{u} store := by
  have mem : Clause.empty ∈ store := consistent.contains_iff.mp isEmpty
  exact Store.Entails.isUnsatisfiable fun _ _ isModel => isModel _ mem

/-- A search that is refuted at once. -/
theorem Search.Meets.alreadyRefuted {property : Signature → Clause → Prop} {promise : Promise}
    {base : Signature} {heading : Option (PredicateSymbol × List String)} {search : Search}
    (meets : search.Meets property promise base heading) (refuted : promise.refuted) :
    Search.Meets property promise base heading
      { search with findings := { search.findings with refuted := true } } :=
  ⟨meets.consistent, ⟨meets.findings.gains, meets.findings.hasCanonical, meets.findings.heading,
    meets.findings.answers, fun _ => refuted⟩, meets.clauses⟩

end

/-- The clauses a search has, and what it has found, follow from the store it
started with. -/
theorem Search.run_consequences {setup : Setup} {order : EliminationOrder} {store : Store}
    {query : Option AnswerQuery} {signature : Signature} {outcome : Outcome Search}
    (consistent : store.Consistent) (isOver : ∀ c ∈ store, c.IsOver signature)
    (has : signature.HasCanonical)
    (returned : ((Search.start setup store query signature).run setup order).Returns outcome) :
    outcome.Ends
      (Search.Meets (Store.consequences.{u} store).kept (Store.consequences.{u} store).toPromise
        signature (query.map AnswerQuery.heading))
      (Search.HaltedWith (Store.consequences.{u} store).toPromise signature
        (query.map AnswerQuery.heading)) := by
  refine Search.run_ends (fun p search outcome meets eliminated =>
      meets.eliminate (store.maintained_consequences _ _ _) (fun good _ => good)
        (fun good _ => good) eliminated) (Search.meets_start setup query consistent isOver has)
    (fun isEmpty => ?_) returned
  have refuted := consistent.isUnsatisfiable_of_containsEmpty.{u} isEmpty
  have meets :=
    (Search.meets_start.{u} setup query consistent isOver has).alreadyRefuted refuted
  exact ⟨meets, fun _ => refuted, nofun, meets.findings⟩

/-- Trying to refute a store adds variables to the signature and nothing else,
and a store that is refuted has no model. -/
theorem Store.refute_sound {setup : Setup} {order : EliminationOrder} {store : Store}
    {query : Option AnswerQuery} {signature extended : Signature}
    {result : Except Error Refutation} (consistent : store.Consistent)
    (isOver : ∀ c ∈ store, c.IsOver signature) (has : signature.HasCanonical)
    (returned : (store.refute setup order query signature).Returns (result, extended)) :
    signature.GainsVariables extended ∧
      ∀ refutation, result = .ok refutation → refutation.status = .refuted →
        Store.IsUnsatisfiable.{u} store := by
  obtain ⟨outcome, outcomeReturned, ended⟩ := (returns_bind ..).mp returned
  cases ended
  have ends := Search.run_consequences.{u} consistent isOver has outcomeReturned
  cases outcome with
  | going search =>
      refine ⟨ends.findings.gains, ?_⟩
      rintro refutation finished refuted
      cases finished
      refine ends.findings.refuted ?_
      by_contra notRefuted
      simp [Search.finish, notRefuted] at refuted
  | halted halt search =>
      obtain ⟨explained, notCapped, meets⟩ := ends
      refine ⟨meets.gains, ?_⟩
      rintro refutation finished refuted
      cases halt with
      | refuted => exact explained rfl
      | capped => exact absurd rfl notCapped
      | gaveUp reason =>
          cases finished
          cases refuted
      | failed error => cases finished

end Entailment.FirstOrder
