import Entailment.Proofs.FirstOrder.CanonicalConversation
import Entailment.Proofs.FirstOrder.SearchOutcome
import Entailment.Proofs.Runs

/-!
# Earlier queries and later answers

A query leaves names in the signature and an order in the planner, and a later query
can be answered differently because of them.  The greedy order breaks ties by number,
an order that is kept for the same predicates need not be the one that would be
computed, and clauses are sorted by the numbers of their symbols.  A search is not
complete, so these orders decide what is proven.

Nothing else has an influence.  If the symbols that a query has in the end are numbered
in the same order as without the earlier queries, and the order in the planner is the
one that would be computed, the answer is the same.
-/

namespace Entailment.FirstOrder

open Monitored

namespace KnowledgeBase

variable {kb fresh asked : KnowledgeBase} {text : String}
variable {query : SurfaceFormula} {clauses : List Clause}

/-! ## What an answer depends on -/

/-- An answer is the status of a search. -/
theorem exists_search_of_ask (parsed : SurfaceFormula.parse text = .ok query)
    (made : (negatedQuery query kb.signature).clauses = .ok clauses)
    {result : Except Error (Bool × KnowledgeBase)} (returned : (kb.ask text).Returns result) :
    ∃ begun outcome extended,
      ((kb.store.insertAll clauses).refute ⟨kb.config, .single, begun⟩
        (kb.planner.orderFor (kb.store.insertAll clauses) none).1 none
        (negatedQuery query kb.signature).signature).Returns (outcome, extended) ∧
      result.map Prod.fst =
        (outcome.map Refutation.status).map fun status => decide (status = .refuted) := by
  obtain ⟨start, searched, refuted, rfl⟩ := ask_returns parsed made returned
  obtain ⟨begun, outcome, extended, isSearched, ended⟩ := refute_returns refuted
  refine ⟨begun, outcome, extended, isSearched, ?_⟩
  rcases ended with ⟨error, rfl, rfl⟩ | ⟨refutation, after, rfl, rfl, -⟩ <;> rfl

theorem eq_error_of_ask {error : Error} (refused : SurfaceFormula.parse text = .error error)
    {result : Except Error (Bool × KnowledgeBase)} (returned : (kb.ask text).Returns result) :
    result = .error error := by
  simp only [ask, refused, returns_bind, returns_clock, true_and] at returned
  obtain ⟨start, returned⟩ := returned
  cases returned
  rfl

/-- A query is asked alike: the symbols that it has in the end are numbered in the same
order, and the order in the planner of the second knowledge base is the one that it
would compute. -/
structure AsksAlike (query : SurfaceFormula) (fresh asked : KnowledgeBase) : Prop where
  functions : (query.lower fresh.signature).2.functions.toList.Sublist
    (query.lower asked.signature).2.functions.toList
  predicates : (query.lower fresh.signature).2.predicates.toList.Sublist
    (query.lower asked.signature).2.predicates.toList
  order : ∀ clauses, (negatedQuery query asked.signature).clauses = .ok clauses →
    (asked.planner.orderFor (asked.store.insertAll clauses) none).1.order =
      (EliminationOrder.compute (asked.store.insertAll clauses) none).order

/-- Whether a query is asked alike. -/
def asksAlike (query : SurfaceFormula) (fresh asked : KnowledgeBase) : Bool :=
  (query.lower fresh.signature).2.functions.toList.isSublist
      (query.lower asked.signature).2.functions.toList &&
    (query.lower fresh.signature).2.predicates.toList.isSublist
      (query.lower asked.signature).2.predicates.toList &&
    match (negatedQuery query asked.signature).clauses with
    | .error _ => true
    | .ok clauses =>
        decide ((asked.planner.orderFor (asked.store.insertAll clauses) none).1.order =
          (EliminationOrder.compute (asked.store.insertAll clauses) none).order)

theorem asksAlike_iff : asksAlike query fresh asked = true ↔ AsksAlike query fresh asked := by
  simp only [asksAlike, Bool.and_eq_true, List.isSublist_iff_sublist]
  constructor
  · rintro ⟨⟨functions, predicates⟩, order⟩
    refine ⟨functions, predicates, fun clauses made => ?_⟩
    rw [made] at order
    exact decide_eq_true_eq.mp order
  · rintro ⟨functions, predicates, order⟩
    refine ⟨⟨functions, predicates⟩, ?_⟩
    split
    · rfl
    · exact decide_eq_true (order _ ‹_›)

instance {query : SurfaceFormula} : Decidable (AsksAlike query fresh asked) :=
  decidable_of_iff _ asksAlike_iff

/-! ## The search as a renumbered one -/

/-- A search for a refutation of clauses on canonical variables ends as the one over
the signature without symbols does. -/
theorem refute_onCanonical {config : Config} (unlimited : config.limits = .unlimited)
    {signature : Signature} (proper : signature.IsProper) {functions predicates : Nat → Nat}
    (onFunctions : StrictMono functions) (onPredicates : StrictMono predicates) {store : Store}
    (isStore : store = Store.empty.insertAll (clauses.map (Clause.renumber (.onCanonical proper
      onFunctions onPredicates)))) {order : EliminationOrder}
    (isOrder : order.order = (EliminationOrder.compute store none).order) {start : Duration} :
    Pairs (fun first second => first.1.map Refutation.status = second.1.map Refutation.status)
      ((Store.empty.insertAll clauses).refute ⟨config, .single, .zero⟩
        (EliminationOrder.compute (Store.empty.insertAll clauses) none) none .empty)
      (store.refute ⟨config, .single, start⟩ order none signature) := by
  subst isStore
  have nothing : Store.empty.Renumbers (.onCanonical proper onFunctions onPredicates) .empty :=
    ⟨Store.isIndexed_empty, Store.isIndexed_empty, rfl⟩
  have renumbers := nothing.insertAll clauses
  have sameOrder := isOrder.trans (EliminationOrder.compute_renumber renumbers.clauses
    (Store.predicates_insertAll_renumber _ clauses))
  exact renumbers.refute (Signature.follows_onCanonical onFunctions onPredicates proper) unlimited
    sameOrder

/-! ## The query as a renumbered one -/

/-- The symbols that the query has after the earlier queries have places among which the
symbols without these queries are found, and then the clauses of the query are
renumbered accordingly, before they are renamed. -/
theorem AsksAlike.exists_places (alike : AsksAlike query fresh asked) (named : query.IsNamed)
    (grows : fresh.signature.GrowsTo asked.signature)
    (proper : (query.lower asked.signature).2.IsProper) :
    ∃ functions predicates : Nat → Nat, ∃ ρ : Renumbering,
      StrictMono functions ∧ StrictMono predicates ∧
      (∀ index < fresh.signature.functions.size, functions index = index) ∧
      (∀ index < fresh.signature.predicates.size, predicates index = index) ∧
      ρ.onFunction = (fun f => ⟨functions f.index⟩) ∧
      ρ.onPredicate = (fun p => ⟨predicates p.index⟩) ∧
      (unrenamedClauses true [] (query.lower asked.signature).1.close
          (query.lower asked.signature).2).1 =
        (unrenamedClauses true [] (query.lower fresh.signature).1.close
          (query.lower fresh.signature).2).1.map (List.map (Clause.renumber ρ)) := by
  have freshGrows := (SurfaceFormula.lower_means.{0} fresh.signature named).gains.grows
  have askedGrows := grows.trans (SurfaceFormula.lower_means.{0} asked.signature named).gains.grows
  obtain ⟨functions, onFunctions⟩ := exists_placesIn freshGrows.functions askedGrows.functions
    alike.functions
  obtain ⟨predicates, onPredicates⟩ := exists_placesIn freshGrows.predicates
    askedGrows.predicates alike.predicates
  have shift : StrictMono (· + (asked.signature.vars.size - fresh.signature.vars.size)) :=
    fun _ _ less => Nat.add_lt_add_right less _
  have nextVariables : fresh.signature.VariablesInStep
      (.ofPlaces shift onFunctions.mono onPredicates.mono) asked.signature := by
    intro count
    have longer := grows.varsSize
    simp only [Renumbering.ofPlaces, Variable.mk.injEq]
    omega
  obtain ⟨sameFormula, nextAfter⟩ := SurfaceFormula.lower_renumber named nextVariables
    (Signature.keepsNames_ofPlaces shift onFunctions onPredicates) proper
  have nextFunctions : (query.lower fresh.signature).2.FunctionsInStep
      (.ofPlaces shift onFunctions.mono onPredicates.mono) (query.lower asked.signature).2 :=
    fun count => congrArg FunctionSymbol.mk (onFunctions.after count)
  refine ⟨functions, predicates, .ofPlaces shift onFunctions.mono onPredicates.mono,
    onFunctions.mono, onPredicates.mono, ?_, ?_, rfl, rfl, ?_⟩
  · exact fun index bound => onFunctions.start index bound
  · exact fun index bound => onPredicates.start index bound
  · rw [sameFormula]
    exact @unrenamedClauses_renumber _ _ _ true [] _ nextAfter nextFunctions

/-- The two searches for an answer start with renumberings of the same clauses, those
known and those of the query. -/
theorem OnlyAsked.exists_stores {told : List SurfaceFormula} {known : List Clause}
    (onlyAsked : fresh.OnlyAsked asked) (sound : IsSound.{0} told fresh)
    (represents : Represents known fresh) (named : query.IsNamed)
    (alike : AsksAlike query fresh asked) (loweredProper : (query.lower asked.signature).2.IsProper)
    {askedClauses : List Clause} (made : (negatedQuery query fresh.signature).clauses = .ok clauses)
    (askedMade : (negatedQuery query asked.signature).clauses = .ok askedClauses)
    (ready : fresh.IsReady clauses (negatedQuery query fresh.signature).signature)
    (askedReady : asked.IsReady askedClauses (negatedQuery query asked.signature).signature)
    (proper : (negatedQuery query fresh.signature).signature.IsProper)
    (askedProper : (negatedQuery query asked.signature).signature.IsProper) :
    ∃ all : List Clause, ∃ functions predicates : Nat → Nat,
      ∃ (onFunctions : StrictMono functions) (onPredicates : StrictMono predicates),
        fresh.store.insertAll clauses = Store.empty.insertAll
          (all.map (Clause.renumber (.onCanonical proper strictMono_id strictMono_id))) ∧
        asked.store.insertAll askedClauses = Store.empty.insertAll
          (all.map (Clause.renumber (.onCanonical askedProper onFunctions onPredicates))) := by
  obtain ⟨functions, predicates, ρ, onFunctions, onPredicates, keepsFunctions, keepsPredicates,
    sameFunctions, samePredicates, renumbered⟩ :=
    alike.exists_places named onlyAsked.grows loweredProper
  obtain ⟨originals, unrenamed, isQuery⟩ := exists_onCanonical made proper rfl
  refine ⟨known ++ (Clause.canonicalAll originals .empty).1, functions, predicates, onFunctions,
    onPredicates, ?_, ?_⟩
  · have isKnown := represents.store_eq sound ready.grows proper strictMono_id strictMono_id
      (fun _ _ => rfl) fun _ _ => rfl
    rw [List.map_append, Store.insertAll_append, ← isKnown, ← isQuery]
  · rw [unrenamed] at renumbered
    have isAskedQuery := clauses_eq_of_unrenamedClauses
      (isIncreasing_of_unrenamedClauses unrenamed) renumbered askedMade askedProper rfl
      onFunctions onPredicates sameFunctions samePredicates
    have isKnown := represents.store_eq sound (onlyAsked.grows.trans askedReady.grows) askedProper
      onFunctions onPredicates keepsFunctions keepsPredicates
    rw [List.map_append, Store.insertAll_append, ← isKnown, ← isAskedQuery, onlyAsked.store]

/-- Earlier queries do not change the answer to a query that is asked alike. -/
theorem OnlyAsked.ask_eq {told askedTold : List SurfaceFormula} {known : List Clause}
    (onlyAsked : fresh.OnlyAsked asked) (sound : IsSound.{0} told fresh)
    (askedSound : IsSound.{0} askedTold asked) (orderly : asked.IsOrderly)
    (represents : Represents known fresh) (planner : fresh.planner = .start)
    (unlimited : fresh.config.limits = .unlimited) (parsed : SurfaceFormula.parse text = .ok query)
    (alike : AsksAlike query fresh asked) {first second : Except Error (Bool × KnowledgeBase)}
    (before : (fresh.ask text).Returns first) (after : (asked.ask text).Returns second) :
    ∃ proven, first.map Prod.fst = .ok proven ∧ second.map Prod.fst = .ok proven := by
  have named := SurfaceFormula.isNamed_of_parse parsed
  obtain ⟨clauses, made, ready⟩ := sound.exists_negatedQuery named
  obtain ⟨askedClauses, askedMade, askedReady⟩ := askedSound.exists_negatedQuery named
  have proper := ready.proper represents.proper
  have askedProper := askedReady.proper orderly.proper
  have loweredProper :=
    (SurfaceFormula.lower_means.{0} asked.signature named).gains.proper orderly.proper
  obtain ⟨all, functions, predicates, onFunctions, onPredicates, isStore, isAskedStore⟩ :=
    onlyAsked.exists_stores sound represents named alike loweredProper made askedMade ready
      askedReady proper askedProper
  have isOrder : (fresh.planner.orderFor (fresh.store.insertAll clauses) none).1.order =
      (EliminationOrder.compute (fresh.store.insertAll clauses) none).order := by
    rw [planner]
    rfl
  obtain ⟨start, outcome, extended, searched, isFirst⟩ := exists_search_of_ask parsed made before
  obtain ⟨askedStart, askedOutcome, _, askedSearched, isSecond⟩ :=
    exists_search_of_ask parsed askedMade after
  rw [onlyAsked.config] at askedSearched
  -- Both searches end as the one that starts with the clauses before they are renumbered.
  obtain ⟨reference, referenceSearched⟩ := exists_returns ((Store.empty.insertAll all).refute
    ⟨fresh.config, .single, .zero⟩
    (EliminationOrder.compute (Store.empty.insertAll all) none) none .empty)
  have sameStatus := refute_onCanonical unlimited proper strictMono_id strictMono_id isStore isOrder
    _ _ referenceSearched searched
  have sameAskedStatus := refute_onCanonical unlimited askedProper onFunctions onPredicates
    isAskedStore (alike.order askedClauses askedMade) _ _ referenceSearched askedSearched
  obtain ⟨refutation, rfl, -⟩ := Store.refute_succeeds ready.consistent ready.isOver
    ready.hasCanonical (fun _ mem => absurd mem (Option.not_mem_none _))
    (fun _ mem => absurd mem (Option.not_mem_none _)) searched
  refine ⟨_, isFirst, ?_⟩
  rw [isSecond, ← sameAskedStatus, sameStatus]
  rfl

end KnowledgeBase

/-- A query is answered after other queries as it is without them, when no resource is
limited, the symbols of the query are numbered in the same order, and the order in the
planner is the one that would be computed. -/
theorem ask_eq_after_queries {config : Config} (unlimited : config.limits = .unlimited)
    {texts : List String} {fresh : Conversation}
    (prepared : (Conversation.answerAll (texts.map .tell) (.start config)).Returns fresh)
    {queries : List Request} (areQueries : ∀ query ∈ queries, query.isQuery = true)
    {asked : Conversation} (answered : (Conversation.answerAll queries fresh).Returns asked)
    {text : String}
    (alike : ∀ query, SurfaceFormula.parse text = .ok query →
      KnowledgeBase.AsksAlike query fresh.kb asked.kb)
    {first second : Except Error (Bool × KnowledgeBase)}
    (before : (fresh.kb.ask text).Returns first) (after : (asked.kb.ask text).Returns second) :
    first.map Prod.fst = second.map Prod.fst ∧
      ((∃ query, SurfaceFormula.parse text = .ok query) →
        ∃ proven, second.map Prod.fst = .ok proven) := by
  obtain ⟨kept, planner, sameConfig, known, represents⟩ :=
    (Conversation.isKept_start config).tellAll (KnowledgeBase.represents_empty config) prepared
  obtain ⟨askedKept, onlyAsked⟩ := kept.askAll areQueries answered
  cases parsed : SurfaceFormula.parse text with
  | error error =>
      rw [KnowledgeBase.eq_error_of_ask parsed before, KnowledgeBase.eq_error_of_ask parsed after]
      exact ⟨rfl, nofun⟩
  | ok query =>
      have freshUnlimited : fresh.kb.config.limits = .unlimited := by
        rw [sameConfig]
        exact unlimited
      obtain ⟨proven, isFirst, isSecond⟩ := onlyAsked.ask_eq kept.sound askedKept.sound
        askedKept.orderly represents planner freshUnlimited parsed (alike query parsed) before after
      exact ⟨isFirst.trans isSecond.symm, fun _ => ⟨proven, isSecond⟩⟩

/-- A query after others that have brought in a constant, the predicate that collects
answers and the order of elimination that is used again. -/
theorem ask_eq_after_queries_rule :
    ∃ fresh asked query first second,
      (Conversation.answerAll ([("p(?x) => q(?x)" : String), "p(a)"].map .tell)
        (.start .default)).Returns fresh ∧
      (Conversation.answerAll [.askBindings "q(?x)", .ask "q(b)"] fresh).Returns asked ∧
      SurfaceFormula.parse "q(a)" = .ok query ∧
      KnowledgeBase.AsksAlike query fresh.kb asked.kb ∧
      (fresh.kb.ask "q(a)").Returns first ∧ (asked.kb.ask "q(a)").Returns second ∧
      first.map Prod.fst = second.map Prod.fst ∧ ∃ proven, second.map Prod.fst = .ok proven := by
  obtain ⟨fresh, isFresh, prepared⟩ := exists_run (Conversation.answerAll
    ([("p(?x) => q(?x)" : String), "p(a)"].map .tell) (.start .default))
  obtain ⟨asked, isAsked, answered⟩ := exists_run
    (Conversation.answerAll [.askBindings "q(?x)", .ask "q(b)"] fresh)
  have evaluated : (SurfaceFormula.parse "q(a)").toOption.map
      (fun query => decide (KnowledgeBase.AsksAlike query fresh.kb asked.kb)) = some true := by
    rw [← isAsked, ← isFresh]
    cbv
  cases parsed : SurfaceFormula.parse "q(a)" with
  | error error => simp [parsed, Except.toOption] at evaluated
  | ok query =>
      have alike : KnowledgeBase.AsksAlike query fresh.kb asked.kb := by
        simpa [parsed, Except.toOption] using evaluated
      have before := returns_run .zero none (fresh.kb.ask "q(a)")
      have after := returns_run .zero none (asked.kb.ask "q(a)")
      have same := ask_eq_after_queries rfl prepared (by decide) answered
        (fun other otherParsed => Except.ok.inj (parsed.symm.trans otherParsed) ▸ alike)
        before after
      exact ⟨fresh, asked, query, _, _, prepared, answered, rfl, alike, before, after, same.1,
        same.2 ⟨query, parsed⟩⟩

/-- A knowledge base that was told some texts answers a query with `first`, and with
`second` if it has answered other queries before. -/
def IsAnswered (config : Config) (texts : List String) (queries : List Request) (text : String)
    (first second : Bool) : Prop :=
  ∃ fresh asked before after,
    (Conversation.answerAll (texts.map .tell) (.start config)).Returns fresh ∧
    (Conversation.answerAll queries fresh).Returns asked ∧
    (fresh.kb.ask text).Returns before ∧ (asked.kb.ask text).Returns after ∧
    before.map Prod.fst = .ok first ∧ after.map Prod.fst = .ok second

theorem isAnswered_of_run {config : Config} {texts : List String} {queries : List Request}
    {text : String} {first second : Bool}
    (evaluated :
      let fresh := ((Conversation.answerAll (texts.map .tell) (.start config)).run .zero none).1
      let asked := ((Conversation.answerAll queries fresh).run .zero none).1
      (((fresh.kb.ask text).run .zero none).1.map Prod.fst,
        ((asked.kb.ask text).run .zero none).1.map Prod.fst) = (.ok first, .ok second)) :
    IsAnswered config texts queries text first second := by
  obtain ⟨isFirst, isSecond⟩ := Prod.mk.inj evaluated
  exact ⟨_, _, _, _, returns_run .zero none _, returns_run .zero none _,
    returns_run .zero none _, returns_run .zero none _, isFirst, isSecond⟩

/-- Settings without limits that allow one resolvent for each predicate. -/
def Config.oneResolvent : Config := { Config.default with maxResolutions := 1 }

/-- An earlier query can change the answer to a query: by the numbers of the predicates,
by those of the functions, and by the order that it leaves in the planner. -/
theorem ask_differs_after_query :
    Config.oneResolvent.limits = .unlimited ∧
    IsAnswered .oneResolvent [] [.ask "q"] "~((p | q) ^ (q | ~p) ^ ~q)" true false ∧
    IsAnswered .oneResolvent ["q(?x) => r(?x)"] [.ask "s(b)"] "~(q(a) ^ q(b) ^ ~r(b))"
      false true ∧
    IsAnswered .oneResolvent ["q | ~p", "~r", "q"] [.ask "r"] "q ^ ~r" true false := by
  refine ⟨rfl, isAnswered_of_run ?_, isAnswered_of_run ?_, isAnswered_of_run ?_⟩
  · cbv
  · cbv
  · cbv

end Entailment.FirstOrder
