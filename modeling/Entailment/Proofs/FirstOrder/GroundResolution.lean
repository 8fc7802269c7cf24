import Entailment.Proofs.FirstOrder.ResolventSoundness
import Entailment.Proofs.FirstOrder.Tautologies
import Mathlib.Logic.Function.Basic

/-!
# Resolution of ground clauses

A ground clause is its own only instance, so its atoms may be taken for
propositions.  Renaming leaves it as it is, and two ground atoms unify when they
are equal.  What resolution does to two ground clauses is then a matter of
propositional logic: the resolvent has the literals of both clauses without the
two that are resolved upon.

The main result is about clauses that are saturated, which means that their
resolvents on a predicate are among them again or need not be.  If the resolvents
without the predicate are true, then truth values for the atoms of the predicate
can be chosen so that all clauses are true.  The values are chosen for one atom
after the other: where neither value will do there are two clauses that object,
and their resolvent objects to the values chosen before.
-/

namespace Entailment.FirstOrder

/-! ## Ground atoms and clauses -/

theorem Atom.apply_of_isGround {a : Atom} (ground : a.isGround = true) (σ : Substitution) :
    a.apply σ = a := by
  have areGround : ∀ t ∈ a.args, t.isGround = true := by
    simpa [Atom.isGround, Term.areGround_eq] using ground
  have args : a.args.map σ.apply = a.args.map id :=
    List.map_congr_left fun t mem => by
      rw [Substitution.apply_eq_replace, Term.replace_of_isGround (areGround t mem), id]
  rw [Atom.apply, args, List.map_id]

theorem solve_zip_self (args : List Term) : solve .empty (args.zip args) = some .empty := by
  induction args with
  | nil => simp [solve]
  | cons t ts ih =>
      rw [List.zip_cons_cons, solve.eq_def]
      simpa only [if_true] using ih

/-- Two ground atoms over a signature unify when they are equal, and nothing has
to be put in. -/
theorem Atom.unify_eq_some_iff {signature : Signature} {a b : Atom} {σ : Substitution}
    (aOver : a.IsOver signature) (bOver : b.IsOver signature) (aGround : a.isGround = true)
    (bGround : b.isGround = true) : a.unify b = some σ ↔ a = b ∧ σ = .empty := by
  have unify_self : a.unify a = some .empty := by
    rw [Atom.unify, if_neg (by simp), solve_zip_self]
  constructor
  · intro unified
    have same := apply_eq_of_unify unified aOver bOver
    rw [apply_of_isGround aGround, apply_of_isGround bGround] at same
    subst same
    rw [unify_self] at unified
    exact ⟨rfl, (Option.some.inj unified).symm⟩
  · rintro ⟨rfl, rfl⟩
    exact unify_self

namespace Clause

variable {a : Atom} {atoms : List Atom} {clauses : List Clause}

theorem vars_of_isGround {c : Clause} (ground : c.isGround = true) : c.vars = [] := by
  have areGround : ∀ literal ∈ c.literals, literal.atom.vars = [] := fun literal mem =>
    Term.varsOfArgs_eq_nil_of_areGround (List.all_eq_true.mp ground literal mem)
  have noVars : c.literals.flatMap (fun literal => literal.atom.vars) = [] :=
    List.flatMap_eq_nil_iff.mpr areGround
  rw [Clause.vars, noVars, List.eraseDups_nil]

theorem renameFrom_of_isGround {c : Clause} (ground : c.isGround = true) (signature : Signature)
    (next : Nat) : c.renameFrom signature next = c := by
  rw [renameFrom, vars_of_isGround ground]
  rfl

/-- Renaming two ground clauses apart does nothing. -/
theorem renameApart_of_isGround {c d : Clause} (cGround : c.isGround = true)
    (dGround : d.isGround = true) (signature : Signature) :
    c.renameApart d signature = (c, d, signature) := by
  have noneNeeded : signature.reserveCanonical 0 = signature := by
    rw [Signature.reserveCanonical, Nat.zero_sub, Signature.addCanonical]
  simp only [renameApart, standardizeApart, vars_of_isGround cGround, vars_of_isGround dGround,
    List.length_nil, Nat.add_zero, noneNeeded, renameFrom_of_isGround cGround,
    renameFrom_of_isGround dGround]

/-- A ground clause over a signature with its literals in order. -/
structure IsGroundOver (signature : Signature) (c : Clause) : Prop where
  isGround : c.isGround = true
  isOver : c.IsOver signature
  isIncreasing : Sorted.IsIncreasing c.literals

theorem isGroundOver_ofList {signature : Signature} {literals : List (Literal Atom)}
    (isGround : ∀ literal ∈ literals, literal.atom.isGround = true)
    (isOver : ∀ literal ∈ literals, literal.atom.IsOver signature) :
    (ofList literals).IsGroundOver signature where
  isGround := List.all_eq_true.mpr fun literal mem => isGround literal (Sorted.mem_ofList.mp mem)
  isOver literal mem := isOver literal (Sorted.mem_ofList.mp mem)
  isIncreasing := Sorted.isIncreasing_ofList literals

/-- What is left of two clauses when an atom of a predicate, positive in the
first and negative in the second, is resolved upon. -/
inductive GroundResolvent (p : PredicateSymbol) (c d : Clause) : Clause → Prop
  | intro (a : Atom) (place otherPlace : Nat) (onPredicate : a.predicate = p)
      (found : c.literals[place]? = some (.positive a))
      (otherFound : d.literals[otherPlace]? = some (.negative a)) :
      GroundResolvent p c d (ofList (c.without place ++ d.without otherPlace))

variable {signature : Signature} {p : PredicateSymbol} {c d r : Clause}

theorem IsGroundOver.isGround_atom (ground : c.IsGroundOver signature) {literal : Literal Atom}
    (mem : literal ∈ c.literals) : literal.atom.isGround = true :=
  List.all_eq_true.mp ground.isGround literal mem

namespace GroundResolvent

/-- A literal of a resolvent is a literal of one of the two clauses. -/
theorem mem_or_mem (resolvent : GroundResolvent p c d r) {literal : Literal Atom}
    (mem : literal ∈ r.literals) : literal ∈ c.literals ∨ literal ∈ d.literals := by
  cases resolvent with
  | intro a place otherPlace =>
      rcases List.mem_append.mp (Sorted.mem_ofList.mp mem) with mem | mem
      · exact .inl (mem_of_mem_without mem)
      · exact .inr (mem_of_mem_without mem)

theorem isGroundOver (resolvent : GroundResolvent p c d r) (cGround : c.IsGroundOver signature)
    (dGround : d.IsGroundOver signature) : r.IsGroundOver signature := by
  have fromEither {property : Atom → Prop} (inC : ∀ literal ∈ c.literals, property literal.atom)
      (inD : ∀ literal ∈ d.literals, property literal.atom) :
      ∀ literal ∈ r.literals, property literal.atom := by
    intro literal mem
    rcases resolvent.mem_or_mem mem with mem | mem
    · exact inC literal mem
    · exact inD literal mem
  have isIncreasing : Sorted.IsIncreasing r.literals := by
    cases resolvent
    exact Sorted.isIncreasing_ofList _
  refine ⟨List.all_eq_true.mpr ?_, ?_, isIncreasing⟩
  · exact @fromEither (fun a => a.isGround = true) (fun _ => cGround.isGround_atom)
      fun _ => dGround.isGround_atom
  · exact fromEither cGround.isOver dGround.isOver

/-- A predicate of a resolvent is one of the two clauses. -/
theorem mentions_or_mentions (resolvent : GroundResolvent p c d r) {q : PredicateSymbol}
    (mentioned : r.mentions q = true) : c.mentions q = true ∨ d.mentions q = true := by
  obtain ⟨literal, mem, onIt⟩ := List.any_eq_true.mp mentioned
  rcases resolvent.mem_or_mem mem with mem | mem
  · exact .inl (List.any_eq_true.mpr ⟨literal, mem, onIt⟩)
  · exact .inr (List.any_eq_true.mpr ⟨literal, mem, onIt⟩)

end GroundResolvent

/-- The resolvents of two ground clauses, as they are computed. -/
theorem mem_resolvents_iff (cGround : c.IsGroundOver signature)
    (dGround : d.IsGroundOver signature) :
    r ∈ Attempt.resolvents signature (c.attempts p d) ↔ GroundResolvent p c d r := by
  have unify_iff {a b : Atom} {place otherPlace : Nat} {σ : Substitution}
      (found : c.literals[place]? = some (.positive a))
      (otherFound : d.literals[otherPlace]? = some (.negative b)) :
      a.unify b = some σ ↔ a = b ∧ σ = .empty :=
    Atom.unify_eq_some_iff (cGround.isOver _ (List.mem_of_getElem? found))
      (dGround.isOver _ (List.mem_of_getElem? otherFound))
      (cGround.isGround_atom (List.mem_of_getElem? found))
      (dGround.isGround_atom (List.mem_of_getElem? otherFound))
  have normalize_eq {r : Clause} (resolvent : GroundResolvent p c d r) :
      r.normalize signature = r :=
    renameFrom_of_isGround (resolvent.isGroundOver cGround dGround).isGround signature 0
  constructor
  · intro mem
    obtain ⟨attempt, attemptMem, given⟩ := List.mem_filterMap.mp mem
    obtain ⟨resolved, isResolved, rfl⟩ := Option.map_eq_some_iff.mp given
    obtain ⟨a, b, place, otherPlace, σ, found, otherFound, onPredicate, -, -, unified, rfl⟩ :=
      Attempt.exists_of_resolvent? attemptMem isResolved
    obtain ⟨rfl, rfl⟩ := (unify_iff found otherFound).mp unified
    have resolvent := GroundResolvent.intro a place otherPlace onPredicate found otherFound
    rw [show (ofList (c.without place ++ d.without otherPlace)).apply .empty =
      ofList (c.without place ++ d.without otherPlace) from rfl, normalize_eq resolvent]
    exact resolvent
  · intro resolvent
    have normalized := normalize_eq resolvent
    cases resolvent with
    | intro a place otherPlace onPredicate found otherFound =>
        have unified := (unify_iff found otherFound).mpr ⟨rfl, rfl⟩
        refine List.mem_filterMap.mpr ⟨_, mem_attempts.mpr ⟨a, a, place, otherPlace, found,
          otherFound, onPredicate, onPredicate, rfl⟩, ?_⟩
        rw [Attempt.resolvent?, unified]
        exact congrArg some normalized

/-! ## Truth -/

/-- The truth of a clause, where the ground atoms have truth values. -/
def IsTrue (truth : Atom → Prop) (c : Clause) : Prop := Disjunction.Holds truth c.literals

variable {truth other : Atom → Prop}

theorem not_isTrue_empty : ¬empty.IsTrue truth := by
  rintro ⟨literal, mem, -⟩
  cases mem

/-- The truth of a clause depends on its atoms only. -/
theorem isTrue_congr (same : ∀ literal ∈ c.literals, (truth literal.atom ↔ other literal.atom)) :
    c.IsTrue truth ↔ c.IsTrue other := by
  refine exists_congr fun literal => and_congr_right fun mem => ?_
  obtain ⟨a, sign⟩ := literal
  cases sign with
  | positive => exact same _ mem
  | negative => exact not_congr (same _ mem)

theorem isTrue_of_isTautology (tautology : c.isTautology = true) : c.IsTrue truth := by
  obtain ⟨a, isPositive, isNegative⟩ := isTautology_iff.mp tautology
  exact Disjunction.holds_of_mem_of_mem isPositive isNegative

/-- A resolvent is true where the two clauses are. -/
theorem GroundResolvent.isTrue (resolvent : GroundResolvent p c d r) (cTrue : c.IsTrue truth)
    (dTrue : d.IsTrue truth) : r.IsTrue truth := by
  cases resolvent with
  | intro a place otherPlace _ found otherFound =>
      obtain ⟨literal, mem, holds⟩ := cTrue
      obtain ⟨otherLiteral, otherMem, otherHolds⟩ := dTrue
      rcases eq_or_mem_without found mem with rfl | kept
      · rcases eq_or_mem_without otherFound otherMem with rfl | otherKept
        · exact absurd holds otherHolds
        · exact ⟨otherLiteral, Sorted.mem_ofList.mpr (List.mem_append_right _ otherKept),
            otherHolds⟩
      · exact ⟨literal, Sorted.mem_ofList.mpr (List.mem_append_left _ kept), holds⟩

/-! ## Saturated clauses -/

/-- Every resolvent of the clauses on a predicate is a tautology, is true and
without the predicate, or is one of the clauses. -/
structure AreSaturated (p : PredicateSymbol) (truth : Atom → Prop) (clauses : List Clause) :
    Prop where
  isIncreasing : ∀ c ∈ clauses, Sorted.IsIncreasing c.literals
  mentions : ∀ c ∈ clauses, c.mentions p = true
  resolvent : ∀ c ∈ clauses, ∀ d ∈ clauses, c ≠ d → ∀ r, GroundResolvent p c d r →
    r.isTautology = true ∨ (r.mentions p = false ∧ r.IsTrue truth) ∨ r ∈ clauses

/-- The atoms of a clause on a predicate are among the given ones. -/
def AtomsIn (p : PredicateSymbol) (atoms : List Atom) (c : Clause) : Prop :=
  ∀ literal ∈ c.literals, literal.atom.predicate = p → literal.atom ∈ atoms

theorem holds_update_iff {value : Prop} {literal : Literal Atom} (different : literal.atom ≠ a) :
    literal.Holds (Function.update truth a value) ↔ literal.Holds truth := by
  unfold Literal.Holds
  rw [Function.update_of_ne different]

/-- A clause that becomes false when an atom gets a value, and would not have been
false before: it has a literal on the atom, which is false, and its other literals
are false already. -/
theorem exists_of_not_isTrue_update {value : Prop} (isIncreasing : Sorted.IsIncreasing c.literals)
    (atomsIn : c.AtomsIn p (a :: atoms)) (fails : ¬c.IsTrue (Function.update truth a value))
    (before : c.AtomsIn p atoms → c.IsTrue truth) :
    ∃ place chosen, c.literals[place]? = some chosen ∧ chosen.atom = a ∧
      ¬chosen.Holds (Function.update truth a value) ∧
      ∀ literal ∈ c.without place, literal.atom ≠ a ∧ ¬literal.Holds truth := by
  have isFalse (literal : Literal Atom) (mem : literal ∈ c.literals) :
      ¬literal.Holds (Function.update truth a value) :=
    fun holds => fails ⟨literal, mem, holds⟩
  have hasAtom : ∃ literal ∈ c.literals, literal.atom = a := by
    by_contra absent
    simp only [not_exists, not_and] at absent
    have trueBefore := before fun literal mem onPredicate =>
      (List.mem_cons.mp (atomsIn literal mem onPredicate)).resolve_left (absent literal mem)
    apply fails
    refine (isTrue_congr fun literal mem => ?_).mp trueBefore
    rw [Function.update_of_ne (absent literal mem)]
  obtain ⟨chosen, chosenMem, isAtom⟩ := hasAtom
  obtain ⟨place, found⟩ := List.mem_iff_getElem?.mp chosenMem
  refine ⟨place, chosen, found, isAtom, isFalse chosen chosenMem, fun literal mem => ?_⟩
  obtain ⟨otherPlace, elsewhere, otherFound⟩ := mem_without.mp mem
  have literalFalse := isFalse literal (mem_of_mem_without mem)
  -- Another literal on the atom would be the complement of the chosen one.
  have different : literal.atom ≠ a := by
    intro sameAtom
    have notChosen : literal ≠ chosen := by
      rintro rfl
      have bound := (List.getElem?_eq_some_iff.mp otherFound).1
      exact elsewhere
        ((List.getElem?_inj bound isIncreasing.nodup).mp (otherFound.trans found.symm))
    rcases Literal.holds_or_holds (sameAtom.trans isAtom.symm) notChosen with holds | holds
    · exact literalFalse holds
    · exact isFalse chosen chosenMem holds
  exact ⟨different, fun holds => literalFalse ((holds_update_iff different).mpr holds)⟩

/-- Two clauses that object to one value of an atom each have a resolvent that
objects to the values of the other atoms. -/
theorem exists_resolvent_of_not_isTrue (onPredicate : a.predicate = p)
    (cIncreasing : Sorted.IsIncreasing c.literals) (dIncreasing : Sorted.IsIncreasing d.literals)
    (cAtoms : c.AtomsIn p (a :: atoms)) (dAtoms : d.AtomsIn p (a :: atoms))
    (cFails : ¬c.IsTrue (Function.update truth a False))
    (dFails : ¬d.IsTrue (Function.update truth a True))
    (cBefore : c.AtomsIn p atoms → c.IsTrue truth) (dBefore : d.AtomsIn p atoms → d.IsTrue truth) :
    c ≠ d ∧ ∃ r, GroundResolvent p c d r ∧ r.AtomsIn p atoms ∧ ¬r.IsTrue truth := by
  obtain ⟨place, chosen, found, isAtom, isFalse, others⟩ :=
    exists_of_not_isTrue_update cIncreasing cAtoms cFails cBefore
  obtain ⟨otherPlace, otherChosen, otherFound, isOtherAtom, isOtherFalse, othersToo⟩ :=
    exists_of_not_isTrue_update dIncreasing dAtoms dFails dBefore
  -- The value `False` makes a positive literal false, and `True` a negative one.
  obtain rfl : chosen = .positive a := by
    obtain ⟨b, sign⟩ := chosen
    subst isAtom
    cases sign with
    | positive => rfl
    | negative => simp [Literal.Holds] at isFalse
  obtain rfl : otherChosen = .negative a := by
    obtain ⟨b, sign⟩ := otherChosen
    subst isOtherAtom
    cases sign with
    | positive => simp [Literal.Holds] at isOtherFalse
    | negative => rfl
  have different : c ≠ d := by
    rintro rfl
    apply cFails
    refine ⟨.negative a, List.mem_of_getElem? otherFound, ?_⟩
    simp [Literal.Holds, Literal.negative]
  refine ⟨different, _, .intro a place otherPlace onPredicate found otherFound, ?_, ?_⟩
  · intro literal mem onIt
    rcases List.mem_append.mp (Sorted.mem_ofList.mp mem) with mem | mem
    · have inList := cAtoms literal (mem_of_mem_without mem) onIt
      exact (List.mem_cons.mp inList).resolve_left (others literal mem).1
    · have inList := dAtoms literal (mem_of_mem_without mem) onIt
      exact (List.mem_cons.mp inList).resolve_left (othersToo literal mem).1
  · rintro ⟨literal, mem, holds⟩
    rcases List.mem_append.mp (Sorted.mem_ofList.mp mem) with mem | mem
    · exact (others literal mem).2 holds
    · exact (othersToo literal mem).2 holds

/-- One more atom gets a value. -/
theorem AreSaturated.exists_value (saturated : AreSaturated p truth clauses)
    {extended : Atom → Prop} (agrees : ∀ a, a.predicate ≠ p → (extended a ↔ truth a))
    (good : ∀ c ∈ clauses, c.AtomsIn p atoms → c.IsTrue extended) (onPredicate : a.predicate = p) :
    ∃ value : Prop, ∀ c ∈ clauses, c.AtomsIn p (a :: atoms) →
      c.IsTrue (Function.update extended a value) := by
  by_contra noValue
  have objects (value : Prop) : ∃ c ∈ clauses, c.AtomsIn p (a :: atoms) ∧
      ¬c.IsTrue (Function.update extended a value) := by
    by_contra noObjection
    simp only [not_exists, not_and, not_not] at noObjection
    exact noValue ⟨value, noObjection⟩
  obtain ⟨c, cMem, cAtoms, cFails⟩ := objects False
  obtain ⟨d, dMem, dAtoms, dFails⟩ := objects True
  obtain ⟨different, r, resolvent, atomsIn, isFalse⟩ := exists_resolvent_of_not_isTrue onPredicate
    (saturated.isIncreasing c cMem) (saturated.isIncreasing d dMem) cAtoms dAtoms cFails dFails
    (good c cMem) (good d dMem)
  apply isFalse
  rcases saturated.resolvent c cMem d dMem different r resolvent with
    tautology | ⟨notMentioned, isTrue⟩ | inClauses
  · exact isTrue_of_isTautology tautology
  · refine (isTrue_congr fun literal mem => agrees _ fun onIt => ?_).mpr isTrue
    have mentioned : r.mentions p = true := List.any_eq_true.mpr ⟨literal, mem, decide_eq_true onIt⟩
    simp [notMentioned] at mentioned
  · exact good r inClauses atomsIn

/-- Truth values for some atoms of the predicate that make all saturated clauses
true whose atoms on the predicate are among them. -/
theorem AreSaturated.exists_extension (saturated : AreSaturated p truth clauses)
    (onPredicate : ∀ a ∈ atoms, a.predicate = p) :
    ∃ extended : Atom → Prop, (∀ a, a.predicate ≠ p → (extended a ↔ truth a)) ∧
      ∀ c ∈ clauses, c.AtomsIn p atoms → c.IsTrue extended := by
  induction atoms with
  | nil =>
      refine ⟨truth, fun _ _ => Iff.rfl, fun c mem atomsIn => ?_⟩
      obtain ⟨literal, literalMem, onIt⟩ := List.any_eq_true.mp (saturated.mentions c mem)
      cases atomsIn literal literalMem (of_decide_eq_true onIt)
  | cons a rest ih =>
      obtain ⟨aOnPredicate, restOnPredicate⟩ := List.forall_mem_cons.mp onPredicate
      obtain ⟨extended, agrees, good⟩ := ih restOnPredicate
      obtain ⟨value, goodValue⟩ := saturated.exists_value agrees good aOnPredicate
      refine ⟨Function.update extended a value, fun b elsewhere => ?_, goodValue⟩
      have different : b ≠ a := by
        rintro rfl
        exact elsewhere aOnPredicate
      rw [Function.update_of_ne different, agrees b elsewhere]

/-- Truth values for the atoms of a predicate that make all saturated clauses
true. -/
theorem AreSaturated.exists_isTrue (saturated : AreSaturated p truth clauses) :
    ∃ extended : Atom → Prop, (∀ a, a.predicate ≠ p → (extended a ↔ truth a)) ∧
      ∀ c ∈ clauses, c.IsTrue extended := by
  have onPredicate : ∀ a ∈ (clauses.flatMap fun c => c.literals.map Literal.atom).filter
      (fun a => decide (a.predicate = p)), a.predicate = p :=
    fun a mem => of_decide_eq_true (List.mem_filter.mp mem).2
  obtain ⟨extended, agrees, good⟩ := saturated.exists_extension onPredicate
  refine ⟨extended, agrees, fun c mem => good c mem fun literal literalMem onIt => ?_⟩
  exact List.mem_filter.mpr ⟨List.mem_flatMap.mpr ⟨c, mem, List.mem_map_of_mem literalMem⟩,
    decide_eq_true onIt⟩

end Clause

end Entailment.FirstOrder
