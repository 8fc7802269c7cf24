import Entailment.Proofs.FirstOrder.Extension

/-!
# Unifiers

A solution of some equations makes both sides of each of them equal, and it
refines the substitution that was found before.  Both facts are carried by one
replacement: what the solver does after a point is to replace variables, in the
equations that are left and in what it has found.

Arguments are paired one by one, so that two applications of one symbol with
different numbers of arguments would be unified without being made equal.  This
does not happen where every symbol has one number of arguments, as it does over
a signature.

A solution also introduces no structure of its own: an application inside a term
that it puts in is an instance of an application inside the equations.
-/

namespace Entailment.FirstOrder

variable {equations : Equations} {σ τ : Substitution}

namespace Term

variable {t : Term}

/-- Every application inside a term has as many arguments as its symbol takes. -/
def HasArities (arity : FunctionSymbol → Nat) (t : Term) : Prop :=
  ∀ f args, t.HasApplication f args → args.length = arity f

variable {arity : FunctionSymbol → Nat}

@[simp]
theorem hasArities_var {v : Variable} : (var v).HasArities arity :=
  fun _ _ occurs => absurd occurs not_hasApplication_var

@[simp]
theorem hasArities_app {f : FunctionSymbol} {args : List Term} :
    (app f args).HasArities arity ↔ args.length = arity f ∧ ∀ t ∈ args, t.HasArities arity := by
  constructor
  · exact fun has => ⟨has f args .here, fun t mem g ts occurs => has g ts (.inside mem occurs)⟩
  · rintro ⟨length, inside⟩ g ts occurs
    cases occurs with
    | here => exact length
    | inside mem occurs => exact inside _ mem g ts occurs

theorem HasArities.replace {image : Variable → Term} (has : t.HasArities arity)
    (images : ∀ v ∈ t.vars, (image v).HasArities arity) : (t.replace image).HasArities arity := by
  intro f args occurs
  rcases occurs.of_replace with ⟨ss, inTerm, rfl⟩ | ⟨v, vMem, inImage⟩
  · rw [List.length_map, has f ss inTerm]
  · exact images v vMem f args inImage

theorem HasArities.apply_single {v : Variable} {s : Term} (tHas : t.HasArities arity)
    (sHas : s.HasArities arity) : ((Substitution.single v t).apply s).HasArities arity := by
  rw [Substitution.apply_eq_replace]
  refine sHas.replace fun w _ => ?_
  rw [Substitution.image_single]
  split
  · exact tHas
  · exact hasArities_var

/-- Over a signature the symbols have the arities they were declared with. -/
theorem IsOver.hasArities {signature : Signature} (isOver : t.IsOver signature) :
    t.HasArities fun f => (signature.functionInfo f).arity := by
  induction isOver with
  | var => exact hasArities_var
  | app _ length _ ih => exact hasArities_app.mpr ⟨length, ih⟩

end Term

namespace Equations

variable {property : Term → Prop} {t : Term} {rest : Equations}

/-- A replacement makes both sides of every equation equal. -/
def UnifiedBy (image : Variable → Term) (equations : Equations) : Prop :=
  ∀ equation ∈ equations, equation.1.replace image = equation.2.replace image

/-- Every application that a replacement puts in is an instance of an application
inside the equations. -/
def AccountFor (image : Variable → Term) (equations : Equations) : Prop :=
  ∀ v f args, (image v).HasApplication f args → ∃ equation ∈ equations, ∃ ss,
    (equation.1.HasApplication f ss ∨ equation.2.HasApplication f ss) ∧
      args = ss.map (Term.replace image)

/-- A replacement that solves equations, and does no more than that. -/
structure SolvedBy (image : Variable → Term) (equations : Equations) : Prop where
  unified : equations.UnifiedBy image
  accounted : equations.AccountFor image

/-- Both sides of every equation have a property. -/
def Have (property : Term → Prop) (equations : Equations) : Prop :=
  ∀ equation ∈ equations, property equation.1 ∧ property equation.2

theorem have_cons {s : Term} :
    Have property ((s, t) :: rest) ↔ (property s ∧ property t) ∧ Have property rest :=
  List.forall_mem_cons

theorem unifiedBy_cons {image : Variable → Term} {s : Term} :
    UnifiedBy image ((s, t) :: rest) ↔
      s.replace image = t.replace image ∧ UnifiedBy image rest :=
  List.forall_mem_cons

/-- A property that replacing a variable keeps is kept in all equations. -/
theorem Have.replace (has : Have property equations) {v : Variable}
    (kept : ∀ s, property s → property ((Substitution.single v t).apply s)) :
    Have property (equations.replace v t) := by
  intro equation mem
  obtain ⟨⟨l, r⟩, pairMem, rfl⟩ := List.mem_map.mp mem
  exact ⟨kept l (has _ pairMem).1, kept r (has _ pairMem).2⟩

theorem have_zip {property : Term → Prop} {ss ts : List Term} (ssHave : ∀ s ∈ ss, property s)
    (tsHave : ∀ t ∈ ts, property t) : Have property (ss.zip ts) := by
  intro equation mem
  have pairMem : (equation.1, equation.2) ∈ ss.zip ts := mem
  exact ⟨ssHave _ (List.of_mem_zip pairMem).1, tsHave _ (List.of_mem_zip pairMem).2⟩

/-- A property of the arguments is one of the equations between them. -/
theorem Have.decompose {ss ts : List Term} (ssHave : ∀ s ∈ ss, property s)
    (tsHave : ∀ t ∈ ts, property t) (has : Have property rest) :
    Have property ((ss.zip ts).reverse ++ rest) := by
  intro equation mem
  rcases List.mem_append.mp mem with mem | mem
  · exact have_zip ssHave tsHave equation (List.mem_reverse.mp mem)
  · exact has equation mem

end Equations

/-- What replacing `v` by `t` and then replacing by `image` does to a variable. -/
def bindThen (v : Variable) (t : Term) (image : Variable → Term) (w : Variable) : Term :=
  ((Substitution.single v t).image w).replace image

namespace bindThen

variable {v : Variable} {t : Term} {image : Variable → Term}

theorem replace_eq (s : Term) :
    s.replace (bindThen v t image) = ((Substitution.single v t).apply s).replace image := by
  rw [Substitution.apply_eq_replace, Term.replace_replace]
  rfl

theorem self_eq : bindThen v t image v = t.replace image := by
  rw [bindThen, Substitution.image_single, if_pos rfl]

theorem of_ne {w : Variable} (different : v ≠ w) : bindThen v t image w = image w := by
  rw [bindThen, Substitution.image_single, if_neg different, Term.replace_var]

/-- The variable does not matter for a term without it. -/
theorem replace_of_not_mem {s : Term} (absent : v ∉ s.vars) :
    s.replace (bindThen v t image) = s.replace image :=
  Term.replace_congr fun _ mem => of_ne fun same => absent (same ▸ mem)

/-- Equations after a replacement are unified by what unifies the equations
before it. -/
theorem unifiedBy (unified : (equations.replace v t).UnifiedBy image) :
    equations.UnifiedBy (bindThen v t image) := by
  intro equation mem
  rw [replace_eq, replace_eq]
  exact unified _ (List.mem_map_of_mem mem)

/-- An application inside equations after a replacement is an instance of one
inside the equations before it or stands inside the term that was put in. -/
theorem of_replace {f : FunctionSymbol} {ss : List Term} {equation : Term × Term}
    (mem : equation ∈ equations.replace v t)
    (occurs : equation.1.HasApplication f ss ∨ equation.2.HasApplication f ss) :
    (∃ before ∈ equations, ∃ us,
      (before.1.HasApplication f us ∨ before.2.HasApplication f us) ∧
        ss = us.map (Term.replace (Substitution.single v t).image)) ∨
      t.HasApplication f ss := by
  have fromTerm {s : Term} (occurs : ((Substitution.single v t).apply s).HasApplication f ss) :
      (∃ us, s.HasApplication f us ∧
        ss = us.map (Term.replace (Substitution.single v t).image)) ∨ t.HasApplication f ss := by
    rw [Substitution.apply_eq_replace] at occurs
    refine occurs.of_replace.imp_right ?_
    rintro ⟨w, -, inImage⟩
    rw [Substitution.image_single] at inImage
    split at inImage
    · exact inImage
    · exact absurd inImage Term.not_hasApplication_var
  obtain ⟨before, beforeMem, rfl⟩ := List.mem_map.mp mem
  rcases occurs with occurs | occurs
  · exact (fromTerm occurs).imp_left fun ⟨us, inSide, isInstance⟩ =>
      ⟨before, beforeMem, us, .inl inSide, isInstance⟩
  · exact (fromTerm occurs).imp_left fun ⟨us, inSide, isInstance⟩ =>
      ⟨before, beforeMem, us, .inr inSide, isInstance⟩

/-- What solves the equations after a replacement of `v` by `t` solves, after that
replacement, the equations with one more between `v` and `t`. -/
theorem solvedBy {rest : Equations} {s u : Term} (absent : v ∉ t.vars)
    (sides : s = .var v ∧ u = t ∨ s = t ∧ u = .var v)
    (solved : (rest.replace v t).SolvedBy image) :
    Equations.SolvedBy (bindThen v t image) ((s, u) :: rest) := by
  have sideOf {f : FunctionSymbol} {ss : List Term} (occurs : t.HasApplication f ss) :
      s.HasApplication f ss ∨ u.HasApplication f ss := by
    rcases sides with ⟨-, rfl⟩ | ⟨rfl, -⟩
    · exact .inr occurs
    · exact .inl occurs
  -- Inside `t` the replacement of `v` does not matter.
  have inTerm {f : FunctionSymbol} {ss : List Term} (occurs : t.HasApplication f ss) :
      ss.map (Term.replace image) = ss.map (Term.replace (bindThen v t image)) :=
    List.map_congr_left fun _ mem =>
      (replace_of_not_mem fun vMem => absent (occurs.mem_vars mem vMem)).symm
  have accounted (w : Variable) (f : FunctionSymbol) (args : List Term)
      (occurs : (image w).HasApplication f args) :
      ∃ equation ∈ (s, u) :: rest, ∃ ss,
        (equation.1.HasApplication f ss ∨ equation.2.HasApplication f ss) ∧
          args = ss.map (Term.replace (bindThen v t image)) := by
    obtain ⟨equation, mem, ss, inSide, rfl⟩ := solved.accounted w f args occurs
    rcases of_replace mem inSide with ⟨before, beforeMem, us, inBefore, rfl⟩ | inPut
    · refine ⟨before, List.mem_cons_of_mem _ beforeMem, us, inBefore, ?_⟩
      rw [List.map_map]
      refine List.map_congr_left fun x _ => ?_
      rw [Function.comp_apply, replace_eq, Substitution.apply_eq_replace]
    · exact ⟨(s, u), List.mem_cons_self .., ss, sideOf inPut, inTerm inPut⟩
  constructor
  · refine Equations.unifiedBy_cons.mpr ⟨?_, bindThen.unifiedBy solved.unified⟩
    rcases sides with ⟨rfl, rfl⟩ | ⟨rfl, rfl⟩
    · rw [Term.replace_var, self_eq, replace_of_not_mem absent]
    · rw [Term.replace_var, self_eq, replace_of_not_mem absent]
  · intro w f args occurs
    by_cases same : v = w
    · subst same
      rw [self_eq] at occurs
      rcases occurs.of_replace with ⟨ss, inPut, rfl⟩ | ⟨x, -, inImage⟩
      · exact ⟨(s, u), List.mem_cons_self .., ss, sideOf inPut, inTerm inPut⟩
      · exact accounted x f args inImage
    · rw [of_ne same] at occurs
      exact accounted w f args occurs

end bindThen

/-- Terms of equal length are equal after a replacement if their pairs are. -/
theorem map_replace_eq_of_zip {image : Variable → Term} {ss ts : List Term}
    (length : ss.length = ts.length) (unified : Equations.UnifiedBy image (ss.zip ts)) :
    ss.map (Term.replace image) = ts.map (Term.replace image) := by
  induction ss generalizing ts with
  | nil =>
      cases ts with
      | nil => rfl
      | cons t ts => cases length
  | cons s ss ih =>
      cases ts with
      | nil => cases length
      | cons t ts =>
          obtain ⟨first, rest⟩ := Equations.unifiedBy_cons.mp unified
          simp only [List.map_cons, first, ih (Nat.succ.inj length) rest]

/-- A solution refines what was found before by a replacement that solves the
equations. -/
theorem solve_solves {arity : FunctionSymbol → Nat} (solved : solve σ equations = some τ)
    (has : equations.Have (Term.HasArities arity)) :
    ∃ image, equations.SolvedBy image ∧ ∀ t, τ.apply t = (σ.apply t).replace image := by
  fun_induction solve σ equations with
  | case1 σ =>
      cases solved
      refine ⟨.var, ⟨by simp [Equations.UnifiedBy], fun v f args occurs => ?_⟩, by simp⟩
      exact absurd occurs Term.not_hasApplication_var
  | case2 σ s rest ih =>
      obtain ⟨image, ⟨unified, accounted⟩, refines⟩ :=
        ih solved (Equations.have_cons.mp has).2
      refine ⟨image, ⟨Equations.unifiedBy_cons.mpr ⟨rfl, unified⟩, fun v f args occurs => ?_⟩,
        refines⟩
      obtain ⟨equation, mem, inside⟩ := accounted v f args occurs
      exact ⟨equation, List.mem_cons_of_mem _ mem, inside⟩
  | case3 => cases solved
  | case4 σ rest v t notMentioned different ih =>
      obtain ⟨⟨-, tHas⟩, restHave⟩ := Equations.have_cons.mp has
      obtain ⟨image, restSolved, refines⟩ := ih solved (restHave.replace fun _ => tHas.apply_single)
      have absent : v ∉ t.vars := fun mem => notMentioned ((Term.mentions_iff v t).mpr mem)
      refine ⟨bindThen v t image, bindThen.solvedBy absent (.inl ⟨rfl, rfl⟩) restSolved,
        fun s => ?_⟩
      rw [refines, Substitution.apply_compose, bindThen.replace_eq]
  | case5 => cases solved
  | case6 σ rest f ss v notMentioned different ih =>
      obtain ⟨⟨sHas, -⟩, restHave⟩ := Equations.have_cons.mp has
      obtain ⟨image, restSolved, refines⟩ := ih solved (restHave.replace fun _ => sHas.apply_single)
      have absent : v ∉ (Term.app f ss).vars := fun mem =>
        notMentioned ((Term.mentions_iff v _).mpr mem)
      refine ⟨bindThen v (.app f ss) image,
        bindThen.solvedBy absent (.inr ⟨rfl, rfl⟩) restSolved, fun s => ?_⟩
      rw [refines, Substitution.apply_compose, bindThen.replace_eq]
  | case7 σ rest ss f ts different ih =>
      obtain ⟨⟨sHas, tHas⟩, restHave⟩ := Equations.have_cons.mp has
      obtain ⟨sArity, ssHave⟩ := Term.hasArities_app.mp sHas
      obtain ⟨tArity, tsHave⟩ := Term.hasArities_app.mp tHas
      obtain ⟨image, ⟨unified, accounted⟩, refines⟩ := ih solved (.decompose ssHave tsHave restHave)
      have argsUnified : Equations.UnifiedBy image (ss.zip ts) := fun equation mem =>
        unified equation (List.mem_append_left _ (List.mem_reverse.mpr mem))
      refine ⟨image, ⟨Equations.unifiedBy_cons.mpr ⟨?_, fun equation mem =>
        unified equation (List.mem_append_right _ mem)⟩, fun v g args occurs => ?_⟩, refines⟩
      · rw [Term.replace_app, Term.replace_app,
          map_replace_eq_of_zip (sArity.trans tArity.symm) argsUnified]
      · obtain ⟨⟨l, r⟩, mem, us, inSide, isInstance⟩ := accounted v g args occurs
        rcases List.mem_append.mp mem with inArgs | inRest
        · obtain ⟨inLeft, inRight⟩ := List.of_mem_zip (List.mem_reverse.mp inArgs)
          exact ⟨_, List.mem_cons_self .., us,
            inSide.imp (fun h => .inside inLeft h) (fun h => .inside inRight h), isInstance⟩
        · exact ⟨_, List.mem_cons_of_mem _ inRest, us, inSide, isInstance⟩
  | case8 => cases solved

/-- A solution of equations over a signature is a substitution by terms over
it. -/
theorem solve_isOver {signature : Signature} (solved : solve σ equations = some τ)
    (isOver : equations.Have (Term.IsOver signature)) (σOver : σ.IsOver signature) :
    τ.IsOver signature := by
  fun_induction solve σ equations with
  | case1 σ =>
      cases solved
      exact σOver
  | case2 σ s rest ih => exact ih solved (Equations.have_cons.mp isOver).2 σOver
  | case3 => cases solved
  | case4 σ rest v t notMentioned different ih =>
      obtain ⟨⟨-, tOver⟩, restOver⟩ := Equations.have_cons.mp isOver
      have restReplaced := restOver.replace fun _ => (Substitution.isOver_single v tOver).apply
      exact ih solved restReplaced (σOver.compose v tOver)
  | case5 => cases solved
  | case6 σ rest f ss v notMentioned different ih =>
      obtain ⟨⟨sOver, -⟩, restOver⟩ := Equations.have_cons.mp isOver
      have restReplaced := restOver.replace fun _ => (Substitution.isOver_single v sOver).apply
      exact ih solved restReplaced (σOver.compose v sOver)
  | case7 σ rest ss f ts different ih =>
      obtain ⟨⟨sOver, tOver⟩, restOver⟩ := Equations.have_cons.mp isOver
      exact ih solved
        (.decompose (Term.isOver_app.mp sOver).2.2 (Term.isOver_app.mp tOver).2.2 restOver) σOver
  | case8 => cases solved

/-- Replacing `v` by a term brings no variable but those of that term. -/
theorem Equations.mem_vars_of_mem_vars_replace {v x : Variable} {t : Term} (absent : v ∉ t.vars)
    (mem : x ∈ (equations.replace v t).vars) : x ∈ equations.vars ∨ x ∈ t.vars := by
  obtain ⟨equation, equationMem, side⟩ := List.mem_flatMap.mp mem
  obtain ⟨⟨l, r⟩, pairMem, rfl⟩ := List.mem_map.mp equationMem
  have inEquations (y : Variable) (side : y ∈ l.vars ∨ y ∈ r.vars) : y ∈ equations.vars :=
    List.mem_flatMap.mpr ⟨(l, r), pairMem, List.mem_append.mpr side⟩
  rcases List.mem_append.mp side with side | side
  · exact (Substitution.mem_vars_apply_single absent side).1.imp_left fun h =>
      inEquations x (.inl h)
  · exact (Substitution.mem_vars_apply_single absent side).1.imp_left fun h =>
      inEquations x (.inr h)

/-- The variables of a solution are those of what was found before and those of
the equations. -/
theorem mem_vars_solve (solved : solve σ equations = some τ) {v x : Variable}
    (mem : x ∈ (τ.image v).vars) : x ∈ (σ.image v).vars ∨ x ∈ equations.vars := by
  fun_induction solve σ equations with
  | case1 σ =>
      cases solved
      exact .inl mem
  | case2 σ s rest ih =>
      exact (ih solved).imp_right fun h => Equations.mem_vars_cons.mpr (.inr h)
  | case3 => cases solved
  | case4 σ rest w t notMentioned different ih =>
      have absent : w ∉ t.vars := fun mem => notMentioned ((Term.mentions_iff w t).mpr mem)
      rw [Equations.mem_vars_cons]
      rcases ih solved with fromFound | fromRest
      · rw [Substitution.image_compose] at fromFound
        rcases (Substitution.mem_vars_apply_single absent fromFound).1 with old | new
        · exact .inl old
        · exact .inr (.inl (.inr new))
      · rcases Equations.mem_vars_of_mem_vars_replace absent fromRest with old | new
        · exact .inr (.inr old)
        · exact .inr (.inl (.inr new))
  | case5 => cases solved
  | case6 σ rest f ss w notMentioned different ih =>
      have absent : w ∉ (Term.app f ss).vars := fun mem =>
        notMentioned ((Term.mentions_iff w _).mpr mem)
      rw [Equations.mem_vars_cons]
      rcases ih solved with fromFound | fromRest
      · rw [Substitution.image_compose] at fromFound
        rcases (Substitution.mem_vars_apply_single absent fromFound).1 with old | new
        · exact .inl old
        · exact .inr (.inl (.inl new))
      · rcases Equations.mem_vars_of_mem_vars_replace absent fromRest with old | new
        · exact .inr (.inr old)
        · exact .inr (.inl (.inl new))
  | case7 σ rest ss f ts different ih =>
      rw [Equations.mem_vars_cons]
      refine (ih solved).imp_right fun fromRest => ?_
      simp only [Equations.vars, List.flatMap_append, List.mem_append, List.mem_flatMap,
        List.mem_reverse] at fromRest
      rcases fromRest with ⟨pair, pairMem, side⟩ | old
      · exact .inl (Equations.mem_vars_zip
          (List.mem_flatMap.mpr ⟨pair, pairMem, List.mem_append.mpr side⟩))
      · exact .inr (List.mem_flatMap.mpr (by simpa using old))
  | case8 => cases solved

namespace Atom

variable {a b : Atom} {σ : Substitution} {signature : Signature}

/-- The application of `f` to `args` occurs in an atom. -/
def HasApplication (f : FunctionSymbol) (args : List Term) (a : Atom) : Prop :=
  ∃ t ∈ a.args, t.HasApplication f args

/-- Every application inside an atom has as many arguments as its symbol takes. -/
def HasArities (arity : FunctionSymbol → Nat) (a : Atom) : Prop :=
  ∀ t ∈ a.args, t.HasArities arity

theorem IsOver.hasArities (isOver : a.IsOver signature) :
    a.HasArities fun f => (signature.functionInfo f).arity :=
  fun t mem => (isOver.isOver t mem).hasArities

/-- What a unifier of two atoms does. -/
theorem exists_of_unify {arity : FunctionSymbol → Nat} (unified : a.unify b = some σ)
    (aHas : a.HasArities arity) (bHas : b.HasArities arity) :
    a.predicate = b.predicate ∧ a.args.length = b.args.length ∧
      Equations.SolvedBy σ.image (a.args.zip b.args) := by
  unfold unify at unified
  split at unified
  · cases unified
  · rename_i comparable
    obtain ⟨samePredicate, sameLength⟩ := not_or.mp comparable
    obtain ⟨image, argsSolved, refines⟩ := solve_solves unified (Equations.have_zip aHas bHas)
    have isImage : σ.image = image := funext fun v => by
      simpa [Substitution.apply_eq_replace] using refines (.var v)
    exact ⟨not_not.mp samePredicate, not_not.mp sameLength, isImage ▸ argsSolved⟩

/-- A unifier of two atoms makes them equal. -/
theorem apply_eq_of_hasArities {arity : FunctionSymbol → Nat} (unified : a.unify b = some σ)
    (aHas : a.HasArities arity) (bHas : b.HasArities arity) : a.apply σ = b.apply σ := by
  obtain ⟨samePredicate, sameLength, argsSolved⟩ := exists_of_unify unified aHas bHas
  have args := map_replace_eq_of_zip sameLength argsSolved.unified
  have isReplacement : σ.apply = Term.replace σ.image :=
    funext fun t => Substitution.apply_eq_replace σ t
  simp only [Atom.apply, isReplacement, args, samePredicate]

theorem apply_eq_of_unify (unified : a.unify b = some σ) (aOver : a.IsOver signature)
    (bOver : b.IsOver signature) : a.apply σ = b.apply σ :=
  apply_eq_of_hasArities unified aOver.hasArities bOver.hasArities

/-- An application that a unifier of two atoms puts in is an instance of one
inside the atoms. -/
theorem hasApplication_of_unify (unified : a.unify b = some σ) (aOver : a.IsOver signature)
    (bOver : b.IsOver signature) {v : Variable} {f : FunctionSymbol} {args : List Term}
    (occurs : (σ.image v).HasApplication f args) :
    ∃ ss, (a.HasApplication f ss ∨ b.HasApplication f ss) ∧ args = ss.map σ.apply := by
  obtain ⟨-, -, argsSolved⟩ := exists_of_unify unified aOver.hasArities bOver.hasArities
  obtain ⟨⟨l, r⟩, mem, ss, inSide, rfl⟩ := argsSolved.accounted v f args occurs
  obtain ⟨inLeft, inRight⟩ := List.of_mem_zip mem
  refine ⟨ss, inSide.imp (fun h => ⟨l, inLeft, h⟩) (fun h => ⟨r, inRight, h⟩), ?_⟩
  exact List.map_congr_left fun t _ => (Substitution.apply_eq_replace σ t).symm

/-- A unifier of two atoms over a signature is a substitution by terms over
it. -/
theorem isOver_of_unify (unified : a.unify b = some σ) (aOver : a.IsOver signature)
    (bOver : b.IsOver signature) : σ.IsOver signature := by
  unfold unify at unified
  split at unified
  · cases unified
  · exact solve_isOver unified (Equations.have_zip aOver.isOver bOver.isOver)
      Substitution.isOver_empty

/-- The variables that a unifier of two atoms puts in for a variable are the
variable itself and those of the atoms. -/
theorem mem_vars_of_unify (unified : a.unify b = some σ) {v x : Variable}
    (mem : x ∈ (σ.image v).vars) : x = v ∨ x ∈ a.vars ∨ x ∈ b.vars := by
  unfold unify at unified
  split at unified
  · cases unified
  · refine (mem_vars_solve unified mem).imp (fun same => ?_) Equations.mem_vars_zip
    simpa using same

end Atom

end Entailment.FirstOrder
