/-!
# First-order terms

Variables, function symbols and predicate symbols are numbers; their names and
arities are kept in a signature.  A term is a variable or a function symbol
applied to terms, and a constant is a function symbol applied to none.

Terms are compared structurally: variables come before applications, variables
are ordered by number, and applications by function symbol first and then by
their arguments from left to right.
-/

namespace Entailment.FirstOrder

/-- A variable, by its number. -/
structure Variable where
  index : Nat
  deriving DecidableEq, Repr

/-- A function symbol, by its number. -/
structure FunctionSymbol where
  index : Nat
  deriving DecidableEq, Repr

/-- A predicate symbol, by its number. -/
structure PredicateSymbol where
  index : Nat
  deriving DecidableEq, Repr

instance : Ord Variable where
  compare v w := compare v.index w.index

instance : Ord FunctionSymbol where
  compare f g := compare f.index g.index

instance : Ord PredicateSymbol where
  compare p q := compare p.index q.index

/-- A first-order term. -/
inductive Term where
  | var (v : Variable)
  | app (f : FunctionSymbol) (args : List Term)
  deriving Repr

namespace Term

/-! ## Equality and order -/

mutual

/-- Equality of terms is decidable. -/
def decEq : (s t : Term) → Decidable (s = t)
  | var v, var w =>
      if same : v = w then .isTrue (by rw [same])
      else .isFalse fun equal => same (Term.var.inj equal)
  | var _, app _ _ => .isFalse Term.noConfusion
  | app _ _, var _ => .isFalse Term.noConfusion
  | app f ss, app g ts =>
      if sameSymbol : f = g then
        match decEqArgs ss ts with
        | .isTrue sameArgs => .isTrue (by rw [sameSymbol, sameArgs])
        | .isFalse different => .isFalse fun equal => different (Term.app.inj equal).2
      else .isFalse fun equal => sameSymbol (Term.app.inj equal).1

/-- Equality of lists of terms is decidable. -/
def decEqArgs : (ss ts : List Term) → Decidable (ss = ts)
  | [], [] => .isTrue rfl
  | [], t :: ts => .isFalse (List.cons_ne_nil t ts).symm
  | s :: ss, [] => .isFalse (List.cons_ne_nil s ss)
  | s :: ss, t :: ts =>
      match decEq s t with
      | .isFalse different => .isFalse fun equal => different (List.cons.inj equal).1
      | .isTrue sameHead =>
          match decEqArgs ss ts with
          | .isTrue sameTail => .isTrue (by rw [sameHead, sameTail])
          | .isFalse different => .isFalse fun equal => different (List.cons.inj equal).2

end

instance : DecidableEq Term := decEq

mutual

/-- The order of terms. -/
def compareTerm : Term → Term → Ordering
  | var v, var w => compare v w
  | var _, app _ _ => .lt
  | app _ _, var _ => .gt
  | app f ss, app g ts => (compare f g).then (compareArgs ss ts)

/-- The lexicographic order of argument lists. -/
def compareArgs : List Term → List Term → Ordering
  | [], [] => .eq
  | [], _ :: _ => .lt
  | _ :: _, [] => .gt
  | s :: ss, t :: ts => (compareTerm s t).then (compareArgs ss ts)

end

instance : Ord Term where
  compare := compareTerm

/-! ## Variables -/

mutual

/-- The variables of a term from left to right, with repetitions. -/
def vars : Term → List Variable
  | var v => [v]
  | app _ args => varsOfArgs args

/-- The variables of some terms from left to right, with repetitions. -/
def varsOfArgs : List Term → List Variable
  | [] => []
  | t :: ts => vars t ++ varsOfArgs ts

end

mutual

/-- Whether a term has no variables. -/
def isGround : Term → Bool
  | var _ => false
  | app _ args => areGround args

/-- Whether some terms have no variables. -/
def areGround : List Term → Bool
  | [] => true
  | t :: ts => isGround t && areGround ts

end

/-- Whether a term is a constant. -/
def isConstant : Term → Bool
  | app _ [] => true
  | _ => false

mutual

/-- Whether a variable occurs in a term. -/
def mentions (v : Variable) : Term → Bool
  | var w => decide (w = v)
  | app _ args => anyMentions v args

/-- Whether a variable occurs in one of some terms. -/
def anyMentions (v : Variable) : List Term → Bool
  | [] => false
  | t :: ts => mentions v t || anyMentions v ts

end

mutual

/-- The number of symbols and variables of a term. -/
def size : Term → Nat
  | var _ => 1
  | app _ args => 1 + sizeOfArgs args

/-- The number of symbols and variables of some terms. -/
def sizeOfArgs : List Term → Nat
  | [] => 0
  | t :: ts => size t + sizeOfArgs ts

end

/-! ## Replacing variables -/

mutual

/-- Replace every variable of a term at once. -/
def replace (image : Variable → Term) : Term → Term
  | var v => image v
  | app f args => app f (replaceArgs image args)

/-- Replace every variable of some terms at once. -/
def replaceArgs (image : Variable → Term) : List Term → List Term
  | [] => []
  | t :: ts => replace image t :: replaceArgs image ts

end

/-! ## Laws

The functions above recurse through lists of arguments.  Here the recursion is
turned into ordinary functions on lists, together with an induction on terms
that has one hypothesis for all arguments. -/

section

variable {t : Term} {f : FunctionSymbol} {args : List Term}

/-- Induction on terms, with a hypothesis for every argument. -/
@[elab_as_elim, induction_eliminator]
theorem induction {motive : Term → Prop} (var : ∀ v, motive (.var v))
    (app : ∀ f args, (∀ t ∈ args, motive t) → motive (.app f args)) (t : Term) : motive t :=
  @Term.rec motive (fun args => ∀ t ∈ args, motive t) var (fun f args ih => app f args ih) (by simp)
    (fun t ts first rest s mem => (List.mem_cons.mp mem).elim (fun same => same ▸ first) (rest s))
    t

@[simp]
theorem vars_var (v : Variable) : (var v).vars = [v] := rfl

@[simp]
theorem varsOfArgs_eq (args : List Term) : varsOfArgs args = args.flatMap vars := by
  induction args with
  | nil => rfl
  | cons t ts ih => simp [varsOfArgs, ih]

@[simp]
theorem vars_app (f : FunctionSymbol) (args : List Term) :
    (app f args).vars = args.flatMap vars :=
  varsOfArgs_eq args

@[simp]
theorem areGround_eq (args : List Term) : areGround args = args.all isGround := by
  induction args with
  | nil => rfl
  | cons t ts ih => simp [areGround, ih]

@[simp]
theorem isGround_app (f : FunctionSymbol) (args : List Term) :
    (app f args).isGround = args.all isGround :=
  areGround_eq args

@[simp]
theorem replace_var (image : Variable → Term) (v : Variable) : (var v).replace image = image v :=
  rfl

@[simp]
theorem replaceArgs_eq (image : Variable → Term) (args : List Term) :
    replaceArgs image args = args.map (replace image) := by
  induction args with
  | nil => rfl
  | cons t ts ih => simp [replaceArgs, ih]

@[simp]
theorem replace_app (image : Variable → Term) (f : FunctionSymbol) (args : List Term) :
    (app f args).replace image = app f (args.map (replace image)) :=
  congrArg (app f) (replaceArgs_eq image args)

/-- A variable occurs in a term when it is one of its variables. -/
theorem mentions_iff (v : Variable) (t : Term) : t.mentions v = true ↔ v ∈ t.vars := by
  induction t with
  | var w => simp [mentions, eq_comm]
  | app f args ih =>
      have inArgs : anyMentions v args = args.any (mentions v) := by
        clear ih
        induction args with
        | nil => rfl
        | cons t ts ih => simp [anyMentions, ih]
      rw [mentions, inArgs, List.any_eq_true, vars_app, List.mem_flatMap]
      exact exists_congr fun t => and_congr_right (ih t)

/-- A ground term has no variables. -/
theorem vars_eq_nil_of_isGround (ground : t.isGround = true) : t.vars = [] := by
  induction t with
  | var v => cases ground
  | app f args ih =>
      rw [isGround_app, List.all_eq_true] at ground
      exact vars_app f args ▸ List.flatMap_eq_nil_iff.mpr fun t mem => ih t mem (ground t mem)

theorem varsOfArgs_eq_nil_of_areGround {args : List Term} (ground : areGround args = true) :
    varsOfArgs args = [] := by
  rw [areGround_eq, List.all_eq_true] at ground
  rw [varsOfArgs_eq, List.flatMap_eq_nil_iff]
  exact fun t mem => vars_eq_nil_of_isGround (ground t mem)

/-- The variables of a term after a replacement come from the replaced ones. -/
theorem mem_vars_replace {image : Variable → Term} {x : Variable}
    (mem : x ∈ (t.replace image).vars) : ∃ v ∈ t.vars, x ∈ (image v).vars := by
  induction t with
  | var v => exact ⟨v, List.mem_singleton_self v, mem⟩
  | app f args ih =>
      simp only [replace_app, vars_app, List.flatMap_map, List.mem_flatMap] at mem ⊢
      obtain ⟨t, tMem, mem⟩ := mem
      obtain ⟨v, vMem, mem⟩ := ih t tMem mem
      exact ⟨v, ⟨t, tMem, vMem⟩, mem⟩

/-- A replacement depends on the images of the variables of the term only. -/
theorem replace_congr {image other : Variable → Term} (same : ∀ v ∈ t.vars, image v = other v) :
    t.replace image = t.replace other := by
  induction t with
  | var v => exact same v (by simp)
  | app f args ih =>
      simp only [replace_app, app.injEq, true_and]
      refine List.map_congr_left fun t mem => ih t mem fun v vMem => same v ?_
      simpa using ⟨t, mem, vMem⟩

/-- Replacing every variable by itself changes nothing. -/
@[simp]
theorem replace_self (t : Term) : t.replace var = t := by
  induction t with
  | var v => rfl
  | app f args ih =>
      rw [replace_app, List.map_congr_left ih, List.map_id']

/-- Two replacements one after the other are one replacement. -/
theorem replace_replace (image other : Variable → Term) (t : Term) :
    (t.replace image).replace other = t.replace fun v => (image v).replace other := by
  induction t with
  | var v => rfl
  | app f args ih =>
      simp only [replace_app, List.map_map, app.injEq, true_and]
      exact List.map_congr_left ih

/-- A term without variables stays as it is. -/
theorem replace_of_isGround (ground : t.isGround = true) (image : Variable → Term) :
    t.replace image = t := by
  have noVariable : ∀ v ∈ t.vars, image v = var v := by
    simp [vars_eq_nil_of_isGround ground]
  rw [replace_congr noVariable, replace_self]

end

end Term

end Entailment.FirstOrder
