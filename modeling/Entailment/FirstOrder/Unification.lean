import Entailment.FirstOrder.Substitution
import Entailment.Order.Distinct

/-!
# Unification

Two terms are unified by solving a list of equations from the front.  An
equation between equal terms is dropped, an equation between applications of
one symbol is replaced by the equations between their arguments, and an
equation between a variable and a term without it replaces the variable in all
other equations and in the solution found so far.  Every other equation has no
solution.

Binding a variable removes it from the equations, and the other steps remove
symbols and add no variable.  So the number of variables that are left and the
size of the equations decrease together in lexicographic order.
-/

namespace Entailment.FirstOrder

/-- Equations between terms. -/
abbrev Equations := List (Term × Term)

namespace Equations

/-- The variables of some equations, with repetitions. -/
def vars (equations : Equations) : List Variable :=
  equations.flatMap fun (s, t) => s.vars ++ t.vars

/-- The number of different variables of some equations. -/
def variableCount (equations : Equations) : Nat :=
  equations.vars.eraseDups.length

/-- The number of symbols and variables of some equations. -/
def size : Equations → Nat
  | [] => 0
  | (s, t) :: rest => s.size + t.size + size rest

/-- Replace one variable in some equations. -/
def replace (v : Variable) (t : Term) (equations : Equations) : Equations :=
  equations.map fun (l, r) =>
    ((Substitution.single v t).apply l, (Substitution.single v t).apply r)

end Equations

/-! ## The measure of a list of equations -/

namespace Term

/-- Every term has at least one symbol or variable. -/
theorem size_pos (t : Term) : 0 < t.size := by
  cases t with
  | var v => exact Nat.one_pos
  | app f args =>
      simp only [size]
      omega

end Term

/-- After replacing `v` by a term without it, `v` is gone and nothing else is
new but the variables of that term. -/
theorem Substitution.mem_vars_apply_single {v x : Variable} {r t : Term}
    (fresh : v ∉ r.vars) (mem : x ∈ ((single v r).apply t).vars) :
    (x ∈ t.vars ∨ x ∈ r.vars) ∧ x ≠ v := by
  rw [apply_eq_replace] at mem
  obtain ⟨w, wMem, xMem⟩ := Term.mem_vars_replace mem
  rw [image_single] at xMem
  split at xMem
  · exact ⟨.inr xMem, fun equal => fresh (equal ▸ xMem)⟩
  · rename_i different
    obtain rfl := List.mem_singleton.mp xMem
    exact ⟨.inl wMem, Ne.symm different⟩

namespace Equations

theorem mem_vars_cons {x : Variable} {s t : Term} {rest : Equations} :
    x ∈ vars ((s, t) :: rest) ↔ (x ∈ s.vars ∨ x ∈ t.vars) ∨ x ∈ rest.vars := by
  simp [vars, or_assoc]

/-- Dropping the first equation leaves no more variables. -/
theorem variableCount_tail_le (s t : Term) (rest : Equations) :
    variableCount rest ≤ variableCount ((s, t) :: rest) :=
  length_eraseDups_le fun _ mem => mem_vars_cons.mpr (.inr mem)

/-- Dropping the first equation leaves fewer symbols. -/
theorem size_tail_lt (s t : Term) (rest : Equations) : size rest < size ((s, t) :: rest) := by
  have := s.size_pos
  simp only [size]
  omega

/-- Solving an equation for a variable leaves fewer variables. -/
theorem variableCount_replace_lt {v : Variable} {r : Term} {rest equations : Equations}
    (fresh : v ∉ r.vars)
    (bound : ∀ x, (x = v ∨ x ∈ r.vars ∨ x ∈ rest.vars) → x ∈ equations.vars) :
    (rest.replace v r).variableCount < equations.variableCount := by
  refine length_eraseDups_lt (fun x mem => ?_) (bound v (.inl rfl))
  simp only [vars, replace, List.mem_flatMap, List.mem_map, List.mem_append] at mem
  obtain ⟨_, ⟨⟨l, s⟩, pairMem, rfl⟩, sides⟩ := mem
  have inRest : ∀ y, y ∈ l.vars ∨ y ∈ s.vars → y ∈ vars rest := fun y side =>
    List.mem_flatMap.mpr ⟨(l, s), pairMem, List.mem_append.mpr side⟩
  rcases sides with side | side
  · obtain ⟨origin, ne⟩ := Substitution.mem_vars_apply_single fresh side
    exact ⟨bound x (origin.elim (fun h => .inr (.inr (inRest x (.inl h))))
      fun h => .inr (.inl h)), ne⟩
  · obtain ⟨origin, ne⟩ := Substitution.mem_vars_apply_single fresh side
    exact ⟨bound x (origin.elim (fun h => .inr (.inr (inRest x (.inr h))))
      fun h => .inr (.inl h)), ne⟩

/-- The variables of paired arguments are those of the arguments. -/
theorem mem_vars_zip {x : Variable} {ss ts : List Term} :
    x ∈ vars (ss.zip ts) → x ∈ Term.varsOfArgs ss ∨ x ∈ Term.varsOfArgs ts := by
  induction ss generalizing ts with
  | nil => simp [vars]
  | cons s ss ih =>
      cases ts with
      | nil => simp [vars]
      | cons t ts =>
          intro mem
          rw [List.zip_cons_cons, mem_vars_cons] at mem
          simp only [Term.varsOfArgs, List.mem_append]
          rcases mem with (mem | mem) | mem
          · exact .inl (.inl mem)
          · exact .inr (.inl mem)
          · exact (ih mem).imp .inr .inr

theorem size_append (equations others : Equations) :
    size (equations ++ others) = size equations + size others := by
  induction equations with
  | nil => simp [size]
  | cons equation rest ih =>
      simp only [List.cons_append, size, ih]
      omega

theorem size_reverse (equations : Equations) : size equations.reverse = size equations := by
  induction equations with
  | nil => rfl
  | cons equation rest ih =>
      simp only [List.reverse_cons, size_append, size, ih]
      omega

/-- Paired arguments are no larger than the arguments. -/
theorem size_zip_le (ss ts : List Term) :
    size (ss.zip ts) ≤ Term.sizeOfArgs ss + Term.sizeOfArgs ts := by
  induction ss generalizing ts with
  | nil => simp [size]
  | cons s ss ih =>
      cases ts with
      | nil => simp [size]
      | cons t ts =>
          have := ih ts
          simp only [size, List.zip_cons_cons, Term.sizeOfArgs] at this ⊢
          omega

/-- The equations between arguments have no variable that the equation between
the applications lacks. -/
theorem variableCount_decompose_le (f g : FunctionSymbol) (ss ts : List Term)
    (rest : Equations) :
    variableCount ((ss.zip ts).reverse ++ rest) ≤
      variableCount ((.app f ss, .app g ts) :: rest) := by
  refine length_eraseDups_le fun x mem => ?_
  rw [mem_vars_cons]
  simp only [vars, List.flatMap_append, List.mem_append, List.mem_flatMap,
    List.mem_reverse] at mem
  rcases mem with ⟨pair, pairMem, side⟩ | mem
  · exact .inl (mem_vars_zip (List.mem_flatMap.mpr ⟨pair, pairMem, List.mem_append.mpr side⟩))
  · exact .inr (List.mem_flatMap.mpr (by simpa using mem))

/-- The equations between arguments are smaller than the equation between the
applications. -/
theorem size_decompose_lt (f g : FunctionSymbol) (ss ts : List Term) (rest : Equations) :
    size ((ss.zip ts).reverse ++ rest) < size ((.app f ss, .app g ts) :: rest) := by
  have := size_zip_le ss ts
  simp only [size_append, size_reverse, size, Term.size]
  omega

/-- The order of the measure: no more variables and fewer symbols. -/
theorem lex_of_le_of_lt {a b c d : Nat} (le : a ≤ c) (lt : b < d) :
    Prod.Lex (· < ·) (· < ·) (a, b) (c, d) := by
  rcases Nat.lt_or_eq_of_le le with less | rfl
  · exact .left _ _ less
  · exact .right _ lt

end Equations

/-! ## Solving equations -/

/-- Solve equations from the front, after `σ` has been found. -/
def solve (σ : Substitution) : Equations → Option Substitution
  | [] => some σ
  | (s, t) :: rest =>
      if s = t then solve σ rest
      else
        match s, t with
        | .var v, t =>
            if t.mentions v then none
            else solve (σ.compose v t) (Equations.replace v t rest)
        | .app f ss, .var v =>
            if (Term.app f ss).mentions v then none
            else solve (σ.compose v (.app f ss)) (Equations.replace v (.app f ss) rest)
        | .app f ss, .app g ts =>
            if f = g then solve σ ((ss.zip ts).reverse ++ rest) else none
termination_by equations => (equations.variableCount, equations.size)
decreasing_by
  · exact Equations.lex_of_le_of_lt (Equations.variableCount_tail_le ..) (Equations.size_tail_lt ..)
  · rename_i notMentioned
    refine .left _ _ (Equations.variableCount_replace_lt ?_ fun x mem => ?_)
    · rwa [← Term.mentions_iff]
    · rw [Equations.mem_vars_cons]
      simpa [Term.vars, or_assoc] using mem
  · rename_i notMentioned
    refine .left _ _ (Equations.variableCount_replace_lt ?_ fun x mem => ?_)
    · rwa [← Term.mentions_iff]
    · rw [Equations.mem_vars_cons]
      simp only [Term.vars, List.mem_singleton] at mem ⊢
      rcases mem with mem | mem | mem
      · exact .inl (.inr mem)
      · exact .inl (.inl mem)
      · exact .inr mem
  · exact Equations.lex_of_le_of_lt (Equations.variableCount_decompose_le ..)
      (Equations.size_decompose_lt ..)

/-- The most general unifier of two terms.  Two ground terms are unified by
nothing but their equality. -/
def Term.unify (s t : Term) : Option Substitution :=
  if s.isGround && t.isGround then
    if s = t then some .empty else none
  else solve .empty [(s, t)]

end Entailment.FirstOrder
