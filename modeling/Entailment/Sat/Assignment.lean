import Entailment.Error
import Std.Data.TreeMap

/-!
# Partial assignments

A solver keeps a partial assignment of truth values to the variables
`1, …, limit` of a problem.  Looking up a variable beyond the limit fails; every
other variable is either assigned or open.

`openCount` counts the occurrences of open variables in a list of clauses.  It
never grows when more variables are assigned, and it shrinks when a variable
that occurs in the clauses is assigned.  The solver ends because of it.
-/

namespace Entailment.Sat

/-- A clause of a problem.  A literal may occur in it more than once. -/
abbrev Clause := List (Literal Nat)

/-- Truth values for some of the variables `1, …, limit`. -/
structure Assignment where
  limit : Nat
  values : Std.TreeMap Nat Bool

namespace Assignment

/-- No variable has a value. -/
def start (limit : Nat) : Assignment := ⟨limit, ∅⟩

/-- Whether a variable has a value. -/
def isAssigned (assignment : Assignment) (v : Nat) : Bool :=
  assignment.values.contains v

/-- Make a literal true. -/
def assign (literal : Literal Nat) (assignment : Assignment) : Assignment :=
  { assignment with
    values := assignment.values.insert literal.atom (literal.sign = .positive) }

/-- The truth value of a literal, if its variable has one. -/
def evaluate (assignment : Assignment) (literal : Literal Nat) : Except Error (Option Bool) :=
  if assignment.limit < literal.atom then .error (.outsideAssignment literal.atom)
  else
    .ok ((assignment.values[literal.atom]?).map fun value =>
      value == decide (literal.sign = .positive))

/-- The open literals of a clause in their order, or nothing when one of its
literals is true.  The clause is scanned up to its first true literal. -/
def openLiterals (assignment : Assignment) : Clause → Except Error (Option Clause)
  | [] => .ok (some [])
  | literal :: rest =>
      match assignment.evaluate literal with
      | .error error => .error error
      | .ok (some true) => .ok none
      | .ok (some false) => openLiterals assignment rest
      | .ok none =>
          match openLiterals assignment rest with
          | .error error => .error error
          | .ok none => .ok none
          | .ok (some openRest) => .ok (some (literal :: openRest))

/-- The number of occurrences of open variables in some clauses. -/
def openCount (assignment : Assignment) (clauses : List Clause) : Nat :=
  clauses.flatten.countP fun literal => !assignment.isAssigned literal.atom

/-! ## Assigning a variable -/

@[simp]
theorem isAssigned_assign (assignment : Assignment) (literal : Literal Nat) (v : Nat) :
    (assignment.assign literal).isAssigned v =
      (literal.atom == v || assignment.isAssigned v) := by
  simp only [isAssigned, assign, Std.TreeMap.contains_insert]
  congr 1
  exact Bool.eq_iff_iff.mpr (by simp)

/-- Counting with a smaller predicate gives no more, and less when an element of
the list is lost. -/
theorem countP_lt_of_imp {α : Type} {p q : α → Bool} {a : α} {l : List α}
    (imp : ∀ x ∈ l, p x = true → q x = true) (member : a ∈ l)
    (lost : p a = false) (kept : q a = true) : l.countP p < l.countP q := by
  induction l with
  | nil => cases member
  | cons b rest ih =>
      have restImp : ∀ x ∈ rest, p x = true → q x = true :=
        fun x mem => imp x (List.mem_cons_of_mem _ mem)
      have restLe : rest.countP p ≤ rest.countP q := List.countP_mono_left restImp
      rcases List.mem_cons.mp member with rfl | memRest
      · rw [List.countP_cons_of_neg (by simp [lost]), List.countP_cons_of_pos kept]
        exact Nat.lt_succ_of_le restLe
      · have restLt := ih restImp memRest
        simp only [List.countP_cons]
        have headLe : (if p b = true then 1 else 0) ≤ (if q b = true then 1 else 0) := by
          by_cases hp : p b = true
          · simp [hp, imp b (List.mem_cons_self ..) hp]
          · simp [hp]
        omega

/-- Assigning a variable opens no other variable. -/
theorem openCount_assign_le (assignment : Assignment) (literal : Literal Nat)
    (clauses : List Clause) :
    (assignment.assign literal).openCount clauses ≤ assignment.openCount clauses := by
  refine List.countP_mono_left fun other _ => ?_
  simp only [isAssigned_assign, Bool.not_eq_true', Bool.or_eq_false_iff]
  exact And.right

/-- Assigning an open variable of the clauses leaves fewer open occurrences. -/
theorem openCount_assign_lt {assignment : Assignment} {literal : Literal Nat}
    {clauses : List Clause} {clause : Clause} {occurrence : Literal Nat}
    (clauseMember : clause ∈ clauses) (literalMember : occurrence ∈ clause)
    (sameVariable : occurrence.atom = literal.atom)
    (isOpen : assignment.isAssigned literal.atom = false) :
    (assignment.assign literal).openCount clauses < assignment.openCount clauses := by
  refine countP_lt_of_imp (a := occurrence) (fun other _ => ?_)
    (List.mem_flatten.mpr ⟨clause, clauseMember, literalMember⟩) ?_ ?_
  · simp only [isAssigned_assign, Bool.not_eq_true', Bool.or_eq_false_iff]
    exact And.right
  · simp [sameVariable]
  · simp [sameVariable, isOpen]

/-- The open literals of a clause without a true literal, one literal at a time. -/
theorem openLiterals_cons {assignment : Assignment} {literal : Literal Nat}
    {rest openOnes : Clause}
    (scanned : assignment.openLiterals (literal :: rest) = .ok (some openOnes)) :
    (assignment.evaluate literal = .ok (some false) ∧
      assignment.openLiterals rest = .ok (some openOnes)) ∨
    ∃ openRest, openOnes = literal :: openRest ∧ assignment.evaluate literal = .ok none ∧
      assignment.openLiterals rest = .ok (some openRest) := by
  unfold openLiterals at scanned
  split at scanned
  · cases scanned
  · cases scanned
  · rename_i evaluated
    exact .inl ⟨evaluated, scanned⟩
  · rename_i evaluated
    split at scanned
    · cases scanned
    · cases scanned
    · rename_i openRest restScanned
      cases scanned
      exact .inr ⟨openRest, rfl, evaluated, restScanned⟩

/-- A literal that is found open is within the limit and has no value. -/
theorem isOpen_of_evaluate {assignment : Assignment} {literal : Literal Nat}
    (evaluated : assignment.evaluate literal = .ok none) :
    assignment.isAssigned literal.atom = false ∧ literal.atom ≤ assignment.limit := by
  unfold evaluate at evaluated
  split at evaluated
  · cases evaluated
  · rename_i notBeyond
    simp only [Except.ok.injEq, Option.map_eq_none_iff] at evaluated
    exact ⟨by simpa [isAssigned, ← Bool.not_eq_true] using evaluated, Nat.not_lt.mp notBeyond⟩

/-- The open literals of a clause belong to it, have no value and are within the limit. -/
theorem openLiterals_spec {assignment : Assignment} {clause openOnes : Clause}
    (scanned : assignment.openLiterals clause = .ok (some openOnes)) :
    ∀ literal ∈ openOnes, literal ∈ clause ∧ assignment.isAssigned literal.atom = false ∧
      literal.atom ≤ assignment.limit := by
  induction clause generalizing openOnes with
  | nil =>
      cases scanned
      simp
  | cons head rest ih =>
      obtain ⟨-, restScanned⟩ | ⟨openRest, rfl, headOpen, restScanned⟩ := openLiterals_cons scanned
      · exact fun literal mem => (ih restScanned literal mem).imp_left (List.mem_cons_of_mem _)
      · exact List.forall_mem_cons.mpr ⟨⟨List.mem_cons_self .., isOpen_of_evaluate headOpen⟩,
          fun literal mem => (ih restScanned literal mem).imp_left (List.mem_cons_of_mem _)⟩

end Assignment

end Entailment.Sat
