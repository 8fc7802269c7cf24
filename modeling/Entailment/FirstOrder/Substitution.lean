import Entailment.FirstOrder.Term

/-!
# Substitutions

A substitution maps finitely many variables to terms.  It is applied to all
variables at once: the terms it puts in are not substituted again, and a part of a
term that was met before is looked up.  Its bindings are kept in the order of the
variables, one for each.
-/

namespace Entailment.FirstOrder

/-- A finite map from variables to terms. -/
structure Substitution where
  bindings : List (Variable × Term)
  deriving DecidableEq

namespace Substitution

/-- The substitution that changes nothing. -/
def empty : Substitution := ⟨[]⟩

/-- Whether no variable is bound. -/
def isEmpty (σ : Substitution) : Bool := σ.bindings.isEmpty

/-- How many variables are bound. -/
def size (σ : Substitution) : Nat := σ.bindings.length

/-- The first term that a list of bindings gives a variable. -/
def lookup (v : Variable) : List (Variable × Term) → Option Term
  | [] => none
  | (w, t) :: rest => if w = v then some t else lookup v rest

/-- The term that a variable is bound to. -/
def get? (σ : Substitution) (v : Variable) : Option Term := lookup v σ.bindings

/-- What a variable is replaced by. -/
def image (σ : Substitution) (v : Variable) : Term := (σ.get? v).getD (.var v)

/-- Bind a variable in a list of bindings in order. -/
def insertBinding (v : Variable) (t : Term) : List (Variable × Term) → List (Variable × Term)
  | [] => [(v, t)]
  | (w, s) :: rest =>
      if v.index < w.index then (v, t) :: (w, s) :: rest
      else if v = w then (v, t) :: rest
      else (w, s) :: insertBinding v t rest

/-- Bind a variable, in place of an earlier binding of it. -/
def insert (v : Variable) (t : Term) (σ : Substitution) : Substitution :=
  ⟨insertBinding v t σ.bindings⟩

/-- Drop the binding of a variable. -/
def erase (v : Variable) (σ : Substitution) : Substitution :=
  ⟨σ.bindings.filter fun binding => decide (binding.1 ≠ v)⟩

/-- The substitution of one variable. -/
def single (v : Variable) (t : Term) : Substitution := ⟨[(v, t)]⟩

/-- Terms that have been met, each with what it became. -/
abbrev Memo := List (Term × Term)

/-- What becomes of a term.  A ground term stays as it is, and a term that has been
met before is looked up.  Any other term is gone through and noted. -/
def consult (memo : Memo) (t : Term) (goThrough : Unit → Term × Memo) : Term × Memo :=
  if t.isGround then (t, memo)
  else
    match memo.lookup t with
    | some s => (s, memo)
    | none =>
        let (s, memo) := goThrough ()
        (s, (t, s) :: memo)

mutual

/-- Substitute in a term, with the terms that have been met. -/
def applyMemo (σ : Substitution) : Term → Memo → Term × Memo
  | .var v, memo => consult memo (.var v) fun _ => (σ.image v, memo)
  | .app f args, memo =>
      consult memo (.app f args) fun _ =>
        let (args, memo) := applyMemoArgs σ args memo
        (.app f args, memo)

/-- Substitute in some terms from left to right. -/
def applyMemoArgs (σ : Substitution) : List Term → Memo → List Term × Memo
  | [], memo => ([], memo)
  | t :: ts, memo =>
      let (s, memo) := applyMemo σ t memo
      let (ss, memo) := applyMemoArgs σ ts memo
      (s :: ss, memo)

end

/-- Apply a substitution to a term.  Nothing has to be done for the empty
substitution. -/
def apply (σ : Substitution) (t : Term) : Term :=
  if σ.isEmpty then t else (σ.applyMemo t []).1

/-- First apply `σ`, then replace `v` by `t`.  A binding of `v` in `σ` is
kept. -/
def compose (v : Variable) (t : Term) (σ : Substitution) : Substitution :=
  let substituted : Substitution :=
    ⟨σ.bindings.map fun (w, s) => (w, (single v t).apply s)⟩
  match substituted.get? v with
  | some _ => substituted
  | none => substituted.insert v t

theorem image_single (v w : Variable) (t : Term) :
    (single v t).image w = if v = w then t else .var w := by
  simp only [image, get?, single, lookup]
  split <;> rfl

/-! ## Application as replacement -/

/-- A memo in which every term stands with what a substitution makes of it. -/
def Remembers (σ : Substitution) (memo : Memo) : Prop :=
  ∀ entry ∈ memo, entry.2 = entry.1.replace σ.image

variable {σ : Substitution} {memo : Memo}

theorem consult_spec {t : Term} {goThrough : Unit → Term × Memo} (remembers : σ.Remembers memo)
    (gone : (goThrough ()).1 = t.replace σ.image ∧ σ.Remembers (goThrough ()).2) :
    (consult memo t goThrough).1 = t.replace σ.image ∧
      σ.Remembers (consult memo t goThrough).2 := by
  unfold consult
  split
  · rename_i ground
    exact ⟨(Term.replace_of_isGround ground _).symm, remembers⟩
  · split
    · rename_i s found
      obtain ⟨_, _, rfl, -⟩ := List.lookup_eq_some_iff.mp found
      exact ⟨remembers (t, s) (by simp), remembers⟩
    · exact ⟨gone.1, List.forall_mem_cons.mpr ⟨gone.1, gone.2⟩⟩

/-- Substituting with a memo replaces all variables, and the memo stays right. -/
theorem applyMemo_spec (t : Term) (remembers : σ.Remembers memo) :
    (σ.applyMemo t memo).1 = t.replace σ.image ∧ σ.Remembers (σ.applyMemo t memo).2 := by
  induction t generalizing memo with
  | var v => exact consult_spec remembers ⟨rfl, remembers⟩
  | app f args ih =>
      have inArgs : (σ.applyMemoArgs args memo).1 = args.map (Term.replace σ.image) ∧
          σ.Remembers (σ.applyMemoArgs args memo).2 := by
        induction args generalizing memo with
        | nil => exact ⟨rfl, remembers⟩
        | cons t ts ihArgs =>
            obtain ⟨first, remembers⟩ := ih t (List.mem_cons_self ..) remembers
            obtain ⟨others, remembers⟩ :=
              ihArgs (fun s mem => ih s (List.mem_cons_of_mem t mem)) remembers
            exact ⟨congr (congrArg List.cons first) others, remembers⟩
      refine consult_spec remembers ⟨?_, inArgs.2⟩
      rw [Term.replace_app, ← inArgs.1]

/-- Applying a substitution is replacing the variables by their images. -/
theorem apply_eq_replace (σ : Substitution) (t : Term) : σ.apply t = t.replace σ.image := by
  unfold apply
  split
  · rename_i isEmpty
    obtain ⟨bindings⟩ := σ
    obtain rfl := List.isEmpty_iff.mp isEmpty
    exact (Term.replace_self t).symm
  · exact (applyMemo_spec t (List.forall_mem_nil _)).1

end Substitution

end Entailment.FirstOrder
