import Entailment.Proofs.FirstOrder.RenumberedClauses
import Entailment.Proofs.FirstOrder.UnificationRules
import Entailment.Proofs.FirstOrder.UnsatisfiableStores

/-!
# The numbers of the variables of a canonical clause

A clause is renamed by numbering its variables in the order of their first occurrence,
and its literals are sorted again afterwards.  A literal may come before another one then
that stood before it, because its variables got smaller numbers.  So the canonical clause
has the first canonical variables, but their order of first occurrence need not be the
order of their numbers, and renaming the canonical clause again may change it.

Where sorting leaves the renamed literals as they are, the variables are in order.  And
they are in order exactly where renaming once more changes nothing.
-/

namespace Entailment

/-! ## Lists in order -/

/-- What is smaller than an element of an increasing list stands before it. -/
theorem Sorted.IsIncreasing.mem_of_lt {α : Type} [Ord α] [Std.TransOrd α]
    {earlier later : List α} {a b : α} (increasing : Sorted.IsIncreasing (earlier ++ a :: later))
    (mem : b ∈ earlier ++ a :: later) (less : compare b a = .lt) : b ∈ earlier := by
  rcases List.mem_append.mp mem with inEarlier | notEarlier
  · exact inEarlier
  · rcases List.mem_cons.mp notEarlier with rfl | inLater
    · simp at less
    · have greater := (List.pairwise_cons.mp (List.pairwise_append.mp increasing).2.1).1 b inLater
      have impossible := Std.TransCmp.lt_trans less greater
      simp at impossible

/-- Lists that agree in length are compared part by part. -/
theorem compare_append {α : Type} [Ord α] {left right : List α}
    (sameLength : left.length = right.length) (others more : List α) :
    compare (left ++ others) (right ++ more) =
      (compare left right).then (compare others more) := by
  induction left generalizing right with
  | nil =>
      rw [List.eq_nil_of_length_eq_zero sameLength.symm]
      rfl
  | cons a left ih =>
      obtain ⟨b, right, rfl⟩ := List.exists_cons_of_length_eq_add_one sameLength.symm
      rw [List.cons_append, List.cons_append, List.compare_cons_cons, List.compare_cons_cons,
        ih (Nat.succ.inj sameLength), Ordering.then_assoc]

namespace FirstOrder

/-! ## Renamed terms and literals -/

namespace Term

theorem compareArgs_eq_compare (ss ts : List Term) : compareArgs ss ts = compare ss ts := by
  induction ss generalizing ts with
  | nil => cases ts <;> rfl
  | cons s ss ih =>
      cases ts with
      | nil => rfl
      | cons t ts =>
          rw [List.compare_cons_cons, ← ih]
          rfl

variable (f : Variable → Variable)

theorem vars_rename (t : Term) : (t.replace fun v => .var (f v)).vars = t.vars.map f := by
  induction t using Term.induction with
  | var v => rfl
  | app g args ih =>
      rw [replace_app, vars_app, vars_app, List.flatMap_map, List.map_flatMap]
      exact List.flatMap_congr ih

/-- Renamed arguments compare with the arguments as their variables do, when each of
them does. -/
theorem compare_renameArgs {args : List Term}
    (each : ∀ t ∈ args,
      compare (t.replace fun v => .var (f v)) t = compare (t.vars.map f) t.vars) :
    compare (args.map (replace fun v => .var (f v))) args =
      compare ((args.flatMap vars).map f) (args.flatMap vars) := by
  induction args with
  | nil => rfl
  | cons t ts ih =>
      obtain ⟨first, rest⟩ := List.forall_mem_cons.mp each
      rw [List.map_cons, List.compare_cons_cons, first, ih rest, List.flatMap_cons,
        List.map_append, compare_append (List.length_map ..)]

/-- A renamed term compares with the term as their variables do. -/
theorem compare_rename (t : Term) :
    compare (t.replace fun v => .var (f v)) t = compare (t.vars.map f) t.vars := by
  induction t using Term.induction with
  | var v =>
      rw [vars_var, List.map_singleton, List.compare_cons_cons]
      exact (Ordering.then_eq ..).symm
  | app g args ih =>
      rw [replace_app, vars_app, ← compare_renameArgs f ih, ← compareArgs_eq_compare]
      have sameSymbol : compare g g = .eq := Std.ReflOrd.compare_self
      exact congrArg (Ordering.then · _) sameSymbol

end Term

/-- A literal with other variables. -/
def renameLiteral (f : Variable → Variable) : Literal Atom → Literal Atom :=
  Literal.map (Atom.replace fun v => .var (f v))

section

variable {f : Variable → Variable}

theorem vars_renameLiteral (literal : Literal Atom) :
    (renameLiteral f literal).atom.vars = literal.atom.vars.map f := by
  simp only [renameLiteral, Literal.map, Atom.replace, Atom.vars, Term.varsOfArgs_eq,
    List.flatMap_map, List.map_flatMap, Term.vars_rename]

/-- A renamed literal compares with the literal as their variables do. -/
theorem compare_renameLiteral (literal : Literal Atom) :
    compare (renameLiteral f literal) literal =
      compare (literal.atom.vars.map f) literal.atom.vars := by
  obtain ⟨⟨p, args⟩, sign⟩ := literal
  rw [Literal.compare_def, Atom.compare_def]
  simp only [renameLiteral, Literal.map, Atom.replace, Std.ReflOrd.compare_self, Ordering.then_eq]
  rw [Term.compare_renameArgs f fun t _ => t.compare_rename f, Atom.vars, Term.varsOfArgs_eq]
  rfl

/-- A literal whose first variable that changes gets smaller comes down in the order. -/
theorem compare_renameLiteral_lt {literal : Literal Atom} {before after : List Variable}
    {v : Variable} (parts : literal.atom.vars = before ++ v :: after)
    (fixed : ∀ w ∈ before, f w = w) (smaller : compare (f v) v = .lt) :
    compare (renameLiteral f literal) literal = .lt := by
  rw [compare_renameLiteral, parts, List.map_append, List.map_congr_left fixed, List.map_id',
    compare_append rfl, Std.ReflOrd.compare_self, List.map_cons, List.compare_cons_cons, smaller]
  rfl

theorem renameLiteral_of_fixed {literal : Literal Atom}
    (fixed : ∀ w ∈ literal.atom.vars, f w = w) : renameLiteral f literal = literal := by
  have unchanged : literal.atom.replace (fun v => .var (f v)) = literal.atom :=
    (Atom.replace_congr fun w mem => congrArg Term.var (fixed w mem)).trans
      (Atom.replace_self literal.atom)
  exact congrArg (Literal.mk · literal.sign) unchanged

/-- Literals on different predicates stay in their order. -/
theorem isIncreasing_renameLiteral {literals : List (Literal Atom)}
    (increasing : Sorted.IsIncreasing literals)
    (distinct : literals.Pairwise fun left right => left.atom.predicate ≠ right.atom.predicate) :
    Sorted.IsIncreasing (literals.map (renameLiteral f)) := by
  refine List.pairwise_map.mpr ((List.Pairwise.and increasing distinct).imp ?_)
  rintro left right ⟨less, different⟩
  have notSame : compare left.atom.predicate right.atom.predicate ≠ .eq :=
    fun same => different (Std.LawfulEqOrd.eq_of_compare same)
  simp only [Literal.compare_def, Atom.compare_def, Ordering.then_eq_lt, Ordering.then_eq_eq,
    notSame, false_and, or_false] at less ⊢
  exact .inl (.inl less)

end

/-! ## Numbering the variables of a clause -/

/-- The occurrences of variables in some literals, from left to right. -/
def occurrences (literals : List (Literal Atom)) : List Variable :=
  literals.flatMap fun literal => literal.atom.vars

theorem occurrences_map (f : Variable → Variable) (literals : List (Literal Atom)) :
    occurrences (literals.map (renameLiteral f)) = (occurrences literals).map f := by
  simp only [occurrences, List.flatMap_map, List.map_flatMap, vars_renameLiteral]

/-- The order of the literals decides about the order of the variables only. -/
theorem Clause.mem_vars_ofList {literals : List (Literal Atom)} {v : Variable} :
    v ∈ (ofList literals).vars ↔ v ∈ (occurrences literals).eraseDups := by
  simp only [vars, ofList, occurrences, List.mem_eraseDups, List.mem_flatMap, Sorted.mem_ofList]

namespace Signature

/-- The canonical variables of the numbers below `count`. -/
def firstCanonical (signature : Signature) (count : Nat) : List Variable :=
  (List.range count).map signature.canonicalVariable

/-- The canonical variable that a variable of a list is renamed to.  Other variables keep
their names. -/
def numbered (signature : Signature) (vars : List Variable) (v : Variable) : Variable :=
  match vars.findIdx? (· = v) with
  | some place => signature.canonicalVariable place
  | none => v

theorem image_renaming_zero (signature : Signature) {vars : List Variable} (nodup : vars.Nodup)
    (v : Variable) :
    (signature.renaming 0 vars).image v = .var (signature.numbered vars v) := by
  rw [image_renaming signature 0 nodup, numbered]
  cases vars.findIdx? (· = v) with
  | some place => simp only [Nat.zero_add]
  | none => rfl

/-- The variables of a list are numbered in its order. -/
theorem map_numbered (signature : Signature) {vars : List Variable} (nodup : vars.Nodup) :
    vars.map (signature.numbered vars) = signature.firstCanonical vars.length := by
  refine List.ext_getElem (by simp [firstCanonical]) fun place bound _ => ?_
  have bound : place < vars.length := by simpa using bound
  have found : vars.findIdx? (· = vars[place]) = some place := by
    refine List.findIdx?_eq_some_iff_getElem.mpr ⟨bound, by simp, fun earlier less => ?_⟩
    simpa using fun same => Nat.ne_of_lt less (nodup.getElem_inj_iff.mp same)
  simp [firstCanonical, numbered, found]

theorem IsProper.pairwise_firstCanonical {signature : Signature} (proper : signature.IsProper)
    {count : Nat} (enough : count ≤ signature.canonical.size) :
    (signature.firstCanonical count).Pairwise fun v w => v.index < w.index := by
  refine List.pairwise_map.mpr (List.pairwise_lt_range.imp_of_mem ?_)
  intro first second _ mem less
  exact proper.canonicalVariable_lt less
    (Nat.lt_of_lt_of_le (List.mem_range.mp mem) enough)

/-- No new canonical variables are created when there are enough of them. -/
theorem reserveCanonical_of_le {signature : Signature} {count : Nat}
    (enough : count ≤ signature.canonical.size) : signature.reserveCanonical count = signature := by
  rw [reserveCanonical, Nat.sub_eq_zero_of_le enough]
  rfl

end Signature

/-! ## The first variable that changes -/

/-- Somewhere in some literals a variable stands for the first time that a renaming
changes. -/
theorem exists_first_moved {f : Variable → Variable} {literals : List (Literal Atom)}
    {u : Variable} (mem : u ∈ occurrences literals) (moved : f u ≠ u) :
    ∃ earlier literal later before v after, literals = earlier ++ literal :: later ∧
      literal.atom.vars = before ++ v :: after ∧
      (∀ w ∈ occurrences earlier ++ before, f w = w) ∧ f v ≠ v := by
  induction literals with
  | nil => cases mem
  | cons first rest ih =>
      cases found : first.atom.vars.find? fun w => decide (f w ≠ w) with
      | none =>
          have fixed : ∀ w ∈ first.atom.vars, f w = w := by
            simpa using List.find?_eq_none.mp found
          have inRest := (List.mem_append.mp mem).resolve_left fun inFirst =>
            moved (fixed u inFirst)
          obtain ⟨earlier, literal, later, before, v, after, rfl, parts, restFixed, vMoved⟩ :=
            ih inRest
          refine ⟨first :: earlier, literal, later, before, v, after, rfl, parts, ?_, vMoved⟩
          rw [occurrences, List.flatMap_cons, List.append_assoc]
          exact List.forall_mem_append.mpr ⟨fixed, restFixed⟩
      | some v =>
          obtain ⟨vMoved, before, after, parts, fixed⟩ := List.find?_eq_some_iff_append.mp found
          exact ⟨[], first, rest, before, v, after, rfl, parts, by simpa [occurrences] using fixed,
            by simpa using vMoved⟩

/-- The first variable that a renaming onto numbers in order changes gets smaller, if it is
one of them. -/
theorem index_lt_of_first_moved {f : Variable → Variable}
    {vars before rest numbers : List Variable} {v : Variable} (images : vars.map f = numbers)
    (parts : vars = before ++ v :: rest)
    (increasing : numbers.Pairwise fun v w => v.index < w.index)
    (fixed : ∀ w ∈ before, f w = w) (mem : v ∈ numbers) (absent : v ∉ before)
    (moved : f v ≠ v) : (f v).index < v.index := by
  rw [parts, List.map_append, List.map_congr_left fixed, List.map_id', List.map_cons] at images
  subst images
  rcases List.mem_append.mp mem with inBefore | inRest
  · exact absurd inBefore absent
  · rcases List.mem_cons.mp inRest with isIt | later
    · exact absurd isIt.symm moved
    · exact (List.pairwise_cons.mp (List.pairwise_append.mp increasing).2.1).1 v later

/-! ## Renaming once and once more -/

namespace Clause

variable {signature : Signature}

theorem normalize_eq_ofList {c : Clause} (increasing : Sorted.IsIncreasing c.literals) :
    c.normalize signature =
      ofList (c.literals.map (renameLiteral (signature.numbered c.vars))) := by
  have sameAtom (a : Atom) : a.apply (signature.renaming 0 c.vars) =
      a.replace fun v => .var (signature.numbered c.vars v) := by
    rw [Atom.apply_eq_replace]
    exact congrArg a.replace (funext (signature.image_renaming_zero c.nodup_vars))
  rw [normalize, renameFrom, apply_eq_ofList increasing]
  exact congrArg (fun rename => ofList (c.literals.map (Literal.map rename))) (funext sameAtom)

section

variable {c : Clause} (proper : signature.IsProper)
  (enough : c.vars.length ≤ signature.canonical.size)

include proper enough

/-- Different variables get different numbers. -/
theorem numbered_injOn : ∀ v ∈ c.vars, ∀ w ∈ c.vars,
    signature.numbered c.vars v = signature.numbered c.vars w → v = w := by
  intro v vMem w wMem same
  have enough : 0 + c.vars.length ≤ signature.canonical.size := by omega
  refine proper.image_renaming_inj c.nodup_vars enough vMem wMem ?_
  rw [signature.image_renaming_zero c.nodup_vars, signature.image_renaming_zero c.nodup_vars, same]

/-- Before they are sorted again, the renamed literals have the first canonical variables in
order. -/
theorem eraseDups_occurrences_numbered :
    (occurrences (c.literals.map (renameLiteral (signature.numbered c.vars)))).eraseDups =
      signature.firstCanonical c.vars.length := by
  have injOn : ∀ v ∈ occurrences c.literals, ∀ w ∈ occurrences c.literals,
      signature.numbered c.vars v = signature.numbered c.vars w → v = w := fun v vMem w wMem =>
    numbered_injOn proper enough v (List.mem_eraseDups.mpr vMem) w (List.mem_eraseDups.mpr wMem)
  rw [occurrences_map, eraseDups_map_of_injOn _ injOn]
  exact signature.map_numbered c.nodup_vars

/-- In a clause over the first canonical variables the first one whose number changes gets a
smaller one. -/
theorem numbered_lt_of_first_moved
    (canonical : ∀ v ∈ c.vars, v ∈ signature.firstCanonical c.vars.length)
    {before after : List Variable} {v : Variable}
    (parts : occurrences c.literals = before ++ v :: after)
    (fixed : ∀ w ∈ before, signature.numbered c.vars w = w)
    (moved : signature.numbered c.vars v ≠ v) :
    compare (signature.numbered c.vars v) v = .lt := by
  have absent : v ∉ before := fun mem => moved (fixed v mem)
  obtain ⟨rest, restEq⟩ := eraseDups_append_cons absent after
  have vars : c.vars = before.eraseDups ++ v :: rest := by
    rw [← restEq, ← parts]
    rfl
  have inClause : v ∈ c.vars := by simp [vars]
  exact Nat.compare_eq_lt.mpr (index_lt_of_first_moved (signature.map_numbered c.nodup_vars) vars
    (proper.pairwise_firstCanonical enough) (fun w mem => fixed w (List.mem_eraseDups.mp mem))
    (canonical v inClause) (fun mem => absent (List.mem_eraseDups.mp mem)) moved)

/-- A clause over the first canonical variables that numbering them leaves as it is has
them in order. -/
theorem numbered_eq_of_normalize_eq (increasing : Sorted.IsIncreasing c.literals)
    (canonical : ∀ v ∈ c.vars, v ∈ signature.firstCanonical c.vars.length)
    (same : c.normalize signature = c) : ∀ v ∈ c.vars, signature.numbered c.vars v = v := by
  by_contra notAll
  obtain ⟨u, uMem, uMoved⟩ : ∃ u ∈ c.vars, signature.numbered c.vars u ≠ u := by
    simpa using notAll
  obtain ⟨earlier, literal, later, before, v, after, literals, parts, fixed, moved⟩ :=
    exists_first_moved (List.mem_eraseDups.mp uMem) uMoved
  have allOccurrences : occurrences c.literals =
      (occurrences earlier ++ before) ++ v :: (after ++ occurrences later) := by
    simp only [literals, occurrences, List.flatMap_append, List.flatMap_cons, parts,
      List.append_assoc, List.cons_append]
  have smaller := numbered_lt_of_first_moved proper enough canonical allOccurrences fixed moved
  -- The literal with the first variable that changes comes down, to a literal that stood before
  -- it and whose variables do not change.
  have below := compare_renameLiteral_lt parts
    (fun w mem => fixed w (List.mem_append_right _ mem)) smaller
  have renamedMem : renameLiteral (signature.numbered c.vars) literal ∈
      (c.normalize signature).literals := by
    rw [normalize_eq_ofList increasing]
    exact Sorted.mem_ofList.mpr (List.mem_map_of_mem (by simp [literals]))
  rw [same, literals] at renamedMem
  rw [literals] at increasing
  have numberMem : signature.numbered c.vars v ∈ occurrences earlier := by
    refine List.mem_flatMap.mpr ⟨_, increasing.mem_of_lt renamedMem below, ?_⟩
    rw [vars_renameLiteral, parts]
    exact List.mem_map_of_mem (by simp)
  have numberFixed := fixed _ (List.mem_append_left _ numberMem)
  have inClause : ∀ w ∈ occurrences earlier ++ [v], w ∈ c.vars := by
    intro w mem
    refine List.mem_eraseDups.mpr (show w ∈ occurrences c.literals from ?_)
    rw [allOccurrences]
    simp only [List.mem_append, List.mem_cons, List.not_mem_nil, or_false] at mem ⊢
    exact mem.imp .inl .inl
  exact moved (numbered_injOn proper enough _ (inClause _ (List.mem_append_left _ numberMem)) v
    (inClause v (by simp)) numberFixed)

/-- Numbering the first canonical variables of a clause changes nothing exactly when they are
in order. -/
theorem normalize_eq_self_iff (increasing : Sorted.IsIncreasing c.literals)
    (canonical : ∀ v ∈ c.vars, v ∈ signature.firstCanonical c.vars.length) :
    c.normalize signature = c ↔ c.vars = signature.firstCanonical c.vars.length := by
  have images := signature.map_numbered c.nodup_vars
  constructor
  · intro same
    have fixed := numbered_eq_of_normalize_eq proper enough increasing canonical same
    rw [← images, List.map_congr_left fixed, List.map_id']
  · intro ordered
    have fixed : ∀ v ∈ c.vars, signature.numbered c.vars v = id v := by
      rw [← List.map_inj_left, images, List.map_id, ← ordered]
    have unchanged : ∀ literal ∈ c.literals,
        renameLiteral (signature.numbered c.vars) literal = id literal := fun literal mem =>
      renameLiteral_of_fixed fun w inLiteral =>
        fixed w (List.mem_eraseDups.mpr (List.mem_flatMap.mpr ⟨literal, mem, inLiteral⟩))
    rw [normalize_eq_ofList increasing, List.map_congr_left unchanged, List.map_id]
    exact congrArg Clause.mk increasing.ofList_eq

end

/-- The variables of a canonical clause are the first canonical variables.  They are numbered
in the order in which they occur in the renamed literals before these are sorted again.  The
order of their first occurrence in the canonical clause is that of their numbers exactly when
renaming the clause again changes nothing.  This is so when the renamed literals are still
sorted, in particular when no two literals are on the same predicate. -/
theorem canonical_numbering {signature : Signature} (built : signature.Built)
    (literals : List (Literal Atom)) :
    let c := ofList literals
    let d := (c.canonical signature).1
    let extended := (c.canonical signature).2
    let numbers := extended.firstCanonical c.vars.length
    let renamed := c.literals.map (renameLiteral (extended.numbered c.vars))
    d = ofList renamed ∧ (occurrences renamed).eraseDups = numbers ∧ d.vars.Perm numbers ∧
      ((d.canonical extended).1 = d ↔ d.vars = numbers) ∧
      (Sorted.IsIncreasing renamed → d.vars = numbers) ∧
      ((c.literals.Pairwise fun left right => left.atom.predicate ≠ right.atom.predicate) →
        Sorted.IsIncreasing renamed) := by
  intro c d extended numbers renamed
  obtain ⟨gains, enough⟩ := signature.reserveCanonical_spec c.vars.length
  have proper : extended.IsProper := gains.proper built.isProper
  have isRenamed : d = ofList renamed := normalize_eq_ofList (Sorted.isIncreasing_ofList literals)
  have inOrder : (occurrences renamed).eraseDups = numbers :=
    eraseDups_occurrences_numbered proper enough
  have mem_iff (v : Variable) : v ∈ d.vars ↔ v ∈ numbers := by
    rw [isRenamed, mem_vars_ofList, inOrder]
  have perm : d.vars.Perm numbers :=
    (List.perm_ext_iff_of_nodup d.nodup_vars (inOrder ▸ nodup_eraseDups _)).mpr mem_iff
  have sameLength : d.vars.length = c.vars.length := by
    rw [perm.length_eq]
    simp [numbers, Signature.firstCanonical]
  have stillEnough : d.vars.length ≤ extended.canonical.size := sameLength ▸ enough
  have again : (d.canonical extended).1 = d.normalize extended := by
    rw [canonical, Signature.reserveCanonical_of_le stillEnough]
  have increasing : Sorted.IsIncreasing d.literals :=
    isRenamed ▸ Sorted.isIncreasing_ofList renamed
  refine ⟨isRenamed, inOrder, perm, ?_, fun sorted => ?_,
    isIncreasing_renameLiteral (Sorted.isIncreasing_ofList literals)⟩
  · rw [again, normalize_eq_self_iff proper stillEnough increasing, sameLength]
    rw [sameLength]
    exact fun v mem => (mem_iff v).mp mem
  · rw [isRenamed, vars, ofList, sorted.ofList_eq]
    exact inOrder

/-- The signature of the symbols `q`, `p` and `a` and the variables `u`, `w` and `z`, which were
created in this order. -/
def crossedSignature : Signature :=
  (((((Signature.empty.internPredicate "q" 1).2.addVariable "u").2.internFunction
    "a" 0).2.internPredicate "p" 2).2.addVariable "w").2.addVariable "z" |>.2

theorem crossedSignature_built : crossedSignature.Built :=
  (((((Signature.Built.empty.internPredicate _ _).addVariable _).internFunction _ _).internPredicate
    _ _).addVariable _).addVariable _

/-- The literals `p(u, a)`, `q(w)` and `p(w, z)`. -/
def crossedLiterals : List (Literal Atom) :=
  [.positive ⟨⟨1⟩, [.var ⟨0⟩, .app ⟨0⟩ []]⟩, .positive ⟨⟨0⟩, [.var ⟨1⟩]⟩,
    .positive ⟨⟨1⟩, [.var ⟨1⟩, .var ⟨2⟩]⟩]

/-- Without `p(w, z)` no two literals are on the same predicate, and the variables are in order
although `u` was created before `w`. -/
theorem canonical_numbering_uncrossed :
    let c := ofList (crossedLiterals.take 2)
    let d := (c.canonical crossedSignature).1
    let extended := (c.canonical crossedSignature).2
    d.vars = extended.firstCanonical 2 ∧ (d.canonical extended).1 = d := by
  intro c d extended
  obtain ⟨-, -, -, again_iff, ordered, sorted⟩ :=
    canonical_numbering crossedSignature_built (crossedLiterals.take 2)
  have literals : c.literals =
      [.positive ⟨⟨0⟩, [.var ⟨1⟩]⟩, .positive ⟨⟨1⟩, [.var ⟨0⟩, .app ⟨0⟩ []]⟩] := by cbv
  have size : c.vars.length = 2 := by cbv
  have distinct : c.literals.Pairwise fun left right =>
      left.atom.predicate ≠ right.atom.predicate := by
    rw [literals]
    decide
  have inOrder := ordered (sorted distinct)
  exact ⟨size ▸ inOrder, again_iff.mpr inOrder⟩

/-- With `p(w, z)` the variables of the canonical clause `q(0) ∨ p(0, 2) ∨ p(1, a)` are out of
order, and renaming it again gives `q(0) ∨ p(0, 1) ∨ p(2, a)`. -/
theorem canonical_crossed_out_of_order :
    let c := ofList crossedLiterals
    let d := (c.canonical crossedSignature).1
    let extended := (c.canonical crossedSignature).2
    crossedSignature.Built ∧ extended.firstCanonical c.vars.length = [⟨3⟩, ⟨4⟩, ⟨5⟩] ∧
      d.vars = [⟨3⟩, ⟨5⟩, ⟨4⟩] ∧ (d.canonical extended).1.vars = [⟨3⟩, ⟨4⟩, ⟨5⟩] :=
  ⟨crossedSignature_built, by cbv, by cbv, by cbv⟩

end Clause

end FirstOrder

end Entailment
