import Entailment.FirstOrder.Order
import Entailment.FirstOrder.Store
import Entailment.FirstOrder.Unification
import Entailment.Order.SortedLemmas

/-!
# The index of a clause store

A store keeps the same clauses in several places.  It is consistent when the
table of numbers knows exactly the clauses in the slots, and the index lists a
number under a predicate and a sign exactly when the clause of that number has
such a literal.

Inserting, removing and taking out a bucket keep a store consistent.  On a
consistent store a bucket can always be taken out: it holds the clauses that
mention the predicate, and the rest does not mention it.
-/

namespace Entailment.FirstOrder

/-- The clauses listed for a sign. -/
def Occurrences.side (sign : Sign) (occurrences : Occurrences) : List Nat :=
  match sign with
  | .positive => occurrences.positive
  | .negative => occurrences.negative

/-- The clauses of a bucket with a literal of the given sign. -/
def Bucket.side (sign : Sign) (bucket : Bucket) : List Clause :=
  match sign with
  | .positive => bucket.positive
  | .negative => bucket.negative

namespace Occurrences

variable {id : Nat} {sign : Sign} {occurrences : Occurrences}

theorem mem_note {other : Nat} {ids : List Nat} :
    other ∈ note id ids ↔ other ∈ ids ∨ other = id := by
  unfold note
  split
  · rename_i last
    constructor
    · exact .inl
    · rintro (mem | rfl)
      · exact mem
      · exact List.mem_of_getLast? last
  · simp

theorem mem_side_add {other : Sign} {number : Nat} :
    number ∈ (occurrences.add sign id).side other ↔
      number ∈ occurrences.side other ∨ (sign = other ∧ number = id) := by
  cases sign <;> cases other <;> simp [add, side, mem_note]

theorem mem_side_erase {number : Nat} :
    number ∈ (occurrences.erase id).side sign ↔ number ∈ occurrences.side sign ∧ number ≠ id := by
  cases sign <;> simp [erase, side]

/-- Taking a listed clause off makes the lists shorter. -/
theorem size_erase_lt (listed : id ∈ occurrences.side sign) :
    (occurrences.erase id).size < occurrences.size := by
  have shorter {ids : List Nat} (mem : id ∈ ids) : (ids.filter (· != id)).length < ids.length :=
    List.length_filter_lt_length_iff_exists.mpr ⟨id, mem, by simp⟩
  have noLonger (ids : List Nat) : (ids.filter (· != id)).length ≤ ids.length :=
    List.length_filter_le _ _
  cases sign with
  | positive => exact Nat.add_lt_add_of_lt_of_le (shorter listed) (noLonger _)
  | negative => exact Nat.add_lt_add_of_le_of_lt (noLonger _) (shorter listed)

end Occurrences

namespace PredicateIndex

theorem occurrences_insert (index : PredicateIndex) (p q : PredicateSymbol)
    (lists : Occurrences) :
    PredicateIndex.occurrences (index.insert p lists) q =
      if p = q then lists else index.occurrences q := by
  simp only [PredicateIndex.occurrences, Std.TreeMap.getElem?_insert,
    Std.LawfulEqOrd.compare_eq_iff_eq]
  split <;> rfl

/-- Listing a clause under its literals. -/
theorem mem_side_addLiterals {id number : Nat} {literals : List (Literal Atom)}
    {index : PredicateIndex} {p : PredicateSymbol} {sign : Sign} :
    number ∈ (PredicateIndex.occurrences (literals.foldl (addLiteral id) index) p).side sign ↔
      number ∈ (index.occurrences p).side sign ∨
        (number = id ∧ literals.any (Clause.isOn p sign) = true) := by
  induction literals generalizing index with
  | nil => simp
  | cons literal rest ih =>
      rw [List.foldl_cons, ih, addLiteral, occurrences_insert]
      by_cases same : literal.atom.predicate = p
      · subst same
        simp only [if_true, Occurrences.mem_side_add, List.any_cons, Clause.isOn, decide_true,
          Bool.true_and, Bool.or_eq_true, decide_eq_true_eq]
        constructor
        · rintro ((old | ⟨rfl, rfl⟩) | ⟨rfl, later⟩)
          · exact .inl old
          · exact .inr ⟨rfl, .inl rfl⟩
          · exact .inr ⟨rfl, .inr later⟩
        · rintro (old | ⟨rfl, rfl | later⟩)
          · exact .inl (.inl old)
          · exact .inl (.inr ⟨rfl, rfl⟩)
          · exact .inr ⟨rfl, later⟩
      · simp [same, Clause.isOn]

/-- Taking a clause off the lists of some predicates, on which it stands. -/
theorem eraseClause_spec {id : Nat} {predicates : List PredicateSymbol} {index : PredicateIndex}
    (nodup : predicates.Nodup)
    (listed : ∀ p ∈ predicates, ∃ sign, id ∈ (index.occurrences p).side sign) :
    ∃ erased, index.eraseClause id predicates = .ok erased ∧
      ∀ p sign number, number ∈ (erased.occurrences p).side sign ↔
        number ∈ (index.occurrences p).side sign ∧ (p ∈ predicates → number ≠ id) := by
  induction predicates generalizing index with
  | nil => exact ⟨index, rfl, by simp⟩
  | cons q rest ih =>
      obtain ⟨absent, restNodup⟩ := List.nodup_cons.mp nodup
      obtain ⟨sign, standsThere⟩ := listed q (List.mem_cons_self ..)
      cases entry : index[q]? with
      | none => cases sign <;> simp [PredicateIndex.occurrences, entry, Occurrences.side,
          Occurrences.empty] at standsThere
      | some lists =>
          have found : index.occurrences q = lists := by simp [PredicateIndex.occurrences, entry]
          rw [found] at standsThere
          obtain ⟨erased, done, lists_iff⟩ := @ih (index.insert q (lists.erase id)) restNodup
            fun p mem => by
              have different : q ≠ p := fun same => absent (same ▸ mem)
              rw [occurrences_insert, if_neg different]
              exact listed p (List.mem_cons_of_mem _ mem)
          refine ⟨erased, ?_, fun p sign number => ?_⟩
          · have shorter := Occurrences.size_erase_lt standsThere
            simp only [eraseClause, entry, if_neg (Nat.ne_of_lt shorter), done]
          · rw [lists_iff, occurrences_insert]
            by_cases same : q = p
            · subst same
              rw [if_pos rfl, Occurrences.mem_side_erase, ← found]
              simp [absent]
            · rw [if_neg same]
              simp [Ne.symm same]

end PredicateIndex

/-! ## Consistent stores -/

/-- A clause belongs to a store when it has a number there. -/
instance : Membership Clause Store where
  mem store c := ∃ id, store.get? id = some c

namespace Store

variable {c : Clause} {p : PredicateSymbol} {id : Nat}

theorem mem_def {store : Store} : c ∈ store ↔ ∃ id, store.get? id = some c := Iff.rfl

/-- The table of numbers and the index know exactly the clauses in the slots. -/
structure Consistent (store : Store) : Prop where
  ids_iff : ∀ c id, store.ids[c]? = some id ↔ store.get? id = some c
  listed_iff : ∀ p sign id, id ∈ (store.index.occurrences p).side sign ↔
    ∃ c, store.get? id = some c ∧ c.hasLiteralOn p sign = true

theorem consistent_empty : Store.empty.Consistent where
  ids_iff c id := by simp [Store.empty, Store.get?]
  listed_iff p sign id := by
    cases sign <;>
      simp [Store.empty, Store.get?, PredicateIndex.occurrences, Occurrences.side,
        Occurrences.empty]

theorem not_mem_empty (c : Clause) : c ∉ Store.empty := by
  rintro ⟨id, found⟩
  simp [Store.empty, Store.get?] at found

variable {store : Store}

theorem Consistent.contains_iff (consistent : store.Consistent) :
    store.contains c = true ↔ c ∈ store := by
  rw [contains, Std.TreeMap.contains_eq_isSome_getElem?, Option.isSome_iff_exists]
  exact exists_congr fun id => consistent.ids_iff c id

/-- Different numbers have different clauses. -/
theorem Consistent.get?_injective (consistent : store.Consistent) {other : Nat}
    (first : store.get? id = some c) (second : store.get? other = some c) : id = other := by
  rw [← consistent.ids_iff] at first second
  exact Option.some.inj (first.symm.trans second)

theorem get?_lt (found : store.get? id = some c) : id < store.slots.size := by
  rcases Nat.lt_or_ge id store.slots.size with bound | outside
  · exact bound
  · simp [Store.get?, outside] at found

theorem mentions_iff : c.mentions p = true ↔ ∃ sign, c.hasLiteralOn p sign = true := by
  simp only [Clause.mentions, Clause.hasLiteralOn, List.any_eq_true, Clause.isOn,
    Bool.and_eq_true, decide_eq_true_eq]
  constructor
  · rintro ⟨literal, mem, onPredicate⟩
    exact ⟨literal.sign, literal, mem, onPredicate, rfl⟩
  · rintro ⟨-, literal, mem, onPredicate, -⟩
    exact ⟨literal, mem, onPredicate⟩

/-! ## Inserting -/

/-- A clause that is inserted gets the number after the last one. -/
theorem get?_insert_of_not_mem (absent : store.contains c = false) (id : Nat) :
    (store.insert c).2.get? id = if id = store.slots.size then some c else store.get? id := by
  simp only [insert, absent, Bool.false_eq_true, if_false, Store.get?, Array.getElem?_push]
  split <;> rfl

theorem get?_insert_eq_some_iff {d : Clause} (absent : store.contains c = false) (id : Nat) :
    (store.insert c).2.get? id = some d ↔
      (id = store.slots.size ∧ d = c) ∨ store.get? id = some d := by
  rw [get?_insert_of_not_mem absent]
  by_cases isNew : id = store.slots.size
  · have free : store.get? id ≠ some d := fun found => Nat.ne_of_lt (get?_lt found) isNew
    rw [if_pos isNew, or_iff_left free, Option.some.injEq, and_iff_right isNew, eq_comm]
  · rw [if_neg isNew, or_iff_right fun both => isNew both.1]

/-- The table of numbers after inserting a new clause. -/
theorem Consistent.ids_insert (consistent : store.Consistent) (absent : store.contains c = false)
    (d : Clause) (id : Nat) :
    (store.insert c).2.ids[d]? = some id ↔ (store.insert c).2.get? id = some d := by
  rw [get?_insert_eq_some_iff absent, ← consistent.ids_iff]
  simp only [Store.insert, absent, Bool.false_eq_true, if_false, Std.TreeMap.getElem?_insert,
    Std.LawfulEqOrd.compare_eq_iff_eq]
  by_cases same : c = d
  · subst same
    have unknown : store.ids[c]? ≠ some id := by
      intro known
      rw [consistent.contains_iff.mpr ⟨id, (consistent.ids_iff c id).mp known⟩] at absent
      cases absent
    simp [unknown, eq_comm]
  · simp [same, Ne.symm same]

/-- The index after inserting a new clause. -/
theorem Consistent.listed_insert (consistent : store.Consistent) (absent : store.contains c = false)
    (p : PredicateSymbol) (sign : Sign) (id : Nat) :
    id ∈ ((store.insert c).2.index.occurrences p).side sign ↔
      ∃ d, (store.insert c).2.get? id = some d ∧ d.hasLiteralOn p sign = true := by
  have index : (store.insert c).2.index =
      c.literals.foldl (PredicateIndex.addLiteral store.slots.size) store.index := by
    simp [Store.insert, absent]
  rw [index, PredicateIndex.mem_side_addLiterals, consistent.listed_iff]
  simp only [get?_insert_eq_some_iff absent]
  constructor
  · rintro (⟨d, found, onIt⟩ | ⟨rfl, onIt⟩)
    · exact ⟨d, .inr found, onIt⟩
    · exact ⟨c, .inl ⟨rfl, rfl⟩, onIt⟩
  · rintro ⟨d, ⟨isNew, rfl⟩ | found, onIt⟩
    · exact .inr ⟨isNew, onIt⟩
    · exact .inl ⟨d, found, onIt⟩

/-- Inserting a clause adds it and nothing else. -/
theorem Consistent.insert (consistent : store.Consistent) (c : Clause) :
    (store.insert c).2.Consistent ∧ ∀ d, d ∈ (store.insert c).2 ↔ d = c ∨ d ∈ store := by
  cases present : store.contains c with
  | true =>
      have unchanged : (store.insert c).2 = store := by simp [Store.insert, present]
      rw [unchanged]
      refine ⟨consistent, fun d => ⟨.inr, ?_⟩⟩
      rintro (rfl | mem)
      · exact consistent.contains_iff.mp present
      · exact mem
  | false =>
      refine ⟨⟨consistent.ids_insert present, consistent.listed_insert present⟩, fun d => ?_⟩
      simp only [mem_def, get?_insert_eq_some_iff present, exists_or, exists_eq_left]

/-- Inserting some clauses adds them and nothing else. -/
theorem Consistent.insertAll (consistent : store.Consistent) (clauses : List Clause) :
    (store.insertAll clauses).Consistent ∧
      ∀ d, d ∈ store.insertAll clauses ↔ d ∈ clauses ∨ d ∈ store := by
  induction clauses generalizing store with
  | nil => exact ⟨consistent, fun d => by simp [Store.insertAll]⟩
  | cons c rest ih =>
      obtain ⟨insertedConsistent, inserted⟩ := consistent.insert c
      obtain ⟨restConsistent, mem_iff⟩ := ih insertedConsistent
      refine ⟨restConsistent, fun d => ?_⟩
      rw [List.mem_cons]
      refine (mem_iff d).trans ?_
      rw [inserted, ← or_assoc, or_comm (a := d ∈ rest)]

/-! ## The predicates of a store -/

/-- A predicate that a clause of the store mentions is a predicate of the store. -/
theorem Consistent.mem_predicates (consistent : store.Consistent) (mem : c ∈ store)
    (mentioned : c.mentions p = true) : p ∈ store.predicates := by
  obtain ⟨sign, onSide⟩ := mentions_iff.mp mentioned
  obtain ⟨id, found⟩ := mem
  have listed := (consistent.listed_iff p sign id).mpr ⟨c, found, onSide⟩
  rw [Store.predicates, Std.TreeMap.mem_keys, Std.TreeMap.mem_iff_isSome_getElem?]
  cases entry : store.index[p]? with
  | some => rfl
  | none =>
      rw [PredicateIndex.occurrences, entry] at listed
      cases sign <;> cases listed

theorem isIncreasing_predicates (store : Store) : Sorted.IsIncreasing store.predicates :=
  Std.TreeMap.ordered_keys

theorem mem_keys_addLiterals {literals : List (Literal Atom)} {index : PredicateIndex} :
    p ∈ (literals.foldl (PredicateIndex.addLiteral id) index).keys ↔
      (∃ literal ∈ literals, literal.atom.predicate = p) ∨ p ∈ index.keys := by
  induction literals generalizing index with
  | nil => simp
  | cons literal rest ih =>
      rw [List.foldl_cons, ih, PredicateIndex.addLiteral, Std.TreeMap.mem_keys,
        Std.TreeMap.mem_insert, Std.LawfulEqCmp.compare_eq_iff_eq, ← Std.TreeMap.mem_keys]
      simp only [List.mem_cons, exists_eq_or_imp]
      rw [or_left_comm, or_assoc]

/-- The predicates of a store to which clauses are added are the old ones and those
of the clauses. -/
theorem Consistent.mem_predicates_insertAll (consistent : store.Consistent) {clauses : List Clause}
    {p : PredicateSymbol} :
    p ∈ (store.insertAll clauses).predicates ↔
      (∃ c ∈ clauses, c.mentions p = true) ∨ p ∈ store.predicates := by
  induction clauses generalizing store with
  | nil => simp [Store.insertAll]
  | cons c rest ih =>
      have inserted : p ∈ (store.insert c).2.predicates ↔
          c.mentions p = true ∨ p ∈ store.predicates := by
        cases present : store.contains c with
        | true =>
            rw [Store.insert, if_pos present]
            exact ⟨.inr, fun known => known.elim
              (consistent.mem_predicates (consistent.contains_iff.mp present)) id⟩
        | false =>
            rw [Store.insert, if_neg (by simp [present])]
            simp only [Store.predicates, mem_keys_addLiterals, Clause.mentions, List.any_eq_true,
              decide_eq_true_eq]
      refine (ih (consistent.insert c).1).trans ?_
      simp only [inserted, List.mem_cons, exists_eq_or_imp]
      rw [or_left_comm, or_assoc]

/-! ## Removing -/

theorem mem_predicates_iff : p ∈ c.predicates ↔ c.mentions p = true := by
  simp [Clause.predicates, Clause.mentions]

/-- The store without the clause of a number, once the index is known. -/
abbrev without (id : Nat) (c : Clause) (index : PredicateIndex) (store : Store) : Store :=
  ⟨store.slots.setIfInBounds id none, store.ids.erase c, index, store.live - 1⟩

theorem get?_without_eq_some_iff {number : Nat} {d : Clause} {index : PredicateIndex} :
    (store.without id c index).get? number = some d ↔ number ≠ id ∧ store.get? number = some d := by
  simp only [Store.get?, Array.getElem?_setIfInBounds]
  by_cases same : id = number
  · subst same
    simp only [if_true]
    split <;> simp
  · simp [same, Ne.symm same]

/-- A clause that is in a consistent store can be removed. -/
theorem Consistent.remove (consistent : store.Consistent) {c : Clause} {id : Nat}
    (found : store.get? id = some c) :
    ∃ rest, store.remove id = .ok (c, rest) ∧ rest.Consistent ∧
      ∀ number d, rest.get? number = some d ↔ number ≠ id ∧ store.get? number = some d := by
  have listed (p : PredicateSymbol) (mem : p ∈ c.predicates) :
      ∃ sign, id ∈ (store.index.occurrences p).side sign := by
    obtain ⟨sign, onIt⟩ := mentions_iff.mp (mem_predicates_iff.mp mem)
    exact ⟨sign, (consistent.listed_iff p sign id).mpr ⟨c, found, onIt⟩⟩
  obtain ⟨index, erased, lists_iff⟩ :=
    PredicateIndex.eraseClause_spec (show c.predicates.Nodup from nodup_eraseDups _) listed
  refine ⟨store.without id c index, by simp only [Store.remove, found, erased],
    ⟨fun d number => ?_, fun p sign number => ?_⟩, fun _ _ => get?_without_eq_some_iff⟩
  · rw [get?_without_eq_some_iff, ← consistent.ids_iff, Std.TreeMap.getElem?_erase]
    simp only [Std.LawfulEqOrd.compare_eq_iff_eq]
    by_cases same : c = d
    · subst same
      rw [if_pos rfl, (consistent.ids_iff c id).mpr found]
      simp [eq_comm]
    · rw [if_neg same]
      refine (and_iff_right_of_imp ?_).symm
      rintro there rfl
      exact same (Option.some.inj (found.symm.trans ((consistent.ids_iff d number).mp there)))
  · simp only [get?_without_eq_some_iff]
    rw [lists_iff, consistent.listed_iff]
    constructor
    · rintro ⟨⟨d, there, onIt⟩, kept⟩
      refine ⟨d, ⟨?_, there⟩, onIt⟩
      rintro rfl
      -- The clause is on the lists of its predicates only, and these were erased.
      obtain rfl := Option.some.inj (found.symm.trans there)
      exact kept (mem_predicates_iff.mpr (mentions_iff.mpr ⟨sign, onIt⟩)) rfl
    · rintro ⟨d, ⟨different, there⟩, onIt⟩
      exact ⟨⟨d, there, onIt⟩, fun _ => different⟩

/-- Some clauses of a consistent store can be removed one after the other. -/
theorem Consistent.removeAll (consistent : store.Consistent) {ids : List Nat} (nodup : ids.Nodup)
    (present : ∀ id ∈ ids, ∃ c, store.get? id = some c) :
    ∃ rest, store.removeAll ids = .ok rest ∧ rest.Consistent ∧
      ∀ number d, rest.get? number = some d ↔ number ∉ ids ∧ store.get? number = some d := by
  induction ids generalizing store with
  | nil => exact ⟨store, rfl, consistent, by simp⟩
  | cons id others ih =>
      obtain ⟨absent, othersNodup⟩ := List.nodup_cons.mp nodup
      obtain ⟨c, found⟩ := present id (List.mem_cons_self ..)
      obtain ⟨once, removed, onceConsistent, once_get?⟩ := consistent.remove found
      have stillPresent (other : Nat) (mem : other ∈ others) : ∃ d, once.get? other = some d := by
        obtain ⟨d, there⟩ := present other (List.mem_cons_of_mem _ mem)
        refine ⟨d, (once_get? other d).mpr ⟨?_, there⟩⟩
        rintro rfl
        exact absent mem
      obtain ⟨rest, done, restConsistent, rest_get?⟩ := ih onceConsistent othersNodup stillPresent
      refine ⟨rest, by simp only [Store.removeAll, removed, done], restConsistent,
        fun number d => ?_⟩
      rw [rest_get?, once_get?, List.mem_cons, not_or, and_left_comm, and_assoc]

/-- The numbers on one of the lists of a predicate. -/
theorem Consistent.mem_lists_iff (consistent : store.Consistent) (p : PredicateSymbol) (id : Nat) :
    id ∈ ((store.index.occurrences p).positive ++ (store.index.occurrences p).negative).eraseDups ↔
      ∃ c, store.get? id = some c ∧ c.mentions p = true := by
  have listed (sign : Sign) := consistent.listed_iff p sign id
  simp only [List.mem_eraseDups, List.mem_append, mentions_iff]
  constructor
  · rintro (mem | mem)
    · obtain ⟨c, found, onIt⟩ := (listed .positive).mp mem
      exact ⟨c, found, _, onIt⟩
    · obtain ⟨c, found, onIt⟩ := (listed .negative).mp mem
      exact ⟨c, found, _, onIt⟩
  · rintro ⟨c, found, sign, onIt⟩
    have mem := (listed sign).mpr ⟨c, found, onIt⟩
    cases sign with
    | positive => exact .inl mem
    | negative => exact .inr mem

/-- A bucket can be taken out of a consistent store.  It holds the clauses that
mention the predicate, and the others are left. -/
theorem Consistent.takeBucket (consistent : store.Consistent) (p : PredicateSymbol) :
    ∃ bucket rest, store.takeBucket p = .ok (bucket, rest) ∧ rest.Consistent ∧
      (∀ c, c ∈ bucket.positive ↔ c ∈ store ∧ c.hasLiteralOn p .positive = true) ∧
      (∀ c, c ∈ bucket.negative ↔ c ∈ store ∧ c.hasLiteralOn p .negative = true) ∧
      ∀ c, c ∈ rest ↔ c ∈ store ∧ c.mentions p = false := by
  have inLists := consistent.mem_lists_iff p
  obtain ⟨rest, removed, restConsistent, rest_get?⟩ :=
    consistent.removeAll (nodup_eraseDups _) fun id mem =>
      ((inLists id).mp mem).imp fun _ => And.left
  have bucketSide (sign : Sign) (c : Clause) :
      c ∈ ((store.index.occurrences p).side sign).filterMap (store.get? ·) ↔
        c ∈ store ∧ c.hasLiteralOn p sign = true := by
    simp only [List.mem_filterMap, consistent.listed_iff, mem_def]
    constructor
    · rintro ⟨id, ⟨d, found, onIt⟩, there⟩
      obtain rfl := Option.some.inj (found.symm.trans there)
      exact ⟨⟨id, there⟩, onIt⟩
    · rintro ⟨⟨id, found⟩, onIt⟩
      exact ⟨id, ⟨c, found, onIt⟩, found⟩
  refine ⟨⟨_, _⟩, rest, by simp only [Store.takeBucket, removed]; rfl, restConsistent,
    bucketSide .positive, bucketSide .negative, fun c => ?_⟩
  simp only [mem_def, rest_get?, inLists]
  constructor
  · rintro ⟨id, notMentioned, found⟩
    refine ⟨⟨id, found⟩, ?_⟩
    rw [← Bool.not_eq_true]
    exact fun mentioned => notMentioned ⟨c, found, mentioned⟩
  · rintro ⟨⟨id, found⟩, notMentioned⟩
    refine ⟨id, ?_, found⟩
    rintro ⟨d, there, mentioned⟩
    obtain rfl := Option.some.inj (found.symm.trans there)
    rw [notMentioned] at mentioned
    cases mentioned

end Store

end Entailment.FirstOrder
