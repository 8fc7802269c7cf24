import Entailment.Proofs.FirstOrder.StoreIndex
import Entailment.Proofs.InPlace
import Mathlib.Data.List.Sort

/-!
# Running a clause store

A store starts empty and is changed by inserting a clause, removing the clause
of a number and taking out a bucket.  In every store that such a run reaches the
four parts agree: the table of numbers is the inverse of the slots, the count of
clauses is right, and every list of the index holds, in strictly increasing
order, the numbers of the clauses with a literal of that sign on the predicate.

Removing is considered in place.  It empties the slot first and then goes
through the lists of the index, and it gives up at a list on which the clause
does not stand.  In the stores that are reached this never happens, so that a
failure is only ever the failure to find the clause, and it changes nothing.
-/

namespace Entailment.FirstOrder

variable {id : Nat}

/-! ## The lists of the index stay increasing -/

/-- Noting a number that no listed one passes keeps a list increasing. -/
theorem Occurrences.pairwise_note {ids : List Nat} (increasing : ids.Pairwise (· < ·))
    (bound : ∀ number ∈ ids, number ≤ id) : (note id ids).Pairwise (· < ·) := by
  unfold note
  split
  · exact increasing
  rename_i notLast
  rcases List.eq_nil_or_concat' ids with rfl | ⟨before, last, rfl⟩
  · exact List.pairwise_singleton _ _
  have lastLess : last < id :=
    Nat.lt_of_le_of_ne (bound last (by simp)) fun same => notLast (by simp [same])
  refine List.pairwise_append.mpr ⟨increasing, List.pairwise_singleton _ _, ?_⟩
  intro number mem new isNew
  rw [List.mem_singleton.mp isNew]
  rcases List.mem_append.mp mem with earlier | isLast
  · exact Nat.lt_trans ((List.pairwise_append.mp increasing).2.2 number earlier last
      (List.mem_singleton_self _)) lastLess
  · rwa [List.mem_singleton.mp isLast]

theorem Occurrences.pairwise_side_add {occurrences : Occurrences} {sign side : Sign}
    (increasing : (occurrences.side side).Pairwise (· < ·))
    (bound : ∀ number ∈ occurrences.side side, number ≤ id) :
    ((occurrences.add sign id).side side).Pairwise (· < ·) := by
  cases sign <;> cases side <;>
    first
      | exact increasing
      | exact pairwise_note increasing bound

/-- Listing a clause with the highest number keeps the lists increasing. -/
theorem PredicateIndex.pairwise_addLiterals {literals : List (Literal Atom)}
    {index : PredicateIndex}
    (increasing : ∀ p sign, ((index.occurrences p).side sign).Pairwise (· < ·))
    (bound : ∀ p sign, ∀ number ∈ (index.occurrences p).side sign, number ≤ id)
    (p : PredicateSymbol) (sign : Sign) :
    ((PredicateIndex.occurrences (literals.foldl (addLiteral id) index) p).side sign).Pairwise
      (· < ·) := by
  induction literals generalizing index with
  | nil => exact increasing p sign
  | cons literal rest ih =>
      refine ih (fun q side => ?_) (fun q side number mem => ?_)
      · rw [addLiteral, occurrences_insert]
        split
        · exact Occurrences.pairwise_side_add (increasing _ side) (bound _ side)
        · exact increasing q side
      · have listed := (@mem_side_addLiterals id number [literal] index q side).mp mem
        rcases listed with old | ⟨rfl, -⟩
        · exact bound q side number old
        · exact Nat.le_refl _

theorem Occurrences.side_erase_sublist (id : Nat) (occurrences : Occurrences) (sign : Sign) :
    ((occurrences.erase id).side sign).Sublist (occurrences.side sign) := by
  cases sign <;> exact List.filter_sublist

/-- Taking a clause off its lists leaves the order of the others. -/
theorem PredicateIndex.side_eraseClause_sublist {predicates : List PredicateSymbol}
    {index erased : PredicateIndex} (done : index.eraseClause id predicates = .ok erased)
    (p : PredicateSymbol) (sign : Sign) :
    ((erased.occurrences p).side sign).Sublist ((index.occurrences p).side sign) := by
  induction predicates generalizing index with
  | nil =>
      cases done
      exact List.Sublist.refl _
  | cons q rest ih =>
      simp only [eraseClause] at done
      cases entry : index[q]? with
      | none => simp [entry] at done
      | some lists =>
          simp only [entry] at done
          split at done
          · cases done
          refine (ih done).trans ?_
          rw [occurrences_insert]
          split
          · rename_i same
            subst same
            simpa [PredicateIndex.occurrences, entry] using lists.side_erase_sublist id sign
          · exact List.Sublist.refl _

/-! ## Removing in place -/

/-- Take a clause off the lists of its predicates, overwriting one list after
the other. -/
def PredicateIndex.eraseInPlace (id : Nat) :
    List PredicateSymbol → PredicateIndex → Except Error Unit × PredicateIndex
  | [], index => (.ok (), index)
  | p :: rest, index =>
      match index[p]? with
      | none => (.error (.invariant (.unindexedPredicate p.index id)), index)
      | some occurrences =>
          let erased := occurrences.erase id
          let overwritten := index.insert p erased
          if erased.size = occurrences.size then
            (.error (.invariant (.unlistedClause id p.index)), overwritten)
          else eraseInPlace id rest overwritten

theorem PredicateIndex.committed_eraseInPlace (id : Nat) (predicates : List PredicateSymbol)
    (index : PredicateIndex) :
    committed (index.eraseInPlace id predicates) =
      (index.eraseClause id predicates).map fun erased => ((), erased) := by
  induction predicates generalizing index with
  | nil => rfl
  | cons p rest ih =>
      simp only [eraseInPlace, eraseClause]
      cases index[p]? with
      | none => rfl
      | some occurrences =>
          simp only
          split
          · rfl
          · exact ih _

namespace Store

variable {history : List (Nat × Clause)}

/-- Remove the clause of a number: its slot is emptied, then its lists are
shortened, and at last the table of numbers and the count are put right. -/
def removeInPlace (id : Nat) (store : Store) : Except Error Clause × Store :=
  match store.get? id with
  | none => (.error (.invariant (.missingClause id)), store)
  | some c =>
      let emptied := { store with slots := store.slots.setIfInBounds id none }
      match store.index.eraseInPlace id c.predicates with
      | (.error error, index) => (.error error, { emptied with index })
      | (.ok (), index) =>
          (.ok c, { emptied with index, ids := store.ids.erase c, live := store.live - 1 })

/-- Remove the clauses of some numbers, up to the first that cannot be removed. -/
def removeAllInPlace : List Nat → Store → Except Error Unit × Store
  | [], store => (.ok (), store)
  | id :: rest, store =>
      match store.removeInPlace id with
      | (.error error, left) => (.error error, left)
      | (.ok _, left) => removeAllInPlace rest left

/-- Remove every clause with a literal on a predicate, one after the other. -/
def takeBucketInPlace (p : PredicateSymbol) (store : Store) : Except Error Bucket × Store :=
  let occurrences := store.index.occurrences p
  match store.removeAllInPlace (occurrences.positive ++ occurrences.negative).eraseDups with
  | (.error error, left) => (.error error, left)
  | (.ok (), left) =>
      (.ok ⟨occurrences.positive.filterMap (store.get? ·),
        occurrences.negative.filterMap (store.get? ·)⟩, left)

theorem committed_removeInPlace (id : Nat) (store : Store) :
    committed (store.removeInPlace id) = store.remove id := by
  simp only [removeInPlace, remove]
  cases store.get? id with
  | none => rfl
  | some c =>
      have same := PredicateIndex.committed_eraseInPlace id c.predicates store.index
      rcases inPlace : store.index.eraseInPlace id c.predicates with ⟨_ | _, index⟩ <;>
        cases pure : store.index.eraseClause id c.predicates <;>
        simp_all [Except.map]

theorem committed_removeAllInPlace (ids : List Nat) (store : Store) :
    committed (store.removeAllInPlace ids) = (store.removeAll ids).map fun left => ((), left) := by
  induction ids generalizing store with
  | nil => rfl
  | cons id rest ih =>
      have same := committed_removeInPlace id store
      simp only [removeAllInPlace, removeAll, ← same]
      rcases store.removeInPlace id with ⟨_ | _, left⟩
      · rfl
      · exact ih left

theorem committed_takeBucketInPlace (p : PredicateSymbol) (store : Store) :
    committed (store.takeBucketInPlace p) = store.takeBucket p := by
  have same := committed_removeAllInPlace ((store.index.occurrences p).positive ++
    (store.index.occurrences p).negative).eraseDups store
  simp only [takeBucketInPlace, takeBucket]
  rcases inPlace : store.removeAllInPlace _ with ⟨_ | _, left⟩ <;>
    cases pure : store.removeAll _ <;> simp_all [Except.map]

/-! ## The clauses of a store in order -/

variable {store : Store}

theorem mem_toList_iff {id : Nat} {c : Clause} :
    (id, c) ∈ store.toList ↔ store.get? id = some c := by
  simp only [toList, List.mem_filterMap, Prod.exists, List.mem_zipIdx_iff_getElem?, get?,
    Option.map_eq_some_iff, Prod.mk.injEq, Array.getElem?_toList]
  constructor
  · rintro ⟨slot, number, there, d, rfl, rfl, rfl⟩
    simp [there]
  · intro found
    refine ⟨some c, id, ?_, c, rfl, rfl, rfl⟩
    simpa [Option.join_eq_some_iff] using found

theorem pairwise_toList : store.toList.Pairwise fun first second => first.1 < second.1 := by
  have places : store.slots.toList.zipIdx.Pairwise fun first second => first.2 < second.2 := by
    rw [← List.pairwise_map (R := (· < ·)), List.zipIdx_map_snd]
    exact List.pairwise_lt_range'
  refine places.filterMap _ ?_
  rintro ⟨first, id⟩ ⟨second, other⟩ less ⟨number, c⟩ there ⟨later, d⟩ laterThere
  simp only [Option.map_eq_some_iff, Prod.mk.injEq] at there laterThere
  obtain ⟨-, -, rfl, -⟩ := there
  obtain ⟨-, -, rfl, -⟩ := laterThere
  exact less

instance : Std.Irrefl fun first second : Nat × Clause => first.1 < second.1 where
  irrefl _ := Nat.lt_irrefl _

instance : Std.Asymm fun first second : Nat × Clause => first.1 < second.1 where
  asymm _ _ := Nat.lt_asymm

theorem nodup_toList : store.toList.Nodup := by
  refine List.Pairwise.imp (fun {first second} less => ?_) pairwise_toList
  rintro rfl
  exact Nat.lt_irrefl _ less

/-- A store with fewer clauses lists them in the same order. -/
theorem toList_sublist {smaller : Store}
    (kept : ∀ id c, smaller.get? id = some c → store.get? id = some c) :
    smaller.toList.Sublist store.toList := by
  have filtered : smaller.toList = store.toList.filter (· ∈ smaller.toList) := by
    refine pairwise_toList.eq_of_mem_iff (pairwise_toList.filter _) fun ⟨id, c⟩ => ?_
    rw [List.mem_filter, decide_eq_true_eq]
    exact (and_iff_right_of_imp fun mem =>
      mem_toList_iff.mpr (kept id c (mem_toList_iff.mp mem))).symm
  rw [filtered]
  exact List.filter_sublist

theorem toList_insert {c : Clause} (absent : store.contains c = false) :
    (store.insert c).2.toList = store.toList ++ [(store.slots.size, c)] := by
  simp [toList, Store.insert, absent, List.zipIdx_append]

/-! ## Indexed stores -/

/-- The parts of a store agree: it is consistent, the lists of the index are
strictly increasing, and the clauses are counted. -/
structure IsIndexed (store : Store) : Prop extends store.Consistent where
  increasing : ∀ p sign, ((store.index.occurrences p).side sign).Pairwise (· < ·)
  live_eq : store.live = store.toList.length

theorem isIndexed_empty : Store.empty.IsIndexed where
  toConsistent := consistent_empty
  increasing p sign := by
    cases sign <;>
      simp [Store.empty, PredicateIndex.occurrences, Occurrences.side, Occurrences.empty]
  live_eq := rfl

/-- Inserting keeps a store indexed. -/
theorem IsIndexed.insert (indexed : store.IsIndexed) (c : Clause) :
    (store.insert c).2.IsIndexed := by
  cases present : store.contains c with
  | true =>
      have unchanged : (store.insert c).2 = store := by simp [Store.insert, present]
      rwa [unchanged]
  | false =>
      have index : (store.insert c).2.index =
          c.literals.foldl (PredicateIndex.addLiteral store.slots.size) store.index := by
        simp [Store.insert, present]
      refine ⟨(indexed.toConsistent.insert c).1, fun p sign => ?_, ?_⟩
      · rw [index]
        refine PredicateIndex.pairwise_addLiterals indexed.increasing
          (fun q side number mem => ?_) p sign
        obtain ⟨d, found, -⟩ := (indexed.listed_iff q side number).mp mem
        exact (get?_lt found).le
      · rw [toList_insert present, List.length_append, ← indexed.live_eq]
        simp [Store.insert, present]

/-- A clause that is in the store changes nothing.  Any other clause is in the store
afterwards, under the number that is given, and the others keep their numbers. -/
theorem IsIndexed.insert_cases (indexed : store.IsIndexed) (c : Clause) :
    (c ∈ store ∧ store.insert c = (none, store)) ∨
      c ∉ store ∧ ∃ after, store.insert c = (some store.slots.size, after) ∧
        ∀ number, after.get? number =
          if number = store.slots.size then some c else store.get? number := by
  cases present : store.contains c with
  | true => exact .inl ⟨indexed.contains_iff.mp present, by simp [Store.insert, present]⟩
  | false =>
      have absent : c ∉ store := fun mem => by simp [indexed.contains_iff.mpr mem] at present
      have number : (store.insert c).1 = some store.slots.size := by simp [Store.insert, present]
      exact .inr ⟨absent, _, Prod.ext number rfl, get?_insert_of_not_mem present⟩

/-- A clause of an indexed store can be removed.  The others keep their numbers,
and no number becomes free. -/
theorem IsIndexed.remove (indexed : store.IsIndexed) {c : Clause} {id : Nat}
    (found : store.get? id = some c) :
    ∃ rest, store.remove id = .ok (c, rest) ∧ rest.IsIndexed ∧
      rest.slots.size = store.slots.size ∧
      ∀ number, rest.get? number = if number = id then none else store.get? number := by
  obtain ⟨rest, removed, consistent, get?_iff⟩ := indexed.toConsistent.remove found
  have shape := removed
  simp only [Store.remove, found] at shape
  split at shape
  · cases shape
  rename_i index erased
  obtain ⟨-, rfl⟩ := Prod.mk.inj (Except.ok.inj shape)
  have apart : store.toList.Perm ((id, c) :: (store.without id c index).toList) := by
    refine (List.perm_ext_iff_of_nodup nodup_toList (List.nodup_cons.mpr ⟨?_, nodup_toList⟩)).mpr ?_
    · rw [mem_toList_iff, get?_iff]
      exact fun kept => kept.1 rfl
    · rintro ⟨number, d⟩
      rw [List.mem_cons, mem_toList_iff, mem_toList_iff, get?_iff, Prod.mk.injEq]
      by_cases same : number = id
      · subst same
        simp [found, eq_comm]
      · simp [same]
  refine ⟨_, removed, ⟨consistent, fun p sign => ?_, ?_⟩, by simp, fun number => ?_⟩
  · exact (indexed.increasing p sign).sublist
      (PredicateIndex.side_eraseClause_sublist erased p sign)
  · have counted := apart.length_eq
    rw [← indexed.live_eq, List.length_cons] at counted
    exact (Nat.sub_eq_of_eq_add counted)
  · refine Option.ext fun d => (get?_iff number d).trans ?_
    split <;> simp_all

/-- Some clauses of an indexed store can be removed one after the other. -/
theorem IsIndexed.removeAll (indexed : store.IsIndexed) {ids : List Nat} (nodup : ids.Nodup)
    (present : ∀ id ∈ ids, store.get? id ≠ none) :
    ∃ rest, store.removeAll ids = .ok rest ∧ rest.IsIndexed ∧
      rest.slots.size = store.slots.size ∧
      ∀ number, rest.get? number = if number ∈ ids then none else store.get? number := by
  induction ids generalizing store with
  | nil => exact ⟨store, rfl, indexed, rfl, by simp⟩
  | cons id others ih =>
      obtain ⟨absent, othersNodup⟩ := List.nodup_cons.mp nodup
      obtain ⟨c, found⟩ := Option.ne_none_iff_exists'.mp (present id (List.mem_cons_self ..))
      obtain ⟨once, removed, onceIndexed, onceSize, once_get?⟩ := indexed.remove found
      obtain ⟨rest, done, restIndexed, restSize, rest_get?⟩ := ih onceIndexed othersNodup
        fun other mem => by
          have different : other ≠ id := fun same => absent (same ▸ mem)
          rw [once_get?, if_neg different]
          exact present other (List.mem_cons_of_mem _ mem)
      refine ⟨rest, by simp only [Store.removeAll, removed, done], restIndexed,
        restSize.trans onceSize, fun number => ?_⟩
      rw [rest_get?, once_get?]
      by_cases later : number ∈ others <;> by_cases same : number = id <;> simp [later, same]

/-- The numbers listed for a predicate and a sign are those of its clauses, in
the order in which these were inserted. -/
theorem IsIndexed.side_eq (indexed : store.IsIndexed) (p : PredicateSymbol) (sign : Sign) :
    (store.index.occurrences p).side sign =
      (store.toList.filter fun entry => entry.2.hasLiteralOn p sign).map Prod.fst := by
  refine (indexed.increasing p sign).eq_of_mem_iff ?_ fun id => ?_
  · exact List.pairwise_map.mpr (pairwise_toList.filter _)
  · rw [indexed.listed_iff]
    simp [mem_toList_iff]

/-- A bucket can be taken out of an indexed store.  It holds the clauses with a
literal on the predicate in the order of their numbers, and the others are left
with the numbers they have. -/
theorem IsIndexed.takeBucket (indexed : store.IsIndexed) (p : PredicateSymbol) :
    ∃ bucket rest, store.takeBucket p = .ok (bucket, rest) ∧ rest.IsIndexed ∧
      rest.slots.size = store.slots.size ∧
      (∀ sign, bucket.side sign =
        (store.toList.filter fun entry => entry.2.hasLiteralOn p sign).map Prod.snd) ∧
      ∀ id, rest.get? id = (store.get? id).filter fun c => !c.mentions p := by
  have inLists := indexed.mem_lists_iff p
  obtain ⟨rest, removed, restIndexed, restSize, rest_get?⟩ :=
    indexed.removeAll (nodup_eraseDups _) fun id mem => by
      obtain ⟨c, found, -⟩ := (inLists id).mp mem
      simp [found]
  have bucketSide (sign : Sign) :
      ((store.index.occurrences p).side sign).filterMap (store.get? ·) =
        (store.toList.filter fun entry => entry.2.hasLiteralOn p sign).map Prod.snd := by
    rw [indexed.side_eq, List.filterMap_map, ← List.filterMap_eq_map]
    refine List.filterMap_congr fun entry mem => ?_
    exact mem_toList_iff.mp (List.mem_filter.mp mem).1
  refine ⟨⟨_, _⟩, rest, by simp only [Store.takeBucket, removed]; rfl, restIndexed, restSize,
    ?_, fun id => ?_⟩
  · rintro (_ | _)
    · exact bucketSide .positive
    · exact bucketSide .negative
  · rw [rest_get?]
    cases found : store.get? id with
    | none => simp
    | some c =>
        have listed := inLists id
        simp only [found, Option.some.injEq, exists_eq_left'] at listed
        simp only [listed]
        cases mentioned : c.mentions p <;> simp [Option.filter, mentioned]

/-! ## Runs -/

/-- What can be done to a store. -/
inductive Operation where
  | insert (c : Clause)
  | remove (id : Nat)
  | takeBucket (p : PredicateSymbol)

/-- Carry out an operation, in place. -/
def perform (store : Store) : Operation → Store
  | .insert c => (store.insert c).2
  | .remove id => (store.removeInPlace id).2
  | .takeBucket p => (store.takeBucketInPlace p).2

/-- Carry out some operations one after the other, whether they fail or not. -/
def performAll (operations : List Operation) (store : Store) : Store :=
  operations.foldl perform store

theorem performAll_append (first second : List Operation) (store : Store) :
    store.performAll (first ++ second) = (store.performAll first).performAll second :=
  List.foldl_append

/-- The clause that an operation numbers, with its number. -/
def numbered (store : Store) : Operation → List (Nat × Clause)
  | .insert c => ((store.insert c).1.map fun id => (id, c)).toList
  | .remove _ => []
  | .takeBucket _ => []

/-- The clauses that a run numbers, in order and with their numbers. -/
def allNumbered : List Operation → Store → List (Nat × Clause)
  | [], _ => []
  | operation :: rest, store =>
      store.numbered operation ++ allNumbered rest (store.perform operation)

/-- A store after a run that has numbered some clauses: these had the numbers
from zero on, and what is left in the store are some of them with the number they
had got. -/
structure Follows (history : List (Nat × Clause)) (store : Store) : Prop where
  numbers : history.map Prod.fst = List.range store.slots.size
  kept : store.toList.Sublist history

/-- Removing in place, in a store that is indexed. -/
theorem IsIndexed.removeInPlace (indexed : store.IsIndexed) (id : Nat) :
    (∃ c rest, store.get? id = some c ∧ store.removeInPlace id = (.ok c, rest) ∧ rest.IsIndexed ∧
      rest.slots.size = store.slots.size ∧
      ∀ number, rest.get? number = if number = id then none else store.get? number) ∨
    (store.get? id = none ∧
      store.removeInPlace id = (.error (.invariant (.missingClause id)), store)) := by
  cases found : store.get? id with
  | none => exact .inr ⟨rfl, by simp [Store.removeInPlace, found]⟩
  | some c =>
      obtain ⟨rest, removed, restIndexed⟩ := indexed.remove found
      rw [← committed_removeInPlace, committed_eq_ok_iff] at removed
      exact .inl ⟨c, rest, rfl, removed, restIndexed⟩

/-- One operation keeps a store indexed. -/
theorem IsIndexed.perform (indexed : store.IsIndexed) (operation : Operation) :
    (store.perform operation).IsIndexed := by
  cases operation with
  | insert c => exact indexed.insert c
  | remove id =>
      rcases indexed.removeInPlace id with ⟨c, rest, -, done, restIndexed, -⟩ | ⟨-, done⟩
      · simpa only [Store.perform, done] using restIndexed
      · simpa only [Store.perform, done] using indexed
  | takeBucket p =>
      obtain ⟨bucket, rest, taken, restIndexed, -⟩ := indexed.takeBucket p
      rw [← committed_takeBucketInPlace, committed_eq_ok_iff] at taken
      simpa only [Store.perform, taken] using restIndexed

/-- A store that has lost some clauses follows the same history. -/
theorem Follows.of_kept {rest : Store} (follows : store.Follows history)
    (sameSize : rest.slots.size = store.slots.size)
    (kept : ∀ id c, rest.get? id = some c → store.get? id = some c) : rest.Follows history where
  numbers := sameSize ▸ follows.numbers
  kept := (toList_sublist kept).trans follows.kept

/-- One operation adds to the history what it numbers. -/
theorem Follows.perform (indexed : store.IsIndexed) (follows : store.Follows history)
    (operation : Operation) :
    (store.perform operation).Follows (history ++ store.numbered operation) := by
  cases operation with
  | insert c =>
      cases present : store.contains c with
      | true => simpa [Store.perform, numbered, Store.insert, present] using follows
      | false =>
          have size : (store.insert c).2.slots.size = store.slots.size + 1 := by
            simp [Store.insert, present]
          have number : (store.insert c).1 = some store.slots.size := by
            simp [Store.insert, present]
          simp only [Store.perform, numbered, number, Option.map_some, Option.toList_some]
          refine ⟨?_, ?_⟩
          · rw [List.map_append, follows.numbers, size, List.range_succ]
            rfl
          · rw [toList_insert present]
            exact follows.kept.append (List.Sublist.refl _)
  | remove id =>
      rw [numbered, List.append_nil]
      rcases indexed.removeInPlace id with ⟨c, rest, -, done, -, sameSize, get?_eq⟩ | ⟨-, done⟩
      · simp only [Store.perform, done]
        refine follows.of_kept sameSize fun number d found => ?_
        rw [get?_eq] at found
        split at found
        · cases found
        · exact found
      · simpa only [Store.perform, done] using follows
  | takeBucket p =>
      rw [numbered, List.append_nil]
      obtain ⟨bucket, rest, taken, -, sameSize, -, get?_eq⟩ := indexed.takeBucket p
      rw [← committed_takeBucketInPlace, committed_eq_ok_iff] at taken
      simp only [Store.perform, taken]
      refine follows.of_kept sameSize fun id c found => ?_
      rw [get?_eq, Option.filter_eq_some_iff] at found
      exact found.1

/-- What one operation keeps, a run keeps. -/
theorem performAll_spec (operations : List Operation) (indexed : store.IsIndexed)
    (follows : store.Follows history) :
    (store.performAll operations).IsIndexed ∧
      (store.performAll operations).Follows (history ++ store.allNumbered operations) := by
  induction operations generalizing store history with
  | nil =>
      rw [allNumbered, List.append_nil]
      exact ⟨indexed, follows⟩
  | cons operation rest ih =>
      rw [allNumbered, ← List.append_assoc]
      exact ih (indexed.perform operation) (follows.perform indexed operation)

/-- A run from the empty store reaches an indexed one. -/
theorem isIndexed_performAll (operations : List Operation) :
    (Store.empty.performAll operations).IsIndexed :=
  (performAll_spec operations isIndexed_empty ⟨rfl, List.Sublist.refl _⟩).1

/-- Every store that a run reaches from the empty one is indexed.  A clause can be
inserted, a live clause can be removed and every bucket can be taken out, each of
which has the stated effect and no other; removing a clause that is not there fails and changes
nothing.  The clauses of a run are numbered from zero on, so that no number is
used twice. -/
theorem performAll_maintains_index (operations : List Operation) :
    let store := Store.empty.performAll operations
    store.IsIndexed ∧
      (∀ c, (c ∈ store ∧ store.insert c = (none, store)) ∨
        c ∉ store ∧ ∃ after, store.insert c = (some store.slots.size, after) ∧
          ∀ number, after.get? number =
            if number = store.slots.size then some c else store.get? number) ∧
      (∀ id c, store.get? id = some c → ∃ rest,
        store.remove id = .ok (c, rest) ∧ store.removeInPlace id = (.ok c, rest) ∧
          ∀ number, rest.get? number = if number = id then none else store.get? number) ∧
      (∀ id error, (store.removeInPlace id).1 = .error error →
        store.get? id = none ∧ (store.removeInPlace id).2 = store) ∧
      (∀ p, ∃ bucket rest,
        store.takeBucket p = .ok (bucket, rest) ∧ store.takeBucketInPlace p = (.ok bucket, rest) ∧
          (∀ sign, bucket.side sign =
            (store.toList.filter fun entry => entry.2.hasLiteralOn p sign).map Prod.snd) ∧
          ∀ id, rest.get? id = (store.get? id).filter fun c => !c.mentions p) ∧
      store.Follows (Store.empty.allNumbered operations) := by
  intro store
  have fresh : Store.empty.Follows [] := ⟨rfl, List.Sublist.refl _⟩
  obtain ⟨indexed, follows⟩ := performAll_spec operations isIndexed_empty fresh
  refine ⟨indexed, indexed.insert_cases, fun id c found => ?_, fun id error failed => ?_,
    fun p => ?_, follows⟩
  · obtain ⟨rest, removed, -, -, get?_eq⟩ := indexed.remove found
    exact ⟨rest, removed,
      committed_eq_ok_iff.mp ((committed_removeInPlace id _).trans removed), get?_eq⟩
  · rcases indexed.removeInPlace id with ⟨c, rest, -, done, -⟩ | ⟨absent, done⟩
    · rw [done] at failed
      cases failed
    · exact ⟨absent, congrArg Prod.snd done⟩
  · obtain ⟨bucket, rest, taken, -, -, sides, get?_eq⟩ := indexed.takeBucket p
    exact ⟨bucket, rest, taken,
      committed_eq_ok_iff.mp ((committed_takeBucketInPlace p _).trans taken), sides, get?_eq⟩

end Store

end Entailment.FirstOrder
