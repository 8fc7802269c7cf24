import Entailment.FirstOrder.ProofIndex
import Entailment.Proofs.FirstOrder.Lifting

/-!
# What a proof index holds

Every pair of parents that an index records makes the clause of its node a resolvent
of the clauses of the pair, if only resolvents are recorded.  A node that was first
met as a parent has a clause that was given.  A node that was first met as a resolvent
got its first pair when it was made, so that the parents of this pair are older.

A clause that was given may be derived later on, and its node gets parents like any
other.  So the first pairs of parents can lead in a circle, but only through clauses
that were given: from any other clause they lead to nodes with smaller numbers.
-/

namespace Entailment.FirstOrder

namespace ProofIndex

variable {node : ProofNode}

/-- The clause of a node. -/
def clauseAt? (index : ProofIndex) (id : Nat) : Option Clause :=
  index.nodes[id]?.map ProofNode.clause

/-- An index has a node for a clause. -/
def Mentions (c : Clause) (index : ProofIndex) : Prop :=
  ∃ id, index.clauseAt? id = some c

/-- The clauses keep their numbers from one index to another. -/
def KeepsClauses (index after : ProofIndex) : Prop :=
  ∀ id c, index.clauseAt? id = some c → after.clauseAt? id = some c

/-- The clauses of a pair of nodes resolve to a clause. -/
def Resolves (index : ProofIndex) (pair : Nat × Nat) (c : Clause) : Prop :=
  ∃ left right, index.clauseAt? pair.1 = some left ∧ index.clauseAt? pair.2 = some right ∧
    left.ResolventOf right c

/-- A record of resolvents of clauses that were given. -/
structure IsSound (given : Clause → Prop) (index : ProofIndex) : Prop where
  resolves : ∀ (id : Nat) (node : ProofNode), index.nodes[id]? = some node →
    ∀ pair ∈ node.parents, index.Resolves pair node.clause
  given : ∀ (id : Nat) (node : ProofNode), index.nodes[id]? = some node → node.derived = false →
    given node.clause
  older : ∀ (id : Nat) (node : ProofNode), index.nodes[id]? = some node → node.derived = true →
    ∃ pair rest, node.parents = pair :: rest ∧ pair.1 < id ∧ pair.2 < id

variable {given : Clause → Prop} {index after : ProofIndex} {c left right : Clause} {id : Nat}

theorem clauseAt?_of_node (found : index.nodes[id]? = some node) :
    index.clauseAt? id = some node.clause := by
  rw [clauseAt?, found, Option.map_some]

theorem lt_size_of_clauseAt? (found : index.clauseAt? id = some c) : id < index.size := by
  obtain ⟨node, isNode, -⟩ := Option.map_eq_some_iff.mp found
  exact (Array.getElem?_eq_some_iff.mp isNode).1

theorem isSound_start (given : Clause → Prop) (active : Bool) : (start active).IsSound given := by
  constructor <;> simp [start]

namespace KeepsClauses

theorem refl (index : ProofIndex) : index.KeepsClauses index :=
  fun _ _ found => found

theorem trans {last : ProofIndex} (first : index.KeepsClauses after)
    (second : after.KeepsClauses last) : index.KeepsClauses last :=
  fun id c found => second id c (first id c found)

theorem mentions (keeps : index.KeepsClauses after) (mentions : index.Mentions c) :
    after.Mentions c := by
  obtain ⟨id, found⟩ := mentions
  exact ⟨id, keeps id c found⟩

theorem resolves (keeps : index.KeepsClauses after) {pair : Nat × Nat}
    (resolves : index.Resolves pair c) : after.Resolves pair c := by
  obtain ⟨left, right, leftFound, rightFound, resolvent⟩ := resolves
  exact ⟨left, right, keeps _ _ leftFound, keeps _ _ rightFound, resolvent⟩

end KeepsClauses

/-! ## New nodes -/

/-- The index with one more node. -/
def push (node : ProofNode) (index : ProofIndex) : ProofIndex :=
  { index with nodes := index.nodes.push node }

theorem node_push {other : ProofNode} (found : (index.push node).nodes[id]? = some other) :
    index.nodes[id]? = some other ∨ id = index.size ∧ other = node := by
  rw [push, Array.getElem?_push] at found
  split at found
  · rename_i isLast
    exact .inr ⟨isLast, (Option.some.inj found).symm⟩
  · exact .inl found

theorem keepsClauses_push (node : ProofNode) : index.KeepsClauses (index.push node) := by
  intro id c found
  have bound : id < index.nodes.size := lt_size_of_clauseAt? found
  rw [clauseAt?, push, Array.getElem?_push, if_neg (Nat.ne_of_lt bound)]
  exact found

theorem clauseAt?_push_size (node : ProofNode) :
    (index.push node).clauseAt? index.size = some node.clause := by
  simp [clauseAt?, push, size]

/-- A node that is sound by itself may be added. -/
theorem IsSound.push (sound : index.IsSound given)
    (resolves : ∀ pair ∈ node.parents, index.Resolves pair node.clause)
    (isGiven : node.derived = false → given node.clause)
    (hasParents : node.derived = true → ∃ pair rest, node.parents = pair :: rest) :
    (index.push node).IsSound given := by
  have keeps := @keepsClauses_push index node
  constructor
  · intro id other found pair mem
    rcases node_push found with old | ⟨rfl, rfl⟩
    · exact keeps.resolves (sound.resolves id other old pair mem)
    · exact keeps.resolves (resolves pair mem)
  · intro id other found notDerived
    rcases node_push found with old | ⟨rfl, rfl⟩
    · exact sound.given id other old notDerived
    · exact isGiven notDerived
  · intro id other found derived
    rcases node_push found with old | ⟨rfl, rfl⟩
    · exact sound.older id other old derived
    · obtain ⟨pair, rest, parents⟩ := hasParents derived
      obtain ⟨left, right, leftFound, rightFound, -⟩ :=
        resolves pair (parents ▸ List.mem_cons_self ..)
      exact ⟨pair, rest, parents, lt_size_of_clauseAt? leftFound,
        lt_size_of_clauseAt? rightFound⟩

/-- Interning a clause finds its node or makes one. -/
theorem intern_cases (derived : Bool) (c : Clause) (index : ProofIndex) :
    (∃ id, index.clauseAt? id = some c ∧ index.intern derived c = (id, index)) ∨
      (¬index.Mentions c ∧
        index.intern derived c = (index.size, index.push ⟨c, derived, []⟩)) := by
  unfold intern
  split
  · rename_i id isFound
    obtain ⟨bound, isIt, -⟩ := Array.findIdx?_eq_some_iff_getElem.mp isFound
    refine .inl ⟨id, ?_, rfl⟩
    rw [clauseAt?, Array.getElem?_eq_getElem bound, Option.map_some, of_decide_eq_true isIt]
  · rename_i notFound
    refine .inr ⟨?_, rfl⟩
    rintro ⟨id, found⟩
    obtain ⟨node, isNode, rfl⟩ := Option.map_eq_some_iff.mp found
    have different := Array.findIdx?_eq_none_iff.mp notFound node (Array.mem_of_getElem? isNode)
    simp at different

/-- Interning a parent, which was given or has a node. -/
theorem IsSound.intern_parent (sound : index.IsSound given) (known : given c ∨ index.Mentions c) :
    ∃ id after, index.intern false c = (id, after) ∧ after.IsSound given ∧
      index.KeepsClauses after ∧ after.clauseAt? id = some c ∧ after.active = index.active := by
  rcases intern_cases false c index with ⟨id, found, interned⟩ | ⟨isNew, interned⟩
  · exact ⟨id, index, interned, sound, .refl index, found, rfl⟩
  · exact ⟨_, _, interned, sound.push (by simp) (fun _ => known.resolve_right isNew) (by simp),
      keepsClauses_push _, clauseAt?_push_size _, rfl⟩

/-! ## New parents -/

/-- What adding a pair of parents does to the nodes. -/
theorem node_addParents {pair : Nat × Nat} {other : Nat} {after : ProofNode}
    (found : (index.addParents pair id).nodes[other]? = some after) :
    ∃ node, index.nodes[other]? = some node ∧ after.clause = node.clause ∧
      after.derived = node.derived ∧
      (after.parents = node.parents ∨ other = id ∧ after.parents = node.parents ++ [pair]) := by
  rw [addParents, Array.getElem?_modify] at found
  split at found
  · rename_i same
    obtain ⟨node, isNode, rfl⟩ := Option.map_eq_some_iff.mp found
    refine ⟨node, isNode, ?_⟩
    split
    · exact ⟨rfl, rfl, .inl rfl⟩
    · exact ⟨rfl, rfl, .inr ⟨same.symm, rfl⟩⟩
  · exact ⟨after, found, rfl, rfl, .inl rfl⟩

theorem keepsClauses_addParents (pair : Nat × Nat) (id : Nat) :
    index.KeepsClauses (index.addParents pair id) := by
  intro other c found
  obtain ⟨node, isNode, rfl⟩ := Option.map_eq_some_iff.mp found
  rw [clauseAt?, addParents, Array.getElem?_modify, isNode]
  split
  · rw [Option.map_some, Option.map_some]
    split <;> rfl
  · rfl

/-- A pair that resolves to the clause of a node may be added to it. -/
theorem IsSound.addParents {pair : Nat × Nat} (sound : index.IsSound given)
    (found : index.clauseAt? id = some c) (resolves : index.Resolves pair c) :
    (index.addParents pair id).IsSound given := by
  have keeps := @keepsClauses_addParents index pair id
  constructor
  · intro other after isAfter added mem
    obtain ⟨node, isNode, sameClause, -, parents⟩ := node_addParents isAfter
    rw [sameClause]
    rcases parents with same | ⟨rfl, more⟩
    · exact keeps.resolves (sound.resolves other node isNode added (same ▸ mem))
    · rw [more, List.mem_append, List.mem_singleton] at mem
      rcases mem with old | rfl
      · exact keeps.resolves (sound.resolves other node isNode added old)
      · rw [clauseAt?_of_node isNode] at found
        cases found
        exact keeps.resolves resolves
  · intro other after isAfter notDerived
    obtain ⟨node, isNode, sameClause, sameDerived, -⟩ := node_addParents isAfter
    rw [sameClause]
    exact sound.given other node isNode (sameDerived ▸ notDerived)
  · intro other after isAfter derived
    obtain ⟨node, isNode, -, sameDerived, parents⟩ := node_addParents isAfter
    obtain ⟨first, rest, isFirst, leftOlder, rightOlder⟩ :=
      sound.older other node isNode (sameDerived ▸ derived)
    rw [isFirst] at parents
    rcases parents with same | ⟨-, more⟩
    · exact ⟨first, rest, same, leftOlder, rightOlder⟩
    · exact ⟨first, rest ++ [pair], more, leftOlder, rightOlder⟩

theorem addParents_push (c : Clause) (derived : Bool) (pair : Nat × Nat) (index : ProofIndex) :
    (index.push ⟨c, derived, []⟩).addParents pair index.size =
      index.push ⟨c, derived, [pair]⟩ := by
  refine congrArg (ProofIndex.mk · index.active) (Array.ext_getElem? fun id => ?_)
  rw [Array.getElem?_modify, push, Array.getElem?_push, Array.getElem?_push]
  by_cases isLast : id = index.nodes.size
  · simp [isLast, size]
  · simp [isLast, size, Ne.symm isLast]

/-- Recording a resolvent of two clauses that were given or have nodes. -/
theorem IsSound.record (sound : index.IsSound given)
    (leftKnown : index.active = true → given left ∨ index.Mentions left)
    (rightKnown : index.active = true → given right ∨ index.Mentions right)
    (resolvent : left.ResolventOf right c) :
    (index.record c left right).IsSound given ∧
      index.KeepsClauses (index.record c left right) ∧
      (index.record c left right).active = index.active ∧
      (index.active = true → (index.record c left right).Mentions c) := by
  by_cases active : index.active = true
  · obtain ⟨first, withLeft, isFirst, sound, keeps, leftFound, sameActive⟩ :=
      sound.intern_parent (leftKnown active)
    obtain ⟨second, withRight, isSecond, sound, keepsToo, rightFound, sameToo⟩ :=
      sound.intern_parent ((rightKnown active).imp_right keeps.mentions)
    have resolves : withRight.Resolves (first, second) c :=
      ⟨left, right, keepsToo _ _ leftFound, rightFound, resolvent⟩
    have keepsBoth := keeps.trans keepsToo
    have sameBoth := sameToo.trans sameActive
    rcases intern_cases true c withRight with ⟨id, found, interned⟩ | ⟨-, interned⟩
    · simp only [ProofIndex.record, if_pos active, isFirst, isSecond, interned]
      have keepsLast := @keepsClauses_addParents withRight (first, second) id
      exact ⟨sound.addParents found resolves, keepsBoth.trans keepsLast, sameBoth,
        fun _ => ⟨id, keepsLast id c found⟩⟩
    · simp only [ProofIndex.record, if_pos active, isFirst, isSecond, interned, addParents_push]
      refine ⟨sound.push ?_ (by simp) (by simp), keepsBoth.trans (keepsClauses_push _), sameBoth,
        fun _ => ⟨_, clauseAt?_push_size _⟩⟩
      intro pair mem
      rw [List.mem_singleton.mp mem]
      exact resolves
  · rw [ProofIndex.record, if_neg active]
    exact ⟨sound, .refl index, rfl, fun isActive => absurd isActive active⟩

/-! ## Following first pairs of parents -/

/-- Following the first pairs of parents and stopping at clauses that were given comes to
an end, and every step on the way is a resolution. -/
inductive RestsOn (given : Clause → Prop) (index : ProofIndex) : Nat → Prop
  | leaf {id : Nat} {c : Clause} (found : index.clauseAt? id = some c) (isGiven : given c) :
      RestsOn given index id
  | inner {id left right : Nat} {c : Clause} (found : index.clauseAt? id = some c)
      (notGiven : ¬given c) (parents : index.firstParents id = [left, right])
      (resolves : index.Resolves (left, right) c) (leftRests : RestsOn given index left)
      (rightRests : RestsOn given index right) : RestsOn given index id

/-- What the first parents of a node are: there are none and the clause was given, or the
clause is a resolvent of them, and they are older unless it was given. -/
theorem IsSound.firstParents_cases (sound : index.IsSound given)
    (found : index.clauseAt? id = some c) :
    (index.firstParents id = [] ∧ given c) ∨
      ∃ left right, index.firstParents id = [left, right] ∧ index.Resolves (left, right) c ∧
        (¬given c → left < id ∧ right < id) := by
  obtain ⟨⟨clause, derived, parents⟩, isNode, rfl⟩ := Option.map_eq_some_iff.mp found
  have older (notGiven : ¬given clause) :
      ∃ pair rest, parents = pair :: rest ∧ pair.1 < id ∧ pair.2 < id := by
    refine sound.older id _ isNode ?_
    by_contra notDerived
    exact notGiven (sound.given id _ isNode (Bool.eq_false_iff.mpr notDerived))
  cases parents with
  | nil =>
      refine .inl ⟨by simp [firstParents, isNode], ?_⟩
      by_contra notGiven
      obtain ⟨pair, rest, isFirst, -⟩ := older notGiven
      cases isFirst
  | cons pair rest =>
      refine .inr ⟨pair.1, pair.2, by simp [firstParents, isNode],
        sound.resolves id _ isNode pair (List.mem_cons_self ..), fun notGiven => ?_⟩
      obtain ⟨first, later, isFirst, leftOlder, rightOlder⟩ := older notGiven
      cases isFirst
      exact ⟨leftOlder, rightOlder⟩

/-- Every clause of a sound record rests on clauses that were given. -/
theorem IsSound.restsOn (sound : index.IsSound given) (found : index.clauseAt? id = some c) :
    index.RestsOn given id := by
  -- From a clause that was not given the first parents are older.
  induction id using Nat.strongRecOn generalizing c with
  | ind id ih =>
      by_cases isGiven : given c
      · exact .leaf found isGiven
      · obtain ⟨left, right, parents, resolves, older⟩ :=
          (sound.firstParents_cases found).resolve_left fun leaf => isGiven leaf.2
        obtain ⟨leftOlder, rightOlder⟩ := older isGiven
        have haveClauses := resolves
        obtain ⟨leftClause, rightClause, leftFound, rightFound, -⟩ := haveClauses
        exact .inner found isGiven parents resolves (ih left leftOlder leftFound)
          (ih right rightOlder rightFound)

/-- A walk visits what its agenda has and what it comes to from there. -/
theorem id_of_mem_walk {property : Nat → Prop} {limit : Nat} {children : Nat → List Nat}
    (closed : ∀ id, property id → ∀ child ∈ children id, property child) {seen : List Nat}
    {agenda : List (Nat × Nat)} (start : ∀ entry ∈ agenda, property entry.1) {visit : Visit}
    (mem : visit ∈ walk limit children seen agenda) : property visit.id := by
  fun_induction walk limit children seen agenda with
  | case1 => cases mem
  | case2 seen id depth rest bounds _ ih =>
      rcases List.mem_cons.mp mem with rfl | later
      · exact start (id, depth) (List.mem_cons_self ..)
      · refine ih (fun entry entryMem => ?_) later
        rcases List.mem_append.mp entryMem with isChild | old
        · obtain ⟨child, childMem, rfl⟩ := List.mem_map.mp isChild
          exact closed id (start (id, depth) (List.mem_cons_self ..)) child childMem
        · exact start entry (List.mem_cons_of_mem _ old)
  | case3 seen id depth rest _ ih =>
      rcases List.mem_cons.mp mem with rfl | later
      · exact start (id, depth) (List.mem_cons_self ..)
      · exact ih (fun entry entryMem => start entry (List.mem_cons_of_mem _ entryMem)) later

/-- The walk through the tree of a refutation visits nodes of the index. -/
theorem IsSound.exists_clauseAt? (sound : index.IsSound given) {visits : List Visit}
    (walked : index.treeWalk? = some visits) {visit : Visit} (mem : visit ∈ visits) :
    ∃ c, index.clauseAt? visit.id = some c := by
  obtain ⟨root, isRoot, rfl⟩ := Option.map_eq_some_iff.mp walked
  refine @id_of_mem_walk (fun id => ∃ c, index.clauseAt? id = some c) _ _
    (fun id hasClause child isChild => ?_) _ _ (fun entry entryMem => ?_) visit mem
  · obtain ⟨c, found⟩ := hasClause
    rcases sound.firstParents_cases found with ⟨none, -⟩ | ⟨left, right, parents, resolves, -⟩
    · simp [none] at isChild
    · obtain ⟨leftClause, rightClause, leftFound, rightFound, -⟩ := resolves
      rw [parents, List.mem_pair] at isChild
      rcases isChild with rfl | rfl
      · exact ⟨leftClause, leftFound⟩
      · exact ⟨rightClause, rightFound⟩
  · rw [List.mem_singleton.mp entryMem]
    obtain ⟨bound, -⟩ := Array.findIdx?_eq_some_iff_getElem.mp isRoot
    exact ⟨_, clauseAt?_of_node (Array.getElem?_eq_getElem bound)⟩

end ProofIndex

end Entailment.FirstOrder
