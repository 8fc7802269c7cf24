/-!
# Pools of shared values

A pool keeps one copy of every value it is asked for, so that equal values from
one pool are the same copy.  A value is reached through a handle, and several
handles may lead to one copy.  Collecting a pool drops the copies that no live
handle leads to.

Pools are named by numbers, and two names may stand for one and the same pool.
A copy that a live handle leads to exists as long as the handle, whatever
happens to the pool it came from.
-/

namespace Entailment

/-- A copy of a value.  Two copies are the same when they have one number. -/
structure Copy (α : Type) where
  number : Nat
  value : α
  deriving DecidableEq, Repr

/-- Some pools and handles.  `pools` lists the copies in each pool, `names` says
which pool a name stands for, `handles` lists the copy that each live handle
leads to, and `copies` counts the copies made so far. -/
structure Pools (α : Type) where
  pools : Array (List (Copy α))
  names : Array Nat
  handles : Array (Option (Copy α))
  copies : Nat
  deriving DecidableEq

namespace Pools

variable {α : Type} [DecidableEq α]

/-- A number of different empty pools without handles. -/
def start (count : Nat) : Pools α :=
  ⟨Array.replicate count [], Array.range count, #[], 0⟩

/-- The pool that a name stands for. -/
def poolOf (name : Nat) (state : Pools α) : Nat := state.names[name]?.getD 0

/-- The copies in the pool of a name. -/
def entries (name : Nat) (state : Pools α) : List (Copy α) :=
  state.pools[state.poolOf name]?.getD []

/-- How many copies the pool of a name keeps. -/
def size (name : Nat) (state : Pools α) : Nat := (state.entries name).length

/-- The copy that a live handle leads to. -/
def get? (handle : Nat) (state : Pools α) : Option (Copy α) := state.handles[handle]?.join

/-- Make a handle of a copy. -/
def addHandle (copy : Copy α) (state : Pools α) : Nat × Pools α :=
  (state.handles.size, { state with handles := state.handles.push (some copy) })

/-- A new handle of a value: of the copy in the pool if there is one, and
otherwise of a new copy. -/
def intern (name : Nat) (value : α) (state : Pools α) : Nat × Pools α :=
  match (state.entries name).find? fun copy => decide (copy.value = value) with
  | some copy => state.addHandle copy
  | none =>
      let copy : Copy α := ⟨state.copies, value⟩
      addHandle copy
        { state with
          pools := state.pools.modify (state.poolOf name) (copy :: ·)
          copies := state.copies + 1 }

/-- A new handle of the copy that a live handle leads to. -/
def duplicate (handle : Nat) (state : Pools α) : Option (Nat × Pools α) :=
  (state.get? handle).map fun copy => state.addHandle copy

/-- Let go of a handle.  The flag says whether it was live. -/
def release (handle : Nat) (state : Pools α) : Bool × Pools α :=
  ((state.get? handle).isSome,
    { state with handles := state.handles.setIfInBounds handle none })

/-- Whether a live handle leads to a copy. -/
def isHeld (copy : Copy α) (state : Pools α) : Bool :=
  state.handles.any fun held => held.any fun other => decide (other.number = copy.number)

/-- Drop the copies in the pool of a name that no live handle leads to. -/
def collect (name : Nat) (state : Pools α) : Pools α :=
  { state with
    pools := state.pools.modify (state.poolOf name) fun entries =>
      entries.filter state.isHeld }

/-- Let one name stand for the pool of another. -/
def share (source target : Nat) (state : Pools α) : Pools α :=
  { state with names := state.names.setIfInBounds target (state.poolOf source) }

end Pools

end Entailment
