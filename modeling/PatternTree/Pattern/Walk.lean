import PatternTree.Pattern

namespace PatternTree

namespace Pattern

/-- The first `limit` nodes of the pre-order walk that has the given nodes in front of it. Each
    node comes before its children, and a node that hangs below several others comes once for
    each of them. Below a node that is its own descendant the walk has no end. -/
def preorder (pattern : Pattern) : Nat → List Nat → List Nat
  | 0, _ => []
  | _, [] => []
  | limit + 1, id :: pending =>
    id :: pattern.preorder limit (pattern.childrenOf id ++ pending)

/-- The first `limit` nodes of the pre-order walk below a node, without the node itself. -/
def descendants (id limit : Nat) (pattern : Pattern) : List Nat :=
  pattern.preorder limit (pattern.childrenOf id)

/-- One appearance of a node on a walk that looks below each node only once. -/
structure Visit where
  node : Nat
  depth : Nat
  /-- Whether the node has appeared before. -/
  again : Bool
  deriving DecidableEq, Repr

/-- How many slots there are below the nodes up to `count` that are not marked in `seen`. -/
def openSlots (pattern : Pattern) (seen : Array Bool) : Nat → Nat
  | 0 => 0
  | count + 1 =>
    pattern.openSlots seen count +
      (if seen[count]? = some false then (pattern.childrenOf count).length else 0)

private theorem openSlots_mark_of_le (pattern : Pattern) (seen : Array Bool) {id count : Nat}
    (hle : count ≤ id) :
    pattern.openSlots (seen.setIfInBounds id true) count = pattern.openSlots seen count := by
  induction count with
  | zero => rfl
  | succ count ih =>
    have hne : id ≠ count := by omega
    simp [openSlots, ih (by omega), hne]

/-- Marking a node takes the slots below it out of the count. -/
theorem openSlots_mark (pattern : Pattern) {seen : Array Bool} {id : Nat}
    (hseen : seen[id]? = some false) {count : Nat} (hlt : id < count) :
    pattern.openSlots (seen.setIfInBounds id true) count + (pattern.childrenOf id).length =
      pattern.openSlots seen count := by
  induction count with
  | zero => omega
  | succ count ih =>
    by_cases hid : id = count
    · subst hid
      obtain ⟨hsize, hvalue⟩ := Array.getElem?_eq_some_iff.1 hseen
      simp [openSlots, openSlots_mark_of_le pattern seen (Nat.le_refl id), hsize, hvalue]
    · have := ih (by omega)
      simp only [openSlots, Array.getElem?_setIfInBounds, if_neg hid]
      omega

/-- Walks through nodes in pre-order, each at its depth, and looks below those only that are
    not marked in `seen` and that have not appeared before. The walk ends on every graph, since
    each step takes one node away from those that are pending or hang below unmarked ones. -/
def explore (pattern : Pattern) (seen : Array Bool) : List (Nat × Nat) → List Visit
  | [] => []
  | (id, depth) :: pending =>
    if seen[id]? = some false then
      ⟨id, depth, false⟩ ::
        pattern.explore (seen.setIfInBounds id true)
          ((pattern.childrenOf id).map (·, depth + 1) ++ pending)
    else ⟨id, depth, true⟩ :: pattern.explore seen pending
termination_by pending => pattern.openSlots seen seen.size + pending.length
decreasing_by
  · have := pattern.openSlots_mark ‹seen[id]? = some false›
      (Array.getElem?_eq_some_iff.1 ‹seen[id]? = some false›).1
    simp only [Array.size_setIfInBounds, List.length_append, List.length_map, List.length_cons]
    omega
  · simp

theorem explore_nil (pattern : Pattern) (seen : Array Bool) : pattern.explore seen [] = [] := by
  rw [explore]

/-- A node that has not appeared is followed by its children. -/
theorem explore_fresh (pattern : Pattern) {seen : Array Bool} {id : Nat}
    (hseen : seen[id]? = some false) (depth : Nat) (pending : List (Nat × Nat)) :
    pattern.explore seen ((id, depth) :: pending) =
      ⟨id, depth, false⟩ ::
        pattern.explore (seen.setIfInBounds id true)
          ((pattern.childrenOf id).map (·, depth + 1) ++ pending) := by
  rw [explore, if_pos hseen]

/-- A node that has appeared is only mentioned. -/
theorem explore_again (pattern : Pattern) {seen : Array Bool} {id : Nat}
    (hseen : seen[id]? ≠ some false) (depth : Nat) (pending : List (Nat × Nat)) :
    pattern.explore seen ((id, depth) :: pending) =
      ⟨id, depth, true⟩ :: pattern.explore seen pending := by
  rw [explore, if_neg hseen]

/-- The walk through the given nodes, which are at the given depth, and all nodes below. -/
def visits (pattern : Pattern) (depth : Nat) (ids : List Nat) : List Visit :=
  pattern.explore (Array.replicate pattern.nodes.size false) (ids.map (·, depth))

end Pattern

end PatternTree
