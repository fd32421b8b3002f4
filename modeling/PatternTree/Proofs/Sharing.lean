import Mathlib.Data.List.Nodup
import Mathlib.Data.List.Pairwise
import PatternTree.Proofs.AddedEdge
import PatternTree.Proofs.Preorder

namespace PatternTree

namespace Draft.Keeps

variable {draft : Draft} {before after : List Edge} {edge : Edge} {source : String} {root : Nat}

/-- A child to which one edge leads from a node, but no other one, comes once among the node's
    children. -/
theorem count_childrenOf (hkeeps : draft.Keeps (before ++ edge :: after)) (id : Nat)
    (hothers : ∀ other ∈ before ++ after, other.parent = id → other.child ≠ edge.child) :
    ((draft.finish source root).childrenOf id).count edge.child =
      if edge.parent = id then 1 else 0 := by
  have hnone : ∀ edges : List Edge, (∀ other ∈ edges, other ∈ before ++ after) →
      ((edges.filter (·.parent = id)).map Edge.child).count edge.child = 0 := by
    intro edges hedges
    refine List.count_eq_zero_of_not_mem fun hmem => ?_
    obtain ⟨other, hother, hchild⟩ := List.mem_map.mp hmem
    obtain ⟨hother, hparent⟩ := List.mem_filter.mp hother
    exact hothers other (hedges other hother) (of_decide_eq_true hparent) hchild
  have hbefore := hnone before fun _ => List.mem_append_left after
  have hafter := hnone after fun _ => List.mem_append_right before
  rw [hkeeps.childrenOf_finish, List.filter_append, List.map_append, List.count_append, hbefore,
    Nat.zero_add]
  by_cases hparent : edge.parent = id
  · rw [List.filter_cons_of_pos (by simpa using hparent), List.map_cons, List.count_cons_self,
      hafter, if_pos hparent]
  · rw [List.filter_cons_of_neg (by simpa using hparent), hafter, if_neg hparent]

end Draft.Keeps

namespace Pattern

variable {pattern : Pattern} {id : Nat} {walk : List Nat}

/-- A child of one node only, of which it is a child once, is met as often as that node. -/
theorem count_flatMap_childrenOf {parent child : Nat} {ids : List Nat}
    (hcount : ∀ id ∈ ids, (pattern.childrenOf id).count child = if parent = id then 1 else 0) :
    (ids.flatMap fun id => pattern.childrenOf id).count child = ids.count parent := by
  induction ids with
  | nil => rfl
  | cons id ids ih =>
    have hid := hcount id List.mem_cons_self
    have hids := ih fun other hother => hcount other (List.mem_cons_of_mem _ hother)
    rw [List.flatMap_cons, List.count_append, List.count_cons, hids, hid, Nat.add_comm]
    simp only [beq_iff_eq, eq_comm (a := id)]

/-- A node and the walk below it have the nodes that it reaches. -/
theorem Unfolds.mem_cons_iff (hwalk : pattern.Unfolds (pattern.childrenOf id) walk) {other : Nat} :
    other ∈ id :: walk ↔ pattern.Reaches id other := by
  rw [List.mem_cons, hwalk.mem_iff, reaches_iff, eq_comm]

/-- The walk below a node has the children of the node and of all nodes on it. -/
theorem Unfolds.perm_flatMap (hwalk : pattern.Unfolds (pattern.childrenOf id) walk) :
    walk.Perm ((id :: walk).flatMap fun node => pattern.childrenOf node) := by
  rw [List.flatMap_cons]
  exact hwalk.perm

end Pattern

/-- No two of some edges lead to one child, both from nodes that a node reaches. -/
def Edge.Unshared (pattern : Pattern) (id : Nat) (edges : List Edge) : Prop :=
  edges.Pairwise fun edge other =>
    pattern.Reaches id edge.parent → pattern.Reaches id other.parent → edge.child ≠ other.child

namespace Draft.Keeps

variable {draft : Draft} {edges : List Edge} (hkeeps : draft.Keeps edges) {source : String}
  {root id : Nat} {walk : List Nat}
  (hwalk : (draft.finish source root).Unfolds ((draft.finish source root).childrenOf id) walk)

include hkeeps hwalk

/-- Where a walk comes to each node once, no child is shared. -/
theorem unshared_of_nodup (hnodup : walk.Nodup) :
    Edge.Unshared (draft.finish source root) id edges := by
  obtain ⟨hinner, houter⟩ := List.nodup_flatMap.mp (hwalk.perm_flatMap.nodup_iff.mp hnodup)
  refine List.pairwise_iff_forall_sublist.mpr fun {edge other} hsublist hedge hother hchild => ?_
  have hedge := hwalk.mem_cons_iff.mpr hedge
  have hother := hwalk.mem_cons_iff.mpr hother
  by_cases hparent : other.parent = edge.parent
  · have hchildren := (hsublist.filter (·.parent = edge.parent)).map Edge.child
    rw [← hkeeps.childrenOf_finish source root] at hchildren
    have htwo := (hinner edge.parent hedge).sublist hchildren
    simp [hparent, hchild] at htwo
  · have : Std.Symm (Function.onFun List.Disjoint
        fun node => (draft.finish source root).childrenOf node) := ⟨fun _ _ => List.Disjoint.symm⟩
    have hdisjoint := houter.forall hother hedge hparent
    have hmem : ∀ found ∈ edges, found.child ∈ (draft.finish source root).childrenOf found.parent :=
      fun found hfound => hkeeps.childrenOf_finish source root _ ▸
        List.mem_map_of_mem (List.mem_filter.mpr ⟨hfound, decide_eq_true rfl⟩)
    refine hdisjoint (hmem other (hsublist.subset (by simp))) ?_
    exact hchild ▸ hmem edge (hsublist.subset (by simp))

/-- Where no child is shared, a walk below a node that is not its own descendant comes to each node
    once. The count of the ways to a node passes on to its children, each of which has one way more
    than its only parent. -/
theorem nodup_of_unshared (hacyclic : ¬ (draft.finish source root).LeadsTo id id)
    (hunshared : Edge.Unshared (draft.finish source root) id edges) : walk.Nodup := by
  have hcount : ∀ other, (draft.finish source root).Reaches id other →
      (id :: walk).count other ≤ 1 := by
    intro other hreaches
    induction hreaches with
    | refl =>
      have hid : id ∉ walk := fun hmem => hacyclic (hwalk.mem_iff_leadsTo.mp hmem)
      rw [List.count_cons_self, List.count_eq_zero_of_not_mem hid]
    | @tail parent child hparent hchild ih =>
      have hne : id ≠ child := by
        rintro rfl
        exact hacyclic (.tail' hparent hchild)
      rw [hkeeps.childrenOf_finish] at hchild
      obtain ⟨edge, hfiltered, rfl⟩ := List.mem_map.mp hchild
      obtain ⟨hedge, heq⟩ := List.mem_filter.mp hfiltered
      obtain rfl : edge.parent = parent := of_decide_eq_true heq
      obtain ⟨before, after, rfl⟩ := List.append_of_mem hedge
      obtain ⟨-, hafter, hbefore⟩ := List.pairwise_append.mp hunshared
      have hothers : ∀ other ∈ before ++ after,
          (draft.finish source root).Reaches id other.parent → other.child ≠ edge.child := by
        intro other hother hreaches
        obtain hother | hother := List.mem_append.mp hother
        · exact hbefore other hother edge List.mem_cons_self hreaches hparent
        · exact ((List.pairwise_cons.mp hafter).1 other hother hparent hreaches).symm
      have hnodes : ∀ node ∈ id :: walk,
          ((draft.finish source root).childrenOf node).count edge.child =
            if edge.parent = node then 1 else 0 := by
        intro node hnode
        have hreaches := hwalk.mem_cons_iff.mp hnode
        exact hkeeps.count_childrenOf node fun other hother heq =>
          hothers other hother (heq ▸ hreaches)
      calc
        (id :: walk).count edge.child = walk.count edge.child := List.count_cons_of_ne hne
        _ = ((id :: walk).flatMap fun node => (draft.finish source root).childrenOf node).count
              edge.child := hwalk.perm_flatMap.count_eq _
        _ = (id :: walk).count edge.parent := Pattern.count_flatMap_childrenOf hnodes
        _ ≤ 1 := ih
  refine List.nodup_iff_count_le_one.mpr fun other => ?_
  by_cases hother : other ∈ walk
  · have hmem := hcount other (hwalk.mem_cons_iff.mp (List.mem_cons_of_mem _ hother))
    exact Nat.le_trans (List.count_le_count_cons ..) hmem
  · rw [List.count_eq_zero_of_not_mem hother]
    exact Nat.zero_le 1

end Draft.Keeps

namespace Draft

/-- Where nothing is reported of a pattern, the walk below each node has an end and comes to all
    nodes below. It comes to each of them once exactly where no two edges from there lead to one
    child, which nothing that is reported rules out. -/
theorem exists_walk_of_defects_eq_nil {edits : List Edit} {draft : Draft}
    (hbuild : build? edits = some draft) {source : String} {root : Nat}
    (hdefects : (draft.finish source root).defects = []) (id : Nat) :
    ∃ walk : List Nat,
      (∀ limit, (draft.finish source root).descendants id limit = walk.take limit) ∧
      (∀ other, other ∈ walk ↔ (draft.finish source root).LeadsTo id other) ∧
      (walk.Nodup ↔ Edge.Unshared (draft.finish source root) id (Edit.attached [] edits)) := by
  have hkeeps := keeps_of_build?_eq_some hbuild
  obtain ⟨-, hacyclic, -⟩ := Pattern.defects_eq_nil_iff.mp hdefects
  obtain ⟨walk, hwalk⟩ := Pattern.exists_unfolds fun other (_ : Pattern.Reaches _ id other) =>
    hacyclic other
  exact ⟨walk, hwalk.preorder_eq, fun _ => hwalk.mem_iff_leadsTo,
    hkeeps.unshared_of_nodup hwalk, hkeeps.nodup_of_unshared hwalk (hacyclic id)⟩

/-- The walk below the root of two nodes that share a child comes to the child twice. -/
theorem exists_walk_of_two_ways :
    ∃ (draft : Draft) (walk : List Nat),
      build? [.push .dot ⟨0, 1⟩, .push .dot ⟨0, 1⟩, .push .dot ⟨0, 1⟩, .push .dot ⟨0, 1⟩,
        .attach 0 1, .attach 0 2, .attach 1 3, .attach 2 3] = some draft ∧
      (draft.finish "." 0).defects = [] ∧
      (∀ limit, (draft.finish "." 0).descendants 0 limit = walk.take limit) ∧
      (draft.finish "." 0).LeadsTo 0 3 ∧ ¬ walk.Nodup ∧
      ¬ Edge.Unshared (draft.finish "." 0) 0 [⟨0, 0, 1⟩, ⟨0, 1, 2⟩, ⟨1, 0, 3⟩, ⟨2, 0, 3⟩] := by
  have hdecided : ((build? [.push .dot ⟨0, 1⟩, .push .dot ⟨0, 1⟩, .push .dot ⟨0, 1⟩,
      .push .dot ⟨0, 1⟩, .attach 0 1, .attach 0 2, .attach 1 3, .attach 2 3]).map fun draft =>
        ((draft.finish "." 0).defects, (draft.finish "." 0).descendants 0 4)) =
      some ([], [1, 3, 2, 3]) := by decide +kernel
  obtain ⟨draft, hbuild, hvalues⟩ := Option.map_eq_some_iff.mp hdecided
  obtain ⟨hdefects, hdescendants⟩ := Prod.mk.inj hvalues
  obtain ⟨walk, hlimit, hmem, hnodup⟩ := exists_walk_of_defects_eq_nil hbuild hdefects 0
  have hfour := hlimit 4
  rw [hdescendants] at hfour
  have htwice : ¬ walk.Nodup := by
    intro hwalk
    have htake := hwalk.sublist (List.take_sublist 4 walk)
    rw [← hfour] at htake
    exact absurd htake (by decide)
  have hthree : 3 ∈ walk := by
    have htake : 3 ∈ walk.take 4 := by
      rw [← hfour]
      decide
    exact List.mem_of_mem_take htake
  exact ⟨draft, walk, hbuild, hdefects, hlimit, (hmem 3).mp hthree, htwice,
    fun hunshared => htwice (hnodup.mpr hunshared)⟩

/-- Nothing is reported of two nodes that share a child, nor of a node that has one child at two
    indices. -/
theorem exists_shared_child_without_defects :
    ∃ draft : Draft,
      build? [.push .dot ⟨0, 1⟩, .push .dot ⟨0, 1⟩, .push .dot ⟨0, 1⟩, .push .dot ⟨0, 1⟩,
        .attach 0 1, .attach 0 2, .attach 1 3, .attach 2 3, .attach 2 3] = some draft ∧
      defectsOfAll [draft.finish "." 0] = [] ∧
      (draft.nodes[1]?).map Node.slots = some [⟨0, 3⟩] ∧
      (draft.nodes[2]?).map Node.slots = some [⟨0, 3⟩, ⟨1, 3⟩] ∧
      (draft.finish "." 0).descendants 0 10 = [1, 3, 2, 3, 3] ∧
      ¬ ((draft.finish "." 0).descendants 0 10).Nodup := by
  have hdecided : ((build? [.push .dot ⟨0, 1⟩, .push .dot ⟨0, 1⟩, .push .dot ⟨0, 1⟩,
      .push .dot ⟨0, 1⟩, .attach 0 1, .attach 0 2, .attach 1 3, .attach 2 3,
      .attach 2 3]).map fun draft =>
        (defectsOfAll [draft.finish "." 0], (draft.nodes[1]?).map Node.slots,
          (draft.nodes[2]?).map Node.slots, (draft.finish "." 0).descendants 0 10)) =
      some ([], some [⟨0, 3⟩], some [⟨0, 3⟩, ⟨1, 3⟩], [1, 3, 2, 3, 3]) := by decide +kernel
  obtain ⟨draft, hbuild, hvalues⟩ := Option.map_eq_some_iff.mp hdecided
  simp only [Prod.mk.injEq] at hvalues
  obtain ⟨hdefects, hone, htwo, hdescendants⟩ := hvalues
  refine ⟨draft, hbuild, hdefects, hone, htwo, hdescendants, ?_⟩
  rw [hdescendants]
  decide

end Draft

end PatternTree
