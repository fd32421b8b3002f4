import Mathlib.Data.Nat.Find
import Mathlib.Logic.ExistsUnique
import PatternTree.Pattern.Defect
import PatternTree.Proofs.Draft.Edits

namespace PatternTree

namespace Node

theorem pairwise_insertIndex {index : Nat} {indices : List Nat}
    (hindices : indices.Pairwise (· < ·)) : (insertIndex index indices).Pairwise (· < ·) := by
  induction indices with
  | nil => exact List.pairwise_singleton _ _
  | cons first rest ih =>
    obtain ⟨hfirst, hrest⟩ := List.pairwise_cons.mp hindices
    unfold insertIndex
    split
    next hlt =>
      refine List.pairwise_cons.mpr ⟨fun other hother => ?_, hindices⟩
      obtain rfl | hother := List.mem_cons.mp hother
      · exact hlt
      · exact Nat.lt_trans hlt (hfirst other hother)
    next hle =>
      split
      · exact hindices
      next hne =>
        refine List.pairwise_cons.mpr ⟨fun other hother => ?_, ih hrest⟩
        obtain rfl | hother := mem_insertIndex.mp hother
        · omega
        · exact hfirst other hother

/-- The indices of a node ascend, each of them once. -/
theorem pairwise_indices (node : Node) : node.indices.Pairwise (· < ·) := by
  unfold indices
  induction node.slots with
  | nil => exact .nil
  | cons slot slots ih => exact pairwise_insertIndex ih

/-- The children at an index in the order of the slots. -/
def childrenAt (index : Nat) (node : Node) : List Nat :=
  (node.slots.filter (·.index = index)).map Slot.child

variable {node : Node} {index child : Nat}

theorem mem_indices_iff : index ∈ node.indices ↔ node.childrenAt index ≠ [] := by
  rw [mem_indices, childrenAt, ne_eq, List.map_eq_nil_iff, List.filter_eq_nil_iff]
  simp

theorem child?_eq (index : Nat) (node : Node) :
    node.child? index = (node.childrenAt index).head? := by
  rw [child?, childrenAt, List.head?_map, List.head?_filter]
  simp only [Bool.beq_eq_decide_eq]

theorem conflicting?_eq (index : Nat) (node : Node) :
    node.conflicting? index = (node.childrenAt index).head?.bind fun occupant =>
      (node.childrenAt index).find? (· != occupant) := by
  rw [conflicting?, child?_eq]
  congr
  funext occupant
  rw [childrenAt, List.find?_map, List.find?_filter]
  simp [bne, Bool.beq_eq_decide_eq]

/-- The first element that differs from the one before all others. -/
theorem head?_bind_find?_eq_some_iff {children : List Nat} :
    (children.head?.bind fun first => children.find? (· != first)) = some child ↔
      ∃ first between later, children = first :: (between ++ child :: later) ∧
        (∀ other ∈ between, other = first) ∧ child ≠ first := by
  cases children with
  | nil => simp
  | cons first others =>
    have hfind : (first :: others).find? (· != first) = others.find? (· != first) := by simp
    rw [List.head?_cons, Option.bind_some, hfind, List.find?_eq_some_iff_append]
    constructor
    · rintro ⟨hchild, between, later, rfl, hbetween⟩
      exact ⟨first, between, later, rfl, by simpa using hbetween, by simpa using hchild⟩
    · rintro ⟨first', between, later, hcons, hbetween, hchild⟩
      obtain ⟨rfl, rfl⟩ := List.cons.inj hcons
      exact ⟨by simpa using hchild, between, later, rfl, by simpa using hbetween⟩

/-- A child conflicts where it is the first one that differs from the one before all others. -/
theorem conflicting?_eq_some_iff :
    node.conflicting? index = some child ↔
      ∃ first between later, node.childrenAt index = first :: (between ++ child :: later) ∧
        (∀ other ∈ between, other = first) ∧ child ≠ first := by
  rw [conflicting?_eq, head?_bind_find?_eq_some_iff]

theorem followsGap_iff :
    node.followsGap index ↔ index ≠ 0 ∧ node.childrenAt (index - 1) = [] := by
  rw [followsGap, child?_eq]
  simp

end Node

namespace Edge

/-- The children that edges lead to from a parent at an index, in the order of attachment. -/
def childrenAt (edges : List Edge) (parent index : Nat) : List Nat :=
  (edges.filter fun edge => edge.parent = parent ∧ edge.index = index).map Edge.child

/-- Among the children at an index of a parent the given one is the first that differs from the one
    that came first. -/
def Conflicts (edges : List Edge) (parent index child : Nat) : Prop :=
  ∃ first between later, childrenAt edges parent index = first :: (between ++ child :: later) ∧
    (∀ other ∈ between, other = first) ∧ child ≠ first

/-- There are children at an index of a parent above zero but none at the index before. -/
def FollowsGap (edges : List Edge) (parent index : Nat) : Prop :=
  index ≠ 0 ∧ childrenAt edges parent index ≠ [] ∧ childrenAt edges parent (index - 1) = []

variable {edges : List Edge} {parent index : Nat}

/-- A child conflicts wherever there are two different ones. -/
theorem exists_conflicts_iff :
    (∃ child, Conflicts edges parent index child) ↔
      ∃ child ∈ childrenAt edges parent index, ∃ other ∈ childrenAt edges parent index,
        child ≠ other := by
  constructor
  · rintro ⟨child, first, between, later, hchildren, -, hchild⟩
    exact ⟨child, by simp [hchildren], first, by simp [hchildren], hchild⟩
  · rintro ⟨child, hchild, other, hother, hne⟩
    unfold Conflicts
    cases hchildren : childrenAt edges parent index with
    | nil =>
      rw [hchildren] at hchild
      cases hchild
    | cons first others =>
      cases hfind : others.find? (· != first) with
      | some found =>
        obtain ⟨hfound, between, later, rfl, hbetween⟩ := List.find?_eq_some_iff_append.mp hfind
        exact ⟨found, first, between, later, rfl, by simpa using hbetween, by simpa using hfound⟩
      | none =>
        have hall : ∀ same ∈ first :: others, same = first := by
          simpa using List.find?_eq_none.mp hfind
        rw [hchildren] at hchild hother
        exact absurd ((hall child hchild).trans (hall other hother).symm) hne

/-- Some index is free together with all above it. -/
theorem exists_free (edges : List Edge) (parent : Nat) :
    ∃ bound, ∀ index, bound ≤ index → childrenAt edges parent index = [] := by
  induction edges with
  | nil => exact ⟨0, fun _ _ => rfl⟩
  | cons edge edges ih =>
    obtain ⟨bound, hbound⟩ := ih
    refine ⟨max bound (edge.index + 1), fun index hindex => ?_⟩
    have hother : ¬ (edge.parent = parent ∧ edge.index = index) := by omega
    have hothers := hbound index (by omega)
    rw [childrenAt] at hothers ⊢
    rwa [List.filter_cons_of_neg (by simpa using hother)]

/-- No child of a parent conflicts and no index follows a gap exactly where the indices are the
    numbers below some count and one child hangs at each of them. -/
theorem forall_not_iff_exists_count :
    ((∀ index child, ¬ Conflicts edges parent index child) ∧
        ∀ index, ¬ FollowsGap edges parent index) ↔
      ∃ count, (∀ index < count, ∃! child, child ∈ childrenAt edges parent index) ∧
        ∀ index, count ≤ index → childrenAt edges parent index = [] := by
  constructor
  · rintro ⟨hconflicts, hgaps⟩
    have hfree : ∃ index, childrenAt edges parent index = [] := by
      obtain ⟨bound, hbound⟩ := exists_free edges parent
      exact ⟨bound, hbound bound (Nat.le_refl _)⟩
    refine ⟨Nat.find hfree, fun index hindex => ?_, fun index hindex => ?_⟩
    · obtain ⟨child, hchild⟩ := List.exists_mem_of_ne_nil _ (Nat.find_min hfree hindex)
      refine ⟨child, hchild, fun other hother => ?_⟩
      by_contra hne
      obtain ⟨found, hfound⟩ := exists_conflicts_iff.mpr ⟨other, hother, child, hchild, hne⟩
      exact hconflicts index found hfound
    · induction index, hindex using Nat.le_induction with
      | base => exact Nat.find_spec hfree
      | succ index _ ih =>
        by_contra hchildren
        exact hgaps (index + 1) ⟨Nat.succ_ne_zero index, hchildren, ih⟩
  · rintro ⟨count, hchildren, hfree⟩
    have hlt : ∀ index, childrenAt edges parent index ≠ [] → index < count :=
      fun index hne => Nat.lt_of_not_le fun hle => hne (hfree index hle)
    refine ⟨fun index child hconflicts => ?_, fun index hgap => ?_⟩
    · obtain ⟨child, hchild, other, hother, hne⟩ := exists_conflicts_iff.mp ⟨child, hconflicts⟩
      have hunique := hchildren index (hlt index (List.ne_nil_of_mem hchild))
      exact hne (hunique.unique hchild hother)
    · obtain ⟨hzero, hindex, hbefore⟩ := hgap
      have hcount := hlt index hindex
      obtain ⟨child, hchild, -⟩ := hchildren (index - 1) (by omega)
      rw [hbefore] at hchild
      cases hchild

end Edge

namespace Draft.Keeps

variable {draft : Draft} {edges : List Edge}

/-- A node has the children that its edges lead to at an index. -/
theorem childrenAt_eq (hkeeps : draft.Keeps edges) {id : Nat} {node : Node}
    (hnode : draft.nodes[id]? = some node) (index : Nat) :
    node.childrenAt index = Edge.childrenAt edges id index := by
  rw [Node.childrenAt, hkeeps.slots id node hnode, List.filter_map, List.map_map,
    List.filter_filter, Edge.childrenAt]
  simp only [Function.comp_def, Edge.slot, Bool.decide_and, Bool.and_comm]
  rfl

/-- Only nodes that exist have children at an index. -/
theorem exists_node (hkeeps : draft.Keeps edges) {parent index : Nat}
    (hchildren : Edge.childrenAt edges parent index ≠ []) :
    ∃ node, draft.nodes[parent]? = some node := by
  obtain ⟨child, hchild⟩ := List.exists_mem_of_ne_nil _ hchildren
  obtain ⟨edge, hedge, -⟩ := List.mem_map.mp hchild
  obtain ⟨hmem, hends⟩ := List.mem_filter.mp hedge
  have hparent : edge.parent = parent := (of_decide_eq_true hends).1
  exact ⟨_, Array.getElem?_eq_getElem (hparent ▸ hkeeps.parent_lt edge hmem)⟩

end Draft.Keeps

/-- Whether a defect at an index stands before another one by parent and index. -/
def Defect.Before (earlier later : Defect) : Prop :=
  earlier.parent < later.parent ∨
    earlier.parent = later.parent ∧ ∃ index index', earlier.index? = some index ∧
      later.index? = some index' ∧ index < index'

namespace Pattern

/-- What is reported of the nodes of a pattern and their indices, one node after the other. -/
def overIndices (report : Node → Nat → Nat → Option Defect) (pattern : Pattern) : List Defect :=
  pattern.numberedNodes.flatMap fun (node, id) => node.indices.filterMap (report node id)

variable {pattern : Pattern} {report : Node → Nat → Nat → Option Defect}

theorem mem_overIndices_iff {defect : Defect} :
    defect ∈ pattern.overIndices report ↔
      ∃ id node index, pattern.nodes[id]? = some node ∧ index ∈ node.indices ∧
        report node id index = some defect := by
  simp only [overIndices, numberedNodes, List.mem_flatMap, List.mem_filterMap, Prod.exists,
    List.mem_zipIdx_iff_getElem?, Array.getElem?_toList]
  constructor
  · rintro ⟨node, id, hnode, index, hindex, hreport⟩
    exact ⟨id, node, index, hnode, hindex, hreport⟩
  · rintro ⟨id, node, index, hnode, hindex, hreport⟩
    exact ⟨node, id, hnode, index, hindex, hreport⟩

/-- Reports come by parent and index when they name the node and the index they are about. -/
theorem pairwise_overIndices
    (hreport : ∀ node id index defect, report node id index = some defect →
      defect.parent = id ∧ defect.index? = some index) :
    (pattern.overIndices report).Pairwise Defect.Before := by
  have hnumbers : pattern.numberedNodes.Pairwise (·.2 < ·.2) := by
    have hrange := List.pairwise_lt_range' (s := 0) (n := pattern.nodes.toList.length)
    rwa [← List.zipIdx_map_snd, List.pairwise_map] at hrange
  rw [overIndices, List.pairwise_flatMap]
  refine ⟨fun ⟨node, id⟩ _ => ?_, hnumbers.imp ?_⟩
  · rw [List.pairwise_filterMap]
    refine node.pairwise_indices.imp fun hlt earlier hearlier later hlater => ?_
    obtain ⟨hparent, hindex⟩ := hreport _ _ _ _ hearlier
    obtain ⟨hparent', hindex'⟩ := hreport _ _ _ _ hlater
    exact .inr ⟨hparent.trans hparent'.symm, _, _, hindex, hindex', hlt⟩
  · rintro ⟨node, id⟩ ⟨node', id'⟩ hlt earlier hearlier later hlater
    obtain ⟨index, -, hearlier⟩ := List.mem_filterMap.mp hearlier
    obtain ⟨index', -, hlater⟩ := List.mem_filterMap.mp hlater
    refine .inl ?_
    rw [(hreport _ _ _ _ hearlier).1, (hreport _ _ _ _ hlater).1]
    exact hlt

theorem nonUniqueChildren_eq (pattern : Pattern) :
    pattern.nonUniqueChildren = pattern.overIndices fun node id index =>
      (node.conflicting? index).map fun child => .nonUniqueChild id index child := rfl

theorem nonConsecutiveIndices_eq (pattern : Pattern) :
    pattern.nonConsecutiveIndices = pattern.overIndices fun node id index =>
      if node.followsGap index then some (.nonConsecutive id index) else none := by
  rw [nonConsecutiveIndices, overIndices]
  congr
  funext ⟨node, id⟩
  dsimp only
  rw [← List.filterMap_eq_map, List.filterMap_filter]
  rfl

end Pattern

/-- The defects of the indices in a pattern with the given edges. -/
structure Defect.OfIndices (edges : List Edge) (conflicts gaps : List Defect) : Prop where
  /-- By parent and index, and so at most one at each index. -/
  conflicts_before : conflicts.Pairwise Before
  gaps_before : gaps.Pairwise Before
  mem_conflicts_iff : ∀ defect, defect ∈ conflicts ↔
    ∃ parent index child, defect = nonUniqueChild parent index child ∧
      Edge.Conflicts edges parent index child
  mem_gaps_iff : ∀ defect, defect ∈ gaps ↔
    ∃ parent index, defect = nonConsecutive parent index ∧ Edge.FollowsGap edges parent index

namespace Defect.OfIndices

variable {edges : List Edge} {conflicts gaps : List Defect} {parent index : Nat}

theorem nonUniqueChild_mem_iff (hindices : OfIndices edges conflicts gaps) {child : Nat} :
    nonUniqueChild parent index child ∈ conflicts ↔ Edge.Conflicts edges parent index child := by
  rw [hindices.mem_conflicts_iff]
  constructor
  · rintro ⟨_, _, _, hdefect, hconflict⟩
    cases hdefect
    exact hconflict
  · exact fun hconflict => ⟨parent, index, child, rfl, hconflict⟩

theorem nonConsecutive_mem_iff (hindices : OfIndices edges conflicts gaps) :
    nonConsecutive parent index ∈ gaps ↔ Edge.FollowsGap edges parent index := by
  rw [hindices.mem_gaps_iff]
  constructor
  · rintro ⟨_, _, hdefect, hgap⟩
    cases hdefect
    exact hgap
  · exact fun hgap => ⟨parent, index, rfl, hgap⟩

/-- Nothing is reported of a parent exactly where its indices are the numbers below some count and
    one child hangs at each of them. -/
theorem forall_parent_ne_iff (hindices : OfIndices edges conflicts gaps) :
    (∀ defect ∈ conflicts ++ gaps, defect.parent ≠ parent) ↔
      ∃ count, (∀ index < count, ∃! child, child ∈ Edge.childrenAt edges parent index) ∧
        ∀ index, count ≤ index → Edge.childrenAt edges parent index = [] := by
  rw [← Edge.forall_not_iff_exists_count]
  constructor
  · refine fun hnone => ⟨fun index child hconflict => ?_, fun index hgap => ?_⟩
    · have hmem := hindices.nonUniqueChild_mem_iff.mpr hconflict
      exact hnone _ (List.mem_append_left gaps hmem) rfl
    · have hmem := hindices.nonConsecutive_mem_iff.mpr hgap
      exact hnone _ (List.mem_append_right conflicts hmem) rfl
  · rintro ⟨hconflicts, hgaps⟩ defect hdefect rfl
    obtain hdefect | hdefect := List.mem_append.mp hdefect
    · obtain ⟨_, index, child, rfl, hconflict⟩ := (hindices.mem_conflicts_iff defect).mp hdefect
      exact hconflicts index child hconflict
    · obtain ⟨_, index, rfl, hgap⟩ := (hindices.mem_gaps_iff defect).mp hdefect
      exact hgaps index hgap

end Defect.OfIndices

namespace Draft.Keeps

variable {draft : Draft} {edges : List Edge} (hkeeps : draft.Keeps edges) {source : String}
  {root : Nat} {defect : Defect}

include hkeeps

/-- The indices that are reported on are those at which edges lead to children. -/
theorem mem_overIndices_iff {report : Node → Nat → Nat → Option Defect} :
    defect ∈ (draft.finish source root).overIndices report ↔
      ∃ parent node index, draft.nodes[parent]? = some node ∧
        Edge.childrenAt edges parent index ≠ [] ∧ report node parent index = some defect := by
  rw [Pattern.mem_overIndices_iff]
  refine exists_congr fun parent => exists_congr fun node => exists_congr fun index => ?_
  refine and_congr_right fun hnode => ?_
  rw [Node.mem_indices_iff, hkeeps.childrenAt_eq hnode]

theorem mem_nonUniqueChildren_iff :
    defect ∈ (draft.finish source root).nonUniqueChildren ↔
      ∃ parent index child, defect = .nonUniqueChild parent index child ∧
        Edge.Conflicts edges parent index child := by
  rw [Pattern.nonUniqueChildren_eq, hkeeps.mem_overIndices_iff]
  constructor
  · rintro ⟨parent, node, index, hnode, -, hdefect⟩
    obtain ⟨child, hconflict, rfl⟩ := Option.map_eq_some_iff.mp hdefect
    rw [Node.conflicting?_eq_some_iff, hkeeps.childrenAt_eq hnode] at hconflict
    exact ⟨parent, index, child, rfl, hconflict⟩
  · rintro ⟨parent, index, child, rfl, hconflict⟩
    have hchildren : Edge.childrenAt edges parent index ≠ [] := by
      obtain ⟨first, between, later, hcons, -⟩ := hconflict
      rw [hcons]
      exact List.cons_ne_nil _ _
    obtain ⟨node, hnode⟩ := hkeeps.exists_node hchildren
    refine ⟨parent, node, index, hnode, hchildren, Option.map_eq_some_iff.mpr ⟨child, ?_, rfl⟩⟩
    rwa [Node.conflicting?_eq_some_iff, hkeeps.childrenAt_eq hnode]

theorem mem_nonConsecutiveIndices_iff :
    defect ∈ (draft.finish source root).nonConsecutiveIndices ↔
      ∃ parent index, defect = .nonConsecutive parent index ∧
        Edge.FollowsGap edges parent index := by
  rw [Pattern.nonConsecutiveIndices_eq, hkeeps.mem_overIndices_iff]
  constructor
  · rintro ⟨parent, node, index, hnode, hchildren, hdefect⟩
    split at hdefect
    next hgap =>
      rw [Node.followsGap_iff, hkeeps.childrenAt_eq hnode] at hgap
      cases hdefect
      exact ⟨parent, index, rfl, hgap.1, hchildren, hgap.2⟩
    · cases hdefect
  · rintro ⟨parent, index, rfl, hzero, hchildren, hbefore⟩
    obtain ⟨node, hnode⟩ := hkeeps.exists_node hchildren
    refine ⟨parent, node, index, hnode, hchildren, if_pos ?_⟩
    rw [Node.followsGap_iff, hkeeps.childrenAt_eq hnode]
    exact ⟨hzero, hbefore⟩

/-- Where a draft has the given edges, the reports on its indices are about these. -/
theorem ofIndices (source : String) (root : Nat) :
    Defect.OfIndices edges (draft.finish source root).nonUniqueChildren
      (draft.finish source root).nonConsecutiveIndices where
  conflicts_before := by
    rw [Pattern.nonUniqueChildren_eq]
    refine Pattern.pairwise_overIndices fun node id index defect hdefect => ?_
    obtain ⟨child, -, rfl⟩ := Option.map_eq_some_iff.mp hdefect
    exact ⟨rfl, rfl⟩
  gaps_before := by
    rw [Pattern.nonConsecutiveIndices_eq]
    refine Pattern.pairwise_overIndices fun node id index defect hdefect => ?_
    split at hdefect
    · cases hdefect
      exact ⟨rfl, rfl⟩
    · cases hdefect
  mem_conflicts_iff _ := hkeeps.mem_nonUniqueChildren_iff
  mem_gaps_iff _ := hkeeps.mem_nonConsecutiveIndices_iff

end Draft.Keeps

/-- The defects of a pattern stand between those of the ones before it and those of the ones
    after it. -/
theorem exists_defectsOfAll_eq {patterns : List Pattern} {position : Nat} {pattern : Pattern}
    (hpattern : patterns[position]? = some pattern) :
    ∃ front back, defectsOfAll patterns =
        front ++ pattern.defects.map (position, ·) ++ back ∧
      (∀ entry ∈ front, entry.1 < position) ∧ ∀ entry ∈ back, position < entry.1 := by
  obtain ⟨hlt, rfl⟩ := List.getElem?_eq_some_iff.mp hpattern
  have hsplit := List.take_append_drop position patterns
  rw [List.drop_eq_getElem_cons hlt] at hsplit
  have hlength : (patterns.take position).length = position :=
    List.length_take_of_le (Nat.le_of_lt hlt)
  have hzip : patterns.zipIdx = (patterns.take position).zipIdx ++
      (patterns[position], position) :: (patterns.drop (position + 1)).zipIdx (position + 1) := by
    conv_lhs => rw [← hsplit]
    rw [List.zipIdx_append, List.zipIdx_cons, hlength, Nat.zero_add]
  rw [defectsOfAll, hzip, List.flatMap_append, List.flatMap_cons, ← List.append_assoc]
  refine ⟨_, _, rfl, ?_, ?_⟩
  · intro entry hentry
    obtain ⟨⟨other, index⟩, hother, hentry⟩ := List.mem_flatMap.mp hentry
    obtain ⟨defect, -, rfl⟩ := List.mem_map.mp hentry
    have hindex := List.snd_lt_of_mem_zipIdx hother
    simpa [hlength] using hindex
  · intro entry hentry
    obtain ⟨⟨other, index⟩, hother, hentry⟩ := List.mem_flatMap.mp hentry
    obtain ⟨defect, -, rfl⟩ := List.mem_map.mp hentry
    exact List.le_snd_of_mem_zipIdx hother

/-- In a report on a batch the defects of each pattern stand together with its position, those of
    earlier patterns before them and those of later ones behind. Before and behind the cycles stand
    the defects of its indices, whatever edges it has and in whatever order they were attached: a
    conflict at each index of a parent with two different children, and each index above zero with
    children that none hang before. A parent has none of them exactly where its indices are the
    numbers below some count and one child hangs at each of them. -/
theorem defectsOfAll_indices {edits : List Draft.Edit} {draft : Draft}
    (hbuild : Draft.build? edits = some draft) {source : String} {root : Nat}
    {patterns : List Pattern} {position : Nat}
    (hpattern : patterns[position]? = some (draft.finish source root)) :
    ∃ front conflicts gaps back,
      defectsOfAll patterns = front ++
        (conflicts ++ (draft.finish source root).cyclicNodes ++ gaps).map (position, ·) ++ back ∧
      (∀ entry ∈ front, entry.1 < position) ∧ (∀ entry ∈ back, position < entry.1) ∧
      Defect.OfIndices (Draft.Edit.attached [] edits) conflicts gaps ∧
      (∀ parent index, (∃ child, .nonUniqueChild parent index child ∈ conflicts) ↔
        ∃ child ∈ Edge.childrenAt (Draft.Edit.attached [] edits) parent index,
          ∃ other ∈ Edge.childrenAt (Draft.Edit.attached [] edits) parent index,
            child ≠ other) ∧
      ∀ parent, (∀ defect ∈ conflicts ++ gaps, defect.parent ≠ parent) ↔
        ∃ count,
          (∀ index < count,
            ∃! child, child ∈ Edge.childrenAt (Draft.Edit.attached [] edits) parent index) ∧
          ∀ index, count ≤ index →
            Edge.childrenAt (Draft.Edit.attached [] edits) parent index = [] := by
  obtain ⟨front, back, hall, hfront, hback⟩ := exists_defectsOfAll_eq hpattern
  have hindices := (Draft.keeps_of_build?_eq_some hbuild).ofIndices source root
  refine ⟨front, _, _, back, hall, hfront, hback, hindices, fun parent index => ?_,
    fun parent => hindices.forall_parent_ne_iff⟩
  rw [← Edge.exists_conflicts_iff]
  exact exists_congr fun child => hindices.nonUniqueChild_mem_iff

/-- Twice the same child at an index is no conflict but the next one is, and the index behind the
    next one follows a gap. -/
theorem defectsOfAll_indices_conflict_and_gap :
    ∃ draft, Draft.build? [.push .concatenation ⟨0, 0⟩, .push .dot ⟨0, 0⟩, .push .dot ⟨0, 0⟩,
        .attachAt 0 2 2, .attachAt 0 0 1, .attachAt 0 0 1, .attachAt 0 0 2] = some draft ∧
      (1, .nonUniqueChild 0 0 2) ∈ defectsOfAll [draft.finish "" 1, draft.finish "" 0] ∧
      (1, .nonConsecutive 0 2) ∈ defectsOfAll [draft.finish "" 1, draft.finish "" 0] := by
  obtain ⟨draft, hbuild⟩ := Option.isSome_iff_exists.mp
    (by decide : (Draft.build? [.push .concatenation ⟨0, 0⟩, .push .dot ⟨0, 0⟩, .push .dot ⟨0, 0⟩,
      .attachAt 0 2 2, .attachAt 0 0 1, .attachAt 0 0 1, .attachAt 0 0 2]).isSome)
  obtain ⟨front, conflicts, gaps, back, hall, -, -, hindices, -, -⟩ :=
    defectsOfAll_indices hbuild (rfl : [draft.finish "" 1, draft.finish "" 0][1]? = some _)
  have hconflict := hindices.nonUniqueChild_mem_iff.mpr
    (⟨1, [1], [], by decide, by decide, by decide⟩ : Edge.Conflicts _ 0 0 2)
  have hgap := hindices.nonConsecutive_mem_iff.mpr
    (⟨by decide, by decide, by decide⟩ : Edge.FollowsGap _ 0 2)
  refine ⟨draft, hbuild, ?_⟩
  rw [hall]
  exact ⟨by simp [hconflict], by simp [hgap]⟩

end PatternTree
