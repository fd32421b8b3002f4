import Mathlib.Data.List.Perm.Subperm
import PatternTree.Proofs.AddedEdge

namespace PatternTree

namespace Node

/-- The indices of a node's slots are the numbers below their count, each of them once. -/
def Contiguous (node : Node) : Prop :=
  (node.slots.map Slot.index).Perm (List.range node.slots.length)

instance (node : Node) : Decidable node.Contiguous :=
  inferInstanceAs (Decidable (List.Perm _ _))

variable {node extended : Node} {index : Nat}

theorem isSome_child?_iff : (node.child? index).isSome ↔ index ∈ node.slots.map Slot.index := by
  rw [child?, Option.isSome_map, List.find?_isSome, List.mem_map]
  simp only [beq_iff_eq]

/-- The answers for a node that got one more slot. -/
theorem child?_of_slots_eq {slot : Slot} (hslots : extended.slots = node.slots ++ [slot])
    (index : Nat) : extended.child? index =
      (node.child? index).or (if index = slot.index then some slot.child else none) := by
  rw [child?, child?, hslots, List.find?_append, Option.map_or]
  by_cases hindex : index = slot.index
  · simp [hindex]
  · simp [hindex, Ne.symm hindex]

/-- Indices are contiguous exactly where the count of the slots is the least one that is free. -/
theorem contiguous_iff :
    node.Contiguous ↔ (∀ index < node.slots.length, (node.child? index).isSome) ∧
      node.child? node.slots.length = none := by
  simp only [← Option.not_isSome_iff_eq_none, isSome_child?_iff]
  constructor
  · intro hperm
    simp only [hperm.mem_iff, List.mem_range]
    exact ⟨fun _ => id, Nat.lt_irrefl _⟩
  · rintro ⟨hindices, -⟩
    have hsubset : List.range node.slots.length ⊆ node.slots.map Slot.index := fun index hindex =>
      hindices index (List.mem_range.mp hindex)
    have hsubperm := List.subperm_of_subset List.nodup_range hsubset
    exact (hsubperm.perm_of_length_le (by simp)).symm

namespace Contiguous

variable (hnode : node.Contiguous)

include hnode

theorem index_lt {slot : Slot} (hslot : slot ∈ node.slots) : slot.index < node.slots.length :=
  List.mem_range.mp (hnode.mem_iff.mp (List.mem_map_of_mem hslot))

theorem exists_slot (hindex : index < node.slots.length) :
    ∃ slot ∈ node.slots, slot.index = index :=
  List.mem_map.mp (hnode.mem_iff.mpr (List.mem_range.mpr hindex))

/-- They remain so when the next slot gets the count of the others. -/
theorem of_slots_eq {child : Nat}
    (hslots : extended.slots = node.slots ++ [⟨node.slots.length, child⟩]) :
    extended.Contiguous := by
  rw [Contiguous, hslots, List.map_append, List.length_append, List.length_singleton,
    List.range_succ]
  exact List.Perm.append hnode (.refl _)

end Contiguous

end Node

namespace Draft

variable {draft next : Draft} {parent index child : Nat} {node : Node}

/-- The parent of a new edge has one more slot. -/
theorem exists_of_attachAt?_eq_some (hparent : draft.nodes[parent]? = some node)
    (hattach : draft.attachAt? parent index child = some next) :
    ∃ extended, next.nodes[parent]? = some extended ∧
      extended.slots = node.slots ++ [⟨index, child⟩] := by
  have hextended := getElem?_of_attachAt?_eq_some hattach parent
  rw [hparent, Option.map_some] at hextended
  refine ⟨_, hextended, ?_⟩
  simp only [if_pos]
  split <;> rfl

/-- The edge of a change without an index of its own gets the count of its parent's edges. -/
theorem Edit.index_eq_countP {edges : List Edge} {edit : Edit} {edge : Edge}
    (hedit : ∀ index child, edit ≠ attachAt parent index child)
    (hedge : edit.edge? edges = some edge) (hparent : edge.parent = parent) :
    edge.index = edges.countP (·.parent = parent) := by
  cases edit with
  | attach parent' child =>
    cases hedge
    rw [← hparent]
  | attachAt parent' index child =>
    cases hedge
    exact absurd (hparent ▸ rfl) (hedit index child)
  | push | setLabel | declareGroup | diagnose => cases hedge

/-- A parent whose edges are all attached without an index of their own has them in the order of
    their indices, which are contiguous. -/
theorem Edit.map_index_attached {edges : List Edge} {edits : List Edit}
    (hedits : ∀ index child, attachAt parent index child ∉ edits)
    (hedges : (edges.filter (·.parent = parent)).map Edge.index =
      List.range (edges.countP (·.parent = parent))) :
    ((attached edges edits).filter (·.parent = parent)).map Edge.index =
      List.range ((attached edges edits).countP (·.parent = parent)) := by
  induction edits generalizing edges with
  | nil => exact hedges
  | cons edit edits ih =>
    refine ih (fun index child hmem => hedits index child (List.mem_cons_of_mem _ hmem)) ?_
    cases hedge : edit.edge? edges with
    | none => simpa using hedges
    | some edge =>
      rw [Option.toList_some, List.filter_append, List.map_append, List.countP_append, hedges]
      by_cases hparent : edge.parent = parent
      · have hedit : ∀ index child, edit ≠ attachAt parent index child :=
          fun index child heq => hedits index child (heq ▸ List.mem_cons_self)
        have hindex := index_eq_countP hedit hedge hparent
        rw [List.filter_singleton, List.countP_singleton]
        simp [hparent, hindex, List.range_succ]
      · simp [hparent]

/-- A node that gets its children without indices of their own has contiguous ones. -/
theorem contiguous_of_build? {edits : List Edit} (hbuild : build? edits = some draft)
    (hparent : draft.nodes[parent]? = some node)
    (hedits : ∀ index child, .attachAt parent index child ∉ edits) : node.Contiguous := by
  have hslots := (keeps_of_build?_eq_some hbuild).slots parent node hparent
  have hindices : ((Edit.attached [] edits).filter (·.parent = parent)).map Edge.index =
      List.range _ := Edit.map_index_attached hedits rfl
  rw [Node.Contiguous, hslots, List.map_map, List.length_map, ← List.countP_eq_length_filter,
    ← hindices]
  exact .refl _

namespace Keeps

variable {edges : List Edge} (hkeeps : draft.Keeps edges) {source : String} {root : Nat}
  (hparent : draft.nodes[parent]? = some node)
  (hattach : draft.attachAt? parent index child = some next) {defect : Defect}

include hkeeps hparent hattach

/-- An edge makes its child conflict where another child hangs at its index and none conflicts
    there. The conflicts before it stay. -/
theorem mem_nonUniqueChildren_attachAt_iff :
    defect ∈ (next.finish source root).nonUniqueChildren ↔
      defect ∈ (draft.finish source root).nonUniqueChildren ∨
        defect = .nonUniqueChild parent index child ∧ node.conflicting? index = none ∧
          ∃ slot ∈ node.slots, slot.index = index ∧ slot.child ≠ child := by
  have hnone : node.conflicting? index = none ↔
      ∀ other, ¬ Edge.Conflicts edges parent index other := by
    rw [Option.eq_none_iff_forall_ne_some]
    refine forall_congr' fun other => not_congr ?_
    rw [Node.conflicting?_eq_some_iff, hkeeps.childrenAt_eq hparent, Edge.Conflicts]
  rw [(hkeeps.attachAt hattach).mem_nonUniqueChildren_iff, hkeeps.mem_nonUniqueChildren_iff, hnone,
    ← hkeeps.exists_mem_childrenAt_iff hparent]
  constructor
  · rintro ⟨_, _, _, rfl, hconflict⟩
    obtain hconflict | ⟨⟨rfl, rfl, rfl⟩, hother, hnone⟩ :=
      Edge.conflicts_append_singleton_iff.mp hconflict
    · exact .inl ⟨_, _, _, rfl, hconflict⟩
    · exact .inr ⟨rfl, hnone, hother⟩
  · rintro (⟨_, _, _, rfl, hconflict⟩ | ⟨rfl, hnone, hother⟩)
    · exact ⟨_, _, _, rfl, Edge.conflicts_append_singleton_iff.mpr (.inl hconflict)⟩
    · exact ⟨_, _, _, rfl,
        Edge.conflicts_append_singleton_iff.mpr (.inr ⟨⟨rfl, rfl, rfl⟩, hother, hnone⟩)⟩

/-- An edge fills the gap before the next index, and its own index follows a gap where no child
    hangs at the index before. -/
theorem mem_nonConsecutiveIndices_attachAt_iff :
    defect ∈ (next.finish source root).nonConsecutiveIndices ↔
      defect ∈ (draft.finish source root).nonConsecutiveIndices ∧
          defect ≠ .nonConsecutive parent (index + 1) ∨
        defect = .nonConsecutive parent index ∧ index ≠ 0 ∧
          ∀ slot ∈ node.slots, slot.index ≠ index - 1 := by
  rw [(hkeeps.attachAt hattach).mem_nonConsecutiveIndices_iff,
    hkeeps.mem_nonConsecutiveIndices_iff, ← hkeeps.childrenAt_eq_nil_iff hparent]
  constructor
  · rintro ⟨_, _, rfl, hgap⟩
    obtain ⟨hgap, hother⟩ | ⟨⟨rfl, rfl⟩, hgap⟩ := Edge.followsGap_append_singleton_iff.mp hgap
    · refine .inl ⟨⟨_, _, rfl, hgap⟩, fun heq => hother ?_⟩
      cases heq
      exact ⟨rfl, rfl⟩
    · exact .inr ⟨rfl, hgap⟩
  · rintro (⟨⟨_, _, rfl, hgap⟩, hother⟩ | ⟨rfl, hgap⟩)
    · refine ⟨_, _, rfl, Edge.followsGap_append_singleton_iff.mpr (.inl ⟨hgap, ?_⟩)⟩
      rintro ⟨rfl, rfl⟩
      exact hother rfl
    · exact ⟨_, _, rfl, Edge.followsGap_append_singleton_iff.mpr (.inr ⟨⟨rfl, rfl⟩, hgap⟩)⟩

end Keeps

/-- Nothing more is reported when a node with contiguous indices gets a child at the next one. -/
theorem Keeps.reports_attachAt_of_contiguous {edges : List Edge} (hkeeps : draft.Keeps edges)
    (hparent : draft.nodes[parent]? = some node) (hnode : node.Contiguous)
    (hattach : draft.attachAt? parent node.slots.length child = some next) (source : String)
    (root : Nat) :
    (next.finish source root).nonUniqueChildren = (draft.finish source root).nonUniqueChildren ∧
      (next.finish source root).nonConsecutiveIndices =
        (draft.finish source root).nonConsecutiveIndices := by
  have hindices := hkeeps.ofIndices source root
  have hindices' := (hkeeps.attachAt hattach).ofIndices source root
  constructor
  · refine hindices'.conflicts_before.eq_of_mem_iff hindices.conflicts_before fun defect => ?_
    rw [hkeeps.mem_nonUniqueChildren_attachAt_iff hparent hattach, or_iff_left]
    rintro ⟨-, -, slot, hslot, hindex, -⟩
    exact Nat.ne_of_lt (hnode.index_lt hslot) hindex
  · refine hindices'.gaps_before.eq_of_mem_iff hindices.gaps_before fun defect => ?_
    rw [hkeeps.mem_nonConsecutiveIndices_attachAt_iff hparent hattach, or_iff_left,
      and_iff_left_of_imp]
    · rintro hdefect rfl
      have hgap := hindices.nonConsecutive_mem_iff.mp hdefect
      refine hgap.2.1 ((hkeeps.childrenAt_eq_nil_iff hparent).mpr fun slot hslot => ?_)
      have hlt := hnode.index_lt hslot
      omega
    · rintro ⟨-, hzero, hbefore⟩
      obtain ⟨slot, hslot, hindex⟩ := hnode.exists_slot (Nat.sub_one_lt hzero)
      exact hbefore slot hslot hindex

/-- Whatever has been attached before, a child without an index of its own gets the count of its
    parent's slots, and no child that was found at an index becomes another one. The child conflicts
    if another one hangs at this index and none conflicts there, and the index follows a gap if no
    child hangs at the one before. Exactly where the parent's indices are contiguous the count is
    the least index that is free, and then they stay so and nothing more is reported. They are
    contiguous where all children of the parent came without an index of their own. -/
theorem attach?_counts_slots {edits : List Edit} (hbuild : build? edits = some draft)
    (hparent : draft.nodes[parent]? = some node) (hchild : child < draft.nodes.size)
    (source : String) (root : Nat) :
    ∃ next extended,
      draft.attach? parent child = some (next, node.slots.length) ∧
      build? (edits ++ [.attach parent child]) = some next ∧
      next.nodes[parent]? = some extended ∧
      (∀ index, extended.child? index =
        (node.child? index).or (if index = node.slots.length then some child else none)) ∧
      (∀ defect, defect ∈ (next.finish source root).nonUniqueChildren ↔
        defect ∈ (draft.finish source root).nonUniqueChildren ∨
          defect = .nonUniqueChild parent node.slots.length child ∧
            node.conflicting? node.slots.length = none ∧
            ∃ slot ∈ node.slots, slot.index = node.slots.length ∧ slot.child ≠ child) ∧
      (∀ defect, defect ∈ (next.finish source root).nonConsecutiveIndices ↔
        defect ∈ (draft.finish source root).nonConsecutiveIndices ∧
            defect ≠ .nonConsecutive parent (node.slots.length + 1) ∨
          defect = .nonConsecutive parent node.slots.length ∧ node.slots.length ≠ 0 ∧
            ∀ slot ∈ node.slots, slot.index ≠ node.slots.length - 1) ∧
      (node.Contiguous ↔ (∀ index < node.slots.length, (node.child? index).isSome) ∧
        node.child? node.slots.length = none) ∧
      (node.Contiguous → extended.Contiguous ∧
        (next.finish source root).nonUniqueChildren =
          (draft.finish source root).nonUniqueChildren ∧
        (next.finish source root).nonConsecutiveIndices =
          (draft.finish source root).nonConsecutiveIndices) ∧
      ((∀ index other, .attachAt parent index other ∉ edits) → node.Contiguous) := by
  have hkeeps := keeps_of_build?_eq_some hbuild
  obtain ⟨next, hattach⟩ := exists_attachAt?_eq_some
    (Array.getElem?_eq_some_iff.mp hparent).1 hchild node.slots.length
  obtain ⟨extended, hextended, hslots⟩ := exists_of_attachAt?_eq_some hparent hattach
  have happend : draft.attach? parent child = some (next, node.slots.length) := by
    simp [attach?, hparent, hattach]
  refine ⟨next, extended, happend, ?_, hextended, Node.child?_of_slots_eq hslots,
    fun _ => hkeeps.mem_nonUniqueChildren_attachAt_iff hparent hattach,
    fun _ => hkeeps.mem_nonConsecutiveIndices_attachAt_iff hparent hattach, Node.contiguous_iff,
    fun hnode => ⟨hnode.of_slots_eq hslots, ?_⟩, contiguous_of_build? hbuild hparent⟩
  · rw [build?_append_singleton hbuild, Edit.change?, happend, Option.map_some]
  · exact hkeeps.reports_attachAt_of_contiguous hparent hnode hattach source root

/-- A child that is attached at the first two indices the wrong way round leaves the next index to
    the one that comes without an index. -/
theorem attach?_behind_swapped_indices :
    ∃ (draft : Draft) (node : Node) (next : Draft),
      build? [.push .dot ⟨0, 1⟩, .push .dot ⟨0, 1⟩, .push .dot ⟨0, 1⟩, .push .dot ⟨0, 1⟩,
        .attachAt 0 1 1, .attachAt 0 0 2] = some draft ∧
      draft.nodes[0]? = some node ∧ 3 < draft.nodes.size ∧ node.Contiguous ∧
      draft.attach? 0 3 = some (next, 2) ∧ node.child? 2 = none ∧ node.child? 1 = some 1 ∧
      (next.finish "." 0).nonUniqueChildren = (draft.finish "." 0).nonUniqueChildren ∧
      (next.finish "." 0).nonConsecutiveIndices = (draft.finish "." 0).nonConsecutiveIndices := by
  have hdecided : ((build? [.push .dot ⟨0, 1⟩, .push .dot ⟨0, 1⟩, .push .dot ⟨0, 1⟩,
      .push .dot ⟨0, 1⟩, .attachAt 0 1 1, .attachAt 0 0 2]).map fun draft =>
        (draft.nodes.size, (draft.nodes[0]?).map fun node =>
          (node.slots, decide node.Contiguous))) =
      some (4, some ([⟨1, 1⟩, ⟨0, 2⟩], true)) := by decide +kernel
  obtain ⟨draft, hbuild, hvalues⟩ := Option.map_eq_some_iff.mp hdecided
  obtain ⟨hsize, hvalues⟩ := Prod.mk.inj hvalues
  obtain ⟨node, hparent, hvalues⟩ := Option.map_eq_some_iff.mp hvalues
  obtain ⟨hslots, hnode⟩ := Prod.mk.inj hvalues
  have hchild : 3 < draft.nodes.size := by omega
  have hnode : node.Contiguous := of_decide_eq_true hnode
  obtain ⟨next, extended, hattach, -, -, -, -, -, hleast, hkept, -⟩ :=
    attach?_counts_slots hbuild hparent hchild "." 0
  have hcount : node.slots.length = 2 := by rw [hslots]; rfl
  have hfirst : node.child? 1 = some 1 := by rw [Node.child?, hslots]; rfl
  rw [hcount] at hattach hleast
  exact ⟨draft, node, next, hbuild, hparent, hchild, hnode, hattach, (hleast.mp hnode).2, hfirst,
    (hkept hnode).2⟩

/-- With one child twice at the first index, the next one leaves out an index. With one child at the
    second index, the next one meets it there. -/
theorem exists_attach?_gap_and_conflict :
    (∃ draft next : Draft,
      build? [.push .dot ⟨0, 1⟩, .push .dot ⟨0, 1⟩, .push .dot ⟨0, 1⟩, .attachAt 0 0 1,
        .attachAt 0 0 1] = some draft ∧
      (draft.finish "." 0).defects = [] ∧
      draft.attach? 0 2 = some (next, 2) ∧
      (draft.nodes[0]?).map Node.slots = some [⟨0, 1⟩, ⟨0, 1⟩] ∧
      (next.finish "." 0).defects = [.nonConsecutive 0 2]) ∧
    ∃ draft next : Draft,
      build? [.push .dot ⟨0, 1⟩, .push .dot ⟨0, 1⟩, .push .dot ⟨0, 1⟩, .attachAt 0 1 1] =
        some draft ∧
      (draft.finish "." 0).nonUniqueChildren = [] ∧
      draft.attach? 0 2 = some (next, 1) ∧
      (draft.nodes[0]?).map Node.slots = some [⟨1, 1⟩] ∧
      (next.finish "." 0).nonUniqueChildren = [.nonUniqueChild 0 1 2] := by
  constructor
  · have hdecided : ((build? [.push .dot ⟨0, 1⟩, .push .dot ⟨0, 1⟩, .push .dot ⟨0, 1⟩,
        .attachAt 0 0 1, .attachAt 0 0 1]).bind fun draft => (draft.attach? 0 2).map fun result =>
          ((draft.finish "." 0).defects, result.2,
            (draft.nodes[0]?).map Node.slots,
            (result.1.finish "." 0).defects)) =
        some ([], 2, some [⟨0, 1⟩, ⟨0, 1⟩], [.nonConsecutive 0 2]) := by decide +kernel
    obtain ⟨draft, hbuild, hvalues⟩ := Option.bind_eq_some_iff.mp hdecided
    obtain ⟨⟨next, index⟩, hattach, hvalues⟩ := Option.map_eq_some_iff.mp hvalues
    obtain ⟨hdefects, hvalues⟩ := Prod.mk.inj hvalues
    obtain ⟨rfl, hvalues⟩ := Prod.mk.inj hvalues
    exact ⟨draft, next, hbuild, hdefects, hattach, Prod.mk.inj hvalues⟩
  · have hdecided : ((build? [.push .dot ⟨0, 1⟩, .push .dot ⟨0, 1⟩, .push .dot ⟨0, 1⟩,
        .attachAt 0 1 1]).bind fun draft => (draft.attach? 0 2).map fun result =>
          ((draft.finish "." 0).nonUniqueChildren, result.2,
            (draft.nodes[0]?).map Node.slots,
            (result.1.finish "." 0).nonUniqueChildren)) =
        some ([], 1, some [⟨1, 1⟩], [.nonUniqueChild 0 1 2]) := by decide +kernel
    obtain ⟨draft, hbuild, hvalues⟩ := Option.bind_eq_some_iff.mp hdecided
    obtain ⟨⟨next, index⟩, hattach, hvalues⟩ := Option.map_eq_some_iff.mp hvalues
    obtain ⟨hdefects, hvalues⟩ := Prod.mk.inj hvalues
    obtain ⟨rfl, hvalues⟩ := Prod.mk.inj hvalues
    exact ⟨draft, next, hbuild, hdefects, hattach, Prod.mk.inj hvalues⟩

end Draft

end PatternTree
