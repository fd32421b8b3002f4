import PatternTree.Proofs.Indices

namespace PatternTree

namespace Edge

/-- The latest of the edges that lead to a child, as the child knows it. -/
def latest? (edges : List Edge) (child : Nat) : Option Attachment :=
  (edges.reverse.find? (·.child = child)).map fun edge => ⟨edge.parent, edge.index⟩

theorem latest?_append_singleton (edges : List Edge) (edge : Edge) (child : Nat) :
    latest? (edges ++ [edge]) child =
      if edge.child = child then some ⟨edge.parent, edge.index⟩ else latest? edges child := by
  by_cases hchild : edge.child = child <;> simp [latest?, hchild]

variable {edges : List Edge} {child : Nat}

/-- An edge is the latest one to a child when the later ones lead to others. -/
theorem latest?_eq_some_iff {parent index : Nat} :
    latest? edges child = some ⟨parent, index⟩ ↔
      ∃ before after, edges = before ++ ⟨parent, index, child⟩ :: after ∧
        ∀ edge ∈ after, edge.child ≠ child := by
  rw [latest?, Option.map_eq_some_iff]
  constructor
  · rintro ⟨edge, hfind, hedge⟩
    obtain ⟨hchild, after, before, hsplit, hafter⟩ := List.find?_eq_some_iff_append.mp hfind
    obtain ⟨rfl, rfl⟩ : edge.parent = parent ∧ edge.index = index := by simpa using hedge
    obtain rfl : edge.child = child := of_decide_eq_true hchild
    refine ⟨before.reverse, after.reverse, ?_, by simpa using hafter⟩
    rw [← edges.reverse_reverse, hsplit]
    simp
  · rintro ⟨before, after, rfl, hafter⟩
    refine ⟨⟨parent, index, child⟩, List.find?_eq_some_iff_append.mpr ⟨decide_eq_true rfl,
      after.reverse, before.reverse, by simp, by simpa using hafter⟩, rfl⟩

theorem latest?_eq_none_iff :
    latest? edges child = none ↔ ∀ edge ∈ edges, edge.child ≠ child := by
  simp [latest?]

theorem isSome_latest?_iff : (latest? edges child).isSome ↔ ∃ edge ∈ edges, edge.child = child := by
  simp [latest?]

end Edge

namespace Draft

/-- The nodes of a draft have exactly the given edges, and each node knows the latest one that leads
    to it. -/
structure Links (draft : Draft) (edges : List Edge) : Prop extends Keeps draft edges where
  attachment : ∀ id node, draft.nodes[id]? = some node →
    node.attachment = Edge.latest? edges id

namespace Links

variable {draft next : Draft} {edges : List Edge}

theorem empty : ({} : Draft).Links [] where
  toKeeps := keeps_empty
  attachment := by simp

/-- A change that leaves alone what nodes know of their parents keeps it. -/
theorem of_attachment_eq (hlinks : draft.Links edges) (hkeeps : next.Keeps edges)
    (hsame : ∀ id : Nat, (next.nodes[id]?).map Node.attachment =
      (draft.nodes[id]?).map Node.attachment) : next.Links edges where
  toKeeps := hkeeps
  attachment id node hnode := by
    have hid := hsame id
    rw [hnode, Option.map_some, eq_comm, Option.map_eq_some_iff] at hid
    obtain ⟨before, hbefore, hattachment⟩ := hid
    rw [← hattachment, hlinks.attachment id before hbefore]

/-- No edge leads to a node that is new. -/
theorem push (hlinks : draft.Links edges) (label : Label) (span : Span) :
    (draft.push label span).1.Links edges where
  toKeeps := hlinks.toKeeps.push label span
  attachment id node hnode := by
    rw [Draft.push, Array.getElem?_push] at hnode
    split at hnode
    next hid =>
      cases hnode
      refine (Edge.latest?_eq_none_iff.mpr fun edge hedge hchild => ?_).symm
      have hlt := hlinks.child_lt edge hedge
      omega
    · exact hlinks.attachment id node hnode

/-- A child knows the edge by which it is attached, and all other nodes what they knew before. -/
theorem attachAt (hlinks : draft.Links edges) {parent index child : Nat}
    (hattach : draft.attachAt? parent index child = some next) :
    next.Links (edges ++ [⟨parent, index, child⟩]) where
  toKeeps := hlinks.toKeeps.attachAt hattach
  attachment id node hnode := by
    rw [getElem?_of_attachAt?_eq_some hattach, Option.map_eq_some_iff] at hnode
    obtain ⟨before, hbefore, rfl⟩ := hnode
    rw [Edge.latest?_append_singleton]
    by_cases hchild : child = id
    · simp [hchild]
    · have hother : ¬ id = child := fun hid => hchild hid.symm
      simp only [hchild, hother, if_false, ← hlinks.attachment id before hbefore]
      split <;> rfl

/-- A change keeps what nodes know of the edges, its own included. -/
theorem apply (hlinks : draft.Links edges) {edit : Edit} (hedit : edit.change? draft = some next) :
    next.Links (edges ++ (edit.edge? edges).toList) := by
  have hkeeps := hlinks.toKeeps.apply hedit
  have hsame : ∀ {next : Draft}, next.Links edges →
      next.Links (edges ++ (none : Option Edge).toList) := by
    simp
  cases edit with
  | push label span =>
    cases hedit
    exact hsame (hlinks.push label span)
  | attach parent child =>
    obtain ⟨node, hnode, hattach⟩ := attach?_eq_some_iff.mp hedit
    rw [hlinks.slots parent node hnode, List.length_map, ← List.countP_eq_length_filter] at hattach
    exact hlinks.attachAt hattach
  | attachAt parent index child => exact hlinks.attachAt hedit
  | setLabel id label =>
    have hnone : (Edit.setLabel id label).edge? edges = none := rfl
    rw [hnone, Option.toList_none, List.append_nil] at hkeeps
    simp only [Edit.change?, setLabel?, Option.map_map, Option.map_eq_some_iff] at hedit
    obtain ⟨node, -, rfl⟩ := hedit
    refine hsame (hlinks.of_attachment_eq hkeeps fun other => ?_)
    simp only [Function.comp_apply, Array.getElem?_modify]
    split <;> simp [Function.comp_def]
  | declareGroup number node name =>
    cases hedit
    exact hsame (hlinks.of_attachment_eq (hlinks.toKeeps.of_slots_eq rfl fun _ => rfl) fun _ => rfl)
  | diagnose diagnostic =>
    cases hedit
    exact hsame (hlinks.of_attachment_eq (hlinks.toKeeps.of_slots_eq rfl fun _ => rfl) fun _ => rfl)

theorem foldlM {edits : List Edit} {start : Draft} (hlinks : start.Links edges)
    (hfold : edits.foldlM Edit.change? start = some draft) :
    draft.Links (Edit.attached edges edits) := by
  induction edits generalizing start edges with
  | nil =>
    cases hfold
    exact hlinks
  | cons edit edits ih =>
    obtain ⟨next, hedit, hfold⟩ := Option.bind_eq_some_iff.mp hfold
    exact ih (hlinks.apply hedit) hfold

end Links

theorem links_of_build?_eq_some {edits : List Edit} {draft : Draft}
    (hbuild : build? edits = some draft) : draft.Links (Edit.attached [] edits) :=
  Links.empty.foldlM hbuild

namespace Keeps

variable {draft : Draft} {edges : List Edge} (hkeeps : draft.Keeps edges)

include hkeeps

/-- The slots of the nodes are the edges. -/
theorem exists_mem_slots_iff {parent index child : Nat} :
    (∃ node : Node, draft.nodes[parent]? = some node ∧ ⟨index, child⟩ ∈ node.slots) ↔
      ⟨parent, index, child⟩ ∈ edges := by
  constructor
  · rintro ⟨node, hnode, hslot⟩
    rw [hkeeps.slots parent node hnode] at hslot
    obtain ⟨edge, hedge, heq⟩ := List.mem_map.mp hslot
    obtain ⟨hmem, hparent⟩ := List.mem_filter.mp hedge
    obtain ⟨rfl, rfl⟩ : edge.index = index ∧ edge.child = child := by simpa [Edge.slot] using heq
    obtain rfl : edge.parent = parent := of_decide_eq_true hparent
    exact hmem
  · intro hedge
    have hnode := Array.getElem?_eq_getElem (hkeeps.parent_lt _ hedge)
    refine ⟨_, hnode, ?_⟩
    rw [hkeeps.slots parent _ hnode]
    exact List.mem_map.mpr ⟨_, List.mem_filter.mpr ⟨hedge, decide_eq_true rfl⟩, rfl⟩

/-- Where no children conflict, the child at an index is the one that any edge leads to from
    there. -/
theorem child?_eq_some (hunique : ∀ parent index child, ¬ Edge.Conflicts edges parent index child)
    {parent index child : Nat} (hedge : ⟨parent, index, child⟩ ∈ edges) {node : Node}
    (hnode : draft.nodes[parent]? = some node) : node.child? index = some child := by
  have hchild : child ∈ Edge.childrenAt edges parent index :=
    List.mem_map.mpr ⟨_, List.mem_filter.mpr ⟨hedge, decide_eq_true ⟨rfl, rfl⟩⟩, rfl⟩
  obtain ⟨first, others, hchildren⟩ :=
    List.exists_cons_of_ne_nil (List.ne_nil_of_mem hchild)
  have hfirst : first = child := by
    by_contra hne
    obtain ⟨found, hfound⟩ := Edge.exists_conflicts_iff.mpr
      ⟨first, hchildren ▸ List.mem_cons_self, child, hchild, hne⟩
    exact hunique parent index found hfound
  rw [Node.child?_eq, hkeeps.childrenAt_eq hnode, hchildren, List.head?_cons, hfirst]

end Keeps

/-- Whatever a draft is made of, slots lead to nodes that exist, and a node knows of a parent
    exactly when some slot leads to it. Of several slots it knows the one that was attached last.
    Where no children conflict, it is found by looking for a child where it hangs. -/
theorem build?_links {edits : List Edit} {draft : Draft} (hbuild : build? edits = some draft) :
    (∀ (id : Nat) (node : Node), draft.nodes[id]? = some node → ∀ slot ∈ node.slots,
      slot.child < draft.nodes.size) ∧
    (∀ (id : Nat) (node : Node), draft.nodes[id]? = some node →
      (node.attachment.isSome ↔
        ∃ (parent : Nat) (other : Node), draft.nodes[parent]? = some other ∧
          ∃ slot ∈ other.slots, slot.child = id) ∧
      ∀ parent index, node.attachment = some ⟨parent, index⟩ →
        (∃ other : Node, draft.nodes[parent]? = some other ∧ ⟨index, id⟩ ∈ other.slots) ∧
        ∃ before after, Edit.attached [] edits = before ++ ⟨parent, index, id⟩ :: after ∧
          ∀ edge ∈ after, edge.child ≠ id) ∧
    ∀ source root, (draft.finish source root).nonUniqueChildren = [] →
      ∀ id node parent index, (draft.finish source root).node? id = some node →
        node.attachment = some ⟨parent, index⟩ →
        ((draft.finish source root).node? parent).bind (Node.child? index) = some id := by
  have hlinks := links_of_build?_eq_some hbuild
  have hlast : ∀ {id : Nat} {node : Node} {parent index}, draft.nodes[id]? = some node →
      node.attachment = some ⟨parent, index⟩ →
      ∃ before after, Edit.attached [] edits = before ++ ⟨parent, index, id⟩ :: after ∧
        ∀ edge ∈ after, edge.child ≠ id := by
    intro id node parent index hnode hattachment
    rw [hlinks.attachment id node hnode] at hattachment
    exact Edge.latest?_eq_some_iff.mp hattachment
  have hmem : ∀ {id : Nat} {node : Node} {parent index}, draft.nodes[id]? = some node →
      node.attachment = some ⟨parent, index⟩ → ⟨parent, index, id⟩ ∈ Edit.attached [] edits := by
    intro id node parent index hnode hattachment
    obtain ⟨before, after, hsplit, -⟩ := hlast hnode hattachment
    rw [hsplit]
    exact List.mem_append_right before List.mem_cons_self
  refine ⟨?_, ?_, ?_⟩
  · intro id node hnode slot hslot
    exact hlinks.child_lt _ (hlinks.exists_mem_slots_iff.mp ⟨node, hnode, hslot⟩)
  · intro id node hnode
    refine ⟨?_, fun parent index hattachment =>
      ⟨hlinks.exists_mem_slots_iff.mpr (hmem hnode hattachment), hlast hnode hattachment⟩⟩
    rw [hlinks.attachment id node hnode, Edge.isSome_latest?_iff]
    constructor
    · rintro ⟨edge, hedge, rfl⟩
      obtain ⟨other, hother, hslot⟩ := hlinks.exists_mem_slots_iff.mpr hedge
      exact ⟨edge.parent, other, hother, _, hslot, rfl⟩
    · rintro ⟨parent, other, hother, slot, hslot, rfl⟩
      exact ⟨_, hlinks.exists_mem_slots_iff.mp ⟨other, hother, hslot⟩, rfl⟩
  · intro source root hunique id node parent index hnode hattachment
    have hconflicts : ∀ parent index child,
        ¬ Edge.Conflicts (Edit.attached [] edits) parent index child := by
      intro parent index child hconflict
      have hdefect := (hlinks.ofIndices source root).nonUniqueChild_mem_iff.mpr hconflict
      rw [hunique] at hdefect
      cases hdefect
    obtain ⟨other, hother, -⟩ := hlinks.exists_mem_slots_iff.mpr (hmem hnode hattachment)
    have hfound : (draft.finish source root).node? parent = some other := hother
    rw [hfound, Option.bind_some]
    exact hlinks.child?_eq_some hconflicts (hmem hnode hattachment) hother

/-- A node hangs below itself, is attached elsewhere and then below itself again, at another index
    and behind a gap. -/
theorem build?_links_reattached :
    ∃ (draft : Draft) (node : Node),
      build? [.push .dot ⟨0, 1⟩, .push .dot ⟨0, 1⟩, .attachAt 0 2 0, .attach 1 0,
        .setLabel 0 .concatenation, .attachAt 0 5 0] = some draft ∧
      draft.nodes[0]? = some node ∧ node.attachment = some ⟨0, 5⟩ ∧
      (draft.finish "." 1).nonUniqueChildren = [] ∧
      ((draft.finish "." 1).node? 0).bind (Node.child? 5) = some 0 := by
  obtain ⟨draft, hbuild⟩ := Option.isSome_iff_exists.mp
    (by decide : (build? [.push .dot ⟨0, 1⟩, .push .dot ⟨0, 1⟩, .attachAt 0 2 0, .attach 1 0,
      .setLabel 0 .concatenation, .attachAt 0 5 0]).isSome)
  have hvalues : ((build? [.push .dot ⟨0, 1⟩, .push .dot ⟨0, 1⟩, .attachAt 0 2 0, .attach 1 0,
      .setLabel 0 .concatenation, .attachAt 0 5 0]).map fun draft =>
        (draft.nodes[0]?.map Node.attachment, (draft.finish "." 1).nonUniqueChildren)) =
      some (some (some ⟨0, 5⟩), []) := by decide
  rw [hbuild, Option.map_some, Option.some.injEq, Prod.mk.injEq] at hvalues
  obtain ⟨hattachment, hunique⟩ := hvalues
  obtain ⟨node, hnode, hattachment⟩ := Option.map_eq_some_iff.mp hattachment
  obtain ⟨-, -, hchild⟩ := build?_links hbuild
  exact ⟨draft, node, hbuild, hnode, hattachment, hunique,
    hchild "." 1 hunique 0 node 0 5 hnode hattachment⟩

end Draft

end PatternTree
