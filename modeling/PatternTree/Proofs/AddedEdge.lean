import Mathlib.Data.List.Sort
import PatternTree.Proofs.Cycles
import PatternTree.Proofs.Indices

namespace PatternTree

namespace Edge

variable {edges : List Edge} {edge : Edge} {parent index child : Nat}

theorem childrenAt_append_singleton (edges : List Edge) (edge : Edge) (parent index : Nat) :
    childrenAt (edges ++ [edge]) parent index = childrenAt edges parent index ++
      if edge.parent = parent ∧ edge.index = index then [edge.child] else [] := by
  by_cases hplace : edge.parent = parent ∧ edge.index = index <;> simp [childrenAt, hplace]

/-- One more edge leaves children that conflict alone, and its own child conflicts where those
    before it do not but one of them is another child. -/
theorem conflicts_append_singleton_iff :
    Conflicts (edges ++ [edge]) parent index child ↔
      Conflicts edges parent index child ∨
        (parent = edge.parent ∧ index = edge.index ∧ child = edge.child) ∧
          (∃ other ∈ childrenAt edges edge.parent edge.index, other ≠ edge.child) ∧
          ∀ other, ¬ Conflicts edges edge.parent edge.index other := by
  by_cases hplace : edge.parent = parent ∧ edge.index = index
  · obtain ⟨rfl, rfl⟩ := hplace
    simp only [Conflicts, childrenAt_append_singleton, and_self, if_true,
      ← Node.head?_bind_find?_eq_some_iff, true_and]
    cases childrenAt edges edge.parent edge.index with
    | nil => simp
    | cons first others =>
      cases hfind : others.find? (· != first) with
      | some found => simp [hfind]
      | none =>
        have hsame : ∀ other ∈ others, other = first := by
          simpa using List.find?_eq_none.mp hfind
        have hexists : (∃ other ∈ first :: others, other ≠ edge.child) ↔ edge.child ≠ first := by
          constructor
          · rintro ⟨other, hother, hne⟩ rfl
            obtain rfl | hother := List.mem_cons.mp hother
            · exact hne rfl
            · exact hne (hsame other hother)
          · exact fun hne => ⟨first, List.mem_cons_self, Ne.symm hne⟩
        simp only [List.cons_append, List.head?_cons, Option.bind_some, List.find?_cons,
          bne_self_eq_false, List.find?_append, hfind, Option.none_or, hexists]
        by_cases heq : edge.child = first
        · simp [heq]
        · simp [heq, bne_iff_ne.mpr heq, eq_comm]
  · rw [Conflicts, childrenAt_append_singleton, if_neg hplace, List.append_nil, ← Conflicts,
      or_iff_left]
    rintro ⟨⟨rfl, rfl, -⟩, -⟩
    exact hplace ⟨rfl, rfl⟩

/-- Where no children conflict, one more edge makes its own child conflict and no other. -/
theorem conflicts_append_iff
    (hunique : ∀ parent index child, ¬ Conflicts edges parent index child) :
    Conflicts (edges ++ [edge]) parent index child ↔
      (parent = edge.parent ∧ index = edge.index ∧ child = edge.child) ∧
        ∃ other ∈ childrenAt edges edge.parent edge.index, other ≠ edge.child := by
  rw [conflicts_append_singleton_iff, or_iff_right (hunique _ _ _),
    and_iff_left (hunique edge.parent edge.index)]

/-- One more edge fills the gap before the index behind its own, and its own index may follow
    another gap. -/
theorem followsGap_append_singleton_iff :
    FollowsGap (edges ++ [edge]) parent index ↔
      FollowsGap edges parent index ∧ ¬ (parent = edge.parent ∧ index = edge.index + 1) ∨
        (parent = edge.parent ∧ index = edge.index) ∧ edge.index ≠ 0 ∧
          childrenAt edges edge.parent (edge.index - 1) = [] := by
  constructor
  · rintro ⟨hzero, hindex, hbefore⟩
    rw [childrenAt_append_singleton] at hindex hbefore
    obtain ⟨hbefore, hnone⟩ := List.append_eq_nil_iff.mp hbefore
    by_cases hplace : edge.parent = parent ∧ edge.index = index
    · obtain ⟨rfl, rfl⟩ := hplace
      exact .inr ⟨⟨rfl, rfl⟩, hzero, hbefore⟩
    · rw [if_neg hplace, List.append_nil] at hindex
      refine .inl ⟨⟨hzero, hindex, hbefore⟩, ?_⟩
      rintro ⟨rfl, rfl⟩
      rw [if_pos ⟨rfl, (Nat.add_sub_cancel _ 1).symm⟩] at hnone
      cases hnone
  · rintro (⟨⟨hzero, hindex, hbefore⟩, hother⟩ | ⟨⟨rfl, rfl⟩, hzero, hbefore⟩)
    · have hplace : ¬ (edge.parent = parent ∧ edge.index = index - 1) := by
        rintro ⟨rfl, heq⟩
        exact hother ⟨rfl, by omega⟩
      rw [FollowsGap, childrenAt_append_singleton, childrenAt_append_singleton, if_neg hplace,
        List.append_nil]
      exact ⟨hzero, List.append_ne_nil_of_left_ne_nil hindex _, hbefore⟩
    · have hother : ¬ (edge.parent = edge.parent ∧ edge.index = edge.index - 1) := by omega
      rw [FollowsGap, childrenAt_append_singleton, childrenAt_append_singleton, if_neg hother,
        List.append_nil, if_pos ⟨rfl, rfl⟩]
      exact ⟨hzero, List.append_ne_nil_of_right_ne_nil _ (List.cons_ne_nil _ _), hbefore⟩

/-- Where no index follows a gap, one more edge makes at most its own index follow one. -/
theorem followsGap_append_iff (hgaps : ∀ parent index, ¬ FollowsGap edges parent index) :
    FollowsGap (edges ++ [edge]) parent index ↔
      (parent = edge.parent ∧ index = edge.index) ∧ edge.index ≠ 0 ∧
        childrenAt edges edge.parent (edge.index - 1) = [] := by
  rw [followsGap_append_singleton_iff, or_iff_right fun hgap => hgaps _ _ hgap.1]

end Edge

namespace Pattern

variable {pattern other : Pattern} {parent child id target : Nat}

/-- The ways of a pattern that has one more edge are those that do without it and those that it
    completes. -/
theorem leadsTo_iff_of_edge
    (hchildren : ∀ id below, below ∈ other.childrenOf id ↔
      below ∈ pattern.childrenOf id ∨ id = parent ∧ below = child) :
    other.LeadsTo id target ↔
      pattern.LeadsTo id target ∨ pattern.Reaches id parent ∧ pattern.Reaches child target := by
  have hstep : ∀ {id below}, below ∈ pattern.childrenOf id → below ∈ other.childrenOf id :=
    fun hbelow => (hchildren _ _).mpr (.inl hbelow)
  have hreaches : ∀ {id target}, pattern.Reaches id target → other.Reaches id target :=
    fun hreaches => Relation.ReflTransGen.mono (fun _ _ => hstep) _ _ hreaches
  constructor
  · intro hway
    induction hway with
    | single hbelow =>
      obtain hbelow | ⟨rfl, rfl⟩ := (hchildren _ _).mp hbelow
      · exact .inl (.single hbelow)
      · exact .inr ⟨.refl, .refl⟩
    | tail _ hbelow ih =>
      obtain hbelow | ⟨rfl, rfl⟩ := (hchildren _ _).mp hbelow
      · exact ih.imp (·.tail hbelow) fun hthrough => ⟨hthrough.1, hthrough.2.tail hbelow⟩
      · exact .inr ⟨ih.elim (·.to_reflTransGen) (·.1), .refl⟩
  · rintro (hway | ⟨hbefore, hbehind⟩)
    · exact Relation.TransGen.mono (fun _ _ => hstep) _ _ hway
    · have hedge : child ∈ other.childrenOf parent := (hchildren _ _).mpr (.inr ⟨rfl, rfl⟩)
      exact .trans_left (.tail' (hreaches hbefore) hedge) (hreaches hbehind)

/-- A pattern without defects has no conflicting children, no cycles and no gaps. -/
theorem defects_eq_nil_iff :
    pattern.defects = [] ↔ pattern.nonUniqueChildren = [] ∧
      (∀ id, ¬ pattern.LeadsTo id id) ∧ pattern.nonConsecutiveIndices = [] := by
  have hcycles : pattern.cyclicNodes = [] ↔ ∀ id, ¬ pattern.LeadsTo id id := by
    rw [cyclicNodes, List.map_eq_nil_iff, List.eq_nil_iff_forall_not_mem]
    exact forall_congr' fun id => not_congr pattern.mem_filter_isCyclic_iff
  rw [defects, List.append_eq_nil_iff, List.append_eq_nil_iff, hcycles, and_assoc]

end Pattern

namespace Defect

/-- No defect stands before another one and behind it. -/
instance : Std.Asymm Before where
  asymm earlier later hbefore := by
    rintro (hlt' | ⟨heq, index, index', hindex, hindex', hlt'⟩)
    · obtain hlt | ⟨heq, -⟩ := hbefore <;> omega
    · obtain hlt | ⟨-, place, place', hplace, hplace', hlt⟩ := hbefore
      · omega
      · obtain rfl := Option.some.inj (hindex.symm.trans hplace')
        obtain rfl := Option.some.inj (hindex'.symm.trans hplace)
        omega

/-- Defects in order of which only a given one is possible. -/
theorem eq_ite_of_mem_iff {defects : List Defect} {defect : Defect} {found : Prop}
    [Decidable found] (hbefore : defects.Pairwise Before)
    (hmem : ∀ other, other ∈ defects ↔ other = defect ∧ found) :
    defects = if found then [defect] else [] := by
  refine hbefore.eq_of_mem_iff ?_ fun other => ?_
  · split
    · exact List.pairwise_singleton _ _
    · exact .nil
  · rw [hmem]
    split
    next hfound => simp [hfound]
    next hnone => simp [hnone]

namespace OfIndices

variable {edges : List Edge} {conflicts gaps : List Defect}

theorem not_conflicts (hindices : OfIndices edges conflicts gaps) (hnone : conflicts = [])
    (parent index child : Nat) : ¬ Edge.Conflicts edges parent index child := by
  rw [← hindices.nonUniqueChild_mem_iff, hnone]
  exact List.not_mem_nil

theorem not_followsGap (hindices : OfIndices edges conflicts gaps) (hnone : gaps = [])
    (parent index : Nat) : ¬ Edge.FollowsGap edges parent index := by
  rw [← hindices.nonConsecutive_mem_iff, hnone]
  exact List.not_mem_nil

end OfIndices

end Defect

namespace Draft

namespace Keeps

variable {draft next : Draft} {edges : List Edge} (hkeeps : draft.Keeps edges)
  {parent index child : Nat}

include hkeeps

theorem mem_childrenAt_iff {node : Node} (hparent : draft.nodes[parent]? = some node) :
    child ∈ Edge.childrenAt edges parent index ↔ ⟨index, child⟩ ∈ node.slots := by
  rw [← hkeeps.childrenAt_eq hparent, Node.childrenAt, List.mem_map]
  constructor
  · rintro ⟨slot, hslot, rfl⟩
    obtain ⟨hmem, hindex⟩ := List.mem_filter.mp hslot
    obtain rfl : slot.index = index := of_decide_eq_true hindex
    exact hmem
  · exact fun hslot => ⟨_, List.mem_filter.mpr ⟨hslot, decide_eq_true rfl⟩, rfl⟩

theorem exists_mem_childrenAt_iff {node : Node} (hparent : draft.nodes[parent]? = some node) :
    (∃ other ∈ Edge.childrenAt edges parent index, other ≠ child) ↔
      ∃ slot ∈ node.slots, slot.index = index ∧ slot.child ≠ child := by
  simp only [hkeeps.mem_childrenAt_iff hparent]
  constructor
  · rintro ⟨other, hother, hne⟩
    exact ⟨_, hother, rfl, hne⟩
  · rintro ⟨slot, hslot, rfl, hne⟩
    exact ⟨slot.child, hslot, hne⟩

theorem childrenAt_eq_nil_iff {node : Node} (hparent : draft.nodes[parent]? = some node) :
    Edge.childrenAt edges parent index = [] ↔ ∀ slot ∈ node.slots, slot.index ≠ index := by
  simp only [List.eq_nil_iff_forall_not_mem, hkeeps.mem_childrenAt_iff hparent]
  constructor
  · rintro hnone slot hslot rfl
    exact hnone slot.child hslot
  · exact fun hother child hslot => hother _ hslot rfl

/-- An edge makes its child one of its parent's and changes no other children. -/
theorem mem_childrenOf_attachAt_iff (hattach : draft.attachAt? parent index child = some next)
    (source : String) (root id below : Nat) :
    below ∈ (next.finish source root).childrenOf id ↔
      below ∈ (draft.finish source root).childrenOf id ∨ id = parent ∧ below = child := by
  rw [(hkeeps.attachAt hattach).childrenOf_finish, hkeeps.childrenOf_finish, List.filter_append,
    List.map_append, List.mem_append]
  refine or_congr_right ?_
  by_cases hid : id = parent
  · simp [hid]
  · simp [hid, Ne.symm hid]

end Keeps

variable {draft : Draft} {parent child : Nat}

/-- Nodes that exist can be joined. -/
theorem exists_attachAt?_eq_some (hparent : parent < draft.nodes.size)
    (hchild : child < draft.nodes.size) (index : Nat) :
    ∃ next, draft.attachAt? parent index child = some next := by
  simp [attachAt?, hparent, hchild]

/-- One more change of a draft that has been built. -/
theorem build?_append_singleton {edits : List Edit} (hbuild : build? edits = some draft)
    (edit : Edit) : build? (edits ++ [edit]) = edit.change? draft := by
  rw [build?] at hbuild ⊢
  rw [List.foldlM_append, hbuild]
  simp

/-- When one more edge is attached to a draft without defects, its child may conflict with another
    one at its index, it may close cycles with the ways that lead from its child to its parent, and
    its index may follow a gap. These defects are reported and no others. -/
theorem defects_attachAt {edits : List Edit} (hbuild : build? edits = some draft) {source : String}
    {root : Nat} (hdefects : (draft.finish source root).defects = []) {node : Node}
    (hparent : draft.nodes[parent]? = some node) (hchild : child < draft.nodes.size)
    (index : Nat) :
    ∃ (next : Draft) (ids : List Nat),
      build? (edits ++ [.attachAt parent index child]) = some next ∧
      (next.finish source root).defects =
        (if ∃ slot ∈ node.slots, slot.index = index ∧ slot.child ≠ child then
          [.nonUniqueChild parent index child] else []) ++
        ids.map .cyclic ++
        (if index ≠ 0 ∧ ∀ slot ∈ node.slots, slot.index ≠ index - 1 then
          [.nonConsecutive parent index] else []) ∧
      ids.Pairwise (· < ·) ∧
      ∀ id, id ∈ ids ↔ (draft.finish source root).Reaches child id ∧
        (draft.finish source root).Reaches id parent := by
  obtain ⟨next, hattach⟩ := exists_attachAt?_eq_some
    (Array.getElem?_eq_some_iff.mp hparent).1 hchild index
  have hkeeps := keeps_of_build?_eq_some hbuild
  have hkeeps' := hkeeps.attachAt hattach
  have hindices' := hkeeps'.ofIndices source root
  obtain ⟨hunique, hacyclic, hconsecutive⟩ := Pattern.defects_eq_nil_iff.mp hdefects
  have hconflicts := (hkeeps.ofIndices source root).not_conflicts hunique
  have hgaps := (hkeeps.ofIndices source root).not_followsGap hconsecutive
  refine ⟨next, (List.range (next.finish source root).nodes.size).filter
    (next.finish source root).isCyclic,
    (build?_append_singleton hbuild _).trans hattach, ?_, List.pairwise_lt_range.filter _, ?_⟩
  · rw [Pattern.defects]
    congr 1
    · congr 1
      refine Defect.eq_ite_of_mem_iff hindices'.conflicts_before fun defect => ?_
      rw [hindices'.mem_conflicts_iff, ← hkeeps.exists_mem_childrenAt_iff hparent]
      constructor
      · rintro ⟨_, _, _, rfl, hconflict⟩
        obtain ⟨⟨rfl, rfl, rfl⟩, hother⟩ := (Edge.conflicts_append_iff hconflicts).mp hconflict
        exact ⟨rfl, hother⟩
      · rintro ⟨rfl, hother⟩
        exact ⟨_, _, _, rfl, (Edge.conflicts_append_iff hconflicts).mpr ⟨⟨rfl, rfl, rfl⟩, hother⟩⟩
    · refine Defect.eq_ite_of_mem_iff hindices'.gaps_before fun defect => ?_
      rw [hindices'.mem_gaps_iff, ← hkeeps.childrenAt_eq_nil_iff hparent]
      constructor
      · rintro ⟨_, _, rfl, hgap⟩
        obtain ⟨⟨rfl, rfl⟩, hgap⟩ := (Edge.followsGap_append_iff hgaps).mp hgap
        exact ⟨rfl, hgap⟩
      · rintro ⟨rfl, hgap⟩
        exact ⟨_, _, rfl, (Edge.followsGap_append_iff hgaps).mpr ⟨⟨rfl, rfl⟩, hgap⟩⟩
  · intro id
    have hways : (next.finish source root).LeadsTo id id ↔
        (draft.finish source root).LeadsTo id id ∨
          (draft.finish source root).Reaches id parent ∧
            (draft.finish source root).Reaches child id :=
      Pattern.leadsTo_iff_of_edge (hkeeps.mem_childrenOf_attachAt_iff hattach source root)
    rw [(next.finish source root).mem_filter_isCyclic_iff, hways, or_iff_right (hacyclic id),
      and_comm]

/-- Two nodes share a child. The one that gets their parent for another child at the same index
    closes a cycle through that parent, from which the other one stays apart. -/
theorem defects_attachAt_shared_child :
    ∃ (draft : Draft) (node : Node) (next : Draft) (ids : List Nat),
      build? [.push .dot ⟨0, 1⟩, .push .dot ⟨0, 1⟩, .push .dot ⟨0, 1⟩, .push .dot ⟨0, 1⟩,
        .attach 0 1, .attach 0 2, .attach 1 3, .attach 2 3] = some draft ∧
      (draft.finish "." 0).defects = [] ∧ draft.nodes[2]? = some node ∧ 0 < draft.nodes.size ∧
      build? ([.push .dot ⟨0, 1⟩, .push .dot ⟨0, 1⟩, .push .dot ⟨0, 1⟩, .push .dot ⟨0, 1⟩,
        .attach 0 1, .attach 0 2, .attach 1 3, .attach 2 3] ++ [.attachAt 2 0 0]) = some next ∧
      (next.finish "." 0).defects = [.nonUniqueChild 2 0 0] ++ ids.map .cyclic ∧ ids = [0, 2] ∧
      (draft.finish "." 0).Reaches 0 2 ∧
      ¬ ((draft.finish "." 0).Reaches 0 1 ∧ (draft.finish "." 0).Reaches 1 2) := by
  have hdecided : ((build? [.push .dot ⟨0, 1⟩, .push .dot ⟨0, 1⟩, .push .dot ⟨0, 1⟩,
      .push .dot ⟨0, 1⟩, .attach 0 1, .attach 0 2, .attach 1 3, .attach 2 3]).map fun draft =>
        ((draft.finish "." 0).defects, draft.nodes[2]?.map Node.slots, draft.nodes.size)) =
      some ([], some [⟨0, 3⟩], 4) := by decide +kernel
  obtain ⟨draft, hbuild, hvalues⟩ := Option.map_eq_some_iff.mp hdecided
  obtain ⟨hdefects, hvalues⟩ := Prod.mk.inj hvalues
  obtain ⟨hnode, hsize⟩ := Prod.mk.inj hvalues
  obtain ⟨node, hnode, hslots⟩ := Option.map_eq_some_iff.mp hnode
  have hchild : 0 < draft.nodes.size := by omega
  obtain ⟨next, ids, hnext, hreport, -, hmem⟩ :=
    defects_attachAt hbuild hdefects hnode hchild 0
  rw [if_pos ⟨⟨0, 3⟩, by simp [hslots]⟩, if_neg fun hgap => hgap.1 rfl, List.append_nil] at hreport
  have hcyclic : (build? ([.push .dot ⟨0, 1⟩, .push .dot ⟨0, 1⟩, .push .dot ⟨0, 1⟩,
      .push .dot ⟨0, 1⟩, .attach 0 1, .attach 0 2, .attach 1 3, .attach 2 3] ++
        [.attachAt 2 0 0])).map (fun next => (next.finish "." 0).defects) =
      some ([.nonUniqueChild 2 0 0] ++ [0, 2].map .cyclic) := by decide +kernel
  rw [hnext, Option.map_some, Option.some.injEq, hreport] at hcyclic
  have hids : ids = [0, 2] := (List.map_inj_right fun _ _ hsame => Defect.cyclic.inj hsame).mp
    (List.append_cancel_left hcyclic)
  refine ⟨draft, node, next, ids, hbuild, hdefects, hnode, hchild, hnext, hreport, hids,
    ((hmem 0).mp (by simp [hids])).2, fun hways => ?_⟩
  have hother := (hmem 1).mpr hways
  simp [hids] at hother

end Draft

end PatternTree
