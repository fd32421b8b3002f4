import Mathlib.Logic.Relation
import PatternTree.Pattern.Defect
import PatternTree.Proofs.Draft.Edits
import PatternTree.Proofs.Walk

namespace PatternTree

namespace Pattern

/-- A way of one or more edges leads from a node to another one. -/
def LeadsTo (pattern : Pattern) : Nat → Nat → Prop :=
  Relation.TransGen fun parent child => child ∈ pattern.childrenOf parent

/-- Looks for a node among the pending ones and those below them, the latest pending one first. The
    search breaks on a number that no node has. Each step takes one node away from those that are
    pending or hang below unmarked ones, so the search ends. -/
def search? (pattern : Pattern) (start : Nat) (seen : Array Bool) : List Nat → Option Bool
  | [] => some false
  | id :: pending =>
    if id = start then some true
    else
      match _ : seen[id]? with
      | none => none
      | some true => pattern.search? start seen pending
      | some false =>
        pattern.search? start (seen.setIfInBounds id true)
          ((pattern.childrenOf id).reverse ++ pending)
termination_by pending => pattern.openSlots seen seen.size + pending.length
decreasing_by
  · simp
  · have := pattern.openSlots_mark ‹seen[id]? = some false›
      (Array.getElem?_eq_some_iff.1 ‹seen[id]? = some false›).1
    simp only [Array.size_setIfInBounds, List.length_append, List.length_reverse, List.length_cons]
    omega

/-- Looks for a node below itself. -/
def reachesItself? (pattern : Pattern) (start : Nat) : Option Bool :=
  pattern.search? start (Array.replicate pattern.nodes.size false)
    (pattern.childrenOf start).reverse

variable {pattern : Pattern} {start id : Nat} {seen : Array Bool} {pending : List Nat}

/-- A way leads to each node that holds of the children of its start and that children inherit. -/
theorem LeadsTo.closed (Reached : Nat → Prop)
    (hstart : ∀ child ∈ pattern.childrenOf start, Reached child)
    (hchildren : ∀ id, Reached id → ∀ child ∈ pattern.childrenOf id, Reached child)
    (hway : pattern.LeadsTo start id) : Reached id := by
  induction hway with
  | single hchild => exact hstart _ hchild
  | tail _ hchild ih => exact hchildren _ ih _ hchild

/-- A node is found to be its own descendant exactly where a way leads from it back to it. -/
theorem isCyclic_iff : pattern.isCyclic id ↔ pattern.LeadsTo id id := by
  rw [isCyclic, List.any_eq_true]
  constructor
  · rintro ⟨visit, hvisit, hid⟩
    rw [beq_iff_eq] at hid
    rw [← hid]
    refine hid ▸ reached_of_mem_visits (pattern.LeadsTo id) ?_ ?_ 0 visit hvisit
    · exact fun other hother child hchild => .tail hother hchild
    · exact fun child hchild => .single hchild
  · intro hway
    have hvisit : ∃ visit ∈ pattern.visits 0 (pattern.childrenOf id), visit.node = id := by
      refine hway.closed
        (fun other => ∃ visit ∈ pattern.visits 0 (pattern.childrenOf id), visit.node = other) ?_ ?_
      · exact fun child hchild => exists_visit_of_mem_pending (List.mem_map_of_mem hchild)
      · rintro _ ⟨visit, hvisit, rfl⟩ child hchild
        exact exists_visit_of_mem_visits hvisit hchild
    obtain ⟨visit, hvisit, hid⟩ := hvisit
    exact ⟨visit, hvisit, beq_iff_eq.mpr hid⟩

/-- Ways lead from nodes that exist. -/
theorem LeadsTo.lt_size (hway : pattern.LeadsTo start id) : start < pattern.nodes.size := by
  obtain ⟨child, hchild, -⟩ := Relation.TransGen.head'_iff.mp hway
  exact lt_of_mem_childrenOf hchild

/-- Only nodes that exist are their own descendants. -/
theorem mem_filter_isCyclic_iff (pattern : Pattern) {id : Nat} :
    id ∈ (List.range pattern.nodes.size).filter pattern.isCyclic ↔ pattern.LeadsTo id id := by
  rw [List.mem_filter, List.mem_range, isCyclic_iff, and_iff_right_iff_imp]
  exact LeadsTo.lt_size

/-- The nodes that are reported as their own descendants are those from which a way leads back. -/
theorem cyclic_mem_iff : .cyclic id ∈ pattern.cyclicNodes ↔ pattern.LeadsTo id id := by
  rw [cyclicNodes, List.mem_map, ← mem_filter_isCyclic_iff]
  constructor
  · rintro ⟨other, hother, hid⟩
    exact Defect.cyclic.inj hid ▸ hother
  · exact fun hid => ⟨id, hid, rfl⟩

/-- A search among nodes that exist does not break when the children of nodes exist. -/
theorem search?_isSome (hchildren : ∀ id, ∀ child ∈ pattern.childrenOf id, child < seen.size)
    (hpending : ∀ id ∈ pending, id < seen.size) :
    (pattern.search? start seen pending).isSome := by
  fun_induction search? pattern start seen pending with
  | case1 => rfl
  | case2 => rfl
  | case3 seen id pending hne hseen =>
    have hlt := hpending id List.mem_cons_self
    rw [Array.getElem?_eq_getElem hlt] at hseen
    cases hseen
  | case4 seen id pending hne hseen ih =>
    exact ih hchildren fun other hother => hpending other (List.mem_cons_of_mem _ hother)
  | case5 seen id pending hne hseen ih =>
    apply ih
    · simpa using hchildren
    · intro other hother
      rw [Array.size_setIfInBounds]
      obtain hother | hother := List.mem_append.mp hother
      · exact hchildren id other (List.mem_reverse.mp hother)
      · exact hpending other (List.mem_cons_of_mem _ hother)

/-- A search finds a node only where it is pending or where ways lead from there. -/
theorem reached_of_search? (Reached : Nat → Prop)
    (hchildren : ∀ id, Reached id → ∀ child ∈ pattern.childrenOf id, Reached child)
    (hpending : ∀ id ∈ pending, Reached id)
    (hfound : pattern.search? start seen pending = some true) : Reached start := by
  fun_induction search? pattern start seen pending with
  | case1 => cases hfound
  | case2 => exact hpending _ List.mem_cons_self
  | case3 => cases hfound
  | case4 seen id pending hne hseen ih =>
    exact ih (fun other hother => hpending other (List.mem_cons_of_mem _ hother)) hfound
  | case5 seen id pending hne hseen ih =>
    refine ih ?_ hfound
    intro other hother
    obtain hother | hother := List.mem_append.mp hother
    · exact hchildren id (hpending id List.mem_cons_self) other (List.mem_reverse.mp hother)
    · exact hpending other (List.mem_cons_of_mem _ hother)

/-- Where a search ends without finding a node, the pending nodes and all below them that were not
    marked are others. -/
theorem exists_closed_of_search? (hfound : pattern.search? start seen pending = some false) :
    ∃ Passed : Nat → Prop, (∀ id ∈ pending, Passed id) ∧
      ∀ id, Passed id → seen[id]? = some true ∨
        id ≠ start ∧ ∀ child ∈ pattern.childrenOf id, Passed child := by
  fun_induction search? pattern start seen pending with
  | case1 seen => exact ⟨fun id => seen[id]? = some true, by simp, fun id hid => .inl hid⟩
  | case2 => cases hfound
  | case3 => cases hfound
  | case4 seen id pending hne hseen ih =>
    obtain ⟨Passed, hpending, hpassed⟩ := ih hfound
    refine ⟨fun other => other = id ∨ Passed other, ?_, ?_⟩
    · intro other hother
      exact (List.mem_cons.mp hother).imp_right (hpending other)
    · rintro other (rfl | hother)
      · exact .inl hseen
      · exact (hpassed other hother).imp_right fun hchildren =>
          ⟨hchildren.1, fun child hchild => .inr (hchildren.2 child hchild)⟩
  | case5 seen id pending hne hseen ih =>
    obtain ⟨Passed, hpending, hpassed⟩ := ih hfound
    have hid : id ≠ start ∧ ∀ child ∈ pattern.childrenOf id, child = id ∨ Passed child :=
      ⟨hne, fun child hchild =>
        .inr (hpending child (List.mem_append_left _ (List.mem_reverse.mpr hchild)))⟩
    refine ⟨fun other => other = id ∨ Passed other, ?_, ?_⟩
    · intro other hother
      exact (List.mem_cons.mp hother).imp_right fun hother =>
        hpending other (List.mem_append_right _ hother)
    · rintro other (rfl | hother)
      · exact .inr hid
      · obtain hmarked | hchildren := hpassed other hother
        · by_cases hsame : id = other
          · exact .inr (hsame ▸ hid)
          · rw [Array.getElem?_setIfInBounds_ne hsame] at hmarked
            exact .inl hmarked
        · exact .inr ⟨hchildren.1, fun child hchild => .inr (hchildren.2 child hchild)⟩

/-- Where the children of all nodes exist, the search below a node ends without breaking and finds
    the node exactly when it is its own descendant. -/
theorem reachesItself?_eq
    (hchildren : ∀ id, ∀ child ∈ pattern.childrenOf id, child < pattern.nodes.size) (id : Nat) :
    pattern.reachesItself? id = some (pattern.isCyclic id) := by
  have hsome : (pattern.reachesItself? id).isSome :=
    search?_isSome (by simpa using hchildren)
      fun child hchild => by simpa using hchildren id child (List.mem_reverse.mp hchild)
  obtain ⟨found, hfound⟩ := Option.isSome_iff_exists.mp hsome
  rw [hfound, Option.some.injEq, Bool.eq_iff_iff, isCyclic_iff]
  cases found with
  | true =>
    refine iff_of_true rfl (reached_of_search? (pattern.LeadsTo id) ?_ ?_ hfound)
    · exact fun other hother child hchild => .tail hother hchild
    · exact fun child hchild => .single (List.mem_reverse.mp hchild)
  | false =>
    obtain ⟨Passed, hpending, hpassed⟩ := exists_closed_of_search? hfound
    have hopen : ∀ other, Passed other →
        other ≠ id ∧ ∀ child ∈ pattern.childrenOf other, Passed child := by
      intro other hother
      refine (hpassed other hother).resolve_left ?_
      rw [Array.getElem?_replicate]
      split <;> simp
    refine iff_of_false Bool.false_ne_true fun hway => ?_
    have hid := hway.closed Passed
      (fun child hchild => hpending child (List.mem_reverse.mpr hchild))
      fun other hother => (hopen other hother).2
    exact (hopen id hid).1 rfl

/-- The nodes that are their own descendants depend only on how many nodes there are and on which
    ones are joined. -/
theorem cyclicNodes_congr {other : Pattern} (hsize : other.nodes.size = pattern.nodes.size)
    (hchildren : ∀ parent child,
      child ∈ other.childrenOf parent ↔ child ∈ pattern.childrenOf parent) :
    other.cyclicNodes = pattern.cyclicNodes := by
  have hways : other.LeadsTo = pattern.LeadsTo := by
    unfold LeadsTo
    congr
    funext parent child
    exact propext (hchildren parent child)
  have hcyclic : other.isCyclic = pattern.isCyclic := by
    funext id
    rw [Bool.eq_iff_iff, isCyclic_iff, isCyclic_iff, hways]
  rw [cyclicNodes, cyclicNodes, hsize, hcyclic]

/-- Whatever a pattern is made of, the search below each of its nodes ends without breaking, and the
    nodes reported are those from which a way of one or more edges leads back to them, each once and
    by number. The report depends neither on the indices of the edges nor on the order in which they
    are attached. -/
theorem cyclicNodes_exact {edits : List Draft.Edit} {draft : Draft}
    (hbuild : Draft.build? edits = some draft) (source : String) (root : Nat) :
    (∀ id < (draft.finish source root).nodes.size,
      (draft.finish source root).reachesItself? id =
        some ((draft.finish source root).isCyclic id)) ∧
    (∃ ids : List Nat, (draft.finish source root).cyclicNodes = ids.map Defect.cyclic ∧
      ids.Pairwise (· < ·) ∧
      ∀ id, id ∈ ids ↔ (draft.finish source root).LeadsTo id id) ∧
    ∀ edits' draft' source' root', Draft.build? edits' = some draft' →
      edits'.countP Draft.Edit.isPush = edits.countP Draft.Edit.isPush →
      (∀ ends, ends ∈ edits'.filterMap Draft.Edit.ends? ↔
        ends ∈ edits.filterMap Draft.Edit.ends?) →
      (draft'.finish source' root').cyclicNodes = (draft.finish source root).cyclicNodes := by
  refine ⟨?_, ⟨_, rfl, List.pairwise_lt_range.filter _, ?_⟩, ?_⟩
  · intro id _
    exact reachesItself?_eq
      (fun _ _ hchild => (Draft.keeps_of_build?_eq_some hbuild).lt_of_mem_childrenOf hchild) id
  · intro id
    rw [List.mem_filter, List.mem_range, isCyclic_iff, and_iff_right_iff_imp]
    intro hway
    obtain ⟨child, hchild, -⟩ := Relation.TransGen.head'_iff.mp hway
    exact lt_of_mem_childrenOf hchild
  · intro edits' draft' source' root' hbuild' hpushes hends
    apply cyclicNodes_congr
    · change draft'.nodes.size = draft.nodes.size
      rw [Draft.size_nodes_of_foldlM_eq_some hbuild, Draft.size_nodes_of_foldlM_eq_some hbuild',
        hpushes]
    · intro parent child
      rw [Draft.mem_childrenOf_iff hbuild, Draft.mem_childrenOf_iff hbuild', hends]

/-- A node hangs below itself and two others below each other, none of them below the root. The
    edges may as well be attached the other way round and at other indices. -/
theorem cyclicNodes_exact_two_cycles :
    ∃ draft other, Draft.build? [.push .dot ⟨0, 1⟩, .push .dot ⟨0, 1⟩, .push .dot ⟨0, 1⟩,
        .push .dot ⟨0, 1⟩, .attach 1 2, .attachAt 2 7 1, .attach 0 0] = some draft ∧
      Draft.build? [.push .dot ⟨0, 1⟩, .push .dot ⟨0, 1⟩, .push .dot ⟨0, 1⟩, .push .dot ⟨0, 1⟩,
        .attachAt 0 3 0, .attach 2 1, .attach 1 2] = some other ∧
      (draft.finish "." 3).LeadsTo 1 1 ∧ ¬ (draft.finish "." 3).LeadsTo 3 3 ∧
      (other.finish "." 3).cyclicNodes = (draft.finish "." 3).cyclicNodes := by
  obtain ⟨draft, hbuild⟩ := Option.isSome_iff_exists.mp
    (by decide : (Draft.build? [.push .dot ⟨0, 1⟩, .push .dot ⟨0, 1⟩, .push .dot ⟨0, 1⟩,
      .push .dot ⟨0, 1⟩, .attach 1 2, .attachAt 2 7 1, .attach 0 0]).isSome)
  obtain ⟨other, hbuild'⟩ := Option.isSome_iff_exists.mp
    (by decide : (Draft.build? [.push .dot ⟨0, 1⟩, .push .dot ⟨0, 1⟩, .push .dot ⟨0, 1⟩,
      .push .dot ⟨0, 1⟩, .attachAt 0 3 0, .attach 2 1, .attach 1 2]).isSome)
  have hcyclic : ((Draft.build? [.push .dot ⟨0, 1⟩, .push .dot ⟨0, 1⟩, .push .dot ⟨0, 1⟩,
      .push .dot ⟨0, 1⟩, .attach 1 2, .attachAt 2 7 1, .attach 0 0]).map fun draft =>
        (draft.finish "." 3).cyclicNodes) = some ([0, 1, 2].map .cyclic) := by decide +kernel
  rw [hbuild, Option.map_some, Option.some.injEq] at hcyclic
  obtain ⟨-, ⟨ids, hids, -, hways⟩, hother⟩ := cyclicNodes_exact hbuild "." 3
  have hlist : ids = [0, 1, 2] :=
    (List.map_inj_right fun _ _ hsame => Defect.cyclic.inj hsame).mp (hids.symm.trans hcyclic)
  refine ⟨draft, other, hbuild, hbuild', (hways 1).mp ?_, fun hway => ?_,
    hother _ _ "." 3 hbuild' rfl fun ends => ?_⟩
  · rw [hlist]
    decide
  · have hmem := (hways 3).mpr hway
    rw [hlist] at hmem
    revert hmem
    decide
  · exact (by decide : List.Perm [(0, 0), (2, 1), (1, 2)] [(1, 2), (2, 1), (0, 0)]).mem_iff

end Pattern

end PatternTree
