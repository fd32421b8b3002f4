import Mathlib.Algebra.BigOperators.Group.Finset.Basic
import Mathlib.Data.List.Nodup
import PatternTree.Proofs.Preorder

namespace PatternTree.Pattern

namespace Visit

/-- The nodes of a walk in the order in which they appear for the first time. -/
def firsts (visits : List Visit) : List Nat :=
  (visits.filter fun visit => !visit.again).map Visit.node

@[simp]
theorem firsts_nil : firsts [] = [] :=
  rfl

@[simp]
theorem firsts_cons_first (id depth : Nat) (visits : List Visit) :
    firsts (⟨id, depth, false⟩ :: visits) = id :: firsts visits :=
  rfl

@[simp]
theorem firsts_cons_again (id depth : Nat) (visits : List Visit) :
    firsts (⟨id, depth, true⟩ :: visits) = firsts visits :=
  rfl

/-- Of the visits behind one those that are deeper, up to the next that is not. -/
def inside (visit : Visit) (after : List Visit) : List Visit :=
  after.takeWhile (visit.depth < ·.depth)

end Visit

/-- A walk through a node and all below it that looks below each node once. -/
structure Explores (pattern : Pattern) (root : Nat) (visits : List Visit) : Prop where
  /-- The walk comes to reached nodes only. -/
  reaches : ∀ visit ∈ visits, pattern.Reaches root visit.node
  /-- It comes to all of them. The first visit of a node is the one that does not say that the node
      has appeared before. -/
  first : ∀ id, pattern.Reaches root id → ∃ before depth after,
    visits = before ++ ⟨id, depth, false⟩ :: after ∧ (∀ other ∈ before, other.node ≠ id) ∧
      ∀ other ∈ after, other.node = id → other.again = true
  /-- Behind the first visit of a node and no other come its children, in the order of the slots and
      one level deeper, each with what is below it. -/
  children : ∀ before visit after, visits = before ++ visit :: after →
    if visit.again then visit.inside after = []
    else ((visit.inside after).filter (·.depth = visit.depth + 1)).map Visit.node =
      pattern.childrenOf visit.node

variable {pattern : Pattern} {seen : Array Bool} {pending : List (Nat × Nat)} {visit : Visit}

/-- A walk comes to the nodes that are pending and to the children of those that appear for the
    first time. -/
theorem perm_map_node_explore (pattern : Pattern) (seen : Array Bool)
    (pending : List (Nat × Nat)) :
    ((pattern.explore seen pending).map Visit.node).Perm
      (pending.map Prod.fst ++
        (Visit.firsts (pattern.explore seen pending)).flatMap fun id => pattern.childrenOf id) := by
  fun_induction explore pattern seen pending with
  | case1 => exact .nil
  | case2 seen id depth pending hseen ih =>
    have hchildren : (((pattern.childrenOf id).map (·, depth + 1)).map Prod.fst) =
        pattern.childrenOf id := by
      rw [List.map_map]
      exact List.map_id _
    rw [List.map_append, hchildren, List.append_assoc] at ih
    rw [Visit.firsts_cons_first, List.flatMap_cons, List.map_cons, List.map_cons, List.cons_append]
    exact .cons id (ih.trans (List.perm_append_comm_assoc _ _ _))
  | case3 seen id depth pending hseen ih =>
    rw [Visit.firsts_cons_again, List.map_cons, List.map_cons, List.cons_append]
    exact .cons id ih

/-- Once a node is marked, those that are not marked are others than before. -/
theorem getElem?_mark_eq_false_iff {id other : Nat} :
    (seen.setIfInBounds id true)[other]? = some false ↔
      other ≠ id ∧ seen[other]? = some false := by
  rw [Array.getElem?_setIfInBounds]
  split
  next heq => simp [heq]
  next hne => simp [Ne.symm hne]

/-- No node appears twice for the first time, nor one that is marked. -/
theorem nodup_firsts_explore (pattern : Pattern) (seen : Array Bool) (pending : List (Nat × Nat)) :
    (Visit.firsts (pattern.explore seen pending)).Nodup ∧
      ∀ id ∈ Visit.firsts (pattern.explore seen pending), seen[id]? = some false := by
  fun_induction explore pattern seen pending with
  | case1 => simp
  | case2 seen id depth pending hseen ih =>
    obtain ⟨hnodup, hfirsts⟩ := ih
    have hfirsts := fun other hother => getElem?_mark_eq_false_iff.mp (hfirsts other hother)
    rw [Visit.firsts_cons_first, List.nodup_cons, List.forall_mem_cons]
    exact ⟨⟨fun hid => (hfirsts id hid).1 rfl, hnodup⟩, hseen, fun other hother =>
      (hfirsts other hother).2⟩
  | case3 seen id depth pending hseen ih => exact ih

/-- A visit is the first one of its node exactly when the node is not marked and no earlier visit
    comes to it. -/
theorem again_eq_false_iff {before after : List Visit}
    (hvisits : pattern.explore seen pending = before ++ visit :: after) :
    visit.again = false ↔
      seen[visit.node]? = some false ∧ ∀ earlier ∈ before, earlier.node ≠ visit.node := by
  fun_induction explore pattern seen pending generalizing before with
  | case1 => simp at hvisits
  | case2 seen id depth pending hseen ih =>
    cases before with
    | nil =>
      obtain ⟨rfl, -⟩ := List.cons.inj hvisits
      simp [hseen]
    | cons first before =>
      obtain ⟨rfl, hrest⟩ := List.cons.inj hvisits
      rw [ih hrest, getElem?_mark_eq_false_iff, List.forall_mem_cons, and_comm (a := _ ≠ id),
        and_assoc, ne_comm (a := id)]
  | case3 seen id depth pending hseen ih =>
    cases before with
    | nil =>
      obtain ⟨rfl, -⟩ := List.cons.inj hvisits
      simp [hseen]
    | cons first before =>
      obtain ⟨rfl, hrest⟩ := List.cons.inj hvisits
      rw [ih hrest, List.forall_mem_cons]
      refine and_congr_right fun hfresh => (and_iff_right ?_).symm
      rintro rfl
      exact hseen hfresh

/-- A walk starts with the node that is pending in front. -/
theorem exists_explore_cons (pattern : Pattern) (seen : Array Bool) (id depth : Nat)
    (pending : List (Nat × Nat)) :
    ∃ again rest, pattern.explore seen ((id, depth) :: pending) = ⟨id, depth, again⟩ :: rest := by
  by_cases hseen : seen[id]? = some false
  · exact ⟨false, _, explore_fresh pattern hseen depth pending⟩
  · exact ⟨true, _, explore_again pattern hseen depth pending⟩

/-- Where what is pending in front is deeper than what is behind, the walk through the front goes up
    to the first visit that is not deeper. -/
theorem takeWhile_explore_append {depth : Nat} {front back : List (Nat × Nat)}
    (hfront : ∀ entry ∈ front, depth < entry.2) (hback : ∀ entry ∈ back, entry.2 ≤ depth) :
    (pattern.explore seen (front ++ back)).takeWhile (depth < ·.depth) =
      pattern.explore seen front := by
  fun_induction explore pattern seen front with
  | case1 seen =>
    cases back with
    | nil => rw [List.nil_append, explore_nil, List.takeWhile_nil]
    | cons entry back =>
      obtain ⟨id, place⟩ := entry
      obtain ⟨again, rest, hrest⟩ := pattern.exists_explore_cons seen id place back
      have hplace : ¬ depth < place := Nat.not_lt.mpr (hback _ List.mem_cons_self)
      rw [List.nil_append, hrest, List.takeWhile_cons_of_neg (by simpa using hplace)]
  | case2 seen id place front hseen ih =>
    have hplace : depth < place := hfront _ List.mem_cons_self
    have hinner : ∀ entry ∈ (pattern.childrenOf id).map (·, place + 1) ++ front,
        depth < entry.2 := by
      intro entry hentry
      obtain hentry | hentry := List.mem_append.mp hentry
      · obtain ⟨child, -, rfl⟩ := List.mem_map.mp hentry
        exact Nat.lt_succ_of_lt hplace
      · exact hfront entry (List.mem_cons_of_mem _ hentry)
    rw [List.cons_append, explore_fresh pattern hseen,
      List.takeWhile_cons_of_pos (by simpa using hplace), ← List.append_assoc, ih hinner]
  | case3 seen id place front hseen ih =>
    have hplace : depth < place := hfront _ List.mem_cons_self
    rw [List.cons_append, explore_again pattern hseen,
      List.takeWhile_cons_of_pos (by simpa using hplace),
      ih fun entry hentry => hfront entry (List.mem_cons_of_mem _ hentry)]

/-- Where nothing that is pending lies above a depth, the visits at this depth come to what is
    pending there. -/
theorem map_node_filter_explore {depth : Nat} (hpending : ∀ entry ∈ pending, depth ≤ entry.2) :
    ((pattern.explore seen pending).filter (·.depth = depth)).map Visit.node =
      (pending.filter (·.2 = depth)).map Prod.fst := by
  fun_induction explore pattern seen pending with
  | case1 => rfl
  | case2 seen id place pending hseen ih =>
    have hplace : depth ≤ place := hpending _ List.mem_cons_self
    have hinner : ∀ entry ∈ (pattern.childrenOf id).map (·, place + 1) ++ pending,
        depth ≤ entry.2 := by
      intro entry hentry
      obtain hentry | hentry := List.mem_append.mp hentry
      · obtain ⟨child, -, rfl⟩ := List.mem_map.mp hentry
        exact Nat.le_succ_of_le hplace
      · exact hpending entry (List.mem_cons_of_mem _ hentry)
    have hdeeper : ((pattern.childrenOf id).map (·, place + 1)).filter (·.2 = depth) = [] := by
      rw [List.filter_eq_nil_iff]
      rintro _ hentry hdepth
      obtain ⟨child, -, rfl⟩ := List.mem_map.mp hentry
      have hdepth : place + 1 = depth := of_decide_eq_true hdepth
      omega
    have ih := ih hinner
    rw [List.filter_append, hdeeper, List.nil_append] at ih
    by_cases hdepth : place = depth
    · subst hdepth
      simp [ih]
    · simp [hdepth, ih]
  | case3 seen id place pending hseen ih =>
    have ih := ih fun entry hentry => hpending entry (List.mem_cons_of_mem _ hentry)
    by_cases hdepth : place = depth <;> simp [hdepth, ih]

/-- Behind a visit the walk goes on through the node's children, unless it has come to them before,
    and then to nodes that are not deeper than the visit. -/
theorem exists_explore_of_append {before after : List Visit}
    (hsorted : pending.Pairwise fun entry later => later.2 ≤ entry.2)
    (hvisits : pattern.explore seen pending = before ++ visit :: after) :
    ∃ marked rest, (∀ entry ∈ rest, entry.2 ≤ visit.depth) ∧
      after = pattern.explore marked
        ((if visit.again then [] else (pattern.childrenOf visit.node).map (·, visit.depth + 1)) ++
          rest) := by
  fun_induction explore pattern seen pending generalizing before with
  | case1 => simp at hvisits
  | case2 seen id depth pending hseen ih =>
    obtain ⟨hdepth, hpending⟩ := List.pairwise_cons.mp hsorted
    cases before with
    | nil =>
      obtain ⟨rfl, rfl⟩ := List.cons.inj hvisits
      exact ⟨_, pending, hdepth, rfl⟩
    | cons first before =>
      refine ih ?_ (List.cons.inj hvisits).2
      refine List.pairwise_append.mpr ⟨?_, hpending, ?_⟩
      · exact List.pairwise_map.mpr (List.pairwise_of_forall fun _ _ => Nat.le_refl _)
      · intro entry hentry later hlater
        obtain ⟨child, -, rfl⟩ := List.mem_map.mp hentry
        exact Nat.le_succ_of_le (hdepth later hlater)
  | case3 seen id depth pending hseen ih =>
    obtain ⟨hdepth, hpending⟩ := List.pairwise_cons.mp hsorted
    cases before with
    | nil =>
      obtain ⟨rfl, rfl⟩ := List.cons.inj hvisits
      exact ⟨_, pending, hdepth, rfl⟩
    | cons first before => exact ih hpending (List.cons.inj hvisits).2

/-- Where no node appears twice, the walk is the whole walk in pre-order. -/
theorem preorder_eq_take_explore
    (hfirst : ∀ visit ∈ pattern.explore seen pending, visit.again = false) (limit : Nat) :
    pattern.preorder limit (pending.map Prod.fst) =
      ((pattern.explore seen pending).map Visit.node).take limit := by
  fun_induction explore pattern seen pending generalizing limit with
  | case1 => cases limit <;> rfl
  | case2 seen id depth pending hseen ih =>
    cases limit with
    | zero => rfl
    | succ limit =>
      have ih := ih (fun visit hvisit => hfirst visit (List.mem_cons_of_mem _ hvisit)) limit
      rw [List.map_append, List.map_map] at ih
      rw [List.map_cons, List.map_cons, List.take_succ_cons, preorder, ← ih]
      congr
      exact (List.map_id _).symm
  | case3 => cases hfirst _ List.mem_cons_self

section

variable {root : Nat} (hexists : ∀ id, pattern.Reaches root id → id < pattern.nodes.size)

/-- A walk comes to the nodes that the first one reaches, and to no others. -/
theorem reaches_of_mem_visits (hvisit : visit ∈ pattern.visits 0 [root]) :
    pattern.Reaches root visit.node := by
  refine reached_of_mem_visits (pattern.Reaches root) ?_ ?_ 0 visit hvisit
  · exact fun id hid child hchild => .tail hid hchild
  · exact List.forall_mem_singleton.mpr .refl

theorem exists_visit_of_reaches {id : Nat} (hid : pattern.Reaches root id) :
    ∃ visit ∈ pattern.visits 0 [root], visit.node = id := by
  induction hid with
  | refl => exact exists_visit_of_mem_pending (List.mem_singleton_self (root, 0))
  | tail _ hchild ih =>
    obtain ⟨visit, hvisit, rfl⟩ := ih
    exact exists_visit_of_mem_visits hvisit hchild

include hexists

/-- Nothing is marked before the walk. -/
theorem again_eq_false_iff_of_visits {before after : List Visit}
    (hvisits : pattern.visits 0 [root] = before ++ visit :: after) :
    visit.again = false ↔ ∀ earlier ∈ before, earlier.node ≠ visit.node := by
  have hvisit : visit ∈ pattern.visits 0 [root] :=
    hvisits ▸ List.mem_append_right before List.mem_cons_self
  have hunmarked : (Array.replicate pattern.nodes.size false)[visit.node]? = some false := by
    rw [Array.getElem?_replicate, if_pos (hexists _ (reaches_of_mem_visits hvisit))]
  rw [again_eq_false_iff hvisits, and_iff_right hunmarked]

/-- The first of the visits of a node is the only one that does not say that it is another. -/
theorem exists_first_visit {id : Nat} (hid : pattern.Reaches root id) :
    ∃ before depth after, pattern.visits 0 [root] = before ++ ⟨id, depth, false⟩ :: after ∧
      (∀ other ∈ before, other.node ≠ id) ∧
      ∀ other ∈ after, other.node = id → other.again = true := by
  obtain ⟨visit, hvisit, hnode⟩ := exists_visit_of_reaches hid
  have hfound : ((pattern.visits 0 [root]).find? (·.node = id)).isSome :=
    List.find?_isSome.mpr ⟨visit, hvisit, decide_eq_true hnode⟩
  obtain ⟨⟨node, depth, again⟩, hfirst⟩ := Option.isSome_iff_exists.mp hfound
  obtain ⟨hnode, before, after, hvisits, hbefore⟩ := List.find?_eq_some_iff_append.mp hfirst
  obtain rfl : node = id := of_decide_eq_true hnode
  have hbefore : ∀ other ∈ before, other.node ≠ node := by simpa using hbefore
  obtain rfl : again = false := (again_eq_false_iff_of_visits hexists hvisits).mpr hbefore
  refine ⟨before, depth, after, hvisits, hbefore, fun other hother hnode => ?_⟩
  obtain ⟨between, rest, rfl⟩ := List.append_of_mem hother
  rw [← List.cons_append, ← List.append_assoc] at hvisits
  by_contra hagain
  have hearlier := (again_eq_false_iff_of_visits hexists hvisits).mp (Bool.not_eq_true _ ▸ hagain)
  exact hearlier _ (List.mem_append_right _ List.mem_cons_self) hnode.symm

/-- The nodes that appear for the first time are the reached ones. -/
theorem toFinset_firsts_visits :
    (Visit.firsts (pattern.visits 0 [root])).toFinset = pattern.reached root := by
  ext id
  rw [List.mem_toFinset, mem_reached_iff]
  constructor
  · intro hid
    obtain ⟨visit, hvisit, rfl⟩ := List.mem_map.mp hid
    have hreaches := reaches_of_mem_visits (List.mem_of_mem_filter hvisit)
    exact ⟨hexists _ hreaches, hreaches⟩
  · rintro ⟨-, hreaches⟩
    obtain ⟨before, depth, after, hvisits, -, -⟩ := exists_first_visit hexists hreaches
    rw [hvisits]
    refine List.mem_map.mpr ⟨⟨id, depth, false⟩, List.mem_filter.mpr ⟨?_, rfl⟩, rfl⟩
    exact List.mem_append_right before List.mem_cons_self

/-- There is a visit for the node in front and one for each slot of the reached nodes. -/
theorem length_visits :
    (pattern.visits 0 [root]).length =
      1 + ∑ id ∈ pattern.reached root, (pattern.childrenOf id).length := by
  have hperm := (pattern.perm_map_node_explore (Array.replicate pattern.nodes.size false)
    ([root].map (·, 0))).length_eq
  have hnodup := (pattern.nodup_firsts_explore (Array.replicate pattern.nodes.size false)
    ([root].map (·, 0))).1
  rw [List.length_map, List.length_append, List.length_map, List.length_map, List.length_flatMap,
    ← List.sum_toFinset _ hnodup] at hperm
  rw [← toFinset_firsts_visits hexists]
  exact hperm

/-- A walk through a node and all below it looks below each node once. -/
theorem explores_visits : pattern.Explores root (pattern.visits 0 [root]) where
  reaches _ := reaches_of_mem_visits
  first _ := exists_first_visit hexists
  children before visit after hvisits := by
    obtain ⟨marked, rest, hrest, rfl⟩ :=
      exists_explore_of_append (List.pairwise_singleton _ _) hvisits
    have hchildren : ∀ entry ∈ (pattern.childrenOf visit.node).map (·, visit.depth + 1),
        entry.2 = visit.depth + 1 := by
      intro entry hentry
      obtain ⟨child, -, rfl⟩ := List.mem_map.mp hentry
      rfl
    by_cases hagain : visit.again
    · rw [if_pos hagain, if_pos hagain, Visit.inside,
        takeWhile_explore_append (List.forall_mem_nil _) hrest, explore_nil]
    · have hfront : ∀ entry ∈ (pattern.childrenOf visit.node).map (·, visit.depth + 1),
          visit.depth < entry.2 := fun entry hentry => hchildren entry hentry ▸ Nat.lt_succ_self _
      have hdepth : ∀ entry ∈ (pattern.childrenOf visit.node).map (·, visit.depth + 1),
          visit.depth + 1 ≤ entry.2 := fun entry hentry => hchildren entry hentry ▸ Nat.le_refl _
      rw [if_neg hagain, if_neg hagain, Visit.inside, takeWhile_explore_append hfront hrest,
        map_node_filter_explore hdepth, List.filter_eq_self.mpr (by simp),
        List.map_map]
      exact List.map_id _

/-- No visit is another one of its node when the nodes on the walk are all different. -/
theorem again_eq_false_of_nodup (hnodup : ((pattern.visits 0 [root]).map Visit.node).Nodup)
    (hvisit : visit ∈ pattern.visits 0 [root]) : visit.again = false := by
  obtain ⟨before, after, hvisits⟩ := List.append_of_mem hvisit
  rw [hvisits, List.map_append, List.nodup_append] at hnodup
  obtain ⟨-, -, hdisjoint⟩ := hnodup
  refine (again_eq_false_iff_of_visits hexists hvisits).mpr fun earlier hearlier => ?_
  exact hdisjoint _ (List.mem_map_of_mem hearlier) _ List.mem_cons_self

end

end PatternTree.Pattern
