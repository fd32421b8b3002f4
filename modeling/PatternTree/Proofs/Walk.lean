import Mathlib.Logic.Relation
import PatternTree.Pattern.Walk

namespace PatternTree.Pattern

/-- Whether a node is another one or stands somewhere below it. -/
def Reaches (pattern : Pattern) : Nat → Nat → Prop :=
  Relation.ReflTransGen fun parent child => child ∈ pattern.childrenOf parent

section

variable {pattern : Pattern} {id other : Nat}

/-- A node reaches itself and what its children reach. -/
theorem reaches_iff :
    pattern.Reaches id other ↔
      id = other ∨ ∃ child ∈ pattern.childrenOf id, pattern.Reaches child other := by
  constructor
  · intro hreaches
    obtain rfl | ⟨child, hchild, hreaches⟩ := hreaches.cases_head
    · exact .inl rfl
    · exact .inr ⟨child, hchild, hreaches⟩
  · rintro (rfl | ⟨child, hchild, hreaches⟩)
    · exact .refl
    · exact .head hchild hreaches

end

variable {pattern : Pattern}

/-- A walk stays among nodes, each at its depth, that hold their children one level deeper as
    well. -/
theorem placed_of_mem_explore (Placed : Nat → Nat → Prop)
    (hchildren : ∀ id depth, Placed id depth → ∀ child ∈ pattern.childrenOf id,
      Placed child (depth + 1))
    {seen : Array Bool} {pending : List (Nat × Nat)}
    (hpending : ∀ entry ∈ pending, Placed entry.1 entry.2) :
    ∀ visit ∈ pattern.explore seen pending, Placed visit.node visit.depth := by
  fun_induction explore pattern seen pending with
  | case1 => simp
  | case2 seen id depth pending hseen ih =>
    have hid : Placed id depth := hpending (id, depth) List.mem_cons_self
    intro visit hvisit
    obtain rfl | hvisit := List.mem_cons.mp hvisit
    · exact hid
    · apply ih _ visit hvisit
      intro entry hentry
      obtain hentry | hentry := List.mem_append.mp hentry
      · obtain ⟨child, hchild, rfl⟩ := List.mem_map.mp hentry
        exact hchildren id depth hid child hchild
      · exact hpending entry (List.mem_cons_of_mem _ hentry)
  | case3 seen id depth pending hseen ih =>
    intro visit hvisit
    obtain rfl | hvisit := List.mem_cons.mp hvisit
    · exact hpending (id, depth) List.mem_cons_self
    · exact ih (fun entry hentry => hpending entry (List.mem_cons_of_mem _ hentry)) visit hvisit

/-- A walk stays among nodes that hold their children as well. -/
theorem reached_of_mem_visits (Reached : Nat → Prop)
    (hchildren : ∀ id, Reached id → ∀ child ∈ pattern.childrenOf id, Reached child)
    {ids : List Nat} (hids : ∀ id ∈ ids, Reached id) (depth : Nat) :
    ∀ visit ∈ pattern.visits depth ids, Reached visit.node := by
  apply placed_of_mem_explore (fun id _ => Reached id) fun id _ => hchildren id
  intro entry hentry
  obtain ⟨id, hid, rfl⟩ := List.mem_map.mp hentry
  exact hids id hid

/-- All nodes that are pending appear on a walk. -/
theorem exists_visit_of_mem_pending {seen : Array Bool} {pending : List (Nat × Nat)}
    {entry : Nat × Nat} (hentry : entry ∈ pending) :
    ∃ visit ∈ pattern.explore seen pending, visit.node = entry.1 := by
  fun_induction explore pattern seen pending with
  | case1 => cases hentry
  | case2 seen id depth pending hseen ih =>
    obtain rfl | hentry := List.mem_cons.mp hentry
    · exact ⟨_, List.mem_cons_self, rfl⟩
    · obtain ⟨visit, hvisit, hnode⟩ := ih (List.mem_append_right _ hentry)
      exact ⟨visit, List.mem_cons_of_mem _ hvisit, hnode⟩
  | case3 seen id depth pending hseen ih =>
    obtain rfl | hentry := List.mem_cons.mp hentry
    · exact ⟨_, List.mem_cons_self, rfl⟩
    · obtain ⟨visit, hvisit, hnode⟩ := ih hentry
      exact ⟨visit, List.mem_cons_of_mem _ hvisit, hnode⟩

/-- The children of a node that was not marked before a walk appear on it with the node. -/
theorem exists_visit_of_mem_childrenOf {seen : Array Bool} {pending : List (Nat × Nat)}
    {visit : Visit} (hvisit : visit ∈ pattern.explore seen pending)
    (hfresh : seen[visit.node]? = some false) {child : Nat}
    (hchild : child ∈ pattern.childrenOf visit.node) :
    ∃ later ∈ pattern.explore seen pending, later.node = child := by
  fun_induction explore pattern seen pending with
  | case1 => cases hvisit
  | case2 seen id depth pending hseen ih =>
    by_cases hid : visit.node = id
    · have hpending : (child, depth + 1) ∈
          (pattern.childrenOf id).map (·, depth + 1) ++ pending :=
        List.mem_append_left _ (List.mem_map_of_mem (hid ▸ hchild))
      obtain ⟨later, hlater, hnode⟩ := exists_visit_of_mem_pending hpending
      exact ⟨later, List.mem_cons_of_mem _ hlater, hnode⟩
    · obtain rfl | hvisit := List.mem_cons.mp hvisit
      · exact absurd rfl hid
      · have hfresh' : (seen.setIfInBounds id true)[visit.node]? = some false := by
          rwa [Array.getElem?_setIfInBounds_ne (Ne.symm hid)]
        obtain ⟨later, hlater, hnode⟩ := ih hvisit hfresh'
        exact ⟨later, List.mem_cons_of_mem _ hlater, hnode⟩
  | case3 seen id depth pending hseen ih =>
    obtain rfl | hvisit := List.mem_cons.mp hvisit
    · exact absurd hfresh hseen
    · obtain ⟨later, hlater, hnode⟩ := ih hvisit hfresh
      exact ⟨later, List.mem_cons_of_mem _ hlater, hnode⟩

/-- Only nodes that exist have children. -/
theorem lt_of_mem_childrenOf {id child : Nat} (hchild : child ∈ pattern.childrenOf id) :
    id < pattern.nodes.size := by
  rw [childrenOf] at hchild
  cases hnode : pattern.node? id with
  | none =>
    rw [hnode] at hchild
    cases hchild
  | some node => exact (Array.getElem?_eq_some_iff.mp hnode).1

/-- A walk comes to the children of all nodes that it comes to. -/
theorem exists_visit_of_mem_visits {depth : Nat} {ids : List Nat} {visit : Visit}
    (hvisit : visit ∈ pattern.visits depth ids) {child : Nat}
    (hchild : child ∈ pattern.childrenOf visit.node) :
    ∃ later ∈ pattern.visits depth ids, later.node = child := by
  refine exists_visit_of_mem_childrenOf hvisit ?_ hchild
  rw [Array.getElem?_replicate, if_pos (lt_of_mem_childrenOf hchild)]

end PatternTree.Pattern
