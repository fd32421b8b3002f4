import Mathlib.Data.Finset.Card
import PatternTree.Proofs.Cycles

namespace PatternTree.Pattern

/-- The whole walk in pre-order through some nodes and all below them, where it has an end. A node
    comes once for each way that leads to it. -/
inductive Unfolds (pattern : Pattern) : List Nat → List Nat → Prop where
  | nil : Unfolds pattern [] []
  | cons {id : Nat} {ids below walk : List Nat} :
      Unfolds pattern (pattern.childrenOf id) below → Unfolds pattern ids walk →
      Unfolds pattern (id :: ids) (id :: (below ++ walk))

namespace Unfolds

variable {pattern : Pattern} {ids walk : List Nat}

/-- A walk that stops early is a part of the whole one, and the nodes behind are looked at only when
    it is complete. -/
theorem preorder_append (hwalk : pattern.Unfolds ids walk) (limit : Nat) (pending : List Nat) :
    pattern.preorder limit (ids ++ pending) =
      walk.take limit ++ pattern.preorder (limit - walk.length) pending := by
  induction hwalk generalizing limit pending with
  | nil => simp
  | @cons id ids below walk _ _ ihBelow ihWalk =>
    cases limit with
    | zero => simp [preorder]
    | succ limit =>
      have hrest : limit + 1 - (id :: (below ++ walk)).length =
          limit - below.length - walk.length := by
        simp only [List.length_cons, List.length_append]
        omega
      rw [List.cons_append, preorder, ihBelow, ihWalk, hrest, List.take_succ_cons,
        List.take_append, List.cons_append, List.append_assoc]

theorem preorder_eq (hwalk : pattern.Unfolds ids walk) (limit : Nat) :
    pattern.preorder limit ids = walk.take limit := by
  have hnone : pattern.preorder (limit - walk.length) [] = [] := by
    cases limit - walk.length <;> rfl
  have happend := hwalk.preorder_append limit []
  rwa [List.append_nil, hnone, List.append_nil] at happend

/-- A walk through some nodes and then through others is one walk after the other. -/
theorem of_append {others : List Nat} (hwalk : pattern.Unfolds (ids ++ others) walk) :
    ∃ front back, walk = front ++ back ∧ pattern.Unfolds ids front ∧
      pattern.Unfolds others back := by
  induction ids generalizing walk with
  | nil => exact ⟨[], walk, rfl, .nil, hwalk⟩
  | cons id ids ih =>
    cases hwalk with
    | cons hbelow hwalk =>
      obtain ⟨front, back, rfl, hfront, hback⟩ := ih hwalk
      exact ⟨_, back, by simp, .cons hbelow hfront, hback⟩

/-- A walk comes to the nodes that those in front reach, and to no others. -/
theorem mem_iff (hwalk : pattern.Unfolds ids walk) {id : Nat} :
    id ∈ walk ↔ ∃ start ∈ ids, pattern.Reaches start id := by
  induction hwalk with
  | nil => simp
  | cons _ _ ihBelow ihWalk =>
    rw [List.mem_cons, List.mem_append, ihBelow, ihWalk, List.exists_mem_cons_iff, reaches_iff,
      or_assoc, eq_comm]

/-- A walk consists of the nodes in front and, for each of its nodes, of that node's children. -/
theorem perm (hwalk : pattern.Unfolds ids walk) :
    walk.Perm (ids ++ walk.flatMap fun id => pattern.childrenOf id) := by
  induction hwalk with
  | nil => exact .nil
  | @cons id ids below walk _ _ ihBelow ihWalk =>
    rw [List.flatMap_cons, List.flatMap_append, List.cons_append]
    refine .cons id ((ihBelow.append ihWalk).trans ?_)
    rw [List.append_assoc]
    refine .trans ?_ (List.perm_append_comm_assoc _ _ _)
    refine .append_left _ ?_
    exact List.perm_append_comm_assoc _ _ _

end Unfolds

variable {pattern : Pattern} {id : Nat}

/-- Walks through nodes, one after the other. -/
theorem exists_unfolds_of_forall_mem {ids : List Nat}
    (hids : ∀ id ∈ ids, ∃ below, pattern.Unfolds (pattern.childrenOf id) below) :
    ∃ walk, pattern.Unfolds ids walk := by
  induction ids with
  | nil => exact ⟨[], .nil⟩
  | cons id ids ih =>
    obtain ⟨below, hbelow⟩ := hids id List.mem_cons_self
    obtain ⟨walk, hwalk⟩ := ih fun other hother => hids other (List.mem_cons_of_mem _ hother)
    exact ⟨_, .cons hbelow hwalk⟩

open scoped Classical in
/-- The nodes that exist and that a node reaches. -/
noncomputable def reached (pattern : Pattern) (id : Nat) : Finset Nat :=
  (Finset.range pattern.nodes.size).filter (pattern.Reaches id)

theorem mem_reached_iff {other : Nat} :
    other ∈ pattern.reached id ↔ other < pattern.nodes.size ∧ pattern.Reaches id other := by
  classical
  rw [reached, Finset.mem_filter, Finset.mem_range]

/-- A child of a node that is not its own descendant reaches fewer nodes. -/
theorem card_reached_lt (hacyclic : ¬ pattern.LeadsTo id id) {child : Nat}
    (hchild : child ∈ pattern.childrenOf id) :
    (pattern.reached child).card < (pattern.reached id).card := by
  have hsubset : pattern.reached child ⊆ pattern.reached id := by
    intro other hother
    obtain ⟨hlt, hreaches⟩ := mem_reached_iff.mp hother
    exact mem_reached_iff.mpr ⟨hlt, .head hchild hreaches⟩
  apply Finset.card_lt_card
  refine (Finset.ssubset_iff_of_subset hsubset).mpr
    ⟨id, mem_reached_iff.mpr ⟨lt_of_mem_childrenOf hchild, .refl⟩, fun hid => ?_⟩
  exact hacyclic (.head' hchild (mem_reached_iff.mp hid).2)

/-- Where no node that is its own descendant is reached, the walk below a node has an end. -/
theorem exists_unfolds
    (hacyclic : ∀ other, pattern.Reaches id other → ¬ pattern.LeadsTo other other) :
    ∃ walk, pattern.Unfolds (pattern.childrenOf id) walk := by
  induction hcard : (pattern.reached id).card using Nat.strongRecOn generalizing id with
  | ind count ih =>
    refine exists_unfolds_of_forall_mem fun child hchild => ?_
    refine ih _ (hcard ▸ card_reached_lt (hacyclic id .refl) hchild) (fun other hother => ?_) rfl
    exact hacyclic other (.head hchild hother)

namespace Unfolds

variable {walk : List Nat}

/-- The walk below a node comes to the nodes to which ways lead from it. -/
theorem mem_iff_leadsTo (hwalk : pattern.Unfolds (pattern.childrenOf id) walk) {other : Nat} :
    other ∈ walk ↔ pattern.LeadsTo id other := by
  rw [hwalk.mem_iff, LeadsTo, Relation.TransGen.head'_iff]
  rfl

/-- Where a walk through nodes has an end, the walk below each of them is shorter. -/
theorem exists_shorter {ids : List Nat} (hwalk : pattern.Unfolds ids walk) (hid : id ∈ ids) :
    ∃ below, pattern.Unfolds (pattern.childrenOf id) below ∧ below.length < walk.length := by
  induction hwalk with
  | nil => cases hid
  | @cons first ids below walk hbelow _ _ ih =>
    simp only [List.length_cons, List.length_append]
    obtain rfl | hid := List.mem_cons.mp hid
    · exact ⟨below, hbelow, by omega⟩
    · obtain ⟨inner, hinner, hshorter⟩ := ih hid
      exact ⟨inner, hinner, by omega⟩

/-- So is the walk below each node to which a way leads from there. -/
theorem exists_shorter_of_leadsTo (hwalk : pattern.Unfolds (pattern.childrenOf id) walk)
    {other : Nat} (hway : pattern.LeadsTo id other) :
    ∃ below, pattern.Unfolds (pattern.childrenOf other) below ∧ below.length < walk.length := by
  induction hway with
  | single hchild => exact hwalk.exists_shorter hchild
  | tail _ hchild ih =>
    obtain ⟨below, hbelow, hshorter⟩ := ih
    obtain ⟨inner, hinner, hlt⟩ := hbelow.exists_shorter hchild
    exact ⟨inner, hinner, Nat.lt_trans hlt hshorter⟩

/-- The walk below a node that reaches its own descendant has no end. -/
theorem not_leadsTo_self (hwalk : pattern.Unfolds (pattern.childrenOf id) walk) {other : Nat}
    (hreaches : pattern.Reaches id other) : ¬ pattern.LeadsTo other other := by
  intro hcycle
  have hendless : ∀ count below, pattern.Unfolds (pattern.childrenOf other) below →
      count ≤ below.length := by
    intro count
    induction count with
    | zero => exact fun below _ => Nat.zero_le _
    | succ count ih =>
      intro below hbelow
      obtain ⟨inner, hinner, hshorter⟩ := hbelow.exists_shorter_of_leadsTo hcycle
      exact Nat.lt_of_le_of_lt (ih inner hinner) hshorter
  obtain ⟨below, hbelow⟩ : ∃ below, pattern.Unfolds (pattern.childrenOf other) below := by
    obtain rfl | hway := Relation.reflTransGen_iff_eq_or_transGen.mp hreaches
    · exact ⟨walk, hwalk⟩
    · obtain ⟨below, hbelow, -⟩ := hwalk.exists_shorter_of_leadsTo hway
      exact ⟨below, hbelow⟩
  exact Nat.not_succ_le_self _ (hendless (below.length + 1) below hbelow)

end Unfolds

end PatternTree.Pattern
