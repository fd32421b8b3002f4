import Mathlib.Data.Seq.Basic
import PatternTree.Proofs.AddedEdge
import PatternTree.Proofs.Preorder

open Stream' (Seq)

namespace PatternTree

/-- A walk in pre-order that is asked for one node after the other. The nodes that it has still to
    come to wait in a stack, the next one last. -/
structure Descent where
  stack : List Nat
  deriving DecidableEq, Repr

namespace Descent

/-- The walk below a node, without the node itself. There is none below a node that does not
    exist. -/
def below? (pattern : Pattern) (id : Nat) : Option Descent :=
  (pattern.node? id).map fun node => ⟨node.children.reverse⟩

/-- Asks for the next node. The result says which one it is, which is none behind the last one, and
    how the walk stands then. The walk breaks on a number that no node has, since it looks for the
    children of what it answers with. -/
def next? (pattern : Pattern) (descent : Descent) : Option (Option Nat × Descent) :=
  match descent.stack.getLast? with
  | none => some (none, descent)
  | some id =>
    (pattern.node? id).map fun node =>
      (some id, ⟨descent.stack.dropLast ++ node.children.reverse⟩)

/-- The answers to the first `count` calls. -/
def answers? (pattern : Pattern) (descent : Descent) : Nat → Option (List (Option Nat))
  | 0 => some []
  | count + 1 => do
    let (answer, next) ← descent.next? pattern
    let answers ← answers? pattern next count
    return answer :: answers

/-- What a walk answers with goes off the stack, and its children come on top of the others, the
    first one last. -/
theorem next?_cons {pattern : Pattern} {id : Nat} (hid : id < pattern.nodes.size) (ids : List Nat) :
    next? pattern ⟨(id :: ids).reverse⟩ =
      some (some id, ⟨(pattern.childrenOf id ++ ids).reverse⟩) := by
  have hnode : pattern.node? id = some _ := Array.getElem?_eq_getElem hid
  simp [next?, Pattern.childrenOf, hnode]

end Descent

namespace Pattern

/-- Nodes, each of them followed by its own list. The lists need not end. -/
def through (below : Nat → Seq Nat) : List Nat → Seq Nat
  | [] => .nil
  | id :: ids => .cons id ((below id).append (through below ids))

/-- The walks in pre-order below all nodes: below each of them come its children, in the order of
    the slots, and behind each child the walk below the child. -/
def IsUnfolding (pattern : Pattern) (below : Nat → Seq Nat) : Prop :=
  ∀ id, below id = through below (pattern.childrenOf id)

theorem through_append (below : Nat → Seq Nat) (ids others : List Nat) :
    through below (ids ++ others) = (through below ids).append (through below others) := by
  induction ids with
  | nil => rw [List.nil_append, through, Seq.nil_append]
  | cons id ids ih =>
    rw [List.cons_append, through, through, ih, Seq.cons_append, Seq.append_assoc]

variable {pattern : Pattern}

namespace IsUnfolding

variable {below other : Nat → Seq Nat} (hbelow : pattern.IsUnfolding below)

include hbelow

/-- A walk goes on from a node with its children. -/
theorem through_cons (id : Nat) (ids : List Nat) :
    through below (id :: ids) = .cons id (through below (pattern.childrenOf id ++ ids)) := by
  rw [through_append, ← hbelow id, through]

/-- A walk that stops early is the front of the one that need not end. -/
theorem take_through (limit : Nat) (ids : List Nat) :
    (through below ids).take limit = pattern.preorder limit ids := by
  induction limit generalizing ids with
  | zero => rfl
  | succ limit ih =>
    cases ids with
    | nil => rfl
    | cons id ids => rw [hbelow.through_cons, Seq.take_succ_cons, ih, preorder]

/-- There is no other walk below any node. -/
theorem eq (hother : pattern.IsUnfolding other) : other = below := by
  funext id
  refine Seq.ext fun place => ?_
  have htake : ((other id).take (place + 1))[place]? = ((below id).take (place + 1))[place]? := by
    rw [hother id, hbelow id, hother.take_through, hbelow.take_through]
  simpa [Seq.getElem?_take] using htake

/-- Where the walk in pre-order has an end, the list has the same. -/
theorem through_eq_of_unfolds {ids walk : List Nat} (hwalk : pattern.Unfolds ids walk) :
    through below ids = walk := by
  induction hwalk with
  | nil => rfl
  | @cons id ids inner walk _ _ ihInner ihWalk =>
    rw [through, hbelow id, ihInner, ihWalk, Seq.ofList_cons, Seq.ofList_append]

/-- A walk that has an end is the whole walk in pre-order. -/
theorem exists_unfolds_of_get?_eq_none {place : Nat} {ids : List Nat}
    (hend : (through below ids).get? place = none) : ∃ walk, pattern.Unfolds ids walk := by
  induction place generalizing ids with
  | zero =>
    cases ids with
    | nil => exact ⟨[], .nil⟩
    | cons id ids => cases hend
  | succ place ih =>
    cases ids with
    | nil => exact ⟨[], .nil⟩
    | cons id ids =>
      rw [hbelow.through_cons, Seq.get?_cons_succ] at hend
      obtain ⟨walk, hwalk⟩ := ih hend
      obtain ⟨inner, others, -, hinner, hothers⟩ := hwalk.of_append
      exact ⟨_, .cons hinner hothers⟩

/-- A walk whose stack holds nodes that exist answers with the walk through them. -/
theorem answers?_eq (hchildren : ∀ id, ∀ child ∈ pattern.childrenOf id, child < pattern.nodes.size)
    {ids : List Nat} (hids : ∀ id ∈ ids, id < pattern.nodes.size) (count : Nat) :
    Descent.answers? pattern ⟨ids.reverse⟩ count =
      some ((List.range count).map (through below ids).get?) := by
  induction count generalizing ids with
  | zero => rfl
  | succ count ih =>
    rw [List.range_succ_eq_map, List.map_cons, List.map_map, Descent.answers?]
    cases ids with
    | nil =>
      have hnext : Descent.next? pattern ⟨[].reverse⟩ = some (none, ⟨[].reverse⟩) := rfl
      rw [hnext, Option.bind_eq_bind, Option.bind_some]
      dsimp only
      rw [ih hids]
      rfl
    | cons id ids =>
      have hlater : ∀ later ∈ pattern.childrenOf id ++ ids, later < pattern.nodes.size := by
        intro later hlater
        obtain hlater | hlater := List.mem_append.mp hlater
        · exact hchildren id later hlater
        · exact hids later (List.mem_cons_of_mem _ hlater)
      rw [Descent.next?_cons (hids id List.mem_cons_self), hbelow.through_cons,
        Option.bind_eq_bind, Option.bind_some]
      dsimp only
      rw [ih hlater]
      rfl

end IsUnfolding

/-- The walk through some nodes and all below them, found one node after the other. -/
def walkOf (pattern : Pattern) : List Nat → Seq Nat :=
  Seq.corec fun
    | [] => none
    | id :: ids => some (id, pattern.childrenOf id ++ ids)

theorem walkOf_nil (pattern : Pattern) : pattern.walkOf [] = .nil :=
  Seq.corec_nil _ _ rfl

theorem walkOf_cons (pattern : Pattern) (id : Nat) (ids : List Nat) :
    pattern.walkOf (id :: ids) = .cons id (pattern.walkOf (pattern.childrenOf id ++ ids)) :=
  Seq.corec_cons rfl

/-- What is behind the front nodes waits until all below these have come, for good where the walk
    there has no end. -/
theorem walkOf_append (pattern : Pattern) (ids others : List Nat) :
    pattern.walkOf (ids ++ others) = (pattern.walkOf ids).append (pattern.walkOf others) := by
  refine Seq.eq_of_bisim_strong (fun whole parts => ∃ ids, whole = pattern.walkOf (ids ++ others) ∧
    parts = (pattern.walkOf ids).append (pattern.walkOf others)) ⟨ids, rfl, rfl⟩ ?_
  rintro _ _ ⟨ids, rfl, rfl⟩
  cases ids with
  | nil => exact .inl (by rw [walkOf_nil, Seq.nil_append, List.nil_append])
  | cons id ids =>
    refine .inr ⟨id, _, _, pattern.walkOf_cons id (ids ++ others), ?_,
      pattern.childrenOf id ++ ids, by rw [List.append_assoc], rfl⟩
    rw [walkOf_cons, Seq.cons_append]

theorem isUnfolding_walkOf (pattern : Pattern) :
    pattern.IsUnfolding fun id => pattern.walkOf (pattern.childrenOf id) := by
  have hthrough : ∀ ids : List Nat, pattern.walkOf ids =
      through (fun id => pattern.walkOf (pattern.childrenOf id)) ids := by
    intro ids
    induction ids with
    | nil => exact pattern.walkOf_nil
    | cons id ids ih => rw [walkOf_cons, walkOf_append, ih, through]
  exact fun id => hthrough (pattern.childrenOf id)

/-- Walks below the nodes of a pattern exist, without a choice. -/
theorem existsUnique_isUnfolding (pattern : Pattern) : ∃! below, pattern.IsUnfolding below :=
  ⟨_, pattern.isUnfolding_walkOf, fun _ => pattern.isUnfolding_walkOf.eq⟩

/-- A walk ends exactly where no node that is its own descendant is met on it or is where it
    starts. -/
theorem IsUnfolding.terminates_iff {below : Nat → Seq Nat} (hbelow : pattern.IsUnfolding below)
    {id : Nat} : (below id).Terminates ↔
      ∀ node, pattern.Reaches id node → ¬ pattern.LeadsTo node node := by
  constructor
  · rintro ⟨place, hend⟩ node hreaches hcycle
    rw [hbelow id] at hend
    obtain ⟨walk, hwalk⟩ := hbelow.exists_unfolds_of_get?_eq_none hend
    exact hwalk.not_leadsTo_self hreaches hcycle
  · intro hacyclic
    obtain ⟨walk, hwalk⟩ := exists_unfolds hacyclic
    rw [hbelow id, hbelow.through_eq_of_unfolds hwalk]
    exact Seq.terminates_ofList walk

end Pattern

namespace Draft

/-- Whatever a pattern is made of, there is one way to walk below its nodes in pre-order, with or
    without an end. A walk that is asked for one node after the other goes this way below each node
    and never breaks. It has an end exactly where no node that is reported as its own descendant is
    reached, and then it comes to each node below once for each way that leads there, before the
    node's children. -/
theorem descent_unfolds {edits : List Edit} {draft : Draft} (hbuild : build? edits = some draft)
    (source : String) (root : Nat) {id : Nat} (hid : id < draft.nodes.size) :
    (∃! below, (draft.finish source root).IsUnfolding below) ∧
    ∀ below, (draft.finish source root).IsUnfolding below →
      (∃ descent, Descent.below? (draft.finish source root) id = some descent ∧
        ∀ count, descent.answers? (draft.finish source root) count =
          some ((List.range count).map (below id).get?)) ∧
      (∀ limit, (draft.finish source root).descendants id limit = (below id).take limit) ∧
      ((below id).Terminates ↔
        ∀ node, (draft.finish source root).Reaches id node →
          .cyclic node ∉ (draft.finish source root).cyclicNodes) ∧
      ((below id).Terminates →
        ∃ walk : List Nat, below id = walk ∧
          (draft.finish source root).Unfolds ((draft.finish source root).childrenOf id) walk) := by
  have hkeeps := keeps_of_build?_eq_some hbuild
  refine ⟨Pattern.existsUnique_isUnfolding _, fun below hbelow => ⟨?_, ?_, ?_, ?_⟩⟩
  · have hnode : (draft.finish source root).node? id = some _ := Array.getElem?_eq_getElem hid
    refine ⟨⟨((draft.finish source root).childrenOf id).reverse⟩, ?_, fun count => ?_⟩
    · rw [Descent.below?, Pattern.childrenOf, hnode]
      rfl
    · rw [hbelow id]
      exact hbelow.answers?_eq (fun _ _ => hkeeps.lt_of_mem_childrenOf)
        (fun _ => hkeeps.lt_of_mem_childrenOf) count
  · intro limit
    rw [hbelow id, hbelow.take_through, Pattern.descendants]
  · rw [hbelow.terminates_iff]
    exact forall₂_congr fun node _ => not_congr Pattern.cyclic_mem_iff.symm
  · rintro ⟨place, hend⟩
    rw [hbelow id] at hend ⊢
    obtain ⟨walk, hwalk⟩ := hbelow.exists_unfolds_of_get?_eq_none hend
    exact ⟨walk, hbelow.through_eq_of_unfolds hwalk, hwalk⟩

/-- The walk below a node whose two children share a child comes to that one twice and ends. The
    walk below a node that hangs below itself and has this node for another child goes on for
    good. -/
theorem exists_unfolding_shared_and_endless :
    ∃ (draft : Draft) (below : Nat → Seq Nat) (descent : Descent) (walk : List Nat),
      build? [.push .dot ⟨0, 1⟩, .push .dot ⟨0, 1⟩, .push .dot ⟨0, 1⟩, .push .dot ⟨0, 1⟩,
        .push .dot ⟨0, 1⟩, .attach 0 1, .attach 0 2, .attach 1 3, .attach 2 3, .attach 4 0,
        .attach 4 4] = some draft ∧
      0 < draft.nodes.size ∧ 4 < draft.nodes.size ∧ (draft.finish "." 0).IsUnfolding below ∧
      Descent.below? (draft.finish "." 0) 4 = some descent ∧
      (∀ count, descent.answers? (draft.finish "." 0) count =
        some ((List.range count).map (below 4).get?)) ∧
      ¬ (below 4).Terminates ∧ (below 0).Terminates ∧ below 0 = walk ∧ walk.take 5 = [1, 3, 2, 3] ∧
      (draft.finish "." 0).Unfolds ((draft.finish "." 0).childrenOf 0) walk := by
  have hdecided : ((build? [.push .dot ⟨0, 1⟩, .push .dot ⟨0, 1⟩, .push .dot ⟨0, 1⟩,
      .push .dot ⟨0, 1⟩, .push .dot ⟨0, 1⟩, .attach 0 1, .attach 0 2, .attach 1 3, .attach 2 3,
      .attach 4 0, .attach 4 4]).map fun draft =>
        (draft.nodes.size, (draft.finish "." 0).descendants 0 5,
          (draft.finish "." 0).cyclicNodes)) =
      some (5, [1, 3, 2, 3], [.cyclic 4]) := by decide +kernel
  obtain ⟨draft, hbuild, hvalues⟩ := Option.map_eq_some_iff.mp hdecided
  obtain ⟨hsize, hvalues⟩ := Prod.mk.inj hvalues
  obtain ⟨hfirst, hcyclic⟩ := Prod.mk.inj hvalues
  have hzero : 0 < draft.nodes.size := by omega
  have hfour : 4 < draft.nodes.size := by omega
  obtain ⟨⟨below, hbelow, -⟩, hends⟩ := descent_unfolds hbuild "." 0 hzero
  obtain ⟨-, hlimit, -, hwhole⟩ := hends below hbelow
  obtain ⟨-, hwalks⟩ := descent_unfolds hbuild "." 0 hfour
  obtain ⟨⟨descent, hdescent, hanswers⟩, -, hterminates, -⟩ := hwalks below hbelow
  have hendless : ¬ (below 4).Terminates := by
    rw [hterminates]
    exact fun hnone => hnone 4 .refl (hcyclic ▸ List.mem_singleton_self _)
  have htake : (below 0).take 5 = [1, 3, 2, 3] := by rw [← hlimit 5, hfirst]
  have hend : (below 0).Terminates := by
    refine ⟨4, ?_⟩
    have hget : ((below 0).take 5)[4]? = none := by rw [htake]; rfl
    rwa [Seq.getElem?_take, if_pos (by omega)] at hget
  obtain ⟨walk, hwalk, hunfolds⟩ := hwhole hend
  have hfive : walk.take 5 = [1, 3, 2, 3] := hunfolds.preorder_eq 5 ▸ hfirst
  exact ⟨draft, below, descent, walk, hbuild, hzero, hfour, hbelow, hdescent, hanswers, hendless,
    hend, hwalk, hfive, hunfolds⟩

end Draft

end PatternTree
