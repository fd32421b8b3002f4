import PatternTree.Proofs.Draft.Edits
import PatternTree.Proofs.Outline
import PatternTree.Proofs.Safety
import PatternTree.Proofs.Visits

namespace PatternTree

/-- What a node reaches exists. -/
theorem Draft.Keeps.lt_of_reaches {draft : Draft} {edges : List Edge} (hkeeps : draft.Keeps edges)
    {source : String} {root start id : Nat} (hstart : start < draft.nodes.size)
    (hreaches : (draft.finish source root).Reaches start id) : id < draft.nodes.size := by
  cases hreaches with
  | refl => exact hstart
  | tail _ hchild => exact hkeeps.lt_of_mem_childrenOf hchild

namespace Pattern

open scoped Classical in
/-- The nodes from which ways lead to a node. -/
noncomputable def ancestors (pattern : Pattern) (id : Nat) : Finset Nat :=
  (Finset.range pattern.nodes.size).filter (pattern.LeadsTo · id)

variable {pattern : Pattern} {id parent child : Nat}

theorem mem_ancestors_iff {other : Nat} :
    other ∈ pattern.ancestors id ↔ pattern.LeadsTo other id := by
  classical
  rw [ancestors, Finset.mem_filter, Finset.mem_range, and_iff_right_iff_imp]
  exact LeadsTo.lt_size

namespace Postordered

variable (hpattern : pattern.Postordered)

include hpattern

/-- Ways lead to lower numbers. -/
theorem lt_of_leadsTo {other : Nat} (hway : pattern.LeadsTo id other) : other < id := by
  refine hway.closed (· < id) (hpattern.descending id) fun between hbetween child hchild => ?_
  exact Nat.lt_trans (hpattern.descending between child hchild) hbetween

/-- A child in a slot knows the slot. -/
theorem exists_attachment {node : Node} (hnode : pattern.node? parent = some node) {place : Nat}
    (hchild : (pattern.childrenOf parent)[place]? = some child) :
    ∃ other, pattern.node? child = some other ∧ other.attachment = some ⟨parent, place⟩ := by
  have hmem := List.mem_of_getElem? hchild
  have hparent := lt_of_mem_childrenOf hmem
  have hlt := Nat.lt_trans (hpattern.descending parent child hmem) hparent
  have hother : pattern.node? child = some _ := Array.getElem?_eq_getElem hlt
  refine ⟨_, hother, (hpattern.attachment child _ hother parent place).mpr ⟨node, hnode, ?_⟩⟩
  rw [childrenOf, hnode, Option.map_some, Option.getD_some, Node.children, List.getElem?_map,
    Option.map_eq_some_iff] at hchild
  obtain ⟨slot, hslot, rfl⟩ := hchild
  have hindex := Node.index_eq_of_getElem? (hpattern.indices parent node hnode) hslot
  rw [hslot, ← hindex]

/-- A node is the child of one node only, and there in one place. -/
theorem eq_of_getElem?_childrenOf {other place index : Nat}
    (hchild : (pattern.childrenOf parent)[place]? = some child)
    (hother : (pattern.childrenOf other)[index]? = some child) :
    parent = other ∧ place = index := by
  obtain ⟨node, hnode⟩ : ∃ node, pattern.node? parent = some node :=
    ⟨_, Array.getElem?_eq_getElem (lt_of_mem_childrenOf (List.mem_of_getElem? hchild))⟩
  obtain ⟨node', hnode'⟩ : ∃ node, pattern.node? other = some node :=
    ⟨_, Array.getElem?_eq_getElem (lt_of_mem_childrenOf (List.mem_of_getElem? hother))⟩
  obtain ⟨found, hfound, hattachment⟩ := hpattern.exists_attachment hnode hchild
  obtain ⟨found', hfound', hattachment'⟩ := hpattern.exists_attachment hnode' hother
  obtain rfl := Option.some.inj (hfound.symm.trans hfound')
  rw [hattachment] at hattachment'
  simpa using hattachment'

theorem parent_unique {other : Nat} (hchild : child ∈ pattern.childrenOf parent)
    (hother : child ∈ pattern.childrenOf other) : parent = other := by
  obtain ⟨place, hplace⟩ := List.mem_iff_getElem?.mp hchild
  obtain ⟨index, hindex⟩ := List.mem_iff_getElem?.mp hother
  exact (hpattern.eq_of_getElem?_childrenOf hplace hindex).1

theorem nodup_childrenOf (id : Nat) : (pattern.childrenOf id).Nodup := by
  refine List.nodup_iff_getElem?_ne_getElem?.mpr fun place index hlt hindex heq => ?_
  have hfirst : (pattern.childrenOf id)[index]? = some _ := List.getElem?_eq_getElem hindex
  exact Nat.ne_of_lt hlt (hpattern.eq_of_getElem?_childrenOf (heq.trans hfirst) hfirst).2

theorem lt_of_reaches_root (hreaches : pattern.Reaches pattern.root id) :
    id < pattern.nodes.size := by
  rw [← hpattern.root]
  obtain rfl | hway := Relation.reflTransGen_iff_eq_or_transGen.mp hreaches
  · exact Nat.lt_succ_self _
  · exact Nat.lt_succ_of_lt (hpattern.lt_of_leadsTo hway)

/-- The walk of a listing comes to each node once. -/
theorem nodup_visits : ((pattern.visits 0 [pattern.root]).map Visit.node).Nodup := by
  refine (pattern.perm_map_node_explore _ _).nodup_iff.mpr (List.nodup_append.mpr ⟨?_, ?_, ?_⟩)
  · exact List.nodup_singleton _
  · refine List.nodup_flatMap.mpr ⟨fun id _ => hpattern.nodup_childrenOf id, ?_⟩
    refine (pattern.nodup_firsts_explore _ _).1.imp fun {first second} hne => ?_
    exact fun child hfirst hsecond => hne (hpattern.parent_unique hfirst hsecond)
  · intro root hroot child hchild heq
    obtain rfl : root = pattern.root := by simpa using hroot
    obtain ⟨parent, -, hchild⟩ := List.mem_flatMap.mp hchild
    have hparent := lt_of_mem_childrenOf hchild
    have hlt := hpattern.descending parent child hchild
    have hlast := hpattern.root
    omega

/-- A child has one ancestor more than its parent. -/
theorem card_ancestors_of_mem_childrenOf (hchild : child ∈ pattern.childrenOf parent) :
    (pattern.ancestors child).card = (pattern.ancestors parent).card + 1 := by
  classical
  have hinsert : pattern.ancestors child = insert parent (pattern.ancestors parent) := by
    ext other
    rw [Finset.mem_insert, mem_ancestors_iff, mem_ancestors_iff, LeadsTo,
      Relation.TransGen.tail'_iff]
    constructor
    · rintro ⟨between, hway, hbetween⟩
      obtain rfl := hpattern.parent_unique hchild hbetween
      exact (Relation.reflTransGen_iff_eq_or_transGen.mp hway).imp_left Eq.symm
    · rintro (rfl | hway)
      · exact ⟨_, .refl, hchild⟩
      · exact ⟨_, hway.to_reflTransGen, hchild⟩
  rw [hinsert, Finset.card_insert_of_notMem]
  exact fun hmem => Nat.lt_irrefl _ (hpattern.lt_of_leadsTo (mem_ancestors_iff.mp hmem))

theorem ancestors_root : pattern.ancestors pattern.root = ∅ := by
  refine Finset.eq_empty_of_forall_notMem fun other hother => ?_
  have hway := mem_ancestors_iff.mp hother
  have hlt := hpattern.lt_of_leadsTo hway
  have hsize := hway.lt_size
  have hlast := hpattern.root
  omega

/-- A listing comes to the root and then to the nodes of the walk in pre-order, to each of them once
    and as deep as it has ancestors. -/
theorem exists_visits_eq :
    ∃ walk, (∀ limit, pattern.descendants pattern.root limit = walk.take limit) ∧
      pattern.visits 0 [pattern.root] =
        (pattern.root :: walk).map fun id => ⟨id, (pattern.ancestors id).card, false⟩ := by
  have hagain : ∀ visit ∈ pattern.visits 0 [pattern.root], visit.again = false := fun _ =>
    again_eq_false_of_nodup (fun _ => hpattern.lt_of_reaches_root) hpattern.nodup_visits
  have hdepth : ∀ visit ∈ pattern.visits 0 [pattern.root],
      visit.depth = (pattern.ancestors visit.node).card := by
    refine placed_of_mem_explore (fun id depth => depth = (pattern.ancestors id).card) ?_ ?_
    · rintro id _ rfl child hchild
      exact (hpattern.card_ancestors_of_mem_childrenOf hchild).symm
    · simp [hpattern.ancestors_root]
  obtain ⟨again, rest, hrest⟩ := pattern.exists_explore_cons
    (Array.replicate pattern.nodes.size false) pattern.root 0 []
  have hnodes : (pattern.visits 0 [pattern.root]).map Visit.node =
      pattern.root :: rest.map Visit.node := congrArg (List.map Visit.node) hrest
  refine ⟨rest.map Visit.node, fun limit => ?_, ?_⟩
  · have htake : pattern.preorder (limit + 1) [pattern.root] =
        ((pattern.visits 0 [pattern.root]).map Visit.node).take (limit + 1) :=
      preorder_eq_take_explore hagain (limit + 1)
    rw [hnodes, List.take_succ_cons, preorder, List.append_nil] at htake
    exact (List.cons.inj htake).2
  · rw [← hnodes, List.map_map]
    refine (List.map_id _).symm.trans (List.map_congr_left fun visit hvisit => ?_)
    rw [Function.comp_apply, ← hdepth visit hvisit, ← hagain visit hvisit]
    rfl

end Postordered

/-- Whatever a pattern is made of, it has a listing where all nodes that its root reaches have a
    text: one entry for the root and one for each slot of these nodes. Each of them has one entry
    that does not say that the node has appeared before, which is its first, and it is only this one
    that has the node's children behind it. In the listing of what is read no entry says so, and
    the root is followed by the walk in pre-order, each node two columns further to the right for
    each of its ancestors. -/
theorem listing_shows_reached :
    (∀ (edits : List Draft.Edit) (draft : Draft) (source : String) (root : Nat),
      Draft.build? edits = some draft → root < draft.nodes.size →
      (∀ id, (draft.finish source root).Reaches root id →
        ((draft.finish source root).text? id).isSome) →
      ∃ visits entries,
        (draft.finish source root).outline? = some (String.join (entries.map (· ++ "\n"))) ∧
        List.Forall₂ (Visit.Shows (draft.finish source root)) visits entries ∧
        entries.length = 1 + ∑ id ∈ (draft.finish source root).reached root,
          ((draft.finish source root).childrenOf id).length ∧
        (draft.finish source root).Explores root visits) ∧
    ∀ (dialect : Dialect) (source : String) (pattern : Pattern),
      parse dialect source = .ok pattern →
      ∃ walk entries,
        (∀ limit, pattern.descendants pattern.root limit = walk.take limit) ∧
        pattern.outline? = some (String.join (entries.map (· ++ "\n"))) ∧
        List.Forall₂ (fun id => Visit.Shows pattern ⟨id, (pattern.ancestors id).card, false⟩)
          (pattern.root :: walk) entries := by
  constructor
  · intro edits draft source root hbuild hroot htexts
    have hexists : ∀ id, (draft.finish source root).Reaches root id → id < draft.nodes.size :=
      fun id => (Draft.keeps_of_build?_eq_some hbuild).lt_of_reaches hroot
    obtain ⟨entries, houtline, hshows⟩ := exists_outline? fun visit hvisit =>
      htexts visit.node (reaches_of_mem_visits hvisit)
    exact ⟨_, entries, houtline, hshows, hshows.length_eq ▸ length_visits hexists,
      explores_visits hexists⟩
  · intro dialect source pattern hparse
    have hpattern : pattern.Postordered := by
      obtain ⟨choice, -, rfl⟩ := parse_eq_ok_iff.mp hparse
      exact postordered_ofTree source _
    obtain ⟨entries, houtline, hshows⟩ := exists_outline? fun visit hvisit =>
      isSome_text? hparse (hpattern.lt_of_mem_visits hvisit)
    obtain ⟨walk, hwalk, hvisits⟩ := hpattern.exists_visits_eq
    rw [hvisits, List.forall₂_map_left_iff] at hshows
    exact ⟨walk, entries, hwalk, houtline, hshows⟩

/-- A node that is shared and part of a cycle is listed three times, and the root twice. The nodes
    of a group that is read are listed once. -/
theorem listing_shows_cycle_and_group :
    (∃ (draft : Draft) (visits : List Visit) (entries : List String),
      Draft.build? [.push .dot ⟨0, 1⟩, .push .dot ⟨0, 1⟩, .push .dot ⟨0, 1⟩, .attach 0 1,
        .attach 1 0, .attach 0 2, .attach 2 1, .attach 1 1] = some draft ∧
      0 < draft.nodes.size ∧
      (∀ id, (draft.finish "." 0).Reaches 0 id → ((draft.finish "." 0).text? id).isSome) ∧
      (draft.finish "." 0).outline? = some (String.join (entries.map (· ++ "\n"))) ∧
      (draft.finish "." 0).outline? = some ("Dot 0..1 \".\"\n" ++ "  Dot 0..1 \".\"\n" ++
        "    Dot 0..1 \".\" (revisited)\n" ++ "    Dot 0..1 \".\" (revisited)\n" ++
        "  Dot 0..1 \".\"\n" ++ "    Dot 0..1 \".\" (revisited)\n") ∧
      List.Forall₂ (Visit.Shows (draft.finish "." 0)) visits entries ∧
      (draft.finish "." 0).Explores 0 visits) ∧
    ∃ (pattern : Pattern) (walk : List Nat) (entries : List String),
      parse {} "a(b)*" = .ok pattern ∧ walk.take 5 = [0, 3, 2, 1] ∧
      pattern.outline? = some (String.join (entries.map (· ++ "\n"))) ∧
      List.Forall₂ (fun id => Visit.Shows pattern ⟨id, (pattern.ancestors id).card, false⟩)
        (pattern.root :: walk) entries := by
  obtain ⟨hbuilt, hread⟩ := listing_shows_reached
  constructor
  · have hdecided : ((Draft.build? [.push .dot ⟨0, 1⟩, .push .dot ⟨0, 1⟩, .push .dot ⟨0, 1⟩,
        .attach 0 1, .attach 1 0, .attach 0 2, .attach 2 1, .attach 1 1]).map fun draft =>
          (draft.nodes.size,
            decide (∀ id < draft.nodes.size, ((draft.finish "." 0).text? id).isSome),
            (draft.finish "." 0).outline?)) =
        some (3, true, some ("Dot 0..1 \".\"\n" ++ "  Dot 0..1 \".\"\n" ++
          "    Dot 0..1 \".\" (revisited)\n" ++ "    Dot 0..1 \".\" (revisited)\n" ++
          "  Dot 0..1 \".\"\n" ++ "    Dot 0..1 \".\" (revisited)\n")) := by decide +kernel
    obtain ⟨draft, hbuild, hvalues⟩ := Option.map_eq_some_iff.mp hdecided
    obtain ⟨hsize, hvalues⟩ := Prod.mk.inj hvalues
    obtain ⟨htexts, houtline⟩ := Prod.mk.inj hvalues
    have hroot : 0 < draft.nodes.size := by omega
    have htexts : ∀ id, (draft.finish "." 0).Reaches 0 id →
        ((draft.finish "." 0).text? id).isSome := fun id hreaches =>
      of_decide_eq_true htexts id
        ((Draft.keeps_of_build?_eq_some hbuild).lt_of_reaches hroot hreaches)
    obtain ⟨visits, entries, hentries, hshows, -, hexplores⟩ :=
      hbuilt _ draft "." 0 hbuild hroot htexts
    exact ⟨draft, visits, entries, hbuild, hroot, htexts, hentries, houtline, hshows, hexplores⟩
  · obtain ⟨pattern, hparse⟩ := exists_parse_eq_ok {} "a(b)*" (by decide +kernel)
    have hdecided : (parse {} "a(b)*").toOption.map
        (fun pattern => pattern.descendants pattern.root 5) = some [0, 3, 2, 1] := by
      decide +kernel
    rw [hparse] at hdecided
    obtain ⟨walk, entries, hwalk, hentries, hshows⟩ := hread _ _ pattern hparse
    exact ⟨pattern, walk, entries, hparse, hwalk 5 ▸ Option.some.inj hdecided, hentries, hshows⟩

end Pattern

end PatternTree
