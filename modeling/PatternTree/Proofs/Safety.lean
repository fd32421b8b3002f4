import PatternTree.Proofs.Builder.Run
import PatternTree.Proofs.Outline
import PatternTree.Proofs.Postorder
import PatternTree.Proofs.Reparse

namespace PatternTree

namespace Pattern

variable {dialect : Dialect} {source : String} {pattern : Pattern}

/-- Each node has a text. -/
theorem isSome_text? (hparse : parse dialect source = .ok pattern) {id : Nat}
    (hid : id < pattern.nodes.size) : (pattern.text? id).isSome := by
  obtain ⟨choice, hderives, rfl⟩ := parse_eq_ok_iff.mp hparse
  have hnode : (ofTree source (choice.tree 0 0)).node? id = some _ := Array.getElem?_eq_getElem hid
  obtain ⟨front, inner, back, -, -, hlexemes, -, -, hspan⟩ := exists_part_of_node hnode
  have hsource : source.toList = Lexeme.textOf (front ++ (inner.lexemes ++ back)) := by
    rw [← hlexemes, hderives.text]
  have hcovers := Choice.covers_textOf hsource
  rw [← hspan] at hcovers
  rw [text?, hnode, Option.bind_some, source_ofTree, hcovers.slice?_eq]
  rfl

/-- A listing walks through nodes that exist. -/
theorem Postordered.lt_of_mem_visits (hpattern : pattern.Postordered) {visit : Visit}
    (hvisit : visit ∈ pattern.visits 0 [pattern.root]) : visit.node < pattern.nodes.size := by
  refine reached_of_mem_visits (· < pattern.nodes.size) ?_ ?_ 0 visit hvisit
  · intro id hid child hchild
    exact Nat.lt_trans (hpattern.descending id child hchild) hid
  · simp [← hpattern.root]

end Pattern

end PatternTree
