import PatternTree.Proofs.Depth
import PatternTree.Proofs.Grammar.Parts
import PatternTree.Proofs.References
import PatternTree.Proofs.Shift
import PatternTree.Proofs.Token.Closing

namespace PatternTree

attribute [ext] Pattern

open TokenRole (openers closers groupNames)

/-- Parentheses around admitted tokens are admitted with them where one more group may be open. -/
theorem Dialect.Admits.enclosed {dialect : Dialect} {roles : List TokenRole}
    (hadmits : dialect.Admits roles) :
    { dialect with maxDepth := dialect.maxDepth + 1 }.Admits
      (.opener .nonCapturing :: (roles ++ [TokenRole.closer])) where
  counts counts hcounts := hadmits.counts counts (by simpa using hcounts)
  depth front hfront := by
    cases front with
    | nil => exact Nat.zero_le _
    | cons role front =>
      obtain ⟨rfl, hinner⟩ := List.cons_prefix_cons.mp hfront
      obtain rfl | hinner := List.prefix_concat_iff.mp hinner
      · have hle := hadmits.depth roles (List.prefix_refl roles)
        simp [TokenRole.isOpener, TokenRole.isCloser]
        omega
      · have hle := hadmits.depth front hinner
        simp [TokenRole.isOpener, TokenRole.isCloser]
        omega
  names hallow := by simpa [TokenRole.groupName?] using hadmits.names hallow

/-- A tree three bytes further to the right below a group that has neither a number nor a name and
    reaches up to `stop`. -/
def Tree.enclosed (stop : Nat) (tree : Tree) : Tree :=
  .node (.group ⟨none, none⟩) ⟨0, stop⟩ [tree.shift 3 0]

namespace Choice

/-- A group around a choice that gets neither a number nor a name. -/
def enclosed (choice : Choice) : Choice :=
  .ofItem (.group .nonCapturing ['(', '?', ':'] choice.earlier choice.last none)

theorem lexemes_enclosed (choice : Choice) : choice.enclosed.lexemes =
    ⟨.opener .nonCapturing, ['(', '?', ':']⟩ :: (choice.lexemes ++ [Phrase.closer]) := by
  rw [enclosed, lexemes_ofItem, Phrase.lexemes_group, Phrase.suffixLexemes]

theorem tree_enclosed (choice : Choice) : choice.enclosed.tree 0 0 =
    (choice.tree 0 0).enclosed (3 + Lexeme.size choice.lexemes + 1) := by
  rw [enclosed, tree_ofItem, Phrase.tree, Phrase.item_group, Tree.enclosed, ← tree_shift]
  rfl

end Choice

/-- A text between parentheses derives from the group around its choice. -/
theorem Dialect.Derives.enclosed {dialect : Dialect} {chars : List Char} {choice : Choice}
    (hderives : dialect.Derives chars choice) :
    { dialect with maxDepth := dialect.maxDepth + 1 }.Derives
      ('(' :: '?' :: ':' :: (chars ++ [')'])) choice.enclosed where
  text := by
    rw [Choice.lexemes_enclosed, Lexeme.textOf_cons, Lexeme.textOf_append, hderives.text]
    rfl
  reads := by
    rw [Choice.lexemes_enclosed]
    refine .cons rfl (.append (hderives.reads.before_end (by simp) ?_) (.cons rfl .nil))
    intro next hnext
    exact .inl (Option.some.inj hnext).symm
  admits := by
    rw [Choice.lexemes_enclosed, List.map_cons, List.map_append]
    exact hderives.admits.enclosed

/-- A list of which each place is changed shows the same wherever what is shown does not depend on
    the place. -/
theorem map_mapIdx_eq_map {α β γ : Type} {change : Nat → α → β} {view : β → γ} {view' : α → γ}
    (hview : ∀ place value, view (change place value) = view' value) (values : List α) :
    (values.mapIdx change).map view = values.map view' := by
  refine List.ext_getElem? fun place => ?_
  simp only [List.getElem?_map, List.getElem?_mapIdx, Option.map_map, Function.comp_def, hview]

/-- The node with a number in a text that starts further to the left. One of the nodes, the root,
    now hangs below another one. -/
def Node.hang (offset root parent id : Nat) (node : Node) : Node :=
  { node with
    span := node.span.shift offset
    attachment := if id = root then some ⟨parent, 0⟩ else node.attachment }

/-- A finding further to the right. -/
def Diagnostic.shift (offset : Nat) (diagnostic : Diagnostic) : Diagnostic :=
  { diagnostic with span := diagnostic.span.shift offset }

namespace GroupTable

/-- A group without a number is not in the table. -/
theorem declareNode_of_nameless (table : GroupTable) (id : Nat) {node : Node}
    {name : Option String} (hlabel : node.label = .group ⟨none, name⟩) :
    table.declareNode id node = table := by
  rw [declareNode, hlabel]

/-- What is found about a node moves with the node. -/
theorem diagnose?_hang (offset root parent id : Nat) (node : Node) :
    diagnose? (node.hang offset root parent id) =
      (diagnose? node).map (Diagnostic.shift offset) := by
  obtain ⟨label, span, attachment, slots⟩ := node
  cases label with
  | backreference number resolved => cases resolved <;> rfl
  | namedBackreference name number resolved => cases resolved <;> rfl
  | _ => rfl

theorem filterMap_diagnose?_mapIdx_hang (offset root parent : Nat) (nodes : List Node) :
    (nodes.mapIdx (Node.hang offset root parent)).filterMap diagnose? =
      (nodes.filterMap diagnose?).map (Diagnostic.shift offset) := by
  calc
    (nodes.mapIdx (Node.hang offset root parent)).filterMap diagnose?
        = ((nodes.mapIdx (Node.hang offset root parent)).map diagnose?).filterMap id := by
      rw [List.filterMap_map, Function.id_comp]
    _ = (nodes.map fun node => (diagnose? node).map (Diagnostic.shift offset)).filterMap id := by
      rw [map_mapIdx_eq_map (diagnose?_hang offset root parent)]
    _ = (nodes.filterMap diagnose?).map (Diagnostic.shift offset) := by
      rw [List.filterMap_map, Function.id_comp, List.map_filterMap]

end GroupTable

namespace Pattern

/-- The pattern between the parentheses of one more group without a number and a name, which is the
    root and comes last. All other nodes keep their numbers, labels and children and lie three bytes
    further to the right, and the old root hangs below the new one. The table of groups is the
    same. -/
def enclosed (pattern : Pattern) : Pattern where
  nodes := (pattern.nodes.mapIdx (Node.hang 3 pattern.root pattern.nodes.size)).push
    { label := .group ⟨none, none⟩
      span := ⟨0, Text.utf8Size ("(?:" ++ pattern.source ++ ")").toList⟩
      attachment := none
      slots := [⟨0, pattern.root⟩] }
  groups := pattern.groups
  diagnostics := pattern.diagnostics.map (Diagnostic.shift 3)
  source := "(?:" ++ pattern.source ++ ")"
  root := pattern.nodes.size

end Pattern

namespace Tree

/-- The nodes of a tree that moves to the right and hangs below another one. -/
theorem layout_shift_attached (offset parent : Nat) (tree : Tree) :
    (tree.shift offset 0).layout 0 (some ⟨parent, 0⟩) =
      (tree.layout 0 none).mapIdx (Node.hang offset (tree.size - 1) parent) := by
  have hpos := tree.size_pos
  have hmoved := tree.layout_shift offset 0 0 0 none
  rw [Nat.add_zero, Option.map_none] at hmoved
  refine List.ext_getElem? fun id => ?_
  have hroot : id + 1 = tree.size ↔ id = tree.size - 1 := by omega
  rw [getElem?_layout, size_shift, hmoved, List.getElem?_map, Option.map_map, List.getElem?_mapIdx]
  congr 1
  funext node
  rw [Function.comp_apply, Node.shift_bytes, Node.hang]
  simp only [hroot]
  split <;> rfl

theorem layout_enclosed (stop : Nat) (tree : Tree) : (tree.enclosed stop).layout 0 none =
    (tree.layout 0 none).mapIdx (Node.hang 3 (tree.size - 1) tree.size) ++
      [{ label := .group ⟨none, none⟩, span := ⟨0, stop⟩, attachment := none
         slots := [⟨0, tree.size - 1⟩] }] := by
  simp [enclosed, layout, layouts, sizes, slots, layout_shift_attached]

end Tree

namespace Pattern

variable (tree : Tree) (stop : Nat)

/-- A group without a number changes nothing of what references find. -/
theorem groupsOf_enclosed : groupsOf (tree.enclosed stop) = groupsOf tree := by
  have hlabel : ∀ id node, (Node.hang 3 (tree.size - 1) tree.size id node).label = node.label :=
    fun _ _ => rfl
  rw [groupsOf, Tree.layout_enclosed, GroupTable.ofNodes_concat,
    GroupTable.declareNode_of_nameless _ _ rfl]
  exact GroupTable.declareNodes_congr (map_mapIdx_eq_map hlabel _) 0 {}

theorem nodes_enclosed (source : String) :
    (ofTree source (tree.enclosed stop)).nodes.toList =
      (ofTree source tree).nodes.toList.mapIdx (Node.hang 3 (tree.size - 1) tree.size) ++
        [{ label := .group ⟨none, none⟩, span := ⟨0, stop⟩, attachment := none
           slots := [⟨0, tree.size - 1⟩] }] := by
  rw [nodes_ofTree, groupsOf_enclosed, Tree.layout_enclosed, nodes_ofTree, List.map_append]
  congr 1
  refine List.ext_getElem? fun id => ?_
  simp only [List.getElem?_map, List.getElem?_mapIdx, Option.map_map]
  rfl

theorem diagnostics_enclosed (source : String) :
    (ofTree source (tree.enclosed stop)).diagnostics =
      (ofTree source tree).diagnostics.map (Diagnostic.shift 3) := by
  rw [diagnostics_ofTree, nodes_enclosed, List.filterMap_append,
    GroupTable.filterMap_diagnose?_mapIdx_hang, diagnostics_ofTree]
  exact List.append_nil _

/-- A tree below one more group makes the pattern of the tree below one more group. -/
theorem ofTree_enclosed (source : String)
    (hstop : stop = Text.utf8Size ("(?:" ++ source ++ ")").toList) :
    ofTree ("(?:" ++ source ++ ")") (tree.enclosed stop) = (ofTree source tree).enclosed := by
  have hnodes := nodes_enclosed tree stop ("(?:" ++ source ++ ")")
  refine Pattern.ext ?_ (groupsOf_enclosed tree stop) (diagnostics_enclosed ..) rfl ?_
  · refine Array.toList_inj.mp ?_
    rw [hnodes, enclosed, root_ofTree, size_nodes_ofTree, Array.toList_push, Array.toList_mapIdx,
      hstop]
    rfl
  · rw [root_ofTree, enclosed, size_nodes_ofTree]
    simp [Tree.enclosed, Tree.size, Tree.sizes]

variable {dialect : Dialect} {source : String} {pattern : Pattern} {limit : Nat}

/-- What stands between the parentheses of one more group is read as it is read alone, where as many
    groups may be open as stand in each other there and one more. -/
theorem parse_enclosed (hparse : parse dialect source = .ok pattern)
    (hlimit : ∀ path, pattern.IsPath pattern.root path → path.countP pattern.isGroup < limit) :
    parse { dialect with maxDepth := limit } ("(?:" ++ source ++ ")") = .ok pattern.enclosed := by
  obtain ⟨inner, rfl⟩ : ∃ inner, limit = inner + 1 := by
    have hroot := hlimit _ (isPath_singleton pattern pattern.root)
    exact ⟨limit - 1, by omega⟩
  have hinner := (parse_maxDepth_eq_iff hparse).mpr fun path hpath =>
    Nat.le_of_lt_succ (hlimit path hpath)
  obtain ⟨choice, hderives, rfl⟩ := parse_eq_ok_iff.mp hinner
  have htext : ("(?:" ++ source ++ ")").toList = ['(', '?', ':'] ++ (source.toList ++ [')']) := by
    simp
  have hstop : 3 + Lexeme.size choice.lexemes + 1 =
      Text.utf8Size ("(?:" ++ source ++ ")").toList := by
    rw [htext, Text.utf8Size_append, Text.utf8Size_append, ← hderives.text]
    rfl
  refine parse_eq_ok_iff.mpr ⟨choice.enclosed, htext ▸ hderives.enclosed, ?_⟩
  rw [choice.tree_enclosed, ofTree_enclosed _ _ source hstop]

/-- The last branch is empty, one reference stands before its group and another one has none. The
    group inside takes the only place that the limit leaves. -/
theorem parse_enclosed_empty_branch :
    ∃ pattern, parse {} "\\1(?<x>a|)\\2|" = .ok pattern ∧
      (∀ path, pattern.IsPath pattern.root path → path.countP pattern.isGroup < 2) ∧
      parse { maxDepth := 2 } ("(?:" ++ "\\1(?<x>a|)\\2|" ++ ")") = .ok pattern.enclosed ∧
      pattern.enclosed.root = 9 ∧
      pattern.enclosed.diagnostics.map Diagnostic.span = [⟨13, 15⟩] := by
  obtain ⟨pattern, hparse⟩ := exists_parse_eq_ok {} "\\1(?<x>a|)\\2|" (by decide +kernel)
  have hlimit : ∀ path, pattern.IsPath pattern.root path → path.countP pattern.isGroup < 2 := by
    obtain ⟨other, hother⟩ :=
      exists_parse_eq_ok { maxDepth := 1 } "\\1(?<x>a|)\\2|" (by decide +kernel)
    have hsame : (parse { maxDepth := 1 } "\\1(?<x>a|)\\2|").toOption =
        (parse {} "\\1(?<x>a|)\\2|").toOption := by
      decide +kernel
    rw [hother, hparse] at hsame
    rw [Option.some.inj hsame] at hother
    intro path hpath
    exact Nat.lt_succ_of_le ((parse_maxDepth_eq_iff hparse).mp hother path hpath)
  have hvalues : (parse {} "\\1(?<x>a|)\\2|").toOption.map (fun pattern =>
      (pattern.enclosed.root, pattern.enclosed.diagnostics.map Diagnostic.span)) =
        some (9, [⟨13, 15⟩]) := by
    decide +kernel
  rw [hparse] at hvalues
  exact ⟨pattern, hparse, hlimit, parse_enclosed hparse hlimit,
    Prod.mk.inj (Option.some.inj hvalues)⟩

end Pattern

end PatternTree
