import PatternTree.Proofs.Forest
import PatternTree.Proofs.Grammar.Either
import PatternTree.Proofs.Grammar.Names
import PatternTree.Proofs.Groups

namespace PatternTree

/-- References are settled in the same way whatever was known of them before. -/
theorem GroupTable.resolve_shift_resolve (table other : GroupTable) (label : Label)
    (numbered : Nat) : table.resolve ((other.resolve label).shift numbered) =
      table.resolve (label.shift numbered) := by
  cases label <;> rfl

namespace Label

/-- The number of a group that has a given name. -/
def numberNamed? (name : String) (entry : Label × Span) : Option Nat :=
  Node.numberNamed? name { label := entry.1, span := entry.2 }

theorem skips_numberNamed? (name : String) : Skips (numberNamed? name) where
  concatenation _ := rfl
  alternation _ := rfl
  repetition _ _ _ := rfl

theorem numberNamed?_shift (name : String) (offset numbered : Nat) (entry : Label × Span) :
    numberNamed? name (entry.1.shift numbered, entry.2.shift offset) =
      (numberNamed? name entry).map (numbered + ·) := by
  obtain ⟨label, span⟩ := entry
  cases label with
  | group opened =>
    obtain ⟨number, _ | given⟩ := opened
    · rfl
    · by_cases hname : given = name <;> simp [numberNamed?, Node.numberNamed?, shift, hname]
  | _ => rfl

theorem shift_eq_group_iff {label : Label} {numbered number : Nat} {name : Option String} :
    label.shift numbered = .group ⟨some number, name⟩ ↔
      ∃ number', label = .group ⟨some number', name⟩ ∧ number = numbered + number' := by
  cases label with
  | group opened =>
    obtain ⟨_ | given, name'⟩ := opened
    · simp [shift]
    · simp [shift, eq_comm, and_comm]
  | _ => simp [shift]

end Label

namespace Tree

variable {place : Nat} {trees : List Tree}

/-- The nodes below a root that joins branches are those of the branches. -/
theorem getElem?_layout_choice_cons_cons {first second : Tree} {others : List Tree} {id : Nat}
    (hid : id < sizes (first :: second :: others)) :
    ((choice place (first :: second :: others)).layout 0 none)[id]? =
      (layouts 0 (sizes (first :: second :: others)) 0
        (first :: second :: others))[id]? := by
  rw [choice_of_length_ne_one _ (by simp), layout, Nat.zero_add,
    List.getElem?_append_left (by rwa [length_layouts])]

/-- Below a root that joins branches stands what stands there where nothing joins them. -/
theorem getElem?_layout_choice {id : Nat} (hid : id < sizes trees)
    (hroot : id ∉ roots 0 trees) :
    ((choice place trees).layout 0 none)[id]? = (forest 0 trees)[id]? := by
  match trees with
  | [] => exact absurd hid (Nat.not_lt_zero id)
  | [tree] => rw [choice, forest_singleton]
  | first :: second :: others =>
    rw [getElem?_layout_choice_cons_cons hid]
    exact getElem?_layouts (by rwa [Nat.zero_add])

/-- A root that joins branches only tells them so. -/
theorem exists_getElem?_layout_choice (place : Nat) {id count : Nat}
    (hroot : (roots 0 trees)[count]? = some id) :
    ∃ attachment, ((choice place trees).layout 0 none)[id]? =
      ((forest 0 trees)[id]?).map fun node => { node with attachment } := by
  match trees with
  | [] => cases hroot
  | [tree] =>
    have hlast : id + 1 = tree.size := by
      have hpos := tree.size_pos
      have hid := List.mem_of_getElem? hroot
      rw [roots_singleton, List.mem_singleton] at hid
      omega
    refine ⟨none, ?_⟩
    rw [choice, forest_singleton]
    conv_lhs => rw [getElem?_layout]
    simp [hlast]
  | first :: second :: others =>
    have hbounds := of_mem_roots (List.mem_of_getElem? hroot)
    rw [Nat.zero_add] at hbounds
    refine ⟨some ⟨sizes (first :: second :: others), 0 + count⟩, ?_⟩
    rw [getElem?_layout_choice_cons_cons hbounds.2]
    exact getElem?_layouts_of_root (by rwa [Nat.zero_add])

end Tree

namespace Pattern

/-- Whether the root of a pattern joins branches. -/
def isAlternation (pattern : Pattern) : Bool :=
  (pattern.node? pattern.root).any (·.label = .alternation)

/-- The branches of a pattern: the children of its root where this joins them, or the root alone. -/
def branches (pattern : Pattern) : List Nat :=
  if pattern.isAlternation then pattern.childrenOf pattern.root else [pattern.root]

/-- How many nodes a pattern has, apart from a root that joins branches. -/
def kept (pattern : Pattern) : Nat :=
  if pattern.isAlternation then pattern.nodes.size - 1 else pattern.nodes.size

/-- A pattern has all nodes of another one apart from a root that joins branches. They come behind
    `first` others and are moved, and the branches hang below the root from an index on. What they
    refer to is looked for in the whole pattern. -/
structure TakesOver (whole part : Pattern) (first index : Nat) (move : Node → Node) : Prop where
  inner (id : Nat) (node : Node) (hid : id < part.kept) (hbranch : id ∉ part.branches)
    (hnode : part.node? id = some node) :
    whole.node? (first + id) = some (whole.groups.settle (move node))
  branch (place id : Nat) (node : Node) (hplace : part.branches[place]? = some id)
    (hnode : part.node? id = some node) :
    whole.node? (first + id) = some (whole.groups.settle
      { move node with attachment := some ⟨whole.root, index + place⟩ })

section

variable {source : String} {tree : Tree}

theorem node?_root_ofTree : (ofTree source tree).node? (ofTree source tree).root =
    some ⟨(groupsOf tree).resolve tree.label, tree.span, none, Tree.slots 0 0 tree.children⟩ := by
  cases tree with
  | node label span children =>
    have hroot := Tree.node?_of_lies (nodes_ofTree source (.node label span children)) (.whole _)
    rw [Nat.zero_add] at hroot
    rw [root_ofTree, Tree.size, Nat.add_sub_cancel, hroot]
    rfl

theorem isAlternation_ofTree : (ofTree source tree).isAlternation ↔ tree.label = .alternation := by
  rw [isAlternation, node?_root_ofTree, Option.any_some, decide_eq_true_eq]
  cases tree.label <;> simp [GroupTable.resolve]

/-- A root that joins branches is no group. -/
theorem lt_kept_of_group {id : Nat} {node : Node} {opened : Group}
    (hnode : (ofTree source tree).node? id = some node) (hlabel : node.label = .group opened) :
    id < (ofTree source tree).kept := by
  have hlt : id < (ofTree source tree).nodes.size := (Array.getElem?_eq_some_iff.mp hnode).1
  rw [kept]
  split
  next halternation =>
    have hroot : id ≠ (ofTree source tree).root := by
      rintro rfl
      rw [isAlternation, hnode, Option.any_some, hlabel] at halternation
      cases of_decide_eq_true halternation
    rw [root_ofTree] at hroot
    rw [size_nodes_ofTree] at hlt ⊢
    omega
  · exact hlt

end

section

variable {trees : List Tree} (hlabels : ∀ tree ∈ trees, tree.label ≠ .alternation)

include hlabels

/-- The branches of a tree are the roots of those that were joined. -/
theorem branches_ofTree_choice (hnone : trees ≠ []) (source : String) (place : Nat) :
    (ofTree source (.choice place trees)).branches = Tree.roots 0 trees ∧
      (ofTree source (.choice place trees)).kept = Tree.sizes trees := by
  match trees with
  | [] => exact absurd rfl hnone
  | [tree] =>
    have hlabel : ¬ (ofTree source tree).isAlternation :=
      isAlternation_ofTree.not.mpr (hlabels tree List.mem_cons_self)
    rw [Tree.choice, branches, kept, if_neg hlabel, if_neg hlabel, root_ofTree, size_nodes_ofTree]
    simp
  | first :: second :: others =>
    have hlabel : (ofTree source (.choice place (first :: second :: others))).isAlternation :=
      isAlternation_ofTree.mpr rfl
    rw [branches, kept, if_pos hlabel, if_pos hlabel, childrenOf, node?_root_ofTree,
      size_nodes_ofTree, Option.map_some, Option.getD_some]
    exact ⟨Tree.map_child_slots _ _ _, rfl⟩

/-- Where the moved branches of a pattern lie among the nodes of another one, this one takes them
    over. -/
theorem takesOver_of_lies (hnone : trees ≠ []) (source : String) (place : Nat) {text : String}
    {tree : Tree} {first index offset numbered : Nat}
    (hlies : Lies (tree.layout 0 none) first
      (Tree.layouts first (ofTree text tree).root index (Tree.shifts offset numbered trees))) :
    (ofTree text tree).TakesOver (ofTree source (.choice place trees)) first index
      (Node.shift first offset numbered) := by
  obtain ⟨hbranches, hkept⟩ := branches_ofTree_choice hlabels hnone source place
  have hroots := Tree.roots_shifts offset numbered first 0 trees
  have hforest := Tree.forest_shifts offset numbered first 0 trees
  rw [Nat.add_zero] at hroots hforest
  have hnodes : ∀ id < Tree.sizes trees, (ofTree text tree).node? (first + id) =
      ((Tree.layouts first (ofTree text tree).root index
        (Tree.shifts offset numbered trees))[id]?).map (ofTree text tree).groups.settle := by
    intro id hid
    rw [node?_ofTree, hlies.getElem? (by rwa [Tree.length_layouts, Tree.sizes_shifts])]
    rfl
  constructor
  · intro id node hid hbranch hnode
    rw [hkept] at hid
    rw [hbranches] at hbranch
    have houtside : first + id ∉ Tree.roots first (Tree.shifts offset numbered trees) := by
      rw [hroots]
      simpa using hbranch
    rw [node?_ofTree, Tree.getElem?_layout_choice hid hbranch, Option.map_eq_some_iff] at hnode
    obtain ⟨inner, hinner, rfl⟩ := hnode
    rw [hnodes id hid, Tree.getElem?_layouts houtside, hforest, List.getElem?_map, hinner]
    simp only [Option.map_some, GroupTable.settle, Node.shift, GroupTable.resolve_shift_resolve]
  · intro count id node hcount hnode
    rw [hbranches] at hcount
    have hid := (Tree.of_mem_roots (List.mem_of_getElem? hcount)).2
    rw [Nat.zero_add] at hid
    have hroot : (Tree.roots first (Tree.shifts offset numbered trees))[count]? =
        some (first + id) := by
      rw [hroots, List.getElem?_map, hcount, Option.map_some]
    obtain ⟨attachment, hlayout⟩ := Tree.exists_getElem?_layout_choice place hcount
    rw [node?_ofTree, hlayout, Option.map_map, Option.map_eq_some_iff] at hnode
    obtain ⟨inner, hinner, rfl⟩ := hnode
    rw [hnodes id hid, Tree.getElem?_layouts_of_root hroot, hforest, List.getElem?_map, hinner]
    simp only [Option.map_some, GroupTable.settle, Node.shift, Function.comp_apply,
      GroupTable.resolve_shift_resolve]

end

namespace TakesOver

variable {whole part : Pattern} {first index : Nat} {move : Node → Node}
  (htakes : whole.TakesOver part first index move)

include htakes

theorem exists_node {id : Nat} {node : Node} (hid : id < part.kept)
    (hnode : part.node? id = some node) :
    ∃ moved, whole.node? (first + id) = some moved ∧
      moved.label = whole.groups.resolve (move node).label := by
  by_cases hbranch : id ∈ part.branches
  · obtain ⟨place, hplace⟩ := List.mem_iff_getElem?.mp hbranch
    exact ⟨_, htakes.branch place id node hplace hnode, rfl⟩
  · exact ⟨_, htakes.inner id node hid hbranch hnode, rfl⟩

/-- The groups that are taken over are those of the part. -/
theorem exists_group_iff {id : Nat} (hid : id < part.kept) {opened : Group} :
    (∃ node, whole.node? (first + id) = some node ∧ node.label = .group opened) ↔
      ∃ node, part.node? id = some node ∧ (move node).label = .group opened := by
  have hlt : id < part.nodes.size := by
    rw [kept] at hid
    split at hid <;> omega
  obtain ⟨node, hnode⟩ : ∃ node, part.node? id = some node :=
    ⟨_, Array.getElem?_eq_getElem hlt⟩
  obtain ⟨moved, hmoved, hlabel⟩ := htakes.exists_node hid hnode
  have hgroup : moved.label = .group opened ↔ (move node).label = .group opened := by
    rw [hlabel]
    exact GroupTable.settle_label_eq_group_iff
  simp only [hmoved, hnode, Option.some.injEq, exists_eq_left', hgroup]

end TakesOver

/-- A pattern joins the branches of two others under a root of its own. All other nodes are those of
    the two, of which the second one comes behind the nodes, the bytes and the groups of the first
    one and behind a bar. The table has the groups of both, and references are settled in it. -/
structure Joins (whole left right : Pattern) : Prop where
  size : whole.nodes.size = left.kept + right.kept + 1
  root : whole.root = left.kept + right.kept
  rootNode : whole.node? whole.root = some
    { label := .alternation
      span := ⟨0, Text.utf8Size left.source.toList + 1 + Text.utf8Size right.source.toList⟩
      attachment := none
      slots := (left.branches ++ right.branches.map (left.kept + ·)).zipIdx.map
        fun (child, index) => ⟨index, child⟩ }
  fromLeft : whole.TakesOver left 0 0 id
  fromRight : whole.TakesOver right left.kept left.branches.length
    (Node.shift left.kept (Text.utf8Size left.source.toList + 1) left.groups.numbers.length)
  group? (number : Nat) : whole.groups.group? number =
    if number ≤ left.groups.numbers.length then left.groups.group? number
    else (right.groups.group? (number - left.groups.numbers.length)).map (left.kept + ·)
  numbersNamed (name : String) : whole.groups.numbersNamed name =
    left.groups.numbersNamed name ++
      (right.groups.numbersNamed name).map (left.groups.numbers.length + ·)

end Pattern

namespace Tree

variable (span : Span) (offset numbered : Nat) (front back : List Tree)

/-- Branches under one root, of which the later ones have been moved. -/
def joined : Tree :=
  .node .alternation span (shifts 0 0 front ++ shifts offset numbered back)

theorem size_joined : (joined span offset numbered front back).size =
    sizes front + sizes back + 1 := by
  rw [joined, size, sizes_append, sizes_shifts, sizes_shifts]

theorem layout_joined : (joined span offset numbered front back).layout 0 none =
    layouts 0 (sizes front + sizes back) 0 (shifts 0 0 front) ++
      layouts (sizes front) (sizes front + sizes back) front.length
        (shifts offset numbered back) ++
      [{ label := .alternation, span, attachment := none
         slots := slots 0 0 (shifts 0 0 front ++ shifts offset numbered back) }] := by
  have hlength : (shifts 0 0 front).length = front.length := by
    rw [shifts_eq_map, List.length_map]
  rw [joined, layout, layouts_append, sizes_append, sizes_shifts, sizes_shifts, hlength]
  simp only [Nat.zero_add]

/-- The branches lie one after the other. -/
theorem lies_joined :
    Lies ((joined span offset numbered front back).layout 0 none) 0
      (layouts 0 (sizes front + sizes back) 0 (shifts 0 0 front)) ∧
    Lies ((joined span offset numbered front back).layout 0 none) (sizes front)
      (layouts (sizes front) (sizes front + sizes back) front.length
        (shifts offset numbered back)) := by
  have hbranches : Lies ((joined span offset numbered front back).layout 0 none) 0
      (layouts 0 (sizes front + sizes back) 0 (shifts 0 0 front) ++
        layouts (sizes front) (sizes front + sizes back) front.length
          (shifts offset numbered back)) :=
    ⟨[], _, layout_joined span offset numbered front back, rfl⟩
  have hright := hbranches.right
  rw [length_layouts, sizes_shifts, Nat.zero_add] at hright
  exact ⟨hbranches.left, hright⟩

theorem roots_joined : roots 0 (shifts 0 0 front ++ shifts offset numbered back) =
    roots 0 front ++ (roots 0 back).map (sizes front + ·) := by
  rw [roots_append, sizes_shifts, ← roots_shifts offset numbered (sizes front) 0,
    roots_shifts 0 0 0 0 front]
  simp

end Tree

namespace Pattern

section

variable {front back : List Tree} (hfront : front ≠ []) (hback : back ≠ [])
  (hlabels : ∀ tree ∈ front, tree.label ≠ .alternation)
  (hlabels' : ∀ tree ∈ back, tree.label ≠ .alternation)
  (text source : String) (place : Nat) (span : Span) (offset numbered : Nat)

theorem root_ofTree_joined : (ofTree text (.joined span offset numbered front back)).root =
    Tree.sizes front + Tree.sizes back := by
  rw [root_ofTree, Tree.size_joined, Nat.add_sub_cancel]

include hfront hlabels in
theorem takesOver_joined_front :
    (ofTree text (.joined span offset numbered front back)).TakesOver
      (ofTree source (.choice place front)) 0 0 id := by
  have hlies := (Tree.lies_joined span offset numbered front back).1
  rw [← root_ofTree_joined text span offset numbered] at hlies
  have hmove : Node.shift 0 0 0 = id := funext Node.shift_zero
  exact hmove ▸ takesOver_of_lies hlabels hfront source place hlies

include hback hlabels' in
theorem takesOver_joined_back :
    (ofTree text (.joined span offset numbered front back)).TakesOver
      (ofTree source (.choice place back)) (Tree.sizes front) front.length
        (Node.shift (Tree.sizes front) offset numbered) := by
  have hlies := (Tree.lies_joined span offset numbered front back).2
  rw [← root_ofTree_joined text span offset numbered] at hlies
  exact takesOver_of_lies hlabels' hback source place hlies

end

/-- A name has the numbers of the groups that have it, in the order in which they close. -/
theorem numbersNamed_ofTree (source : String) (tree : Tree) (name : String) :
    (ofTree source tree).groups.numbersNamed name =
      tree.entries.filterMap (Label.numberNamed? name) := by
  have htable : (ofTree source tree).groups.numbersNamed name = _ :=
    GroupTable.numbersNamed_ofNodes (tree.layout 0 none) name
  rw [htable, ← Tree.map_layout 0 none, List.filterMap_map]
  rfl

theorem numbersNamed_joined (text source source' : String) (place place' : Nat) (span : Span)
    (offset numbered : Nat) (front back : List Tree) (name : String) :
    (ofTree text (.joined span offset numbered front back)).groups.numbersNamed name =
      (ofTree source (.choice place front)).groups.numbersNamed name ++
        ((ofTree source' (.choice place' back)).groups.numbersNamed name).map (numbered + ·) := by
  have hskips := Label.skips_numberNamed? name
  have hmoved : ∀ offset numbered trees,
      (Tree.entriesIn (Tree.shifts offset numbered trees)).filterMap (Label.numberNamed? name) =
        ((Tree.entriesIn trees).filterMap (Label.numberNamed? name)).map (numbered + ·) := by
    intro offset numbered trees
    rw [Tree.entriesIn_shifts, List.filterMap_map, List.map_filterMap]
    congr
    funext entry
    exact Label.numberNamed?_shift name offset numbered entry
  simp only [numbersNamed_ofTree, Tree.filterMap_entries_choice hskips]
  rw [Tree.joined, Tree.entries, List.filterMap_append, Tree.entriesIn_append,
    List.filterMap_append, hmoved, hmoved]
  simp [hskips.alternation]

section

variable {text source source' : String} {place place' : Nat} {span : Span} {offset numbered : Nat}
  {front back : List Tree} (hfront : front ≠ []) (hback : back ≠ [])
  (hlabels : ∀ tree ∈ front, tree.label ≠ .alternation)
  (hlabels' : ∀ tree ∈ back, tree.label ≠ .alternation)

include hfront hback hlabels hlabels'

/-- The groups of a joined pattern are those of the first part and, with later numbers, those of the
    second one. -/
theorem exists_group_joined_iff {other number : Nat} :
    (∃ node name, (ofTree text (.joined span offset numbered front back)).node? other = some node ∧
        node.label = .group ⟨some number, name⟩) ↔
      (∃ node name, (ofTree source (.choice place front)).node? other = some node ∧
        node.label = .group ⟨some number, name⟩) ∨
      ∃ inner number', other = Tree.sizes front + inner ∧ number = numbered + number' ∧
        ∃ node name, (ofTree source' (.choice place' back)).node? inner = some node ∧
          node.label = .group ⟨some number', name⟩ := by
  have hleft : (ofTree text (.joined span offset numbered front back)).TakesOver
      (ofTree source (.choice place front)) 0 0 id := takesOver_joined_front hfront hlabels ..
  have hright : (ofTree text (.joined span offset numbered front back)).TakesOver
      (ofTree source' (.choice place' back)) (Tree.sizes front) front.length
        (Node.shift (Tree.sizes front) offset numbered) :=
    takesOver_joined_back hback hlabels' ..
  have hkept := (branches_ofTree_choice hlabels hfront source place).2
  have hkept' := (branches_ofTree_choice hlabels' hback source' place').2
  constructor
  · rintro ⟨node, name, hnode, hlabel⟩
    have hjoined : (ofTree text (.joined span offset numbered front back)).isAlternation :=
      isAlternation_ofTree.mpr rfl
    have hother := lt_kept_of_group hnode hlabel
    rw [kept, if_pos hjoined, size_nodes_ofTree, Tree.size_joined] at hother
    by_cases hlt : other < Tree.sizes front
    · rw [← Nat.zero_add other] at hnode
      obtain ⟨node', hgroup⟩ := (hleft.exists_group_iff (hkept ▸ hlt)).mp ⟨node, hnode, hlabel⟩
      exact .inl ⟨node', name, hgroup⟩
    · obtain ⟨inner, rfl⟩ := Nat.exists_eq_add_of_le (Nat.le_of_not_lt hlt)
      have hinner : inner < (ofTree source' (.choice place' back)).kept := by omega
      obtain ⟨node', hnode', hlabel'⟩ := (hright.exists_group_iff hinner).mp ⟨node, hnode, hlabel⟩
      obtain ⟨number', hgroup, rfl⟩ := Label.shift_eq_group_iff.mp hlabel'
      exact .inr ⟨inner, number', rfl, rfl, node', name, hnode', hgroup⟩
  · rintro (⟨node, name, hnode, hlabel⟩ | ⟨inner, number', rfl, rfl, node, name, hnode, hlabel⟩)
    · obtain ⟨node', hnode', hlabel'⟩ :=
        (hleft.exists_group_iff (lt_kept_of_group hnode hlabel)).mpr ⟨node, hnode, hlabel⟩
      rw [Nat.zero_add] at hnode'
      exact ⟨node', name, hnode', hlabel'⟩
    · obtain ⟨node', hgroup⟩ := (hright.exists_group_iff (lt_kept_of_group hnode hlabel)).mpr
        ⟨node, hnode, Label.shift_eq_group_iff.mpr ⟨number', hlabel, rfl⟩⟩
      exact ⟨node', name, hgroup⟩

end

end Pattern

/-- The tree of two choices with a bar between them has the branches of both. -/
theorem Choice.tree_either (left right : Choice) : (left.either right).tree 0 0 =
    .joined ⟨0, Lexeme.size left.lexemes + 1 + Lexeme.size right.lexemes⟩
      (Lexeme.size left.lexemes + 1) (Lexeme.numbered left.lexemes) (left.branchTrees 0 0)
      (right.branchTrees 0 0) := by
  have hleft := left.branchTrees_shift 0 0 0 0
  have hright := right.branchTrees_shift 0 0 (Lexeme.size left.lexemes + 1)
    (Lexeme.numbered left.lexemes)
  have htrees := branchTrees_either 0 0 left right
  have hspan := (left.either right).span_tree 0 0
  have hlength := List.length_pos_iff.mpr (left.branchTrees_ne_nil 0 0)
  have hlength' := List.length_pos_iff.mpr (right.branchTrees_ne_nil 0 0)
  simp only [Nat.zero_add, Nat.add_zero] at hleft hright htrees hspan
  rw [hleft, hright] at htrees
  have hcount : ((left.either right).branchTrees 0 0).length ≠ 1 := by
    rw [htrees, List.length_append, Tree.shifts_eq_map, Tree.shifts_eq_map, List.length_map,
      List.length_map]
    omega
  rw [tree_eq_choice, Tree.choice_of_length_ne_one _ hcount] at hspan ⊢
  rw [Tree.joined, ← htrees]
  congr 1
  refine Eq.trans hspan ?_
  rw [lexemes_either, Lexeme.size_append, Lexeme.size_cons, Phrase.utf8Size_text_bar, Nat.add_assoc]

namespace Pattern

theorem numbers_ofTree (source : String) (choice : Choice) :
    (ofTree source (choice.tree 0 0)).groups.numbers =
      List.range' 1 (Lexeme.numbered choice.lexemes) :=
  GroupTable.numbers_ofNodes (choice.perm_groupNumbers 0 0 0 none)

theorem branches_ofTree (source : String) (choice : Choice) :
    (ofTree source (choice.tree 0 0)).branches = Tree.roots 0 (choice.branchTrees 0 0) ∧
      (ofTree source (choice.tree 0 0)).kept = Tree.sizes (choice.branchTrees 0 0) := by
  rw [choice.tree_eq_choice]
  exact branches_ofTree_choice (choice.label_ne_alternation_of_mem_branchTrees 0 0)
    (choice.branchTrees_ne_nil 0 0) source _

/-- The numbers of groups are those from one on up to their count. -/
theorem le_of_group?_eq_some {source : String} {choice : Choice} {number id : Nat}
    (hgroup : (ofTree source (choice.tree 0 0)).groups.group? number = some id) :
    1 ≤ number ∧ number ≤ Lexeme.numbered choice.lexemes := by
  have hmem := GroupTable.mem_numbers_iff.mpr (Option.isSome_of_eq_some hgroup)
  rw [numbers_ofTree, List.mem_range'_1] at hmem
  omega

section

variable (left right : Choice) (text source source' : String)

theorem group?_either (number : Nat) :
    (ofTree text ((left.either right).tree 0 0)).groups.group? number =
      if number ≤ Lexeme.numbered left.lexemes then
        (ofTree source (left.tree 0 0)).groups.group? number
      else ((ofTree source' (right.tree 0 0)).groups.group?
        (number - Lexeme.numbered left.lexemes)).map
          ((ofTree source (left.tree 0 0)).kept + ·) := by
  have hlabels := left.label_ne_alternation_of_mem_branchTrees 0 0
  have hlabels' := right.label_ne_alternation_of_mem_branchTrees 0 0
  have hkept := (branches_ofTree source left).2
  have hgroup : ∀ id, (ofTree text ((left.either right).tree 0 0)).groups.group? number = some id ↔
      (ofTree source (left.tree 0 0)).groups.group? number = some id ∨
        ∃ inner number', id = Tree.sizes (left.branchTrees 0 0) + inner ∧
          number = Lexeme.numbered left.lexemes + number' ∧
          (ofTree source' (right.tree 0 0)).groups.group? number' = some inner := by
    intro id
    rw [group?_ofTree ((left.either right).nodup_groupNumbers 0 0 0 none),
      group?_ofTree (left.nodup_groupNumbers 0 0 0 none), left.tree_either]
    simp only [group?_ofTree (right.nodup_groupNumbers 0 0 0 none)]
    rw [left.tree_eq_choice, right.tree_eq_choice]
    exact exists_group_joined_iff (left.branchTrees_ne_nil 0 0) (right.branchTrees_ne_nil 0 0)
      hlabels hlabels'
  refine Option.ext fun id => ?_
  rw [hgroup]
  split
  next hle =>
    refine or_iff_left ?_
    rintro ⟨inner, number', -, rfl, hinner⟩
    have hbounds := le_of_group?_eq_some hinner
    omega
  next hgt =>
    rw [Option.map_eq_some_iff, hkept]
    constructor
    · rintro (hleft | ⟨inner, number', rfl, rfl, hinner⟩)
      · exact absurd (le_of_group?_eq_some hleft).2 hgt
      · exact ⟨inner, by rwa [Nat.add_sub_cancel_left], rfl⟩
    · rintro ⟨inner, hinner, rfl⟩
      exact .inr ⟨inner, _, rfl, by omega, hinner⟩

/-- The choice between the branches of two others joins what is read of these. -/
theorem joins_either (hleft : Lexeme.textOf left.lexemes = source.toList)
    (hright : Lexeme.textOf right.lexemes = source'.toList) :
    (ofTree text ((left.either right).tree 0 0)).Joins (ofTree source (left.tree 0 0))
      (ofTree source' (right.tree 0 0)) := by
  have hlabels := left.label_ne_alternation_of_mem_branchTrees 0 0
  have hlabels' := right.label_ne_alternation_of_mem_branchTrees 0 0
  have hnone := left.branchTrees_ne_nil 0 0
  have hnone' := right.branchTrees_ne_nil 0 0
  obtain ⟨hbranches, hkept⟩ := branches_ofTree source left
  obtain ⟨hbranches', hkept'⟩ := branches_ofTree source' right
  have hcount := congrArg List.length (numbers_ofTree source left)
  rw [List.length_range'] at hcount
  have hsize : Text.utf8Size source.toList = Lexeme.size left.lexemes := by rw [← hleft]; rfl
  have hsize' : Text.utf8Size source'.toList = Lexeme.size right.lexemes := by rw [← hright]; rfl
  constructor
  · rw [hkept, hkept', left.tree_either, size_nodes_ofTree, Tree.size_joined]
  · rw [hkept, hkept', left.tree_either, root_ofTree_joined]
  · have hslots := Tree.slots_eq_map_roots 0 0 (Tree.shifts 0 0 (left.branchTrees 0 0) ++
      Tree.shifts (Lexeme.size left.lexemes + 1) (Lexeme.numbered left.lexemes)
        (right.branchTrees 0 0))
    rw [Tree.roots_joined] at hslots
    rw [node?_root_ofTree, left.tree_either, hbranches, hbranches', hkept, source_ofTree,
      source_ofTree, hsize, hsize', ← hslots]
    rfl
  · rw [left.tree_either, left.tree_eq_choice]
    exact takesOver_joined_front hnone hlabels ..
  · rw [hkept, hbranches, Tree.length_roots, hcount, source_ofTree, hsize, left.tree_either,
      right.tree_eq_choice]
    exact takesOver_joined_back hnone' hlabels' ..
  · rw [hcount]
    exact group?_either left right text source source'
  · intro name
    rw [hcount, left.tree_either, left.tree_eq_choice, right.tree_eq_choice]
    exact numbersNamed_joined ..

end

variable {dialect : Dialect} {left right : String} {pattern pattern' : Pattern}

/-- Two patterns with a bar between them are read wherever both of them are and no name of one comes
    back in the other, unless names may. What is read joins the branches of both. -/
theorem parse_alternation (hleft : parse dialect left = .ok pattern)
    (hright : parse dialect right = .ok pattern')
    (hnames : dialect.allowDuplicateNames = false → ∀ name,
      pattern.groups.numbersNamed name ≠ [] → pattern'.groups.numbersNamed name = []) :
    ∃ whole, parse dialect (left ++ "|" ++ right) = .ok whole ∧ whole.Joins pattern pattern' := by
  obtain ⟨choice, hderives, rfl⟩ := parse_eq_ok_iff.mp hleft
  obtain ⟨choice', hderives', rfl⟩ := parse_eq_ok_iff.mp hright
  have hboth := hderives.either hderives' fun hallow name hname hname' =>
    numbersNamed_ne_nil_iff.mpr hname' (hnames hallow name (numbersNamed_ne_nil_iff.mpr hname))
  have htext : (left ++ "|" ++ right).toList = left.toList ++ '|' :: right.toList := by simp
  rw [← htext] at hboth
  exact ⟨_, parse_eq_ok_iff.mpr ⟨_, hboth, rfl⟩,
    joins_either choice choice' _ _ _ hderives.text hderives'.text⟩

/-- Both patterns join branches. The second one refers to a group that it gets by the first one and
    to another one that the first one has. -/
theorem parse_alternation_of_alternations :
    ∃ pattern pattern' whole, parse {} "a|(?<x>b)" = .ok pattern ∧
      parse {} "\\2|(c)\\k<x>" = .ok pattern' ∧ pattern'.branches = [0, 4] ∧
      (∀ name, pattern.groups.numbersNamed name ≠ [] → pattern'.groups.numbersNamed name = []) ∧
      parse {} ("a|(?<x>b)" ++ "|" ++ "\\2|(c)\\k<x>") = .ok whole ∧
      whole.Joins pattern pattern' ∧ whole.groups.group? 2 = some 5 ∧
      (whole.node? 3).map Node.label = some (.backreference 2 true) ∧
      (whole.node? 6).map Node.label = some (.namedBackreference "x" (some 1) true) := by
  obtain ⟨pattern, hleft⟩ := exists_parse_eq_ok {} "a|(?<x>b)" (by decide +kernel)
  obtain ⟨pattern', hright⟩ := exists_parse_eq_ok {} "\\2|(c)\\k<x>" (by decide +kernel)
  have hvalues : (parse {} "\\2|(c)\\k<x>").toOption.map
      (fun pattern' => (pattern'.branches, pattern'.groups.byName)) = some ([0, 4], []) := by
    decide +kernel
  have hvalues' : (parse {} ("a|(?<x>b)" ++ "|" ++ "\\2|(c)\\k<x>")).toOption.map
      (fun whole => (whole.groups.group? 2, (whole.node? 3).map Node.label,
        (whole.node? 6).map Node.label)) = some (some 5, some (.backreference 2 true),
          some (.namedBackreference "x" (some 1) true)) := by
    decide +kernel
  rw [hright] at hvalues
  obtain ⟨hbranches, hnameless⟩ := Prod.mk.inj (Option.some.inj hvalues)
  have hnames : ∀ name, pattern.groups.numbersNamed name ≠ [] →
      pattern'.groups.numbersNamed name = [] := by
    intro name _
    rw [GroupTable.numbersNamed, hnameless]
    rfl
  obtain ⟨whole, hwhole, hjoins⟩ := parse_alternation hleft hright fun _ => hnames
  rw [hwhole] at hvalues'
  obtain ⟨hgroup, hlabels⟩ := Prod.mk.inj (Option.some.inj hvalues')
  obtain ⟨hlabel, hlabel'⟩ := Prod.mk.inj hlabels
  exact ⟨pattern, pattern', whole, hleft, hright, hbranches, hnames, hwhole, hjoins, hgroup, hlabel,
    hlabel'⟩

end Pattern

end PatternTree
