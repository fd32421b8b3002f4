import PatternTree.Proofs.GroupTable
import PatternTree.Proofs.Layout

namespace PatternTree

namespace Tree

/-- The nodes of trees that nothing joins, numbered one after the other from `first` on. -/
def forest (first : Nat) : List Tree → List Node
  | [] => []
  | tree :: trees => tree.layout first none ++ forest (first + tree.size) trees

/-- The numbers of the roots of such trees. -/
def roots (first : Nat) : List Tree → List Nat
  | [] => []
  | tree :: trees => (first + tree.size - 1) :: roots (first + tree.size) trees

@[simp] theorem sizes_append (front back : List Tree) :
    sizes (front ++ back) = sizes front + sizes back := by
  induction front with
  | nil => simp [sizes]
  | cons tree front ih => simp [sizes, ih, Nat.add_assoc]

@[simp] theorem sizes_singleton (tree : Tree) : sizes [tree] = tree.size := by
  simp [sizes]

theorem forest_append (first : Nat) (front back : List Tree) :
    forest first (front ++ back) = forest first front ++ forest (first + sizes front) back := by
  induction front generalizing first with
  | nil => simp [forest, sizes]
  | cons tree front ih => simp [forest, sizes, ih, Nat.add_assoc]

theorem roots_append (first : Nat) (front back : List Tree) :
    roots first (front ++ back) = roots first front ++ roots (first + sizes front) back := by
  induction front generalizing first with
  | nil => simp [roots, sizes]
  | cons tree front ih => simp [roots, sizes, ih, Nat.add_assoc]

@[simp] theorem forest_singleton (first : Nat) (tree : Tree) :
    forest first [tree] = tree.layout first none := by
  simp [forest]

@[simp] theorem roots_singleton (first : Nat) (tree : Tree) :
    roots first [tree] = [first + tree.size - 1] := rfl

@[simp] theorem length_forest (first : Nat) (trees : List Tree) :
    (forest first trees).length = sizes trees := by
  induction trees generalizing first with
  | nil => rfl
  | cons tree trees ih => simp [forest, sizes, ih, length_layout]

theorem map_forest (first : Nat) (trees : List Tree) :
    (forest first trees).map (fun node => (node.label, node.span)) = entriesIn trees := by
  induction trees generalizing first with
  | nil => rfl
  | cons tree trees ih => rw [forest, List.map_append, map_layout, ih, entriesIn]

/-- The nodes of a tree below its root. What the tree hangs below does not matter to them. -/
def inner (first : Nat) (tree : Tree) : List Node :=
  layouts first (first + sizes tree.children) 0 tree.children

/-- The root of a tree. -/
def top (first : Nat) (attachment : Option Attachment) (tree : Tree) : Node :=
  { label := tree.label, span := tree.span, attachment, slots := slots first 0 tree.children }

@[simp] theorem span_top (first : Nat) (attachment : Option Attachment) (tree : Tree) :
    (tree.top first attachment).span = tree.span := rfl

theorem layout_eq (first : Nat) (attachment : Option Attachment) (tree : Tree) :
    tree.layout first attachment = tree.inner first ++ [tree.top first attachment] := by
  cases tree
  rfl

theorem length_inner (first : Nat) (tree : Tree) : (tree.inner first).length = tree.size - 1 := by
  have hlength := tree.length_layout first none
  rw [layout_eq, List.length_append, List.length_singleton] at hlength
  omega

end Tree

namespace Draft

/-- Makes nodes the children of one node, from left to right. -/
def attachAll? (parent : Nat) : List Nat → Draft → Option Draft
  | [], draft => some draft
  | child :: children, draft =>
    (draft.attach? parent child).bind fun attached => attached.1.attachAll? parent children

/-- Adds a node around nodes that exist. -/
def join? (label : Label) (span : Span) (children : List Nat) (draft : Draft) :
    Option (Draft × Nat) :=
  let (pushed, id) := draft.push label span
  (pushed.attachAll? id children).map (·, id)

variable {draft : Draft}

private theorem modify_length {front back : List Node} {node : Node} (change : Node → Node) :
    (front ++ node :: back).modify front.length change = front ++ change node :: back := by
  induction front with
  | nil => rfl
  | cons first front ih => simp [ih]

/-- The last node becomes the parent of one before it. -/
theorem attach?_eq {front between : List Node} {child parent : Node}
    (hnodes : draft.nodes.toList = front ++ child :: (between ++ [parent])) :
    draft.attach? (front.length + (between.length + 1)) front.length =
      some ({ draft with
        nodes := (front ++
          { child with
            attachment := some ⟨front.length + (between.length + 1), parent.slots.length⟩ } ::
          (between ++ [parent.addSlot ⟨parent.slots.length, front.length⟩])).toArray },
        parent.slots.length) := by
  have hsize : draft.nodes.size = front.length + (between.length + 2) := by
    rw [← Array.length_toList, hnodes]
    simp
  have hparent : draft.nodes[front.length + (between.length + 1)]? = some parent := by
    rw [← Array.getElem?_toList, hnodes]
    simp
  have hsplit : front ++ child :: (between ++ [parent]) =
      (front ++ child :: between) ++ parent :: [] := by simp
  have hlength : (front ++ child :: between).length = front.length + (between.length + 1) := by
    simp
  rw [attach?, hparent]
  simp only [attachAt?]
  rw [if_pos (by rw [hsize]; simp), Option.map_some]
  congr 3
  apply Array.ext'
  rw [Array.toList_modify, Array.toList_modify, hnodes, ← hlength, hsplit, modify_length]
  simp only [List.append_assoc, List.cons_append, modify_length, List.length_append,
    List.length_cons]

/-- The last node becomes the parent of all trees before it. -/
theorem attachAll?_eq {front : List Node} {node : Node} (trees : List Tree)
    (hnodes : draft.nodes.toList = front ++ (Tree.forest front.length trees ++ [node])) :
    draft.attachAll? (front.length + Tree.sizes trees) (Tree.roots front.length trees) =
      some { draft with
        nodes := (front ++ (Tree.layouts front.length (front.length + Tree.sizes trees)
          node.slots.length trees ++ [{ node with
            slots := node.slots ++
              Tree.slots front.length node.slots.length trees }])).toArray } := by
  induction trees generalizing draft front node with
  | nil =>
    have hdraft : draft.nodes = (front ++ [node]).toArray := by
      apply Array.ext'
      simpa [Tree.forest] using hnodes
    simp [attachAll?, Tree.roots, Tree.layouts, Tree.slots, ← hdraft]
  | cons tree trees ih =>
    have hsize := tree.size_pos
    have hroot : (front ++ tree.inner front.length).length = front.length + tree.size - 1 := by
      rw [List.length_append, Tree.length_inner]
      omega
    have hparent : front.length + Tree.sizes (tree :: trees) =
        (front ++ tree.inner front.length).length +
          ((Tree.forest (front.length + tree.size) trees).length + 1) := by
      rw [hroot, Tree.length_forest, Tree.sizes]
      omega
    have hnodes' : draft.nodes.toList = (front ++ tree.inner front.length) ++
        tree.top front.length none :: (Tree.forest (front.length + tree.size) trees ++ [node]) := by
      rw [hnodes, Tree.forest, Tree.layout_eq]
      simp
    -- With its root attached the first tree is a finished block in front of the others.
    have hattached := attach?_eq hnodes'
    rw [← hparent, hroot] at hattached
    simp only [Tree.roots, attachAll?, hattached, Option.bind_some]
    generalize hlayout : tree.layout front.length
      (some ⟨front.length + Tree.sizes (tree :: trees), node.slots.length⟩) = block
    have hlength : (front ++ block).length = front.length + tree.size := by
      rw [List.length_append, ← hlayout, Tree.length_layout]
    have hparent' : front.length + Tree.sizes (tree :: trees) =
        (front ++ block).length + Tree.sizes trees := by
      rw [hlength, Tree.sizes, Nat.add_assoc]
    rw [hparent', ← hlength, @ih _ (front ++ block)
      (node.addSlot ⟨node.slots.length, front.length + tree.size - 1⟩)]
    · rw [← hparent', hlength, Tree.layouts, Tree.slots, hlayout]
      simp [Node.addSlot]
    · rw [hlength, ← hlayout, Tree.layout_eq]
      simp [Tree.top, Tree.sizes, Nat.add_assoc]

/-- The draft of trees that nothing joins. -/
def ofForest (trees : List Tree) : Draft where
  nodes := (Tree.forest 0 trees).toArray
  groups := .ofNodes (Tree.forest 0 trees)

/-- The last trees get a node around them. Groups are not declared by that. -/
theorem join?_ofForest (label : Label) (span : Span) (front trees : List Tree) :
    (ofForest (front ++ trees)).join? label span (Tree.roots (Tree.sizes front) trees) =
      some ({ ofForest (front ++ [.node label span trees]) with
        groups := .ofNodes (Tree.forest 0 (front ++ trees)) },
        Tree.sizes front + Tree.sizes trees) := by
  have hlength := Tree.length_forest 0 front
  have hpushed : ((ofForest (front ++ trees)).push label span).1.nodes.toList =
      Tree.forest 0 front ++
        (Tree.forest (Tree.forest 0 front).length trees ++ [⟨label, span, none, []⟩]) := by
    simp [push, ofForest, Tree.forest_append]
  have hattached := attachAll?_eq trees hpushed
  rw [hlength] at hattached
  have hid : ((ofForest (front ++ trees)).push label span).2 =
      Tree.sizes front + Tree.sizes trees := by
    simp [push, ofForest]
  rw [join?]
  simp only [hid, hattached, Option.map_some]
  simp [push, ofForest, Tree.forest_append, Tree.layout]

/-- The root of the last tree comes last. -/
theorem getElem?_ofForest (front : List Tree) (tree : Tree) :
    (ofForest (front ++ [tree])).nodes[Tree.sizes front + tree.size - 1]? =
      some (tree.top (Tree.sizes front) none) := by
  have hsize := tree.size_pos
  have hlength : (Tree.forest 0 front ++ tree.inner (Tree.sizes front)).length =
      Tree.sizes front + tree.size - 1 := by
    rw [List.length_append, Tree.length_forest, Tree.length_inner]
    omega
  rw [← Array.getElem?_toList, ← hlength, ofForest, Tree.forest_append, Nat.zero_add,
    Tree.forest_singleton, Tree.layout_eq, ← List.append_assoc]
  exact List.getElem?_concat_length

/-- The table of a forest goes by its labels only, to which joining trees adds one. -/
theorem groups_ofForest (label : Label) (span : Span) (front trees : List Tree) :
    (ofForest (front ++ [.node label span trees])).groups =
      (ofForest (front ++ trees)).groups.declareNode (Tree.sizes front + Tree.sizes trees)
        ⟨label, span, none, []⟩ := by
  have hentries : (Tree.forest 0 (front ++ [.node label span trees])).map
        (fun node => (node.label, node.span)) =
      (Tree.forest 0 (front ++ trees) ++ [Node.mk label span none []]).map
        (fun node => (node.label, node.span)) := by
    simp [Tree.map_forest, Tree.entriesIn_append, Tree.entriesIn, Tree.entries]
  have hlabels := congrArg (List.map Prod.fst) hentries
  simp only [List.map_map, Function.comp_def] at hlabels
  have hlength : (Tree.forest 0 (front ++ trees)).length = Tree.sizes front + Tree.sizes trees := by
    simp
  simp only [ofForest]
  rw [GroupTable.ofNodes_eq_declareNodes, GroupTable.declareNodes_congr hlabels,
    ← GroupTable.ofNodes_eq_declareNodes, GroupTable.ofNodes_concat, hlength]

theorem join?_ofForest_of_ne_group {label : Label} (hlabel : ∀ opened, label ≠ .group opened)
    (span : Span) (front trees : List Tree) :
    (ofForest (front ++ trees)).join? label span (Tree.roots (Tree.sizes front) trees) =
      some (ofForest (front ++ [.node label span trees]),
        Tree.sizes front + Tree.sizes trees) := by
  have hgroups := groups_ofForest label span front trees
  rw [GroupTable.declareNode_of_ne_group _ _ hlabel] at hgroups
  rw [join?_ofForest]
  simp only [ofForest] at hgroups ⊢
  rw [hgroups]

theorem push_ofForest {label : Label} (hlabel : ∀ opened, label ≠ .group opened) (span : Span)
    (trees : List Tree) :
    (ofForest trees).push label span =
      (ofForest (trees ++ [.leaf label span]), Tree.sizes trees) := by
  have hjoin := join?_ofForest_of_ne_group hlabel span trees []
  rw [List.append_nil] at hjoin
  exact Option.some.inj hjoin

/-- Adds the node of a group around its body, and declares it when it has a number. -/
def joinGroup? (opened : Group) (span : Span) (body : Nat) (draft : Draft) :
    Option (Draft × Nat) :=
  (draft.join? (.group opened) span [body]).map fun (joined, id) =>
    match opened.number with
    | none => (joined, id)
    | some number => (joined.declareGroup number id opened.name, id)

theorem joinGroup?_ofForest (opened : Group) (span : Span) (front : List Tree) (body : Tree) :
    (ofForest (front ++ [body])).joinGroup? opened span (Tree.sizes front + body.size - 1) =
      some (ofForest (front ++ [.node (.group opened) span [body]]),
        Tree.sizes front + body.size) := by
  have hjoin := join?_ofForest (.group opened) span front [body]
  rw [Tree.roots_singleton, Tree.sizes_singleton] at hjoin
  have hgroups := groups_ofForest (.group opened) span front [body]
  rw [Tree.sizes_singleton] at hgroups
  obtain ⟨number, name⟩ := opened
  simp only [ofForest] at hgroups
  rw [joinGroup?, hjoin, Option.map_some]
  cases number with
  | none => simp only [ofForest, hgroups, GroupTable.declareNode]
  | some number => simp only [declareGroup, ofForest, hgroups, GroupTable.declareNode]

/-- Settles the reference at a node when it is one, and reports one without a group. -/
def settle? (id : Nat) (draft : Draft) : Option Draft :=
  (draft.nodes[id]?).bind fun node =>
    (draft.setLabel? id (draft.groups.resolve node.label)).map fun settled =>
      match GroupTable.diagnose? (draft.groups.settle node) with
      | none => settled.1
      | some diagnostic => settled.1.diagnose diagnostic

/-- Settles the references at nodes one after the other. -/
def settleAll? (ids : List Nat) (draft : Draft) : Option Draft :=
  ids.foldlM (fun draft id => draft.settle? id) draft

theorem settleAll?_eq {front : List Node} (later : List Node)
    (hnodes : draft.nodes.toList = front ++ later) :
    draft.settleAll? (List.range' front.length later.length) =
      some { draft with
        nodes := (front ++ later.map draft.groups.settle).toArray
        diagnostics := draft.diagnostics ++
          (later.map draft.groups.settle).filterMap GroupTable.diagnose? } := by
  induction later generalizing draft front with
  | nil =>
    have hdraft : draft.nodes = front.toArray := by
      apply Array.ext'
      simpa using hnodes
    simp [settleAll?, ← hdraft]
  | cons node later ih =>
    have hnode : draft.nodes[front.length]? = some node := by
      rw [← Array.getElem?_toList, hnodes]
      simp
    have hsettle : draft.settle? front.length = some { draft with
        nodes := ((front ++ [draft.groups.settle node]) ++ later).toArray
        diagnostics := draft.diagnostics ++
          (GroupTable.diagnose? (draft.groups.settle node)).toList } := by
      have hmodify : draft.nodes.modify front.length
          (fun node' => { node' with label := draft.groups.resolve node.label }) =
            ((front ++ [draft.groups.settle node]) ++ later).toArray := by
        apply Array.ext'
        rw [Array.toList_modify, hnodes, modify_length]
        simp [GroupTable.settle]
      simp only [settle?, setLabel?, hnode, Option.bind_some, Option.map_some, hmodify]
      cases GroupTable.diagnose? (draft.groups.settle node) <;> simp [diagnose]
    have hlength : (front ++ [draft.groups.settle node]).length = front.length + 1 := by simp
    rw [List.length_cons, List.range'_succ, settleAll?, List.foldlM_cons, hsettle, ← hlength]
    refine (ih (by simp)).trans ?_
    cases hfinding : GroupTable.diagnose? (draft.groups.settle node) <;> simp [hfinding]

/-- When all references of a tree are settled, its draft is the pattern. -/
theorem settleAll?_ofForest (source : String) (tree : Tree) :
    ((ofForest [tree]).settleAll? (List.range (ofForest [tree]).nodes.size)).map
        (finish source (tree.size - 1)) =
      some (Pattern.ofTree source tree) := by
  have hsettle := @settleAll?_eq (ofForest [tree]) [] (Tree.forest 0 [tree]) rfl
  have hsize : (ofForest [tree]).nodes.size = (Tree.forest 0 [tree]).length := rfl
  rw [List.range_eq_range', hsize]
  refine (congrArg (Option.map (finish source (tree.size - 1))) hsettle).trans ?_
  simp [ofForest, finish, Pattern.ofTree, Tree.length_layout, GroupTable.settle,
    Function.comp_def]

end Draft

end PatternTree
