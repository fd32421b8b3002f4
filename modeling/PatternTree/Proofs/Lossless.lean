import PatternTree.Proofs.Grammar.Gaps

namespace PatternTree

namespace Pattern

/-- The places that a node takes itself: its span without those of its children. -/
def pieces (pattern : Pattern) (id : Nat) : List Span :=
  ((pattern.node? id).map fun node =>
    Span.gaps node.span.start node.span.stop
      (node.children.filterMap fun child => (pattern.node? child).map Node.span)).getD []

/-- What the nodes below and including a node write together: the texts of its own pieces with
    those of its children between them. -/
inductive Writes (pattern : Pattern) (chars : List Char) : Nat → List Char → Prop where
  | node {id : Nat} {node : Node} {texts inner : List (List Char)}
      (hnode : pattern.node? id = some node)
      (htexts : List.Forall₂ (Text.Covers chars) (pattern.pieces id) texts)
      (hinner : List.Forall₂ (Writes pattern chars) node.children inner) :
      Writes pattern chars id (Text.interleave texts inner)

variable {pattern : Pattern} {chars : List Char}

theorem filterMap_span_eq {ids : List Nat} {trees : List Tree}
    (hstands : List.Forall₂ pattern.Stands ids trees) :
    (ids.filterMap fun id => (pattern.node? id).map Node.span) = trees.map Tree.span := by
  induction hstands with
  | nil => rfl
  | cons htree _ ih => simp only [List.filterMap_cons, htree.span_eq, ih, List.map_cons]

/-- A node takes what the tree at it takes. -/
theorem Stands.pieces_eq {id : Nat} {tree : Tree} (hstands : pattern.Stands id tree) :
    pattern.pieces id = tree.pieces := by
  cases hstands with
  | node hnode _ _ hchildren =>
    rw [pieces, hnode, Option.map_some, Option.getD_some, filterMap_span_eq hchildren,
      Tree.pieces_node]

mutual

/-- Where all pieces within a tree cover texts, the tree covers what its nodes write. -/
theorem Stands.exists_writes {id : Nat} (tree : Tree) (hstands : pattern.Stands id tree)
    (hpieces : ∀ sub : Tree, sub.Within tree →
      ∃ texts, List.Forall₂ (Text.Covers chars) sub.pieces texts) :
    ∃ text, Text.Covers chars tree.span text ∧ pattern.Writes chars id text := by
  have hroot := hstands.pieces_eq
  cases tree with
  | node label span children =>
    cases hstands with
    | @node _ node _ _ hnode _ _ hchildren =>
      obtain ⟨texts, htexts⟩ := hpieces _ (.refl _)
      have hbelow : ∀ child ∈ children, ∀ sub : Tree, sub.Within child →
          ∃ texts, List.Forall₂ (Text.Covers chars) sub.pieces texts :=
        fun child hchild sub hsub => hpieces sub (.child hchild hsub)
      obtain ⟨inner, hcovers, hwrites⟩ := forall₂_exists_writes children hchildren hbelow
      refine ⟨Text.interleave texts inner, ?_, .node hnode (hroot ▸ htexts) hwrites⟩
      exact Span.covers_interleave htexts hcovers

theorem forall₂_exists_writes {ids : List Nat} (trees : List Tree)
    (hstands : List.Forall₂ pattern.Stands ids trees)
    (hpieces : ∀ tree ∈ trees, ∀ sub : Tree, sub.Within tree →
      ∃ texts, List.Forall₂ (Text.Covers chars) sub.pieces texts) :
    ∃ inner, List.Forall₂ (Text.Covers chars) (trees.map Tree.span) inner ∧
      List.Forall₂ (pattern.Writes chars) ids inner := by
  cases trees with
  | nil =>
    cases hstands
    exact ⟨[], .nil, .nil⟩
  | cons tree trees =>
    cases hstands with
    | cons htree htrees =>
      obtain ⟨text, hcovers, hwrites⟩ :=
        Stands.exists_writes tree htree (hpieces tree List.mem_cons_self)
      obtain ⟨inner, hcovers', hwrites'⟩ := forall₂_exists_writes trees htrees
        fun other hother => hpieces other (List.mem_cons_of_mem _ hother)
      exact ⟨text :: inner, .cons hcovers hcovers', .cons hwrites hwrites'⟩

end

end Pattern

namespace Tree

mutual

/-- The pieces of all nodes of a tree from left to right, each with the number of its node. -/
def walk (first : Nat) : Tree → List (Nat × Span)
  | node _ span children =>
    walks first (first + sizes children) span.start span.stop children

/-- The pieces of a node from an offset on and of the children there. -/
def walks (first root start stop : Nat) : List Tree → List (Nat × Span)
  | [] => [(root, ⟨start, stop⟩)]
  | tree :: trees =>
    (root, ⟨start, tree.span.start⟩) ::
      (tree.walk first ++ walks (first + tree.size) root tree.span.stop stop trees)

end

mutual

/-- Where all pieces of a tree have their ends in order, they follow each other. -/
theorem chain_walk (first : Nat) (tree : Tree)
    (hpieces : ∀ sub : Tree, sub.Within tree → ∀ piece ∈ sub.pieces, piece.start ≤ piece.stop) :
    Span.Chain tree.span.start tree.span.stop ((tree.walk first).map Prod.snd) := by
  cases tree with
  | node label span children =>
    rw [walk]
    exact chain_walks first _ span.start span.stop children (hpieces _ (.refl _))
      fun child hchild sub hsub => hpieces sub (.child hchild hsub)

theorem chain_walks (first root start stop : Nat) (trees : List Tree)
    (hgaps : ∀ piece ∈ Span.gaps start stop (trees.map span), piece.start ≤ piece.stop)
    (hpieces : ∀ tree ∈ trees, ∀ sub : Tree, sub.Within tree →
      ∀ piece ∈ sub.pieces, piece.start ≤ piece.stop) :
    Span.Chain start stop ((walks first root start stop trees).map Prod.snd) := by
  cases trees with
  | nil => exact .cons (hgaps _ List.mem_cons_self) (.nil stop)
  | cons tree trees =>
    have htree := chain_walk first tree (hpieces tree List.mem_cons_self)
    have htrees := chain_walks (first + tree.size) root tree.span.stop stop trees
      (fun piece hpiece => hgaps piece (List.mem_cons_of_mem _ hpiece))
      (fun other hother => hpieces other (List.mem_cons_of_mem _ hother))
    rw [walks, List.map_cons, List.map_append]
    exact .cons (hgaps _ List.mem_cons_self) (htree.append htrees)

end

section

variable {pattern : Pattern} {table : GroupTable} {nodes : List Node} {id : Nat} {piece : Span}

mutual

/-- The walk meets exactly the pieces of the nodes of the tree. -/
theorem mem_walk (hnodes : pattern.nodes.toList = nodes.map table.settle) {first : Nat}
    {attachment : Option Attachment} (tree : Tree)
    (hlies : Lies nodes first (tree.layout first attachment)) :
    (id, piece) ∈ tree.walk first ↔
      first ≤ id ∧ id < first + tree.size ∧ piece ∈ pattern.pieces id := by
  have hroot := (tree.stands_of_lies hnodes hlies).pieces_eq
  cases tree with
  | node label span children =>
    have hsize : first + (node label span children).size - 1 = first + sizes children := by
      rw [size]
      omega
    rw [hsize, pieces_node] at hroot
    rw [layout] at hlies
    rw [walk, mem_walks hnodes children hlies.left, ← hroot, size]
    constructor
    · rintro (⟨rfl, hpiece⟩ | ⟨hfirst, hid, hpiece⟩)
      · exact ⟨by omega, by omega, hpiece⟩
      · exact ⟨hfirst, by omega, hpiece⟩
    · rintro ⟨hfirst, hid, hpiece⟩
      by_cases hlast : id = first + sizes children
      · exact .inl ⟨hlast, hlast ▸ hpiece⟩
      · exact .inr ⟨hfirst, by omega, hpiece⟩

theorem mem_walks (hnodes : pattern.nodes.toList = nodes.map table.settle)
    {first parent index root start stop : Nat} (trees : List Tree)
    (hlies : Lies nodes first (layouts first parent index trees)) :
    (id, piece) ∈ walks first root start stop trees ↔
      (id = root ∧ piece ∈ Span.gaps start stop (trees.map span)) ∨
        (first ≤ id ∧ id < first + sizes trees ∧ piece ∈ pattern.pieces id) := by
  cases trees with
  | nil =>
    have hnone : ¬ (first ≤ id ∧ id < first + sizes [] ∧ piece ∈ pattern.pieces id) := by
      rw [sizes]
      omega
    simp [walks, Span.gaps, hnone]
  | cons tree trees =>
    rw [layouts] at hlies
    have hothers := hlies.right
    rw [length_layout] at hothers
    rw [walks, List.mem_cons, List.mem_append, mem_walk hnodes tree hlies.left,
      mem_walks hnodes trees hothers, List.map_cons, Span.gaps, List.mem_cons, Prod.mk.injEq, sizes]
    constructor
    · rintro (⟨rfl, hpiece⟩ | ⟨hfirst, hid, hpiece⟩ | ⟨rfl, hpiece⟩ | ⟨hfirst, hid, hpiece⟩)
      · exact .inl ⟨rfl, .inl hpiece⟩
      · exact .inr ⟨hfirst, by omega, hpiece⟩
      · exact .inl ⟨rfl, .inr hpiece⟩
      · exact .inr ⟨by omega, by omega, hpiece⟩
    · rintro (⟨rfl, hpiece | hpiece⟩ | ⟨hfirst, hid, hpiece⟩)
      · exact .inl ⟨rfl, hpiece⟩
      · exact .inr (.inr (.inl ⟨rfl, hpiece⟩))
      · by_cases htree : id < first + tree.size
        · exact .inr (.inl ⟨hfirst, htree, hpiece⟩)
        · exact .inr (.inr (.inr ⟨by omega, by omega, hpiece⟩))

end

end

end Tree

/-- Labels that differ in what is known of references own the same texts. -/
theorem Label.Owns.of_unsettled {tokens : List Token} {span : Span} {label label' : Label}
    {texts : List (List Char)} (howns : label.Owns tokens span texts)
    (hlabel : label'.unsettled = label.unsettled) : label'.Owns tokens span texts := by
  cases howns with
  | leaf htoken hspan hrole hatom => exact .leaf htoken hspan hrole (hlabel.trans hatom)
  | group number htext =>
    cases label' <;> cases hlabel
    exact .group number htext
  | repetition greedy htext hbounds =>
    cases label' <;> cases hlabel
    exact .repetition greedy htext hbounds
  | concatenation hcount =>
    cases label' <;> cases hlabel
    exact .concatenation hcount
  | alternation count =>
    cases label' <;> cases hlabel
    exact .alternation count

namespace Pattern

variable {dialect : Dialect} {source : String} {pattern : Pattern}

/-- At every node of a pattern stands a tree within the one that was numbered. -/
theorem exists_stands_of_node {tree : Tree} {id : Nat} {node : Node}
    (hnode : (ofTree source tree).node? id = some node) :
    ∃ sub : Tree, sub.Within tree ∧ (ofTree source tree).Stands id sub := by
  have hid : id < (ofTree source tree).nodes.size := (Array.getElem?_eq_some_iff.mp hnode).1
  obtain ⟨sub, start, attachment, hsub, hstart, hlies⟩ := exists_within_of_lt source tree hid
  have hstands := sub.stands_of_lies (nodes_ofTree source tree) hlies
  obtain rfl : start + sub.size - 1 = id := by omega
  exact ⟨sub, hsub, hstands⟩

/-- Only nodes that exist take anything. -/
theorem lt_of_mem_pieces {id : Nat} {piece : Span} (hpiece : piece ∈ pattern.pieces id) :
    id < pattern.nodes.size := by
  cases hnode : pattern.node? id with
  | none => simp [pieces, hnode] at hpiece
  | some node => exact (Array.getElem?_eq_some_iff.mp hnode).1

/-- Where all pieces within a tree have their ends in order, each of its bytes belongs to exactly
    one of its nodes. -/
theorem existsUnique_owner {tree : Tree}
    (hpieces : ∀ sub : Tree, sub.Within tree → ∀ piece ∈ sub.pieces, piece.start ≤ piece.stop)
    {offset : Nat} (hstart : tree.span.start ≤ offset) (hstop : offset < tree.span.stop) :
    ∃! id, ∃ piece ∈ (ofTree source tree).pieces id,
      piece.start ≤ offset ∧ offset < piece.stop := by
  have hchain := tree.chain_walk 0 hpieces
  have hmem : ∀ id piece, (id, piece) ∈ tree.walk 0 ↔ piece ∈ (ofTree source tree).pieces id := by
    intro id piece
    rw [tree.mem_walk (nodes_ofTree source tree) (.whole _)]
    constructor
    · exact fun hwalk => hwalk.2.2
    · intro hpiece
      have hid := lt_of_mem_pieces hpiece
      rw [size_nodes_ofTree] at hid
      exact ⟨Nat.zero_le id, by omega, hpiece⟩
  obtain ⟨piece, hpiece, hoffset⟩ := hchain.exists_mem hstart hstop
  obtain ⟨⟨id, piece⟩, hwalk, rfl⟩ := List.mem_map.mp hpiece
  refine ⟨id, ⟨piece, (hmem id piece).mp hwalk, hoffset⟩, ?_⟩
  rintro other ⟨piece', hpiece', hoffset'⟩
  have hsame := hchain.eq_of_mem ((hmem other piece').mpr hpiece') hwalk hoffset' hoffset
  exact congrArg Prod.fst hsame

/-- No byte of a pattern gets lost and none is counted twice. The root takes all of them, every
    node takes its children and what its own label writes around them, every byte belongs to
    exactly one node itself, and together the nodes write the pattern. -/
theorem parse_lossless (hparse : parse dialect source = .ok pattern) :
    (pattern.node? pattern.root).map Node.span = some ⟨0, Text.utf8Size source.toList⟩ ∧
    (∀ id node, pattern.node? id = some node →
      ∃ texts, List.Forall₂ (Text.Covers source.toList) (pattern.pieces id) texts ∧
        node.label.Owns (tokenize dialect.classSyntax source).tokens node.span texts) ∧
    (∀ offset, offset < Text.utf8Size source.toList →
      ∃! id, ∃ piece ∈ pattern.pieces id, piece.start ≤ offset ∧ offset < piece.stop) ∧
    pattern.Writes source.toList pattern.root source.toList := by
  obtain ⟨choice, hderives, rfl⟩ := parse_eq_ok_iff.mp hparse
  have hroot := stands_ofTree source (choice.tree 0 0)
  have hspan : (choice.tree 0 0).span = ⟨0, Text.utf8Size source.toList⟩ := by
    rw [choice.span_tree, Nat.zero_add, Lexeme.size, hderives.text]
  have hpieces : ∀ sub : Tree, sub.Within (choice.tree 0 0) →
      ∃ texts, List.Forall₂ (Text.Covers source.toList) sub.pieces texts := by
    intro sub hsub
    obtain ⟨texts, htexts, -⟩ := hderives.exists_owns hsub
    exact ⟨texts, htexts⟩
  refine ⟨?_, ?_, ?_, ?_⟩
  · rw [hroot.span_eq, hspan]
  · intro id node hnode
    obtain ⟨sub, hsub, hstands⟩ := exists_stands_of_node hnode
    obtain ⟨texts, htexts, howns⟩ := hderives.exists_owns hsub
    refine ⟨texts, by rwa [hstands.pieces_eq], ?_⟩
    cases hstands with
    | @node _ node' _ _ hnode' hlabel _ _ =>
      obtain rfl : node' = node := Option.some.inj (hnode'.symm.trans hnode)
      exact howns.of_unsettled hlabel
  · intro offset hoffset
    have hordered : ∀ sub : Tree, sub.Within (choice.tree 0 0) →
        ∀ piece ∈ sub.pieces, piece.start ≤ piece.stop := by
      intro sub hsub piece hpiece
      obtain ⟨texts, htexts⟩ := hpieces sub hsub
      exact Text.start_le_stop_of_mem htexts hpiece
    apply existsUnique_owner hordered
    · rw [hspan]
      exact Nat.zero_le offset
    · rw [hspan]
      exact hoffset
  · obtain ⟨text, htext, hwrites⟩ := hroot.exists_writes _ hpieces
    rw [hspan] at htext
    rwa [htext.eq_of_whole] at hwrites

/-- The bar of a pattern belongs to its alternation and the parentheses to the group. -/
theorem parse_lossless_named_group :
    ∃ pattern, parse {} "(?<x>a|)+?" = .ok pattern ∧
      (pattern.node? pattern.root).map Node.span = some ⟨0, 10⟩ ∧
      (∃! id, ∃ piece ∈ pattern.pieces id, piece.start ≤ 6 ∧ 6 < piece.stop) ∧
      pattern.Writes "(?<x>a|)+?".toList pattern.root "(?<x>a|)+?".toList := by
  obtain ⟨pattern, hparse⟩ := exists_parse_eq_ok {} "(?<x>a|)+?" (by decide +kernel)
  obtain ⟨hroot, -, howner, hwrites⟩ := parse_lossless hparse
  exact ⟨pattern, hparse, hroot, howner 6 (by decide), hwrites⟩

end Pattern

end PatternTree
