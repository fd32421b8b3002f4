import PatternTree.Proofs.Grammar.Entries
import PatternTree.Proofs.GroupTable
import PatternTree.Proofs.Lossless

namespace PatternTree

/-- What a group opens with, told by its node. -/
theorem Label.opening?_node (node : Node) :
    opening? (node.label, node.span) = node.groupNumber?.map (·, node.span.start) := by
  obtain ⟨label, span, attachment, slots⟩ := node
  cases label <;> rfl

/-- A group writes the text of an opener that announces it. -/
theorem Label.Owns.exists_opener {tokens : List Token} {span : Span} {opened : Group}
    {texts : List (List Char)} (howns : (Label.group opened).Owns tokens span texts) :
    ∃ opener number, opened = Opener.group number opener := by
  generalize hlabel : Label.group opened = label at howns
  cases howns with
  | @leaf _ atom _ _ _ _ hatom =>
    subst hlabel
    cases atom <;> cases hatom
  | @group opener _ number _ => exact ⟨opener, number, Label.group.inj hlabel⟩
  | _ => cases hlabel

namespace Tree

variable (first : Nat) (attachment : Option Attachment) (tree : Tree)

theorem filterMap_opening?_layout :
    (tree.layout first attachment).filterMap
        (fun node => node.groupNumber?.map (·, node.span.start)) =
      tree.entries.filterMap Label.opening? := by
  rw [← map_layout first attachment, List.filterMap_map]
  congr
  funext node
  exact (Label.opening?_node node).symm

theorem filterMap_groupNumber?_layout :
    (tree.layout first attachment).filterMap Node.groupNumber? =
      (tree.entries.filterMap Label.opening?).map Prod.fst := by
  rw [← filterMap_opening?_layout first attachment, List.map_filterMap]
  congr
  funext node
  cases node.groupNumber? <;> rfl

end Tree

namespace Choice

variable (offset numbered first : Nat) (attachment : Option Attachment) (choice : Choice)

/-- The numbers of a choice's groups follow each other, in an order of their own. -/
theorem perm_groupNumbers :
    (((choice.tree offset numbered).layout first attachment).filterMap Node.groupNumber?).Perm
      (List.range' (numbered + 1) (Lexeme.numbered choice.lexemes)) := by
  rw [Tree.filterMap_groupNumber?_layout, ← Lexeme.map_fst_openings offset]
  exact (choice.openings_tree offset numbered).map Prod.fst

theorem nodup_groupNumbers :
    (((choice.tree offset numbered).layout first attachment).filterMap
      Node.groupNumber?).Nodup :=
  (choice.perm_groupNumbers offset numbered first attachment).nodup_iff.mpr List.nodup_range'

variable {offset numbered first attachment choice} {classSyntax : ClassSyntax}
  {rest : List Char}

/-- A group with a higher number starts behind the one with a lower number. -/
theorem start_lt_of_groupNumber?_lt (hreads : Lexeme.Reads classSyntax rest choice.lexemes)
    {outer inner : Node} (houter : outer ∈ (choice.tree offset numbered).layout first attachment)
    (hinner : inner ∈ (choice.tree offset numbered).layout first attachment)
    {number number' : Nat} (hnumber : outer.groupNumber? = some number)
    (hnumber' : inner.groupNumber? = some number') (hlt : number < number') :
    outer.span.start < inner.span.start := by
  have hopening : ∀ node ∈ (choice.tree offset numbered).layout first attachment, ∀ number,
      node.groupNumber? = some number →
        (number, node.span.start) ∈ Lexeme.openings offset numbered choice.lexemes := by
    intro node hnode number hnumber
    rw [← (choice.openings_tree offset numbered).mem_iff,
      ← Tree.filterMap_opening?_layout first attachment]
    exact List.mem_filterMap.mpr ⟨node, hnode, by rw [hnumber, Option.map_some]⟩
  obtain ⟨place, hplace, houter'⟩ := List.mem_iff_getElem.mp (hopening outer houter _ hnumber)
  obtain ⟨place', hplace', hinner'⟩ := List.mem_iff_getElem.mp (hopening inner hinner _ hnumber')
  have hordered := List.pairwise_iff_getElem.mp (hreads.pairwise_openings offset numbered)
  obtain hbefore | rfl | hbehind := Nat.lt_trichotomy place place'
  · have hboth := hordered place place' hplace hplace' hbefore
    rw [houter', hinner'] at hboth
    exact hboth.2
  · have hsame := congrArg Prod.fst (houter'.symm.trans hinner')
    exact absurd hlt (Nat.not_lt_of_ge (Nat.le_of_eq hsame.symm))
  · have hboth := hordered place' place hplace' hplace hbehind
    rw [houter', hinner'] at hboth
    exact absurd hlt (Nat.lt_asymm hboth.1)

/-- A group that comes later among the nodes stops later. -/
theorem pairwise_group_stops (hreads : Lexeme.Reads classSyntax rest choice.lexemes) :
    ((choice.tree offset numbered).layout first attachment).Pairwise fun earlier later =>
      earlier.groupNumber?.isSome → later.groupNumber?.isSome →
        earlier.span.stop < later.span.stop := by
  have hmark : ∀ node : Node, node.groupNumber?.isSome →
      Label.mark? (node.label, node.span) = some ⟨node.span.stop - 1, node.span.stop⟩ := by
    intro node hgroup
    obtain ⟨label, span, _, _⟩ := node
    cases label <;> first | rfl | cases hgroup
  refine (choice.pairwise_mark?_layout hreads offset numbered first attachment).imp ?_
  intro earlier later hordered hearlier hlater
  exact (hordered _ (hmark earlier hearlier) _ (hmark later hlater)).2

end Choice

namespace GroupTable

/-- Settling changes references and no groups. -/
theorem settle_label_eq_group_iff {table : GroupTable} {node : Node} {opened : Group} :
    (table.settle node).label = .group opened ↔ node.label = .group opened := by
  obtain ⟨label, span, attachment, slots⟩ := node
  cases label <;> simp [settle, resolve]

/-- Where the numbers of groups are the first ones, the table has them in order. -/
theorem numbers_ofNodes {nodes : List Node} {count : Nat}
    (hnumbers : (nodes.filterMap Node.groupNumber?).Perm (List.range' 1 count)) :
    (ofNodes nodes).numbers = List.range' 1 count := by
  have hnodup : (nodes.filterMap Node.groupNumber?).Nodup :=
    hnumbers.nodup_iff.mpr List.nodup_range'
  refine (pairwise_numbers_ofNodes nodes).eq_of_mem_iff List.pairwise_lt_range' ?_
  intro number
  rw [mem_numbers_ofNodes hnodup, hnumbers.mem_iff]

end GroupTable

namespace Pattern

/-- The node that the table has for the number of a group. -/
def groupNode? (number : Nat) (pattern : Pattern) : Option Node :=
  (pattern.groups.group? number).bind fun id => pattern.node? id

/-- The table of a pattern has the groups among its nodes, and their numbers are those that the
    tokens give out. -/
structure Grouped (tokens : List Token) (pattern : Pattern) : Prop where
  /-- Each token that opens a group with a number takes the next one. -/
  numbers : pattern.groups.numbers = List.range' 1 (tokens.countP (·.role.isNumbered))
  /-- The table has a group under its own number and nothing else. -/
  group? (number id : Nat) : pattern.groups.group? number = some id ↔
    ∃ node name, pattern.node? id = some node ∧ node.label = .group ⟨some number, name⟩
  /-- A group without a number has no name either. -/
  nameless (id : Nat) (node : Node) (name : Option String)
    (hnode : pattern.node? id = some node) (hlabel : node.label = .group ⟨none, name⟩) :
    name = none
  /-- Groups start in the order of their numbers. -/
  starts {first second : Nat} {outer inner : Node} (hlt : first < second)
    (hfirst : pattern.groupNode? first = some outer)
    (hsecond : pattern.groupNode? second = some inner) : outer.span.start < inner.span.start
  /-- A name has the numbers of the groups that carry it. -/
  named (name : String) (number : Nat) : number ∈ pattern.groups.numbersNamed name ↔
    ∃ id node, pattern.node? id = some node ∧ node.label = .group ⟨some number, some name⟩
  /-- No group is listed twice under its name. -/
  nodup (name : String) : (pattern.groups.numbersNamed name).Nodup
  /-- The groups with a name are listed in the order in which they stop. -/
  stops (name : String) : (pattern.groups.numbersNamed name).Pairwise fun first second =>
    ∃ earlier later, pattern.groupNode? first = some earlier ∧
      pattern.groupNode? second = some later ∧ earlier.span.stop < later.span.stop
  /-- A name that a group carries stands for one of the groups that carry it. -/
  groupNamed? (name : String) (number : Option Nat) (id : Nat) (node : Node)
    (hnode : pattern.node? id = some node) (hlabel : node.label = .group ⟨number, some name⟩) :
    ∃ id' node' number', pattern.groups.groupNamed? name = some id' ∧
      pattern.node? id' = some node' ∧ node'.label = .group ⟨some number', some name⟩

section

variable {source : String} {tree : Tree}

/-- The groups of a pattern are those of its tree. -/
theorem exists_group_iff {id : Nat} {opened : Group} :
    (∃ node, (ofTree source tree).node? id = some node ∧ node.label = .group opened) ↔
      ∃ node, (tree.layout 0 none)[id]? = some node ∧ node.label = .group opened := by
  rw [node?_ofTree]
  constructor
  · rintro ⟨_, hnode, hlabel⟩
    obtain ⟨node, hnode', rfl⟩ := Option.map_eq_some_iff.mp hnode
    exact ⟨node, hnode', GroupTable.settle_label_eq_group_iff.mp hlabel⟩
  · rintro ⟨node, hnode, hlabel⟩
    exact ⟨_, by rw [hnode, Option.map_some], GroupTable.settle_label_eq_group_iff.mpr hlabel⟩

/-- Where no two groups share a number, the table has each one under its own. -/
theorem group?_ofTree (hnodup : ((tree.layout 0 none).filterMap Node.groupNumber?).Nodup)
    {number id : Nat} :
    (ofTree source tree).groups.group? number = some id ↔
      ∃ node name, (ofTree source tree).node? id = some node ∧
        node.label = .group ⟨some number, name⟩ := by
  have htable : (ofTree source tree).groups.group? number = some id ↔ _ :=
    GroupTable.group?_ofNodes hnodup
  rw [htable]
  constructor
  · rintro ⟨node, hnode, hnumber⟩
    obtain ⟨name, hlabel⟩ := Node.groupNumber?_eq_some_iff.mp hnumber
    obtain ⟨node', hnode', hlabel'⟩ := exists_group_iff.mpr ⟨node, hnode, hlabel⟩
    exact ⟨node', name, hnode', hlabel'⟩
  · rintro ⟨node, name, hnode, hlabel⟩
    obtain ⟨node', hnode', hlabel'⟩ := exists_group_iff.mp ⟨node, hnode, hlabel⟩
    exact ⟨node', hnode', Node.groupNumber?_eq_some_iff.mpr ⟨name, hlabel'⟩⟩

theorem groupNode?_ofTree (hnodup : ((tree.layout 0 none).filterMap Node.groupNumber?).Nodup)
    {number : Nat} {node : Node} (hnode : node ∈ tree.layout 0 none)
    (hnumber : node.groupNumber? = some number) :
    (ofTree source tree).groupNode? number = some ((groupsOf tree).settle node) := by
  obtain ⟨id, hid⟩ := List.mem_iff_getElem?.mp hnode
  have hgroup : (ofTree source tree).groups.group? number = some id :=
    (GroupTable.group?_ofNodes hnodup).mpr ⟨node, hid, hnumber⟩
  rw [groupNode?, hgroup, Option.bind_some, node?_ofTree, hid, Option.map_some]

theorem exists_of_groupNode?_ofTree
    (hnodup : ((tree.layout 0 none).filterMap Node.groupNumber?).Nodup) {number : Nat}
    {node : Node} (hnode : (ofTree source tree).groupNode? number = some node) :
    ∃ node' ∈ tree.layout 0 none, node'.groupNumber? = some number ∧ node'.span = node.span := by
  obtain ⟨id, hid, hnode⟩ := Option.bind_eq_some_iff.mp hnode
  obtain ⟨node', hnode', hnumber⟩ := (GroupTable.group?_ofNodes hnodup).mp hid
  rw [node?_ofTree, hnode', Option.map_some] at hnode
  obtain rfl := Option.some.inj hnode
  exact ⟨node', List.mem_of_getElem? hnode', hnumber, rfl⟩

theorem mem_numbersNamed_ofTree {name : String} {number : Nat} :
    number ∈ (ofTree source tree).groups.numbersNamed name ↔
      ∃ id node, (ofTree source tree).node? id = some node ∧
        node.label = .group ⟨some number, some name⟩ := by
  have htable : (ofTree source tree).groups.numbersNamed name = _ :=
    GroupTable.numbersNamed_ofNodes (tree.layout 0 none) name
  rw [htable, List.mem_filterMap]
  constructor
  · rintro ⟨node, hnode, hnumber⟩
    obtain ⟨id, hid⟩ := List.mem_iff_getElem?.mp hnode
    exact ⟨id, exists_group_iff.mpr ⟨node, hid, Node.numberNamed?_eq_some_iff.mp hnumber⟩⟩
  · rintro ⟨id, hgroup⟩
    obtain ⟨node, hnode, hlabel⟩ := exists_group_iff.mp hgroup
    exact ⟨node, List.mem_of_getElem? hnode, Node.numberNamed?_eq_some_iff.mpr hlabel⟩

/-- Where later nodes that are groups stop later, a name lists its groups in this order. -/
theorem pairwise_numbersNamed_ofTree
    (hnodup : ((tree.layout 0 none).filterMap Node.groupNumber?).Nodup)
    (hstops : (tree.layout 0 none).Pairwise fun earlier later =>
      earlier.groupNumber?.isSome → later.groupNumber?.isSome →
        earlier.span.stop < later.span.stop) (name : String) :
    ((ofTree source tree).groups.numbersNamed name).Pairwise fun first second =>
      ∃ earlier later, (ofTree source tree).groupNode? first = some earlier ∧
        (ofTree source tree).groupNode? second = some later ∧
          earlier.span.stop < later.span.stop := by
  have htable : (ofTree source tree).groups.numbersNamed name = _ :=
    GroupTable.numbersNamed_ofNodes (tree.layout 0 none) name
  rw [htable, List.pairwise_filterMap]
  refine hstops.imp_of_mem ?_
  intro earlier later hearlier hlater hlt first hfirst second hsecond
  have hfirst' := Node.groupNumber?_of_numberNamed? hfirst
  have hsecond' := Node.groupNumber?_of_numberNamed? hsecond
  have hstop := hlt (Option.isSome_of_eq_some hfirst') (Option.isSome_of_eq_some hsecond')
  exact ⟨_, _, groupNode?_ofTree hnodup hearlier hfirst', groupNode?_ofTree hnodup hlater hsecond',
    hstop⟩

/-- A name that a group has stands for the first of its groups. -/
theorem exists_groupNamed?_ofTree
    (hnodup : ((tree.layout 0 none).filterMap Node.groupNumber?).Nodup) {name : String}
    {number : Nat} (hgroup : ∃ id node, (ofTree source tree).node? id = some node ∧
      node.label = .group ⟨some number, some name⟩) :
    ∃ id node number', (ofTree source tree).groups.groupNamed? name = some id ∧
      (ofTree source tree).node? id = some node ∧
        node.label = .group ⟨some number', some name⟩ := by
  obtain ⟨first, others, hnumbers⟩ :=
    List.exists_cons_of_ne_nil (List.ne_nil_of_mem (mem_numbersNamed_ofTree.mpr hgroup))
  obtain ⟨id, node, hnode, hlabel⟩ :=
    mem_numbersNamed_ofTree.mp (hnumbers ▸ List.mem_cons_self : first ∈ _)
  refine ⟨id, node, first, ?_, hnode, hlabel⟩
  rw [GroupTable.groupNamed?, hnumbers, List.head?_cons, Option.bind_some]
  exact (group?_ofTree hnodup).mpr ⟨node, _, hnode, hlabel⟩

end

variable {dialect : Dialect} {source : String} {pattern : Pattern}

/-- A group has a name only together with a number. -/
theorem nameless_of_derives {choice : Choice} (hderives : dialect.Derives source.toList choice)
    {id : Nat} {node : Node} {name : Option String}
    (hnode : (ofTree source (choice.tree 0 0)).node? id = some node)
    (hlabel : node.label = .group ⟨none, name⟩) : name = none := by
  obtain ⟨sub, hsub, hstands⟩ := exists_stands_of_node hnode
  obtain ⟨texts, -, howns⟩ := hderives.exists_owns hsub
  have hlabel' := hstands.label_eq
  rw [hnode, Option.map_some] at hlabel'
  have howns' := howns.of_unsettled (Option.some.inj hlabel')
  rw [hlabel] at howns'
  obtain ⟨opener, number, hopened⟩ := howns'.exists_opener
  cases opener <;> cases hopened
  rfl

/-- What is read has in its table the groups that are read, numbered as they open and listed
    under their names as they close. -/
theorem grouped_of_derives {choice : Choice} (hderives : dialect.Derives source.toList choice) :
    (ofTree source (choice.tree 0 0)).Grouped (tokenize dialect.classSyntax source).tokens := by
  have hnodup := choice.nodup_groupNumbers 0 0 0 none
  have hcount : (tokenize dialect.classSyntax source).tokens.countP (·.role.isNumbered) =
      Lexeme.numbered choice.lexemes := by
    rw [tokenize, hderives.scan_eq, Lexeme.countP_isNumbered_place]
  refine
    { numbers := ?_, group? := fun _ _ => group?_ofTree hnodup
      nameless := fun _ _ _ => nameless_of_derives hderives
      starts := ?_, named := fun _ _ => mem_numbersNamed_ofTree, nodup := ?_, stops := ?_
      groupNamed? := ?_ }
  · rw [hcount]
    exact GroupTable.numbers_ofNodes (choice.perm_groupNumbers 0 0 0 none)
  · intro first second outer inner hlt hfirst hsecond
    obtain ⟨outer', houter, hnumber, hspan⟩ := exists_of_groupNode?_ofTree hnodup hfirst
    obtain ⟨inner', hinner, hnumber', hspan'⟩ := exists_of_groupNode?_ofTree hnodup hsecond
    rw [← hspan, ← hspan']
    exact Choice.start_lt_of_groupNumber?_lt hderives.reads houter hinner hnumber hnumber' hlt
  · exact fun name => GroupTable.nodup_numbersNamed_ofNodes hnodup name
  · intro name
    exact pairwise_numbersNamed_ofTree hnodup (choice.pairwise_group_stops hderives.reads) name
  · intro name number id node hnode hlabel
    cases number with
    | none => cases nameless_of_derives hderives hnode hlabel
    | some number => exact exists_groupNamed?_ofTree hnodup ⟨id, node, hnode, hlabel⟩

/-- The groups of a pattern are numbered from one on in the order in which they open, the table
    has each of them, and names list them in the order in which they close. -/
theorem parse_grouped (hparse : parse dialect source = .ok pattern) :
    pattern.Grouped (tokenize dialect.classSyntax source).tokens := by
  obtain ⟨choice, hderives, rfl⟩ := parse_eq_ok_iff.mp hparse
  exact grouped_of_derives hderives

/-- The outer group opens first and closes last, so that it is the second one with its name. -/
theorem parse_grouped_shared_name :
    ∃ pattern, parse { allowDuplicateNames := true } "(?<x>(a)(?:(?<x>b)))(c)" = .ok pattern ∧
      pattern.Grouped (tokenize .pcre "(?<x>(a)(?:(?<x>b)))(c)").tokens ∧
      pattern.groups.numbers = [1, 2, 3, 4] ∧ pattern.groups.numbersNamed "x" = [3, 1] := by
  obtain ⟨pattern, hparse⟩ := exists_parse_eq_ok { allowDuplicateNames := true }
    "(?<x>(a)(?:(?<x>b)))(c)" (by decide +kernel)
  have htable : (parse { allowDuplicateNames := true } "(?<x>(a)(?:(?<x>b)))(c)").toOption.map
      (fun pattern => (pattern.groups.numbers, pattern.groups.numbersNamed "x")) =
        some ([1, 2, 3, 4], [3, 1]) := by
    decide +kernel
  rw [hparse] at htable
  have htable' := Prod.mk.inj (Option.some.inj htable)
  exact ⟨pattern, hparse, parse_grouped hparse, htable'⟩

end Pattern

end PatternTree
