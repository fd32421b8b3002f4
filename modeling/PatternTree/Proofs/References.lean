import PatternTree.Proofs.Groups

namespace PatternTree

namespace Label

/-- Whether a node with the label refers to a group. -/
def isReference : Label → Bool
  | backreference _ _ => true
  | namedBackreference _ _ _ => true
  | _ => false

/-- Whether a node with the label refers to a group that is not known. -/
def isUnresolved : Label → Bool
  | backreference _ resolved => !resolved
  | namedBackreference _ _ resolved => !resolved
  | _ => false

end Label

namespace GroupTable

variable {table : GroupTable} {label : Label}

/-- Only references are touched when labels are settled. -/
theorem resolve_eq_self (hlabel : label.isReference = false) : table.resolve label = label := by
  cases label <;> first | rfl | cases hlabel

theorem resolve_eq_backreference_iff {number : Nat} {resolved : Bool} :
    table.resolve label = .backreference number resolved ↔
      (∃ earlier, label = .backreference number earlier) ∧
        resolved = (table.group? number).isSome := by
  cases label with
  | backreference other earlier =>
    simp only [resolve, Label.backreference.injEq]
    constructor
    · rintro ⟨rfl, rfl⟩
      exact ⟨⟨earlier, rfl, rfl⟩, rfl⟩
    · rintro ⟨⟨_, rfl, -⟩, rfl⟩
      exact ⟨rfl, rfl⟩
  | _ => simp [resolve]

theorem resolve_eq_namedBackreference_iff {name : String} {number : Option Nat}
    {resolved : Bool} :
    table.resolve label = .namedBackreference name number resolved ↔
      (∃ number' earlier, label = .namedBackreference name number' earlier) ∧
        number = (table.numbersNamed name).head? ∧ resolved = number.isSome := by
  cases label with
  | namedBackreference other number' earlier =>
    simp only [resolve, Label.namedBackreference.injEq]
    constructor
    · rintro ⟨rfl, rfl, rfl⟩
      exact ⟨⟨number', earlier, rfl, rfl, rfl⟩, rfl, rfl⟩
    · rintro ⟨⟨_, _, rfl, -, -⟩, rfl, rfl⟩
      exact ⟨rfl, rfl, rfl⟩
  | _ => simp [resolve]

/-- A finding has the place of its node, and there is one for each reference that is not
    known. -/
theorem map_span_diagnose? (node : Node) :
    (diagnose? node).map Diagnostic.span =
      if node.label.isUnresolved then some node.span else none := by
  obtain ⟨label, span, attachment, slots⟩ := node
  cases label with
  | backreference number resolved => cases resolved <;> rfl
  | namedBackreference name number resolved => cases resolved <;> rfl
  | _ => rfl

/-- A finding has the place of the token that the reference is. -/
theorem mark?_of_diagnose?_settle {node : Node} {diagnostic : Diagnostic}
    (hdiagnostic : diagnose? (table.settle node) = some diagnostic) :
    Label.mark? (node.label, node.span) = some diagnostic.span := by
  have hspan := map_span_diagnose? (table.settle node)
  rw [hdiagnostic, Option.map_some] at hspan
  obtain ⟨label, span, attachment, slots⟩ := node
  cases label with
  | backreference number resolved =>
    split at hspan <;> cases hspan
    rfl
  | namedBackreference name number resolved =>
    split at hspan <;> cases hspan
    rfl
  | _ => cases hspan

theorem map_span_filterMap_diagnose? (nodes : List Node) :
    (nodes.filterMap diagnose?).map Diagnostic.span =
      (nodes.filter (·.label.isUnresolved)).map Node.span := by
  rw [List.map_filterMap]
  induction nodes with
  | nil => rfl
  | cons node nodes ih =>
    rw [List.filterMap_cons, map_span_diagnose?, List.filter_cons, ih]
    cases node.label.isUnresolved <;> rfl

end GroupTable

namespace Pattern

/-- The references of a pattern are settled against the groups that it has, wherever they stand,
    and what is found to be missing is reported. -/
structure Settled (tree : Tree) (pattern : Pattern) : Prop where
  /-- The nodes are those of the tree, apart from what is known of references. -/
  nodes : List.Forall₂ (fun before after =>
      after = { before with label := after.label } ∧
        after.label.unsettled = before.label.unsettled ∧
          (before.label.isReference = false → after.label = before.label))
    (tree.layout 0 none) pattern.nodes.toList
  /-- A reference by number is resolved where a group has the number. -/
  backreference (id : Nat) (node : Node) (number : Nat) (resolved : Bool)
    (hnode : pattern.node? id = some node)
    (hlabel : node.label = .backreference number resolved) :
    (resolved = true ↔ ∃ id node name, pattern.node? id = some node ∧
      node.label = .group ⟨some number, name⟩) ∧
    (resolved = true ↔ 1 ≤ number ∧ number ≤ pattern.groups.byNumber.length)
  /-- A reference by name is resolved where a group carries the name, and then has the number of
      one that does. -/
  namedBackreference (id : Nat) (node : Node) (name : String) (number : Option Nat)
    (resolved : Bool) (hnode : pattern.node? id = some node)
    (hlabel : node.label = .namedBackreference name number resolved) :
    (resolved = true ↔ ∃ id node number, pattern.node? id = some node ∧
      node.label = .group ⟨number, some name⟩) ∧
    (resolved = true → number.isSome ∧ ∃ id node, pattern.node? id = some node ∧
      node.label = .group ⟨number, some name⟩) ∧
    (resolved = false → number = none)
  /-- There is one finding for each reference that is not resolved, at its place. -/
  diagnostics : pattern.diagnostics.map Diagnostic.span =
    (pattern.nodes.toList.filter (·.label.isUnresolved)).map Node.span
  /-- Findings come in the order of their places. -/
  ordered : pattern.diagnostics.Pairwise (·.span.start < ·.span.start)

section

variable {source : String} {tree : Tree}

/-- The labels of a pattern are settled ones. -/
theorem exists_resolve_eq_of_node {id : Nat} {node : Node}
    (hnode : (ofTree source tree).node? id = some node) :
    ∃ label, (ofTree source tree).groups.resolve label = node.label := by
  rw [node?_ofTree] at hnode
  obtain ⟨before, -, rfl⟩ := Option.map_eq_some_iff.mp hnode
  exact ⟨before.label, rfl⟩

theorem forall₂_nodes_ofTree :
    List.Forall₂ (fun before after => after = { before with label := after.label } ∧
        after.label.unsettled = before.label.unsettled ∧
          (before.label.isReference = false → after.label = before.label))
      (tree.layout 0 none) (ofTree source tree).nodes.toList := by
  rw [nodes_ofTree, List.forall₂_map_right_iff, List.forall₂_same]
  intro node _
  exact ⟨rfl, GroupTable.unsettled_resolve _ node.label, GroupTable.resolve_eq_self⟩

/-- The findings are those about the nodes of the pattern. -/
theorem diagnostics_ofTree :
    (ofTree source tree).diagnostics =
      (ofTree source tree).nodes.toList.filterMap GroupTable.diagnose? := rfl

end

variable {dialect : Dialect} {source : String} {pattern : Pattern} {choice : Choice}

/-- Findings are made in the order in which the references are read. -/
theorem pairwise_diagnostics_of_derives (hderives : dialect.Derives source.toList choice) :
    (ofTree source (choice.tree 0 0)).diagnostics.Pairwise (·.span.start < ·.span.start) := by
  rw [diagnostics_ofTree, nodes_ofTree, List.filterMap_map, List.pairwise_filterMap]
  refine (choice.pairwise_mark?_layout hderives.reads 0 0 0 none).imp ?_
  intro earlier later hordered finding hfinding finding' hfinding'
  have hmark := GroupTable.mark?_of_diagnose?_settle hfinding
  have hmark' := GroupTable.mark?_of_diagnose?_settle hfinding'
  exact (hordered _ hmark _ hmark').1

theorem settled_of_derives (hderives : dialect.Derives source.toList choice) :
    (ofTree source (choice.tree 0 0)).Settled (choice.tree 0 0) := by
  have hgrouped := grouped_of_derives hderives
  refine
    { nodes := forall₂_nodes_ofTree, backreference := ?_, namedBackreference := ?_
      diagnostics := GroupTable.map_span_filterMap_diagnose? _
      ordered := pairwise_diagnostics_of_derives hderives }
  · intro id node number resolved hnode hlabel
    obtain ⟨label, hresolve⟩ := exists_resolve_eq_of_node hnode
    obtain ⟨-, hresolved⟩ :=
      GroupTable.resolve_eq_backreference_iff.mp (hresolve.trans hlabel)
    have hsome : resolved = true ↔
        ∃ id, (ofTree source (choice.tree 0 0)).groups.group? number = some id := by
      rw [hresolved, Option.isSome_iff_exists]
    have hnumber : resolved = true ↔
        number ∈ (ofTree source (choice.tree 0 0)).groups.numbers := by
      rw [hresolved, GroupTable.mem_numbers_iff]
    refine ⟨?_, ?_⟩
    · simp only [hsome, hgrouped.group?]
    · have hlength := congrArg List.length hgrouped.numbers
      rw [GroupTable.numbers, List.length_map, List.length_range'] at hlength
      rw [hnumber, hgrouped.numbers, hlength, List.mem_range'_1]
      omega
  · intro id node name number resolved hnode hlabel
    obtain ⟨label, hresolve⟩ := exists_resolve_eq_of_node hnode
    obtain ⟨-, hnumber, hresolved⟩ :=
      GroupTable.resolve_eq_namedBackreference_iff.mp (hresolve.trans hlabel)
    subst hresolved
    cases number with
    | none =>
      have hempty := List.head?_eq_none_iff.mp hnumber.symm
      have hunknown : (none : Option Nat).isSome ≠ true := Bool.false_ne_true
      refine ⟨⟨fun hsome => absurd hsome hunknown, ?_⟩, fun hsome => absurd hsome hunknown,
        fun _ => rfl⟩
      rintro ⟨id', node', number', hnode', hlabel'⟩
      cases number' with
      | none => cases hgrouped.nameless _ _ _ hnode' hlabel'
      | some number' =>
        have hmem := (hgrouped.named name number').mpr ⟨id', node', hnode', hlabel'⟩
        rw [hempty] at hmem
        cases hmem
    | some first =>
      obtain ⟨id', node', hnode', hlabel'⟩ :=
        (hgrouped.named name first).mp (List.mem_of_head? hnumber.symm)
      exact ⟨⟨fun _ => ⟨id', node', _, hnode', hlabel'⟩, fun _ => rfl⟩,
        fun _ => ⟨rfl, id', node', hnode', hlabel'⟩, fun hnone => Bool.noConfusion hnone⟩

/-- Whether a reference is resolved depends on the groups of the whole pattern and not on where
    it stands, and each that is not is reported once, in the order of the pattern. -/
theorem parse_settled (hparse : parse dialect source = .ok pattern) :
    ∃ tree, Tree.ofText dialect source.toList = .ok tree ∧ pattern.Settled tree := by
  obtain ⟨choice, hderives, rfl⟩ := parse_eq_ok_iff.mp hparse
  exact ⟨choice.tree 0 0, hderives.ofText_eq, settled_of_derives hderives⟩

/-- The name is known before its group opens and the number inside of its group; the other two
    references are reported. -/
theorem parse_settled_both_sides :
    ∃ pattern, parse {} "\\k<x>(?<x>a\\1)\\2|\\k<y>" = .ok pattern ∧
      (∃ tree, Tree.ofText {} "\\k<x>(?<x>a\\1)\\2|\\k<y>".toList = .ok tree ∧
        pattern.Settled tree) ∧
      pattern.diagnostics.map Diagnostic.span = [⟨14, 16⟩, ⟨17, 22⟩] := by
  obtain ⟨pattern, hparse⟩ := exists_parse_eq_ok {} "\\k<x>(?<x>a\\1)\\2|\\k<y>"
    (by decide +kernel)
  have hspans : (parse {} "\\k<x>(?<x>a\\1)\\2|\\k<y>").toOption.map
      (·.diagnostics.map Diagnostic.span) = some [⟨14, 16⟩, ⟨17, 22⟩] := by
    decide +kernel
  rw [hparse] at hspans
  exact ⟨pattern, hparse, parse_settled hparse, Option.some.inj hspans⟩

end Pattern

end PatternTree
