import Mathlib.Data.List.Sort
import PatternTree.GroupTable

namespace PatternTree

namespace Node

/-- The number of a node that is a group and has one. -/
def groupNumber? (node : Node) : Option Nat :=
  match node.label with
  | .group opened => opened.number
  | _ => none

/-- The number of a node that is a group with a given name. -/
def numberNamed? (name : String) (node : Node) : Option Nat :=
  match node.label with
  | .group ⟨number, some given⟩ => if given = name then number else none
  | _ => none

theorem groupNumber?_eq_some_iff {node : Node} {number : Nat} :
    node.groupNumber? = some number ↔ ∃ name, node.label = .group ⟨some number, name⟩ := by
  obtain ⟨label, span, attachment, slots⟩ := node
  cases label with
  | group opened =>
    obtain ⟨given, name⟩ := opened
    simp [groupNumber?]
  | _ => simp [groupNumber?]

theorem numberNamed?_eq_some_iff {node : Node} {name : String} {number : Nat} :
    node.numberNamed? name = some number ↔ node.label = .group ⟨some number, some name⟩ := by
  obtain ⟨label, span, attachment, slots⟩ := node
  cases label with
  | group opened =>
    obtain ⟨given, _ | other⟩ := opened
    · simp [numberNamed?]
    · simp [numberNamed?, and_comm]
  | _ => simp [numberNamed?]

theorem groupNumber?_of_numberNamed? {node : Node} {name : String} {number : Nat}
    (hnumber : node.numberNamed? name = some number) : node.groupNumber? = some number :=
  groupNumber?_eq_some_iff.mpr ⟨some name, numberNamed?_eq_some_iff.mp hnumber⟩

end Node

namespace GroupTable

/-- The numbers that have a group, in the order of the table. -/
def numbers (table : GroupTable) : List Nat :=
  table.byNumber.map Prod.fst

theorem mem_numbers_iff {table : GroupTable} {number : Nat} :
    number ∈ table.numbers ↔ (table.group? number).isSome := by
  rw [numbers, group?, List.lookup_isSome_iff]
  simp only [List.mem_map, beq_iff_eq]
  constructor
  · rintro ⟨entry, hentry, rfl⟩
    exact ⟨entry, hentry, rfl⟩
  · rintro ⟨entry, hentry, rfl⟩
    exact ⟨entry, hentry, rfl⟩

private theorem mem_insertNumber_iff {number node other : Nat} {entries : List (Nat × Nat)} :
    other ∈ (insertNumber number node entries).map Prod.fst ↔
      other = number ∨ other ∈ entries.map Prod.fst := by
  induction entries with
  | nil => simp [insertNumber]
  | cons entry rest ih =>
    obtain ⟨first, firstNode⟩ := entry
    unfold insertNumber
    split
    · simp
    · split
      next heq => simp [heq]
      · rw [List.map_cons, List.mem_cons, ih, List.map_cons, List.mem_cons, or_left_comm]

private theorem pairwise_insertNumber {number node : Nat} {entries : List (Nat × Nat)}
    (hentries : (entries.map Prod.fst).Pairwise (· < ·)) :
    ((insertNumber number node entries).map Prod.fst).Pairwise (· < ·) := by
  induction entries with
  | nil => simp [insertNumber]
  | cons entry rest ih =>
    obtain ⟨first, firstNode⟩ := entry
    obtain ⟨hfirst, hrest⟩ := List.pairwise_cons.mp hentries
    unfold insertNumber
    split
    next hlt =>
      refine .cons ?_ hentries
      intro other hother
      obtain rfl | hother := List.mem_cons.mp hother
      · exact hlt
      · exact Nat.lt_trans hlt (hfirst other hother)
    next hle =>
      split
      next heq => exact .cons (heq ▸ hfirst) hrest
      next hne =>
        refine .cons ?_ (ih hrest)
        intro other hother
        obtain rfl | hother := mem_insertNumber_iff.mp hother
        · exact Nat.lt_of_le_of_ne (Nat.le_of_not_lt hle) (Ne.symm hne)
        · exact hfirst other hother

/-- Only a group with the number changes what the number stands for. -/
theorem group?_declareNode (table : GroupTable) (id : Nat) (node : Node) (number : Nat) :
    (table.declareNode id node).group? number =
      if node.groupNumber? = some number then some id else table.group? number := by
  unfold declareNode
  split
  next given name hlabel => simp [group?_declare, Node.groupNumber?, hlabel, eq_comm]
  next hlabel =>
    have hnone : node.groupNumber? ≠ some number := by
      intro hnumber
      obtain ⟨name, hgroup⟩ := Node.groupNumber?_eq_some_iff.mp hnumber
      exact hlabel _ _ hgroup
    rw [if_neg hnone]

/-- A group with a name is added behind the others that have it. -/
theorem numbersNamed_declareNode (table : GroupTable) (id : Nat) (node : Node) (name : String) :
    (table.declareNode id node).numbersNamed name =
      table.numbersNamed name ++ (node.numberNamed? name).toList := by
  unfold declareNode
  split
  next number given hlabel =>
    rw [numbersNamed_declare]
    cases given with
    | none => simp [Node.numberNamed?, hlabel]
    | some given =>
      by_cases hname : given = name <;> simp [Node.numberNamed?, hlabel, hname]
  next hlabel =>
    have hnone : node.numberNamed? name = none := by
      rw [Option.eq_none_iff_forall_ne_some]
      intro number hnumber
      exact hlabel _ _ (Node.numberNamed?_eq_some_iff.mp hnumber)
    simp [hnone]

theorem declareNode_of_ne_group (table : GroupTable) (id : Nat) {node : Node}
    (hlabel : ∀ opened, node.label ≠ .group opened) : table.declareNode id node = table := by
  unfold declareNode
  split
  next hgroup => exact absurd hgroup (hlabel _)
  · rfl

theorem pairwise_numbers_declareNode {table : GroupTable}
    (htable : table.numbers.Pairwise (· < ·)) (id : Nat) (node : Node) :
    (table.declareNode id node).numbers.Pairwise (· < ·) := by
  unfold declareNode
  split
  · exact pairwise_insertNumber htable
  · exact htable

/-- Declares the groups among nodes that are numbered from `first` on. -/
def declareNodes (first : Nat) (nodes : List Node) (table : GroupTable) : GroupTable :=
  (nodes.zipIdx first).foldl (fun table (node, id) => table.declareNode id node) table

theorem declareNodes_cons (first : Nat) (node : Node) (nodes : List Node) (table : GroupTable) :
    declareNodes first (node :: nodes) table =
      declareNodes (first + 1) nodes (table.declareNode first node) := by
  rw [declareNodes, List.zipIdx_cons, List.foldl_cons, declareNodes]

/-- Only the labels of nodes decide what is declared. -/
theorem declareNodes_congr {nodes nodes' : List Node}
    (hlabels : nodes.map Node.label = nodes'.map Node.label) (first : Nat) (table : GroupTable) :
    declareNodes first nodes table = declareNodes first nodes' table := by
  induction nodes generalizing nodes' first table with
  | nil =>
    obtain rfl := List.map_eq_nil_iff.mp hlabels.symm
    rfl
  | cons node nodes ih =>
    obtain ⟨node', nodes', rfl, hnode, hnodes⟩ := List.map_eq_cons_iff.mp hlabels.symm
    have hdeclare : table.declareNode first node = table.declareNode first node' := by
      simp only [declareNode, hnode]
    rw [declareNodes_cons, declareNodes_cons, hdeclare, ih hnodes.symm]

theorem ofNodes_eq_declareNodes (nodes : List Node) : ofNodes nodes = declareNodes 0 nodes {} := rfl

theorem ofNodes_concat (nodes : List Node) (node : Node) :
    ofNodes (nodes ++ [node]) = (ofNodes nodes).declareNode nodes.length node := by
  simp [ofNodes, List.zipIdx_append]

theorem pairwise_numbers_declareNodes {table : GroupTable}
    (htable : table.numbers.Pairwise (· < ·)) (first : Nat) (nodes : List Node) :
    (declareNodes first nodes table).numbers.Pairwise (· < ·) := by
  induction nodes generalizing first table with
  | nil => exact htable
  | cons node nodes ih =>
    rw [declareNodes_cons]
    exact ih (pairwise_numbers_declareNode htable first node) (first + 1)

theorem numbersNamed_declareNodes (table : GroupTable) (first : Nat) (nodes : List Node)
    (name : String) :
    (declareNodes first nodes table).numbersNamed name =
      table.numbersNamed name ++ nodes.filterMap (Node.numberNamed? name) := by
  induction nodes generalizing first table with
  | nil => simp [declareNodes]
  | cons node nodes ih =>
    rw [declareNodes_cons, ih, numbersNamed_declareNode, List.append_assoc]
    cases hnumber : node.numberNamed? name <;> simp [hnumber]

/-- Where no two groups share a number, a number stands for the group that has it. -/
theorem group?_declareNodes {table : GroupTable} {nodes : List Node}
    (hnodup : (nodes.filterMap Node.groupNumber?).Nodup) (first number id : Nat) :
    (declareNodes first nodes table).group? number = some id ↔
      (∃ index node, nodes[index]? = some node ∧ id = first + index ∧
        node.groupNumber? = some number) ∨
      (number ∉ nodes.filterMap Node.groupNumber? ∧ table.group? number = some id) := by
  induction nodes generalizing first table with
  | nil => simp [declareNodes]
  | cons node nodes ih =>
    have hnodes : (nodes.filterMap Node.groupNumber?).Nodup := by
      rw [List.filterMap_cons] at hnodup
      split at hnodup
      · exact hnodup
      · exact (List.nodup_cons.mp hnodup).2
    have hlater : (∃ index other, (node :: nodes)[index]? = some other ∧ id = first + index ∧
          other.groupNumber? = some number) ↔
        (id = first ∧ node.groupNumber? = some number) ∨
        ∃ index other, nodes[index]? = some other ∧ id = first + 1 + index ∧
          other.groupNumber? = some number := by
      constructor
      · rintro ⟨_ | index, other, hother, rfl, hnumber⟩
        · obtain rfl : node = other := by simpa using hother
          exact .inl ⟨rfl, hnumber⟩
        · exact .inr ⟨index, other, by simpa using hother, by omega, hnumber⟩
      · rintro (⟨rfl, hnumber⟩ | ⟨index, other, hother, rfl, hnumber⟩)
        · exact ⟨0, node, rfl, rfl, hnumber⟩
        · exact ⟨index + 1, other, by simpa using hother, by omega, hnumber⟩
    rw [declareNodes_cons, ih hnodes, group?_declareNode, hlater]
    by_cases hnumber : node.groupNumber? = some number
    · have hfresh : number ∉ nodes.filterMap Node.groupNumber? := by
        rw [List.filterMap_cons_some hnumber] at hnodup
        exact (List.nodup_cons.mp hnodup).1
      simp only [hnumber, if_true, hfresh, not_false_eq_true, true_and, and_true,
        List.filterMap_cons_some hnumber, List.mem_cons, not_true_eq_false, false_and,
        or_false, Option.some.injEq]
      rw [or_comm, eq_comm]
    · have hmem : number ∈ (node :: nodes).filterMap Node.groupNumber? ↔
          number ∈ nodes.filterMap Node.groupNumber? := by
        simp [List.mem_filterMap, hnumber]
      simp [hnumber, hmem]

variable {nodes : List Node}

/-- The table lists its numbers in ascending order, each once. -/
theorem pairwise_numbers_ofNodes (nodes : List Node) :
    (ofNodes nodes).numbers.Pairwise (· < ·) := by
  rw [ofNodes_eq_declareNodes]
  exact pairwise_numbers_declareNodes .nil 0 nodes

/-- A name has the numbers of the nodes with that name, in the order of the nodes. -/
theorem numbersNamed_ofNodes (nodes : List Node) (name : String) :
    (ofNodes nodes).numbersNamed name = nodes.filterMap (Node.numberNamed? name) := by
  rw [ofNodes_eq_declareNodes, numbersNamed_declareNodes]
  rfl

/-- Where no two groups share a number, a name has each of its numbers once. -/
theorem nodup_numbersNamed_ofNodes (hnodup : (nodes.filterMap Node.groupNumber?).Nodup)
    (name : String) : ((ofNodes nodes).numbersNamed name).Nodup := by
  rw [List.Nodup, List.pairwise_filterMap] at hnodup
  rw [numbersNamed_ofNodes, List.Nodup, List.pairwise_filterMap]
  refine hnodup.imp ?_
  intro earlier later hdiffer number hnumber number' hnumber'
  exact hdiffer _ (Node.groupNumber?_of_numberNamed? hnumber) _
    (Node.groupNumber?_of_numberNamed? hnumber')

theorem group?_ofNodes (hnodup : (nodes.filterMap Node.groupNumber?).Nodup) {number id : Nat} :
    (ofNodes nodes).group? number = some id ↔
      ∃ node, nodes[id]? = some node ∧ node.groupNumber? = some number := by
  have hnone : (({} : GroupTable).group? number) = none := rfl
  rw [ofNodes_eq_declareNodes, group?_declareNodes hnodup]
  simp [hnone]

theorem mem_numbers_ofNodes (hnodup : (nodes.filterMap Node.groupNumber?).Nodup) {number : Nat} :
    number ∈ (ofNodes nodes).numbers ↔ number ∈ nodes.filterMap Node.groupNumber? := by
  rw [mem_numbers_iff, Option.isSome_iff_exists, List.mem_filterMap]
  constructor
  · rintro ⟨id, hid⟩
    obtain ⟨node, hnode, hnumber⟩ := (group?_ofNodes hnodup).mp hid
    exact ⟨node, List.mem_of_getElem? hnode, hnumber⟩
  · rintro ⟨node, hnode, hnumber⟩
    obtain ⟨id, hid⟩ := List.mem_iff_getElem?.mp hnode
    exact ⟨id, (group?_ofNodes hnodup).mpr ⟨node, hid, hnumber⟩⟩

end GroupTable

end PatternTree
