import PatternTree.Node

namespace PatternTree

/-- A finding that does not keep a pattern from being used: a reference to a group that does
    not exist. -/
structure Diagnostic where
  span : Span
  message : String
  deriving DecidableEq, Repr

namespace Diagnostic

/-- The name of this kind of finding in reports. -/
def kindName : String :=
  "UnresolvedBackreference"

/-- The place and the message in one line. -/
def describe (diagnostic : Diagnostic) : String :=
  toString diagnostic.span.start ++ ".." ++ toString diagnostic.span.stop ++ ": " ++
    diagnostic.message

end Diagnostic

/-- Which node is the group with a number, in ascending order of the numbers, and which numbers
    the groups with a name have, in the order in which they were declared. -/
structure GroupTable where
  byNumber : List (Nat × Nat) := []
  byName : List (String × List Nat) := []
  deriving DecidableEq, Repr

namespace GroupTable

/-- Puts an entry into a list in ascending order. The entry takes the place of one with its
    number. -/
def insertNumber (number node : Nat) : List (Nat × Nat) → List (Nat × Nat)
  | [] => [(number, node)]
  | (other, otherNode) :: rest =>
    if number < other then (number, node) :: (other, otherNode) :: rest
    else if number = other then (number, node) :: rest
    else (other, otherNode) :: insertNumber number node rest

/-- Adds a number behind those that a name already has. -/
def appendName (name : String) (number : Nat) : List (String × List Nat) → List (String × List Nat)
  | [] => [(name, [number])]
  | (other, numbers) :: rest =>
    if name = other then (other, numbers ++ [number]) :: rest
    else (other, numbers) :: appendName name number rest

/-- Makes a node the group with a number, and one of those with a name. -/
def declare (number node : Nat) (name : Option String) (table : GroupTable) : GroupTable :=
  { byNumber := insertNumber number node table.byNumber
    byName :=
      match name with
      | none => table.byName
      | some name => appendName name number table.byName }

/-- The node that is the group with a number. -/
def group? (number : Nat) (table : GroupTable) : Option Nat :=
  table.byNumber.lookup number

/-- The numbers of the groups with a name, in the order of their declarations. -/
def numbersNamed (name : String) (table : GroupTable) : List Nat :=
  (table.byName.lookup name).getD []

/-- The group with a name, which is the one declared first of several. -/
def groupNamed? (name : String) (table : GroupTable) : Option Nat :=
  (table.numbersNamed name).head?.bind table.group?

private theorem lookup_cons_eq_ite {α β : Type} [DecidableEq α] (key other : α) (value : β)
    (entries : List (α × β)) :
    ((key, value) :: entries).lookup other =
      if other = key then some value else entries.lookup other := by
  by_cases hother : other = key
  · simp [hother]
  · have hbeq : (other == key) = false := by simpa using hother
    simp [List.lookup_cons, hother, hbeq]

private theorem lookup_insertNumber (number node other : Nat) (entries : List (Nat × Nat)) :
    (insertNumber number node entries).lookup other =
      if other = number then some node else entries.lookup other := by
  induction entries with
  | nil => simp [insertNumber, lookup_cons_eq_ite]
  | cons entry rest ih =>
    obtain ⟨first, firstNode⟩ := entry
    unfold insertNumber
    by_cases hlt : number < first
    · rw [if_pos hlt, lookup_cons_eq_ite]
    · rw [if_neg hlt]
      by_cases heq : number = first
      · subst heq
        by_cases hother : other = number <;> simp [lookup_cons_eq_ite, hother]
      · rw [if_neg heq, lookup_cons_eq_ite, lookup_cons_eq_ite, ih]
        by_cases hother : other = number
        · subst hother
          simp [heq]
        · simp [hother]

private theorem lookup_appendName (name other : String) (number : Nat)
    (entries : List (String × List Nat)) :
    ((appendName name number entries).lookup other).getD [] =
      (entries.lookup other).getD [] ++ (if other = name then [number] else []) := by
  induction entries with
  | nil => by_cases hother : other = name <;> simp [appendName, lookup_cons_eq_ite, hother]
  | cons entry rest ih =>
    obtain ⟨first, numbers⟩ := entry
    unfold appendName
    by_cases heq : name = first
    · subst heq
      by_cases hother : other = name <;> simp [lookup_cons_eq_ite, hother]
    · rw [if_neg heq, lookup_cons_eq_ite, lookup_cons_eq_ite]
      by_cases hfirst : other = first
      · subst hfirst
        simp [Ne.symm heq]
      · simpa [hfirst] using ih

/-- A declaration settles its own number and no other. -/
theorem group?_declare (table : GroupTable) (number node other : Nat) (name : Option String) :
    (table.declare number node name).group? other =
      if other = number then some node else table.group? other :=
  lookup_insertNumber number node other table.byNumber

/-- A declaration adds its number behind those of its name, and to no other name. -/
theorem numbersNamed_declare (table : GroupTable) (number node : Nat) (name : Option String)
    (other : String) :
    (table.declare number node name).numbersNamed other =
      table.numbersNamed other ++ (if name = some other then [number] else []) := by
  cases name with
  | none => simp [declare, numbersNamed]
  | some name =>
    simp only [declare, numbersNamed, lookup_appendName, Option.some.injEq]
    by_cases hother : other = name
    · simp [hother]
    · simp [hother, Ne.symm hother]

/-- Adds a node to the table when it is a group with a number. -/
def declareNode (table : GroupTable) (id : Nat) (node : Node) : GroupTable :=
  match node.label with
  | .group ⟨some number, name⟩ => table.declare number id name
  | _ => table

/-- The groups among numbered nodes, declared in the order of the nodes. -/
def ofNodes (nodes : List Node) : GroupTable :=
  nodes.zipIdx.foldl (fun table (node, id) => table.declareNode id node) {}

/-- Settles whether a reference has a group. A reference by name takes the number that was
    declared first under it. -/
def resolve (table : GroupTable) : Label → Label
  | .backreference number _ => .backreference number (table.group? number).isSome
  | .namedBackreference name _ _ =>
    let number := (table.numbersNamed name).head?
    .namedBackreference name number number.isSome
  | label => label

/-- The finding for a settled node, when it is a reference without a group. -/
def diagnose? (node : Node) : Option Diagnostic :=
  match node.label with
  | .backreference number false =>
    some ⟨node.span, "backreference to undefined group " ++ toString number⟩
  | .namedBackreference name _ false =>
    some ⟨node.span, "backreference to undefined group `" ++ name ++ "`"⟩
  | _ => none

end GroupTable

end PatternTree
