import PatternTree.Proofs.Grammar
import PatternTree.Proofs.Text.Digits

namespace PatternTree

/-- A character as an escape with its code. -/
def Text.hexEscape (char : Char) : List Char :=
  '\\' :: 'x' :: '\x7b' :: (Text.upperHex char.toNat ++ ['\x7d'])

/-- A range by the codes of its ends, of which a range of one character has one. -/
def ClassRange.print (range : ClassRange) : List Char :=
  if range.low = range.high then Text.hexEscape range.low
  else Text.hexEscape range.low ++ '-' :: Text.hexEscape range.high

/-- A set as a bracket expression with its ranges in order. -/
def CharClass.print (set : CharClass) : List Char :=
  '[' :: ((if set.negated then ['^'] else []) ++ (set.ranges.flatMap ClassRange.print ++ [']']))

/-- The text of an anchor. -/
def Anchor.print : Anchor → List Char
  | startLine => ['^']
  | endLine => ['$']
  | wordBoundary => ['\\', 'b']
  | notWordBoundary => ['\\', 'B']
  | startText => ['\\', 'A']
  | endText => ['\\', 'z']
  | endTextOptionalNewline => ['\\', 'Z']

/-- What opens a group. -/
def Group.opening : Group → List Char
  | ⟨_, some name⟩ => '(' :: '?' :: '<' :: (name.toList ++ ['>'])
  | ⟨some _, none⟩ => ['(']
  | ⟨none, none⟩ => ['(', '?', ':']

/-- Bounds in braces. An upper bound like the lower one is left out. -/
def Bounds.print : Bounds → List Char
  | ⟨min, none⟩ => '\x7b' :: (Text.decimal min ++ [',', '\x7d'])
  | ⟨min, some max⟩ =>
    '\x7b' :: (Text.decimal min ++
      ((if max = min then [] else ',' :: Text.decimal max) ++ ['\x7d']))

/-- The text of a node with a label, given the texts of its children. -/
def Shape.printLabel (inner : List (List Char)) : Label → List Char
  | .literal char => Text.hexEscape char
  | .charClass set => set.print
  | .anchor place => place.print
  | .dot => ['.']
  | .group group => group.opening ++ (inner.flatten ++ [')'])
  | .alternation => ['|'].intercalate inner
  | .concatenation => inner.flatten
  | .repetition bounds greedy => inner.flatten ++ (bounds.print ++ if greedy then [] else ['?'])
  | .backreference number _ => '\\' :: Text.decimal number
  | .namedBackreference name _ _ => '\\' :: 'k' :: '<' :: (name.toList ++ ['>'])

namespace Shape

mutual

/-- The canonical text of a shape. -/
def print : Shape → List Char
  | node label children => printLabel (prints children) label

/-- The canonical texts of several shapes. -/
def prints : List Shape → List (List Char)
  | [] => []
  | shape :: shapes => shape.print :: prints shapes

end

mutual

/-- The groups of a shape in the order in which they are opened. -/
def groups : Shape → List Group
  | node (.group group) children => group :: groupsOfAll children
  | node _ children => groupsOfAll children

/-- The groups of several shapes. -/
def groupsOfAll : List Shape → List Group
  | [] => []
  | shape :: shapes => shape.groups ++ groupsOfAll shapes

end

mutual

/-- How many groups of a shape are open at once. -/
def depth : Shape → Nat
  | node (.group _) children => depthOfAll children + 1
  | node _ children => depthOfAll children

/-- How many groups of several shapes are open at once. -/
def depthOfAll : List Shape → Nat
  | [] => 0
  | shape :: shapes => max shape.depth (depthOfAll shapes)

end

/-- Whether a quantifier may follow a shape: it is a leaf or a group. -/
def isAtom : Shape → Bool
  | node .alternation _ => false
  | node .concatenation _ => false
  | node (.repetition _ _) _ => false
  | _ => true

/-- Whether a shape is one item of a sequence: a leaf, a group or a repetition. -/
def isItem : Shape → Bool
  | node .alternation _ => false
  | node .concatenation _ => false
  | _ => true

/-- Whether a shape is one branch of an alternation. -/
def isBranch : Shape → Bool
  | node .alternation _ => false
  | _ => true

end Shape

/-- What a leaf may stand for: a class has ranges and their ends are in order, and a reference
    has a number that 32 bits hold, from one on, or an identifier. -/
def Atom.Proper : Atom → Prop
  | .charClass set => set.ranges ≠ [] ∧ ∀ range ∈ set.ranges, range.low ≤ range.high
  | .backreference number => 0 < number ∧ Text.fits32 number
  | .namedBackreference name => Escape.isName name.toList
  | _ => True

/-- A group with a name has an identifier and a number as well. -/
def Group.Proper (group : Group) : Prop :=
  ∀ name, group.name = some name → Escape.isName name.toList ∧ group.number.isSome

/-- Bounds in order that 32 bits hold. -/
def Bounds.Proper (bounds : Bounds) : Prop :=
  Text.fits32 bounds.min ∧ ∀ max, bounds.max = some max → bounds.min ≤ max ∧ Text.fits32 max

namespace Shape

/-- The shapes that the parser builds, apart from the numbers and names of groups: a repetition
    has a leaf or a group below it, a concatenation no or at least two items that are no
    concatenations or alternations, and an alternation at least two branches that are no
    alternations. -/
inductive Normal : Shape → Prop where
  | leaf {atom : Atom} (hatom : atom.Proper) : Normal (.leaf atom)
  | group {group : Group} {body : Shape} (hgroup : group.Proper) (hbody : Normal body) :
      Normal (.node (.group group) [body])
  | repetition {bounds : Bounds} {body : Shape} (greedy : Bool) (hbounds : bounds.Proper)
      (hbody : Normal body) (hatom : body.isAtom) :
      Normal (.node (.repetition bounds greedy) [body])
  | concatenation {items : List Shape} (hcount : items.length ≠ 1)
      (hitems : ∀ item ∈ items, Normal item) (hkind : ∀ item ∈ items, item.isItem) :
      Normal (.node .concatenation items)
  | alternation {branches : List Shape} (hcount : 2 ≤ branches.length)
      (hbranches : ∀ branch ∈ branches, Normal branch)
      (hkind : ∀ branch ∈ branches, branch.isBranch) :
      Normal (.node .alternation branches)

/-- The numbers of the groups of a shape in the order in which they are opened. -/
def numbers (shape : Shape) : List Nat :=
  shape.groups.filterMap Group.number

/-- The names of the groups of a shape in the order in which they are opened. -/
def names (shape : Shape) : List String :=
  shape.groups.filterMap Group.name

/-- The shapes that the parser builds under a dialect: groups are numbered from one on in the
    order in which they are opened, their names differ, and at most as many of them are open at
    once as the dialect allows. -/
structure NormalIn (dialect : Dialect) (shape : Shape) : Prop where
  normal : shape.Normal
  numbers : shape.numbers = List.range' 1 shape.numbers.length
  names : shape.names.Nodup
  depth : shape.depth ≤ dialect.maxDepth

end Shape

end PatternTree
