import PatternTree.Token

namespace PatternTree

/-- A group as its opening announces it. A group that captures has a number; a name without a
    number only occurs in trees assembled by hand. -/
structure Group where
  number : Option Nat
  name : Option String
  deriving DecidableEq, Repr

/-- Whether what the group matches can be referred to. -/
def Group.isCapturing (group : Group) : Bool :=
  group.number.isSome

/-- The group that an opener announces when `number` is the next free number. -/
def Opener.group (number : Nat) : Opener → Group
  | capturing => ⟨some number, none⟩
  | nonCapturing => ⟨none, none⟩
  | named name => ⟨some number, some name⟩

/-- What a node of a pattern's tree stands for. References say whether their group exists, and
    a reference by name then has a number as well. -/
inductive Label where
  | literal (char : Char)
  | charClass (charClass : CharClass)
  | anchor (anchor : Anchor)
  | dot
  | group (group : Group)
  | alternation
  | concatenation
  | repetition (bounds : Bounds) (greedy : Bool)
  | backreference (number : Nat) (resolved : Bool)
  | namedBackreference (name : String) (number : Option Nat) (resolved : Bool)
  deriving DecidableEq, Repr

/-- The label of an atom. References count as unresolved until all groups are known. -/
def Atom.label : Atom → Label
  | literal char => .literal char
  | dot => .dot
  | anchor place => .anchor place
  | charClass set => .charClass set
  | backreference number => .backreference number false
  | namedBackreference name => .namedBackreference name none false

end PatternTree
