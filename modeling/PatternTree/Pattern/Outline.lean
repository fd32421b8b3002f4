import PatternTree.Pattern.Walk
import PatternTree.Text.Quoted

namespace PatternTree

/-- A range in a listing, where a range of one character shows it once. -/
def ClassRange.describe (range : ClassRange) : String :=
  if range.low = range.high then Text.quotedChar range.low
  else Text.quotedChar range.low ++ "-" ++ Text.quotedChar range.high

/-- A set in a listing. -/
def CharClass.describe (charClass : CharClass) : String :=
  "CharacterClass" ++ (if charClass.negated then " negated" else "") ++
    String.join (charClass.ranges.map fun range => " " ++ range.describe)

/-- A group in a listing. -/
def Group.describe (group : Group) : String :=
  let number := match group.number with
    | some number => " " ++ toString number
    | none => " non-capturing"
  let name := match group.name with
    | some name => " <" ++ name ++ ">"
    | none => ""
  "Group" ++ number ++ name

/-- Bounds in a listing. -/
def Bounds.describe (bounds : Bounds) : String :=
  let max := match bounds.max with
    | some max => toString max
    | none => ""
  "\x7b" ++ toString bounds.min ++ "," ++ max ++ "\x7d"

/-- A label in a listing. -/
def Label.describe : Label → String
  | literal char => "Literal " ++ Text.quotedChar char
  | charClass set => set.describe
  | anchor place => "Anchor " ++ place.name
  | dot => "Dot"
  | group opened => opened.describe
  | alternation => "Alternation"
  | concatenation => "Concatenation"
  | repetition bounds greedy =>
    "Repetition " ++ bounds.describe ++ (if greedy then "" else " lazy")
  | backreference number resolved =>
    "Backreference " ++ toString number ++ (if resolved then "" else " unresolved")
  | namedBackreference name _ resolved =>
    "NamedBackreference <" ++ name ++ ">" ++ (if resolved then "" else " unresolved")

namespace Pattern

/-- A node's entry in a listing: its label, its span and its text, two columns further to the
    right than its parent. There is none for a node without a text. -/
def entry? (pattern : Pattern) (visit : Visit) : Option String :=
  match pattern.node? visit.node, pattern.text? visit.node with
  | some node, some text =>
    let indent := String.ofList (List.replicate (2 * visit.depth) ' ')
    let place := " " ++ toString node.span.start ++ ".." ++ toString node.span.stop ++ " "
    let mark := if visit.again then " (revisited)" else ""
    some (indent ++ node.label.describe ++ place ++ Text.quoted text ++ mark)
  | _, _ => none

/-- The entries of all nodes from the root on, in pre-order. A node that has appeared before is
    marked, and its children are not repeated. -/
def entries? (pattern : Pattern) : Option (List String) :=
  (pattern.visits 0 [pattern.root]).mapM pattern.entry?

/-- The listing of a pattern, of which every entry ends with a line feed. There is none when a
    node has no text. -/
def outline? (pattern : Pattern) : Option String :=
  pattern.entries?.map fun entries => String.join (entries.map (· ++ "\n"))

end Pattern

end PatternTree
