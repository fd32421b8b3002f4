import PatternTree.CharClass
import PatternTree.Quantifier
import PatternTree.Span

namespace PatternTree

/-- The places between characters that a pattern can ask for. -/
inductive Anchor where
  | startLine
  | endLine
  | wordBoundary
  | notWordBoundary
  | startText
  | endText
  | endTextOptionalNewline
  deriving DecidableEq, Repr

/-- The name of an anchor in listings. -/
def Anchor.name : Anchor → String
  | startLine => "StartLine"
  | endLine => "EndLine"
  | wordBoundary => "WordBoundary"
  | notWordBoundary => "NotWordBoundary"
  | startText => "StartText"
  | endText => "EndText"
  | endTextOptionalNewline => "EndTextOptionalNewline"

/-- A part of a pattern that stands for itself and has no parts of its own. -/
inductive Atom where
  | literal (char : Char)
  | dot
  | anchor (anchor : Anchor)
  | charClass (charClass : CharClass)
  | backreference (number : Nat)
  | namedBackreference (name : String)
  deriving DecidableEq, Repr

/-- The ways to open a group. Capturing and named groups get a number. -/
inductive Opener where
  | capturing
  | nonCapturing
  | named (name : String)
  deriving DecidableEq, Repr

/-- What a token does in the structure of a pattern. -/
inductive TokenRole where
  | atom (atom : Atom)
  | quantifier (quantifier : Quantifier)
  | bar
  | opener (opener : Opener)
  | closer
  deriving DecidableEq, Repr

/-- Whether a token says how often what stands before it occurs. -/
def TokenRole.isQuantifier : TokenRole → Bool
  | quantifier _ => true
  | _ => false

/-- A token with the text it was read from and the place of that text. -/
structure Token where
  role : TokenRole
  text : List Char
  span : Span
  deriving DecidableEq, Repr

end PatternTree
