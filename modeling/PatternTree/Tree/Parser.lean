import PatternTree.Token.Lexer
import PatternTree.Tree
import PatternTree.Tree.ParseError

namespace PatternTree

/-- An item of a branch, which may still be followed by a quantifier or by the mark that makes
    its repetition lazy. -/
inductive Item where
  /-- Something that nothing repeats so far. -/
  | plain (tree : Tree)
  /-- A repetition that reaches up to the offset `stop`. -/
  | repeated (body : Tree) (bounds : Bounds) (greedy : Bool) (stop : Nat)

namespace Item

/-- The tree of an item that nothing more belongs to. -/
def tree : Item → Tree
  | plain tree => tree
  | repeated body bounds greedy stop =>
    .node (.repetition bounds greedy) ⟨body.span.start, stop⟩ [body]

/-- Adds a quantifier to an item. A repetition takes no other quantifier than one question
    mark, which makes it lazy. Counts are only looked at where they may stand. -/
def quantify (quantifier : Quantifier) (token : Token) : Item → Except ParseCause Item
  | plain tree =>
    match quantifier.bounds with
    | .ok bounds => .ok (repeated tree bounds true token.span.stop)
    | .error (.tooLarge digits) => .error (.countTooLarge digits)
    | .error .outOfOrder => .error (.countsOutOfOrder token.text)
  | repeated body bounds true _ =>
    if quantifier = .optional then .ok (repeated body bounds false token.span.stop)
    else .error (.repeatedTwice token.text)
  | repeated _ _ false _ => .error (.repeatedTwice token.text)

end Item

/-- What has been read between the parentheses of a group, or outside of all groups: the
    finished branches and the items of the last one, both latest first. -/
structure Level where
  branches : List Tree := []
  items : List Item := []

namespace Level

/-- Adds an item behind the others. -/
def push (item : Item) (level : Level) : Level :=
  { level with items := item :: level.items }

/-- The branch that ends at an offset. -/
def branch (offset : Nat) (level : Level) : Tree :=
  .sequence offset (level.items.reverse.map Item.tree)

/-- Ends the branch at an offset and starts another one. -/
def nextBranch (offset : Nat) (level : Level) : Level :=
  ⟨level.branch offset :: level.branches, []⟩

/-- The tree of a level that ends at an offset. -/
def tree (offset : Nat) (level : Level) : Tree :=
  .choice offset (level.nextBranch offset).branches.reverse

/-- Adds a quantifier to the latest item. -/
def quantify (quantifier : Quantifier) (token : Token) (level : Level) :
    Except ParseCause Level :=
  match level.items with
  | [] => .error (.nothingToRepeat token.text)
  | item :: items =>
    (item.quantify quantifier token).map fun item => { level with items := item :: items }

end Level

/-- A group that is still open, with the level it interrupts. -/
structure OpenGroup where
  group : Group
  span : Span
  outer : Level

/-- Everything that later tokens of a pattern depend on: the level that is being read, the open
    groups from the innermost one outwards, and what has been given to groups so far. -/
structure ParseState where
  level : Level := {}
  openGroups : List OpenGroup := []
  /-- How many groups have a number. -/
  numbered : Nat := 0
  names : List String := []

namespace ParseState

/-- Opens a group. It is the depth that is judged first, then the name. -/
def openGroup (dialect : Dialect) (opener : Opener) (span : Span) (state : ParseState) :
    Except ParseCause ParseState :=
  let group := opener.group (state.numbered + 1)
  let opened : ParseState :=
    { level := {}
      openGroups := ⟨group, span, state.level⟩ :: state.openGroups
      numbered := state.numbered + (if group.isCapturing then 1 else 0)
      names := group.name.toList ++ state.names }
  if dialect.maxDepth ≤ state.openGroups.length then .error (.tooDeep dialect.maxDepth)
  else
    match group.name with
    | none => .ok opened
    | some name =>
      if name ∈ state.names && !dialect.allowDuplicateNames then .error (.duplicateName name)
      else .ok opened

/-- Closes the innermost group, which becomes an item of the level it interrupted. -/
def closeGroup (token : Token) (state : ParseState) : Except ParseCause ParseState :=
  match state.openGroups with
  | [] => .error (.unmatchedCloser token.text)
  | innermost :: others =>
    let body := state.level.tree token.span.start
    let tree := .node (.group innermost.group) (innermost.span.through token.span) [body]
    .ok { state with level := innermost.outer.push (.plain tree), openGroups := others }

/-- Takes in one token. -/
def step (dialect : Dialect) (state : ParseState) (token : Token) :
    Except ParseCause ParseState :=
  match token.role with
  | .atom atom =>
    .ok { state with level := state.level.push (.plain (.leaf atom.label token.span)) }
  | .quantifier quantifier =>
    (state.level.quantify quantifier token).map fun level => { state with level }
  | .bar => .ok { state with level := state.level.nextBranch token.span.start }
  | .opener opener => state.openGroup dialect opener token.span
  | .closer => state.closeGroup token

/-- Takes in tokens from left to right. A token that does not fit is reported at its start. -/
def run (dialect : Dialect) (state : ParseState) :
    List Token → Except ParseError ParseState
  | [] => .ok state
  | token :: tokens =>
    match state.step dialect token with
    | .error cause => .error ⟨cause, token.span.start⟩
    | .ok next => next.run dialect tokens

/-- The tree of a pattern that ends at an offset. A group that is still open is reported at its
    start, and the innermost one is the one reported. -/
def finish (offset : Nat) (state : ParseState) : Except ParseError Tree :=
  match state.openGroups with
  | [] => .ok (state.level.tree offset)
  | innermost :: _ => .error ⟨.openGroup, innermost.span.start⟩

end ParseState

namespace Tree

/-- The tree of a sequence of tokens that ends at an offset. -/
def ofTokens (dialect : Dialect) (offset : Nat) (tokens : List Token) : Except ParseError Tree :=
  match ParseState.run dialect {} tokens with
  | .error error => .error error
  | .ok state => state.finish offset

/-- The tree of a text. A token that does not fit is reported even when a later part of the text
    is no token; groups that are not closed only matter where all of the text is tokens. -/
def ofText (dialect : Dialect) (chars : List Char) : Except PatternError Tree :=
  let scan := Scan.ofText dialect.classSyntax 0 chars
  match scan.failure with
  | none => (ofTokens dialect (Text.utf8Size chars) scan.tokens).mapError .structural
  | some failure =>
    match ParseState.run dialect {} scan.tokens with
    | .error error => .error (.structural error)
    | .ok _ => .error (.lexical failure)

end Tree

end PatternTree
