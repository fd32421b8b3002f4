import PatternTree.Pattern.Parse
import PatternTree.Proofs.Cursor.Lexer
import PatternTree.Proofs.Draft

namespace PatternTree

/-- The error of a pattern as it is reported. -/
inductive PatternReport where
  | lexical (report : LexReport)
  | structural (error : ParseError)
  deriving DecidableEq, Repr

/-- What is reported of an error. -/
def PatternError.report : PatternError → PatternReport
  | lexical error => .lexical error.report
  | structural error => .structural error

/-- Why a quantifier that is written as `text` has no bounds. -/
def CountError.cause (text : List Char) : CountError → ParseCause
  | tooLarge digits => .countTooLarge digits
  | outOfOrder => .countsOutOfOrder text

/-- The bounds of a quantifier. Counts are read from the text of the token. -/
def Quantifier.boundsIn? (text : List Char) : Quantifier → Option (Except CountError Bounds)
  | counted _ => (Counts.ofText? text).map Counts.bounds
  | simple => some simple.bounds

namespace Builder

/-- What a pattern is built from. -/
structure Task where
  dialect : Dialect
  chars : List Char

/-- What has been read between the parentheses of a group, or outside of all groups: the
    numbers of the nodes for the finished branches and for the items of the last one. -/
structure Frame where
  choiceStart : Nat
  branchStart : Nat
  branches : List Nat := []
  items : List Nat := []

/-- A group that is still open, with the frame it interrupts. -/
structure Pending where
  outer : Frame
  group : Group
  span : Span

/-- The frame with one more item. -/
def Frame.push (item : Nat) (frame : Frame) : Frame :=
  { frame with items := frame.items ++ [item] }

end Builder

/-- A parser that adds nodes to a draft while it takes tokens from a lexer, of which it sees one
    ahead. -/
structure Builder where
  lexer : Lexer := {}
  lookahead : Option Token := none
  /-- The end of the token that was taken last. -/
  lastStop : Nat := 0
  nextNumber : Nat := 1
  names : List String := []
  draft : Draft := {}

/-- Work of a builder. -/
abbrev Build : Type → Type :=
  Work Builder.Task Builder PatternReport

namespace Build

open Work Builder

/-- Reports why a token does not fit. -/
def fail {α : Type} (cause : ParseCause) (offset : Nat) : Build α :=
  Work.fail (.structural ⟨cause, offset⟩)

/-- The next token, which is kept until it is taken. -/
def peek : Build (Option Token) := fun task builder =>
  match builder.lookahead with
  | some token => .done (some token) builder
  | none =>
    match builder.lexer.next? task.dialect.classSyntax task.chars with
    | none => .broken
    | some (none, lexer) => .done none { builder with lexer }
    | some (some (.error report), _) => .failed (.lexical report)
    | some (some (.ok token), lexer) =>
      .done (some token) { builder with lexer, lookahead := some token }

/-- Takes the next token. -/
def advance : Build (Option Token) := do
  match ← peek with
  | none => return none
  | some token => do
    modify fun builder => { builder with lookahead := none, lastStop := token.span.stop }
    return some token

/-- The offset at which the next token starts, or at which the text ends. -/
def offset : Build Nat := do
  match ← peek with
  | none => return Text.utf8Size (← given).chars
  | some token => return token.span.start

/-- Changes the draft in a way that need not be possible. -/
def drafted {α : Type} (change : Draft → Option (Draft × α)) : Build α := do
  let builder ← get
  let (draft, value) ← demand (change builder.draft)
  modify fun builder => { builder with draft }
  return value

/-- Adds a node. -/
def push (label : Label) (span : Span) : Build Nat :=
  drafted fun draft => some (draft.push label span)

/-- The span between two offsets, which have to be in order. -/
def span (start stop : Nat) : Build Span :=
  demand (if start ≤ stop then some ⟨start, stop⟩ else none)

/-- A single node is taken as it is. Otherwise a node is put around all of them. -/
def bundle (label : Label) (place : Build Span) : List Nat → Build Nat
  | [single] => return single
  | ids => do
    let span ← place
    drafted (·.join? label span ids)

/-- Ends the last branch of a frame. -/
def closeBranch (frame : Frame) (stop : Nat) : Build Frame := do
  let place := if frame.items.isEmpty then return .empty frame.branchStart
    else span frame.branchStart stop
  let branch ← bundle .concatenation place frame.items
  return { frame with branches := frame.branches ++ [branch], items := [] }

/-- Ends a frame. -/
def closeFrame (frame : Frame) (stop : Nat) : Build Nat := do
  let closed ← closeBranch frame stop
  bundle .alternation (span closed.choiceStart stop) closed.branches

/-- The next free number, which has to leave room for another one in 32 bits. -/
def number : Build Nat := do
  let builder ← get
  let next ← demand (if Text.fits32 (builder.nextNumber + 1) then some (builder.nextNumber + 1)
    else none)
  modify fun builder => { builder with nextNumber := next }
  return builder.nextNumber

/-- The group that an opener announces at some depth. -/
def openGroup (opener : Opener) (span : Span) (depth : Nat) : Build Group := do
  let dialect := (← given).dialect
  if dialect.maxDepth < depth then fail (.tooDeep dialect.maxDepth) span.start
  else
    match opener with
    | .capturing => return ⟨some (← number), none⟩
    | .nonCapturing => return ⟨none, none⟩
    | .named name => do
      let names := (← get).names
      modify fun builder => { builder with names := name :: names }
      if name ∈ names && !dialect.allowDuplicateNames then fail (.duplicateName name) span.start
      else return ⟨some (← number), some name⟩

/-- Adds the node of a group that ends here. -/
def closeGroup (group : Group) (opening : Span) (body : Nat) : Build Nat := do
  let place ← span opening.start (← get).lastStop
  drafted (·.joinGroup? group place body)

/-- The bounds of a quantifier, which have to be bounds. -/
def boundsOf (quantifier : Quantifier) (token : Token) : Build Bounds := do
  match ← demand (quantifier.boundsIn? token.text) with
  | .ok bounds => return bounds
  | .error error => fail (error.cause token.text) token.span.start

/-- Takes the question mark that makes a repetition lazy, unless the repetition is greedy. -/
def isGreedy : Build Bool := do
  match ← peek with
  | none => return true
  | some token =>
    if token.role = .quantifier .optional then do
      let _ ← advance
      return false
    else return true

/-- Refuses another quantifier. -/
def endRepetition : Build Unit := do
  match ← peek with
  | none => return ()
  | some token =>
    if token.role.isQuantifier then fail (.repeatedTwice token.text) token.span.start
    else return ()

/-- Adds the node of a repetition around an item. It ends where the last token did. -/
def closeRepetition (bounds : Bounds) (greedy : Bool) (item : Nat) : Build Nat := do
  let builder ← get
  let node ← demand builder.draft.nodes[item]?
  let place ← span node.span.start builder.lastStop
  drafted (·.join? (.repetition bounds greedy) place [item])

/-- Makes a repetition of an item when a quantifier follows. -/
def repetition (item : Nat) : Build Nat := do
  match ← peek with
  | none => return item
  | some token =>
    match token.role with
    | .quantifier quantifier => do
      let bounds ← boundsOf quantifier token
      let _ ← advance
      let greedy ← isGreedy
      endRepetition
      closeRepetition bounds greedy item
    | _ => return item

/-- Adds an item to a frame, with the quantifier behind it. -/
def addItem (frame : Frame) (pending : List Pending) (item : Nat) :
    Build (Frame × List Pending) := do
  return (frame.push (← repetition item), pending)

/-- Takes a token in where the last one ended at `stop`. The innermost frame and the open groups
    around it change. -/
def take (stop : Nat) (token : Token) (frame : Frame) (pending : List Pending) :
    Build (Frame × List Pending) := do
  match token.role with
  | .atom atom => do addItem frame pending (← push atom.label token.span)
  | .quantifier _ => fail (.nothingToRepeat token.text) token.span.start
  | .bar => do
    let closed ← closeBranch frame stop
    return ({ closed with branchStart := ← offset }, pending)
  | .opener opener => do
    let group ← openGroup opener token.span (pending.length + 1)
    let start ← offset
    return ({ choiceStart := start, branchStart := start }, ⟨frame, group, token.span⟩ :: pending)
  | .closer =>
    match pending with
    | [] => fail (.unmatchedCloser token.text) token.span.start
    | innermost :: others => do
      let body ← closeFrame frame stop
      addItem innermost.outer others (← closeGroup innermost.group innermost.span body)

/-- Takes the next token in, or leaves the root where the text ends. -/
def turn (levels : Frame × List Pending) : Build (Turn (Frame × List Pending) Nat) := do
  let (frame, pending) := levels
  let stop := (← get).lastStop
  match ← advance with
  | some token => return .again (← take stop token frame pending)
  | none =>
    match pending with
    | [] => return .leave (← closeFrame frame stop)
    | innermost :: _ => fail .openGroup innermost.span.start

/-- Reads the whole text and settles its references. A loop that takes more turns than the text
    has bytes, with one for its end, is taken to go on for ever. -/
def pattern (source : String) : Build Pattern := do
  let start ← offset
  let root ← turns turn (Text.utf8Size (← given).chars + 1)
    ({ choiceStart := start, branchStart := start }, [])
  drafted fun draft => (draft.settleAll? (List.range draft.nodes.size)).map (·, ())
  return (← get).draft.finish source root

end Build

/-- Builds the pattern of a text. There is none, and no error either, where the builder or its
    lexer breaks. -/
def Builder.build? (dialect : Dialect) (source : String) : Option (Except PatternReport Pattern) :=
  match Build.pattern source ⟨dialect, source.toList⟩ {} with
  | .broken => none
  | .failed report => some (.error report)
  | .done pattern _ => some (.ok pattern)

end PatternTree
