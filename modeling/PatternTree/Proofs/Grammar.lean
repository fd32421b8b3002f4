import PatternTree.Label
import PatternTree.Proofs.Lexeme

namespace PatternTree

/-- The labels of a tree and the order of its children, without any places. -/
inductive Shape where
  | node (label : Label) (children : List Shape)
  deriving Repr

namespace Shape

/-- An atom has no children, and what it refers to is left open. -/
def leaf : Atom → Shape
  | .literal char => node (.literal char) []
  | .dot => node .dot []
  | .anchor place => node (.anchor place) []
  | .charClass set => node (.charClass set) []
  | .backreference number => node (.backreference number false) []
  | .namedBackreference name => node (.namedBackreference name none false) []

/-- A group has its body as its only child. -/
def group (opener : Opener) (number : Nat) (body : Shape) : Shape :=
  match opener with
  | .capturing => node (.group ⟨some number, none⟩) [body]
  | .nonCapturing => node (.group ⟨none, none⟩) [body]
  | .named name => node (.group ⟨some number, some name⟩) [body]

/-- One item stands for itself, and any other number of items makes a concatenation. -/
def sequence : List Shape → Shape
  | [item] => item
  | items => node .concatenation items

/-- One branch stands for itself, and more branches make an alternation. -/
def choice : List Shape → Shape
  | [branch] => branch
  | branches => node .alternation branches

end Shape

/-- The bounds that counts write, however large they are. -/
def Counts.written : Counts → Bounds
  | exactly count => ⟨Text.decimalValue count, some (Text.decimalValue count)⟩
  | atLeast lower => ⟨Text.decimalValue lower, none⟩
  | between lower upper => ⟨Text.decimalValue lower, some (Text.decimalValue upper)⟩

/-- The bounds that a quantifier writes. -/
def Quantifier.written : Quantifier → Bounds
  | star => ⟨0, none⟩
  | plus => ⟨1, none⟩
  | optional => ⟨0, some 1⟩
  | counted counts => counts.written

/-- Whether a token opens a group that gets a number. -/
def TokenRole.isNumbered : TokenRole → Bool
  | opener .capturing => true
  | opener (.named _) => true
  | _ => false

/-- How many groups with a number are opened among lexemes. -/
def Lexeme.numbered (lexemes : List Lexeme) : Nat :=
  lexemes.countP (·.role.isNumbered)

/-- A quantifier as it is written behind an atom, with or without the question mark that makes
    it lazy. -/
structure Suffix where
  quantifier : Quantifier
  text : List Char
  isLazy : Bool
  deriving DecidableEq, Repr

/-- A derivation of one item in the grammar of patterns,

    - `alt := seq ('|' seq)*`,
    - `seq := item*`,
    - `item := atom [quantifier ['?']]`,
    - `atom := leaf | opener alt ')'`.

    A derivation of `seq` is the list of those of its items. One of `alt` is kept as the sequences
    that a bar follows and the last one. -/
inductive Phrase where
  | leaf (atom : Atom) (text : List Char) (suffix : Option Suffix)
  | group (opener : Opener) (text : List Char) (earlier : List (List Phrase)) (last : List Phrase)
      (suffix : Option Suffix)

/-- A derivation of `alt`. -/
structure Choice where
  earlier : List (List Phrase) := []
  last : List Phrase := []

namespace Phrase

/-- The lexeme of a bar between branches. -/
def bar : Lexeme :=
  ⟨.bar, ['|']⟩

/-- The lexeme at the end of a group. -/
def closer : Lexeme :=
  ⟨.closer, [')']⟩

/-- The lexeme behind a quantifier that is to be lazy. -/
def lazyMark : Lexeme :=
  ⟨.quantifier .optional, ['?']⟩

/-- The lexemes of an item's quantifier. -/
def suffixLexemes : Option Suffix → List Lexeme
  | none => []
  | some suffix =>
    ⟨.quantifier suffix.quantifier, suffix.text⟩ :: if suffix.isLazy then [lazyMark] else []

/-- The shape of an item with a given atom. -/
def suffixShape : Option Suffix → Shape → Shape
  | none, atom => atom
  | some suffix, atom =>
    .node (.repetition suffix.quantifier.written (!suffix.isLazy)) [atom]

mutual

/-- The lexemes that an item derives. -/
def lexemes : Phrase → List Lexeme
  | leaf atom text suffix => ⟨.atom atom, text⟩ :: suffixLexemes suffix
  | group opener text earlier last suffix =>
    ⟨.opener opener, text⟩ ::
      (earlierLexemes earlier ++ (sequenceLexemes last ++ closer :: suffixLexemes suffix))

/-- The lexemes that a sequence of items derives. -/
def sequenceLexemes : List Phrase → List Lexeme
  | [] => []
  | phrase :: phrases => phrase.lexemes ++ sequenceLexemes phrases

/-- The lexemes that sequences derive which a bar follows. -/
def earlierLexemes : List (List Phrase) → List Lexeme
  | [] => []
  | branch :: branches => sequenceLexemes branch ++ bar :: earlierLexemes branches

end

mutual

/-- The shape of an item before which a number of groups have got their numbers. -/
def shape (numbered : Nat) : Phrase → Shape
  | leaf atom _ suffix => suffixShape suffix (.leaf atom)
  | group opener text earlier last suffix =>
    let inside := numbered + Lexeme.numbered [⟨.opener opener, text⟩]
    let branches := earlierShapes inside earlier ++
      [.sequence (sequenceShapes (inside + Lexeme.numbered (earlierLexemes earlier)) last)]
    suffixShape suffix (.group opener (numbered + 1) (.choice branches))

/-- The shapes of items that stand one after the other. -/
def sequenceShapes (numbered : Nat) : List Phrase → List Shape
  | [] => []
  | phrase :: phrases =>
    phrase.shape numbered :: sequenceShapes (numbered + Lexeme.numbered phrase.lexemes) phrases

/-- The shapes of branches that stand one after the other. -/
def earlierShapes (numbered : Nat) : List (List Phrase) → List Shape
  | [] => []
  | branch :: branches =>
    .sequence (sequenceShapes numbered branch) ::
      earlierShapes (numbered + Lexeme.numbered (sequenceLexemes branch)) branches

end

end Phrase

namespace Choice

/-- The lexemes that a choice derives. -/
def lexemes (choice : Choice) : List Lexeme :=
  Phrase.earlierLexemes choice.earlier ++ Phrase.sequenceLexemes choice.last

/-- The shape of a choice before which a number of groups have got their numbers. -/
def shape (numbered : Nat) (choice : Choice) : Shape :=
  .choice (Phrase.earlierShapes numbered choice.earlier ++
    [.sequence (Phrase.sequenceShapes
      (numbered + Lexeme.numbered (Phrase.earlierLexemes choice.earlier)) choice.last)])

end Choice

namespace Lexeme

@[simp] theorem numbered_nil : numbered [] = 0 := rfl

@[simp] theorem numbered_cons (lexeme : Lexeme) (lexemes : List Lexeme) :
    numbered (lexeme :: lexemes) =
      (if lexeme.role.isNumbered then 1 else 0) + numbered lexemes := by
  simp [numbered, List.countP_cons, Nat.add_comm]

@[simp] theorem numbered_append (front back : List Lexeme) :
    numbered (front ++ back) = numbered front + numbered back := by
  simp [numbered]

theorem countP_isNumbered_place (offset : Nat) (lexemes : List Lexeme) :
    (place offset lexemes).countP (·.role.isNumbered) = numbered lexemes := by
  rw [numbered, ← map_lexeme_place offset lexemes, List.countP_map]
  simp [Function.comp_def, Token.lexeme]

end Lexeme

namespace Phrase

@[simp] theorem sequenceLexemes_append (front back : List Phrase) :
    sequenceLexemes (front ++ back) = sequenceLexemes front ++ sequenceLexemes back := by
  induction front with
  | nil => rfl
  | cons phrase front ih => simp [sequenceLexemes, ih]

@[simp] theorem sequenceLexemes_singleton (phrase : Phrase) :
    sequenceLexemes [phrase] = phrase.lexemes := by
  simp [sequenceLexemes]

@[simp] theorem earlierLexemes_append (front back : List (List Phrase)) :
    earlierLexemes (front ++ back) = earlierLexemes front ++ earlierLexemes back := by
  induction front with
  | nil => rfl
  | cons branch front ih => simp [earlierLexemes, ih]

@[simp] theorem isNumbered_bar : bar.role.isNumbered = false := rfl

@[simp] theorem isNumbered_closer : closer.role.isNumbered = false := rfl

@[simp] theorem isNumbered_lazyMark : lazyMark.role.isNumbered = false := rfl

@[simp] theorem numbered_suffixLexemes (suffix : Option Suffix) :
    Lexeme.numbered (suffixLexemes suffix) = 0 := by
  cases suffix with
  | none => rfl
  | some suffix =>
    cases hlazy : suffix.isLazy <;> simp [suffixLexemes, hlazy, lazyMark, TokenRole.isNumbered]

end Phrase

end PatternTree
