import PatternTree.LexError

namespace PatternTree

/-- Why a sequence of tokens is no pattern. -/
inductive ParseCause where
  /-- A second group with a name, where names have to differ. -/
  | duplicateName (name : String)
  /-- A repetition count of more than 32 bits. -/
  | countTooLarge (digits : List Char)
  /-- Counts of which the upper one is below the lower one. -/
  | countsOutOfOrder (text : List Char)
  /-- More groups open at once than the dialect allows. -/
  | tooDeep (limit : Nat)
  /-- The pattern ends inside a group. -/
  | openGroup
  /-- A closing parenthesis outside of all groups. -/
  | unmatchedCloser (text : List Char)
  /-- A quantifier at the front of a branch. -/
  | nothingToRepeat (text : List Char)
  /-- A quantifier directly after another one. -/
  | repeatedTwice (text : List Char)
  deriving DecidableEq, Repr

/-- The families of structural errors. -/
inductive ParseFamily where
  | duplicateGroupName
  | invalidRepetitionBounds
  | maxDepthExceeded
  | unbalancedGroup
  | unexpectedToken
  deriving DecidableEq, Repr

/-- A family as messages name it. -/
def ParseFamily.phrase : ParseFamily → String
  | duplicateGroupName => "duplicate group name"
  | invalidRepetitionBounds => "invalid repetition bounds"
  | maxDepthExceeded => "maximum nesting depth exceeded"
  | unbalancedGroup => "unbalanced group"
  | unexpectedToken => "unexpected token"

namespace ParseCause

/-- The family that a cause belongs to. -/
def family : ParseCause → ParseFamily
  | duplicateName _ => .duplicateGroupName
  | countTooLarge _ | countsOutOfOrder _ => .invalidRepetitionBounds
  | tooDeep _ => .maxDepthExceeded
  | openGroup | unmatchedCloser _ => .unbalancedGroup
  | nothingToRepeat _ | repeatedTwice _ => .unexpectedToken

/-- What is said of a cause. -/
def message : ParseCause → String
  | duplicateName name => "group name `" ++ name ++ "` is already defined"
  | countTooLarge digits => "repetition count " ++ String.ofList digits ++ " is too large"
  | countsOutOfOrder text =>
    "`" ++ String.ofList text ++ "` has an upper bound below its lower bound"
  | tooDeep limit => "groups nested deeper than " ++ toString limit
  | openGroup => "group is never closed"
  | unmatchedCloser text => "unmatched `" ++ String.ofList text ++ "`"
  | nothingToRepeat text => "`" ++ String.ofList text ++ "` has nothing to repeat"
  | repeatedTwice text => "`" ++ String.ofList text ++ "` cannot follow another repetition"

end ParseCause

/-- A failure to fit a token into the structure of a pattern, reported at a byte offset. -/
structure ParseError where
  cause : ParseCause
  offset : Nat
  deriving DecidableEq, Repr

/-- The family, the place and the cause in one line. -/
def ParseError.describe (error : ParseError) : String :=
  error.cause.family.phrase ++ " at offset " ++ toString error.offset ++ ": " ++ error.cause.message

/-- Why a text is no pattern: it has no tokens, or its tokens have no structure. -/
inductive PatternError where
  | lexical (error : LexError)
  | structural (error : ParseError)
  deriving DecidableEq, Repr

namespace PatternError

/-- The place for which the error is reported. -/
def offset : PatternError → Nat
  | lexical error => error.offset
  | structural error => error.offset

/-- What is said of the error's cause. -/
def message : PatternError → String
  | lexical error => error.cause.message
  | structural error => error.cause.message

/-- The whole error in one line. -/
def describe : PatternError → String
  | lexical error => "lex error: " ++ error.describe
  | structural error => "parse error: " ++ error.describe

end PatternError

end PatternTree
