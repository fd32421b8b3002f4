import PatternTree.Text.Quoted

namespace PatternTree

/-- Why a piece of a pattern is no token. -/
inductive LexCause where
  /-- Nothing follows a backslash. -/
  | loneBackslash
  /-- Nothing follows `\k`. -/
  | openReference
  /-- The pattern ends where a hexadecimal digit is missing. -/
  | openHex
  /-- Nothing follows a backslash in a bracket expression. -/
  | openClassEscape
  /-- The pattern ends inside a bracket expression. -/
  | openClass
  /-- A backreference by a number of more than 32 bits. -/
  | referenceTooLarge (digits : List Char)
  /-- A character after `\k` that opens no name. -/
  | referenceUnnamed (found : Char)
  /-- An ASCII letter or digit without a meaning after a backslash. -/
  | unknownEscape (char : Char)
  /-- The escape `\x{}`. -/
  | emptyHex
  /-- A character where a hexadecimal digit has to stand. -/
  | notHexDigit (char : Char)
  /-- A number that is no character's code. -/
  | notCharacter (code : Nat)
  /-- A set where a range has to end. -/
  | setEndsRange
  /-- The end of a range stands before its start. -/
  | rangeOutOfOrder (low high : Char)
  /-- A well-formed name in `[:name:]` that no set has. -/
  | unknownSet (name : String)
  /-- A group name without a letter or underscore at its front. -/
  | nameStart (name : String)
  /-- A group name that the expected character does not follow. -/
  | openName (name : String) (closer : Char)
  deriving DecidableEq, Repr

/-- The families of lexical errors. -/
inductive LexFamily where
  | unterminatedEscape
  | unterminatedClass
  | invalidEscape
  | invalidClassRange
  | invalidGroupName
  deriving DecidableEq, Repr

/-- A family as messages name it. -/
def LexFamily.phrase : LexFamily → String
  | unterminatedEscape => "unterminated escape"
  | unterminatedClass => "unterminated character class"
  | invalidEscape => "invalid escape"
  | invalidClassRange => "invalid class range"
  | invalidGroupName => "invalid group name"

namespace LexCause

/-- The family that a cause belongs to. -/
def family : LexCause → LexFamily
  | loneBackslash | openReference | openHex | openClassEscape => .unterminatedEscape
  | openClass => .unterminatedClass
  | referenceTooLarge _ | referenceUnnamed _ | unknownEscape _ | emptyHex | notHexDigit _
  | notCharacter _ => .invalidEscape
  | setEndsRange | rangeOutOfOrder .. | unknownSet _ => .invalidClassRange
  | nameStart _ | openName .. => .invalidGroupName

/-- A code as the message shows it: in upper case, and never above the largest number of 32
    bits. -/
def shownCode (code : Nat) : String :=
  String.ofList ((Text.hexDigits (min code 0xffffffff)).map Char.toUpper)

/-- What is said of a cause. -/
def message : LexCause → String
  | loneBackslash => "pattern ends with a lone backslash"
  | openReference => "pattern ends inside `\\k`"
  | openHex => "pattern ends inside a hexadecimal escape"
  | openClassEscape => "pattern ends inside a class escape"
  | openClass => "character class is missing its closing `]`"
  | referenceTooLarge digits =>
    "backreference number " ++ String.ofList digits ++ " is too large"
  | referenceUnnamed found =>
    "`\\k` must be followed by a group name, found `" ++ found.toString ++ "`"
  | unknownEscape char => "unknown escape `\\" ++ char.toString ++ "`"
  | emptyHex => "empty `\\x\x7b\x7d` escape"
  | notHexDigit char => "`" ++ char.toString ++ "` is not a hexadecimal digit"
  | notCharacter code => "U+" ++ shownCode code ++ " is not a valid codepoint"
  | setEndsRange => "a class cannot be the end of a range"
  | rangeOutOfOrder low high =>
    "range " ++ Text.quotedChar low ++ "-" ++ Text.quotedChar high ++ " is out of order"
  | unknownSet name => "unknown POSIX class `[:" ++ name ++ ":]`"
  | nameStart name =>
    "group name must start with a letter or `_`, found " ++ Text.quoted name
  | openName name closer => "group name `" ++ name ++ "` is not closed by `" ++
      closer.toString ++ "`"

end LexCause

/-- A failure to read a token, reported at a byte offset. -/
structure LexError where
  cause : LexCause
  offset : Nat
  deriving DecidableEq, Repr

/-- The family, the place and the cause in one line. -/
def LexError.describe (error : LexError) : String :=
  error.cause.family.phrase ++ " at offset " ++ toString error.offset ++ ": " ++ error.cause.message

end PatternTree
