import PatternTree.CharClass.Named
import PatternTree.Token
import PatternTree.Token.Reading

namespace PatternTree

namespace Escape

/-- The fault of a text that starts where a hexadecimal digit is missing. -/
def missingHexDigit : List Char → LexCause
  | [] => .openHex
  | char :: _ => .notHexDigit char

/-- The character with a code. The surrogates and the numbers past U+10FFFF are none. -/
def character (code : Nat) : Except LexCause Char :=
  if code.isValidChar then .ok (Char.ofNat code) else .error (.notCharacter code)

/-- Reads a character's code in exactly `width` hexadecimal digits. -/
def readFixedHex (width : Nat) (chars : List Char) : Reading LexCause Char :=
  let digits := (chars.take width).takeWhile Text.isHexDigit
  if digits.length = width then
    (character (Text.hexadecimalValue digits)).map (·, chars.drop width)
  else .error (missingHexDigit (chars.drop digits.length))

/-- Reads a character's code in any positive number of hexadecimal digits and the brace after
    them. How many there are has no bound here; a reader that counts them in 32 bits agrees with
    this one as long as they can be counted. -/
def readBracedHex (chars : List Char) : Reading LexCause Char :=
  let digits := chars.takeWhile Text.isHexDigit
  match chars.dropWhile Text.isHexDigit with
  | '\x7d' :: rest =>
    if digits.isEmpty then .error .emptyHex
    else (character (Text.hexadecimalValue digits)).map (·, rest)
  | rest => .error (missingHexDigit rest)

/-- The control characters that a backslash and a letter or zero stand for. -/
def control? : Char → Option Char
  | 'n' => some '\n'
  | 'r' => some '\r'
  | 't' => some '\t'
  | 'f' => some '\x0c'
  | 'v' => some '\x0b'
  | 'a' => some '\x07'
  | 'e' => some '\x1b'
  | '0' => some '\x00'
  | _ => none

/-- Reads an escape for one character, of which `char` follows the backslash. Apart from the
    named controls and the codes, only characters that are no ASCII letter or digit may be
    escaped; they stand for themselves. -/
def readCharacter (char : Char) (chars : List Char) : Reading LexCause Char :=
  match control? char with
  | some named => .ok (named, chars)
  | none =>
    match char, chars with
    | 'x', '\x7b' :: rest => readBracedHex rest
    | 'x', chars => readFixedHex 2 chars
    | 'u', chars => readFixedHex 4 chars
    | char, chars =>
      if char.isAlphanum then .error (.unknownEscape char) else .ok (char, chars)

/-- An ASCII letter, a digit or an underscore, of which group names consist. -/
def isNameChar (char : Char) : Bool :=
  char.isAlphanum || char = '_'

/-- Names of groups consist of ASCII letters, digits and underscores and start with no
    digit. -/
def isName : List Char → Bool
  | [] => false
  | first :: rest => isNameChar first && !first.isDigit && rest.all isNameChar

/-- Reads the longest possible group name and the character that has to follow it. -/
def readName (closer : Char) (chars : List Char) : Reading LexCause String :=
  let name := chars.takeWhile isNameChar
  if isName name then
    match chars.dropWhile isNameChar with
    | [] => .error (.openName (String.ofList name) closer)
    | char :: rest =>
      if char = closer then .ok (String.ofList name, rest)
      else .error (.openName (String.ofList name) closer)
  else .error (.nameStart (String.ofList name))

/-- Reads a backreference by number, whose first digit is `first`. -/
def readNumber (first : Char) (chars : List Char) : Reading LexCause Atom :=
  let digits := first :: chars.takeWhile Char.isDigit
  if Text.fits32 (Text.decimalValue digits) then
    .ok (.backreference (Text.decimalValue digits), chars.dropWhile Char.isDigit)
  else .error (.referenceTooLarge digits)

/-- The character that closes a name after `\k`, by the one that opens it. -/
def nameCloser? : Char → Option Char
  | '<' => some '>'
  | '\'' => some '\''
  | '\x7b' => some '\x7d'
  | _ => none

/-- Reads a backreference by name, after the `k`. -/
def readReference : List Char → Reading LexCause Atom
  | [] => .error .openReference
  | opener :: chars =>
    match nameCloser? opener with
    | none => .error (.referenceUnnamed opener)
    | some closer => (readName closer chars).convert .namedBackreference

/-- The anchors that a backslash and a letter stand for. -/
def anchor? : Char → Option Anchor
  | 'b' => some .wordBoundary
  | 'B' => some .notWordBoundary
  | 'A' => some .startText
  | 'z' => some .endText
  | 'Z' => some .endTextOptionalNewline
  | _ => none

/-- The set that a backslash and a letter stand for outside of brackets, where an upper-case
    letter negates it. -/
def charClass? (char : Char) : Option CharClass :=
  (CharClass.shorthand? char.toLower).map (⟨char.isUpper, ·⟩)

/-- Reads an escape outside of brackets, after the backslash. -/
def read : List Char → Reading LexCause Atom
  | [] => .error .loneBackslash
  | char :: chars =>
    match charClass? char, anchor? char with
    | some charClass, _ => .ok (.charClass charClass, chars)
    | none, some anchor => .ok (.anchor anchor, chars)
    | none, none =>
      if char = 'k' then readReference chars
      else if char.isDigit && char ≠ '0' then readNumber char chars
      else (readCharacter char chars).convert .literal

theorem readFixedHex_leavesEnd (width : Nat) (chars : List Char) :
    LeavesEnd chars (readFixedHex width chars) := by
  simp only [readFixedHex]
  split
  · exact .of_except (List.drop_suffix _ _)
  · exact .error _

theorem readBracedHex_leavesEnd (chars : List Char) :
    LeavesEnd chars (readBracedHex chars) := by
  simp only [readBracedHex]
  split
  next rest hrest =>
    split
    · exact .error _
    · refine .of_except ?_
      have hsuffix := List.dropWhile_suffix (l := chars) Text.isHexDigit
      rw [hrest] at hsuffix
      exact (List.suffix_cons _ _).trans hsuffix
  · exact .error _

theorem readCharacter_leavesEnd (char : Char) (chars : List Char) :
    LeavesEnd chars (readCharacter char chars) := by
  simp only [readCharacter]
  split
  · exact .ok (List.suffix_refl _)
  · split
    · exact (readBracedHex_leavesEnd _).of_suffix (List.suffix_cons _ _)
    · exact readFixedHex_leavesEnd _ _
    · exact readFixedHex_leavesEnd _ _
    · split
      · exact .error _
      · exact .ok (List.suffix_refl _)

theorem readName_leavesEnd (closer : Char) (chars : List Char) :
    LeavesEnd chars (readName closer chars) := by
  simp only [readName]
  split
  · split
    · exact .error _
    next char rest hrest =>
      split
      · refine .ok ?_
        have hsuffix := List.dropWhile_suffix (l := chars) isNameChar
        rw [hrest] at hsuffix
        exact (List.suffix_cons _ _).trans hsuffix
      · exact .error _
  · exact .error _

theorem readNumber_leavesEnd (first : Char) (chars : List Char) :
    LeavesEnd chars (readNumber first chars) := by
  simp only [readNumber]
  split
  · exact .ok (List.dropWhile_suffix _)
  · exact .error _

theorem readReference_leavesEnd (chars : List Char) :
    LeavesEnd chars (readReference chars) := by
  unfold readReference
  split
  · exact .error _
  · split
    · exact .error _
    · exact ((readName_leavesEnd _ _).convert _).of_suffix (List.suffix_cons _ _)

/-- Reading an escape moves on in the text. -/
theorem read_leavesEnd (chars : List Char) : LeavesEnd chars (read chars) := by
  unfold read
  split
  · exact .error _
  next char chars =>
    have hsuffix : chars <:+ char :: chars := List.suffix_cons _ _
    split
    · exact .ok hsuffix
    · exact .ok hsuffix
    · split
      · exact (readReference_leavesEnd _).of_suffix hsuffix
      · split
        · exact (readNumber_leavesEnd _ _).of_suffix hsuffix
        · exact ((readCharacter_leavesEnd _ _).convert _).of_suffix hsuffix

end Escape

end PatternTree
