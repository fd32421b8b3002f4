import PatternTree.Json

namespace PatternTree.Json

/-- The four characters that may stand between the tokens of JSON. -/
def isBlank (char : Char) : Bool :=
  char = ' ' || char = '\n' || char = '\t' || char = '\r'

/-- The text behind the blanks at its front. -/
def skipBlank (chars : List Char) : List Char :=
  chars.dropWhile isBlank

/-- The code points that a backslash and one character stand for. -/
def escape? : Char → Option Nat
  | '"' => some 0x22
  | '\\' => some 0x5c
  | '/' => some 0x2f
  | 'b' => some 0x08
  | 'f' => some 0x0c
  | 'n' => some 0x0a
  | 'r' => some 0x0d
  | 't' => some 0x09
  | _ => none

/-- Reads the sixteen-bit units and the characters of a string after its opening quote, up to
    and including the closing one. -/
def readUnits : List Char → Option (List Nat × List Char)
  | '"' :: rest => some ([], rest)
  | '\\' :: 'u' :: a :: b :: c :: d :: rest =>
    if [a, b, c, d].all Text.isHexDigit then
      (readUnits rest).map fun (codes, rest) => (Text.hexadecimalValue [a, b, c, d] :: codes, rest)
    else none
  | '\\' :: char :: rest =>
    match escape? char with
    | none => none
    | some code => (readUnits rest).map fun (codes, rest) => (code :: codes, rest)
  | char :: rest =>
    if char.toNat < 0x20 || char = '\\' then none
    else (readUnits rest).map fun (codes, rest) => (char.toNat :: codes, rest)
  | [] => none

/-- Joins the two halves of a surrogate pair wherever they stand together. -/
def joinPairs : List Nat → List Nat
  | high :: low :: codes =>
    if 0xd800 ≤ high && high < 0xdc00 && 0xdc00 ≤ low && low < 0xe000 then
      (0x10000 + (high - 0xd800) * 0x400 + (low - 0xdc00)) :: joinPairs codes
    else high :: joinPairs (low :: codes)
  | codes => codes

/-- Reads a string after its opening quote. -/
def readString (chars : List Char) : Option (List Nat × List Char) :=
  (readUnits chars).map fun (codes, rest) => (joinPairs codes, rest)

/-- Reads one or more digits. -/
def readDigits (chars : List Char) : Option (List Char × List Char) :=
  let digits := chars.takeWhile Char.isDigit
  if digits.isEmpty then none else some (digits, chars.dropWhile Char.isDigit)

/-- Reads the whole part of a number, in which no digit follows a zero at the front. -/
def readWhole : List Char → Option (List Char × List Char)
  | '0' :: rest => some (['0'], rest)
  | chars => readDigits chars

/-- Reads the fraction of a number, which may be missing. -/
def readFraction : List Char → Option (List Char × List Char)
  | '.' :: rest => (readDigits rest).map fun (digits, rest) => ('.' :: digits, rest)
  | chars => some ([], chars)

/-- Reads the digits of an exponent after its mark, with a sign or without one. -/
def readExponentDigits (mark : Char) : List Char → Option (List Char × List Char)
  | '+' :: rest => (readDigits rest).map fun (digits, rest) => (mark :: '+' :: digits, rest)
  | '-' :: rest => (readDigits rest).map fun (digits, rest) => (mark :: '-' :: digits, rest)
  | chars => (readDigits chars).map fun (digits, rest) => (mark :: digits, rest)

/-- Reads the exponent of a number, which may be missing. -/
def readExponent : List Char → Option (List Char × List Char)
  | 'e' :: rest => readExponentDigits 'e' rest
  | 'E' :: rest => readExponentDigits 'E' rest
  | chars => some ([], chars)

/-- Reads a number without a sign. -/
def readUnsigned (chars : List Char) : Option (List Char × List Char) := do
  let (whole, rest) ← readWhole chars
  let (fraction, rest) ← readFraction rest
  let (exponent, rest) ← readExponent rest
  return (whole ++ fraction ++ exponent, rest)

/-- Reads the literal of a number. -/
def readNumber : List Char → Option (List Char × List Char)
  | '-' :: rest => (readUnsigned rest).map fun (literal, rest) => ('-' :: literal, rest)
  | chars => readUnsigned chars

mutual

/-- Reads a value and the blanks before it. Each step into a value takes one unit of `fuel`, as
    does each step from an item to the next. -/
def readValue (fuel : Nat) (chars : List Char) : Option (Json × List Char) :=
  match fuel with
  | 0 => none
  | fuel + 1 =>
    match skipBlank chars with
    | 'n' :: 'u' :: 'l' :: 'l' :: rest => some (null, rest)
    | 't' :: 'r' :: 'u' :: 'e' :: rest => some (bool true, rest)
    | 'f' :: 'a' :: 'l' :: 's' :: 'e' :: rest => some (bool false, rest)
    | '"' :: rest => (readString rest).map fun (codes, rest) => (string codes, rest)
    | '[' :: rest =>
      if (skipBlank rest).head? = some ']' then some (array [], (skipBlank rest).tail)
      else (readItems fuel rest).map fun (items, rest) => (array items, rest)
    | '\x7b' :: rest =>
      if (skipBlank rest).head? = some '\x7d' then some (object [], (skipBlank rest).tail)
      else (readMembers fuel rest).map fun (members, rest) => (object members, rest)
    | chars => (readNumber chars).map fun (literal, rest) => (number literal, rest)

/-- Reads the items of an array that has any, up to and including the closing bracket. -/
def readItems (fuel : Nat) (chars : List Char) : Option (List Json × List Char) :=
  match fuel with
  | 0 => none
  | fuel + 1 =>
    match readValue fuel chars with
    | none => none
    | some (item, rest) =>
      match skipBlank rest with
      | ']' :: rest => some ([item], rest)
      | ',' :: rest => (readItems fuel rest).map fun (items, rest) => (item :: items, rest)
      | _ => none

/-- Reads the members of an object that has any, up to and including the closing brace. -/
def readMembers (fuel : Nat) (chars : List Char) : Option (List (List Nat × Json) × List Char) :=
  match fuel with
  | 0 => none
  | fuel + 1 =>
    match skipBlank chars with
    | '"' :: rest =>
      match readString rest with
      | none => none
      | some (key, rest) =>
        match skipBlank rest with
        | ':' :: rest =>
          match readValue fuel rest with
          | none => none
          | some (value, rest) =>
            match skipBlank rest with
            | '\x7d' :: rest => some ([(key, value)], rest)
            | ',' :: rest =>
              (readMembers fuel rest).map fun (members, rest) => ((key, value) :: members, rest)
            | _ => none
        | _ => none
    | _ => none

end

/-- The value that a whole text writes, as the documented behaviour of a library for JSON has it:
    the standard grammar, with values nested to any depth and with halves of surrogate pairs left to
    whoever wants a text of the string. Two steps for each character are always enough. -/
def parse? (text : String) : Option Json :=
  match readValue (2 * text.toList.length + 1) text.toList with
  | some (value, rest) => if skipBlank rest = [] then some value else none
  | none => none

end PatternTree.Json
