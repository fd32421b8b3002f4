import PatternTree.Json

namespace PatternTree.Json

/-- A code point of at most sixteen bits as an escape with four digits. -/
def unitEscape (code : Nat) : List Char :=
  let digits := Text.hexDigits code
  ['\\', 'u'] ++ List.replicate (4 - digits.length) '0' ++ digits

/-- A code point inside a string. Only the quote, the backslash, the controls below the space
    and the halves of surrogate pairs are escaped, the common controls by their letters. -/
def codeChars (code : Nat) : List Char :=
  match code with
  | 0x22 => ['\\', '"']
  | 0x5c => ['\\', '\\']
  | 0x08 => ['\\', 'b']
  | 0x09 => ['\\', 't']
  | 0x0a => ['\\', 'n']
  | 0x0c => ['\\', 'f']
  | 0x0d => ['\\', 'r']
  | code => if code < 0x20 || !code.isValidChar then unitEscape code else [Char.ofNat code]

/-- A string between its quotes. -/
def stringChars (codes : List Nat) : List Char :=
  '"' :: codes.flatMap codeChars ++ ['"']

mutual

/-- The shortest text of a value, without any blanks. -/
def chars : Json → List Char
  | null => ['n', 'u', 'l', 'l']
  | bool true => ['t', 'r', 'u', 'e']
  | bool false => ['f', 'a', 'l', 's', 'e']
  | number literal => literal
  | string codes => stringChars codes
  | array items => '[' :: itemChars items ++ [']']
  | object members => '\x7b' :: memberChars members ++ ['\x7d']

/-- The items of an array with commas between them. -/
def itemChars : List Json → List Char
  | [] => []
  | [item] => item.chars
  | item :: items => item.chars ++ ',' :: itemChars items

/-- The members of an object with commas between them. -/
def memberChars : List (List Nat × Json) → List Char
  | [] => []
  | [(key, value)] => stringChars key ++ ':' :: value.chars
  | (key, value) :: members =>
    stringChars key ++ ':' :: value.chars ++ ',' :: memberChars members

end

/-- A value as compact text, in the form that the library for JSON documents for it: no blanks, and
    no escapes but those that the grammar demands. -/
def compress (value : Json) : String :=
  String.ofList value.chars

end PatternTree.Json
