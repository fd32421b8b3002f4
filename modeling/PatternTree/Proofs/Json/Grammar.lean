import PatternTree.Json.Printer
import PatternTree.Json.Reader
import PatternTree.Proofs.Text.Digits

namespace PatternTree.Json

open Text (isHexDigit hexadecimalValue)

/-- Any number of blanks. -/
def Blanks (chars : List Char) : Prop :=
  ∀ char ∈ chars, isBlank char

theorem blanks_nil : Blanks [] :=
  fun _ hchar => absurd hchar List.not_mem_nil

/-- The first half of a surrogate pair. -/
def IsHighHalf (code : Nat) : Prop :=
  0xd800 ≤ code ∧ code < 0xdc00

instance (code : Nat) : Decidable (IsHighHalf code) :=
  inferInstanceAs (Decidable (_ ∧ _))

/-- The second half of a surrogate pair. -/
def IsLowHalf (code : Nat) : Prop :=
  0xdc00 ≤ code ∧ code < 0xe000

instance (code : Nat) : Decidable (IsLowHalf code) :=
  inferInstanceAs (Decidable (_ ∧ _))

/-- An escape by four digits in base sixteen, with the number that they write. -/
inductive IsUnit : Nat → List Char → Prop
  | digits {a b c d : Char} (hall : [a, b, c, d].all isHexDigit) :
      IsUnit (hexadecimalValue [a, b, c, d]) ['\\', 'u', a, b, c, d]

/-- The inside of a string, with its code points. Two escapes for the halves of a surrogate pair
    that stand together write one code point; a half that stands alone is one itself. -/
inductive Spells : List Nat → List Char → Prop
  | nil : Spells [] []
  | plain {char : Char} {codes : List Nat} {chars : List Char} (hprinted : 0x20 ≤ char.toNat)
      (hquote : char ≠ '"') (hslash : char ≠ '\\') (hchars : Spells codes chars) :
      Spells (char.toNat :: codes) (char :: chars)
  | letter {char : Char} {code : Nat} {codes : List Nat} {chars : List Char}
      (hchar : escape? char = some code) (hchars : Spells codes chars) :
      Spells (code :: codes) ('\\' :: char :: chars)
  | unit {code : Nat} {codes : List Nat} {text chars : List Char} (hunit : IsUnit code text)
      (halone : IsHighHalf code → ∀ next ∈ codes.head?, ¬ IsLowHalf next)
      (hchars : Spells codes chars) : Spells (code :: codes) (text ++ chars)
  | pair {high low : Nat} {codes : List Nat} {first second chars : List Char}
      (hfirst : IsUnit high first) (hhigh : IsHighHalf high) (hsecond : IsUnit low second)
      (hlow : IsLowHalf low) (hchars : Spells codes chars) :
      Spells ((0x10000 + (high - 0xd800) * 0x400 + (low - 0xdc00)) :: codes)
        (first ++ second ++ chars)

/-- One or more digits. -/
def IsDigits (chars : List Char) : Prop :=
  chars ≠ [] ∧ ∀ char ∈ chars, char.isDigit

/-- The whole part of a number: digits, and no further ones behind a zero. -/
def IsWhole (chars : List Char) : Prop :=
  IsDigits chars ∧ (chars.head? = some '0' → chars = ['0'])

/-- The fraction of a number, which may be missing. -/
inductive IsFraction : List Char → Prop
  | absent : IsFraction []
  | present {digits : List Char} (hdigits : IsDigits digits) : IsFraction ('.' :: digits)

/-- The exponent of a number, which may be missing. -/
inductive IsExponent : List Char → Prop
  | absent : IsExponent []
  | present {mark : Char} {sign digits : List Char} (hmark : mark ∈ ['e', 'E'])
      (hsign : sign ∈ [[], ['+'], ['-']]) (hdigits : IsDigits digits) :
      IsExponent (mark :: sign ++ digits)

/-- The literal of a number. -/
inductive IsNumber : List Char → Prop
  | parts {sign whole fraction exponent : List Char} (hsign : sign ∈ [[], ['-']])
      (hwhole : IsWhole whole) (hfraction : IsFraction fraction)
      (hexponent : IsExponent exponent) :
      IsNumber (sign ++ (whole ++ fraction ++ exponent))

/-- The texts that write the key of a member. -/
inductive WritesKey : List Nat → List Char → Prop
  | quoted {key : List Nat} {front chars back : List Char} (hfront : Blanks front)
      (hback : Blanks back) (hchars : Spells key chars) :
      WritesKey key (front ++ '"' :: chars ++ '"' :: back)

mutual

/-- The texts that write a value. Blanks may stand on both sides of every token. -/
inductive Writes : Json → List Char → Prop
  | null : Writes null ['n', 'u', 'l', 'l']
  | on : Writes (bool true) ['t', 'r', 'u', 'e']
  | off : Writes (bool false) ['f', 'a', 'l', 's', 'e']
  | number {literal : List Char} (hliteral : IsNumber literal) : Writes (number literal) literal
  | string {codes : List Nat} {chars : List Char} (hchars : Spells codes chars) :
      Writes (string codes) ('"' :: chars ++ ['"'])
  | emptyArray {blanks : List Char} (hblanks : Blanks blanks) :
      Writes (array []) ('[' :: blanks ++ [']'])
  | array {items : List Json} {chars : List Char} (hitems : WritesItems items chars) :
      Writes (array items) ('[' :: chars ++ [']'])
  | emptyObject {blanks : List Char} (hblanks : Blanks blanks) :
      Writes (object []) ('\x7b' :: blanks ++ ['\x7d'])
  | object {members : List (List Nat × Json)} {chars : List Char}
      (hmembers : WritesMembers members chars) :
      Writes (object members) ('\x7b' :: chars ++ ['\x7d'])
  | padded {value : Json} {front chars back : List Char} (hfront : Blanks front)
      (hback : Blanks back) (hvalue : Writes value chars) : Writes value (front ++ chars ++ back)

/-- The texts that write the items of an array that has any. -/
inductive WritesItems : List Json → List Char → Prop
  | one {item : Json} {chars : List Char} (hitem : Writes item chars) : WritesItems [item] chars
  | more {item : Json} {items : List Json} {chars others : List Char} (hitem : Writes item chars)
      (hitems : WritesItems items others) : WritesItems (item :: items) (chars ++ ',' :: others)

/-- The texts that write the members of an object that has any. -/
inductive WritesMembers : List (List Nat × Json) → List Char → Prop
  | one {key : List Nat} {value : Json} {name chars : List Char}
      (hkey : WritesKey key name) (hvalue : Writes value chars) :
      WritesMembers [(key, value)] (name ++ ':' :: chars)
  | more {key : List Nat} {value : Json} {members : List (List Nat × Json)}
      {name chars others : List Char} (hkey : WritesKey key name) (hvalue : Writes value chars)
      (hmembers : WritesMembers members others) :
      WritesMembers ((key, value) :: members) (name ++ ':' :: chars ++ ',' :: others)

end

end PatternTree.Json
