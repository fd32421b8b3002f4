import PatternTree.Text.Numeral

namespace PatternTree

/-- A JSON value. A string is a sequence of code points, among which halves of surrogate pairs
    may stand alone; a number is its literal; the members of an object keep their order and may
    share keys. -/
inductive Json where
  | null
  | bool (value : Bool)
  | number (literal : List Char)
  | string (codes : List Nat)
  | array (items : List Json)
  | object (members : List (List Nat × Json))
  deriving Repr

namespace Json

/-- The code points of a text. -/
def codes (text : String) : List Nat :=
  text.toList.map Char.toNat

/-- The text with the given code points. There is none with half of a surrogate pair. -/
def text? (codes : List Nat) : Option String :=
  (codes.mapM fun (code : Nat) => if code.isValidChar then some (Char.ofNat code) else none).map
    String.ofList

@[simp] theorem text?_codes (text : String) : text? (codes text) = some text := by
  have hcodes : ∀ chars : List Char,
      (chars.map Char.toNat).mapM
          (fun (code : Nat) => if code.isValidChar then some (Char.ofNat code) else none) =
        some chars := by
    intro chars
    induction chars with
    | nil => rfl
    | cons char chars ih =>
      have hvalid : char.toNat.isValidChar := char.valid
      simp [List.mapM_cons, hvalid, ih]
  simp [text?, codes, hcodes]

/-- The string with a text's code points. -/
def ofText (text : String) : Json :=
  string (codes text)

/-- A whole number in decimal digits. -/
def ofNat (number : Nat) : Json :=
  .number (Nat.toDigits 10 number)

/-- An object whose keys are texts. -/
def ofMembers (members : List (String × Json)) : Json :=
  object (members.map fun (key, value) => (codes key, value))

end Json

end PatternTree
