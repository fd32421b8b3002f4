import PatternTree.Text.Numeral
import PatternTree.Text.Unprintable

namespace PatternTree.Text

/-- One character as quoted text writes it: a backslash stands before the quote in use and
    before itself, the common controls have names, and other characters that would not show
    are written by their code. -/
def escaped (quote : Char) (char : Char) : List Char :=
  if char = quote then ['\\', quote]
  else match char with
    | '\\' => ['\\', '\\']
    | '\x00' => ['\\', '0']
    | '\t' => ['\\', 't']
    | '\n' => ['\\', 'n']
    | '\r' => ['\\', 'r']
    | char => if isUnprintable char then ['\\', 'u', '\x7b'] ++ hexDigits char.toNat ++ ['\x7d']
        else [char]

/-- A text between double quotes. -/
def quoted (text : String) : String :=
  String.ofList ('"' :: text.toList.flatMap (escaped '"') ++ ['"'])

/-- A character between single quotes. -/
def quotedChar (char : Char) : String :=
  String.ofList ('\'' :: escaped '\'' char ++ ['\''])

end PatternTree.Text
