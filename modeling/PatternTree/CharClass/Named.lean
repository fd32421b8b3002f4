import PatternTree.CharClass

namespace PatternTree.CharClass

/-- The ASCII digits. -/
def digits : List ClassRange :=
  [⟨'0', '9'⟩]

/-- The ASCII letters and digits and the underscore. -/
def wordChars : List ClassRange :=
  [⟨'0', '9'⟩, ⟨'A', 'Z'⟩, .single '_', ⟨'a', 'z'⟩]

/-- The space and the five ASCII controls from the tab to the carriage return. -/
def spaces : List ClassRange :=
  [⟨'\t', '\r'⟩, .single ' ']

/-- The set that a backslash and one of `d`, `w`, `s` stand for. The upper-case letter
    stands for everything outside it. -/
def shorthand? : Char → Option (List ClassRange)
  | 'd' => some digits
  | 'w' => some wordChars
  | 's' => some spaces
  | _ => none

/-- The sets that a bracket expression can name, as in `[:alpha:]`. -/
def named? : String → Option (List ClassRange)
  | "alnum" => some [⟨'0', '9'⟩, ⟨'A', 'Z'⟩, ⟨'a', 'z'⟩]
  | "alpha" => some [⟨'A', 'Z'⟩, ⟨'a', 'z'⟩]
  | "ascii" => some [⟨'\x00', '\x7f'⟩]
  | "blank" => some [.single '\t', .single ' ']
  | "cntrl" => some [⟨'\x00', '\x1f'⟩, .single '\x7f']
  | "digit" => some digits
  | "graph" => some [⟨'!', '~'⟩]
  | "lower" => some [⟨'a', 'z'⟩]
  | "print" => some [⟨' ', '~'⟩]
  | "punct" => some [⟨'!', '/'⟩, ⟨':', '@'⟩, ⟨'[', '`'⟩, ⟨'\x7b', '~'⟩]
  | "space" => some spaces
  | "upper" => some [⟨'A', 'Z'⟩]
  | "word" => some wordChars
  | "xdigit" => some [⟨'0', '9'⟩, ⟨'A', 'F'⟩, ⟨'a', 'f'⟩]
  | _ => none

end PatternTree.CharClass
