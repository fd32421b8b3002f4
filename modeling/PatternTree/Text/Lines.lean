namespace PatternTree.Text

/-- The lines of a text. A line feed ends a line, together with one carriage return directly
    before it; a last line without a line feed counts when it holds anything, and keeps its
    carriage returns. -/
def lines : List Char → List (List Char)
  | [] => []
  | '\r' :: '\n' :: chars => [] :: lines chars
  | '\n' :: chars => [] :: lines chars
  | char :: chars =>
    match lines chars with
    | [] => [[char]]
    | line :: rest => (char :: line) :: rest

end PatternTree.Text
