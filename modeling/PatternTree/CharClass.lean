namespace PatternTree

/-- The characters from `low` to `high`, both included. -/
structure ClassRange where
  low : Char
  high : Char
  deriving DecidableEq, Repr

namespace ClassRange

/-- The range of one character. -/
def single (char : Char) : ClassRange :=
  ⟨char, char⟩

/-- A character lies in a range between its ends, so a range whose ends are out of order
    holds nothing. -/
def Holds (range : ClassRange) (char : Char) : Prop :=
  range.low ≤ char ∧ char ≤ range.high

instance (range : ClassRange) (char : Char) : Decidable (range.Holds char) :=
  inferInstanceAs (Decidable (_ ∧ _))

end ClassRange

/-- A set of characters as a pattern writes it: its ranges in the order in which they were
    written, which may overlap, and whether the set is what lies outside them. -/
structure CharClass where
  negated : Bool
  ranges : List ClassRange
  deriving DecidableEq, Repr

end PatternTree
