import PatternTree.CharClass

namespace PatternTree.CharClass

/-- What is left of the code points from `low` to `high` without those from `cutLow` to
    `cutHigh`, as at most two intervals. -/
def cutInterval (cutLow cutHigh low high : Nat) : List (Nat × Nat) :=
  (if low < cutLow then [(low, min high (cutLow - 1))] else []) ++
    (if cutHigh < high then [(max low (cutHigh + 1), high)] else [])

/-- Takes one range out of a list of intervals. -/
def removeRange (intervals : List (Nat × Nat)) (range : ClassRange) : List (Nat × Nat) :=
  intervals.flatMap fun (low, high) =>
    cutInterval range.low.toNat range.high.toNat low high

/-- The part of an interval of code points that characters fill, on either side of the
    surrogates, which are no characters. -/
def scalarRanges (low high : Nat) : List ClassRange :=
  (if low ≤ min high 0xd7ff then [⟨Char.ofNat low, Char.ofNat (min high 0xd7ff)⟩] else []) ++
    (if max low 0xe000 ≤ high then [⟨Char.ofNat (max low 0xe000), Char.ofNat high⟩] else [])

/-- The ranges of all characters that lie in none of the given ranges, in ascending order.
    Those given may overlap and stand in any order. -/
def complement (ranges : List ClassRange) : List ClassRange :=
  (ranges.foldl removeRange [(0, 0x10ffff)]).flatMap fun (low, high) => scalarRanges low high

end PatternTree.CharClass
