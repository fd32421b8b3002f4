import PatternTree.Text.Numeral

namespace PatternTree

/-- How often a repeated part may occur: at least `min` times, and at most `max` times unless
    there is no limit. -/
structure Bounds where
  min : Nat
  max : Option Nat
  deriving DecidableEq, Repr

/-- The digits inside `{m}`, `{m,}` and `{m,n}` as they are written. -/
inductive Counts where
  | exactly (count : List Char)
  | atLeast (lower : List Char)
  | between (lower upper : List Char)
  deriving DecidableEq, Repr

/-- Why counts are no bounds. -/
inductive CountError where
  /-- The digits write a number of more than 32 bits. -/
  | tooLarge (digits : List Char)
  /-- The upper bound is below the lower one. -/
  | outOfOrder
  deriving DecidableEq, Repr

namespace Counts

/-- The number that digits write, when 32 bits hold it. Leading zeros do not matter. -/
def count? (digits : List Char) : Except CountError Nat :=
  if Text.fits32 (Text.decimalValue digits) then .ok (Text.decimalValue digits)
  else .error (.tooLarge digits)

/-- The bounds that counts stand for. Of two numbers that are too large the lower bound is
    the one reported. -/
def bounds : Counts → Except CountError Bounds
  | exactly digits => do
    let count ← count? digits
    return ⟨count, some count⟩
  | atLeast lower => do
    return ⟨← count? lower, none⟩
  | between lower upper => do
    let min ← count? lower
    let max ← count? upper
    if max < min then .error .outOfOrder else return ⟨min, some max⟩

end Counts

/-- What may follow a part of a pattern to say how often it occurs. -/
inductive Quantifier where
  | star
  | plus
  | optional
  | counted (counts : Counts)
  deriving DecidableEq, Repr

/-- The bounds that a quantifier stands for. Only written counts can fail to be bounds. -/
def Quantifier.bounds : Quantifier → Except CountError Bounds
  | star => .ok ⟨0, none⟩
  | plus => .ok ⟨1, none⟩
  | optional => .ok ⟨0, some 1⟩
  | counted counts => counts.bounds

end PatternTree
