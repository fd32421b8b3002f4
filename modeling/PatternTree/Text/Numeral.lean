namespace PatternTree.Text

/-- The value of a digit in base sixteen, in either case. -/
def hexValue? (char : Char) : Option Nat :=
  if '0' ≤ char && char ≤ '9' then some (char.toNat - '0'.toNat)
  else if 'a' ≤ char && char ≤ 'f' then some (char.toNat - 'a'.toNat + 10)
  else if 'A' ≤ char && char ≤ 'F' then some (char.toNat - 'A'.toNat + 10)
  else none

/-- An ASCII digit or one of the letters from `a` to `f` in either case. -/
def isHexDigit (char : Char) : Bool :=
  (hexValue? char).isSome

/-- The number that digits in a base write, most significant first. Characters that are no
    digits count as zero. -/
def valueOf (base : Nat) (digits : List Char) : Nat :=
  digits.foldl (fun value digit => base * value + (hexValue? digit).getD 0) 0

/-- The number that decimal digits write. -/
def decimalValue (digits : List Char) : Nat :=
  valueOf 10 digits

/-- The number that digits in base sixteen write. -/
def hexadecimalValue (digits : List Char) : Nat :=
  valueOf 16 digits

/-- The digits of a number in base sixteen, in lower case and without leading zeros. -/
def hexDigits (number : Nat) : List Char :=
  Nat.toDigits 16 number

/-- Whether 32 bits hold a number. -/
def fits32 (number : Nat) : Bool :=
  number ≤ 0xffffffff

/-- Whether 32 bits of which one is for a sign hold a number. -/
def fitsSigned32 (number : Nat) : Bool :=
  number ≤ 0x7fffffff

/-- Whether 64 bits hold a number. -/
def fits64 (number : Nat) : Bool :=
  number ≤ 0xffffffffffffffff

private theorem foldl_digit_value (base : Nat) (front back : List Char) :
    valueOf base (front ++ back) =
      back.foldl (fun value digit => base * value + (hexValue? digit).getD 0)
        (valueOf base front) := by
  simp [valueOf]

/-- One more digit multiplies the value by the base and adds the digit. -/
theorem valueOf_append_singleton (base : Nat) (digits : List Char) (digit : Char) :
    valueOf base (digits ++ [digit]) = base * valueOf base digits + (hexValue? digit).getD 0 := by
  simp [foldl_digit_value]

end PatternTree.Text
