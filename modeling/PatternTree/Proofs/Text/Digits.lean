import Mathlib.Data.List.Induction
import Mathlib.Data.Nat.Digits.Defs
import PatternTree.Text.Numeral

namespace PatternTree.Text

variable {base : Nat}

/-- Digits write the sum of their values times the powers of the base, the last digit counting
    once. -/
theorem valueOf_eq_ofDigits (base : Nat) (digits : List Char) :
    valueOf base digits =
      Nat.ofDigits base (digits.reverse.map fun digit => (hexValue? digit).getD 0) := by
  induction digits using List.reverseRecOn with
  | nil => rfl
  | append_singleton digits digit ih =>
    rw [valueOf_append_singleton, ih, List.reverse_append, List.reverse_singleton,
      List.singleton_append, List.map_cons, Nat.ofDigits_cons, Nat.add_comm]

/-- The value of a decimal digit is its distance from zero. -/
theorem hexValue?_of_isDigit {digit : Char} (hdigit : digit.isDigit) :
    hexValue? digit = some (digit.toNat - '0'.toNat) := by
  have hrange : '0' ≤ digit ∧ digit ≤ '9' := Char.isDigit_iff_toNat.mp hdigit
  simp only [hexValue?, hrange, decide_true, Bool.and_self, if_true]

/-- Digits write the number they were made of, also in another form that keeps their values. -/
theorem valueOf_map_toDigits (hbase : 1 < base) {form : Char → Char}
    (hform : ∀ digit, digit < base → hexValue? (form digit.digitChar) = some digit)
    (number : Nat) : valueOf base ((Nat.toDigits base number).map form) = number := by
  induction number using Nat.strongRecOn with
  | ind number ih =>
    rw [Nat.toDigits_eq_if hbase]
    split
    next hsmall => simp [valueOf, hform number hsmall]
    next hlarge =>
      have hless : number / base < number := Nat.div_lt_self (by omega) hbase
      have hdigit := hform (number % base) (Nat.mod_lt _ (by omega))
      rw [List.map_append, List.map_cons, List.map_nil, valueOf_append_singleton, ih _ hless,
        hdigit, Option.getD_some]
      exact Nat.div_add_mod number base

theorem exists_of_mem_toDigits (hbase : 1 < base) {number : Nat} {char : Char}
    (hchar : char ∈ Nat.toDigits base number) : ∃ digit, digit < base ∧ char = digit.digitChar := by
  induction number using Nat.strongRecOn with
  | ind number ih =>
    rw [Nat.toDigits_eq_if hbase] at hchar
    split at hchar
    next hsmall => exact ⟨number, hsmall, List.mem_singleton.mp hchar⟩
    next hlarge =>
      obtain hchar | hchar := List.mem_append.mp hchar
      · exact ih _ (Nat.div_lt_self (by omega) hbase) hchar
      · exact ⟨number % base, Nat.mod_lt _ (by omega), List.mem_singleton.mp hchar⟩

/-- Only zero is written with a zero in front. -/
theorem exists_toDigits_ten_eq_cons {number : Nat} (hnumber : 0 < number) :
    ∃ first digits, Nat.toDigits 10 number = first :: digits ∧ first ≠ '0' := by
  induction number using Nat.strongRecOn with
  | ind number ih =>
    rw [Nat.toDigits_eq_if (by decide : 1 < 10)]
    split
    next hsmall =>
      refine ⟨number.digitChar, [], rfl, ?_⟩
      have hdigits : ∀ digit < 10, 0 < digit → digit.digitChar ≠ '0' := by decide
      exact hdigits number hsmall hnumber
    next hlarge =>
      have hless : number / 10 < number := Nat.div_lt_self hnumber (by decide)
      obtain ⟨first, digits, hdigits, hfirst⟩ := ih _ hless (by omega)
      exact ⟨first, digits ++ [(number % 10).digitChar], by rw [hdigits]; rfl, hfirst⟩

/-- Digits of which the first is not zero write no zero. -/
theorem decimalValue_pos {first : Char} (hdigit : first.isDigit) (hzero : first ≠ '0')
    (digits : List Char) : 0 < decimalValue (first :: digits) := by
  have hgrows : ∀ (digits : List Char) (value : Nat), 0 < value →
      0 < digits.foldl (fun value digit => 10 * value + (hexValue? digit).getD 0) value := by
    intro digits
    induction digits with
    | nil => exact fun _ hvalue => hvalue
    | cons digit digits ih =>
      intro value hvalue
      exact ih _ (Nat.add_pos_left (Nat.mul_pos (by decide) hvalue) _)
  refine hgrows digits (10 * 0 + (hexValue? first).getD 0) ?_
  have hbounds := (Char.isDigit_iff_toNat).mp hdigit
  have hne : first.toNat ≠ ('0').toNat := fun heq => hzero (Char.toNat_inj.mp heq)
  rw [hexValue?_of_isDigit hdigit, Option.getD_some]
  omega

/-- More digits write no smaller number. -/
theorem decimalValue_le_append (digits more : List Char) :
    decimalValue digits ≤ decimalValue (digits ++ more) := by
  induction more using List.reverseRecOn with
  | nil => rw [List.append_nil]
  | append_singleton more digit ih =>
    rw [← List.append_assoc, decimalValue, decimalValue, valueOf_append_singleton]
    simp only [decimalValue] at ih
    omega

/-- The digits of a number in base ten, without leading zeros. -/
def decimal (number : Nat) : List Char :=
  Nat.toDigits 10 number

/-- The digits of a number in base sixteen, in upper case and without leading zeros. -/
def upperHex (number : Nat) : List Char :=
  (Nat.toDigits 16 number).map Char.toUpper

@[simp] theorem decimalValue_decimal (number : Nat) : decimalValue (decimal number) = number := by
  have hform : ∀ digit < 10, hexValue? (id digit.digitChar) = some digit := by decide
  have hvalue := valueOf_map_toDigits (by decide : 1 < 10) hform number
  rwa [List.map_id] at hvalue

theorem isDigit_of_mem_decimal {number : Nat} : ∀ char ∈ decimal number, char.isDigit := by
  intro char hchar
  exact Nat.isDigit_of_mem_toDigits (by decide) (by decide) hchar

theorem decimal_ne_nil (number : Nat) : decimal number ≠ [] :=
  Nat.toDigits_ne_nil

@[simp] theorem hexadecimalValue_upperHex (number : Nat) :
    hexadecimalValue (upperHex number) = number := by
  have hform : ∀ digit < 16, hexValue? digit.digitChar.toUpper = some digit := by decide
  exact valueOf_map_toDigits (by decide : 1 < 16) hform number

theorem isHexDigit_of_mem_upperHex {number : Nat} : ∀ char ∈ upperHex number, isHexDigit char := by
  intro char hchar
  obtain ⟨digit, hdigit, rfl⟩ := List.mem_map.mp hchar
  obtain ⟨value, hvalue, rfl⟩ := exists_of_mem_toDigits (by decide : 1 < 16) hdigit
  have hall : ∀ value < 16, isHexDigit value.digitChar.toUpper := by decide
  exact hall value hvalue

theorem upperHex_ne_nil (number : Nat) : upperHex number ≠ [] := by
  simp [upperHex, Nat.toDigits_ne_nil]

theorem isHexDigit_of_hexValue? {char : Char} {digit : Nat}
    (hvalue : hexValue? char = some digit) : isHexDigit char = true := by
  rw [isHexDigit, hvalue]
  rfl

theorem isHexDigit_eq_false_of_hexValue? {char : Char} (hvalue : hexValue? char = none) :
    isHexDigit char = false := by
  rw [isHexDigit, hvalue]
  rfl

/-- The value of a hexadecimal digit is below the base. -/
theorem hexValue?_lt {char : Char} {value : Nat} (hvalue : hexValue? char = some value) :
    value < 16 := by
  have hle : ∀ {a b : Char}, a ≤ b → a.toNat ≤ b.toNat := fun h => h
  simp only [hexValue?, Bool.and_eq_true, decide_eq_true_eq] at hvalue
  split at hvalue
  next hdigit =>
    cases hvalue
    have hle := hle hdigit.2
    have hnine : ('9').toNat = 57 := rfl
    have hzero : ('0').toNat = 48 := rfl
    omega
  · split at hvalue
    next hletter =>
      cases hvalue
      have hle := hle hletter.2
      have hf : ('f').toNat = 102 := rfl
      have ha : ('a').toNat = 97 := rfl
      omega
    · split at hvalue
      next hletter =>
        cases hvalue
        have hle := hle hletter.2
        have hf : ('F').toNat = 70 := rfl
        have ha : ('A').toNat = 65 := rfl
        omega
      · cases hvalue
end PatternTree.Text
