import PatternTree.Proofs.Token.Truncation

namespace PatternTree

namespace Escape

open Text (isHexDigit hexadecimalValue)

/-- What may follow a backslash and a character without writing a character, and what is wrong with
    it: a letter or digit without a meaning, a missing digit, braces without digits, or a number
    that is no code. -/
inductive Misspells (char : Char) : List Char → LexCause → Prop where
  | unknown {chars : List Char} (hcontrol : ∀ named, ¬ NamesControl char named)
      (halphanum : char.isAlphanum) (hx : char ≠ 'x') (hu : char ≠ 'u') :
      Misspells char chars (.unknownEscape char)
  | short {width : Nat} {digits rest : List Char}
      (hchar : char = 'x' ∧ width = 2 ∨ char = 'u' ∧ width = 4) (hwidth : digits.length < width)
      (hall : ∀ digit ∈ digits, isHexDigit digit) (hrest : ∀ next ∈ rest.head?, ¬ isHexDigit next)
      (hbrace : char = 'x' → (digits ++ rest).head? ≠ some '\x7b') :
      Misspells char (digits ++ rest) (missingHexDigit rest)
  | code {width : Nat} {digits rest : List Char}
      (hchar : char = 'x' ∧ width = 2 ∨ char = 'u' ∧ width = 4) (hwidth : digits.length = width)
      (hall : ∀ digit ∈ digits, isHexDigit digit)
      (hcode : ¬ (hexadecimalValue digits).isValidChar) :
      Misspells char (digits ++ rest) (.notCharacter (hexadecimalValue digits))
  | bracedOpen {digits rest : List Char} (hchar : char = 'x')
      (hall : ∀ digit ∈ digits, isHexDigit digit)
      (hrest : ∀ next ∈ rest.head?, ¬ isHexDigit next ∧ next ≠ '\x7d') :
      Misspells char ('\x7b' :: (digits ++ rest)) (missingHexDigit rest)
  | bracedEmpty {rest : List Char} (hchar : char = 'x') :
      Misspells char ('\x7b' :: '\x7d' :: rest) .emptyHex
  | bracedCode {digits rest : List Char} (hchar : char = 'x') (hdigits : digits ≠ [])
      (hall : ∀ digit ∈ digits, isHexDigit digit)
      (hcode : ¬ (hexadecimalValue digits).isValidChar) :
      Misspells char ('\x7b' :: (digits ++ '\x7d' :: rest))
        (.notCharacter (hexadecimalValue digits))

section Digits

variable {width : Nat} {digits rest : List Char}

theorem character_of_invalid {code : Nat} (hcode : ¬ code.isValidChar) :
    character code = .error (.notCharacter code) := by
  rw [character, if_neg hcode]

theorem exists_character {code : Nat} (hcode : code.isValidChar) :
    ∃ written, character code = .ok written :=
  ⟨_, by rw [character, if_pos hcode]⟩

/-- Too few digits are reported by what follows them. -/
theorem readFixedHex_of_short (hwidth : digits.length < width)
    (hall : ∀ digit ∈ digits, isHexDigit digit)
    (hrest : ∀ next ∈ rest.head?, ¬ isHexDigit next) :
    readFixedHex width (digits ++ rest) = .error (missingHexDigit rest) := by
  have htaken : (digits ++ rest).take width = digits ++ rest.take (width - digits.length) := by
    rw [List.take_append, List.take_of_length_le (Nat.le_of_lt hwidth)]
  obtain ⟨hdigits, -⟩ := Text.takeWhile_dropWhile_eq_iff.mpr ⟨htaken, hall, fun next hnext =>
    Bool.eq_false_iff.mpr (hrest next (Text.mem_head?_of_prefix (List.take_prefix _ _) hnext))⟩
  have hne : digits.length ≠ width := Nat.ne_of_lt hwidth
  simp only [readFixedHex, hdigits, if_neg hne, List.drop_left']

/-- Enough digits of a number that is no code are reported by the number. -/
theorem readFixedHex_of_code (hwidth : digits.length = width)
    (hall : ∀ digit ∈ digits, isHexDigit digit)
    (hcode : ¬ (hexadecimalValue digits).isValidChar) :
    readFixedHex width (digits ++ rest) =
      .error (.notCharacter (hexadecimalValue digits)) := by
  subst hwidth
  obtain ⟨htake, -⟩ := Text.takeWhile_dropWhile_eq_iff.mpr
    ⟨(List.append_nil digits).symm, hall, by simp⟩
  simp only [readFixedHex, List.take_left', htake, if_true, character_of_invalid hcode]
  rfl

/-- What follows the digits between braces has to be the closing brace. -/
theorem readBracedHex_of_open (hall : ∀ digit ∈ digits, isHexDigit digit)
    (hrest : ∀ next ∈ rest.head?, ¬ isHexDigit next ∧ next ≠ '\x7d') :
    readBracedHex (digits ++ rest) = .error (missingHexDigit rest) := by
  obtain ⟨-, hdrop⟩ := Text.takeWhile_dropWhile_eq_iff.mpr ⟨rfl, hall, fun next hnext =>
    Bool.eq_false_iff.mpr (hrest next hnext).1⟩
  simp only [readBracedHex, hdrop]
  split
  next after => exact absurd rfl (hrest _ rfl).2
  · rfl

theorem readBracedHex_of_code (hdigits : digits ≠ []) (hall : ∀ digit ∈ digits, isHexDigit digit)
    (hcode : ¬ (hexadecimalValue digits).isValidChar) :
    readBracedHex (digits ++ '\x7d' :: rest) =
      .error (.notCharacter (hexadecimalValue digits)) := by
  obtain ⟨htake, hdrop⟩ :=
    Text.takeWhile_dropWhile_append_cons hall (by decide : isHexDigit '\x7d' = false) rest
  have hempty : digits.isEmpty = false := by simpa using hdigits
  simp only [readBracedHex, htake, hdrop, hempty, Bool.false_eq_true, if_false,
    character_of_invalid hcode]
  rfl

end Digits

variable {char : Char} {chars : List Char} {cause : LexCause}

/-- A character is read in four digits, and in two where no brace opens. -/
theorem readCharacter_of_fixed {width : Nat}
    (hchar : char = 'x' ∧ width = 2 ∨ char = 'u' ∧ width = 4)
    (hbrace : char = 'x' → chars.head? ≠ some '\x7b') :
    readCharacter char chars = readFixedHex width chars := by
  obtain ⟨rfl, rfl⟩ | ⟨rfl, rfl⟩ := hchar
  · have hcontrol : control? 'x' = none := rfl
    have hbrace := hbrace rfl
    simp only [readCharacter, hcontrol]
    split <;> simp_all
  · rfl

theorem Misspells.readCharacter_eq (hmisspells : Misspells char chars cause) :
    readCharacter char chars = .error cause := by
  cases hmisspells with
  | unknown hcontrol halphanum hx hu =>
    simp only [readCharacter, control?_eq_none_iff.mpr hcontrol]
    split <;> simp_all
  | short hchar hwidth hall hrest hbrace =>
    rw [readCharacter_of_fixed hchar hbrace, readFixedHex_of_short hwidth hall hrest]
  | @code width digits rest hchar hwidth hall hcode =>
    rw [readCharacter_of_fixed hchar, readFixedHex_of_code hwidth hall hcode]
    intro _ hbrace
    cases digits with
    | nil => simp only [List.length_nil] at hwidth; omega
    | cons digit digits =>
      obtain rfl : digit = '\x7b' := by simpa using hbrace
      exact absurd (hall _ List.mem_cons_self) (by decide)
  | bracedOpen hchar hall hrest =>
    subst hchar
    exact readBracedHex_of_open hall hrest
  | bracedEmpty hchar =>
    subst hchar
    rfl
  | bracedCode hchar hdigits hall hcode =>
    subst hchar
    exact readBracedHex_of_code hdigits hall hcode

/-- What `char` and the text after it come to: a character or a reason why there is none. -/
def Settles (char : Char) (chars : List Char) : Prop :=
  (∃ body rest written, chars = body ++ rest ∧ Spells char body written) ∨
    ∃ cause, Misspells char chars cause

theorem settles_fixed {width : Nat} (hchar : char = 'x' ∧ width = 2 ∨ char = 'u' ∧ width = 4)
    (hbrace : char = 'x' → chars.head? ≠ some '\x7b') : Settles char chars := by
  obtain ⟨hchars, hall, hrest⟩ := Text.takeWhile_dropWhile_eq_iff.mp
    (⟨rfl, rfl⟩ : chars.takeWhile isHexDigit = _ ∧ chars.dropWhile isHexDigit = _)
  generalize chars.takeWhile isHexDigit = digits at hchars hall
  generalize chars.dropWhile isHexDigit = rest at hchars hrest
  subst hchars
  by_cases hwidth : digits.length < width
  · exact .inr ⟨_, .short hchar hwidth hall (fun next hnext => by simp [hrest next hnext]) hbrace⟩
  · have hlength : (digits.take width).length = width :=
      List.length_take_of_le (Nat.not_lt.mp hwidth)
    have hall : ∀ digit ∈ digits.take width, isHexDigit digit :=
      fun digit hdigit => hall digit (List.mem_of_mem_take hdigit)
    have hchars : digits ++ rest = digits.take width ++ (digits.drop width ++ rest) := by
      rw [← List.append_assoc, List.take_append_drop]
    rw [hchars]
    by_cases hcode : (hexadecimalValue (digits.take width)).isValidChar
    · obtain ⟨written, hwritten⟩ := exists_character hcode
      exact .inl ⟨_, _, written, rfl, .fixed hchar hlength hall hwritten⟩
    · exact .inr ⟨_, .code hchar hlength hall hcode⟩

theorem settles_braced (chars : List Char) : Settles 'x' ('\x7b' :: chars) := by
  obtain ⟨hchars, hall, hrest⟩ := Text.takeWhile_dropWhile_eq_iff.mp
    (⟨rfl, rfl⟩ : chars.takeWhile isHexDigit = _ ∧ chars.dropWhile isHexDigit = _)
  generalize chars.takeWhile isHexDigit = digits at hchars hall
  generalize chars.dropWhile isHexDigit = rest at hchars hrest
  subst hchars
  by_cases hclose : rest.head? = some '\x7d'
  · obtain ⟨after, rfl⟩ := List.head?_eq_some_iff.mp hclose
    by_cases hdigits : digits = []
    · subst hdigits
      exact .inr ⟨_, .bracedEmpty rfl⟩
    · by_cases hcode : (hexadecimalValue digits).isValidChar
      · obtain ⟨written, hwritten⟩ := exists_character hcode
        exact .inl ⟨_, after, written, by simp, .braced rfl hdigits hall hwritten⟩
      · exact .inr ⟨_, .bracedCode rfl hdigits hall hcode⟩
  · refine .inr ⟨_, .bracedOpen rfl hall fun next hnext => ⟨by simp [hrest next hnext], ?_⟩⟩
    rintro rfl
    exact hclose hnext

/-- What follows a backslash and a character writes a character or does not for one of the
    reasons. -/
theorem settles (char : Char) (chars : List Char) : Settles char chars := by
  cases hcontrol : control? char with
  | some named => exact .inl ⟨[], chars, named, rfl, .control (control?_eq_some_iff.mp hcontrol)⟩
  | none =>
    by_cases hx : char = 'x'
    · subst hx
      by_cases hbrace : chars.head? = some '\x7b'
      · obtain ⟨inner, rfl⟩ := List.head?_eq_some_iff.mp hbrace
        exact settles_braced inner
      · exact settles_fixed (.inl ⟨rfl, rfl⟩) fun _ => hbrace
    · by_cases hu : char = 'u'
      · exact settles_fixed (.inr ⟨hu, rfl⟩) fun hx' => absurd hx' hx
      · by_cases halphanum : char.isAlphanum
        · exact .inr ⟨_, .unknown (control?_eq_none_iff.mp hcontrol) halphanum hx hu⟩
        · exact .inl ⟨[], chars, char, rfl, .self (by simpa using halphanum)⟩

/-- An escape that is cut off: nothing follows the backslash, or digits that are not enough. -/
inductive Unfinished : List Char → Prop where
  | backslash : Unfinished []
  | fixed {char : Char} {width : Nat} {digits : List Char}
      (hchar : char = 'x' ∧ width = 2 ∨ char = 'u' ∧ width = 4) (hwidth : digits.length < width)
      (hall : ∀ digit ∈ digits, isHexDigit digit) : Unfinished (char :: digits)
  | braced {digits : List Char} (hall : ∀ digit ∈ digits, isHexDigit digit) :
      Unfinished ('x' :: '\x7b' :: digits)

theorem Unfinished.letter (hunfinished : Unfinished (char :: chars)) : char = 'x' ∨ char = 'u' := by
  cases hunfinished with
  | fixed hchar => exact hchar.imp And.left And.left
  | braced => exact .inl rfl

theorem family_missingHexDigit {rest : List Char} :
    (missingHexDigit rest).family = .unterminatedEscape ↔ rest = [] := by
  cases rest <;> simp [missingHexDigit, LexCause.family]

/-- What is missing from an escape that is cut off is a digit. -/
theorem Unfinished.misspells (hunfinished : Unfinished (char :: chars)) :
    Misspells char chars .openHex := by
  cases hunfinished with
  | fixed hchar hwidth hall =>
    have hbrace : chars.head? ≠ some '\x7b' := fun hbrace =>
      absurd (hall _ (List.mem_of_mem_head? hbrace)) (by decide)
    have hmisspells : Misspells char (chars ++ []) .openHex :=
      .short hchar hwidth hall (by simp) (by rw [List.append_nil]; exact fun _ => hbrace)
    rwa [List.append_nil] at hmisspells
  | @braced digits hall =>
    have hmisspells : Misspells 'x' ('\x7b' :: (digits ++ [])) .openHex :=
      .bracedOpen rfl hall (by simp)
    rwa [List.append_nil] at hmisspells

/-- An escape that is cut off is reported as such, and no other one is. -/
theorem Misspells.family_eq_iff (hmisspells : Misspells char chars cause) :
    cause.family = .unterminatedEscape ↔ Unfinished (char :: chars) := by
  constructor
  · intro hfamily
    cases hmisspells with
    | unknown => cases hfamily
    | short hchar hwidth hall =>
      rw [family_missingHexDigit.mp hfamily, List.append_nil]
      exact .fixed hchar hwidth hall
    | code => cases hfamily
    | bracedOpen hchar hall =>
      rw [hchar, family_missingHexDigit.mp hfamily, List.append_nil]
      exact .braced hall
    | bracedEmpty => cases hfamily
    | bracedCode => cases hfamily
  · intro hunfinished
    have hread := hmisspells.readCharacter_eq.symm.trans hunfinished.misspells.readCharacter_eq
    rw [Except.error.inj hread]
    rfl

theorem Misspells.family_ne (hmisspells : Misspells char chars cause) :
    cause.family ≠ .unterminatedClass := by
  have hmissing : ∀ rest, (missingHexDigit rest).family ≠ .unterminatedClass := by
    intro rest
    cases rest <;> exact nofun
  cases hmisspells with
  | unknown => exact nofun
  | short => exact hmissing _
  | code => exact nofun
  | bracedOpen => exact hmissing _
  | bracedEmpty => exact nofun
  | bracedCode => exact nofun

end Escape

end PatternTree
