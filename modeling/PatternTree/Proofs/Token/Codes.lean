import PatternTree.Proofs.Bracket.Places
import PatternTree.Proofs.Cursor.Bracket

namespace PatternTree

/-- What is read behind a backslash outside of brackets is a token. -/
theorem Scan.readToken_backslash {classSyntax : ClassSyntax} {atom : Atom} {chars rest : List Char}
    (hread : Escape.read chars = .ok (atom, rest)) :
    readToken classSyntax '\\' chars = .ok (.atom atom, rest) := by
  simp [readToken, simple?, Reading.placed_of_ok hread]

namespace Escape

open Text (isHexDigit hexadecimalValue)

/-- What follows a backslash to write a character by its code, and the digits of the code: any
    positive number of them between braces, or exactly two or four. -/
inductive Codes : List Char → List Char → Prop where
  | braced {digits : List Char} (hdigits : digits ≠ [])
      (hall : ∀ digit ∈ digits, isHexDigit digit) :
      Codes ('x' :: '\x7b' :: (digits ++ ['\x7d'])) digits
  | fixed {letter : Char} {width : Nat} {digits : List Char}
      (hletter : letter = 'x' ∧ width = 2 ∨ letter = 'u' ∧ width = 4)
      (hwidth : digits.length = width) (hall : ∀ digit ∈ digits, isHexDigit digit) :
      Codes (letter :: digits) digits

/-- A text behind a backslash is no escape, outside of brackets and inside them where escapes are
    known, and it is reported at the backslash. Readers whose numbers saturate at 32 bits report it
    in the same way. -/
structure Fails (family : LexFamily) (chars : List Char) : Prop where
  outside : ∀ classSyntax offset, ∃ cause : LexCause, cause.family = family ∧
    Scan.ofText classSyntax offset ('\\' :: chars) = ⟨[], some ⟨cause, offset⟩⟩
  inside : ∀ bracket low? offset, Bracket.StartsItem .pcre bracket low? ('\\' :: chars) →
    ∃ (cause : LexCause) (front : List Char), cause.family = family ∧
      '[' :: bracket = front ++ '\\' :: chars ∧
      Scan.ofText .pcre offset ('[' :: bracket) =
        ⟨[], some ⟨cause, offset + Text.utf8Size front⟩⟩
  saturated : ∀ front, ∃ message message',
    Cursor.escape (Text.utf8Size front) (front ++ '\\' :: chars) (Text.utf8Size front + 1) =
      .failed ⟨family, Text.utf8Size front, message⟩ ∧
    Cursor.classEscape (Text.utf8Size front) (front ++ '\\' :: chars) (Text.utf8Size front + 1) =
      .failed ⟨family, Text.utf8Size front, message'⟩

section Reading

variable {letter char next : Char} {body chars digits rest : List Char} {cause : LexCause}

/-- What writes a character has no other meaning outside of brackets. -/
theorem Spells.charClass?_anchor? (hspells : Spells letter body char) :
    charClass? letter = none ∧ anchor? letter = none ∧ letter ≠ 'k' ∧
      (letter.isDigit && letter ≠ '0') = false := by
  have hclass : charClass? letter = none := by
    rw [charClass?, hspells.not_shorthand.1]
    rfl
  refine ⟨hclass, ?_⟩
  cases hspells with
  | control hnamed => cases hnamed <;> decide
  | braced hletter =>
    subst hletter
    decide
  | fixed hletter => obtain ⟨rfl, -⟩ | ⟨rfl, -⟩ := hletter <;> decide
  | self hself =>
    obtain ⟨-, hdigit⟩ := Bool.or_eq_false_iff.mp hself
    refine ⟨?_, ?_, by rw [hdigit, Bool.false_and]⟩
    · unfold anchor?
      split <;> first | rfl | cases hself
    · rintro rfl
      cases hself

/-- What writes a character is a literal outside of brackets, whatever follows it. -/
theorem Spells.read_eq (hspells : Spells letter body char) (rest : List Char) :
    read (letter :: (body ++ rest)) = .ok (.literal char, rest) := by
  obtain ⟨hclass, hanchor, hk, hnumber⟩ := hspells.charClass?_anchor?
  have hread := hspells.readCharacter_eq rest
  simp only [read, hclass, hanchor, hk, hnumber, hread, if_false, Bool.false_eq_true,
    Reading.convert_ok]

/-- A code that is wrong is reported outside of brackets. -/
theorem Misspells.read_eq (hmisspells : Misspells letter chars cause)
    (hletter : letter = 'x' ∨ letter = 'u') : read (letter :: chars) = .error cause := by
  have hread := hmisspells.readCharacter_eq
  obtain rfl | rfl := hletter
  · have hcode : read ('x' :: chars) = (readCharacter 'x' chars).convert .literal := rfl
    rw [hcode, hread]
    rfl
  · have hcode : read ('u' :: chars) = (readCharacter 'u' chars).convert .literal := rfl
    rw [hcode, hread]
    rfl

/-- A code that belongs to a character writes it. -/
theorem Codes.exists_spells (hcodes : Codes body digits)
    (hcode : character (hexadecimalValue digits) = .ok char) :
    ∃ letter others, body = letter :: others ∧ Spells letter others char := by
  cases hcodes with
  | braced hdigits hall => exact ⟨_, _, rfl, .braced rfl hdigits hall hcode⟩
  | fixed hletter hwidth hall => exact ⟨_, _, rfl, .fixed hletter hwidth hall hcode⟩

end Reading

section Scanning

variable {char : Char} {body chars : List Char} {cause cause' : LexCause} {family : LexFamily}

end Scanning

end Escape

end PatternTree
