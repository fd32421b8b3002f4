import PatternTree.Token.Lexer

namespace PatternTree

namespace Text

/-- A text splits into the longest front of characters of a kind and what follows. -/
theorem takeWhile_dropWhile_eq_iff {kind : Char → Bool} {chars front back : List Char} :
    (chars.takeWhile kind = front ∧ chars.dropWhile kind = back) ↔
      chars = front ++ back ∧ (∀ char ∈ front, kind char) ∧
        ∀ char ∈ back.head?, kind char = false := by
  constructor
  · rintro ⟨rfl, rfl⟩
    refine ⟨List.takeWhile_append_dropWhile.symm, ?_, ?_⟩
    · exact List.all_eq_true.mp List.all_takeWhile
    · intro char hchar
      have hnot := List.head?_dropWhile_not kind chars
      rw [Option.mem_def.mp hchar] at hnot
      simpa using hnot
  · rintro ⟨rfl, hfront, hback⟩
    rw [List.takeWhile_append_of_pos hfront, List.dropWhile_append_of_pos hfront]
    cases back with
    | nil => simp
    | cons char back => simp [hback char rfl]

/-- A character of another kind ends the longest front of a kind. -/
theorem takeWhile_dropWhile_append_cons {kind : Char → Bool} {front : List Char}
    (hfront : ∀ char ∈ front, kind char) {char : Char} (hchar : kind char = false)
    (back : List Char) :
    (front ++ char :: back).takeWhile kind = front ∧
      (front ++ char :: back).dropWhile kind = char :: back :=
  takeWhile_dropWhile_eq_iff.mpr ⟨rfl, hfront, by simp [hchar]⟩

end Text

namespace Reading

@[simp] theorem convert_ok {ε α β : Type} (value : α) (rest : List Char) (change : α → β) :
    convert (.ok (value, rest) : Reading ε α) change = .ok (change value, rest) := rfl

theorem convert_eq_ok_iff {ε α β : Type} {reading : Reading ε α} {change : α → β} {value : β}
    {rest : List Char} :
    reading.convert change = .ok (value, rest) ↔
      ∃ before, reading = .ok (before, rest) ∧ change before = value := by
  cases reading with
  | error failure => simp [convert, Except.map]
  | ok read =>
    obtain ⟨before, after⟩ := read
    constructor
    · intro hread
      cases hread
      exact ⟨before, rfl, rfl⟩
    · rintro ⟨before', hread, rfl⟩
      cases hread
      rfl

theorem placed_eq_ok_iff {α : Type} {reading : Reading LexCause α} {place : List Char} {value : α}
    {rest : List Char} :
    reading.placed place = .ok (value, rest) ↔ reading = .ok (value, rest) := by
  cases reading with
  | error cause =>
    constructor
    · intro hread
      cases hread
    · intro hread
      cases hread
  | ok read =>
    constructor
    · intro hread
      cases hread
      rfl
    · intro hread
      cases hread
      rfl

theorem placed_of_ok {α : Type} {reading : Reading LexCause α} {value : α} {rest : List Char}
    (hread : reading = .ok (value, rest)) (place : List Char) :
    reading.placed place = .ok (value, rest) :=
  placed_eq_ok_iff.mpr hread

/-- When a reader follows two relations, one for what it gives and one for why it gives nothing,
    and one of them always applies, then it gives and fails exactly as they say. -/
theorem exact_of_total {ε α : Type} {reading : Reading ε α}
    {Gives : α → List Char → Prop} {Fails : ε → Prop}
    (hgives : ∀ {value rest}, Gives value rest → reading = .ok (value, rest))
    (hfails : ∀ {failure}, Fails failure → reading = .error failure)
    (htotal : (∃ value rest, Gives value rest) ∨ ∃ failure, Fails failure) :
    (∀ {value rest}, reading = .ok (value, rest) ↔ Gives value rest) ∧
      ∀ {failure}, reading = .error failure ↔ Fails failure := by
  obtain ⟨value, rest, hvalue⟩ | ⟨failure, hfailure⟩ := htotal
  · have hread := hgives hvalue
    constructor
    · refine fun {value' rest'} => ⟨fun hread' => ?_, hgives⟩
      cases hread.symm.trans hread'
      exact hvalue
    · refine fun {failure} => ⟨fun hread' => ?_, hfails⟩
      cases hread.symm.trans hread'
  · have hread := hfails hfailure
    constructor
    · refine fun {value rest} => ⟨fun hread' => ?_, hgives⟩
      cases hread.symm.trans hread'
    · refine fun {failure'} => ⟨fun hread' => ?_, hfails⟩
      cases hread.symm.trans hread'
      exact hfailure

end Reading

namespace Escape

/-- The characters that close names are no part of names. -/
theorem isNameChar_nameCloser {opener closer : Char} (hcloser : nameCloser? opener = some closer) :
    isNameChar closer = false := by
  unfold nameCloser? at hcloser
  split at hcloser <;> cases hcloser <;> decide

theorem isNameChar_of_isName {name : List Char} (hname : isName name) :
    ∀ char ∈ name, isNameChar char := by
  cases name with
  | nil => simp
  | cons first others =>
    simp only [isName, Bool.and_eq_true, List.all_eq_true] at hname
    intro char hchar
    obtain rfl | hchar := List.mem_cons.mp hchar
    · exact hname.1.1
    · exact hname.2 char hchar

/-- Reading a name takes an identifier and its closer, whatever follows them. -/
theorem readName_eq_ok_iff {closer : Char} (hcloser : isNameChar closer = false)
    {chars rest : List Char} {name : String} :
    readName closer chars = .ok (name, rest) ↔
      isName name.toList ∧ chars = name.toList ++ closer :: rest := by
  constructor
  · intro hread
    simp only [readName] at hread
    split at hread
    next hname =>
      split at hread
      · cases hread
      next char after hafter =>
        split at hread
        next hchar =>
          cases hread
          subst hchar
          refine ⟨by simpa using hname, ?_⟩
          rw [String.toList_ofList, ← hafter, List.takeWhile_append_dropWhile]
        · cases hread
    · cases hread
  · rintro ⟨hname, rfl⟩
    obtain ⟨htake, hdrop⟩ :=
      Text.takeWhile_dropWhile_append_cons (isNameChar_of_isName hname) hcloser rest
    simp only [readName, htake, hdrop, hname, if_true, String.ofList_toList]

/-- A backreference by number takes all digits there are. -/
theorem readNumber_eq_ok_iff {first : Char} {chars rest : List Char} {atom : Atom} :
    readNumber first chars = .ok (atom, rest) ↔
      ∃ digits, chars = digits ++ rest ∧ (∀ digit ∈ digits, digit.isDigit) ∧
        (∀ char ∈ rest.head?, char.isDigit = false) ∧
        Text.fits32 (Text.decimalValue (first :: digits)) ∧
        atom = .backreference (Text.decimalValue (first :: digits)) := by
  constructor
  · intro hread
    simp only [readNumber] at hread
    split at hread
    next hfits =>
      cases hread
      obtain ⟨hchars, hdigits, hrest⟩ := Text.takeWhile_dropWhile_eq_iff.mp ⟨rfl, rfl⟩
      exact ⟨_, hchars, hdigits, hrest, hfits, rfl⟩
    · cases hread
  · rintro ⟨digits, hchars, hdigits, hrest, hfits, rfl⟩
    obtain ⟨htake, hdrop⟩ := Text.takeWhile_dropWhile_eq_iff.mpr ⟨hchars, hdigits, hrest⟩
    simp only [readNumber, htake, hdrop, hfits, if_true]

/-- A code of a fixed width takes exactly that many hexadecimal digits. -/
theorem readFixedHex_eq_ok_iff {width : Nat} {chars rest : List Char} {char : Char} :
    readFixedHex width chars = .ok (char, rest) ↔
      ∃ digits, chars = digits ++ rest ∧ digits.length = width ∧
        (∀ digit ∈ digits, Text.isHexDigit digit) ∧
        character (Text.hexadecimalValue digits) = .ok char := by
  constructor
  · intro hread
    simp only [readFixedHex] at hread
    split at hread
    next hlength =>
      have hdigits : (chars.take width).takeWhile Text.isHexDigit = chars.take width := by
        refine (List.takeWhile_prefix _).eq_of_length_le ?_
        rw [hlength]
        exact List.length_take_le _ _
      rw [hdigits] at hread hlength
      have hall := List.all_takeWhile (p := Text.isHexDigit) (l := chars.take width)
      rw [hdigits] at hall
      cases hcharacter : character (Text.hexadecimalValue (chars.take width)) with
      | error cause =>
        rw [hcharacter] at hread
        cases hread
      | ok found =>
        rw [hcharacter] at hread
        cases hread
        exact ⟨chars.take width, (List.take_append_drop _ _).symm, hlength,
          by simpa using hall, hcharacter⟩
    · cases hread
  · rintro ⟨digits, rfl, rfl, hdigits, hcharacter⟩
    obtain ⟨htake, -⟩ := Text.takeWhile_dropWhile_eq_iff.mpr
      ⟨(List.append_nil digits).symm, hdigits, by simp⟩
    simp only [readFixedHex, List.take_left', htake, if_true, List.drop_left', hcharacter]
    rfl

/-- A code between braces takes the digits up to the closing brace. -/
theorem readBracedHex_eq_ok_iff {chars rest : List Char} {char : Char} :
    readBracedHex chars = .ok (char, rest) ↔
      ∃ digits, chars = digits ++ '\x7d' :: rest ∧ digits ≠ [] ∧
        (∀ digit ∈ digits, Text.isHexDigit digit) ∧
        character (Text.hexadecimalValue digits) = .ok char := by
  constructor
  · intro hread
    simp only [readBracedHex] at hread
    split at hread
    next after hafter =>
      obtain ⟨hchars, hdigits, -⟩ := Text.takeWhile_dropWhile_eq_iff.mp ⟨rfl, hafter⟩
      split at hread
      · cases hread
      next hempty =>
        cases hcharacter : character (Text.hexadecimalValue (chars.takeWhile Text.isHexDigit)) with
        | error cause =>
          rw [hcharacter] at hread
          cases hread
        | ok found =>
          rw [hcharacter] at hread
          cases hread
          exact ⟨_, hchars, by simpa using hempty, hdigits, hcharacter⟩
    · cases hread
  · rintro ⟨digits, rfl, hdigits, hall, hcharacter⟩
    obtain ⟨htake, hdrop⟩ :=
      Text.takeWhile_dropWhile_append_cons hall (by decide : Text.isHexDigit '\x7d' = false) rest
    have hempty : digits.isEmpty = false := by simpa using hdigits
    simp only [readBracedHex, htake, hdrop, hempty, hcharacter, Bool.false_eq_true, if_false]
    rfl

end Escape

namespace Bracket

variable {classSyntax : ClassSyntax} {char low high : Char} {chars rest : List Char}

theorem readMember_of_set {ranges : List ClassRange}
    (hitem : readItem classSyntax char chars = .ok (.set ranges, rest)) :
    readMember classSyntax char chars = .ok (ranges, rest) := by
  have hplaced := Reading.placed_of_ok hitem (char :: chars)
  rw [readMember, hplaced]

/-- A character is one member where no dash follows it. -/
theorem readMember_of_char (hitem : readItem classSyntax char chars = .ok (.char low, rest))
    (hrest : rest.head? ≠ some '-') :
    readMember classSyntax char chars = .ok ([.single low], rest) := by
  have hplaced := Reading.placed_of_ok hitem (char :: chars)
  rw [readMember, hplaced]
  cases rest with
  | nil => rfl
  | cons next after =>
    have hnext : next ≠ '-' := by simpa using hrest
    simp [hnext]

/-- A character is one member before a last dash. -/
theorem readMember_of_dash
    (hitem : readItem classSyntax char chars = .ok (.char low, '-' :: ']' :: rest)) :
    readMember classSyntax char chars = .ok ([.single low], '-' :: ']' :: rest) := by
  have hplaced := Reading.placed_of_ok hitem (char :: chars)
  rw [readMember, hplaced]
  simp

/-- Two characters with a dash between them are one member. -/
theorem readMember_of_range {next : Char} {after : List Char}
    (hitem : readItem classSyntax char chars = .ok (.char low, '-' :: next :: after))
    (hnext : next ≠ ']') (hitem' : readItem classSyntax next after = .ok (.char high, rest))
    (hrange : low ≤ high) :
    readMember classSyntax char chars = .ok ([⟨low, high⟩], rest) := by
  have hplaced := Reading.placed_of_ok hitem (char :: chars)
  have hplaced' := Reading.placed_of_ok hitem' (next :: after)
  have hnot : ¬ high < low := Char.not_lt.mpr hrange
  rw [readMember, hplaced]
  simp [hnext, hplaced', hnot]

end Bracket

namespace Counts

/-- What stands between the braces. -/
def inside : Counts → List Char
  | exactly count => count
  | atLeast lower => lower ++ [',']
  | between lower upper => lower ++ ',' :: upper

/-- Digits that write a number. -/
def IsNumeral (digits : List Char) : Prop :=
  digits ≠ [] ∧ ∀ digit ∈ digits, digit.isDigit

/-- Whether all counts are written with digits. -/
def IsWritten : Counts → Prop
  | exactly count => IsNumeral count
  | atLeast lower => IsNumeral lower
  | between lower upper => IsNumeral lower ∧ IsNumeral upper

end Counts

namespace Scan

/-- Written counts are read back whatever follows their brace. -/
theorem readCounts?_of_isWritten {counts : Counts} (hwritten : counts.IsWritten)
    (rest : List Char) :
    readCounts? (counts.inside ++ '\x7d' :: rest) = some (counts, rest) := by
  have hcloser : ('\x7d').isDigit = false := by decide
  have hcomma : (',').isDigit = false := by decide
  cases counts with
  | exactly count =>
    obtain ⟨hcount, hdigits⟩ := hwritten
    obtain ⟨htake, hdrop⟩ := Text.takeWhile_dropWhile_append_cons hdigits hcloser rest
    simp [readCounts?, Counts.inside, htake, hdrop, hcount]
  | atLeast lower =>
    obtain ⟨hlower, hdigits⟩ := hwritten
    obtain ⟨htake, hdrop⟩ :=
      Text.takeWhile_dropWhile_append_cons hdigits hcomma ('\x7d' :: rest)
    simp [readCounts?, Counts.inside, htake, hdrop, hcloser, hlower]
  | between lower upper =>
    obtain ⟨⟨hlower, hdigits⟩, hupper, hdigits'⟩ := hwritten
    obtain ⟨htake, hdrop⟩ :=
      Text.takeWhile_dropWhile_append_cons hdigits hcomma (upper ++ '\x7d' :: rest)
    obtain ⟨htake', hdrop'⟩ := Text.takeWhile_dropWhile_append_cons hdigits' hcloser rest
    simp [readCounts?, Counts.inside, htake, hdrop, htake', hdrop', hlower, hupper]

/-- Counts are taken where digits, perhaps a comma and more digits, and a closing brace stand. -/
theorem readCounts?_eq_some_iff {chars rest : List Char} {counts : Counts} :
    readCounts? chars = some (counts, rest) ↔
      counts.IsWritten ∧ chars = counts.inside ++ '\x7d' :: rest := by
  constructor
  · intro hread
    simp only [readCounts?] at hread
    split at hread
    · cases hread
    next hempty =>
      split at hread
      next after hafter =>
        cases hread
        obtain ⟨hchars, hdigits, -⟩ := Text.takeWhile_dropWhile_eq_iff.mp ⟨rfl, hafter⟩
        exact ⟨⟨by simpa using hempty, hdigits⟩, hchars⟩
      next after hafter =>
        obtain ⟨hchars, hdigits, -⟩ := Text.takeWhile_dropWhile_eq_iff.mp ⟨rfl, hafter⟩
        split at hread
        next last hlast =>
          cases hread
          obtain ⟨hafter', hdigits', -⟩ := Text.takeWhile_dropWhile_eq_iff.mp ⟨rfl, hlast⟩
          cases hupper : (after.takeWhile Char.isDigit) with
          | nil =>
            rw [hupper] at hafter'
            refine ⟨⟨by simpa using hempty, hdigits⟩, hchars.trans ?_⟩
            simp [Counts.inside, hafter']
          | cons digit digits =>
            rw [hupper] at hafter' hdigits'
            refine ⟨⟨⟨by simpa using hempty, hdigits⟩, by simp, hdigits'⟩, hchars.trans ?_⟩
            simp [Counts.inside, hafter']
        · cases hread
      · cases hread
  · rintro ⟨hwritten, rfl⟩
    exact readCounts?_of_isWritten hwritten rest

end Scan

end PatternTree
