import PatternTree.Proofs.Shape.Print
import PatternTree.Proofs.Token.Spelling

namespace PatternTree

namespace Escape

theorem character_toNat (char : Char) : character char.toNat = .ok char := by
  have hvalid : char.toNat.isValidChar := char.valid
  rw [character, if_pos hvalid, Char.ofNat_toNat]

/-- The code of a character between braces is read whatever follows it. -/
theorem readCharacter_upperHex (char : Char) (rest : List Char) :
    readCharacter 'x' ('\x7b' :: (Text.upperHex char.toNat ++ '\x7d' :: rest)) =
      .ok (char, rest) := by
  have hread : readBracedHex (Text.upperHex char.toNat ++ '\x7d' :: rest) = .ok (char, rest) := by
    refine readBracedHex_eq_ok_iff.mpr ⟨_, rfl, Text.upperHex_ne_nil _, ?_, ?_⟩
    · exact Text.isHexDigit_of_mem_upperHex
    · rw [Text.hexadecimalValue_upperHex, character_toNat]
  exact hread

/-- A reference by number is read where no digit follows it. -/
theorem read_decimal {number : Nat} (hpos : 0 < number) (hfits : Text.fits32 number)
    {rest : List Char} (hrest : ∀ char ∈ rest.head?, char.isDigit = false) :
    read (Text.decimal number ++ rest) = .ok (.backreference number, rest) := by
  obtain ⟨first, digits, hdigits, hfirst⟩ := Text.exists_toDigits_ten_eq_cons hpos
  have hvalue := Text.decimalValue_decimal number
  have hall : ∀ char ∈ Text.decimal number, char.isDigit := Text.isDigit_of_mem_decimal
  rw [Text.decimal, hdigits] at hvalue hall
  rw [Text.decimal, hdigits]
  have hmem : first ∈ Nat.toDigits 10 number := by simp [hdigits]
  obtain ⟨digit, hdigit, rfl⟩ := Text.exists_of_mem_toDigits (by decide) hmem
  have hkinds : ∀ digit < 10, charClass? digit.digitChar = none ∧
      anchor? digit.digitChar = none ∧ digit.digitChar ≠ 'k' := by decide
  obtain ⟨hclass, hanchor, hk⟩ := hkinds digit hdigit
  have hread : readNumber digit.digitChar (digits ++ rest) = .ok (.backreference number, rest) := by
    refine readNumber_eq_ok_iff.mpr ⟨digits, rfl, ?_, hrest, ?_, by rw [hvalue]⟩
    · exact fun char hchar => hall char (List.mem_cons_of_mem _ hchar)
    · rwa [hvalue]
  simp [read, hclass, hanchor, hk, hall _ List.mem_cons_self, hfirst, hread]

end Escape

namespace Bracket

theorem readItem_hexEscape (char : Char) (rest : List Char) :
    readItem .pcre '\\' ('x' :: '\x7b' :: (Text.upperHex char.toNat ++ '\x7d' :: rest)) =
      .ok (.char char, rest) := by
  have hread := Escape.readCharacter_upperHex char rest
  have hitem : readEscape ('x' :: '\x7b' :: (Text.upperHex char.toNat ++ '\x7d' :: rest)) =
      (Escape.readCharacter 'x' ('\x7b' :: (Text.upperHex char.toNat ++ '\x7d' :: rest))).convert
        .char := rfl
  rw [readItem, hitem, hread]
  rfl

/-- A range is one member where no dash follows it. -/
theorem readMember_print {range : ClassRange} (hrange : range.low ≤ range.high) {rest : List Char}
    (hrest : rest.head? ≠ some '-') :
    ∃ chars, range.print = '\\' :: chars ∧
      readMember .pcre '\\' (chars ++ rest) = .ok ([range], rest) := by
  obtain ⟨low, high⟩ := range
  have hhigh := readItem_hexEscape high rest
  rw [ClassRange.print]
  split
  next hsame =>
    obtain rfl : low = high := hsame
    refine ⟨_, rfl, ?_⟩
    apply readMember_of_char _ hrest
    simpa using hhigh
  next hdifferent =>
    have hlow := readItem_hexEscape low ('-' :: (Text.hexEscape high ++ rest))
    refine ⟨_, rfl, ?_⟩
    apply readMember_of_range _ (by decide) hhigh hrange
    simpa [Text.hexEscape] using hlow

/-- Ranges are the members of an expression up to its closing bracket. -/
theorem readMembers_print {ranges : List ClassRange} (hranges : ranges ≠ [])
    (hordered : ∀ range ∈ ranges, range.low ≤ range.high) (bracket rest : List Char) :
    readMembers .pcre bracket (ranges.flatMap ClassRange.print ++ ']' :: rest) =
      .ok (ranges, rest) := by
  induction ranges with
  | nil => exact absurd rfl hranges
  | cons range ranges ih =>
    have hrange := hordered range List.mem_cons_self
    rw [List.flatMap_cons, List.append_assoc]
    cases ranges with
    | nil =>
      obtain ⟨chars, hchars, hmember⟩ :=
        readMember_print hrange (by simp : (']' :: rest).head? ≠ some '-')
      rw [hchars, List.flatMap_nil, List.nil_append]
      exact readMembers_of_last hmember bracket
    | cons next ranges =>
      have hothers := ih (by simp) fun other hother =>
        hordered other (List.mem_cons_of_mem _ hother)
      obtain ⟨others, hnext⟩ : ∃ others, (next :: ranges).flatMap ClassRange.print ++ ']' :: rest =
          '\\' :: others := by
        rw [List.flatMap_cons, ClassRange.print]
        split <;> exact ⟨_, rfl⟩
      rw [hnext] at hothers ⊢
      obtain ⟨chars, hchars, hmember⟩ :=
        readMember_print hrange (by simp : ('\\' :: others).head? ≠ some '-')
      rw [hchars, List.cons_append, readMembers_of_more hmember (by simp), hothers]
      rfl

/-- A printed set is read back. -/
theorem read_print {set : CharClass} (hranges : set.ranges ≠ [])
    (hordered : ∀ range ∈ set.ranges, range.low ≤ range.high) (bracket rest : List Char) :
    read .pcre bracket ((if set.negated then ['^'] else []) ++
      (set.ranges.flatMap ClassRange.print ++ ']' :: rest)) = .ok (set, rest) := by
  obtain ⟨negated, ranges⟩ := set
  have hmembers := readMembers_print hranges hordered bracket rest
  cases negated with
  | true =>
    simp only [if_true, List.cons_append, List.nil_append, read]
    rw [hmembers]
    rfl
  | false =>
    obtain ⟨first, others, rfl⟩ := List.exists_cons_of_ne_nil hranges
    obtain ⟨chars, hchars⟩ : ∃ chars, (first :: others).flatMap ClassRange.print ++ ']' :: rest =
        '\\' :: chars := by
      rw [List.flatMap_cons, ClassRange.print]
      split <;> exact ⟨_, rfl⟩
    simp only [Bool.false_eq_true, if_false, List.nil_append]
    rw [hchars] at hmembers ⊢
    have hread : read .pcre bracket ('\\' :: chars) =
        (readMembers .pcre bracket ('\\' :: chars)).convert (⟨false, ·⟩) := rfl
    rw [hread, hmembers]
    rfl

end Bracket

/-- The text of a leaf is read back where no digit follows it. -/
theorem Scan.readToken_print {atom : Atom} (hatom : atom.Proper) {rest : List Char}
    (hrest : ∀ char ∈ rest.head?, char.isDigit = false) :
    ∃ char chars, Shape.printLabel [] atom.label = char :: chars ∧ char ≠ '?' ∧
      char.isDigit = false ∧ readToken .pcre char (chars ++ rest) = .ok (.atom atom, rest) := by
  have hescape : ∀ chars, Escape.read (chars ++ rest) = .ok (atom, rest) →
      readToken .pcre '\\' (chars ++ rest) = .ok (.atom atom, rest) := by
    intro chars hread
    have hplaced := Reading.placed_of_ok hread ('\\' :: (chars ++ rest))
    simp [readToken, simple?, hplaced, Reading.convert, Except.map]
  cases atom with
  | literal char =>
    refine ⟨'\\', _, rfl, by decide, by decide, hescape _ ?_⟩
    have hread : Escape.read ('x' :: '\x7b' :: (Text.upperHex char.toNat ++ '\x7d' :: rest)) =
        (Escape.readCharacter 'x'
          ('\x7b' :: (Text.upperHex char.toNat ++ '\x7d' :: rest))).convert .literal := rfl
    rw [Escape.readCharacter_upperHex] at hread
    simpa using hread
  | dot => exact ⟨'.', [], rfl, by decide, by decide, rfl⟩
  | anchor place =>
    cases place with
    | startLine => exact ⟨'^', [], rfl, by decide, by decide, rfl⟩
    | endLine => exact ⟨'$', [], rfl, by decide, by decide, rfl⟩
    | _ => exact ⟨'\\', _, rfl, by decide, by decide, rfl⟩
  | charClass set =>
    refine ⟨'[', _, rfl, by decide, by decide, ?_⟩
    have hread := Bracket.read_print hatom.1 hatom.2
    simp [readToken, simple?, hread, Reading.convert, Except.map]
  | backreference number =>
    refine ⟨'\\', _, rfl, by decide, by decide, hescape _ ?_⟩
    exact Escape.read_decimal hatom.1 hatom.2 hrest
  | namedBackreference name =>
    refine ⟨'\\', _, rfl, by decide, by decide, hescape _ ?_⟩
    have hname : Escape.readName '>' (name.toList ++ '>' :: rest) = .ok (name, rest) :=
      (Escape.readName_eq_ok_iff (by decide)).mpr ⟨hatom, rfl⟩
    have hread : Escape.read ('k' :: '<' :: (name.toList ++ '>' :: rest)) =
        (Escape.readName '>' (name.toList ++ '>' :: rest)).convert .namedBackreference := rfl
    rw [hname] at hread
    simpa using hread

end PatternTree
