import PatternTree.Proofs.Token.Spelling

namespace PatternTree

/-- A character of another kind ends the longest front of a kind also where it is not the
    first. -/
theorem Text.takeWhile_dropWhile_append_stop {kind : Char → Bool} {stop : Char}
    (hstop : kind stop = false) (chars rest : List Char) :
    (chars ++ stop :: rest).takeWhile kind = chars.takeWhile kind ∧
      (chars ++ stop :: rest).dropWhile kind = chars.dropWhile kind ++ stop :: rest := by
  induction chars with
  | nil => simp [hstop]
  | cons char chars ih =>
    cases hchar : kind char with
    | true => simp [hchar, ih]
    | false => simp [hchar]

theorem Text.mem_head?_of_prefix {front chars : List Char} (hcut : front <+: chars) {char : Char}
    (hchar : char ∈ front.head?) : char ∈ chars.head? := by
  obtain ⟨back, rfl⟩ := hcut
  cases front with
  | nil => cases hchar
  | cons first front => exact hchar

namespace Escape

/-- The letters behind a backslash that name a control character, and the zero. -/
inductive NamesControl : Char → Char → Prop where
  | lineFeed : NamesControl 'n' '\n'
  | carriageReturn : NamesControl 'r' '\r'
  | tab : NamesControl 't' '\t'
  | formFeed : NamesControl 'f' '\x0c'
  | verticalTab : NamesControl 'v' '\x0b'
  | bell : NamesControl 'a' '\x07'
  | escape : NamesControl 'e' '\x1b'
  | null : NamesControl '0' '\x00'

theorem control?_eq_some_iff {char named : Char} :
    control? char = some named ↔ NamesControl char named := by
  constructor
  · intro hnamed
    unfold control? at hnamed
    split at hnamed <;> cases hnamed <;> constructor
  · rintro ⟨⟩ <;> rfl

theorem control?_eq_none_iff {char : Char} :
    control? char = none ↔ ∀ named, ¬ NamesControl char named := by
  simp only [Option.eq_none_iff_forall_ne_some, Ne, control?_eq_some_iff]

/-- Only letters and the zero name a control character. -/
theorem NamesControl.isAlphanum {char named : Char} (hnamed : NamesControl char named) :
    char.isAlphanum := by
  cases hnamed <;> rfl

/-- What may follow a backslash and a character to write a character. -/
inductive Spells (char : Char) : List Char → Char → Prop where
  | control {named : Char} (hnamed : NamesControl char named) : Spells char [] named
  | braced {digits : List Char} {written : Char} (hchar : char = 'x') (hdigits : digits ≠ [])
      (hall : ∀ digit ∈ digits, Text.isHexDigit digit)
      (hcode : character (Text.hexadecimalValue digits) = .ok written) :
      Spells char ('\x7b' :: (digits ++ ['\x7d'])) written
  | fixed {width : Nat} {digits : List Char} {written : Char}
      (hchar : char = 'x' ∧ width = 2 ∨ char = 'u' ∧ width = 4) (hwidth : digits.length = width)
      (hall : ∀ digit ∈ digits, Text.isHexDigit digit)
      (hcode : character (Text.hexadecimalValue digits) = .ok written) : Spells char digits written
  | self (hself : char.isAlphanum = false) : Spells char [] char

theorem Spells.readCharacter_eq {char written : Char} {body : List Char}
    (hspells : Spells char body written) (rest : List Char) :
    readCharacter char (body ++ rest) = .ok (written, rest) := by
  cases hspells with
  | control hnamed => simp [readCharacter, control?_eq_some_iff.mpr hnamed]
  | @braced digits _ hchar hdigits hall hcode =>
    subst hchar
    have hread : readBracedHex (digits ++ '\x7d' :: rest) = .ok (written, rest) :=
      readBracedHex_eq_ok_iff.mpr ⟨digits, rfl, hdigits, hall, hcode⟩
    have hcontrol : control? 'x' = none := by decide
    simpa [readCharacter, hcontrol] using hread
  | @fixed width _ _ hchar hwidth hall hcode =>
    have hread : readFixedHex width (body ++ rest) = .ok (written, rest) :=
      readFixedHex_eq_ok_iff.mpr ⟨body, rfl, hwidth, hall, hcode⟩
    obtain ⟨rfl, rfl⟩ | ⟨rfl, rfl⟩ := hchar
    · obtain ⟨first, others, rfl⟩ := List.exists_cons_of_length_pos (by omega : 0 < body.length)
      have hfirst : first ≠ '\x7b' := by
        rintro rfl
        have hhex := hall '\x7b' List.mem_cons_self
        revert hhex
        decide
      have hcontrol : control? 'x' = none := by decide
      simp only [List.cons_append] at hread ⊢
      simp only [readCharacter, hcontrol]
      split <;> simp_all
    · exact hread
  | self hself =>
    have hcontrol : control? char = none := control?_eq_none_iff.mpr fun named hnamed =>
      absurd hnamed.isAlphanum (by simp [hself])
    have hx : char ≠ 'x' := by
      rintro rfl
      revert hself
      decide
    have hu : char ≠ 'u' := by
      rintro rfl
      revert hself
      decide
    simp only [List.nil_append, readCharacter, hcontrol]
    split <;> simp_all

theorem readCharacter_eq_ok_iff {char written : Char} {chars rest : List Char} :
    readCharacter char chars = .ok (written, rest) ↔
      ∃ body, chars = body ++ rest ∧ Spells char body written := by
  constructor
  · intro hread
    simp only [readCharacter] at hread
    split at hread
    next named hnamed =>
      cases hread
      exact ⟨[], rfl, .control (control?_eq_some_iff.mp hnamed)⟩
    next hcontrol =>
      split at hread
      next after =>
        obtain ⟨digits, rfl, hdigits, hall, hcode⟩ := readBracedHex_eq_ok_iff.mp hread
        exact ⟨'\x7b' :: (digits ++ ['\x7d']), by simp, .braced rfl hdigits hall hcode⟩
      next =>
        obtain ⟨digits, rfl, hwidth, hall, hcode⟩ := readFixedHex_eq_ok_iff.mp hread
        exact ⟨digits, rfl, .fixed (.inl ⟨rfl, rfl⟩) hwidth hall hcode⟩
      next =>
        obtain ⟨digits, rfl, hwidth, hall, hcode⟩ := readFixedHex_eq_ok_iff.mp hread
        exact ⟨digits, rfl, .fixed (.inr ⟨rfl, rfl⟩) hwidth hall hcode⟩
      next =>
        split at hread
        · cases hread
        next hself =>
          cases hread
          exact ⟨[], rfl, .self (by simpa using hself)⟩
  · rintro ⟨body, rfl, hspells⟩
    exact hspells.readCharacter_eq rest

/-- An escape is read in the same way whatever follows it, unless that is a digit more. -/
theorem exists_of_read {chars rest : List Char} {atom : Atom}
    (hread : read chars = .ok (atom, rest)) :
    ∃ char body, chars = char :: (body ++ rest) ∧
      ∀ rest', (∀ next ∈ rest'.head?, next.isDigit → next ∈ rest.head?) →
        read (char :: (body ++ rest')) = .ok (atom, rest') := by
  cases chars with
  | nil => cases hread
  | cons char chars =>
    simp only [read] at hread
    split at hread
    next set hset =>
      cases hread
      refine ⟨char, [], rfl, fun rest' _ => ?_⟩
      simp [read, hset]
    next place hset hplace =>
      cases hread
      refine ⟨char, [], rfl, fun rest' _ => ?_⟩
      simp [read, hset, hplace]
    next hset hplace =>
      split at hread
      next hreference =>
        subst hreference
        cases chars with
        | nil => cases hread
        | cons opener chars =>
          simp only [readReference] at hread
          split at hread
          · cases hread
          next closer hcloser =>
            obtain ⟨name, hname, rfl⟩ := Reading.convert_eq_ok_iff.mp hread
            have hstop := isNameChar_nameCloser hcloser
            obtain ⟨hidentifier, rfl⟩ := (readName_eq_ok_iff hstop).mp hname
            refine ⟨'k', opener :: (name.toList ++ [closer]), by simp, fun rest' _ => ?_⟩
            have hname' : readName closer (name.toList ++ closer :: rest') = .ok (name, rest') :=
              (readName_eq_ok_iff hstop).mpr ⟨hidentifier, rfl⟩
            simp [read, hset, hplace, readReference, hcloser, hname']
      next hreference =>
        split at hread
        next hnumber =>
          obtain ⟨digits, rfl, hdigits, hstop, hfits, rfl⟩ := readNumber_eq_ok_iff.mp hread
          refine ⟨char, digits, rfl, fun rest' hrest' => ?_⟩
          have hstop' : ∀ next ∈ rest'.head?, next.isDigit = false := by
            intro next hnext
            cases hdigit : next.isDigit with
            | false => rfl
            | true => rw [← hdigit, hstop next (hrest' next hnext hdigit)]
          have hread' := readNumber_eq_ok_iff.mpr ⟨digits, rfl, hdigits, hstop', hfits, rfl⟩
          rw [← hread']
          simp only [read, hset, hplace, hreference, if_false, hnumber, if_true]
        next hnumber =>
          obtain ⟨written, hwritten, rfl⟩ := Reading.convert_eq_ok_iff.mp hread
          obtain ⟨body, rfl, hspells⟩ := readCharacter_eq_ok_iff.mp hwritten
          refine ⟨char, body, rfl, fun rest' _ => ?_⟩
          have hread' := hspells.readCharacter_eq rest'
          simp only [read, hset, hplace, hreference, if_false, hnumber, hread', Bool.false_eq_true]
          rfl

end Escape

namespace Bracket

variable {classSyntax : ClassSyntax} {chars before after : List Char} {char : Char}

/-- An escape in brackets is read in the same way whatever follows it. -/
theorem exists_of_readEscape {rest : List Char} {item : Item}
    (hread : readEscape chars = .ok (item, rest)) :
    ∃ body, chars = body ++ rest ∧ ∀ rest', readEscape (body ++ rest') = .ok (item, rest') := by
  cases chars with
  | nil => cases hread
  | cons char chars =>
    simp only [readEscape] at hread
    split at hread
    next ranges hranges =>
      cases hread
      exact ⟨[char], rfl, fun rest' => by simp [readEscape, hranges]⟩
    next hranges =>
      split at hread
      next hbackspace =>
        cases hread
        subst hbackspace
        exact ⟨['b'], rfl, fun rest' => rfl⟩
      next hbackspace =>
        obtain ⟨written, hwritten, rfl⟩ := Reading.convert_eq_ok_iff.mp hread
        obtain ⟨body, rfl, hspells⟩ := Escape.readCharacter_eq_ok_iff.mp hwritten
        refine ⟨char :: body, rfl, fun rest' => ?_⟩
        have hread' := hspells.readCharacter_eq rest'
        simp [readEscape, hranges, hbackspace, hread']

/-- Whether a text is the end of a set's name does not depend on what follows its bracket. -/
theorem append_ne_of_append_ne {stop : List Char}
    (hnone : ∀ rest, stop ++ ']' :: after ≠ ':' :: ']' :: rest) (after' rest : List Char) :
    stop ++ ']' :: after' ≠ ':' :: ']' :: rest := by
  intro hclose
  match stop with
  | [] => simp at hclose
  | [colon] =>
    obtain ⟨rfl, -⟩ : colon = ':' ∧ after' = rest := by simpa using hclose
    exact hnone after rfl
  | colon :: bracket :: others =>
    obtain ⟨rfl, rfl, -⟩ : colon = ':' ∧ bracket = ']' ∧ _ := by simpa using hclose
    exact hnone (others ++ ']' :: after) rfl

/-- The search for the end of a set's name does not get past a closing bracket. -/
theorem exists_of_readNamedSet {item : Item}
    (hread : readNamedSet chars = .ok (item, before ++ ']' :: after)) :
    ∃ body, chars = body ++ (before ++ ']' :: after) ∧ ∀ after',
      readNamedSet (body ++ (before ++ ']' :: after')) = .ok (item, before ++ ']' :: after') := by
  have hbracket : (']').isLower = false := by decide
  unfold readNamedSet at hread
  split at hread
  next named =>
    split at hread
    next first name rest htake hdrop =>
      simp only at hread
      split at hread
      next ranges hranges =>
        cases hread
        have hnamed : named = (first :: name) ++ ':' :: ']' :: (before ++ ']' :: after) := by
          rw [← htake, ← hdrop, List.takeWhile_append_dropWhile]
        have hlower : ∀ char ∈ first :: name, char.isLower := by
          rw [← htake]
          exact List.all_eq_true.mp List.all_takeWhile
        refine ⟨':' :: ((first :: name) ++ [':', ']']), by simp [hnamed], fun after' => ?_⟩
        obtain ⟨htake', hdrop'⟩ := Text.takeWhile_dropWhile_append_cons hlower
          (by decide : (':').isLower = false) (']' :: (before ++ ']' :: after'))
        simp only [List.cons_append, List.append_assoc, List.nil_append] at htake' hdrop' ⊢
        simp only [readNamedSet, htake', hdrop', hranges]
      · cases hread
    next hnone =>
      obtain ⟨rfl, hrest⟩ : Item.char '[' = item ∧ ':' :: named = before ++ ']' :: after := by
        simpa using hread
      refine ⟨[], hrest, fun after' => ?_⟩
      cases before with
      | nil => cases hrest
      | cons colon before =>
        obtain ⟨rfl, rfl⟩ := List.cons.inj hrest
        obtain ⟨htake, hdrop⟩ := Text.takeWhile_dropWhile_append_stop hbracket before after
        obtain ⟨htake', hdrop'⟩ := Text.takeWhile_dropWhile_append_stop hbracket before after'
        simp only [List.nil_append, List.cons_append, readNamedSet, htake', hdrop']
        split
        next first name rest hname hclose =>
          have hnamed :
              ∀ rest, before.dropWhile Char.isLower ++ ']' :: after ≠ ':' :: ']' :: rest :=
            fun rest hclose => hnone first name rest (htake.trans hname) (hdrop.trans hclose)
          exact absurd hclose (append_ne_of_append_ne hnamed after' rest)
        · rfl
  next hcolon =>
    obtain ⟨rfl, rfl⟩ : Item.char '[' = item ∧ chars = before ++ ']' :: after := by
      simpa using hread
    refine ⟨[], rfl, fun after' => ?_⟩
    cases before with
    | nil => rfl
    | cons first before =>
      have hfirst : first ≠ ':' := by
        rintro rfl
        exact hcolon _ rfl
      simp [readNamedSet, hfirst]

/-- One item of an expression is read in the same way whatever follows the expression. -/
theorem exists_of_readItem {item : Item}
    (hread : readItem classSyntax char chars = .ok (item, before ++ ']' :: after)) :
    ∃ body, chars = body ++ (before ++ ']' :: after) ∧ ∀ after',
      readItem classSyntax char (body ++ (before ++ ']' :: after')) =
        .ok (item, before ++ ']' :: after') := by
  unfold readItem at hread ⊢
  split at hread
  · exact exists_of_readNamedSet hread
  · obtain ⟨body, hchars, hbody⟩ := exists_of_readEscape hread
    exact ⟨body, hchars, fun after' => hbody _⟩
  · obtain ⟨rfl, rfl⟩ : Item.char char = item ∧ chars = before ++ ']' :: after := by
      simpa using hread
    exact ⟨[], rfl, fun after' => rfl⟩

/-- One member of an expression is read in the same way whatever follows the expression. -/
theorem exists_of_readMember {ranges : List ClassRange}
    (hread : readMember classSyntax char chars = .ok (ranges, before ++ ']' :: after)) :
    ∃ body, chars = body ++ (before ++ ']' :: after) ∧ ∀ after',
      readMember classSyntax char (body ++ (before ++ ']' :: after')) =
        .ok (ranges, before ++ ']' :: after') := by
  unfold readMember at hread
  split at hread
  · cases hread
  next hplaced =>
    cases hread
    obtain ⟨body, hchars, hbody⟩ := exists_of_readItem (Reading.placed_eq_ok_iff.mp hplaced)
    exact ⟨body, hchars, fun after' => readMember_of_set (hbody after')⟩
  next low rest hplaced =>
    have hitem := Reading.placed_eq_ok_iff.mp hplaced
    split at hread
    next next others =>
      split at hread
      next hlast =>
        subst hlast
        obtain ⟨rfl, hrest⟩ : [ClassRange.single low] = ranges ∧
            '-' :: ']' :: others = before ++ ']' :: after := by simpa using hread
        rw [hrest] at hitem
        obtain ⟨body, hchars, hbody⟩ := exists_of_readItem hitem
        refine ⟨body, hchars, fun after' => ?_⟩
        have hitem' := hbody after'
        match before with
        | [] => simp at hrest
        | [dash] =>
          obtain ⟨rfl, -⟩ : '-' = dash ∧ others = after := by simpa using hrest
          exact readMember_of_dash hitem'
        | dash :: bracket :: before =>
          obtain ⟨rfl, rfl, -⟩ : '-' = dash ∧ ']' = bracket ∧ _ := by simpa using hrest
          exact readMember_of_dash hitem'
      next hnext =>
        split at hread
        · cases hread
        · cases hread
        next high rest' hplaced' =>
          split at hread
          · cases hread
          next horder =>
            cases hread
            obtain ⟨second, rfl, hsecond⟩ :=
              exists_of_readItem (Reading.placed_eq_ok_iff.mp hplaced')
            have hitem' : readItem classSyntax char chars =
                .ok (.char low, ('-' :: next :: (second ++ before)) ++ ']' :: after) := by
              simpa using hitem
            obtain ⟨first, rfl, hfirst⟩ := exists_of_readItem hitem'
            refine ⟨first ++ '-' :: next :: second, by simp, fun after' => ?_⟩
            have hfirst' := hfirst after'
            simp only [List.cons_append, List.append_assoc] at hfirst' ⊢
            exact readMember_of_range hfirst' hnext (hsecond after') (Char.not_lt.mp horder)
    next hdash =>
      cases hread
      obtain ⟨body, hchars, hbody⟩ := exists_of_readItem hitem
      refine ⟨body, hchars, fun after' => readMember_of_char (hbody after') ?_⟩
      match before with
      | [] => simp
      | [first] =>
        intro hfirst
        obtain rfl : first = '-' := by simpa using hfirst
        exact hdash _ _ rfl
      | first :: second :: before =>
        intro hfirst
        obtain rfl : first = '-' := by simpa using hfirst
        exact hdash _ _ rfl

/-- The members of an expression are read in the same way whatever follows its bracket. -/
theorem exists_of_readMembers {bracket : List Char} {ranges : List ClassRange}
    (hread : readMembers classSyntax bracket chars = .ok (ranges, after)) :
    ∃ body, chars = body ++ ']' :: after ∧ ∀ bracket' after',
      readMembers classSyntax bracket' (body ++ ']' :: after') = .ok (ranges, after') := by
  fun_induction readMembers classSyntax bracket chars generalizing ranges with
  | case1 => cases hread
  | case2 => cases hread
  | case3 char chars ranges rest hmember hlast =>
    cases hread
    obtain ⟨after, rfl⟩ : ∃ after, rest = ']' :: after := List.head?_eq_some_iff.mp hlast
    have hmember' : readMember classSyntax char chars = .ok (ranges, [] ++ ']' :: after) := hmember
    obtain ⟨body, rfl, hbody⟩ := exists_of_readMember hmember'
    refine ⟨char :: body, rfl, fun bracket' after' => ?_⟩
    exact readMembers_of_last (hbody after') bracket'
  | case4 char chars ranges rest hmember hlast ih =>
    obtain ⟨others, hothers, rfl⟩ := Reading.convert_eq_ok_iff.mp hread
    obtain ⟨second, rfl, hsecond⟩ := ih hothers
    obtain ⟨first, rfl, hfirst⟩ := exists_of_readMember hmember
    refine ⟨char :: (first ++ second), by simp, fun bracket' after' => ?_⟩
    have hmember' := hfirst after'
    have hlast' : (second ++ ']' :: after').head? ≠ some ']' := by
      cases second with
      | nil => simp at hlast
      | cons next second => simpa using hlast
    rw [List.cons_append, List.append_assoc, readMembers_of_more hmember' hlast', hsecond]
    rfl

/-- An expression is read in the same way whatever follows it. -/
theorem exists_of_read {bracket : List Char} {set : CharClass}
    (hread : read classSyntax bracket chars = .ok (set, after)) :
    ∃ body, chars = body ++ after ∧ ∀ bracket' after',
      read classSyntax bracket' (body ++ after') = .ok (set, after') := by
  unfold read at hread
  split at hread
  next chars =>
    obtain ⟨ranges, hranges, rfl⟩ := Reading.convert_eq_ok_iff.mp hread
    obtain ⟨body, rfl, hbody⟩ := exists_of_readMembers hranges
    refine ⟨'^' :: (body ++ [']']), by simp, fun bracket' after' => ?_⟩
    have hmembers := hbody bracket' after'
    simp [read, hmembers]
  next hcaret =>
    obtain ⟨ranges, hranges, rfl⟩ := Reading.convert_eq_ok_iff.mp hread
    obtain ⟨body, rfl, hbody⟩ := exists_of_readMembers hranges
    refine ⟨body ++ [']'], by simp, fun bracket' after' => ?_⟩
    have hmembers := hbody bracket' after'
    cases body with
    | nil =>
      simp only [List.nil_append, List.cons_append] at hmembers ⊢
      simp [read, hmembers]
    | cons first body =>
      have hfirst : first ≠ '^' := by
        rintro rfl
        exact hcaret _ rfl
      simp only [List.append_assoc, List.cons_append, List.nil_append] at hmembers ⊢
      simp [read, hfirst, hmembers]

end Bracket

namespace Scan

/-- A brace starts no counts exactly where none with their closing brace stand behind it. -/
theorem readCounts?_eq_none_iff {chars : List Char} :
    readCounts? chars = none ↔
      ∀ counts : Counts, counts.IsWritten → ¬ counts.inside ++ ['\x7d'] <+: chars := by
  constructor
  · rintro hnone counts hwritten ⟨rest, rfl⟩
    have hsome := readCounts?_of_isWritten hwritten rest
    rw [List.append_assoc, List.cons_append, List.nil_append, hsome] at hnone
    cases hnone
  · intro hnone
    cases hread : readCounts? chars with
    | none => rfl
    | some read =>
      obtain ⟨counts, rest⟩ := read
      obtain ⟨hwritten, rfl⟩ := readCounts?_eq_some_iff.mp hread
      exact absurd ⟨rest, by simp⟩ (hnone counts hwritten)

/-- Braces that are no counts are none either when the text is cut off somewhere. -/
theorem readCounts?_of_prefix {chars chars' : List Char} (hread : readCounts? chars = none)
    (hcut : chars' <+: chars) : readCounts? chars' = none := by
  rw [readCounts?_eq_none_iff] at hread ⊢
  exact fun counts hwritten hpiece => hread counts hwritten (hpiece.trans hcut)

/-- A parenthesis that no question mark follows is an opener of its own. -/
theorem readOpener_of_head?_ne {rest : List Char} (hrest : rest.head? ≠ some '?') :
    readOpener rest = .ok (.capturing, rest) :=
  (readOpener_of_spells .capturing fun _ => hrest : readOpener ([] ++ rest) = _)

/-- A token is read in the same way before another rest that looks the same from it. A number looks
    for more digits, a brace for counts, and a parenthesis for a question mark. -/
theorem readToken_of_rest {classSyntax : ClassSyntax} {char : Char} {body rest rest' : List Char}
    {role : TokenRole} (hread : readToken classSyntax char (body ++ rest) = .ok (role, rest))
    (hdigit : ∀ next ∈ rest'.head?, next.isDigit → next ∈ rest.head?)
    (hcounts : readCounts? rest = none → readCounts? rest' = none)
    (hopener : role = .opener .capturing → readOpener rest = .ok (.capturing, rest) →
      readOpener rest' = .ok (.capturing, rest')) :
    readToken classSyntax char (body ++ rest') = .ok (role, rest') := by
  have hspells := spells_of_readToken hread
  unfold readToken at hread
  split at hread
  next role' hsimple =>
    obtain ⟨rfl, hrest⟩ : role' = role ∧ body ++ rest = rest := by simpa using hread
    obtain rfl : body = [] := by simpa using hrest
    simp [readToken, hsimple]
  next hsimple =>
    split at hread
    · obtain ⟨opener, hplaced, rfl⟩ := Reading.convert_eq_ok_iff.mp hread
      by_cases hcapturing : opener = .capturing
      · subst hcapturing
        obtain rfl : body = [] := by
          cases hspells
          rfl
        have hread' := hopener rfl (Reading.placed_eq_ok_iff.mp hplaced)
        have hplaced' := Reading.placed_of_ok hread' ('(' :: ([] ++ rest'))
        simp only [List.nil_append] at hplaced' ⊢
        simp [readToken, hsimple, hplaced']
      · exact readToken_opener hspells fun hsame => absurd hsame hcapturing
    · obtain ⟨set, hset, rfl⟩ := Reading.convert_eq_ok_iff.mp hread
      obtain ⟨body', hbody, hread'⟩ := Bracket.exists_of_read hset
      obtain rfl : body = body' := List.append_cancel_right hbody
      simp [readToken, hsimple, hread']
    · obtain ⟨atom, hatom, rfl⟩ := Reading.convert_eq_ok_iff.mp hread
      obtain ⟨first, body', hbody, hread'⟩ :=
        Escape.exists_of_read (Reading.placed_eq_ok_iff.mp hatom)
      obtain rfl : body = first :: body' := List.append_cancel_right hbody
      have hplaced :=
        Reading.placed_of_ok (hread' rest' hdigit) ('\\' :: (first :: body' ++ rest'))
      rw [List.cons_append] at hplaced ⊢
      simp only [readToken, hsimple, hplaced]
      rfl
    · split at hread
      next counts after hcounts =>
        cases hread
        obtain ⟨hwritten, hbody⟩ := readCounts?_eq_some_iff.mp hcounts
        obtain rfl : body = counts.inside ++ ['\x7d'] :=
          List.append_cancel_right (hbody.trans (by simp))
        have hcounts' := readCounts?_of_isWritten hwritten rest'
        simp [readToken, hsimple, hcounts']
      next hnone =>
        obtain ⟨rfl, hrest⟩ : .atom (.literal '\x7b') = role ∧ body ++ rest = rest := by
          simpa using hread
        obtain rfl : body = [] := by simpa using hrest
        have hcounts' := hcounts hnone
        simp [readToken, hsimple, hcounts']
    next hparenthesis hbracket hbackslash hbrace =>
      obtain ⟨rfl, hrest⟩ : .atom (.literal char) = role ∧ body ++ rest = rest := by
        simpa using hread
      obtain rfl : body = [] := by simpa using hrest
      simp [readToken, hsimple]

/-- A token is read in the same way when what follows it is cut off somewhere, unless a question
    mark behind a parenthesis is left alone. -/
theorem readToken_of_prefix {classSyntax : ClassSyntax} {char : Char} {body rest rest' : List Char}
    {role : TokenRole} (hread : readToken classSyntax char (body ++ rest) = .ok (role, rest))
    (hcut : rest' <+: rest)
    (hopener : role = .opener .capturing → rest'.head? ≠ some '?') :
    readToken classSyntax char (body ++ rest') = .ok (role, rest') :=
  readToken_of_rest hread (fun _ hnext _ => Text.mem_head?_of_prefix hcut hnext)
    (fun hnone => readCounts?_of_prefix hnone hcut)
    fun hrole _ => readOpener_of_head?_ne (hopener hrole)

end Scan

end PatternTree
