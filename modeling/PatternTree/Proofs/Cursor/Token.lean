import PatternTree.Proofs.Cursor.Bracket

namespace PatternTree

namespace Counts

/-- Counts as they are written between braces. A comma ends the first one. -/
def ofInside (inside : List Char) : Counts :=
  match inside.dropWhile (· ≠ ',') with
  | [] => .exactly inside
  | _ :: upper =>
    if upper.isEmpty then .atLeast (inside.takeWhile (· ≠ ','))
    else .between (inside.takeWhile (· ≠ ',')) upper

/-- The counts in the text of a token, which its first and last byte enclose. -/
def ofText? (text : List Char) : Option Counts :=
  (Text.slice? 1 (Text.utf8Size text - 1) text).map ofInside

theorem ofInside_inside {counts : Counts} (hwritten : counts.IsWritten) :
    ofInside counts.inside = counts := by
  have hcomma : ∀ {digits : List Char}, IsNumeral digits → ∀ digit ∈ digits,
      decide (digit ≠ ',') := by
    intro digits hdigits digit hdigit
    have hdigit' := hdigits.2 digit hdigit
    rw [decide_eq_true_eq]
    rintro rfl
    exact absurd hdigit' (by decide)
  cases counts with
  | exactly count =>
    obtain ⟨htake, hdrop⟩ := Text.takeWhile_dropWhile_eq_iff.mpr
      ⟨(List.append_nil count).symm, hcomma hwritten, by simp⟩
    simp only [inside, ofInside, hdrop]
  | atLeast lower =>
    obtain ⟨htake, hdrop⟩ := Text.takeWhile_dropWhile_append_cons (hcomma hwritten)
      (by decide : decide (',' ≠ ',') = false) []
    simp only [inside, ofInside, hdrop, htake, List.isEmpty_nil, if_true]
  | between lower upper =>
    obtain ⟨htake, hdrop⟩ := Text.takeWhile_dropWhile_append_cons (hcomma hwritten.1)
      (by decide : decide (',' ≠ ',') = false) upper
    have hupper : upper.isEmpty = false := by simpa using hwritten.2.1
    simp only [inside, ofInside, hdrop, htake, hupper, Bool.false_eq_true, if_false]

/-- Counts are read again from the text of their token. -/
theorem ofText?_of_isWritten {counts : Counts} (hwritten : counts.IsWritten) :
    ofText? ('\x7b' :: (counts.inside ++ ['\x7d'])) = some counts := by
  have hslice := Text.slice?_middle ['\x7b'] counts.inside ['\x7d']
  have hsize : Text.utf8Size ['\x7b'] + Text.utf8Size counts.inside =
      Text.utf8Size ('\x7b' :: (counts.inside ++ ['\x7d'])) - 1 := by
    have hbrace : ('\x7d').utf8Size = 1 := rfl
    have hbrace' : ('\x7b').utf8Size = 1 := rfl
    simp only [Text.utf8Size, Text.utf8Size_append]
    omega
  rw [hsize] at hslice
  rw [ofText?]
  have hslice' : Text.slice? 1 _ ('\x7b' :: (counts.inside ++ ['\x7d'])) = _ := hslice
  rw [hslice', Option.map_some, ofInside_inside hwritten]

end Counts

namespace Cursor

open Work

/-- Takes what follows the question mark behind an opening parenthesis. What is not known is given
    back, together with the question mark. -/
def openerMark (start : Nat) : Cursor Opener := do
  let after ← Cursor.rest
  if ← eat ':' then return .nonCapturing
  else if ['P', '<'].isPrefixOf after then do
    skip 2
    return .named (← name '>' start)
  else if ['<'].isPrefixOf after ∧ ¬ ['<', '='].isPrefixOf after ∧
      ¬ ['<', '!'].isPrefixOf after then do
    skip 1
    return .named (← name '>' start)
  else if ← eat '\'' then return .named (← name '\'' start)
  else do
    moveTo (start + 1)
    return .capturing

/-- Takes what follows an opening parenthesis and belongs to it. -/
def opener (start : Nat) : Cursor Opener := do
  if ← eat '?' then openerMark start else return .capturing

/-- Takes the bytes up to an index and the brace there, if one stands there. -/
def closeCounts (bytes : List UInt8) (last : Nat) : Cursor Bool := do
  if bytes[last]? = some ('\x7d').toUInt8 then do
    skip (last + 1)
    return true
  else return false

/-- Takes counts and the brace behind them, if they stand there. -/
def counted : Cursor Bool := do
  let bytes := Text.bytes (← Cursor.rest)
  let count := Text.skipDigits bytes 0
  if count = 0 then return false
  else if bytes[count]? = some (',').toUInt8 then
    closeCounts bytes (Text.skipDigits bytes (count + 1))
  else closeCounts bytes count

/-- Takes the rest of a token of which `char` is the first character. Counts are read from the
    text of their token. -/
def token (classSyntax : ClassSyntax) (char : Char) (start : Nat) : Cursor TokenRole :=
  match Scan.simple? char with
  | some role => return role
  | none => do
    if char = '(' then return .opener (← opener start)
    else if char = '[' then return .atom (.charClass (← bracket classSyntax start))
    else if char = '\\' then return .atom (← escape start)
    else if char = '\x7b' then do
      if ← counted then do
        let text ← slice start (← position)
        return .quantifier (.counted (← demand (Counts.ofText? text)))
      else return .atom (.literal char)
    else return .atom (.literal char)

/-- Takes the next token, unless the text ends. -/
def nextToken (classSyntax : ClassSyntax) : Cursor (Option Token) := do
  let start ← position
  match ← bump with
  | none => return none
  | some char => do
    let role ← token classSyntax char start
    let stop ← position
    return some ⟨role, ← slice start stop, ⟨start, stop⟩⟩

variable {chars rest : List Char} {char : Char} {classSyntax : ClassSyntax}

/-- Going back behind the parenthesis leaves all of what follows it. -/
theorem offsetOf_open (hsuffix : '(' :: rest <:+ chars) :
    Text.offsetOf chars ('(' :: rest) + 1 = Text.offsetOf chars rest :=
  (Text.offsetOf_of_cons hsuffix).symm

theorem openerMark_apply (hsuffix : '(' :: '?' :: rest <:+ chars) :
    openerMark (Text.offsetOf chars ('(' :: '?' :: rest)) chars (Text.offsetOf chars rest) =
      ((Scan.readOpener ('?' :: rest)).placed ('(' :: '?' :: rest)).outcome chars := by
  have hback := offsetOf_open hsuffix
  have hrest := ((List.suffix_cons '?' rest).trans (List.suffix_cons '(' _)).trans hsuffix
  cases rest with
  | nil => simp [openerMark, rest_apply hrest, eat_apply_nil, hback, Scan.readOpener]
  | cons kind rest =>
    have hbehind := (List.suffix_cons kind rest).trans hrest
    simp only [openerMark, bind_apply, Outcome.done_andThen, rest_apply hrest,
      eat_apply_cons hrest]
    by_cases hcolon : kind = ':'
    · subst hcolon
      simp [Scan.readOpener]
    by_cases hpython : kind = 'P'
    · subst hpython
      cases rest with
      | nil => simp [eat_apply_cons hrest, hback, Scan.readOpener]
      | cons angle rest =>
        by_cases hangle : angle = '<'
        · subst hangle
          have hname := (List.suffix_cons '<' rest).trans hbehind
          have hskip : Text.offsetOf chars ('P' :: '<' :: rest) + 2 = Text.offsetOf chars rest := by
            rw [Text.offsetOf_of_cons hbehind, Text.offsetOf_of_cons hrest]
            rfl
          simp [hskip, name_apply '>' _ hname, Scan.readOpener]
        · simp [hangle, Ne.symm hangle, eat_apply_cons hrest, hback, Scan.readOpener]
    by_cases hangle : kind = '<'
    · subst hangle
      have hskip : Text.offsetOf chars ('<' :: rest) + 1 = Text.offsetOf chars rest :=
        (Text.offsetOf_of_cons hrest).symm
      cases rest with
      | nil => simp [hskip, name_apply '>' _ hbehind, Scan.readOpener]
      | cons next rest =>
        by_cases hequals : next = '='
        · subst hequals
          simp [eat_apply_cons hrest, hback, Scan.readOpener]
        by_cases hmark : next = '!'
        · subst hmark
          simp [eat_apply_cons hrest, hback, Scan.readOpener]
        simp [hequals, hmark, Ne.symm hequals, Ne.symm hmark, hskip, name_apply '>' _ hbehind,
          Scan.readOpener]
    by_cases hquote : kind = '\''
    · subst hquote
      simp [eat_apply_cons hrest, name_apply '\'' _ hbehind, Scan.readOpener]
    simp [hcolon, hpython, hangle, hquote, Ne.symm hpython, Ne.symm hangle, eat_apply_cons hrest,
      hback, Scan.readOpener]

theorem opener_apply (hsuffix : '(' :: rest <:+ chars) :
    opener (Text.offsetOf chars ('(' :: rest)) chars (Text.offsetOf chars rest) =
      ((Scan.readOpener rest).placed ('(' :: rest)).outcome chars := by
  have hrest := (List.suffix_cons '(' rest).trans hsuffix
  cases rest with
  | nil => simp [opener, eat_apply_nil, Scan.readOpener]
  | cons mark rest =>
    by_cases hmark : mark = '?'
    · subst hmark
      rw [opener, bind_apply, eat_apply_cons hrest, if_pos rfl, Outcome.done_andThen, if_pos rfl]
      exact openerMark_apply hsuffix
    · simp [opener, eat_apply_cons hrest, hmark, Scan.readOpener]

theorem closeCounts_apply {front : List Char} (hsuffix : front ++ '\x7d' :: rest <:+ chars) :
    closeCounts (Text.bytes (front ++ '\x7d' :: rest)) (Text.utf8Size front) chars
        (Text.offsetOf chars (front ++ '\x7d' :: rest)) =
      .done true (Text.offsetOf chars rest) := by
  have hbrace : (Text.bytes (front ++ '\x7d' :: rest))[Text.utf8Size front]? =
      some ('\x7d').toUInt8 := by
    rw [Text.getElem?_bytes, Text.head?_bytes_eq_some_iff (by decide)]
    rfl
  have hbody : (front ++ ['\x7d']) ++ rest = front ++ '\x7d' :: rest := by simp
  have hstop := Text.offsetOf_of_append (hbody.symm ▸ hsuffix)
  rw [hbody, Text.utf8Size_append] at hstop
  rw [closeCounts, if_pos hbrace, hstop]
  rfl

theorem closeCounts_apply_of_ne {front : List Char} (hrest : rest.head? ≠ some '\x7d')
    (offset : Nat) :
    closeCounts (Text.bytes (front ++ rest)) (Text.utf8Size front) chars offset =
      .done false offset := by
  have hbrace : (Text.bytes (front ++ rest))[Text.utf8Size front]? ≠ some ('\x7d').toUInt8 := by
    rwa [Text.getElem?_bytes, Ne, Text.head?_bytes_eq_some_iff (by decide)]
  rw [closeCounts, if_neg hbrace]
  rfl

/-- Behind a comma more digits may stand before the brace. -/
theorem closeCounts_apply_comma {front : List Char} (hsuffix : front ++ ',' :: rest <:+ chars) :
    closeCounts (Text.bytes (front ++ ',' :: rest))
        (Text.skipDigits (Text.bytes (front ++ ',' :: rest)) (Text.utf8Size front + 1)) chars
        (Text.offsetOf chars (front ++ ',' :: rest)) =
      match rest.dropWhile Char.isDigit with
      | '\x7d' :: after => .done true (Text.offsetOf chars after)
      | _ => .done false (Text.offsetOf chars (front ++ ',' :: rest)) := by
  generalize hdigits : rest.takeWhile Char.isDigit = digits
  generalize hafter : rest.dropWhile Char.isDigit = after
  obtain ⟨rfl, hall, hstop⟩ := Text.takeWhile_dropWhile_eq_iff.mp ⟨hdigits, hafter⟩
  have hskip := Text.skipDigits_bytes (front ++ [',']) hall hstop
  have hbody : ((front ++ [',']) ++ digits) ++ after = front ++ ',' :: (digits ++ after) := by simp
  rw [Text.utf8Size_append, ← List.append_assoc, hbody] at hskip
  have hskip' : Text.skipDigits (Text.bytes (front ++ ',' :: (digits ++ after)))
      (Text.utf8Size front + 1) = Text.utf8Size ((front ++ [',']) ++ digits) := hskip
  rw [hskip', ← hbody]
  rw [← hbody] at hsuffix
  cases after with
  | nil => exact closeCounts_apply_of_ne (by simp) _
  | cons next after =>
    by_cases hbrace : next = '\x7d'
    · subst hbrace
      exact closeCounts_apply hsuffix
    · rw [closeCounts_apply_of_ne (by simpa using hbrace)]
      simp [hbrace]

theorem counted_apply (hsuffix : rest <:+ chars) :
    counted chars (Text.offsetOf chars rest) =
      match Scan.readCounts? rest with
      | some (_, after) => .done true (Text.offsetOf chars after)
      | none => .done false (Text.offsetOf chars rest) := by
  generalize hdigits : rest.takeWhile Char.isDigit = digits
  generalize hafter : rest.dropWhile Char.isDigit = after
  obtain ⟨rfl, hall, hstop⟩ := Text.takeWhile_dropWhile_eq_iff.mp ⟨hdigits, hafter⟩
  have hcount : Text.skipDigits (Text.bytes (digits ++ after)) 0 = Text.utf8Size digits :=
    Text.skipDigits_bytes [] hall hstop
  simp only [counted, bind_apply, rest_apply hsuffix, Outcome.done_andThen, hcount,
    Scan.readCounts?, hdigits, hafter]
  by_cases hempty : digits = []
  · subst hempty
    rfl
  have hsize : Text.utf8Size digits ≠ 0 := by
    have hlength := Text.length_le_utf8Size digits
    have hpos := List.length_pos_iff.mpr hempty
    omega
  have hcomma : (Text.bytes (digits ++ after))[Text.utf8Size digits]? = some (',').toUInt8 ↔
      after.head? = some ',' := by
    rw [Text.getElem?_bytes, Text.head?_bytes_eq_some_iff (by decide)]
  have hisEmpty : digits.isEmpty = false := by simpa using hempty
  simp only [hisEmpty, Bool.false_eq_true, if_false, hsize]
  cases after with
  | nil =>
    rw [if_neg (hcomma.not.mpr (by simp)), closeCounts_apply_of_ne (by simp)]
  | cons next after =>
    by_cases hnext : next = ','
    · subst hnext
      rw [if_pos (hcomma.mpr rfl), closeCounts_apply_comma hsuffix]
      cases hupper : after.dropWhile Char.isDigit with
      | nil => simp [hupper]
      | cons next behind => by_cases hbrace : next = '\x7d' <;> simp [hupper, hbrace]
    · rw [if_neg (hcomma.not.mpr (by simpa using hnext))]
      by_cases hbrace : next = '\x7d'
      · subst hbrace
        exact closeCounts_apply hsuffix
      · rw [closeCounts_apply_of_ne (by simpa using hbrace)]
        simp [hnext, hbrace]

/-- A token is taken up to the offset behind what is read of it. -/
theorem token_apply (hfits : Text.DigitsFit chars) (hsuffix : char :: rest <:+ chars) :
    token classSyntax char (Text.offsetOf chars (char :: rest)) chars
        (Text.offsetOf chars rest) =
      (Scan.readToken classSyntax char rest).outcome chars := by
  have hrest := (List.suffix_cons char rest).trans hsuffix
  simp only [token, Scan.readToken]
  cases Scan.simple? char with
  | some role => rfl
  | none =>
    dsimp only
    by_cases hopener : char = '('
    · subst hopener
      rw [if_pos rfl, bind_apply, opener_apply hsuffix]
      exact (Reading.outcome_convert _ _ _).symm
    · rw [if_neg hopener]
      by_cases hbracket : char = '['
      · subst hbracket
        rw [if_pos rfl, bind_apply, bracket_apply hfits hrest ('[' :: rest)]
        exact (Reading.outcome_convert _ _ _).symm
      · rw [if_neg hbracket]
        by_cases hescape : char = '\\'
        · subst hescape
          rw [if_pos rfl, bind_apply, escape_apply hrest ('\\' :: rest) (hfits rest hsuffix)]
          exact (Reading.outcome_convert _ _ _).symm
        · rw [if_neg hescape]
          by_cases hbrace : char = '\x7b'
          · subst hbrace
            rw [if_pos rfl, bind_apply, counted_apply hrest]
            cases hcounts : Scan.readCounts? rest with
            | none => rfl
            | some read =>
              obtain ⟨counts, after⟩ := read
              obtain ⟨hwritten, rfl⟩ := Scan.readCounts?_eq_some_iff.mp hcounts
              have htext : '\x7b' :: (counts.inside ++ ['\x7d']) ++ after =
                  '\x7b' :: (counts.inside ++ '\x7d' :: after) := by simp
              have hslice := slice_apply (htext.symm ▸ hsuffix)
              rw [htext] at hslice
              simp [hslice, Counts.ofText?_of_isWritten hwritten]
          · simp [hbrace]

end Cursor

end PatternTree
