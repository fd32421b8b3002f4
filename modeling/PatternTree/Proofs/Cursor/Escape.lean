import Mathlib.Algebra.Group.Nat.Defs
import PatternTree.Proofs.Cursor
import PatternTree.Proofs.Text.Bytes
import PatternTree.Proofs.Text.Digits
import PatternTree.Proofs.Token.Readers

namespace PatternTree

/-- The digits of a code in braces behind a backslash are few enough to be counted in 32 bits of
    which one is for a sign. -/
def Escape.DigitsFit (chars : List Char) : Prop :=
  ∀ rest, chars = 'x' :: '\x7b' :: rest →
    Text.fitsSigned32 (rest.takeWhile Text.isHexDigit).length

/-- The digits of every code in braces of a text can be counted, wherever a backslash stands. -/
def Text.DigitsFit (chars : List Char) : Prop :=
  ∀ rest, '\\' :: rest <:+ chars → Escape.DigitsFit rest

theorem Escape.digitsFit_of_length_le {chars : List Char} (hlength : chars.length ≤ 0x7fffffff) :
    DigitsFit chars := by
  rintro rest rfl
  have hdigits := (List.takeWhile_prefix Text.isHexDigit (l := rest)).length_le
  simp only [List.length_cons] at hlength
  rw [Text.fitsSigned32, decide_eq_true_eq]
  omega

/-- A text that is not too long has no code with too many digits. -/
theorem Text.digitsFit_of_length_le {chars : List Char} (hlength : chars.length ≤ 0x7fffffff) :
    DigitsFit chars := by
  intro rest hsuffix
  have hrest := hsuffix.length_le
  rw [List.length_cons] at hrest
  exact Escape.digitsFit_of_length_le (by omega)

namespace Cursor

open Work

/-- Moves on by one byte where the name of a group goes on. -/
def nameTurn : Cursor (Turn Unit Unit) := do
  match ← peek with
  | none => return .leave ()
  | some char =>
    if Escape.isNameChar char then do
      skip 1
      return .again ()
    else return .leave ()

/-- Takes the name of a group and the character that closes it. Errors are reported at
    `start`. -/
def name (closer : Char) (start : Nat) : Cursor String := do
  let first ← position
  loop (fun _ => nameTurn) ()
  let stop ← position
  let name ← slice first stop
  if name.head?.any fun char => !char.isDigit then do
    if ← eat closer then return String.ofList name
    else fail (.openName (String.ofList name) closer) start
  else fail (.nameStart (String.ofList name)) start

variable {chars rest : List Char} {char : Char}

/-- Names consist of characters of one byte. -/
theorem utf8Size_of_isNameChar (hchar : Escape.isNameChar char) : char.utf8Size = 1 := by
  delta Escape.isNameChar Char.isAlphanum Char.isAlpha Char.isUpper Char.isLower Char.isDigit
    at hchar
  simp only [Bool.or_eq_true, Bool.and_eq_true, decide_eq_true_eq, ge_iff_le,
    UInt32.le_iff_toNat_le] at hchar
  rw [Char.utf8Size_eq_one_iff, UInt32.le_iff_toNat_le]
  obtain ((⟨-, hle⟩ | ⟨-, hle⟩) | ⟨-, hle⟩) | rfl := hchar
  · exact Nat.le_trans hle (by decide)
  · exact Nat.le_trans hle (by decide)
  · exact Nat.le_trans hle (by decide)
  · decide

theorem nameTurn_apply (hsuffix : rest <:+ chars) :
    loop (fun _ => nameTurn) () chars (Text.offsetOf chars rest) =
      .done () (Text.offsetOf chars (rest.dropWhile Escape.isNameChar)) := by
  refine loop_apply (fun _ rest => .ok ((), rest.dropWhile Escape.isNameChar)) ?_ hsuffix ()
  intro _ rest hrest
  cases rest with
  | nil => exact .inr (by simp [nameTurn, peek_apply hrest])
  | cons char rest =>
    cases hchar : Escape.isNameChar char with
    | true =>
      have hsize := utf8Size_of_isNameChar hchar
      refine .inl ⟨(), rest, List.suffix_cons _ _, by simp, ?_, by simp [hchar]⟩
      simp [nameTurn, peek_apply hrest, hchar, Text.offsetOf_of_cons hrest, hsize]
    | false => exact .inr (by simp [nameTurn, peek_apply hrest, hchar])

/-- The longest front of characters of names is a name unless it starts with a digit. -/
theorem isName_takeWhile (rest : List Char) :
    Escape.isName (rest.takeWhile Escape.isNameChar) =
      (rest.takeWhile Escape.isNameChar).head?.any fun char => !char.isDigit := by
  have hall := List.all_eq_true.mp (List.all_takeWhile (p := Escape.isNameChar) (l := rest))
  cases hname : rest.takeWhile Escape.isNameChar with
  | nil => rfl
  | cons first others =>
    rw [hname] at hall
    have hothers : others.all Escape.isNameChar :=
      List.all_eq_true.mpr fun char hchar => hall char (List.mem_cons_of_mem _ hchar)
    simp [Escape.isName, hall first List.mem_cons_self, hothers]

theorem name_apply (closer : Char) (place : List Char) (hsuffix : rest <:+ chars) :
    name closer (Text.offsetOf chars place) chars (Text.offsetOf chars rest) =
      ((Escape.readName closer rest).placed place).outcome chars := by
  have hsplit : rest.takeWhile Escape.isNameChar ++ rest.dropWhile Escape.isNameChar = rest :=
    List.takeWhile_append_dropWhile
  have hafter : rest.dropWhile Escape.isNameChar <:+ chars :=
    (List.dropWhile_suffix _).trans hsuffix
  have hslice := slice_apply (hsplit.symm ▸ hsuffix)
  rw [hsplit] at hslice
  simp only [name, bind_apply, position_apply, Outcome.done_andThen, nameTurn_apply hsuffix,
    hslice, Escape.readName, isName_takeWhile]
  split
  next hname =>
    cases hrest : rest.dropWhile Escape.isNameChar with
    | nil => simp [eat_apply_nil]
    | cons next after =>
      rw [hrest] at hafter
      by_cases hcloser : next = closer
      · subst hcloser
        simp [eat_apply_cons hafter]
      · simp [eat_apply_cons hafter, hcloser]
  · rfl

/-- Takes one hexadecimal digit, as its value. -/
def hexDigit (start : Nat) : Cursor Nat := do
  match ← bump with
  | none => fail .openHex start
  | some char =>
    match Text.hexValue? char with
    | none => fail (.notHexDigit char) start
    | some value => return value

/-- The character with a code. -/
def codePoint (code start : Nat) : Cursor Char :=
  match Escape.character code with
  | .error cause => fail cause start
  | .ok char => return char

/-- Takes a number of hexadecimal digits behind others that write `value`. All of them together
    have to fit 32 bits. -/
def fixedDigits (start : Nat) : Nat → Nat → Cursor Nat
  | 0, value => return value
  | width + 1, value => do
    let digit ← hexDigit start
    let next ← demand (if Text.fits32 (value * 16 + digit) then some (value * 16 + digit) else none)
    fixedDigits start width next

/-- Takes a character's code of a fixed width. -/
def fixedHex (width start : Nat) : Cursor Char := do
  codePoint (← fixedDigits start width 0) start

theorem hexDigit_apply_nil (chars : List Char) (start : Nat) :
    hexDigit start chars (Text.offsetOf chars []) =
      .failed (LexError.report ⟨.openHex, start⟩) := by
  simp [hexDigit, bump_apply_nil]

theorem hexDigit_apply_of_some (hsuffix : char :: rest <:+ chars) {value : Nat}
    (hvalue : Text.hexValue? char = some value) (start : Nat) :
    hexDigit start chars (Text.offsetOf chars (char :: rest)) =
      .done value (Text.offsetOf chars rest) := by
  simp [hexDigit, bump_apply_cons hsuffix, hvalue]

theorem hexDigit_apply_of_none (hsuffix : char :: rest <:+ chars)
    (hvalue : Text.hexValue? char = none) (start : Nat) :
    hexDigit start chars (Text.offsetOf chars (char :: rest)) =
      .failed (LexError.report ⟨.notHexDigit char, start⟩) := by
  simp [hexDigit, bump_apply_cons hsuffix, hvalue]

theorem codePoint_apply (code : Nat) (place : List Char) :
    codePoint code (Text.offsetOf chars place) chars (Text.offsetOf chars rest) =
      Reading.outcome chars
        (Reading.placed ((Escape.character code).map (·, rest)) place) := by
  rw [codePoint]
  cases Escape.character code <;> rfl

/-- Digits of a width that 32 bits have room for are taken one after the other. -/
theorem fixedDigits_apply (hsuffix : rest <:+ chars) (place : List Char) (width value : Nat)
    (hroom : (value + 1) * 16 ^ width ≤ 2 ^ 32) :
    fixedDigits (Text.offsetOf chars place) width value chars (Text.offsetOf chars rest) =
      let digits := (rest.take width).takeWhile Text.isHexDigit
      if digits.length = width then
        .done (digits.foldl (fun value digit => 16 * value + (Text.hexValue? digit).getD 0) value)
          (Text.offsetOf chars (rest.drop width))
      else
        .failed (LexError.report
          ⟨Escape.missingHexDigit (rest.drop digits.length), Text.offsetOf chars place⟩) := by
  induction width generalizing value rest with
  | zero => simp [fixedDigits]
  | succ width ih =>
    cases rest with
    | nil => simp [fixedDigits, hexDigit_apply_nil, Escape.missingHexDigit]
    | cons char rest =>
      cases hvalue : Text.hexValue? char with
      | none =>
        have hchar := Text.isHexDigit_eq_false_of_hexValue? hvalue
        simp [fixedDigits, hexDigit_apply_of_none hsuffix hvalue, hchar, Escape.missingHexDigit]
      | some digit =>
        have hchar := Text.isHexDigit_of_hexValue? hvalue
        have hdigit := Text.hexValue?_lt hvalue
        have hroom' : (value * 16 + digit + 1) * 16 ^ width ≤ 2 ^ 32 := by
          rw [Nat.pow_succ', ← Nat.mul_assoc] at hroom
          exact Nat.le_trans (Nat.mul_le_mul_right _ (by omega)) hroom
        have hfits : Text.fits32 (value * 16 + digit) = true := by
          have hpow : 0 < 16 ^ width := Nat.pow_pos (by decide)
          have hle := Nat.le_mul_of_pos_right (value * 16 + digit + 1) hpow
          simp only [Text.fits32, decide_eq_true_eq]
          omega
        have hrest := (List.suffix_cons char rest).trans hsuffix
        have hothers := ih hrest (value * 16 + digit) hroom'
        simp only [fixedDigits, bind_apply, hexDigit_apply_of_some hsuffix hvalue,
          Outcome.done_andThen, hfits, if_true, demand_some, pure_apply, hothers,
          List.take_succ_cons, List.takeWhile_cons, hchar, List.length_cons,
          Nat.add_right_cancel_iff, List.foldl_cons, hvalue, Option.getD_some,
          List.drop_succ_cons, Nat.mul_comm 16]

theorem fixedHex_apply (hsuffix : rest <:+ chars) (place : List Char) {width : Nat}
    (hwidth : width ≤ 8) :
    fixedHex width (Text.offsetOf chars place) chars (Text.offsetOf chars rest) =
      ((Escape.readFixedHex width rest).placed place).outcome chars := by
  have hroom : (0 + 1) * 16 ^ width ≤ 2 ^ 32 := by
    have hpow := Nat.pow_le_pow_right (by decide : 0 < 16) hwidth
    simpa using hpow
  simp only [fixedHex, bind_apply, fixedDigits_apply hsuffix place width 0 hroom,
    Escape.readFixedHex]
  split
  · exact codePoint_apply _ place
  · rfl

/-- The value that one more digit makes of another one, where the largest number of 32 bits
    stands for those that are too large. -/
def saturate (value digit : Nat) : Nat :=
  min (min (value * 16) 0xffffffff + digit) 0xffffffff

/-- Takes the brace at the end of a code, or one more of its digits. They are counted in 32 bits,
    one of which is for a sign. -/
def bracedTurn (start : Nat) (state : Nat × Nat) : Cursor (Turn (Nat × Nat) (Nat × Nat)) := do
  if ← eat '\x7d' then return .leave state
  else do
    let digit ← hexDigit start
    let count ← demand (if Text.fitsSigned32 (state.2 + 1) then some (state.2 + 1) else none)
    return .again (saturate state.1 digit, count)

/-- Takes a character's code up to a brace. -/
def bracedHex (start : Nat) : Cursor Char := do
  let code ← loop (bracedTurn start) (0, 0)
  if code.2 = 0 then fail .emptyHex start else codePoint code.1 start

/-- The digits of a code in braces, behind others that write a value, and how many there are. -/
def bracedDigits (place : List Char) (state : Nat × Nat) (rest : List Char) :
    Reading Fault (Nat × Nat) :=
  let digits := rest.takeWhile Text.isHexDigit
  match rest.dropWhile Text.isHexDigit with
  | '\x7d' :: after =>
    .ok ((digits.foldl (fun value digit => saturate value ((Text.hexValue? digit).getD 0)) state.1,
      state.2 + digits.length), after)
  | after => .error ⟨Escape.missingHexDigit after, place⟩

/-- Digits that can all be counted are taken one after the other. -/
theorem bracedTurn_apply (hsuffix : rest <:+ chars) (place : List Char) {state : Nat × Nat}
    (hfits : Text.fitsSigned32 (state.2 + (rest.takeWhile Text.isHexDigit).length)) :
    loop (bracedTurn (Text.offsetOf chars place)) state chars (Text.offsetOf chars rest) =
      (bracedDigits place state rest).outcome chars := by
  refine loop_apply_of
    (fun state rest => Text.fitsSigned32 (state.2 + (rest.takeWhile Text.isHexDigit).length))
    (bracedDigits place) ?_ hsuffix hfits
  intro state rest hrest hfits
  cases rest with
  | nil =>
    refine .inr ?_
    simp [bracedTurn, eat_apply_nil, hexDigit_apply_nil, bracedDigits, Escape.missingHexDigit]
  | cons char rest =>
    by_cases hbrace : char = '\x7d'
    · subst hbrace
      have hnot : Text.isHexDigit '\x7d' = false := by decide
      refine .inr ?_
      simp [bracedTurn, eat_apply_cons hrest, bracedDigits, hnot]
    · cases hvalue : Text.hexValue? char with
      | none =>
        have hnot := Text.isHexDigit_eq_false_of_hexValue? hvalue
        refine .inr ?_
        simp [bracedTurn, eat_apply_cons hrest, hbrace, hexDigit_apply_of_none hrest hvalue,
          bracedDigits, hnot, Escape.missingHexDigit]
      | some digit =>
        have hdigit := Text.isHexDigit_of_hexValue? hvalue
        rw [List.takeWhile_cons_of_pos hdigit, List.length_cons] at hfits
        have hbehind : Text.fitsSigned32
            (state.2 + 1 + (rest.takeWhile Text.isHexDigit).length) := by
          rwa [Nat.add_assoc, Nat.add_comm 1]
        have hcount : Text.fitsSigned32 (state.2 + 1) := by
          simp only [Text.fitsSigned32, decide_eq_true_eq] at hbehind ⊢
          omega
        refine .inl ⟨(saturate state.1 digit, state.2 + 1), rest, List.suffix_cons _ _, by simp,
          hbehind, ?_, ?_⟩
        · simp [bracedTurn, eat_apply_cons hrest, hbrace, hexDigit_apply_of_some hrest hvalue,
            hcount]
        · simp [bracedDigits, hdigit, hvalue, Nat.add_assoc, Nat.add_comm 1]

theorem foldl_saturate (digits : List Char) (value : Nat) :
    digits.foldl (fun value digit => saturate value ((Text.hexValue? digit).getD 0))
        (min value 0xffffffff) =
      min (digits.foldl (fun value digit => 16 * value + (Text.hexValue? digit).getD 0) value)
        0xffffffff := by
  induction digits generalizing value with
  | nil => rfl
  | cons digit digits ih =>
    have hsaturate : ∀ digit, saturate (min value 0xffffffff) digit =
        min (16 * value + digit) 0xffffffff := by
      intro digit
      rw [saturate]
      omega
    rw [List.foldl_cons, List.foldl_cons, hsaturate, ih]

theorem character_of_large {code : Nat} (hcode : 0xffffffff ≤ code) :
    Escape.character code = .error (.notCharacter code) := by
  have hinvalid : ¬ code.isValidChar := by
    rw [Nat.isValidChar]
    omega
  rw [Escape.character, if_neg hinvalid]

/-- Codes that are too large are all reported like the largest number of 32 bits. -/
theorem report_of_large {code other : Nat} (hcode : 0xffffffff ≤ code)
    (hother : 0xffffffff ≤ other) (start : Nat) :
    LexError.report ⟨.notCharacter code, start⟩ = LexError.report ⟨.notCharacter other, start⟩ := by
  have hshown : LexCause.shownCode code = LexCause.shownCode other := by
    rw [LexCause.shownCode, LexCause.shownCode, Nat.min_eq_right hcode, Nat.min_eq_right hother]
  have hmessage : (LexCause.notCharacter code).message = (LexCause.notCharacter other).message := by
    unfold LexCause.message
    dsimp only
    rw [hshown]
  rw [LexError.report, LexError.report, hmessage]
  rfl

theorem codePoint_min (code start offset : Nat) :
    codePoint (min code 0xffffffff) start chars offset = codePoint code start chars offset := by
  obtain hcode | hcode := Nat.le_total code 0xffffffff
  · rw [Nat.min_eq_left hcode]
  · have hmin : 0xffffffff ≤ min code 0xffffffff := Nat.le_min.mpr ⟨hcode, Nat.le_refl _⟩
    rw [codePoint, codePoint, character_of_large hmin, character_of_large hcode]
    simp only [fail_apply, report_of_large hmin hcode]

theorem bracedHex_apply (hsuffix : rest <:+ chars) (place : List Char)
    (hfits : Text.fitsSigned32 (rest.takeWhile Text.isHexDigit).length) :
    bracedHex (Text.offsetOf chars place) chars (Text.offsetOf chars rest) =
      ((Escape.readBracedHex rest).placed place).outcome chars := by
  have hsaturate := foldl_saturate (rest.takeWhile Text.isHexDigit) 0
  rw [Nat.zero_min] at hsaturate
  have hturns := @bracedTurn_apply _ _ hsuffix place (0, 0) (by rwa [Nat.zero_add])
  simp only [bracedHex, bind_apply, hturns, bracedDigits, Escape.readBracedHex]
  cases hafter : rest.dropWhile Text.isHexDigit with
  | nil => simp
  | cons next after =>
    by_cases hbrace : next = '\x7d'
    · subst hbrace
      cases hdigits : rest.takeWhile Text.isHexDigit with
      | nil => simp
      | cons digit digits =>
        rw [hdigits] at hsaturate
        simp only [Reading.outcome_ok, Outcome.done_andThen, List.length_cons, Nat.zero_add,
          Nat.add_one_ne_zero, if_false, hsaturate, codePoint_min, List.isEmpty_cons,
          Bool.false_eq_true]
        exact codePoint_apply _ place
    · simp [hbrace]

/-- Takes the rest of an escape for one character, of which `char` follows the backslash. -/
def character (char : Char) (start : Nat) : Cursor Char :=
  match Escape.control? char with
  | some named => return named
  | none =>
    if char = 'x' then do
      if ← eat '\x7b' then bracedHex start else fixedHex 2 start
    else if char = 'u' then fixedHex 4 start
    else if char.isAlphanum then fail (.unknownEscape char) start
    else return char

theorem character_apply (hsuffix : rest <:+ chars) (place : List Char)
    (hfits : Escape.DigitsFit (char :: rest)) :
    character char (Text.offsetOf chars place) chars (Text.offsetOf chars rest) =
      ((Escape.readCharacter char rest).placed place).outcome chars := by
  simp only [character, Escape.readCharacter]
  cases Escape.control? char with
  | some named => rfl
  | none =>
    by_cases hx : char = 'x'
    · subst hx
      have hfixed := fixedHex_apply hsuffix place (by decide : 2 ≤ 8)
      cases rest with
      | nil => simp [eat_apply_nil, hfixed]
      | cons next after =>
        have hafter := (List.suffix_cons next after).trans hsuffix
        by_cases hbrace : next = '\x7b'
        · subst hbrace
          simp [eat_apply_cons hsuffix, bracedHex_apply hafter place (hfits after rfl)]
        · simp [eat_apply_cons hsuffix, hbrace, hfixed]
    · by_cases hu : char = 'u'
      · subst hu
        simp [fixedHex_apply hsuffix place (by decide : 4 ≤ 8)]
      · cases halphanum : char.isAlphanum <;> simp [hx, hu, halphanum]

/-- Takes the digits of a backreference behind the first one, and reads all of them again. -/
def number (start : Nat) : Cursor Atom := do
  let second ← position
  let first ← demand (if 1 ≤ second then some (second - 1) else none)
  skip (Text.skipDigits (Text.bytes (← Cursor.rest)) 0)
  let digits ← slice first (← position)
  if Text.fits32 (Text.decimalValue digits) then
    return .backreference (Text.decimalValue digits)
  else fail (.referenceTooLarge digits) start

/-- All digits of a backreference are read, also the one that has been taken before. -/
theorem number_apply {first : Char} (hfirst : first.isDigit) (hsuffix : first :: rest <:+ chars)
    (place : List Char) :
    number (Text.offsetOf chars place) chars (Text.offsetOf chars rest) =
      ((Escape.readNumber first rest).placed place).outcome chars := by
  have hrest := (List.suffix_cons first rest).trans hsuffix
  have hsplit : rest.takeWhile Char.isDigit ++ rest.dropWhile Char.isDigit = rest :=
    List.takeWhile_append_dropWhile
  obtain ⟨-, hdigits, hafter⟩ := Text.takeWhile_dropWhile_eq_iff.mp
    (⟨rfl, rfl⟩ : rest.takeWhile Char.isDigit = _ ∧ rest.dropWhile Char.isDigit = _)
  have hskip := Text.skipDigits_bytes [] hdigits hafter
  rw [List.nil_append, List.nil_append, hsplit, Text.utf8Size] at hskip
  have hslice := slice_apply (List.cons_append ▸ hsplit.symm ▸ hsuffix :
    (first :: rest.takeWhile Char.isDigit) ++ rest.dropWhile Char.isDigit <:+ chars)
  rw [List.cons_append, hsplit] at hslice
  have hstart := Text.offsetOf_of_cons hsuffix
  rw [Text.utf8Size_of_isDigit hfirst] at hstart
  have hback : (demand (if 1 ≤ Text.offsetOf chars rest then some (Text.offsetOf chars rest - 1)
      else none) : Cursor Nat) = pure (Text.offsetOf chars (first :: rest)) := by
    rw [if_pos (by omega), hstart, Nat.add_sub_cancel, demand_some]
  have hstop := Text.offsetOf_of_append (hsplit.symm ▸ hrest :
    rest.takeWhile Char.isDigit ++ rest.dropWhile Char.isDigit <:+ chars)
  rw [hsplit] at hstop
  simp only [number, bind_apply, position_apply, Outcome.done_andThen, hback, pure_apply,
    rest_apply hrest, skip_apply, hskip, ← hstop, hslice, Escape.readNumber]
  split <;> rfl

/-- Takes what follows `\k`. -/
def reference (start : Nat) : Cursor Atom := do
  match ← bump with
  | none => fail .openReference start
  | some opener =>
    match Escape.nameCloser? opener with
    | none => fail (.referenceUnnamed opener) start
    | some closer => return .namedBackreference (← name closer start)

theorem reference_apply (hsuffix : rest <:+ chars) (place : List Char) :
    reference (Text.offsetOf chars place) chars (Text.offsetOf chars rest) =
      ((Escape.readReference rest).placed place).outcome chars := by
  cases rest with
  | nil => simp [reference, bump_apply_nil, Escape.readReference]
  | cons opener rest =>
    have hrest := (List.suffix_cons opener rest).trans hsuffix
    cases hcloser : Escape.nameCloser? opener with
    | none => simp [reference, bump_apply_cons hsuffix, Escape.readReference, hcloser]
    | some closer =>
      simp only [reference, bind_apply, bump_apply_cons hsuffix, Outcome.done_andThen,
        Escape.readReference, hcloser, name_apply closer place hrest]
      exact (Reading.outcome_placed_convert _ _ _ _).symm

/-- Takes what follows a backslash outside of brackets. -/
def escape (start : Nat) : Cursor Atom := do
  match ← bump with
  | none => fail .loneBackslash start
  | some char =>
    match Escape.charClass? char, Escape.anchor? char with
    | some charClass, _ => return .charClass charClass
    | none, some anchor => return .anchor anchor
    | none, none =>
      if char.isDigit && char ≠ '0' then number start
      else if char = 'k' then reference start
      else return .literal (← character char start)

theorem escape_apply (hsuffix : rest <:+ chars) (place : List Char)
    (hfits : Escape.DigitsFit rest) :
    escape (Text.offsetOf chars place) chars (Text.offsetOf chars rest) =
      ((Escape.read rest).placed place).outcome chars := by
  cases rest with
  | nil => simp [escape, bump_apply_nil, Escape.read]
  | cons char rest =>
    have hrest := (List.suffix_cons char rest).trans hsuffix
    simp only [escape, bind_apply, bump_apply_cons hsuffix, Outcome.done_andThen, Escape.read]
    cases Escape.charClass? char with
    | some charClass => rfl
    | none =>
      cases Escape.anchor? char with
      | some anchor => rfl
      | none =>
        dsimp only
        by_cases hnumber : char.isDigit && char ≠ '0'
        · have hreference : char ≠ 'k' := by
            rintro rfl
            revert hnumber
            decide
          have hdigit : char.isDigit := (Bool.and_eq_true _ _ ▸ hnumber).1
          rw [if_pos hnumber, if_neg hreference, if_pos hnumber]
          exact number_apply hdigit hsuffix place
        · by_cases hreference : char = 'k'
          · rw [if_neg hnumber, if_pos hreference, if_pos hreference]
            exact reference_apply hrest place
          · rw [if_neg hnumber, if_neg hreference, if_neg hreference, if_neg hnumber, bind_apply,
              character_apply hrest place hfits]
            exact (Reading.outcome_placed_convert _ _ _ _).symm

end Cursor

end PatternTree
