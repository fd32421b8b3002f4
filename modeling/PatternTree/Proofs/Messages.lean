import PatternTree.Proofs.NormalForm
import PatternTree.Proofs.Ranking
import PatternTree.Proofs.Text.Lines

namespace PatternTree

open Text (BreaksInQuotes breaksInQuotes_of_notMem newline_notMem_of_forall)

/-- An identifier stays on its line. -/
theorem Escape.newline_notMem_of_isName {name : List Char} (hname : isName name) : '\n' ∉ name :=
  newline_notMem_of_forall (isNameChar_of_isName hname) (by decide)

/-- The text of a quantifier stays on its line. -/
theorem Quantifier.Spells.newline_notMem {quantifier : Quantifier} {text : List Char}
    (hspells : quantifier.Spells text) : '\n' ∉ text := by
  cases hspells with
  | star | plus | optional => decide
  | @counted counts hwritten =>
    have hnumeral : ∀ {digits}, Counts.IsNumeral digits → '\n' ∉ digits :=
      fun hdigits => newline_notMem_of_forall hdigits.2 (by decide)
    cases counts with
    | exactly count => simp [Counts.inside, hnumeral hwritten]
    | atLeast lower => simp [Counts.inside, hnumeral hwritten]
    | between lower upper => simp [Counts.inside, hnumeral hwritten.1, hnumeral hwritten.2]

namespace Counts

/-- A number that is too large is written in digits, and so is one that is found to be too large
    after it. -/
theorem isDigit_or_exists_of_bind_count? {α : Type} {numeral digits : List Char}
    {next : Nat → Except CountError α} (hnumeral : IsNumeral numeral)
    (herror : (count? numeral >>= next) = .error (.tooLarge digits)) :
    (∀ digit ∈ digits, digit.isDigit) ∨ ∃ value, next value = .error (.tooLarge digits) := by
  by_cases hfits : Text.fits32 (Text.decimalValue numeral)
  · rw [count?_of_fits32 hfits] at herror
    exact .inr ⟨_, herror⟩
  · rw [count?_of_fits32_eq_false (Bool.eq_false_of_not_eq_true hfits)] at herror
    cases herror
    exact .inl hnumeral.2

/-- What is too large for a bound is written in digits. -/
theorem isDigit_of_bounds_eq_error {counts : Counts} (hwritten : counts.IsWritten)
    {digits : List Char} (hbounds : counts.bounds = .error (.tooLarge digits)) :
    ∀ digit ∈ digits, digit.isDigit := by
  cases counts with
  | exactly count =>
    obtain hdigits | ⟨value, hnext⟩ := isDigit_or_exists_of_bind_count? hwritten hbounds
    · exact hdigits
    · cases hnext
  | atLeast lower =>
    obtain hdigits | ⟨min, hnext⟩ := isDigit_or_exists_of_bind_count? hwritten hbounds
    · exact hdigits
    · cases hnext
  | between lower upper =>
    obtain hdigits | ⟨min, hnext⟩ := isDigit_or_exists_of_bind_count? hwritten.1 hbounds
    · exact hdigits
    · obtain hdigits | ⟨max, hlast⟩ := isDigit_or_exists_of_bind_count? hwritten.2 hnext
      · exact hdigits
      · split at hlast <;> cases hlast

end Counts

theorem Quantifier.Spells.isDigit_of_bounds_eq_error {quantifier : Quantifier}
    {text digits : List Char} (hspells : quantifier.Spells text)
    (hbounds : quantifier.bounds = .error (.tooLarge digits)) :
    ∀ digit ∈ digits, digit.isDigit := by
  cases hspells with
  | star | plus | optional => cases hbounds
  | counted hwritten => exact Counts.isDigit_of_bounds_eq_error hwritten hbounds

namespace LexCause

theorem newline_notMem_shownCode (code : Nat) : '\n' ∉ (shownCode code).toList := by
  rw [shownCode, String.toList_ofList, List.mem_map]
  rintro ⟨char, hchar, hupper⟩
  obtain ⟨digit, hdigit, rfl⟩ := Text.exists_of_mem_toDigits (by decide) hchar
  have hdigits : ∀ digit < 16, digit.digitChar.toUpper ≠ '\n' := by decide
  exact hdigits digit hdigit hupper

/-- What is said of a lexical error goes on in another line only with a character that it
    quotes. -/
theorem Legible.breaksInQuotes {cause : LexCause} (hlegible : cause.Legible) :
    BreaksInQuotes cause.message.toList := by
  have hquote : ∀ (front : String) (char : Char) (back : String), '\n' ∉ front.toList →
      '\n' ∉ back.toList → back.toList.head? = some '`' →
        BreaksInQuotes (front ++ char.toString ++ back).toList := by
    intro front char back hfront hback hhead
    have hchar : char.toString.toList = [char] := by simp [Char.toString]
    rw [String.toList_append, String.toList_append, hchar, List.append_assoc]
    exact BreaksInQuotes.quote char (breaksInQuotes_of_notMem hfront)
      (breaksInQuotes_of_notMem hback) hhead
  cases cause with
  | referenceUnnamed found => exact hquote _ found _ (by decide) (by decide) rfl
  | unknownEscape char => exact hquote _ char _ (by decide) (by decide) rfl
  | notHexDigit char => exact hquote _ char _ (by decide) (by decide) rfl
  | openName name closer =>
    have hname := Escape.newline_notMem_of_isName hlegible
    exact hquote ("group name `" ++ name ++ "` is not closed by `") closer "`" (by simp [hname])
      (by decide) rfl
  | referenceTooLarge digits =>
    have hdigits : ∀ digit ∈ digits, digit.isDigit := hlegible
    have hmessage : '\n' ∉ ("backreference number " ++ String.ofList digits ++
        " is too large").toList := by
      simp [newline_notMem_of_forall hdigits (by decide)]
    exact breaksInQuotes_of_notMem hmessage
  | unknownSet name =>
    have hname : ∀ letter ∈ name.toList, letter.isLower := hlegible
    have hmessage : '\n' ∉ ("unknown POSIX class `[:" ++ name ++ ":]`").toList := by
      simp [newline_notMem_of_forall hname (by decide)]
    exact breaksInQuotes_of_notMem hmessage
  | notCharacter code =>
    have hmessage : '\n' ∉ ("U+" ++ shownCode code ++ " is not a valid codepoint").toList := by
      simp [newline_notMem_shownCode]
    exact breaksInQuotes_of_notMem hmessage
  | rangeOutOfOrder low high =>
    have hmessage : '\n' ∉ ("range " ++ Text.quotedChar low ++ "-" ++ Text.quotedChar high ++
        " is out of order").toList := by
      simp
    exact breaksInQuotes_of_notMem hmessage
  | nameStart name =>
    have hmessage : '\n' ∉ ("group name must start with a letter or `_`, found " ++
        Text.quoted name).toList := by
      simp
    exact breaksInQuotes_of_notMem hmessage
  | _ => exact breaksInQuotes_of_notMem (by decide)

end LexCause

/-- The texts that a cause quotes: identifiers, digits, and texts of single tokens. -/
def ParseCause.Legible : ParseCause → Prop
  | duplicateName name => Escape.isName name.toList
  | countTooLarge digits => ∀ digit ∈ digits, digit.isDigit
  | countsOutOfOrder text | unmatchedCloser text | nothingToRepeat text | repeatedTwice text =>
    '\n' ∉ text
  | tooDeep _ | openGroup => True

theorem ParseCause.Legible.newline_notMem {cause : ParseCause} (hlegible : cause.Legible) :
    '\n' ∉ cause.message.toList := by
  have hquote : ∀ (front : String) (text : List Char) (back : String), '\n' ∉ front.toList →
      '\n' ∉ text → '\n' ∉ back.toList → '\n' ∉ (front ++ String.ofList text ++ back).toList := by
    intro front text back hfront htext hback
    simp [hfront, htext, hback]
  cases cause with
  | duplicateName name =>
    have hmessage : '\n' ∉ ("group name `" ++ name ++ "` is already defined").toList := by
      simp [Escape.newline_notMem_of_isName hlegible]
    exact hmessage
  | countTooLarge digits =>
    have hdigits : ∀ digit ∈ digits, digit.isDigit := hlegible
    have htext := newline_notMem_of_forall hdigits (by decide)
    exact hquote _ digits _ (by decide) htext (by decide)
  | countsOutOfOrder text => exact hquote _ text _ (by decide) hlegible (by decide)
  | unmatchedCloser text => exact hquote _ text _ (by decide) hlegible (by decide)
  | nothingToRepeat text => exact hquote _ text _ (by decide) hlegible (by decide)
  | repeatedTwice text => exact hquote _ text _ (by decide) hlegible (by decide)
  | tooDeep limit =>
    have hmessage : '\n' ∉ ("groups nested deeper than " ++ toString limit).toList := by simp
    exact hmessage
  | openGroup => decide

theorem Item.legible_of_quantify_eq_error {item : Item} {quantifier : Quantifier} {token : Token}
    {cause : ParseCause} (hspells : quantifier.Spells token.text)
    (herror : item.quantify quantifier token = .error cause) : cause.Legible := by
  have htext := hspells.newline_notMem
  unfold quantify at herror
  split at herror
  · split at herror
    · cases herror
    next digits hbounds =>
      cases herror
      exact hspells.isDigit_of_bounds_eq_error hbounds
    · cases herror
      exact htext
  · split at herror <;> cases herror
    exact htext
  · cases herror
    exact htext

namespace ParseState

variable {dialect : Dialect} {state : ParseState} {token : Token} {cause : ParseCause}

/-- A token that does not fit is quoted as it is written, which takes one line. -/
theorem legible_of_step_eq_error (hspells : token.role.Spells token.text)
    (hstep : state.step dialect token = .error cause) : cause.Legible := by
  unfold step at hstep
  split at hstep
  · cases hstep
  next quantifier hrole =>
    rw [hrole] at hspells
    unfold Level.quantify at hstep
    split at hstep
    · cases hstep
      exact Quantifier.Spells.newline_notMem hspells
    next item items hitems =>
      cases hitem : item.quantify quantifier token with
      | ok item => simp [hitem, Except.map] at hstep
      | error cause' =>
        rw [hitem] at hstep
        cases hstep
        exact Item.legible_of_quantify_eq_error hspells hitem
  · cases hstep
  next opener hrole =>
    rw [hrole] at hspells
    simp only [openGroup] at hstep
    split at hstep
    · cases hstep
      trivial
    · split at hstep
      · cases hstep
      next name hname =>
        split at hstep <;> cases hstep
        exact (Opener.Spells.proper hspells _ name hname).1
  next hrole =>
    rw [hrole] at hspells
    unfold closeGroup at hstep
    split at hstep <;> cases hstep
    have htext : token.text = [')'] := hspells
    simp [ParseCause.Legible, htext]

end ParseState

/-- The texts that an error quotes. -/
def PatternError.Legible : PatternError → Prop
  | lexical error => error.cause.Legible
  | structural error => error.cause.Legible

/-- An error goes on in another line only with a character that it quotes. -/
theorem PatternError.Legible.breaksInQuotes {error : PatternError} (hlegible : error.Legible) :
    BreaksInQuotes error.describe.toList := by
  cases error with
  | lexical error =>
    have hfront : '\n' ∉ ("lex error: " ++ (error.cause.family.phrase ++ " at offset " ++
        toString error.offset ++ ": ")).toList := by
      cases error.cause.family <;> simp [LexFamily.phrase]
    have hcause := LexCause.Legible.breaksInQuotes hlegible
    have hmessage := (breaksInQuotes_of_notMem hfront).append hcause
    rwa [← String.toList_append, String.append_assoc] at hmessage
  | structural error =>
    have hfront : '\n' ∉ ("parse error: " ++ (error.cause.family.phrase ++ " at offset " ++
        toString error.offset ++ ": ")).toList := by
      cases error.cause.family <;> simp [ParseFamily.phrase]
    have hcause := ParseCause.Legible.newline_notMem hlegible
    have hmessage := (breaksInQuotes_of_notMem hfront).append (breaksInQuotes_of_notMem hcause)
    rwa [← String.toList_append, String.append_assoc] at hmessage

namespace Pattern

variable {dialect : Dialect} {source : String} {pattern : Pattern}

/-- Whatever text is no pattern, what is said of it is legible. -/
theorem legible_of_parse_eq_error {error : PatternError}
    (hparse : parse dialect source = .error error) : error.Legible := by
  obtain ⟨lexemes, rest, -, hreads, htokens, -, hfailure⟩ :=
    Lexeme.exists_reads_ofText dialect.classSyntax 0 source.toList
  have htree := parse_eq_error_iff.mp hparse
  cases error with
  | lexical error =>
    obtain ⟨hscan, -⟩ := Tree.ofText_eq_lexical_iff.mp htree
    obtain ⟨char, after, fault, -, hread, rfl⟩ := hfailure error hscan
    exact (Scan.satisfies_readToken _ _ _).error hread
  | structural error =>
    cases hrun : ParseState.run dialect {}
        (Scan.ofText dialect.classSyntax 0 source.toList).tokens with
    | error error' =>
      rw [Tree.ofText_of_run_eq_error hrun] at htree
      cases htree
      obtain ⟨front, token, back, state, cause, hsplit, -, hstep, rfl⟩ :=
        ParseState.exists_of_run_eq_error hrun
      refine ParseState.legible_of_step_eq_error (hreads.spells token.lexeme ?_) hstep
      rw [← Lexeme.map_lexeme_place 0 lexemes, ← htokens, hsplit]
      exact List.mem_map_of_mem (List.mem_append_right _ List.mem_cons_self)
    | ok state =>
      simp only [Tree.ofText, Tree.ofTokens, hrun] at htree
      split at htree
      · unfold ParseState.finish at htree
        split at htree <;> cases htree
        trivial
      · cases htree

end Pattern

end PatternTree
