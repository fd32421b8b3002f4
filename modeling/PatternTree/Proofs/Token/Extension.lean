import PatternTree.Proofs.Bracket.Extension
import PatternTree.Proofs.Grammar.Parse
import PatternTree.Proofs.Text.Digits
import PatternTree.Proofs.Token.Closing

namespace PatternTree

namespace Escape

variable {chars : List Char} {cause : LexCause}

/-- What is no name is reported as that. -/
theorem family_of_readName_eq_error {closer : Char} (hread : readName closer chars = .error cause) :
    cause.family = .invalidGroupName := by
  simp only [readName] at hread
  split at hread
  · split at hread
    · cases hread
      rfl
    · split at hread <;> cases hread
      rfl
  · cases hread
    rfl

/-- A number that is too large is too large with more digits. -/
theorem readNumber_extend {first : Char} (hread : readNumber first chars = .error cause)
    (more : List Char) :
    ∃ cause', readNumber first (chars ++ more) = .error cause' ∧
      cause'.family = cause.family := by
  simp only [readNumber] at hread ⊢
  split at hread
  · cases hread
  next hlarge =>
    cases hread
    obtain ⟨others, hothers⟩ :
        chars.takeWhile Char.isDigit <+: (chars ++ more).takeWhile Char.isDigit := by
      rw [List.takeWhile_append]
      split
      · exact (List.takeWhile_prefix _).trans (List.prefix_append _ _)
      · exact List.prefix_refl _
    have hle := Text.decimalValue_le_append (first :: chars.takeWhile Char.isDigit) others
    rw [List.cons_append, hothers] at hle
    have hlarge' : ¬ Text.fits32
        (Text.decimalValue (first :: (chars ++ more).takeWhile Char.isDigit)) := by
      simp only [Text.fits32, decide_eq_true_eq] at hlarge ⊢
      omega
    exact ⟨_, if_neg hlarge', rfl⟩

/-- What is wrong with an escape outside of brackets stays wrong when the text goes on. -/
theorem read_extend (hread : read chars = .error cause) (hfamily : cause.family.IsInvalid)
    (more : List Char) :
    ∃ cause', read (chars ++ more) = .error cause' ∧ cause'.family = cause.family := by
  cases chars with
  | nil =>
    cases hread
    exact absurd rfl hfamily.ne.1
  | cons char chars =>
    rw [List.cons_append]
    simp only [read] at hread ⊢
    split at hread
    · cases hread
    · cases hread
    next hclass hanchor =>
      split at hread
      next hreference =>
        cases chars with
        | nil =>
          cases hread
          exact absurd rfl hfamily.ne.1
        | cons opener chars =>
          cases hcloser : nameCloser? opener with
          | none =>
            simp only [readReference, hcloser] at hread
            cases hread
            exact ⟨_, by simp [hreference, readReference, hcloser], rfl⟩
          | some closer =>
            simp only [readReference, hcloser] at hread
            have hname := family_of_readName_eq_error (Reading.of_convert_eq_error hread)
            exact absurd hname hfamily.ne.2.2
      next hreference =>
        split at hread
        next hnumber =>
          obtain ⟨cause', hread', hsame⟩ := readNumber_extend hread more
          exact ⟨cause', by rw [if_neg hreference, if_pos hnumber, hread'], hsame⟩
        next hnumber =>
          have hcharacter := Reading.of_convert_eq_error hread
          obtain ⟨body, rest, written, rfl, hspells⟩ | ⟨_, hmisspells⟩ := settles char chars
          · rw [hspells.readCharacter_eq] at hcharacter
            cases hcharacter
          · cases hmisspells.readCharacter_eq.symm.trans hcharacter
            have hread' := (hmisspells.extend hfamily.ne.1 more).readCharacter_eq
            refine ⟨cause, ?_, rfl⟩
            rw [if_neg hreference, if_neg hnumber, hread']
            rfl

end Escape

namespace Scan

variable {classSyntax : ClassSyntax} {char : Char} {chars : List Char} {fault : Fault}

/-- The only fault of an opener is its name. -/
theorem family_of_readOpener_eq_error {cause : LexCause}
    (hread : readOpener chars = .error cause) : cause.family = .invalidGroupName := by
  have hname : ∀ {closer : Char} {rest : List Char},
      (Escape.readName closer rest).convert Opener.named = .error cause →
        cause.family = .invalidGroupName :=
    fun hread => Escape.family_of_readName_eq_error (Reading.of_convert_eq_error hread)
  unfold readOpener at hread
  split at hread
  · cases hread
  · exact hname hread
  · exact hname hread
  · split at hread
    · cases hread
    · exact hname hread
  · cases hread

/-- Only brackets and backslashes start a token that something is wrong with. -/
theorem first_of_isInvalid (hread : readToken classSyntax char chars = .error fault)
    (hfamily : fault.cause.family.IsInvalid) : char = '[' ∨ char = '\\' := by
  refine (first_of_readToken_eq_error hread).resolve_left ?_
  rintro rfl
  obtain ⟨cause, hcause, rfl⟩ :=
    Reading.exists_of_placed_eq_error (Reading.of_convert_eq_error hread)
  exact hfamily.ne.2.2 (family_of_readOpener_eq_error hcause)

/-- A token that something is wrong with fails in the same family when the text goes on. -/
theorem readToken_extend (hread : readToken classSyntax char chars = .error fault)
    (hfamily : fault.cause.family.IsInvalid) (more : List Char) :
    ∃ fault', readToken classSyntax char (chars ++ more) = .error fault' ∧
      fault'.cause.family = fault.cause.family := by
  obtain rfl | rfl := first_of_isInvalid hread hfamily
  · obtain ⟨charClass, rest, hcloses⟩ | ⟨_, hbreaks⟩ := Bracket.closes_or_breaks classSyntax chars
    · rw [readToken_of_closes hcloses] at hread
      cases hread
    · cases (readToken_of_breaks hbreaks).symm.trans hread
      obtain ⟨fault', hbreaks', hsame⟩ := hbreaks.extend hfamily more
      exact ⟨fault', readToken_of_breaks hbreaks', hsame⟩
  · obtain ⟨cause, hcause, rfl⟩ :=
      Reading.exists_of_placed_eq_error (Reading.of_convert_eq_error hread)
    obtain ⟨cause', hcause', hsame⟩ := Escape.read_extend hcause hfamily more
    refine ⟨⟨cause', '\\' :: (chars ++ more)⟩, ?_, hsame⟩
    simp only [readToken, simple?, hcause']
    rfl

/-- A text that something is wrong with has the same tokens when it goes on, and then an error of
    the same family. -/
theorem ofText_extend {offset : Nat} {failure : LexError}
    (hfailure : (ofText classSyntax offset chars).failure = some failure)
    (hfamily : failure.cause.family.IsInvalid) (more : List Char) :
    (ofText classSyntax offset (chars ++ more)).tokens = (ofText classSyntax offset chars).tokens ∧
      ∃ failure', (ofText classSyntax offset (chars ++ more)).failure = some failure' ∧
        failure'.cause.family = failure.cause.family := by
  obtain ⟨lexemes, rest, rfl, hreads, htokens, -, hfails⟩ :=
    Lexeme.exists_reads_ofText classSyntax offset chars
  obtain ⟨char, after, fault, rfl, hread, rfl⟩ := hfails failure hfailure
  obtain ⟨fault', hread', hsame⟩ := readToken_extend hread hfamily more
  have hfirst := first_of_isInvalid hread hfamily
  -- nothing in front of the token looks for a bracket or a backslash
  have hreads' : Lexeme.Reads classSyntax (char :: (after ++ more)) lexemes := by
    refine hreads.before_end ?_ ?_
    · rintro next ⟨⟩
      obtain rfl | rfl := hfirst <;> decide
    · rintro next ⟨⟩
      obtain rfl | rfl := hfirst <;> decide
  rw [htokens, List.append_assoc, List.cons_append, hreads'.ofText_append, ofText_of_error hread',
    List.append_nil]
  exact ⟨rfl, _, rfl, hsame⟩

end Scan

/-- What a pattern has wrong stays wrong in every pattern that goes on from it: the same tokens come
    before an error of the same family, and no dialect with that class syntax accepts it. What
    follows may make a set of a bracket that ends a range, so that the cause can be another one. -/
theorem tokenize_extend {classSyntax : ClassSyntax} {pattern : String} {failure : LexError}
    (hfailure : (tokenize classSyntax pattern).failure = some failure)
    (hfamily : failure.cause.family = .invalidEscape ∨
      failure.cause.family = .invalidClassRange) (more : String) :
    (tokenize classSyntax (pattern ++ more)).tokens = (tokenize classSyntax pattern).tokens ∧
      (∃ failure', (tokenize classSyntax (pattern ++ more)).failure = some failure' ∧
        failure'.cause.family = failure.cause.family) ∧
      ∀ dialect : Dialect, dialect.classSyntax = classSyntax →
        ∃ error, parse dialect (pattern ++ more) = .error error := by
  obtain ⟨htokens, failure', hfailure', hsame⟩ :=
    Scan.ofText_extend hfailure hfamily more.toList
  rw [← String.toList_append] at htokens hfailure'
  refine ⟨htokens, ⟨failure', hfailure', hsame⟩, ?_⟩
  rintro dialect rfl
  cases hparse : parse dialect (pattern ++ more) with
  | error error => exact ⟨error, rfl⟩
  | ok result =>
    obtain ⟨choice, hderives, -⟩ := Pattern.parse_eq_ok_iff.mp hparse
    rw [hderives.scan_eq] at hfailure'
    cases hfailure'

/-- The range `z-[` is out of order, and with `:foo:]` behind it no set has the name that ends
    it. -/
theorem tokenize_extend_bracket :
    (tokenize .posix "a\x7b[z-[").failure = some ⟨.rangeOutOfOrder 'z' '[', 3⟩ ∧
      (tokenize .posix ("a\x7b[z-[" ++ ":foo:]]")).tokens = (tokenize .posix "a\x7b[z-[").tokens ∧
      (∃ failure', (tokenize .posix ("a\x7b[z-[" ++ ":foo:]]")).failure = some failure' ∧
        failure'.cause.family = .invalidClassRange) ∧
      ∃ error, parse { classSyntax := .posix } ("a\x7b[z-[" ++ ":foo:]]") = .error error := by
  have hfailure : (tokenize .posix "a\x7b[z-[").failure =
      some ⟨.rangeOutOfOrder 'z' '[', 3⟩ := by
    decide +kernel
  obtain ⟨htokens, hfails, hparse⟩ := tokenize_extend hfailure (.inr rfl) ":foo:]]"
  exact ⟨hfailure, htokens, hfails, hparse { classSyntax := .posix } rfl⟩

end PatternTree
