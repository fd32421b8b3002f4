import PatternTree.Proofs.Builder.Items
import PatternTree.Proofs.Grammar.Limits
import PatternTree.Proofs.Token.Starts
import PatternTree.Proofs.Token.Truncation

namespace PatternTree

/-- Decimal digits write the sum of their distances from zero times the powers of ten. -/
theorem Text.decimalValue_eq_ofDigits {digits : List Char}
    (hdigits : ∀ digit ∈ digits, digit.isDigit) :
    decimalValue digits =
      Nat.ofDigits 10 (digits.reverse.map fun digit => digit.toNat - '0'.toNat) := by
  rw [decimalValue, valueOf_eq_ofDigits]
  congr 1
  refine List.map_congr_left fun digit hdigit => ?_
  rw [hexValue?_of_isDigit (hdigits digit (List.mem_reverse.mp hdigit)), Option.getD_some]

theorem CountError.family_cause (text : List Char) (error : CountError) :
    (error.cause text).family = .invalidRepetitionBounds := by
  cases error <;> rfl

/-- Counts that do not fit are no bounds. -/
theorem Counts.exists_bounds_eq_error {counts : Counts} (hfit : ¬ counts.Fit) :
    ∃ error, counts.bounds = .error error := by
  cases hbounds : counts.bounds with
  | error error => exact ⟨error, rfl⟩
  | ok bounds => exact absurd (bounds_eq_ok_iff.mp hbounds).1 hfit

/-- A quantifier behind something that nothing repeats so far makes a repetition of it. -/
theorem Item.quantify_plain_of_ok {quantifier : Quantifier} {bounds : Bounds}
    (hbounds : quantifier.bounds = .ok bounds) (token : Token) (tree : Tree) :
    (plain tree).quantify quantifier token = .ok (.repeated tree bounds true token.span.stop) := by
  simp only [quantify, hbounds]

/-- A quantifier without bounds is refused behind something that nothing repeats so far. -/
theorem Item.quantify_plain_of_error {quantifier : Quantifier} {error : CountError}
    (hbounds : quantifier.bounds = .error error) (token : Token) (tree : Tree) :
    (plain tree).quantify quantifier token = .error (error.cause token.text) := by
  cases error <;> simp only [quantify, hbounds, CountError.cause]

/-- What becomes of a token with counts behind an item. The counts in the text of the token are the
    ones that the lexer has seen. Where they fit, they are the bounds of a repetition, and else an
    error is reported at the start of the token. -/
structure Counts.EvaluatesIn (counts : Counts) (token : Token) : Prop where
  ofText : Counts.ofText? token.text = some counts
  of_fit : counts.Fit →
    (∀ task builder,
      Build.boundsOf (.counted counts) token task builder = .done counts.written builder) ∧
    ∀ tree, (Item.plain tree).quantify (.counted counts) token =
      .ok (.repeated tree counts.written true token.span.stop)
  of_not_fit : ¬ counts.Fit → ∃ cause : ParseCause, cause.family = .invalidRepetitionBounds ∧
    (∀ task builder, Build.boundsOf (.counted counts) token task builder =
      .failed (.structural ⟨cause, token.span.start⟩)) ∧
    ∀ dialect state tree items later, state.level.items = .plain tree :: items →
      ParseState.run dialect state (token :: later) = .error ⟨cause, token.span.start⟩

/-- Counts are evaluated as they are written. -/
theorem Counts.evaluatesIn {counts : Counts} {token : Token}
    (hrole : token.role = .quantifier (.counted counts))
    (hspells : (Quantifier.counted counts).Spells token.text) : counts.EvaluatesIn token where
  ofText := by
    obtain ⟨role, text, span⟩ := token
    cases hspells with
    | counted hwritten => exact ofText?_of_isWritten hwritten
  of_fit hfit := by
    have hbounds : (Quantifier.counted counts).bounds = .ok counts.written :=
      bounds_eq_ok_iff.mpr ⟨hfit, rfl⟩
    exact ⟨fun task builder => Build.boundsOf_of_ok hspells hbounds,
      Item.quantify_plain_of_ok hbounds token⟩
  of_not_fit hfit := by
    obtain ⟨error, herror⟩ := exists_bounds_eq_error hfit
    have hbounds : (Quantifier.counted counts).bounds = .error error := herror
    refine ⟨error.cause token.text, error.family_cause token.text,
      fun task builder => Build.boundsOf_of_error hspells hbounds, ?_⟩
    intro dialect state tree items later hitems
    have hquantify := Item.quantify_plain_of_error hbounds token tree
    simp only [ParseState.run, ParseState.step, hrole, Level.quantify, hitems, hquantify]
    rfl

namespace Scan

variable {classSyntax : ClassSyntax} {chars : List Char}

/-- Counts behind a brace are taken with it, whatever follows their closing brace. -/
theorem readToken_of_counts {counts : Counts} (hwritten : counts.IsWritten) (rest : List Char) :
    readToken classSyntax '\x7b' (counts.inside ++ ['\x7d'] ++ rest) =
      .ok (.quantifier (.counted counts), rest) := by
  have hread := readCounts?_of_isWritten hwritten rest
  rw [List.append_assoc, List.singleton_append]
  simp [readToken, simple?, hread]

/-- A brace before which no counts are written stands for itself. -/
theorem readToken_of_no_counts (hread : readCounts? chars = none) :
    readToken classSyntax '\x7b' chars = .ok (.atom (.literal '\x7b'), chars) := by
  simp [readToken, simple?, hread]

end Scan

/-- A brace at the start of a token opens counts exactly where digits, perhaps a comma and perhaps
    more digits stand between it and a closing brace. The token then covers just these, and what its
    counts come to is what they write. Any other brace is a literal. -/
theorem tokenize_counted {classSyntax : ClassSyntax} {source : String} {front chars : List Char}
    {token : Token} (htext : source.toList = front ++ '\x7b' :: chars)
    (htoken : token ∈ (tokenize classSyntax source).tokens)
    (hstart : token.span.start = Text.utf8Size front) :
    ((∃ counts, token.role = .quantifier (.counted counts)) ↔
      ∃ counts text, (Quantifier.counted counts).Spells text ∧ text <+: '\x7b' :: chars) ∧
    (∀ counts text, (Quantifier.counted counts).Spells text → text <+: '\x7b' :: chars →
      token = ⟨.quantifier (.counted counts), text,
        ⟨Text.utf8Size front, Text.utf8Size front + Text.utf8Size text⟩⟩ ∧
      counts.EvaluatesIn token) ∧
    ((∀ counts text, (Quantifier.counted counts).Spells text → ¬ text <+: '\x7b' :: chars) →
      token = ⟨.atom (.literal '\x7b'), ['\x7b'],
        ⟨Text.utf8Size front, Text.utf8Size front + 1⟩⟩) ∧
    ∀ digits, Counts.IsNumeral digits → Text.decimalValue digits =
      Nat.ofDigits 10 (digits.reverse.map fun digit => digit.toNat - '0'.toNat) := by
  rw [tokenize, htext] at htoken
  have hcounted : ∀ counts text, (Quantifier.counted counts).Spells text →
      text <+: '\x7b' :: chars →
      token = ⟨.quantifier (.counted counts), text,
        ⟨Text.utf8Size front, Text.utf8Size front + Text.utf8Size text⟩⟩ := by
    rintro counts text hspells ⟨rest, hrest⟩
    cases hspells with
    | counted hwritten =>
      obtain rfl : counts.inside ++ ['\x7d'] ++ rest = chars := (List.cons.inj hrest).2
      exact Scan.eq_of_start (Scan.readToken_of_counts hwritten rest) htoken hstart
  have hliteral : (∀ counts text, (Quantifier.counted counts).Spells text →
      ¬ text <+: '\x7b' :: chars) →
      token = ⟨.atom (.literal '\x7b'), ['\x7b'],
        ⟨Text.utf8Size front, Text.utf8Size front + 1⟩⟩ := by
    intro hnone
    have hread : Scan.readCounts? chars = none := by
      rw [Scan.readCounts?_eq_none_iff]
      intro counts hwritten hpiece
      exact hnone counts _ (.counted hwritten) ((List.prefix_cons_inj _).mpr hpiece)
    have hbrace : Scan.readToken classSyntax '\x7b' ([] ++ chars) =
        .ok (.atom (.literal '\x7b'), chars) := Scan.readToken_of_no_counts hread
    exact Scan.eq_of_start hbrace htoken hstart
  refine ⟨⟨?_, ?_⟩, ?_, hliteral, fun digits hdigits =>
    Text.decimalValue_eq_ofDigits hdigits.2⟩
  · rintro ⟨counts, hrole⟩
    by_contra hnone
    have hbrace := hliteral fun counts text hspells hprefix =>
      hnone ⟨counts, text, hspells, hprefix⟩
    rw [hbrace] at hrole
    cases hrole
  · rintro ⟨counts, text, hspells, hprefix⟩
    exact ⟨counts, by rw [hcounted counts text hspells hprefix]⟩
  · intro counts text hspells hprefix
    have heq := hcounted counts text hspells hprefix
    refine ⟨heq, Counts.evaluatesIn ?_ ?_⟩
    · rw [heq]
    · rw [heq]
      exact hspells

/-- The largest count of 32 bits behind leading zeros is a bound, the number after it is none, and a
    brace without digits is a literal. -/
theorem tokenize_counted_largest_count :
    ∃ largest ∈ (tokenize .pcre "é\x7b007,4294967295\x7da\x7b4294967296\x7d\x7b").tokens,
    ∃ tooLarge ∈ (tokenize .pcre "é\x7b007,4294967295\x7da\x7b4294967296\x7d\x7b").tokens,
    ∃ last ∈ (tokenize .pcre "é\x7b007,4294967295\x7da\x7b4294967296\x7d\x7b").tokens,
      largest.span = ⟨2, 18⟩ ∧
      (Counts.between ['0', '0', '7'] "4294967295".toList).EvaluatesIn largest ∧
      (Counts.between ['0', '0', '7'] "4294967295".toList).Fit ∧
      tooLarge.span = ⟨19, 31⟩ ∧ (Counts.exactly "4294967296".toList).EvaluatesIn tooLarge ∧
      ¬ (Counts.exactly "4294967296".toList).Fit ∧
      last = ⟨.atom (.literal '\x7b'), ['\x7b'], ⟨31, 32⟩⟩ := by
  have hstarts : (∃ token ∈ (tokenize .pcre
        "é\x7b007,4294967295\x7da\x7b4294967296\x7d\x7b").tokens, token.span.start = 2) ∧
      (∃ token ∈ (tokenize .pcre
        "é\x7b007,4294967295\x7da\x7b4294967296\x7d\x7b").tokens, token.span.start = 19) ∧
      ∃ token ∈ (tokenize .pcre
        "é\x7b007,4294967295\x7da\x7b4294967296\x7d\x7b").tokens, token.span.start = 31 := by
    decide +kernel
  obtain ⟨⟨largest, hlargest, hstart⟩, ⟨tooLarge, htooLarge, hstart'⟩, last, hlast, hstart''⟩ :=
    hstarts
  have hwritten : (Counts.between ['0', '0', '7'] "4294967295".toList).IsWritten :=
    ⟨⟨by decide, List.all_eq_true.mp rfl⟩, by decide, List.all_eq_true.mp rfl⟩
  have hwritten' : (Counts.exactly "4294967296".toList).IsWritten :=
    ⟨by decide, List.all_eq_true.mp rfl⟩
  have htext : "é\x7b007,4294967295\x7da\x7b4294967296\x7d\x7b".toList =
      ['é'] ++ '\x7b' :: "007,4294967295\x7da\x7b4294967296\x7d\x7b".toList := by
    decide
  have htext' : "é\x7b007,4294967295\x7da\x7b4294967296\x7d\x7b".toList =
      "é\x7b007,4294967295\x7da".toList ++ '\x7b' :: "4294967296\x7d\x7b".toList := by
    decide
  have htext'' : "é\x7b007,4294967295\x7da\x7b4294967296\x7d\x7b".toList =
      "é\x7b007,4294967295\x7da\x7b4294967296\x7d".toList ++ '\x7b' :: [] := by
    decide
  obtain ⟨hlargest', hevaluates⟩ := (tokenize_counted htext hlargest hstart).2.1 _ _
    (.counted hwritten) ⟨"a\x7b4294967296\x7d\x7b".toList, by decide⟩
  obtain ⟨htooLarge', hevaluates'⟩ := (tokenize_counted htext' htooLarge hstart').2.1 _ _
    (.counted hwritten') ⟨['\x7b'], by decide⟩
  have hlast' := (tokenize_counted htext'' hlast hstart'').2.2.1 (by
    intro counts text hspells hprefix
    cases hspells
    simp at hprefix)
  refine ⟨largest, hlargest, tooLarge, htooLarge, last, hlast, ?_, hevaluates, ?_, ?_,
    hevaluates', ?_, hlast'⟩
  · rw [hlargest']
    decide
  · exact ⟨by decide, by decide, by decide⟩
  · rw [htooLarge']
    decide
  · rw [Counts.Fit]
    decide

end PatternTree
