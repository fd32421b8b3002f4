import PatternTree.Proofs.Builder.Run
import PatternTree.Proofs.OpenGroups
import PatternTree.Proofs.Token.Closing
import PatternTree.Proofs.Token.Faults
import PatternTree.Proofs.Token.Tiles

namespace PatternTree

/-- Behind a text another one starts at a character. -/
theorem Text.lt_and_isSome_dropBytes? (front : List Char) {back : List Char} (hback : back ≠ []) :
    utf8Size front < utf8Size (front ++ back) ∧
      (dropBytes? (utf8Size front) (front ++ back)).isSome := by
  have hlength := length_le_utf8Size back
  have hpos := List.length_pos_iff.mpr hback
  rw [utf8Size_append, dropBytes?_utf8Size]
  exact ⟨by omega, rfl⟩

namespace Scan

/-- The offset at which the tokens end. -/
def stop (scan : Scan) : Nat :=
  (scan.tokens.getLast?.map (·.span.stop)).getD 0

/-- How many groups the tokens leave open. -/
def depth (scan : Scan) : Nat :=
  TokenRole.depth (scan.tokens.map Token.role)

end Scan

namespace Lexeme

theorem stop_getLast?_place (offset : Nat) (lexemes : List Lexeme) :
    ((place offset lexemes).getLast?.map (·.span.stop)).getD offset = offset + size lexemes := by
  induction lexemes generalizing offset with
  | nil => rfl
  | cons lexeme lexemes ih =>
    have hnext := ih (offset + Text.utf8Size lexeme.text)
    rw [size_cons, ← Nat.add_assoc, ← hnext, place, List.getLast?_cons]
    cases (place (offset + Text.utf8Size lexeme.text) lexemes).getLast? <;> rfl

theorem roles_place (offset : Nat) (lexemes : List Lexeme) :
    (place offset lexemes).map Token.role = lexemes.map Lexeme.role := by
  conv_rhs => rw [← map_lexeme_place offset lexemes, List.map_map]
  rfl

theorem textOf_replicate_closer (count : Nat) :
    textOf (List.replicate count Phrase.closer) = List.replicate count ')' := by
  induction count with
  | zero => rfl
  | succ count ih => rw [List.replicate_succ, textOf_cons, ih, List.replicate_succ]; rfl

theorem reads_replicate_closer (classSyntax : ClassSyntax) (count : Nat) :
    Reads classSyntax [] (List.replicate count Phrase.closer) := by
  induction count with
  | zero => exact .nil
  | succ count ih => exact .cons rfl ih

end Lexeme

namespace ParseState

variable {dialect : Dialect} {state : ParseState}

/-- A closing parenthesis for each open group closes them all. -/
theorem exists_run_replicate_closer (dialect : Dialect) (state : ParseState) (offset : Nat) :
    ∃ last, state.run dialect (Lexeme.place offset
        (List.replicate state.openGroups.length Phrase.closer)) = .ok last ∧
      last.openGroups = [] := by
  induction hopen : state.openGroups generalizing state offset with
  | nil => exact ⟨state, rfl, hopen⟩
  | cons innermost others ih =>
    obtain ⟨next, hstep, hnext⟩ : ∃ next, state.step dialect (Phrase.closer.token offset) =
        .ok next ∧ next.openGroups = others := by
      simp [step, Lexeme.token, Phrase.closer, closeGroup, hopen]
    obtain ⟨last, hrun, hlast⟩ := ih next (offset + Text.utf8Size Phrase.closer.text) hnext
    exact ⟨last, run_cons_eq_ok_iff.mpr ⟨next, hstep, hrun⟩, hlast⟩

/-- A failing run fails at the start of one of its tokens. -/
theorem exists_start_of_run_eq_error {tokens : List Token} {error : ParseError}
    (hrun : state.run dialect tokens = .error error) :
    ∃ token ∈ tokens, error.offset = token.span.start := by
  obtain ⟨front, token, back, _, cause, rfl, -, -, rfl⟩ := exists_of_run_eq_error hrun
  exact ⟨token, by simp, rfl⟩

end ParseState

namespace Tree

/-- Tokens and a closing parenthesis for each group that they leave open make a tree exactly where
    the parser can take the tokens in. -/
theorem exists_ofText_closed_iff (dialect : Dialect) {lexemes : List Lexeme} {rest : List Char}
    (hreads : Lexeme.Reads dialect.classSyntax rest lexemes)
    (hrest : ∀ next ∈ rest.head?, next ≠ '=' ∧ next ≠ '!') :
    (∃ tree, ofText dialect (Lexeme.textOf lexemes ++
        List.replicate (TokenRole.depth (lexemes.map Lexeme.role)) ')') = .ok tree) ↔
      ∃ state, ParseState.run dialect {} (Lexeme.place 0 lexemes) = .ok state := by
  have hclosers : ∀ count, ofText dialect (Lexeme.textOf lexemes ++ List.replicate count ')') =
      (ofTokens dialect (Text.utf8Size (Lexeme.textOf lexemes ++ List.replicate count ')'))
        (Lexeme.place 0 (lexemes ++ List.replicate count Phrase.closer))).mapError
          .structural := by
    intro count
    have hfront : Lexeme.Reads dialect.classSyntax
        (Lexeme.textOf (List.replicate count Phrase.closer) ++ []) lexemes := by
      refine hreads.before_end hrest fun next hnext => .inl ?_
      rw [Lexeme.textOf_replicate_closer, List.append_nil] at hnext
      exact List.eq_of_mem_replicate (List.mem_of_mem_head? hnext)
    have hall := hfront.append (Lexeme.reads_replicate_closer dialect.classSyntax count)
    have hscan := hall.ofText_eq 0
    rw [Lexeme.textOf_append, Lexeme.textOf_replicate_closer] at hscan
    simp only [ofText, hscan]
  rw [hclosers, ofTokens, Lexeme.place_append]
  cases hrun : ParseState.run dialect {} (Lexeme.place 0 lexemes) with
  | error error =>
    rw [ParseState.run_append_of_error hrun]
    simp [Except.mapError]
  | ok state =>
    have hlength : TokenRole.depth (lexemes.map Lexeme.role) = state.openGroups.length := by
      rw [ParseState.length_openGroups_of_run hrun, Lexeme.roles_place]
      rfl
    obtain ⟨last, hlast, hopen⟩ := state.exists_run_replicate_closer dialect
      (0 + Lexeme.size lexemes)
    rw [ParseState.run_append hrun, hlength, hlast]
    simp [ParseState.finish, hopen, Except.mapError]

variable {dialect : Dialect} {chars : List Char}

/-- A lexical error is reported exactly where the lexer fails and the parser can take in the tokens
    before that. -/
theorem ofText_eq_lexical_iff {error : LexError} :
    ofText dialect chars = .error (.lexical error) ↔
      (Scan.ofText dialect.classSyntax 0 chars).failure = some error ∧
      ∃ state, ParseState.run dialect {} (Scan.ofText dialect.classSyntax 0 chars).tokens =
        .ok state := by
  rw [ofText]
  cases (Scan.ofText dialect.classSyntax 0 chars).failure with
  | none =>
    cases ofTokens dialect (Text.utf8Size chars)
      (Scan.ofText dialect.classSyntax 0 chars).tokens <;> simp [Except.mapError]
  | some failure =>
    cases ParseState.run dialect {} (Scan.ofText dialect.classSyntax 0 chars).tokens <;> simp

/-- A token that does not fit is reported whether the lexer fails behind it or not. -/
theorem ofText_of_run_eq_error {error : ParseError}
    (hrun : ParseState.run dialect {} (Scan.ofText dialect.classSyntax 0 chars).tokens =
      .error error) : ofText dialect chars = .error (.structural error) := by
  simp only [ofText, ofTokens, hrun]
  split <;> rfl

/-- A structural error of a text is reported at the start of one of its tokens. -/
theorem exists_start_of_ofText_eq_error {error : ParseError}
    (hread : ofText dialect chars = .error (.structural error)) :
    ∃ token ∈ (Scan.ofText dialect.classSyntax 0 chars).tokens,
      error.offset = token.span.start := by
  cases hrun : ParseState.run dialect {} (Scan.ofText dialect.classSyntax 0 chars).tokens with
  | error error' =>
    rw [ofText_of_run_eq_error hrun] at hread
    cases hread
    exact ParseState.exists_start_of_run_eq_error hrun
  | ok state =>
    simp only [ofText, ofTokens, hrun] at hread
    split at hread
    · simp only [ParseState.finish] at hread
      split at hread
      · cases hread
      next innermost others hopen =>
        cases hread
        obtain hnone | ⟨token, htoken, hspan⟩ := ParseState.mem_openGroups_of_run hrun
          (hopen ▸ List.mem_cons_self)
        · cases hnone
        · exact ⟨token, htoken, by rw [hspan]⟩
    · cases hread

end Tree

namespace Pattern

variable {dialect : Dialect} {source : String}

/-- What the parser reads of a text has a pattern, and nothing else has. -/
theorem exists_parse_ofList_iff {chars : List Char} :
    (∃ pattern, parse dialect (String.ofList chars) = .ok pattern) ↔
      ∃ tree, Tree.ofText dialect chars = .ok tree := by
  rw [parse, String.toList_ofList]
  cases Tree.ofText dialect chars <;> simp [Except.map]

theorem parse_eq_error_iff {error : PatternError} :
    parse dialect source = .error error ↔ Tree.ofText dialect source.toList = .error error := by
  rw [parse]
  cases Tree.ofText dialect source.toList <;> simp [Except.map]

/-- An error is reported at a character of the pattern. -/
theorem offset_of_parse_eq_error {error : PatternError}
    (hparse : parse dialect source = .error error) :
    error.offset < Text.utf8Size source.toList ∧
      (Text.dropBytes? error.offset source.toList).isSome := by
  obtain ⟨lexemes, rest, htext, hreads, htokens, -, hfailure⟩ :=
    Lexeme.exists_reads_ofText dialect.classSyntax 0 source.toList
  have htree := parse_eq_error_iff.mp hparse
  cases error with
  | structural error =>
    obtain ⟨token, htoken, hoffset⟩ := Tree.exists_start_of_ofText_eq_error htree
    rw [htokens] at htoken
    have hlt := hreads.start_lt_stop_of_mem htoken
    obtain ⟨front, back, hcut, hspan⟩ :
        Text.Covers ([] ++ (Lexeme.textOf lexemes ++ rest)) token.span token.text :=
      Lexeme.covers_of_mem_place htoken
    rw [List.nil_append, ← htext] at hcut
    rw [hspan] at hlt hoffset
    rw [PatternError.offset, hoffset, hcut]
    refine Text.lt_and_isSome_dropBytes? front fun hnil => ?_
    rw [(List.append_eq_nil_iff.mp hnil).1] at hlt
    exact Nat.lt_irrefl _ hlt
  | lexical error =>
    obtain ⟨hscan, -⟩ := Tree.ofText_eq_lexical_iff.mp htree
    obtain ⟨char, after, fault, rfl, hread, rfl⟩ := hfailure error hscan
    obtain ⟨hplace, front, hcut⟩ := Scan.liesIn_of_readToken_eq_error hread
    have hoffset : 0 + Lexeme.size lexemes +
        (Text.utf8Size (char :: after) - Text.utf8Size fault.place) =
          Text.utf8Size (Lexeme.textOf lexemes ++ front) := by
      rw [← hcut, Text.utf8Size_append, Text.utf8Size_append, Nat.add_sub_cancel, Lexeme.size,
        Nat.zero_add]
    rw [PatternError.offset, hoffset, htext, ← hcut, ← List.append_assoc]
    exact Text.lt_and_isSome_dropBytes? _ hplace

/-- Of a lexical error and a structural one the earlier one is reported. The lexical one is
    reported exactly where the tokens before it make a pattern together with a closing parenthesis
    for each group that they leave open; else the error is one of these tokens. Each error is
    reported at a character of the pattern, and a builder that reads one token ahead reports the
    same. -/
theorem parse_ranks_errors (dialect : Dialect) (source : String) :
    (∀ error, (tokenize dialect.classSyntax source).failure = some error →
      ∃ front rest, source.toList = front ++ rest ∧
        Text.utf8Size front = (tokenize dialect.classSyntax source).stop ∧
        Scan.ofText dialect.classSyntax (Text.utf8Size front) rest = ⟨[], some error⟩ ∧
        ((∃ pattern, parse dialect (String.ofList (front ++
            List.replicate (tokenize dialect.classSyntax source).depth ')')) = .ok pattern) →
          parse dialect source = .error (.lexical error)) ∧
        ((¬ ∃ pattern, parse dialect (String.ofList (front ++
            List.replicate (tokenize dialect.classSyntax source).depth ')')) = .ok pattern) →
          ∃ earlier, parse dialect source = .error (.structural earlier) ∧
            ∃ token ∈ (tokenize dialect.classSyntax source).tokens,
              earlier.offset = token.span.start)) ∧
    ((tokenize dialect.classSyntax source).failure = none →
      ∀ error, parse dialect source ≠ .error (.lexical error)) ∧
    (∀ error, parse dialect source = .error error →
      error.offset < Text.utf8Size source.toList ∧
        (Text.dropBytes? error.offset source.toList).isSome) ∧
    (Text.DigitsFit source.toList →
      (tokenize dialect.classSyntax source).tokens.countP (·.role.isNumbered) < 0xffffffff →
      Builder.build? dialect source =
        some ((parse dialect source).mapError PatternError.report)) := by
  refine ⟨?_, ?_, fun _ => offset_of_parse_eq_error, Builder.build?_eq dialect source⟩
  · intro error hfailure
    obtain ⟨lexemes, rest, htext, hreads, htokens, -, hrest⟩ :=
      Lexeme.exists_reads_ofText dialect.classSyntax 0 source.toList
    obtain ⟨char, after, fault, rfl, hread, herror⟩ := hrest error hfailure
    have hplaced : (tokenize dialect.classSyntax source).tokens = Lexeme.place 0 lexemes := htokens
    have hstop : (tokenize dialect.classSyntax source).stop = Lexeme.size lexemes := by
      rw [Scan.stop, hplaced, Lexeme.stop_getLast?_place, Nat.zero_add]
    have hdepth : (tokenize dialect.classSyntax source).depth =
        TokenRole.depth (lexemes.map Lexeme.role) := by
      rw [Scan.depth, hplaced, Lexeme.roles_place]
    have hfirst : ∀ next ∈ (char :: after).head?, next ≠ '=' ∧ next ≠ '!' := by
      intro next hnext
      obtain rfl : char = next := by simpa using hnext
      obtain rfl | rfl | rfl := Scan.first_of_readToken_eq_error hread <;> decide
    have hclosed := Tree.exists_ofText_closed_iff dialect hreads hfirst
    refine ⟨Lexeme.textOf lexemes, char :: after, htext, hstop.symm, ?_, ?_, ?_⟩
    · rw [Scan.ofText_of_error hread, herror, Nat.zero_add]
      rfl
    · rw [exists_parse_ofList_iff, hdepth, hclosed, ← htokens]
      intro hrun
      exact parse_eq_error_iff.mpr (Tree.ofText_eq_lexical_iff.mpr ⟨hfailure, hrun⟩)
    · rw [exists_parse_ofList_iff, hdepth, hclosed, ← htokens]
      intro hnone
      cases hrun : ParseState.run dialect {}
        (Scan.ofText dialect.classSyntax 0 source.toList).tokens with
      | ok state => exact absurd ⟨state, hrun⟩ hnone
      | error earlier =>
        exact ⟨earlier, parse_eq_error_iff.mpr (Tree.ofText_of_run_eq_error hrun),
          ParseState.exists_start_of_run_eq_error hrun⟩
  · intro hnone error hparse
    obtain ⟨hsome, -⟩ := Tree.ofText_eq_lexical_iff.mp (parse_eq_error_iff.mp hparse)
    cases hnone.symm.trans hsome

/-- Two patterns end in a bracket expression that is not closed. A group may be open before it, but
    not one that starts with a quantifier. -/
theorem parse_ranks_errors_open_class :
    (∃ pattern, parse {} "(a|)" = .ok pattern) ∧
      parse {} "(a|[b" = .error (.lexical ⟨.openClass, 3⟩) ∧
      (¬ ∃ pattern, parse {} "(*)" = .ok pattern) ∧
      ∃ earlier, parse {} "(*[b" = .error (.structural earlier) ∧ earlier.offset ≤ 1 := by
  have hclosed := exists_parse_eq_ok {} "(a|)" (by decide +kernel)
  have hbroken : ¬ ∃ pattern, parse {} "(*)" = .ok pattern := by
    rintro ⟨pattern, hparse⟩
    have hsome : (parse {} "(*)").toOption.isSome := by rw [hparse]; rfl
    revert hsome
    decide +kernel
  obtain ⟨front, rest, htext, hsize, -, hlexical, -⟩ :=
    (parse_ranks_errors {} "(a|[b").1 ⟨.openClass, 3⟩ (by decide +kernel)
  have hcut : "(a|[b".toList = ['(', 'a', '|'] ++ ['[', 'b'] := by decide
  obtain ⟨rfl, -⟩ := Text.append_inj_of_utf8Size_eq (htext.symm.trans hcut)
    (hsize.trans (by decide +kernel))
  obtain ⟨front', rest', htext', hsize', -, -, hstructural⟩ :=
    (parse_ranks_errors {} "(*[b").1 ⟨.openClass, 2⟩ (by decide +kernel)
  have hcut' : "(*[b".toList = ['(', '*'] ++ ['[', 'b'] := by decide
  obtain ⟨rfl, -⟩ := Text.append_inj_of_utf8Size_eq (htext'.symm.trans hcut')
    (hsize'.trans (by decide +kernel))
  have hdepth : (tokenize .pcre "(a|[b").depth = 1 := by decide +kernel
  have hdepth' : (tokenize .pcre "(*[b").depth = 1 := by decide +kernel
  rw [hdepth] at hlexical
  rw [hdepth'] at hstructural
  obtain ⟨earlier, hparse, token, htoken, hoffset⟩ := hstructural hbroken
  refine ⟨hclosed, hlexical hclosed, hbroken, earlier, hparse, ?_⟩
  have hstarts : ∀ token ∈ (tokenize .pcre "(*[b").tokens, token.span.start ≤ 1 := by
    decide +kernel
  exact hoffset ▸ hstarts token htoken

end Pattern

end PatternTree
