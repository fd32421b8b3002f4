import PatternTree.Proofs.Shift
import PatternTree.Proofs.Token.Starts
import PatternTree.Proofs.Token.Truncation

namespace PatternTree

/-- A token further to the right. -/
def Token.shift (offset : Nat) (token : Token) : Token :=
  { token with span := token.span.shift offset }

/-- A lexical error further to the right. -/
def LexError.shift (offset : Nat) (error : LexError) : LexError :=
  { error with offset := offset + error.offset }

/-- A scan of which every place lies further to the right. -/
def Scan.shift (offset : Nat) (scan : Scan) : Scan :=
  ⟨scan.tokens.map (Token.shift offset), scan.failure.map (LexError.shift offset)⟩

namespace Lexeme

/-- Lexemes that stand further to the right are tokens further to the right. -/
theorem place_add (offset start : Nat) (lexemes : List Lexeme) :
    place (offset + start) lexemes = (place start lexemes).map (Token.shift offset) := by
  induction lexemes generalizing start with
  | nil => rfl
  | cons lexeme lexemes ih =>
    have htoken : lexeme.token (offset + start) = (lexeme.token start).shift offset := by
      simp only [token, Token.shift, Span.shift, Nat.add_assoc]
    rw [place, place, List.map_cons, htoken, Nat.add_assoc, ih]

end Lexeme

namespace Scan

variable {classSyntax : ClassSyntax}

/-- Where a text starts makes no difference to what is read in it. -/
theorem ofText_add (classSyntax : ClassSyntax) (offset start : Nat) (chars : List Char) :
    ofText classSyntax (offset + start) chars = (ofText classSyntax start chars).shift offset := by
  obtain ⟨lexemes, rest, rfl, hreads, hrest⟩ := Lexeme.exists_reads classSyntax chars
  rw [hreads.ofText_append, hreads.ofText_append, Lexeme.place_add]
  obtain rfl | ⟨char, after, fault, rfl, hread⟩ := hrest
  · simp only [ofText_nil, shift, List.map_append, List.map_nil, Option.map_none]
  · simp only [ofText_of_error hread, shift, List.map_append, List.map_nil, Option.map_some,
      LexError.shift, Nat.add_assoc]

/-- A token is all there is in its own text. Nothing follows there that it could look for, and the
    question mark that an opener leaves alone is missing. -/
theorem ofText_text {chars : List Char} {token : Token}
    (htoken : token ∈ (ofText classSyntax 0 chars).tokens) :
    ofText classSyntax 0 token.text =
      ⟨[{ token with span := ⟨0, Text.utf8Size token.text⟩ }], none⟩ := by
  obtain ⟨lexemes, rest, -, hreads, hplaced, -⟩ := Lexeme.exists_reads_ofText classSyntax 0 chars
  rw [hplaced] at htoken
  obtain ⟨first, body, after, htext, hread⟩ := hreads.exists_readToken_of_mem htoken
  have halone := readToken_of_prefix hread List.nil_prefix (by simp)
  rw [List.append_nil] at halone
  have hscan := ofText_of_ok halone (List.append_nil (first :: body)).symm 0
  rw [htext, hscan, ofText_nil, Nat.zero_add]
  rfl

/-- The tokens from one of them on are those of the text from there on, which fails as the whole
    text does. -/
theorem ofText_suffix {chars : List Char} {earlier later : List Token} {token : Token}
    (htokens : (ofText classSyntax 0 chars).tokens = earlier ++ token :: later) :
    ∃ front back, chars = front ++ back ∧ Text.utf8Size front = token.span.start ∧
      ofText classSyntax (Text.utf8Size front) back =
        ⟨token :: later, (ofText classSyntax 0 chars).failure⟩ := by
  obtain ⟨lexemes, rest, rfl, hreads, hplaced, -⟩ := Lexeme.exists_reads_ofText classSyntax 0 chars
  obtain ⟨before, behind, rfl, rfl, hbehind⟩ :=
    Lexeme.exists_of_place_eq_append (hplaced.symm.trans htokens)
  have hstart : Lexeme.size before = token.span.start := by
    cases behind with
    | nil => cases hbehind
    | cons lexeme behind =>
      obtain ⟨rfl, -⟩ := List.cons.inj hbehind
      exact (Nat.zero_add _).symm
  have hscan := hreads.of_append_left.ofText_append 0
  rw [Nat.zero_add] at hscan
  rw [Lexeme.textOf_append, List.append_assoc] at htokens ⊢
  refine ⟨Lexeme.textOf before, _, rfl, hstart, ?_⟩
  rw [hscan] at htokens ⊢
  have hlater := List.append_cancel_left htokens
  rw [← hlater]
  rfl

end Scan

/-- Tokens do not depend on what stands around them. The text of a token alone is that one token and
    no failure. What stands from the start of a token on is the token and the later ones and fails
    as the pattern does, each of them as many bytes further to the left as the token starts behind
    the start of the pattern. -/
theorem tokenize_local {classSyntax : ClassSyntax} {pattern : String} {earlier later : List Token}
    {token : Token}
    (htokens : (tokenize classSyntax pattern).tokens = earlier ++ token :: later) :
    tokenize classSyntax (String.ofList token.text) =
        ⟨[{ token with span := ⟨0, Text.utf8Size token.text⟩ }], none⟩ ∧
      ∃ back, Text.dropBytes? token.span.start pattern.toList = some back ∧
        (tokenize classSyntax (String.ofList back)).shift token.span.start =
          ⟨token :: later, (tokenize classSyntax pattern).failure⟩ := by
  simp only [tokenize, String.toList_ofList] at htokens ⊢
  have hmem : token ∈ (Scan.ofText classSyntax 0 pattern.toList).tokens := by
    rw [htokens]
    exact List.mem_append_right earlier List.mem_cons_self
  refine ⟨Scan.ofText_text hmem, ?_⟩
  obtain ⟨front, back, hchars, hstart, hscan⟩ := Scan.ofText_suffix htokens
  refine ⟨back, ?_, ?_⟩
  · rw [← hstart, hchars, Text.dropBytes?_utf8Size]
  · rw [← hstart, ← Scan.ofText_add, Nat.add_zero, hscan]

/-- The class `[[:alpha]` ends before the `:]` that could make a name of it, and behind it stand a
    parenthesis that leaves its question mark alone and an escape that is none. -/
theorem tokenize_local_unclosed_name : ∃ token : Token,
    token.text = "[[:alpha]".toList ∧ token.span = ⟨2, 11⟩ ∧
      (tokenize .pcre "é[[:alpha]:](?=\\q").tokens =
        (tokenize .pcre "é[[:alpha]:](?=\\q").tokens.take 1 ++
          token :: (tokenize .pcre "é[[:alpha]:](?=\\q").tokens.drop 2 ∧
      tokenize .pcre (String.ofList token.text) =
        ⟨[{ token with span := ⟨0, Text.utf8Size token.text⟩ }], none⟩ ∧
      ∃ back, Text.dropBytes? token.span.start "é[[:alpha]:](?=\\q".toList = some back ∧
        (tokenize .pcre (String.ofList back)).shift token.span.start =
          ⟨token :: (tokenize .pcre "é[[:alpha]:](?=\\q").tokens.drop 2,
            (tokenize .pcre "é[[:alpha]:](?=\\q").failure⟩ := by
  have htokens : (tokenize .pcre "é[[:alpha]:](?=\\q").tokens =
      (tokenize .pcre "é[[:alpha]:](?=\\q").tokens.take 1 ++
        ⟨.atom (.charClass ⟨false, "[:alpha".toList.map .single⟩), "[[:alpha]".toList, ⟨2, 11⟩⟩ ::
          (tokenize .pcre "é[[:alpha]:](?=\\q").tokens.drop 2 := by
    decide +kernel
  exact ⟨_, rfl, rfl, htokens, tokenize_local htokens⟩

end PatternTree
