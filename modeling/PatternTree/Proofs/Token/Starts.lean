import PatternTree.Proofs.Token.Tiles

namespace PatternTree

namespace Lexeme

variable {classSyntax : ClassSyntax} {front chars : List Char} {char : Char} {token : Token}

/-- A token is read from its text. -/
theorem Reads.exists_readToken_of_mem {rest : List Char} {lexemes : List Lexeme}
    (hreads : Reads classSyntax rest lexemes) {offset : Nat}
    (htoken : token ∈ place offset lexemes) :
    ∃ first body after, token.text = first :: body ∧
      Scan.readToken classSyntax first (body ++ after) = .ok (token.role, after) := by
  induction hreads generalizing offset with
  | nil => cases htoken
  | cons hread _ ih =>
    obtain rfl | htoken := List.mem_cons.mp htoken
    · exact ⟨_, _, _, rfl, hread⟩
    · exact ih htoken

/-- The lexer takes the whole text in front of a token, and it reads the token from what follows. -/
theorem exists_reads_of_start
    (htoken : token ∈ (Scan.ofText classSyntax 0 (front ++ char :: chars)).tokens)
    (hstart : token.span.start = Text.utf8Size front) :
    ∃ lexemes body rest, textOf lexemes = front ∧ Reads classSyntax (char :: chars) lexemes ∧
      chars = body ++ rest ∧
      Scan.readToken classSyntax char (body ++ rest) = .ok (token.role, rest) ∧
      token = ⟨token.role, char :: body,
        ⟨Text.utf8Size front, Text.utf8Size front + Text.utf8Size (char :: body)⟩⟩ := by
  obtain ⟨lexemes, left, htext, hreads, hplaced, -⟩ :=
    exists_reads_ofText classSyntax 0 (front ++ char :: chars)
  rw [hplaced] at htoken
  obtain ⟨before, later, hsplit⟩ := List.append_of_mem htoken
  obtain ⟨taken, behind, rfl, rfl, hbehind⟩ := exists_of_place_eq_append hsplit
  cases behind with
  | nil => cases hbehind
  | cons lexeme behind =>
    obtain ⟨rfl, rfl⟩ := List.cons.inj hbehind
    have hsize : Text.utf8Size (textOf taken) = Text.utf8Size front := by
      rw [← hstart]
      exact (Nat.zero_add _).symm
    rw [textOf_append, List.append_assoc] at htext
    -- Two cuts of one text behind equally many bytes are the same cut.
    obtain ⟨htaken, hrest⟩ := Text.append_inj_of_utf8Size_eq htext.symm hsize
    have hbehind := hreads.of_append
    have hfront := hreads.of_append_left
    rw [hrest] at hfront
    cases hbehind with
    | @cons role first body _ hread _ =>
      rw [textOf_cons, List.append_assoc, List.cons_append] at hrest
      obtain ⟨rfl, rfl⟩ := List.cons.inj hrest
      refine ⟨taken, body, textOf behind ++ left, htaken, hfront, rfl, hread, ?_⟩
      rw [← hsize, ← Nat.zero_add (Text.utf8Size (textOf taken))]
      rfl

end Lexeme

namespace Scan

variable {classSyntax : ClassSyntax} {front body rest : List Char} {char : Char}

/-- The token that starts at an offset is the one that is read from what stands there. -/
theorem eq_of_start {role : TokenRole} {token : Token}
    (hread : readToken classSyntax char (body ++ rest) = .ok (role, rest))
    (htoken : token ∈ (ofText classSyntax 0 (front ++ char :: (body ++ rest))).tokens)
    (hstart : token.span.start = Text.utf8Size front) :
    token = ⟨role, char :: body,
      ⟨Text.utf8Size front, Text.utf8Size front + Text.utf8Size (char :: body)⟩⟩ := by
  obtain ⟨-, body', rest', -, -, htext, hread', htoken'⟩ :=
    Lexeme.exists_reads_of_start htoken hstart
  rw [← htext] at hread'
  obtain ⟨hrole, rfl⟩ := Prod.mk.inj (Except.ok.inj (hread.symm.trans hread'))
  obtain rfl := List.append_cancel_right htext
  rw [htoken', ← hrole]

end Scan

end PatternTree
