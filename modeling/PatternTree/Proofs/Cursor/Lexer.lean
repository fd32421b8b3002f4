import PatternTree.Proofs.Cursor.Token
import PatternTree.Proofs.Token.Faults

namespace PatternTree

namespace Scan

/-- What a text is cut into: its tokens, and the error behind them where there is one. -/
def items (scan : Scan) : List (Except LexReport Token) :=
  scan.tokens.map .ok ++ (scan.failure.map fun failure => .error failure.report).toList

@[simp] theorem items_cons (token : Token) (scan : Scan) :
    (scan.cons token).items = .ok token :: scan.items := rfl

end Scan

namespace Cursor

variable {chars rest : List Char} {char : Char} {classSyntax : ClassSyntax}

theorem nextToken_apply_nil (classSyntax : ClassSyntax) (chars : List Char) :
    nextToken classSyntax chars (Text.offsetOf chars []) =
      .done none (Text.offsetOf chars []) := by
  simp [nextToken, bump_apply_nil]

theorem nextToken_apply_error (hfits : Text.DigitsFit chars) (hsuffix : char :: rest <:+ chars)
    {fault : Fault} (hread : Scan.readToken classSyntax char rest = .error fault) :
    nextToken classSyntax chars (Text.offsetOf chars (char :: rest)) =
      .failed (LexError.report ⟨fault.cause, Text.offsetOf chars fault.place⟩) := by
  have htoken := (token_apply hfits hsuffix).trans (congrArg (·.outcome chars) hread)
  rw [Reading.outcome_error] at htoken
  simp [nextToken, bump_apply_cons hsuffix, htoken]

/-- The next token takes the text between the offset and the one behind it. -/
theorem nextToken_apply_ok {text after : List Char} (hfits : Text.DigitsFit chars)
    (hsuffix : char :: rest <:+ chars) {role : TokenRole}
    (hread : Scan.readToken classSyntax char rest = .ok (role, after))
    (htext : char :: rest = text ++ after) :
    nextToken classSyntax chars (Text.offsetOf chars (char :: rest)) =
      .done (some ⟨role, text, ⟨Text.offsetOf chars (char :: rest), Text.offsetOf chars after⟩⟩)
        (Text.offsetOf chars after) := by
  have htoken := (token_apply hfits hsuffix).trans (congrArg (·.outcome chars) hread)
  rw [Reading.outcome_ok] at htoken
  have hslice := slice_apply (htext ▸ hsuffix) (Text.offsetOf chars after)
  rw [← htext] at hslice
  simp [nextToken, bump_apply_cons hsuffix, htoken, hslice]

end Cursor

/-- A lexer between two of its answers. -/
structure Lexer where
  offset : Nat := 0
  /-- Whether nothing more is read, since the text has ended or an error has been reported. -/
  isDone : Bool := false

namespace Lexer

/-- Asks for the next item of a text. The result says what is answered, which is nothing behind
    the last item, and how the lexer stands then. There is none where the cursor breaks. -/
def next? (classSyntax : ClassSyntax) (chars : List Char) (lexer : Lexer) :
    Option (Option (Except LexReport Token) × Lexer) :=
  if lexer.isDone then some (none, lexer)
  else
    match Cursor.nextToken classSyntax chars lexer.offset with
    | .broken => none
    | .failed report => some (some (.error report), { lexer with isDone := true })
    | .done none offset => some (none, ⟨offset, true⟩)
    | .done (some token) offset => some (some (.ok token), ⟨offset, false⟩)

/-- The answers to the first `count` calls. -/
def answers? (classSyntax : ClassSyntax) (chars : List Char) (lexer : Lexer) :
    Nat → Option (List (Option (Except LexReport Token)))
  | 0 => some []
  | count + 1 => do
    let (answer, next) ← lexer.next? classSyntax chars
    let answers ← answers? classSyntax chars next count
    return answer :: answers

/-- The items that a lexer has still to answer with. -/
def Yields (classSyntax : ClassSyntax) (chars : List Char) (lexer : Lexer)
    (items : List (Except LexReport Token)) : Prop :=
  (lexer.isDone ∧ items = []) ∨
    ∃ rest, rest <:+ chars ∧ lexer = ⟨Text.offsetOf chars rest, false⟩ ∧
      items = (Scan.ofText classSyntax (Text.offsetOf chars rest) rest).items

theorem yields_start (classSyntax : ClassSyntax) (chars : List Char) :
    Yields classSyntax chars {} (Scan.ofText classSyntax 0 chars).items := by
  refine .inr ⟨chars, List.suffix_refl chars, ?_, ?_⟩ <;> rw [Text.offsetOf_self]

variable {classSyntax : ClassSyntax} {chars : List Char} {lexer : Lexer}
  {items : List (Except LexReport Token)}

/-- A lexer answers with the first of its items and has the others still to answer with. -/
theorem Yields.next? (hfits : Text.DigitsFit chars)
    (hyields : lexer.Yields classSyntax chars items) :
    ∃ next : Lexer, lexer.next? classSyntax chars = some (items.head?, next) ∧
      next.Yields classSyntax chars items.tail := by
  obtain ⟨hdone, rfl⟩ | ⟨rest, hsuffix, rfl, rfl⟩ := hyields
  · exact ⟨lexer, if_pos hdone, .inl ⟨hdone, rfl⟩⟩
  cases rest with
  | nil =>
    refine ⟨⟨Text.offsetOf chars [], true⟩, ?_, .inl ⟨rfl, ?_⟩⟩
    · simp [Lexer.next?, Cursor.nextToken_apply_nil, Scan.ofText_nil, Scan.items]
    · simp [Scan.ofText_nil, Scan.items]
  | cons char rest =>
    cases hread : Scan.readToken classSyntax char rest with
    | error fault =>
      have hoffset : Text.offsetOf chars (char :: rest) +
          (Text.utf8Size (char :: rest) - Text.utf8Size fault.place) =
            Text.offsetOf chars fault.place := by
        obtain ⟨body, hbody⟩ := (Scan.liesIn_of_readToken_eq_error hread).2
        rw [← hbody, Text.utf8Size_append, Nat.add_sub_cancel]
        exact (Text.offsetOf_of_append (hbody ▸ hsuffix)).symm
      refine ⟨⟨Text.offsetOf chars (char :: rest), true⟩, ?_, .inl ⟨rfl, ?_⟩⟩
      · simp [Lexer.next?, Cursor.nextToken_apply_error hfits hsuffix hread,
          Scan.ofText_of_error hread, hoffset, Scan.items]
      · simp [Scan.ofText_of_error hread, Scan.items]
    | ok read =>
      obtain ⟨role, after⟩ := read
      obtain ⟨body, hbody⟩ := Scan.exists_text_of_readToken hread
      have hstop := Text.offsetOf_of_append (hbody ▸ hsuffix)
      rw [← hbody] at hstop
      have hafter : after <:+ chars :=
        (hbody ▸ List.suffix_append (char :: body) after : after <:+ char :: rest).trans hsuffix
      refine ⟨⟨Text.offsetOf chars after, false⟩, ?_, .inr ⟨after, hafter, rfl, ?_⟩⟩
      · simp [Lexer.next?, Cursor.nextToken_apply_ok hfits hsuffix hread hbody,
          Scan.ofText_of_ok hread hbody, ← hstop]
      · simp [Scan.ofText_of_ok hread hbody, ← hstop]

/-- Calls are answered with the items one by one, and with nothing behind the last one. -/
theorem Yields.answers? (hfits : Text.DigitsFit chars)
    (hyields : lexer.Yields classSyntax chars items) (count : Nat) :
    lexer.answers? classSyntax chars count = some ((List.range count).map (items[·]?)) := by
  induction count generalizing lexer items with
  | zero => rfl
  | succ count ih =>
    obtain ⟨next, hnext, hyields'⟩ := hyields.next? hfits
    rw [List.range_succ_eq_map, List.map_cons, List.map_map]
    simp [Lexer.answers?, hnext, ih hyields', List.head?_eq_getElem?, Function.comp_def]

end Lexer

end PatternTree
