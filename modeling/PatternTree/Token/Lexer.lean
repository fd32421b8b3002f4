import PatternTree.Text.Utf8
import PatternTree.Token.Bracket

namespace PatternTree

/-- The tokens of a pattern up to its end, or up to the first failure. -/
structure Scan where
  tokens : List Token
  failure : Option LexError
  deriving DecidableEq, Repr

namespace Scan

/-- The scan with one more token in front. -/
def cons (token : Token) (scan : Scan) : Scan :=
  { scan with tokens := token :: scan.tokens }

/-- Reads what follows an opening parenthesis and belongs to it. A question mark that starts
    none of the known forms is left for the next token. -/
def readOpener : List Char → Reading LexCause Opener
  | '?' :: ':' :: rest => .ok (.nonCapturing, rest)
  | '?' :: 'P' :: '<' :: rest => (Escape.readName '>' rest).convert .named
  | '?' :: '\'' :: rest => (Escape.readName '\'' rest).convert .named
  | '?' :: '<' :: rest =>
    if rest.head? = some '=' || rest.head? = some '!' then .ok (.capturing, '?' :: '<' :: rest)
    else (Escape.readName '>' rest).convert .named
  | chars => .ok (.capturing, chars)

/-- Reads what follows an opening brace when counts and the closing brace stand there. -/
def readCounts? (chars : List Char) : Option (Counts × List Char) :=
  let lower := chars.takeWhile Char.isDigit
  if lower.isEmpty then none
  else
    match chars.dropWhile Char.isDigit with
    | '\x7d' :: rest => some (.exactly lower, rest)
    | ',' :: after =>
      let upper := after.takeWhile Char.isDigit
      match after.dropWhile Char.isDigit with
      | '\x7d' :: rest =>
        some (if upper.isEmpty then .atLeast lower else .between lower upper, rest)
      | _ => none
    | _ => none

/-- The tokens that one character makes, whatever follows it. -/
def simple? : Char → Option TokenRole
  | '.' => some (.atom .dot)
  | '^' => some (.atom (.anchor .startLine))
  | '$' => some (.atom (.anchor .endLine))
  | '|' => some .bar
  | '*' => some (.quantifier .star)
  | '+' => some (.quantifier .plus)
  | '?' => some (.quantifier .optional)
  | ')' => some .closer
  | _ => none

/-- Reads the token whose first character is `char`. -/
def readToken (classSyntax : ClassSyntax) (char : Char) (chars : List Char) :
    Reading Fault TokenRole :=
  match simple? char with
  | some role => .ok (role, chars)
  | none =>
    match char with
    | '(' => ((readOpener chars).placed (char :: chars)).convert .opener
    | '[' =>
      (Bracket.read classSyntax (char :: chars) chars).convert fun charClass =>
        .atom (.charClass charClass)
    | '\\' => ((Escape.read chars).placed (char :: chars)).convert .atom
    | '\x7b' =>
      match readCounts? chars with
      | some (counts, rest) => .ok (.quantifier (.counted counts), rest)
      | none => .ok (.atom (.literal char), chars)
    | _ => .ok (.atom (.literal char), chars)

theorem readOpener_leavesEnd (chars : List Char) : LeavesEnd chars (readOpener chars) := by
  have hname := fun closer rest => (Escape.readName_leavesEnd closer rest).convert Opener.named
  have htwo : ∀ (a b : Char) (rest : List Char), rest <:+ a :: b :: rest :=
    fun _ _ _ => (List.suffix_cons _ _).trans (List.suffix_cons _ _)
  unfold readOpener
  split
  · exact .ok (htwo _ _ _)
  · exact (hname _ _).of_suffix ((htwo _ _ _).trans (List.suffix_cons _ _))
  · exact (hname _ _).of_suffix (htwo _ _ _)
  · split
    · exact .ok (List.suffix_refl _)
    · exact (hname _ _).of_suffix (htwo _ _ _)
  · exact .ok (List.suffix_refl _)

theorem suffix_of_readCounts?_eq_some {chars rest : List Char} {counts : Counts}
    (hread : readCounts? chars = some (counts, rest)) : rest <:+ chars := by
  have hafter := List.dropWhile_suffix (l := chars) Char.isDigit
  simp only [readCounts?] at hread
  split at hread
  · cases hread
  · split at hread
    next rest' hrest =>
      cases hread
      rw [hrest] at hafter
      exact (List.suffix_cons _ _).trans hafter
    next after hrest =>
      rw [hrest] at hafter
      split at hread
      next rest' hrest' =>
        cases hread
        have hupper := List.dropWhile_suffix (l := after) Char.isDigit
        rw [hrest'] at hupper
        exact (((List.suffix_cons _ _).trans hupper).trans (List.suffix_cons _ _)).trans hafter
      · cases hread
    · cases hread

/-- Reading a token moves on in the text. -/
theorem readToken_leavesEnd (classSyntax : ClassSyntax) (char : Char) (chars : List Char) :
    LeavesEnd chars (readToken classSyntax char chars) := by
  unfold readToken
  split
  · exact .ok (List.suffix_refl _)
  · split
    · exact ((readOpener_leavesEnd _).placed _).convert _
    · exact (Bracket.read_leavesEnd _ _ _).convert _
    · exact ((Escape.read_leavesEnd _).placed _).convert _
    · split
      next counts rest hread => exact .ok (suffix_of_readCounts?_eq_some hread)
      · exact .ok (List.suffix_refl _)
    · exact .ok (List.suffix_refl _)

/-- Scans a text whose first byte has the given offset. A token covers what its reading took
    from the text, and a failure ends the scan. -/
def ofText (classSyntax : ClassSyntax) (offset : Nat) : List Char → Scan
  | [] => ⟨[], none⟩
  | char :: chars =>
    match _ : readToken classSyntax char chars with
    | .error fault =>
      let before := Text.utf8Size (char :: chars) - Text.utf8Size fault.place
      ⟨[], some ⟨fault.cause, offset + before⟩⟩
    | .ok (role, rest) =>
      let text := (char :: chars).take ((char :: chars).length - rest.length)
      let stop := offset + Text.utf8Size text
      (ofText classSyntax stop rest).cons ⟨role, text, ⟨offset, stop⟩⟩
termination_by chars => chars.length
decreasing_by
  have := (readToken_leavesEnd classSyntax char chars).length_le ‹_ = _›
  simp only [List.length_cons]
  omega

theorem ofText_nil (classSyntax : ClassSyntax) (offset : Nat) :
    ofText classSyntax offset [] = ⟨[], none⟩ := by
  rw [ofText]

/-- A failure ends the scan, and its place is counted in bytes. -/
theorem ofText_of_error {classSyntax : ClassSyntax} {char : Char} {chars : List Char}
    {fault : Fault} (hread : readToken classSyntax char chars = .error fault) (offset : Nat) :
    ofText classSyntax offset (char :: chars) =
      ⟨[], some ⟨fault.cause,
        offset + (Text.utf8Size (char :: chars) - Text.utf8Size fault.place)⟩⟩ := by
  rw [ofText]
  split <;> simp_all

/-- A token covers exactly the text that its reading took, and the scan goes on behind it. -/
theorem ofText_of_ok {classSyntax : ClassSyntax} {char : Char} {chars text rest : List Char}
    {role : TokenRole} (hread : readToken classSyntax char chars = .ok (role, rest))
    (htext : char :: chars = text ++ rest) (offset : Nat) :
    ofText classSyntax offset (char :: chars) =
      (ofText classSyntax (offset + Text.utf8Size text) rest).cons
        ⟨role, text, ⟨offset, offset + Text.utf8Size text⟩⟩ := by
  have htake : (char :: chars).take ((char :: chars).length - rest.length) = text := by
    rw [htext, List.length_append, Nat.add_sub_cancel, List.take_left']
    rfl
  rw [ofText]
  split
  next hread' => simp [hread] at hread'
  next hread' =>
    rw [hread] at hread'
    cases hread'
    simp only [htake]

/-- What a token's reading takes from the text is not empty. -/
theorem exists_text_of_readToken {classSyntax : ClassSyntax} {char : Char}
    {chars rest : List Char} {role : TokenRole}
    (hread : readToken classSyntax char chars = .ok (role, rest)) :
    ∃ body, char :: chars = (char :: body) ++ rest := by
  obtain ⟨body, hbody⟩ := readToken_leavesEnd classSyntax char chars role rest hread
  exact ⟨body, by simp [hbody]⟩

end Scan

/-- The tokens of a pattern. -/
def tokenize (classSyntax : ClassSyntax) (pattern : String) : Scan :=
  Scan.ofText classSyntax 0 pattern.toList

end PatternTree
