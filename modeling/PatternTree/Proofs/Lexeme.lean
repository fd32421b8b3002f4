import PatternTree.Token.Lexer

namespace PatternTree

/-- A token without its place. -/
structure Lexeme where
  role : TokenRole
  text : List Char
  deriving DecidableEq, Repr

/-- What remains of a token when its place is forgotten. -/
def Token.lexeme (token : Token) : Lexeme :=
  ⟨token.role, token.text⟩

namespace Lexeme

/-- The token of a lexeme that starts at an offset. -/
def token (offset : Nat) (lexeme : Lexeme) : Token :=
  ⟨lexeme.role, lexeme.text, ⟨offset, offset + Text.utf8Size lexeme.text⟩⟩

/-- The text of lexemes that stand one after the other. -/
def textOf (lexemes : List Lexeme) : List Char :=
  lexemes.flatMap text

/-- The number of bytes that lexemes take together. -/
def size (lexemes : List Lexeme) : Nat :=
  Text.utf8Size (textOf lexemes)

/-- The tokens of lexemes that stand one after the other from an offset on. -/
def place (offset : Nat) : List Lexeme → List Token
  | [] => []
  | lexeme :: lexemes =>
    lexeme.token offset :: place (offset + Text.utf8Size lexeme.text) lexemes

@[simp] theorem textOf_nil : textOf [] = [] := rfl

@[simp] theorem textOf_cons (lexeme : Lexeme) (lexemes : List Lexeme) :
    textOf (lexeme :: lexemes) = lexeme.text ++ textOf lexemes := rfl

@[simp] theorem textOf_append (front back : List Lexeme) :
    textOf (front ++ back) = textOf front ++ textOf back := by
  simp [textOf]

@[simp] theorem size_nil : size [] = 0 := rfl

@[simp] theorem size_cons (lexeme : Lexeme) (lexemes : List Lexeme) :
    size (lexeme :: lexemes) = Text.utf8Size lexeme.text + size lexemes := by
  simp [size]

@[simp] theorem size_append (front back : List Lexeme) :
    size (front ++ back) = size front + size back := by
  simp [size]

theorem place_append (offset : Nat) (front back : List Lexeme) :
    place offset (front ++ back) = place offset front ++ place (offset + size front) back := by
  induction front generalizing offset with
  | nil => simp [place]
  | cons lexeme front ih => simp [place, ih, Nat.add_assoc]

@[simp] theorem map_lexeme_place (offset : Nat) (lexemes : List Lexeme) :
    (place offset lexemes).map Token.lexeme = lexemes := by
  induction lexemes generalizing offset with
  | nil => rfl
  | cons lexeme lexemes ih => simp [place, ih, Token.lexeme, token]

/-- Each lexeme is what the lexer takes at its place when the later ones and then `rest`
    follow. -/
inductive Reads (classSyntax : ClassSyntax) (rest : List Char) : List Lexeme → Prop where
  | nil : Reads classSyntax rest []
  | cons {role : TokenRole} {char : Char} {chars : List Char} {lexemes : List Lexeme}
      (hread : Scan.readToken classSyntax char (chars ++ (textOf lexemes ++ rest)) =
        .ok (role, textOf lexemes ++ rest))
      (hlexemes : Reads classSyntax rest lexemes) :
      Reads classSyntax rest (⟨role, char :: chars⟩ :: lexemes)

variable {classSyntax : ClassSyntax}

/-- Lexemes that the lexer takes before a rest are the first tokens of the whole text. -/
theorem Reads.ofText_append {rest : List Char} {lexemes : List Lexeme}
    (hreads : Reads classSyntax rest lexemes) (offset : Nat) :
    Scan.ofText classSyntax offset (textOf lexemes ++ rest) =
      ⟨place offset lexemes ++ (Scan.ofText classSyntax (offset + size lexemes) rest).tokens,
        (Scan.ofText classSyntax (offset + size lexemes) rest).failure⟩ := by
  induction hreads generalizing offset with
  | nil => rfl
  | @cons role char chars lexemes hread _ ih =>
    have htext : char :: (chars ++ (textOf lexemes ++ rest)) =
        (char :: chars) ++ (textOf lexemes ++ rest) := rfl
    rw [textOf_cons, List.cons_append, List.cons_append, List.append_assoc,
      Scan.ofText_of_ok hread htext, ih, size_cons, Nat.add_assoc]
    rfl

/-- Lexemes that the lexer takes one after the other are the tokens of their text. -/
theorem Reads.ofText_eq {lexemes : List Lexeme} (hreads : Reads classSyntax [] lexemes)
    (offset : Nat) :
    Scan.ofText classSyntax offset (textOf lexemes) = ⟨place offset lexemes, none⟩ := by
  have hscan := hreads.ofText_append offset
  rwa [List.append_nil, Scan.ofText_nil, List.append_nil] at hscan

/-- The lexer takes lexemes up to the end of a text, or up to a place at which it fails. -/
theorem exists_reads (classSyntax : ClassSyntax) (chars : List Char) :
    ∃ lexemes rest, chars = textOf lexemes ++ rest ∧ Reads classSyntax rest lexemes ∧
      (rest = [] ∨ ∃ char after fault, rest = char :: after ∧
        Scan.readToken classSyntax char after = .error fault) := by
  induction hlength : chars.length using Nat.strongRecOn generalizing chars with
  | ind length ih =>
    subst hlength
    cases chars with
    | nil => exact ⟨[], [], rfl, .nil, .inl rfl⟩
    | cons char chars =>
      cases hread : Scan.readToken classSyntax char chars with
      | error fault => exact ⟨[], char :: chars, rfl, .nil, .inr ⟨char, chars, fault, rfl, hread⟩⟩
      | ok read =>
        obtain ⟨role, after⟩ := read
        obtain ⟨body, hbody⟩ := Scan.exists_text_of_readToken hread
        obtain ⟨rfl⟩ : chars = body ++ after := by simpa using hbody
        have hshorter : after.length < (char :: (body ++ after)).length := by
          rw [List.length_cons, List.length_append]
          omega
        obtain ⟨lexemes, rest, rfl, hreads, hrest⟩ := ih _ hshorter after rfl
        exact ⟨⟨role, char :: body⟩ :: lexemes, rest, by simp, .cons hread hreads, hrest⟩

/-- The tokens of a text are lexemes that stand one after the other from its start on. Without a
    failure nothing is left behind them, and a failure is that of the token that starts there. -/
theorem exists_reads_ofText (classSyntax : ClassSyntax) (offset : Nat) (chars : List Char) :
    ∃ lexemes rest, chars = textOf lexemes ++ rest ∧ Reads classSyntax rest lexemes ∧
      (Scan.ofText classSyntax offset chars).tokens = place offset lexemes ∧
      ((Scan.ofText classSyntax offset chars).failure = none → rest = []) ∧
      ∀ failure, (Scan.ofText classSyntax offset chars).failure = some failure →
        ∃ char after fault, rest = char :: after ∧
          Scan.readToken classSyntax char after = .error fault ∧
          failure = ⟨fault.cause, offset + size lexemes +
            (Text.utf8Size rest - Text.utf8Size fault.place)⟩ := by
  obtain ⟨lexemes, rest, rfl, hreads, hrest⟩ := exists_reads classSyntax chars
  refine ⟨lexemes, rest, rfl, hreads, ?_⟩
  rw [hreads.ofText_append]
  obtain rfl | ⟨char, after, fault, rfl, hread⟩ := hrest
  · rw [Scan.ofText_nil, List.append_nil]
    exact ⟨rfl, fun _ => rfl, nofun⟩
  · rw [Scan.ofText_of_error hread, List.append_nil]
    refine ⟨rfl, nofun, fun failure hfailure => ?_⟩
    cases hfailure
    exact ⟨char, after, fault, rfl, hread, rfl⟩

/-- A scan without a failure reads all of the text. -/
theorem exists_reads_of_failure_eq_none {offset : Nat} {chars : List Char}
    (hscan : (Scan.ofText classSyntax offset chars).failure = none) :
    ∃ lexemes, textOf lexemes = chars ∧ Reads classSyntax [] lexemes ∧
      (Scan.ofText classSyntax offset chars).tokens = place offset lexemes := by
  obtain ⟨lexemes, rest, htext, hreads, htokens, hrest, -⟩ :=
    exists_reads_ofText classSyntax offset chars
  obtain rfl := hrest hscan
  exact ⟨lexemes, by simp [htext], hreads, htokens⟩

theorem Reads.of_append {rest : List Char} {front back : List Lexeme}
    (hreads : Reads classSyntax rest (front ++ back)) : Reads classSyntax rest back := by
  induction front with
  | nil => exact hreads
  | cons lexeme front ih =>
    cases hreads with
    | cons _ hlexemes => exact ih hlexemes

/-- Lexemes are read also when those behind them count as further text. -/
theorem Reads.of_append_left {rest : List Char} {front back : List Lexeme}
    (hreads : Reads classSyntax rest (front ++ back)) :
    Reads classSyntax (textOf back ++ rest) front := by
  induction front with
  | nil => exact .nil
  | cons lexeme front ih =>
    cases hreads with
    | cons hread hlexemes =>
      have htext : textOf (front.append back) = textOf front ++ textOf back :=
        textOf_append front back
      rw [htext, List.append_assoc] at hread
      exact .cons hread (ih hlexemes)

/-- Lexemes are read before others that are read behind them. -/
theorem Reads.append {rest : List Char} {front back : List Lexeme}
    (hfront : Reads classSyntax (textOf back ++ rest) front) (hback : Reads classSyntax rest back) :
    Reads classSyntax rest (front ++ back) := by
  induction hfront with
  | nil => exact hback
  | cons hread _ ih =>
    refine .cons ?_ ih
    simpa using hread

end Lexeme

end PatternTree
