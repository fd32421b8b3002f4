import PatternTree.Proofs.Builder
import PatternTree.Proofs.Grammar
import PatternTree.Proofs.Lexeme
import PatternTree.Proofs.Token.Spelling

namespace PatternTree

/-- Reads on through items: tokens, and at the end an error or nothing. -/
def ParseState.read (dialect : Dialect) (size : Nat) (state : ParseState) :
    List (Except LexReport Token) → Except PatternReport Tree
  | [] => (state.finish size).mapError .structural
  | .error report :: _ => .error (.lexical report)
  | .ok token :: items =>
    match state.step dialect token with
    | .error cause => .error (.structural ⟨cause, token.span.start⟩)
    | .ok next => next.read dialect size items

namespace Builder

/-- What is still to come from an offset on: tokens, and an error behind them or the end. -/
structure Prospect where
  start : Nat
  lexemes : List Lexeme
  failure : Option LexReport

namespace Prospect

/-- The items of what is still to come. -/
def items (ahead : Prospect) : List (Except LexReport Token) :=
  (Lexeme.place ahead.start ahead.lexemes).map .ok ++ (ahead.failure.map .error).toList

variable (start : Nat) (lexeme : Lexeme) (lexemes : List Lexeme) (failure : Option LexReport)

/-- What is still to come behind a lexeme. -/
def behind : Prospect :=
  ⟨start + Text.utf8Size lexeme.text, lexemes, failure⟩

@[simp] theorem items_nil : items ⟨start, [], none⟩ = [] := rfl

@[simp] theorem items_failure (report : LexReport) :
    items ⟨start, [], some report⟩ = [.error report] := rfl

@[simp] theorem items_cons :
    items ⟨start, lexeme :: lexemes, failure⟩ =
      .ok (lexeme.token start) :: (behind start lexeme lexemes failure).items := rfl

/-- The token that comes next, or that none comes since the text ends. -/
inductive Sees : Prospect → Option Token → Prop where
  | nothing (start : Nat) : Sees ⟨start, [], none⟩ none
  | token (start : Nat) (lexeme : Lexeme) (lexemes : List Lexeme) (failure : Option LexReport) :
      Sees ⟨start, lexeme :: lexemes, failure⟩ (some (lexeme.token start))

end Prospect

/-- The tree that a state comes to behind the tokens that are still to come. -/
def Task.read (task : Task) (state : ParseState) (ahead : Prospect) : Except PatternReport Tree :=
  state.read task.dialect (Text.utf8Size task.chars) ahead.items

/-- The tree that a step comes to for a token at an offset, which the state may refuse. -/
def Task.resume (task : Task) (offset : Nat) (ahead : Prospect) :
    Except ParseCause ParseState → Except PatternReport Tree
  | .error cause => .error (.structural ⟨cause, offset⟩)
  | .ok state => task.read state ahead

theorem Task.read_cons (task : Task) (state : ParseState) (start : Nat) (lexeme : Lexeme)
    (lexemes : List Lexeme) (failure : Option LexReport) :
    task.read state ⟨start, lexeme :: lexemes, failure⟩ =
      task.resume start (.behind start lexeme lexemes failure)
        (state.step task.dialect (lexeme.token start)) := by
  rw [read, Prospect.items_cons, ParseState.read]
  cases state.step task.dialect (lexeme.token start) <;> rfl

/-- The items that a builder has still to get, of which it may have seen the first. -/
def Expects (task : Task) (builder : Builder) (items : List (Except LexReport Token)) : Prop :=
  match builder.lookahead with
  | none => builder.lexer.Yields task.dialect.classSyntax task.chars items
  | some token =>
    ∃ later, items = .ok token :: later ∧
      builder.lexer.Yields task.dialect.classSyntax task.chars later

/-- How a builder stands: what it has still to get, the next free number, the names that have been
    given, and the trees that nothing joins so far. -/
structure Stands (task : Task) (ahead : Prospect) (number : Nat) (names : List String)
    (trees : List Tree) (builder : Builder) : Prop where
  digits : Text.DigitsFit task.chars
  expects : builder.Expects task ahead.items
  lastStop : builder.lastStop = ahead.start
  ends : ahead.failure = none →
    ahead.start + Lexeme.size ahead.lexemes = Text.utf8Size task.chars
  spells : ∀ lexeme ∈ ahead.lexemes, lexeme.role.Spells lexeme.text
  nextNumber : builder.nextNumber = number
  room : number + Lexeme.numbered ahead.lexemes ≤ 0xffffffff
  names : builder.names = names
  draft : builder.draft = .ofForest trees

end Builder

namespace Build

open Work Builder

variable {task : Task} {ahead : Prospect} {number : Nat} {names : List String}
  {trees : List Tree} {builder : Builder} {state : ParseState}
  {expected : Except PatternReport Tree}

/-- A builder sees what comes next, unless that is an error. -/
theorem peek_meets (hstands : Stands task ahead number names trees builder)
    (hread : task.read state ahead = expected) :
    (peek task builder).Meets (expected = .error ·) fun token next =>
      Stands task ahead number names trees next ∧ next.lookahead = token ∧ ahead.Sees token := by
  have hexpects := hstands.expects
  unfold Expects at hexpects
  unfold peek
  obtain ⟨start, lexemes, failure⟩ := ahead
  cases hlookahead : builder.lookahead with
  | some token =>
    rw [hlookahead] at hexpects
    obtain ⟨later, hitems, -⟩ := hexpects
    refine ⟨hstands, hlookahead, ?_⟩
    cases lexemes with
    | nil => cases failure <;> simp at hitems
    | cons lexeme lexemes =>
      obtain ⟨rfl, -⟩ : lexeme.token start = token ∧ _ := by simpa using hitems
      exact .token start lexeme lexemes failure
  | none =>
    rw [hlookahead] at hexpects
    obtain ⟨lexer, hnext, hyields⟩ := hexpects.next? hstands.digits
    simp only [hnext]
    cases lexemes with
    | nil =>
      cases failure with
      | none =>
        exact ⟨{ hstands with expects := by simpa [Expects, hlookahead] using hyields }, rfl,
          .nothing start⟩
      | some report => exact hread.symm
    | cons lexeme lexemes =>
      exact ⟨{ hstands with expects := ⟨_, rfl, hyields⟩ }, rfl,
        .token start lexeme lexemes failure⟩

/-- Where the text ends, nothing is taken. -/
theorem advance_meets_nil {start : Nat} {failure : Option LexReport}
    (hstands : Stands task ⟨start, [], failure⟩ number names trees builder)
    (hread : task.read state ⟨start, [], failure⟩ = expected) :
    (advance task builder).Meets (expected = .error ·) fun token next =>
      Stands task ⟨start, [], none⟩ number names trees next ∧ token = none ∧ failure = none := by
  refine (peek_meets hstands hread).andThen ?_
  rintro token next ⟨hnext, -, hsees⟩
  cases hsees
  exact ⟨hnext, rfl, rfl⟩

/-- Behind a token that is taken, the others are still to come. -/
theorem advance_meets_cons {start : Nat} {lexeme : Lexeme} {lexemes : List Lexeme}
    {failure : Option LexReport}
    (hstands : Stands task ⟨start, lexeme :: lexemes, failure⟩ number names trees builder)
    (hread : task.read state ⟨start, lexeme :: lexemes, failure⟩ = expected) :
    (advance task builder).Meets (expected = .error ·) fun token next =>
      Stands task (.behind start lexeme lexemes failure) number names trees next ∧
        token = some (lexeme.token start) := by
  refine (peek_meets hstands hread).andThen ?_
  rintro token next ⟨hnext, hlookahead, hsees⟩
  cases hsees
  refine ⟨?_, rfl⟩
  have hexpects := hnext.expects
  rw [Expects, hlookahead] at hexpects
  obtain ⟨later, hitems, hyields⟩ := hexpects
  obtain ⟨-, rfl⟩ := List.cons.inj hitems
  exact {
    digits := hnext.digits
    expects := hyields
    lastStop := rfl
    ends := fun hnone => by
      have hends := hnext.ends hnone
      simp only [Lexeme.size_cons] at hends
      simp only [Prospect.behind]
      omega
    spells := fun other hother => hnext.spells other (List.mem_cons_of_mem _ hother)
    nextNumber := hnext.nextNumber
    room := by
      have hroom := hnext.room
      rw [Lexeme.numbered_cons] at hroom
      simp only [Prospect.behind]
      omega
    names := hnext.names
    draft := hnext.draft }

/-- Whatever comes next starts where the last token ended. -/
theorem offset_meets (hstands : Stands task ahead number names trees builder)
    (hread : task.read state ahead = expected) :
    (offset task builder).Meets (expected = .error ·) fun start next =>
      Stands task ahead number names trees next ∧ start = ahead.start := by
  refine (peek_meets hstands hread).andThen ?_
  rintro token next ⟨hnext, -, hsees⟩
  cases hsees with
  | nothing start =>
    have hends := hnext.ends rfl
    exact ⟨hnext, hends.symm⟩
  | token start lexeme lexemes failure => exact ⟨hnext, rfl⟩

/-- A change of the draft leaves the trees of the changed draft. -/
theorem drafted_meets {α : Type} {change : Draft → Option (Draft × α)} {value : α}
    {trees' : List Tree} (hstands : Stands task ahead number names trees builder)
    (hchange : change (.ofForest trees) = some (.ofForest trees', value)) :
    (drafted change task builder).Meets (expected = .error ·) fun result next =>
      Stands task ahead number names trees' next ∧ result = value := by
  simp only [drafted, bind_apply, get_apply, Outcome.done_andThen, hstands.draft, hchange,
    demand_some, pure_apply, modify_apply]
  exact ⟨{ hstands with draft := rfl }, rfl⟩

theorem span_apply {start stop : Nat} (hle : start ≤ stop) :
    span start stop task builder = .done ⟨start, stop⟩ builder := by
  rw [span, if_pos hle, demand_some, pure_apply]

/-- A number is given where there are numbers for all groups that are still to come. -/
theorem number_meets (hstands : Stands task ahead number names trees builder)
    (hroom : number + 1 + Lexeme.numbered ahead.lexemes ≤ 0xffffffff) :
    (Build.number task builder).Meets (expected = .error ·) fun given next =>
      Stands task ahead (number + 1) names trees next ∧ given = number := by
  have hfits : Text.fits32 (number + 1) = true := by
    rw [Text.fits32, decide_eq_true_eq]
    omega
  simp only [Build.number, bind_apply, get_apply, Outcome.done_andThen, hstands.nextNumber, hfits,
    if_true, demand_some, pure_apply, modify_apply]
  exact ⟨{ hstands with nextNumber := rfl, room := hroom }, rfl⟩

end Build

end PatternTree
