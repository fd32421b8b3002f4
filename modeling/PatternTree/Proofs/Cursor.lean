import PatternTree.Proofs.Span
import PatternTree.Proofs.Work
import PatternTree.Token.Lexer

namespace PatternTree

/-- A lexical error as it is reported. -/
structure LexReport where
  family : LexFamily
  offset : Nat
  message : String
  deriving DecidableEq, Repr

/-- What is reported of a lexical error. -/
def LexError.report (error : LexError) : LexReport :=
  ⟨error.cause.family, error.offset, error.cause.message⟩

namespace Text

/-- The offset at which an end of a text starts. -/
def offsetOf (chars rest : List Char) : Nat :=
  utf8Size chars - utf8Size rest

variable {chars body rest : List Char}

@[simp] theorem offsetOf_self (chars : List Char) : offsetOf chars chars = 0 :=
  Nat.sub_self _

theorem offsetOf_append (front rest : List Char) :
    offsetOf (front ++ rest) rest = utf8Size front := by
  rw [offsetOf, utf8Size_append, Nat.add_sub_cancel]

/-- What lies between two ends of a text takes the bytes between their offsets. -/
theorem offsetOf_of_append (hsuffix : body ++ rest <:+ chars) :
    offsetOf chars rest = offsetOf chars (body ++ rest) + utf8Size body := by
  obtain ⟨front, rfl⟩ := hsuffix
  rw [offsetOf_append, ← List.append_assoc, offsetOf_append, utf8Size_append]

theorem offsetOf_of_cons {char : Char} (hsuffix : char :: rest <:+ chars) :
    offsetOf chars rest = offsetOf chars (char :: rest) + char.utf8Size :=
  @offsetOf_of_append _ [char] _ hsuffix

/-- An end of a text starts at a boundary between characters. -/
theorem dropBytes?_offsetOf (hsuffix : rest <:+ chars) :
    dropBytes? (offsetOf chars rest) chars = some rest := by
  obtain ⟨front, rfl⟩ := hsuffix
  rw [offsetOf_append, dropBytes?_utf8Size]

theorem slice?_offsetOf (hsuffix : body ++ rest <:+ chars) :
    slice? (offsetOf chars (body ++ rest)) (offsetOf chars rest) chars = some body := by
  obtain ⟨front, rfl⟩ := hsuffix
  rw [offsetOf_append, ← List.append_assoc, offsetOf_append, utf8Size_append]
  exact slice?_middle front body rest

end Text

/-- A reader that stands at an offset of a text and moves by numbers of bytes. -/
abbrev Cursor : Type → Type :=
  Work (List Char) Nat LexReport

namespace Cursor

open Work

variable {α : Type} (chars : List Char) (offset : Nat)

/-- Reports an error for the place at which something starts. -/
def fail (cause : LexCause) (start : Nat) : Cursor α :=
  Work.fail (LexError.report ⟨cause, start⟩)

/-- The offset. -/
def position : Cursor Nat :=
  Work.get

/-- Goes to an offset. -/
def moveTo (target : Nat) : Cursor Unit :=
  Work.modify fun _ => target

/-- Moves on by a number of bytes. -/
def skip (count : Nat) : Cursor Unit :=
  Work.modify (· + count)

/-- The text from the offset on. A cut inside a character is not possible. -/
def rest : Cursor (List Char) := fun chars offset =>
  demand (Text.dropBytes? offset chars) chars offset

/-- The text between two offsets, which have to be in order and between characters. -/
def slice (start stop : Nat) : Cursor (List Char) := fun chars offset =>
  demand (Text.slice? start stop chars) chars offset

/-- The character at the offset. -/
def peek : Cursor (Option Char) := do
  return (← rest).head?

/-- Takes one character. -/
def bump : Cursor (Option Char) := do
  match ← peek with
  | none => return none
  | some char => do
    skip char.utf8Size
    return some char

/-- Takes the expected character and no other. -/
def eat (expected : Char) : Cursor Bool := do
  match ← peek with
  | none => return false
  | some char =>
    if char = expected then do
      skip expected.utf8Size
      return true
    else return false

@[simp] theorem fail_apply (cause : LexCause) (start : Nat) :
    (fail cause start : Cursor α) chars offset = .failed (LexError.report ⟨cause, start⟩) := rfl

@[simp] theorem position_apply : position chars offset = .done offset offset := rfl

@[simp] theorem moveTo_apply (target : Nat) : moveTo target chars offset = .done () target := rfl

@[simp] theorem skip_apply (count : Nat) :
    skip count chars offset = .done () (offset + count) := rfl

section

variable {chars body rest : List Char} {char : Char}

theorem rest_apply (hsuffix : rest <:+ chars) :
    Cursor.rest chars (Text.offsetOf chars rest) = .done rest (Text.offsetOf chars rest) := by
  rw [Cursor.rest, Text.dropBytes?_offsetOf hsuffix, demand_some, pure_apply]

theorem slice_apply (hsuffix : body ++ rest <:+ chars) (offset : Nat) :
    slice (Text.offsetOf chars (body ++ rest)) (Text.offsetOf chars rest) chars offset =
      .done body offset := by
  rw [slice, Text.slice?_offsetOf hsuffix, demand_some, pure_apply]

theorem peek_apply (hsuffix : rest <:+ chars) :
    peek chars (Text.offsetOf chars rest) = .done rest.head? (Text.offsetOf chars rest) := by
  simp [peek, rest_apply hsuffix]

theorem bump_apply_nil (chars : List Char) :
    bump chars (Text.offsetOf chars []) = .done none (Text.offsetOf chars []) := by
  simp [bump, peek_apply (List.nil_suffix)]

theorem bump_apply_cons (hsuffix : char :: rest <:+ chars) :
    bump chars (Text.offsetOf chars (char :: rest)) =
      .done (some char) (Text.offsetOf chars rest) := by
  simp [bump, peek_apply hsuffix, ← Text.offsetOf_of_cons hsuffix]

theorem eat_apply_nil (chars : List Char) (expected : Char) :
    eat expected chars (Text.offsetOf chars []) = .done false (Text.offsetOf chars []) := by
  simp [eat, peek_apply (List.nil_suffix)]

theorem eat_apply_cons (hsuffix : char :: rest <:+ chars) (expected : Char) :
    eat expected chars (Text.offsetOf chars (char :: rest)) =
      if char = expected then .done true (Text.offsetOf chars rest)
      else .done false (Text.offsetOf chars (char :: rest)) := by
  by_cases hchar : char = expected
  · subst hchar
    simp [eat, peek_apply hsuffix, ← Text.offsetOf_of_cons hsuffix]
  · simp [eat, peek_apply hsuffix, hchar]

end

/-- Repeats the body of a loop until it is left, once for each byte to move on by at most. -/
def loop {τ : Type} (body : τ → Cursor (Turn τ α)) (current : τ) : Cursor α := fun chars offset =>
  turns body (Text.utf8Size chars + 1) current chars offset

end Cursor

namespace Reading

variable {α β : Type}

/-- What a reading of characters comes to on the bytes of the text. -/
def outcome (chars : List Char) (reading : Reading Fault α) : Outcome LexReport Nat α :=
  match reading with
  | .error fault => .failed (LexError.report ⟨fault.cause, Text.offsetOf chars fault.place⟩)
  | .ok (value, rest) => .done value (Text.offsetOf chars rest)

@[simp] theorem outcome_error (chars : List Char) (fault : Fault) :
    outcome chars (.error fault : Reading Fault α) =
      .failed (LexError.report ⟨fault.cause, Text.offsetOf chars fault.place⟩) := rfl

@[simp] theorem outcome_ok (chars rest : List Char) (value : α) :
    outcome chars (.ok (value, rest) : Reading Fault α) =
      .done value (Text.offsetOf chars rest) := rfl

@[simp] theorem convert_error {ε : Type} (failure : ε) (change : α → β) :
    convert (.error failure) change = .error failure := rfl

@[simp] theorem convert_convert {ε γ : Type} (reading : Reading ε α) (change : α → β)
    (again : β → γ) :
    (reading.convert change).convert again = reading.convert fun value => again (change value) := by
  cases reading <;> rfl

@[simp] theorem placed_error (cause : LexCause) (place : List Char) :
    placed (.error cause : Reading LexCause α) place = .error ⟨cause, place⟩ := rfl

@[simp] theorem placed_ok (value : α) (rest place : List Char) :
    placed (.ok (value, rest)) place = .ok (value, rest) := rfl

/-- Converting the value of a reading comes to going on with the converted value. -/
theorem outcome_convert (chars : List Char) (reading : Reading Fault α) (change : α → β) :
    outcome chars (reading.convert change) =
      (outcome chars reading).andThen fun value offset => .done (change value) offset := by
  cases reading <;> rfl

@[simp] theorem outcome_placed_convert (chars place : List Char) (reading : Reading LexCause α)
    (change : α → β) :
    outcome chars ((reading.convert change).placed place) =
      (outcome chars (reading.placed place)).andThen fun value offset =>
        .done (change value) offset := by
  cases reading <;> rfl

end Reading

namespace Cursor

open Work

variable {α τ : Type} {chars : List Char}

/-- A loop comes to a reading when each turn leaves with what is read, or moves on to where the
    same is read. What a turn relies on holds again behind it. -/
theorem loop_apply_of {body : τ → Cursor (Turn τ α)} (Relies : τ → List Char → Prop)
    (reading : τ → List Char → Reading Fault α)
    (hturn : ∀ current rest, rest <:+ chars → Relies current rest →
      (∃ next rest', rest' <:+ rest ∧ rest'.length < rest.length ∧ Relies next rest' ∧
        body current chars (Text.offsetOf chars rest) =
          .done (.again next) (Text.offsetOf chars rest') ∧
        reading current rest = reading next rest') ∨
      body current chars (Text.offsetOf chars rest) =
        ((reading current rest).convert .leave).outcome chars)
    {rest : List Char} (hsuffix : rest <:+ chars) {current : τ} (hrelies : Relies current rest) :
    loop body current chars (Text.offsetOf chars rest) = (reading current rest).outcome chars := by
  have hturns : ∀ count current rest, rest <:+ chars → Relies current rest →
      rest.length < count → turns body count current chars (Text.offsetOf chars rest) =
        (reading current rest).outcome chars := by
    -- A turn that goes on leaves fewer characters, so the turns outlast them.
    intro count
    induction count with
    | zero =>
      intro _ rest _ _ hcount
      exact absurd hcount (Nat.not_lt_zero _)
    | succ count ih =>
      intro current rest hrest hrelies hcount
      obtain ⟨next, rest', hrest', hlength, hnext, hbody, hreading⟩ | hbody :=
        hturn current rest hrest hrelies
      · simp only [turns, bind_apply, hbody, Outcome.done_andThen]
        rw [hreading]
        exact ih next rest' (hrest'.trans hrest) hnext (by omega)
      · simp only [turns, bind_apply, hbody, Reading.outcome_convert]
        cases reading current rest <;> rfl
  have hlength := Text.length_le_utf8Size chars
  have hlength' := hsuffix.length_le
  exact hturns _ current rest hsuffix hrelies (by omega)

/-- A loop whose turns rely on nothing. -/
theorem loop_apply {body : τ → Cursor (Turn τ α)} (reading : τ → List Char → Reading Fault α)
    (hturn : ∀ current rest, rest <:+ chars →
      (∃ next rest', rest' <:+ rest ∧ rest'.length < rest.length ∧
        body current chars (Text.offsetOf chars rest) =
          .done (.again next) (Text.offsetOf chars rest') ∧
        reading current rest = reading next rest') ∨
      body current chars (Text.offsetOf chars rest) =
        ((reading current rest).convert .leave).outcome chars)
    {rest : List Char} (hsuffix : rest <:+ chars) (current : τ) :
    loop body current chars (Text.offsetOf chars rest) = (reading current rest).outcome chars :=
  loop_apply_of (fun _ _ => True) reading
    (fun current rest hrest _ => by simpa using hturn current rest hrest) hsuffix trivial

end Cursor

end PatternTree
