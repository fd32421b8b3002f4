import PatternTree.LexError

namespace PatternTree

/-- What a reader makes of the front of a text: a failure, or a value and the text that
    remains. -/
abbrev Reading (ε α : Type) :=
  Except ε (α × List Char)

/-- A cause together with the text that starts at the place it is reported for. -/
structure Fault where
  cause : LexCause
  place : List Char
  deriving DecidableEq, Repr

namespace Reading

/-- Turns the value that was read into another one. -/
def convert {ε α β : Type} (reading : Reading ε α) (change : α → β) : Reading ε β :=
  reading.map fun (value, rest) => (change value, rest)

/-- Reports the failure of a reading at the start of `place`. -/
def placed {α : Type} (reading : Reading LexCause α) (place : List Char) : Reading Fault α :=
  reading.mapError (⟨·, place⟩)

end Reading

/-- A reading of `chars` that leaves over an end of it whenever it succeeds. -/
def LeavesEnd {ε α : Type} (chars : List Char) (reading : Reading ε α) : Prop :=
  ∀ value rest, reading = .ok (value, rest) → rest <:+ chars

namespace LeavesEnd

variable {ε α β : Type} {chars rest : List Char}

theorem error (failure : ε) : LeavesEnd chars (.error failure : Reading ε α) := by
  intro value rest hread
  cases hread

theorem ok {value : α} (hrest : rest <:+ chars) :
    LeavesEnd chars (.ok (value, rest) : Reading ε α) := by
  intro value' rest' hread
  cases hread
  exact hrest

theorem of_suffix {reading : Reading ε α} (hreading : LeavesEnd rest reading)
    (hrest : rest <:+ chars) : LeavesEnd chars reading :=
  fun value rest' hread => (hreading value rest' hread).trans hrest

theorem convert {reading : Reading ε α} (hreading : LeavesEnd chars reading)
    (change : α → β) : LeavesEnd chars (reading.convert change) := by
  intro value rest hread
  cases reading with
  | error failure => cases hread
  | ok read =>
    cases hread
    exact hreading read.1 read.2 rfl

theorem placed {reading : Reading LexCause α} (hreading : LeavesEnd chars reading)
    (place : List Char) : LeavesEnd chars (reading.placed place) := by
  intro value rest hread
  cases reading with
  | error cause => cases hread
  | ok read =>
    cases hread
    exact hreading value rest rfl

/-- A value that does not depend on the text may come with any of its ends. -/
theorem of_except {result : Except ε α} (hrest : rest <:+ chars) :
    LeavesEnd chars (result.map (·, rest)) := by
  intro value rest' hread
  cases result with
  | error failure => cases hread
  | ok value' =>
    cases hread
    exact hrest

theorem length_le {reading : Reading ε α} (hreading : LeavesEnd chars reading)
    {value : α} (hread : reading = .ok (value, rest)) : rest.length ≤ chars.length :=
  (hreading value rest hread).length_le

end LeavesEnd

end PatternTree
