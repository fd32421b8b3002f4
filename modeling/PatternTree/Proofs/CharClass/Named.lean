import Mathlib.Data.Option.Basic
import PatternTree.CharClass.Named
import PatternTree.Proofs.CharClass.Complement

namespace PatternTree.CharClass

/-- The ranges of a set of characters: the canonical ones that cover these and no others. -/
structure Lists (ranges : List ClassRange) (member : Char → Bool) : Prop where
  canonical : Canonical ranges
  covers : ∀ char, Covers ranges char ↔ member char

/-- The ASCII letters and digits and the underscore. -/
def isWordChar (char : Char) : Bool :=
  char.isAlphanum || char = '_'

/-- The space and the five ASCII controls from the tab to the carriage return. -/
def isSpaceChar (char : Char) : Bool :=
  char = ' ' || ('\t' ≤ char && char ≤ '\r')

/-- The characters that are printed with ink: the ASCII ones behind the space, but for the last one,
    which is a control. -/
def isGraphChar (char : Char) : Bool :=
  ' ' < char && char < '\x7f'

/-- What belongs to the set that a name between colons stands for. -/
def namedSet? : String → Option (Char → Bool)
  | "alnum" => some Char.isAlphanum
  | "alpha" => some Char.isAlpha
  | "ascii" => some fun char => char ≤ '\x7f'
  | "blank" => some fun char => char = ' ' || char = '\t'
  | "cntrl" => some fun char => char < ' ' || char = '\x7f'
  | "digit" => some Char.isDigit
  | "graph" => some isGraphChar
  | "lower" => some Char.isLower
  | "print" => some fun char => isGraphChar char || char = ' '
  | "punct" => some fun char => isGraphChar char && !char.isAlphanum
  | "space" => some isSpaceChar
  | "upper" => some Char.isUpper
  | "word" => some isWordChar
  | "xdigit" => some fun char =>
    char.isDigit || ('A' ≤ char && char ≤ 'F') || ('a' ≤ char && char ≤ 'f')
  | _ => none

/-- What belongs to the set that a letter behind a backslash stands for. -/
def letterSet? : Char → Option (Char → Bool)
  | 'd' => some Char.isDigit
  | 'w' => some isWordChar
  | 's' => some isSpaceChar
  | _ => none

section Lists

variable {ranges others : List ClassRange} {member : Char → Bool}

/-- A set has its ranges in one way. -/
theorem Lists.unique (hranges : Lists ranges member) (hothers : Lists others member) :
    ranges = others :=
  hranges.canonical.eq_of_covers hothers.canonical fun char =>
    (hranges.covers char).trans (hothers.covers char).symm

/-- What lies outside of a set is listed by the complement. -/
theorem Lists.complement (hranges : Lists ranges member) :
    Lists (complement ranges) fun char => !member char where
  canonical := canonical_complement hranges.canonical.ordered
  covers char := by
    rw [covers_complement hranges.canonical.ordered, hranges.covers, Bool.not_eq_true,
      Bool.not_eq_true']

/-- Where ranges and members are found together, each of them determines the other. -/
theorem eq_some_iff_of_rel {found : Option (List ClassRange)} {set : Option (Char → Bool)}
    (hrel : Option.Rel Lists found set) :
    found = some ranges ↔ ∃ member, set = some member ∧ Lists ranges member := by
  cases hrel with
  | none => simp
  | @some listed member hlisted =>
    constructor
    · rintro ⟨⟩
      exact ⟨member, rfl, hlisted⟩
    · rintro ⟨_, ⟨⟩, hranges⟩
      rw [hlisted.unique hranges]

theorem eq_none_iff_of_rel {found : Option (List ClassRange)} {set : Option (Char → Bool)}
    (hrel : Option.Rel Lists found set) : found = none ↔ set = none := by
  cases hrel <;> simp

end Lists

theorem isUpper_eq (char : Char) : char.isUpper = decide ('A' ≤ char ∧ char ≤ 'Z') :=
  rfl

theorem isLower_eq (char : Char) : char.isLower = ('a' ≤ char && char ≤ 'z') :=
  rfl

theorem isAlpha_eq (char : Char) : char.isAlpha = (char.isUpper || char.isLower) :=
  rfl

/-- The sets that have a name have the ranges of what belongs to them. -/
theorem rel_named? (name : String) : Option.Rel Lists (named? name) (namedSet? name) := by
  unfold named?
  split
  case h_15 =>
    have hset : namedSet? name = none := by
      unfold namedSet?
      split <;> first | rfl | contradiction
    rw [hset]
    exact .none
  -- the ends of the ranges and the conditions for members come to the same bounds on code points
  all_goals
    rw [namedSet?]
    refine .some ⟨canonical_of_apart ?_ ?_, fun char => ?_⟩
    · simp [digits, wordChars, spaces, ClassRange.single, ClassRange.codes, apart_cons, apart_nil]
    · simp [digits, wordChars, spaces, ClassRange.single]
    · simp [Covers, ClassRange.Holds, digits, wordChars, spaces, ClassRange.single, isWordChar,
        isSpaceChar, isGraphChar, Char.isAlphanum, isAlpha_eq, isUpper_eq, isLower_eq,
        Char.isDigit, Char.le_def, Char.lt_def, UInt32.le_iff_toNat_le, UInt32.lt_iff_toNat_lt,
        Char.ext_iff, ← UInt32.toNat_inj] <;> omega

/-- The letters of sets stand for three of those that have a name. -/
theorem rel_shorthand? (letter : Char) :
    Option.Rel Lists (shorthand? letter) (letterSet? letter) := by
  unfold shorthand?
  split
  · exact rel_named? "digit"
  · exact rel_named? "word"
  · exact rel_named? "space"
  · have hset : letterSet? letter = none := by
      unfold letterSet?
      split <;> first | rfl | contradiction
    rw [hset]
    exact .none

variable {ranges : List ClassRange} {name : String} {letter : Char}

theorem named?_eq_some_iff :
    named? name = some ranges ↔ ∃ member, namedSet? name = some member ∧ Lists ranges member :=
  eq_some_iff_of_rel (rel_named? name)

theorem named?_eq_none_iff : named? name = none ↔ namedSet? name = none :=
  eq_none_iff_of_rel (rel_named? name)

theorem shorthand?_eq_some_iff :
    shorthand? letter = some ranges ↔
      ∃ member, letterSet? letter = some member ∧ Lists ranges member :=
  eq_some_iff_of_rel (rel_shorthand? letter)

/-- Each set that a letter stands for has ranges. -/
theorem exists_shorthand? {member : Char → Bool} (hset : letterSet? letter = some member) :
    ∃ ranges, shorthand? letter = some ranges ∧ Lists ranges member := by
  have hrel := rel_shorthand? letter
  rw [hset] at hrel
  generalize shorthand? letter = found at hrel
  cases hrel with
  | some hranges => exact ⟨_, rfl, hranges⟩

theorem shorthand?_eq_none_iff : shorthand? letter = none ↔ letterSet? letter = none :=
  eq_none_iff_of_rel (rel_shorthand? letter)

end PatternTree.CharClass
