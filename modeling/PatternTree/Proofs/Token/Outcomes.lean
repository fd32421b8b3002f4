import PatternTree.Proofs.Shape.Print
import PatternTree.Proofs.Token.Faults

namespace PatternTree

/-- The texts that a cause quotes without escaping them or putting each of their characters
    between backquotes: digits, lower-case letters and identifiers. -/
def LexCause.Legible : LexCause → Prop
  | referenceTooLarge digits => ∀ digit ∈ digits, digit.isDigit
  | unknownSet name => ∀ letter ∈ name.toList, letter.isLower
  | openName name _ => Escape.isName name.toList
  | _ => True

/-- The ranges of a set that a pattern can write: there are some, and their ends are in order. -/
def CharClass.Ordered (ranges : List ClassRange) : Prop :=
  ranges ≠ [] ∧ ∀ range ∈ ranges, range.low ≤ range.high

namespace CharClass

theorem ordered_singleton {low high : Char} (hle : low ≤ high) : Ordered [⟨low, high⟩] := by
  refine ⟨List.cons_ne_nil _ _, fun range hrange => ?_⟩
  rw [List.mem_singleton.mp hrange]
  exact hle

theorem Ordered.append {front back : List ClassRange} (hfront : Ordered front)
    (hback : Ordered back) : Ordered (front ++ back) := by
  refine ⟨List.append_ne_nil_of_left_ne_nil hfront.1 back, fun range hrange => ?_⟩
  obtain hrange | hrange := List.mem_append.mp hrange
  · exact hfront.2 range hrange
  · exact hback.2 range hrange

instance (ranges : List ClassRange) : Decidable (Ordered ranges) :=
  inferInstanceAs (Decidable (_ ∧ _))

theorem ordered_of_shorthand? {letter : Char} {ranges : List ClassRange}
    (hranges : shorthand? letter = some ranges) : Ordered ranges ∧ Ordered (complement ranges) := by
  unfold shorthand? at hranges
  split at hranges <;> cases hranges <;> decide +kernel

theorem ordered_of_named? {name : String} {ranges : List ClassRange}
    (hranges : named? name = some ranges) : Ordered ranges := by
  unfold named? at hranges
  split at hranges <;> cases hranges <;> decide

end CharClass

/-- What holds of the failure of a reading when it fails, and of its value when it does not. -/
def Reading.Satisfies {ε α : Type} (failed : ε → Prop) (valid : α → Prop) :
    Reading ε α → Prop
  | .error failure => failed failure
  | .ok (value, _) => valid value

namespace Reading.Satisfies

variable {ε α β : Type} {failed : ε → Prop} {valid : α → Prop}

theorem convert {reading : Reading ε α} (hreading : reading.Satisfies failed valid)
    {change : α → β} {valid' : β → Prop} (hchange : ∀ value, valid value → valid' (change value)) :
    (reading.convert change).Satisfies failed valid' := by
  cases reading with
  | error failure => exact hreading
  | ok read => exact hchange read.1 hreading

theorem placed {failed : LexCause → Prop} {reading : Reading LexCause α}
    (hreading : reading.Satisfies failed valid) (place : List Char) :
    (reading.placed place).Satisfies (fun fault => failed fault.cause) valid := by
  cases reading <;> exact hreading

theorem error {reading : Reading ε α} (hreading : reading.Satisfies failed valid) {failure : ε}
    (hread : reading = .error failure) : failed failure := by
  subst hread
  exact hreading

theorem ok {reading : Reading ε α} (hreading : reading.Satisfies failed valid) {value : α}
    {rest : List Char} (hread : reading = .ok (value, rest)) : valid value := by
  subst hread
  exact hreading

end Reading.Satisfies

open Reading (Satisfies)

namespace Escape

theorem legible_missingHexDigit (chars : List Char) : (missingHexDigit chars).Legible := by
  cases chars <;> trivial

theorem satisfies_character (code : Nat) (rest : List Char) :
    Satisfies LexCause.Legible (fun _ => True) ((character code).map (·, rest)) := by
  unfold character
  split <;> trivial

theorem satisfies_readCharacter (char : Char) (chars : List Char) :
    Satisfies LexCause.Legible (fun _ => True) (readCharacter char chars) := by
  have hfixed : ∀ width chars,
      Satisfies LexCause.Legible (fun _ => True) (readFixedHex width chars) := by
    intro width chars
    simp only [readFixedHex]
    split
    · exact satisfies_character _ _
    · exact legible_missingHexDigit _
  unfold readCharacter
  split
  · trivial
  · split
    next rest =>
      simp only [readBracedHex]
      split
      · split
        · trivial
        · exact satisfies_character _ _
      · exact legible_missingHexDigit _
    · exact hfixed _ _
    · exact hfixed _ _
    · split <;> trivial

theorem satisfies_readName (closer : Char) (chars : List Char) :
    Satisfies LexCause.Legible (fun name => isName name.toList) (readName closer chars) := by
  simp only [readName]
  split
  next hname =>
    have hname : isName (String.ofList (chars.takeWhile isNameChar)).toList := by simpa using hname
    split
    · exact hname
    · split
      · exact hname
      · exact hname
  · trivial

theorem satisfies_readNumber {first : Char} (hdigit : first.isDigit) (hzero : first ≠ '0')
    (chars : List Char) : Satisfies LexCause.Legible Atom.Proper (readNumber first chars) := by
  simp only [readNumber]
  split
  next hfits => exact ⟨Text.decimalValue_pos hdigit hzero _, hfits⟩
  · intro digit hmem
    obtain rfl | hmem := List.mem_cons.mp hmem
    · exact hdigit
    · exact List.all_eq_true.mp List.all_takeWhile digit hmem

theorem satisfies_readReference (chars : List Char) :
    Satisfies LexCause.Legible Atom.Proper (readReference chars) := by
  unfold readReference
  split
  · trivial
  · split
    · trivial
    · exact (satisfies_readName _ _).convert fun _ hname => hname

/-- An escape outside of brackets is a proper atom. -/
theorem satisfies_read (chars : List Char) :
    Satisfies LexCause.Legible Atom.Proper (read chars) := by
  unfold read
  split
  · trivial
  · split
    next hclass =>
      obtain ⟨ranges, hranges, rfl⟩ := Option.map_eq_some_iff.mp hclass
      exact (CharClass.ordered_of_shorthand? hranges).1
    · trivial
    · split
      · exact satisfies_readReference _
      · split
        next hdigit =>
          simp only [Bool.and_eq_true, decide_eq_true_eq] at hdigit
          exact satisfies_readNumber hdigit.1 hdigit.2 _
        · exact (satisfies_readCharacter _ _).convert fun _ _ => trivial

end Escape

namespace Bracket

/-- The ranges of an item that is a set are those of a set that a pattern can write. -/
def Item.Proper : Item → Prop
  | .char _ => True
  | .set ranges => CharClass.Ordered ranges

theorem satisfies_readEscape (chars : List Char) :
    Satisfies LexCause.Legible Item.Proper (readEscape chars) := by
  unfold readEscape
  split
  · trivial
  · split
    next hranges =>
      obtain ⟨hordered, hcomplement⟩ := CharClass.ordered_of_shorthand? hranges
      simp only [Satisfies, Item.Proper]
      split
      · exact hcomplement
      · exact hordered
    · split
      · trivial
      · exact (Escape.satisfies_readCharacter _ _).convert fun _ _ => trivial

theorem satisfies_readNamedSet (chars : List Char) :
    Satisfies LexCause.Legible Item.Proper (readNamedSet chars) := by
  unfold readNamedSet
  split
  next named =>
    split
    next first name rest hname _ =>
      simp only
      split
      next hranges => exact CharClass.ordered_of_named? hranges
      · intro letter hletter
        have hlower := List.all_takeWhile (p := Char.isLower) (l := named)
        rw [hname] at hlower
        exact List.all_eq_true.mp hlower letter (by simpa using hletter)
    · trivial
  · trivial

theorem satisfies_readItem (classSyntax : ClassSyntax) (char : Char) (chars : List Char) :
    Satisfies LexCause.Legible Item.Proper (readItem classSyntax char chars) := by
  unfold readItem
  split
  · exact satisfies_readNamedSet _
  · exact satisfies_readEscape _
  · trivial

theorem satisfies_readMember (classSyntax : ClassSyntax) (char : Char) (chars : List Char) :
    Satisfies (·.cause.Legible) CharClass.Ordered (readMember classSyntax char chars) := by
  have hitem := fun char chars place =>
    (satisfies_readItem classSyntax char chars).placed place
  have hsingle : ∀ char, CharClass.Ordered [.single char] :=
    fun char => CharClass.ordered_singleton (Char.le_refl char)
  unfold readMember
  split
  next hread => exact (hitem char chars _).error hread
  next hread => exact (hitem char chars _).ok hread
  next low rest hread =>
    split
    next next after =>
      split
      · exact hsingle low
      · split
        next hread' => exact (hitem next after _).error hread'
        · trivial
        next high rest' _ =>
          split
          · trivial
          next hlt => exact CharClass.ordered_singleton (Char.not_lt.mp hlt)
    · exact hsingle low

theorem satisfies_readMembers (classSyntax : ClassSyntax) (bracket chars : List Char) :
    Satisfies (·.cause.Legible) CharClass.Ordered (readMembers classSyntax bracket chars) := by
  fun_induction readMembers classSyntax bracket chars with
  | case1 => trivial
  | case2 char chars fault hmember => exact (satisfies_readMember _ _ _).error hmember
  | case3 char chars ranges rest hmember _ => exact (satisfies_readMember _ _ _).ok hmember
  | case4 char chars ranges rest hmember _ ih =>
    have hranges := (satisfies_readMember _ _ _).ok hmember
    exact ih.convert fun _ hothers => hranges.append hothers

/-- A bracket expression is a set with ranges whose ends are in order. -/
theorem satisfies_read (classSyntax : ClassSyntax) (bracket chars : List Char) :
    Satisfies (·.cause.Legible) (fun set => CharClass.Ordered set.ranges)
      (read classSyntax bracket chars) := by
  unfold read
  split
  · exact (satisfies_readMembers _ _ _).convert fun _ hranges => hranges
  · exact (satisfies_readMembers _ _ _).convert fun _ hranges => hranges

end Bracket

namespace Scan

theorem satisfies_readOpener (chars : List Char) :
    Satisfies LexCause.Legible (fun _ => True) (readOpener chars) := by
  have hname : ∀ closer chars, Satisfies LexCause.Legible (fun _ => True)
      ((Escape.readName closer chars).convert Opener.named) :=
    fun closer chars => (Escape.satisfies_readName closer chars).convert fun _ _ => trivial
  unfold readOpener
  split
  · trivial
  · exact hname _ _
  · exact hname _ _
  · split
    · trivial
    · exact hname _ _
  · trivial

/-- What is read as an atom is a proper one, and what is no token is reported legibly. -/
theorem satisfies_readToken (classSyntax : ClassSyntax) (char : Char) (chars : List Char) :
    Satisfies (·.cause.Legible) (fun role => ∀ atom, role = .atom atom → atom.Proper)
      (readToken classSyntax char chars) := by
  unfold readToken
  split
  next role hsimple =>
    unfold simple? at hsimple
    split at hsimple <;> cases hsimple <;> rintro atom ⟨⟩ <;> trivial
  · split
    · exact ((satisfies_readOpener _).placed _).convert fun opener _ atom hatom => by cases hatom
    · refine (Bracket.satisfies_read _ _ _).convert fun set hordered atom hatom => ?_
      cases hatom
      exact hordered
    · refine ((Escape.satisfies_read _).placed _).convert fun read hproper atom hatom => ?_
      cases hatom
      exact hproper
    · split
      · rintro atom ⟨⟩
      · rintro atom ⟨⟩
        trivial
    · rintro atom ⟨⟩
      trivial

end Scan

end PatternTree
