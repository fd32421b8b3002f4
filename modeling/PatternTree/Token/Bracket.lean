import PatternTree.CharClass.Complement
import PatternTree.Dialect
import PatternTree.Token.Escape

namespace PatternTree

namespace Bracket

/-- What one item of a bracket expression stands for. Only characters can be the ends of a
    range. -/
inductive Item where
  | char (char : Char)
  | set (ranges : List ClassRange)
  deriving DecidableEq, Repr

/-- Reads what follows a backslash where escapes are known inside brackets. A word boundary
    has no meaning there, and `\b` is the backspace. -/
def readEscape : List Char → Reading LexCause Item
  | [] => .error .openClassEscape
  | char :: chars =>
    match CharClass.shorthand? char.toLower with
    | some ranges =>
      .ok (.set (if char.isUpper then CharClass.complement ranges else ranges), chars)
    | none =>
      if char = 'b' then .ok (.char '\x08', chars)
      else (Escape.readCharacter char chars).convert .char

/-- Reads what follows an opening bracket inside brackets: the rest of `[:name:]` when a name
    of lower-case ASCII letters stands there, and otherwise nothing, so that the bracket
    stands for itself. -/
def readNamedSet (chars : List Char) : Reading LexCause Item :=
  match chars with
  | ':' :: named =>
    match named.takeWhile Char.isLower, named.dropWhile Char.isLower with
    | first :: name, ':' :: ']' :: rest =>
      let name := String.ofList (first :: name)
      match CharClass.named? name with
      | some ranges => .ok (.set ranges, rest)
      | none => .error (.unknownSet name)
    | _, _ => .ok (.char '[', chars)
  | _ => .ok (.char '[', chars)

/-- Reads one item, of which `char` is the first character. -/
def readItem (classSyntax : ClassSyntax) (char : Char) (chars : List Char) :
    Reading LexCause Item :=
  match char, classSyntax with
  | '[', _ => readNamedSet chars
  | '\\', .pcre => readEscape chars
  | _, _ => .ok (.char char, chars)

/-- Reads the ranges that one member contributes: a set, a character, or a range from a
    character to the one after a dash. A dash directly before the closing bracket is no range,
    and neither is one with which the pattern ends. -/
def readMember (classSyntax : ClassSyntax) (char : Char) (chars : List Char) :
    Reading Fault (List ClassRange) :=
  match (readItem classSyntax char chars).placed (char :: chars) with
  | .error fault => .error fault
  | .ok (.set ranges, rest) => .ok (ranges, rest)
  | .ok (.char low, rest) =>
    match rest with
    | '-' :: next :: after =>
      if next = ']' then .ok ([.single low], rest)
      else
        match (readItem classSyntax next after).placed (next :: after) with
        | .error fault => .error fault
        | .ok (.set _, _) => .error ⟨.setEndsRange, char :: chars⟩
        | .ok (.char high, rest) =>
          if high < low then .error ⟨.rangeOutOfOrder low high, char :: chars⟩
          else .ok ([⟨low, high⟩], rest)
    | _ => .ok ([.single low], rest)

theorem readEscape_leavesEnd (chars : List Char) : LeavesEnd chars (readEscape chars) := by
  unfold readEscape
  split
  · exact .error _
  next char chars =>
    have hsuffix : chars <:+ char :: chars := List.suffix_cons _ _
    split
    · exact .ok hsuffix
    · split
      · exact .ok hsuffix
      · exact ((Escape.readCharacter_leavesEnd _ _).convert _).of_suffix hsuffix

theorem readNamedSet_leavesEnd (chars : List Char) : LeavesEnd chars (readNamedSet chars) := by
  unfold readNamedSet
  split
  next named =>
    split
    next first name rest _ hrest =>
      have hsuffix := List.dropWhile_suffix (l := named) Char.isLower
      rw [hrest] at hsuffix
      simp only
      split
      · refine .ok ?_
        exact ((List.suffix_cons _ _).trans (List.suffix_cons _ _)).trans
          (hsuffix.trans (List.suffix_cons _ _))
      · exact .error _
    · exact .ok (List.suffix_refl _)
  · exact .ok (List.suffix_refl _)

theorem readItem_leavesEnd (classSyntax : ClassSyntax) (char : Char) (chars : List Char) :
    LeavesEnd chars (readItem classSyntax char chars) := by
  unfold readItem
  split
  · exact readNamedSet_leavesEnd _
  · exact readEscape_leavesEnd _
  · exact .ok (List.suffix_refl _)

theorem readMember_leavesEnd (classSyntax : ClassSyntax) (char : Char) (chars : List Char) :
    LeavesEnd chars (readMember classSyntax char chars) := by
  have hitem := fun char' chars' place =>
    (readItem_leavesEnd classSyntax char' chars').placed place
  unfold readMember
  split
  · exact .error _
  next hread => exact .ok (hitem _ _ _ _ _ hread)
  next hread =>
    have hrest := hitem _ _ _ _ _ hread
    split
    next next after =>
      split
      · exact .ok hrest
      · split
        · exact .error _
        · exact .error _
        next hread' =>
          split
          · exact .error _
          · have hafter : after <:+ '-' :: next :: after :=
              (List.suffix_cons _ _).trans (List.suffix_cons _ _)
            exact .ok (((hitem _ _ _ _ _ hread').trans hafter).trans hrest)
    · exact .ok hrest

/-- Reads members up to the bracket that closes the expression. A closing bracket at the very
    front is a member, and there is no expression without one. When the pattern ends first,
    the fault lies with the opening bracket, at which `bracket` starts. -/
def readMembers (classSyntax : ClassSyntax) (bracket : List Char) :
    List Char → Reading Fault (List ClassRange)
  | [] => .error ⟨.openClass, bracket⟩
  | char :: chars =>
    match _ : readMember classSyntax char chars with
    | .error fault => .error fault
    | .ok (ranges, rest) =>
      if rest.head? = some ']' then .ok (ranges, rest.tail)
      else (readMembers classSyntax bracket rest).convert (ranges ++ ·)
termination_by chars => chars.length
decreasing_by
  have := (readMember_leavesEnd classSyntax char chars).length_le ‹_ = _›
  simp only [List.length_cons]
  omega

theorem readMembers_of_error {classSyntax : ClassSyntax} {char : Char} {chars : List Char}
    {fault : Fault} (hmember : readMember classSyntax char chars = .error fault)
    (bracket : List Char) :
    readMembers classSyntax bracket (char :: chars) = .error fault := by
  rw [readMembers]
  split <;> simp_all

/-- The member before a closing bracket is the last one. -/
theorem readMembers_of_last {classSyntax : ClassSyntax} {char : Char} {chars rest : List Char}
    {ranges : List ClassRange}
    (hmember : readMember classSyntax char chars = .ok (ranges, ']' :: rest))
    (bracket : List Char) :
    readMembers classSyntax bracket (char :: chars) = .ok (ranges, rest) := by
  rw [readMembers]
  split <;> simp_all

/-- A member before anything else is followed by another one. -/
theorem readMembers_of_more {classSyntax : ClassSyntax} {char : Char} {chars rest : List Char}
    {ranges : List ClassRange}
    (hmember : readMember classSyntax char chars = .ok (ranges, rest))
    (hrest : rest.head? ≠ some ']') (bracket : List Char) :
    readMembers classSyntax bracket (char :: chars) =
      (readMembers classSyntax bracket rest).convert (ranges ++ ·) := by
  rw [readMembers]
  split <;> simp_all

/-- Reads a bracket expression after its opening bracket, at which `bracket` starts. -/
def read (classSyntax : ClassSyntax) (bracket chars : List Char) : Reading Fault CharClass :=
  match chars with
  | '^' :: chars => (readMembers classSyntax bracket chars).convert (⟨true, ·⟩)
  | chars => (readMembers classSyntax bracket chars).convert (⟨false, ·⟩)

theorem readMembers_leavesEnd (classSyntax : ClassSyntax) (bracket chars : List Char) :
    LeavesEnd chars (readMembers classSyntax bracket chars) := by
  fun_induction readMembers classSyntax bracket chars with
  | case1 => exact .error _
  | case2 => exact .error _
  | case3 char chars ranges rest hmember _ =>
    have hrest := readMember_leavesEnd classSyntax char chars _ _ hmember
    exact .ok (((List.tail_suffix _).trans hrest).trans (List.suffix_cons _ _))
  | case4 char chars ranges rest hmember _ ih =>
    have hrest := readMember_leavesEnd classSyntax char chars _ _ hmember
    exact (ih.convert _).of_suffix (hrest.trans (List.suffix_cons _ _))

/-- Reading a bracket expression moves on in the text. -/
theorem read_leavesEnd (classSyntax : ClassSyntax) (bracket chars : List Char) :
    LeavesEnd chars (read classSyntax bracket chars) := by
  unfold read
  split
  · exact ((readMembers_leavesEnd _ _ _).convert _).of_suffix (List.suffix_cons _ _)
  · exact (readMembers_leavesEnd _ _ _).convert _

end Bracket

end PatternTree
