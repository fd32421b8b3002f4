import PatternTree.Proofs.Bracket.Item

namespace PatternTree

namespace Bracket

/-- The member with which a text inside brackets starts, by the ranges that it contributes, and what
    follows it. A dash after a character makes a range unless a closing bracket or nothing at all
    follows the dash. -/
inductive MemberAt (classSyntax : ClassSyntax) :
    List Char → List ClassRange → List Char → Prop where
  | set {chars rest : List Char} {ranges : List ClassRange}
      (hitem : ItemAt classSyntax chars (.set ranges) rest) :
      MemberAt classSyntax chars ranges rest
  | single {chars rest : List Char} {char : Char}
      (hitem : ItemAt classSyntax chars (.char char) rest)
      (hrest : ∀ next after, rest = '-' :: next :: after → next = ']') :
      MemberAt classSyntax chars [.single char] rest
  | range {chars upper rest : List Char} {low high : Char}
      (hlow : ItemAt classSyntax chars (.char low) ('-' :: upper))
      (hupper : upper.head? ≠ some ']') (hhigh : ItemAt classSyntax upper (.char high) rest)
      (horder : low ≤ high) : MemberAt classSyntax chars [⟨low, high⟩] rest

/-- Why a text inside brackets starts with no member, and where: an end of a range is no item, or
    the upper one is a set or stands before the lower one. -/
inductive NoMemberAt (classSyntax : ClassSyntax) : List Char → Fault → Prop where
  | item {chars : List Char} {cause : LexCause} (hitem : NoItemAt classSyntax chars cause) :
      NoMemberAt classSyntax chars ⟨cause, chars⟩
  | upper {chars upper : List Char} {low : Char} {cause : LexCause}
      (hlow : ItemAt classSyntax chars (.char low) ('-' :: upper))
      (hupper : upper.head? ≠ some ']') (hitem : NoItemAt classSyntax upper cause) :
      NoMemberAt classSyntax chars ⟨cause, upper⟩
  | set {chars upper rest : List Char} {low : Char} {ranges : List ClassRange}
      (hlow : ItemAt classSyntax chars (.char low) ('-' :: upper))
      (hupper : upper.head? ≠ some ']') (hhigh : ItemAt classSyntax upper (.set ranges) rest) :
      NoMemberAt classSyntax chars ⟨.setEndsRange, chars⟩
  | outOfOrder {chars upper rest : List Char} {low high : Char}
      (hlow : ItemAt classSyntax chars (.char low) ('-' :: upper))
      (hupper : upper.head? ≠ some ']') (hhigh : ItemAt classSyntax upper (.char high) rest)
      (horder : high < low) : NoMemberAt classSyntax chars ⟨.rangeOutOfOrder low high, chars⟩

section Members

variable {classSyntax : ClassSyntax} {char : Char} {chars rest : List Char}
  {ranges : List ClassRange} {fault : Fault}

theorem MemberAt.ne_nil (hmember : MemberAt classSyntax chars ranges rest) : chars ≠ [] := by
  cases hmember with
  | set hitem => exact hitem.ne_nil
  | single hitem => exact hitem.ne_nil
  | range hlow => exact hlow.ne_nil

theorem NoMemberAt.ne_nil (hmember : NoMemberAt classSyntax chars fault) : chars ≠ [] := by
  cases hmember with
  | item hitem => exact hitem.ne_nil
  | upper hlow => exact hlow.ne_nil
  | set hlow => exact hlow.ne_nil
  | outOfOrder hlow => exact hlow.ne_nil

theorem MemberAt.readMember_eq (hmember : MemberAt classSyntax (char :: chars) ranges rest) :
    readMember classSyntax char chars = .ok (ranges, rest) := by
  cases hmember with
  | set hitem => exact readMember_of_set hitem.readItem_eq
  | single hitem hrest =>
    by_cases hdash : ∃ next after, rest = '-' :: next :: after
    · obtain ⟨next, after, rfl⟩ := hdash
      obtain rfl := hrest next after rfl
      exact readMember_of_dash hitem.readItem_eq
    · exact Cursor.readMember_of_plain hitem.readItem_eq fun next after hsame =>
        hdash ⟨next, after, hsame⟩
  | range hlow hupper hhigh horder =>
    obtain ⟨next, after, rfl⟩ := List.exists_cons_of_ne_nil hhigh.ne_nil
    exact readMember_of_range hlow.readItem_eq (by simpa using hupper) hhigh.readItem_eq horder

theorem NoMemberAt.readMember_eq (hmember : NoMemberAt classSyntax (char :: chars) fault) :
    readMember classSyntax char chars = .error fault := by
  cases hmember with
  | item hitem => simp [readMember, hitem.readItem_eq]
  | upper hlow hupper hitem =>
    obtain ⟨next, after, rfl⟩ := List.exists_cons_of_ne_nil hitem.ne_nil
    have hnext : next ≠ ']' := by simpa using hupper
    simp [readMember, hlow.readItem_eq, hnext, hitem.readItem_eq]
  | set hlow hupper hhigh =>
    obtain ⟨next, after, rfl⟩ := List.exists_cons_of_ne_nil hhigh.ne_nil
    have hnext : next ≠ ']' := by simpa using hupper
    simp [readMember, hlow.readItem_eq, hnext, hhigh.readItem_eq]
  | outOfOrder hlow hupper hhigh horder =>
    obtain ⟨next, after, rfl⟩ := List.exists_cons_of_ne_nil hhigh.ne_nil
    have hnext : next ≠ ']' := by simpa using hupper
    simp [readMember, hlow.readItem_eq, hnext, hhigh.readItem_eq, horder]

/-- What follows a character and a dash ends a range or does not for one of the reasons. -/
theorem memberAt_or_noMemberAt_range {low next : Char} {after : List Char}
    (hlow : ItemAt classSyntax chars (.char low) ('-' :: next :: after)) (hnext : next ≠ ']') :
    (∃ ranges rest, MemberAt classSyntax chars ranges rest) ∨
      ∃ fault, NoMemberAt classSyntax chars fault := by
  have hupper : (next :: after).head? ≠ some ']' := by simpa using hnext
  obtain ⟨item, rest, hhigh⟩ | ⟨cause, hitem⟩ := itemAt_or_noItemAt classSyntax next after
  · cases item with
    | set ranges => exact .inr ⟨_, .set hlow hupper hhigh⟩
    | char high =>
      by_cases horder : high < low
      · exact .inr ⟨_, .outOfOrder hlow hupper hhigh horder⟩
      · exact .inl ⟨_, _, .range hlow hupper hhigh (Char.not_lt.mp horder)⟩
  · exact .inr ⟨_, .upper hlow hupper hitem⟩

theorem memberAt_or_noMemberAt (classSyntax : ClassSyntax) (char : Char) (chars : List Char) :
    (∃ ranges rest, MemberAt classSyntax (char :: chars) ranges rest) ∨
      ∃ fault, NoMemberAt classSyntax (char :: chars) fault := by
  obtain ⟨item, rest, hitem⟩ | ⟨cause, hitem⟩ := itemAt_or_noItemAt classSyntax char chars
  · cases item with
    | set ranges => exact .inl ⟨_, _, .set hitem⟩
    | char low =>
      by_cases hdash : ∃ next after, rest = '-' :: next :: after ∧ next ≠ ']'
      · obtain ⟨next, after, rfl, hnext⟩ := hdash
        exact memberAt_or_noMemberAt_range hitem hnext
      · refine .inl ⟨_, _, .single hitem fun next after hrest => ?_⟩
        by_contra hnext
        exact hdash ⟨next, after, hrest, hnext⟩
  · exact .inr ⟨_, .item hitem⟩

/-- Members are read as they stand. -/
theorem readMember_eq_ok_iff :
    readMember classSyntax char chars = .ok (ranges, rest) ↔
      MemberAt classSyntax (char :: chars) ranges rest :=
  (Reading.exact_of_total MemberAt.readMember_eq NoMemberAt.readMember_eq
    (memberAt_or_noMemberAt classSyntax char chars)).1

theorem readMember_eq_error_iff :
    readMember classSyntax char chars = .error fault ↔
      NoMemberAt classSyntax (char :: chars) fault :=
  (Reading.exact_of_total MemberAt.readMember_eq NoMemberAt.readMember_eq
    (memberAt_or_noMemberAt classSyntax char chars)).2

/-- A member has its fault inside an escape only where the escape is cut off. -/
theorem NoMemberAt.family_eq_iff (hmember : NoMemberAt classSyntax chars fault) :
    fault.cause.family = .unterminatedEscape ↔
      classSyntax = .pcre ∧ ∃ body, fault.place = '\\' :: body ∧ Escape.Unfinished body := by
  have hitem : ∀ {item : Item} {chars rest : List Char}, ItemAt classSyntax chars item rest →
      ¬ (classSyntax = .pcre ∧ ∃ body, chars = '\\' :: body ∧ Escape.Unfinished body) := by
    rintro item chars rest hitem ⟨rfl, body, rfl, hunfinished⟩
    exact hitem.not_unfinished hunfinished
  cases hmember with
  | item hnone => exact hnone.family_eq_iff
  | upper _ _ hnone => exact hnone.family_eq_iff
  | set hlow => exact iff_of_false nofun (hitem hlow)
  | outOfOrder hlow => exact iff_of_false nofun (hitem hlow)

theorem NoMemberAt.family_ne (hmember : NoMemberAt classSyntax chars fault) :
    fault.cause.family ≠ .unterminatedClass := by
  cases hmember with
  | item hnone => exact hnone.family_ne
  | upper _ _ hnone => exact hnone.family_ne
  | set => exact nofun
  | outOfOrder => exact nofun

end Members

end Bracket

end PatternTree
