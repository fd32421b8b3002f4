import PatternTree.Proofs.Bracket

namespace PatternTree

namespace Bracket

section Dash

variable {classSyntax : ClassSyntax} {chars body before upper rest : List Char}
  {members : List (List ClassRange)} {negated : Bool} {ranges later : List ClassRange}

theorem MembersAt.append {later : List (List ClassRange)} {behind : List Char}
    (hmembers : MembersAt classSyntax chars members rest)
    (hopen : members ≠ [] → rest.head? ≠ some ']')
    (hlater : MembersAt classSyntax rest later behind) :
    MembersAt classSyntax chars (members ++ later) behind := by
  induction hmembers with
  | nil => exact hlater
  | @cons chars after rest ranges members hmember hopen' hmembers ih =>
    have hrest := hopen (List.cons_ne_nil _ _)
    exact .cons hmember (fun _ => hmembers.head?_ne hopen' hrest) (ih (fun _ => hrest) hlater)

/-- A set before a dash is a member by itself, and the next one starts with the dash. -/
theorem MembersAt.append_set {later : List (List ClassRange)}
    (hmembers : MembersAt classSyntax body members before)
    (hopen : members ≠ [] → before.head? ≠ some ']')
    (hset : ItemAt classSyntax before (.set ranges) ('-' :: upper))
    (hlater : MembersAt classSyntax ('-' :: upper) later rest) :
    MembersAt classSyntax body (members ++ ranges :: later) rest :=
  hmembers.append hopen (.cons (.set hset) (fun _ => by simp) hlater)

/-- Behind a set and before a dash an expression closes as if it began with the dash. -/
theorem Closes.of_dash (hmark : Marked chars negated body)
    (hmembers : MembersAt classSyntax body members before)
    (hopen : members ≠ [] → before.head? ≠ some ']')
    (hset : ItemAt classSyntax before (.set ranges) ('-' :: upper))
    (hcloses : Closes classSyntax ('-' :: upper) ⟨false, later⟩ rest) :
    Closes classSyntax chars ⟨negated, members.flatten ++ (ranges ++ later)⟩ rest := by
  obtain ⟨_, behind, hplain, -, hbehind, rfl⟩ := hcloses
  cases hplain with
  | plain =>
    exact ⟨body, _, hmark, by simp, hmembers.append_set hopen hset hbehind, by simp⟩

/-- Behind a set and before a dash an expression breaks as if it began with the dash, except that
    its own bracket is the one that stays open. -/
theorem Breaks.of_dash {fault : Fault} (hmark : Marked chars negated body)
    (hmembers : MembersAt classSyntax body members before)
    (hopen : members ≠ [] → before.head? ≠ some ']')
    (hset : ItemAt classSyntax before (.set ranges) ('-' :: upper))
    (hbreaks : Breaks classSyntax ('-' :: upper) fault) :
    Breaks classSyntax chars
      ⟨fault.cause, if fault.cause = .openClass then '[' :: chars else fault.place⟩ := by
  cases hbreaks with
  | ends hplain hlater =>
    cases hplain with
    | plain => exact .ends hmark (hmembers.append_set hopen hset hlater)
  | member hplain hlater hopen' hfault =>
    have hcause : fault.cause ≠ .openClass := by
      intro hcause
      exact hfault.family_ne (congrArg LexCause.family hcause)
    rw [if_neg hcause]
    cases hplain with
    | plain =>
      exact .member hmark (hmembers.append_set hopen hset hlater)
        (fun _ => hlater.head?_ne_behind (by simp) hopen') hfault

/-- A set begins with a bracket or a backslash, and never with what closes an expression. -/
theorem ItemAt.head?_ne (hset : ItemAt classSyntax chars (.set ranges) rest) :
    chars.head? ≠ some ']' := by
  cases hset <;> simp

end Dash

end Bracket

namespace Scan

/-- A set as the upper end of a range is reported at the member that it would end. A set before a
    dash is a member by itself: it adds its ranges, and the text from the dash on is read as if the
    expression began there, with its outcome as the outcome of the whole. -/
theorem ofText_set_beside_dash {classSyntax : ClassSyntax} {chars body before : List Char}
    {members : List (List ClassRange)} {negated : Bool}
    (hmark : Bracket.Marked chars negated body)
    (hmembers : Bracket.MembersAt classSyntax body members before)
    (hopen : members ≠ [] → before.head? ≠ some ']') (offset : Nat) :
    (∀ low upper ranges rest, Bracket.ItemAt classSyntax before (.char low) ('-' :: upper) →
      Bracket.ItemAt classSyntax upper (.set ranges) rest →
        ∃ front, '[' :: chars = front ++ before ∧ ofText classSyntax offset ('[' :: chars) =
          ⟨[], some ⟨.setEndsRange, offset + Text.utf8Size front⟩⟩) ∧
    ∀ ranges upper, Bracket.ItemAt classSyntax before (.set ranges) ('-' :: upper) →
      (∃ later rest text, Bracket.Closes classSyntax ('-' :: upper) ⟨false, later⟩ rest ∧
        '[' :: chars = text ++ rest ∧ ofText classSyntax offset ('[' :: chars) =
          (ofText classSyntax (offset + Text.utf8Size text) rest).cons
            ⟨.atom (.charClass ⟨negated, members.flatten ++ (ranges ++ later)⟩), text,
              ⟨offset, offset + Text.utf8Size text⟩⟩) ∨
      ∃ cause place front, Bracket.Breaks classSyntax ('-' :: upper) ⟨cause, place⟩ ∧
        '[' :: chars = front ++ (if cause = .openClass then '[' :: chars else place) ∧
        ofText classSyntax offset ('[' :: chars) =
          ⟨[], some ⟨cause, offset + Text.utf8Size front⟩⟩ := by
  constructor
  · intro low upper ranges rest hlow hhigh
    exact ofText_of_breaks (.member hmark hmembers hopen (.set hlow hhigh.head?_ne hhigh)) offset
  · intro ranges upper hset
    obtain ⟨⟨mark, later⟩, rest, hcloses⟩ | ⟨⟨cause, place⟩, hbreaks⟩ :=
      Bracket.closes_or_breaks classSyntax ('-' :: upper)
    · have hmark' : mark = false := by
        obtain ⟨_, _, hplain, -⟩ := hcloses
        cases hplain
        rfl
      subst hmark'
      obtain ⟨text, htext, hscan⟩ :=
        ofText_of_closes (hcloses.of_dash hmark hmembers hopen hset) offset
      exact .inl ⟨later, rest, text, hcloses, htext, hscan⟩
    · obtain ⟨front, hfront, hscan⟩ :=
        ofText_of_breaks (hbreaks.of_dash hmark hmembers hopen hset) offset
      exact .inr ⟨cause, place, front, hbreaks, hfront, hscan⟩

/-- `[ab-\d]` is rejected at the `b`, and `[a\d-z]` has the letter, the digits and what `[-z]`
    has. -/
theorem ofText_set_beside_dash_digits :
    (∃ front, ['[', 'a', 'b', '-', '\\', 'd', ']'] = front ++ ['b', '-', '\\', 'd', ']'] ∧
      ofText .pcre 0 ['[', 'a', 'b', '-', '\\', 'd', ']'] =
        ⟨[], some ⟨.setEndsRange, 0 + Text.utf8Size front⟩⟩) ∧
    ∃ later rest text, Bracket.Closes .pcre ['-', 'z', ']'] ⟨false, later⟩ rest ∧
      ['[', 'a', '\\', 'd', '-', 'z', ']'] = text ++ rest ∧
      ofText .pcre 0 ['[', 'a', '\\', 'd', '-', 'z', ']'] =
        (ofText .pcre (0 + Text.utf8Size text) rest).cons
          ⟨.atom (.charClass ⟨false, [.single 'a'] ++ ([⟨'0', '9'⟩] ++ later)⟩), text,
            ⟨0, 0 + Text.utf8Size text⟩⟩ := by
  have hletter : ∀ rest : List Char, rest.head? ≠ some '-' →
      Bracket.MembersAt .pcre ('a' :: rest) [[.single 'a']] rest := by
    intro rest hrest
    refine .cons (.single (.plain (by decide) nofun) ?_) nofun .nil
    rintro next after rfl
    exact absurd rfl hrest
  have hdigits : ∀ rest, Bracket.ItemAt .pcre ('\\' :: 'd' :: rest) (.set [⟨'0', '9'⟩]) rest :=
    .of_shorthand? rfl
  constructor
  · exact (ofText_set_beside_dash (.plain (by decide)) (hletter _ (by decide)) (by decide) 0).1
      'b' ['\\', 'd', ']'] _ _ (.plain (by decide) nofun) (hdigits _)
  · obtain hscan | ⟨cause, place, front, -, -, hscan⟩ :=
      (ofText_set_beside_dash (.plain (by decide)) (hletter _ (by decide)) (by decide) 0).2
        _ ['z', ']'] (hdigits _)
    · exact hscan
    · have hfailure : (ofText .pcre 0 ['[', 'a', '\\', 'd', '-', 'z', ']']).failure = none := by
        decide +kernel
      rw [hscan] at hfailure
      cases hfailure

/-- A set before a dash and a character is accepted, under either syntax. -/
theorem set_before_dash_accepted :
    (Bracket.ItemAt .pcre ['\\', 'd', '-', 'z', ']'] (.set [⟨'0', '9'⟩]) ['-', 'z', ']'] ∧
      Bracket.ItemAt .pcre ['z', ']'] (.char 'z') [']'] ∧
      (tokenize .pcre "[\\d-z]").failure = none) ∧
    Bracket.ItemAt .posix ['[', ':', 'd', 'i', 'g', 'i', 't', ':', ']', '-', 'z', ']']
        (.set [⟨'0', '9'⟩]) ['-', 'z', ']'] ∧
      Bracket.ItemAt .posix ['z', ']'] (.char 'z') [']'] ∧
      (tokenize .posix "[[:digit:]-z]").failure = none := by
  have hname : Bracket.IsSetName ['d', 'i', 'g', 'i', 't'] :=
    ⟨List.cons_ne_nil _ _, List.all_eq_true.mp rfl⟩
  exact ⟨⟨.of_shorthand? rfl _, .plain (by decide) nofun, by decide +kernel⟩,
    .of_named? hname rfl _, .plain (by decide) nofun, by decide +kernel⟩

end Scan

end PatternTree
