import PatternTree.Proofs.Bracket.Member
import PatternTree.Proofs.Span
import PatternTree.Proofs.Token.Faults

namespace PatternTree

namespace Bracket

/-- Members that stand one after the other, by what each of them contributes. Only in front of all
    of them a closing bracket is a member. -/
inductive MembersAt (classSyntax : ClassSyntax) :
    List Char → List (List ClassRange) → List Char → Prop where
  | nil {chars : List Char} : MembersAt classSyntax chars [] chars
  | cons {chars after rest : List Char} {ranges : List ClassRange}
      {members : List (List ClassRange)} (hmember : MemberAt classSyntax chars ranges after)
      (hopen : members ≠ [] → after.head? ≠ some ']')
      (hmembers : MembersAt classSyntax after members rest) :
      MembersAt classSyntax chars (ranges :: members) rest

/-- Whether a text after an opening bracket starts with the mark that negates the expression, and
    what it goes on with. -/
inductive Marked : List Char → Bool → List Char → Prop where
  | negated {body : List Char} : Marked ('^' :: body) true body
  | plain {body : List Char} (hmark : body.head? ≠ some '^') : Marked body false body

/-- The class of a text after an opening bracket, and what follows the bracket that closes it, which
    is never the first thing inside. -/
def Closes (classSyntax : ClassSyntax) (chars : List Char) (charClass : CharClass)
    (rest : List Char) : Prop :=
  ∃ body members, Marked chars charClass.negated body ∧ members ≠ [] ∧
    MembersAt classSyntax body members (']' :: rest) ∧ charClass.ranges = members.flatten

/-- Why a text after an opening bracket is no class, and where: it ends before a bracket closes it,
    which is the fault of the opening bracket, or some member has a fault. -/
inductive Breaks (classSyntax : ClassSyntax) (chars : List Char) : Fault → Prop where
  | ends {negated : Bool} {body : List Char} {members : List (List ClassRange)}
      (hmark : Marked chars negated body) (hmembers : MembersAt classSyntax body members []) :
      Breaks classSyntax chars ⟨.openClass, '[' :: chars⟩
  | member {negated : Bool} {body before : List Char} {members : List (List ClassRange)}
      {fault : Fault} (hmark : Marked chars negated body)
      (hmembers : MembersAt classSyntax body members before)
      (hopen : members ≠ [] → before.head? ≠ some ']')
      (hfault : NoMemberAt classSyntax before fault) : Breaks classSyntax chars fault

section Reading

variable {classSyntax : ClassSyntax} {chars body rest : List Char}
  {members : List (List ClassRange)} {negated : Bool}

theorem MembersAt.head?_ne (hmembers : MembersAt classSyntax chars members rest)
    (hchars : members ≠ [] → chars.head? ≠ some ']') (hrest : rest.head? ≠ some ']') :
    chars.head? ≠ some ']' := by
  cases hmembers with
  | nil => exact hrest
  | cons => exact hchars (List.cons_ne_nil _ _)

theorem MembersAt.head?_ne_behind (hmembers : MembersAt classSyntax chars members rest)
    (hchars : chars.head? ≠ some ']') (hrest : members ≠ [] → rest.head? ≠ some ']') :
    rest.head? ≠ some ']' := by
  cases hmembers with
  | nil => exact hchars
  | cons => exact hrest (List.cons_ne_nil _ _)

/-- Members are read one after the other as long as no closing bracket stands behind one. -/
theorem MembersAt.readMembers_eq (hmembers : MembersAt classSyntax chars members rest)
    (hopen : members ≠ [] → rest.head? ≠ some ']') (bracket : List Char) :
    readMembers classSyntax bracket chars =
      (readMembers classSyntax bracket rest).convert (members.flatten ++ ·) := by
  induction hmembers with
  | @nil chars => cases readMembers classSyntax bracket chars <;> rfl
  | @cons chars after rest ranges members hmember hopen' hmembers ih =>
    obtain ⟨char, chars, rfl⟩ := List.exists_cons_of_ne_nil hmember.ne_nil
    have hrest := hopen (List.cons_ne_nil _ _)
    rw [readMembers_of_more hmember.readMember_eq (hmembers.head?_ne hopen' hrest),
      ih fun _ => hrest, Reading.convert_convert]
    simp only [List.flatten_cons, List.append_assoc]

/-- Members before a closing bracket are all there are. -/
theorem MembersAt.readMembers_of_close
    (hmembers : MembersAt classSyntax chars members (']' :: rest)) (hne : members ≠ [])
    (bracket : List Char) :
    readMembers classSyntax bracket chars = .ok (members.flatten, rest) := by
  generalize hbehind : ']' :: rest = behind at hmembers
  induction hmembers with
  | nil => exact absurd rfl hne
  | @cons chars after behind ranges members hmember hopen hmembers ih =>
    obtain ⟨char, chars, rfl⟩ := List.exists_cons_of_ne_nil hmember.ne_nil
    cases hmembers with
    | nil =>
      subst hbehind
      rw [readMembers_of_last hmember.readMember_eq, List.flatten_cons, List.flatten_nil,
        List.append_nil]
    | cons =>
      rw [readMembers_of_more hmember.readMember_eq (hopen (List.cons_ne_nil _ _)),
        ih (List.cons_ne_nil _ _) hbehind]
      rfl

/-- The members of a text go on up to a closing bracket, to the end or to a fault. -/
theorem exists_membersAt (classSyntax : ClassSyntax) (bracket chars : List Char) :
    (∃ members rest, members ≠ [] ∧ MembersAt classSyntax chars members (']' :: rest)) ∨
      (∃ members, MembersAt classSyntax chars members []) ∨
      ∃ members before fault, MembersAt classSyntax chars members before ∧
        (members ≠ [] → before.head? ≠ some ']') ∧ NoMemberAt classSyntax before fault := by
  fun_induction readMembers classSyntax bracket chars with
  | case1 => exact .inr (.inl ⟨[], .nil⟩)
  | case2 char chars fault hmember =>
    exact .inr (.inr ⟨[], _, fault, .nil, absurd rfl, readMember_eq_error_iff.mp hmember⟩)
  | case3 char chars ranges rest hmember hclose =>
    obtain ⟨rest, rfl⟩ := List.head?_eq_some_iff.mp hclose
    exact .inl ⟨[ranges], rest, List.cons_ne_nil _ _,
      .cons (readMember_eq_ok_iff.mp hmember) (absurd rfl) .nil⟩
  | case4 char chars ranges after hmember hafter ih =>
    have hmember := readMember_eq_ok_iff.mp hmember
    obtain ⟨members, rest, -, hmembers⟩ | ⟨members, hmembers⟩ |
      ⟨members, before, fault, hmembers, hopen, hfault⟩ := ih
    · exact .inl ⟨ranges :: members, rest, List.cons_ne_nil _ _,
        .cons hmember (fun _ => hafter) hmembers⟩
    · exact .inr (.inl ⟨ranges :: members, .cons hmember (fun _ => hafter) hmembers⟩)
    · exact .inr (.inr ⟨ranges :: members, before, fault,
        .cons hmember (fun _ => hafter) hmembers,
        fun _ => hmembers.head?_ne_behind hafter hopen, hfault⟩)

theorem Marked.read_eq (hmark : Marked chars negated body) (bracket : List Char) :
    read classSyntax bracket chars =
      (readMembers classSyntax bracket body).convert (⟨negated, ·⟩) := by
  cases hmark with
  | negated => rfl
  | plain hmark =>
    unfold read
    split
    · exact absurd rfl hmark
    · rfl

theorem exists_marked (chars : List Char) : ∃ negated body, Marked chars negated body := by
  by_cases hmark : chars.head? = some '^'
  · obtain ⟨body, rfl⟩ := List.head?_eq_some_iff.mp hmark
    exact ⟨true, body, .negated⟩
  · exact ⟨false, chars, .plain hmark⟩

theorem Closes.read_eq {charClass : CharClass} (hcloses : Closes classSyntax chars charClass rest)
    (bracket : List Char) : read classSyntax bracket chars = .ok (charClass, rest) := by
  obtain ⟨body, members, hmark, hne, hmembers, hranges⟩ := hcloses
  rw [hmark.read_eq, hmembers.readMembers_of_close hne, Reading.convert_ok, ← hranges]

theorem Breaks.read_eq {fault : Fault} (hbreaks : Breaks classSyntax chars fault) :
    read classSyntax ('[' :: chars) chars = .error fault := by
  cases hbreaks with
  | ends hmark hmembers =>
    rw [hmark.read_eq, hmembers.readMembers_eq (by simp), readMembers]
    rfl
  | @member _ _ before _ _ hmark hmembers hopen hfault =>
    obtain ⟨char, chars, rfl⟩ := List.exists_cons_of_ne_nil hfault.ne_nil
    rw [hmark.read_eq, hmembers.readMembers_eq hopen, readMembers_of_error hfault.readMember_eq]
    rfl

/-- Every text after an opening bracket closes the expression or breaks it. -/
theorem closes_or_breaks (classSyntax : ClassSyntax) (chars : List Char) :
    (∃ charClass rest, Closes classSyntax chars charClass rest) ∨
      ∃ fault, Breaks classSyntax chars fault := by
  obtain ⟨negated, body, hmark⟩ := exists_marked chars
  obtain ⟨members, rest, hne, hmembers⟩ | ⟨members, hmembers⟩ |
    ⟨members, before, fault, hmembers, hopen, hfault⟩ := exists_membersAt classSyntax chars body
  · exact .inl ⟨⟨negated, members.flatten⟩, rest, body, members, hmark, hne, hmembers, rfl⟩
  · exact .inr ⟨_, .ends hmark hmembers⟩
  · exact .inr ⟨fault, .member hmark hmembers hopen hfault⟩

end Reading

end Bracket

namespace Scan

variable {classSyntax : ClassSyntax} {chars rest : List Char}

theorem readToken_of_closes {charClass : CharClass}
    (hcloses : Bracket.Closes classSyntax chars charClass rest) :
    readToken classSyntax '[' chars = .ok (.atom (.charClass charClass), rest) := by
  have hread := hcloses.read_eq ('[' :: chars)
  simp [readToken, simple?, hread]

theorem readToken_of_breaks {fault : Fault} (hbreaks : Bracket.Breaks classSyntax chars fault) :
    readToken classSyntax '[' chars = .error fault := by
  have hread := hbreaks.read_eq
  simp [readToken, simple?, hread]

theorem ofText_of_closes {charClass : CharClass}
    (hcloses : Bracket.Closes classSyntax chars charClass rest) (offset : Nat) :
    ∃ text, '[' :: chars = text ++ rest ∧ ofText classSyntax offset ('[' :: chars) =
      (ofText classSyntax (offset + Text.utf8Size text) rest).cons
        ⟨.atom (.charClass charClass), text, ⟨offset, offset + Text.utf8Size text⟩⟩ := by
  have hread := readToken_of_closes hcloses
  obtain ⟨body, htext⟩ := exists_text_of_readToken hread
  exact ⟨'[' :: body, htext, ofText_of_ok hread htext offset⟩

theorem ofText_of_breaks {fault : Fault} (hbreaks : Bracket.Breaks classSyntax chars fault)
    (offset : Nat) :
    ∃ front, '[' :: chars = front ++ fault.place ∧ ofText classSyntax offset ('[' :: chars) =
      ⟨[], some ⟨fault.cause, offset + Text.utf8Size front⟩⟩ := by
  have hread := readToken_of_breaks hbreaks
  obtain ⟨front, hfront⟩ := (liesIn_of_readToken_eq_error hread).2
  refine ⟨front, hfront.symm, ?_⟩
  rw [ofText_of_error hread, ← hfront, Text.utf8Size_append, Nat.add_sub_cancel]

end Scan

end PatternTree
