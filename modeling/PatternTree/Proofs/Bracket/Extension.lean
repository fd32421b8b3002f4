import PatternTree.Proofs.Bracket

namespace PatternTree

/-- Whether an error says that something is there that is wrong, and not that something is missing:
    no continuation of the text mends it. -/
def LexFamily.IsInvalid (family : LexFamily) : Prop :=
  family = .invalidEscape ∨ family = .invalidClassRange

instance (family : LexFamily) : Decidable family.IsInvalid :=
  inferInstanceAs (Decidable (family = .invalidEscape ∨ family = .invalidClassRange))

theorem LexFamily.IsInvalid.ne {family : LexFamily} (hfamily : family.IsInvalid) :
    family ≠ .unterminatedEscape ∧ family ≠ .unterminatedClass ∧ family ≠ .invalidGroupName := by
  obtain rfl | rfl := hfamily <;> decide

/-- The first character of a text stays what it is when the text goes on. -/
theorem Text.head?_append_ne {chars : List Char} (hchars : chars ≠ []) {char : Char}
    (hhead : chars.head? ≠ some char) (more : List Char) : (chars ++ more).head? ≠ some char := by
  obtain ⟨first, others, rfl⟩ := List.exists_cons_of_ne_nil hchars
  exact hhead

/-- What is wrong with an escape stays wrong when the text goes on, unless it was cut off. -/
theorem Escape.Misspells.extend {char : Char} {chars : List Char} {cause : LexCause}
    (hmisspells : Escape.Misspells char chars cause)
    (hfamily : cause.family ≠ .unterminatedEscape) (more : List Char) :
    Escape.Misspells char (chars ++ more) cause := by
  -- a missing digit is one for another character exactly where some text follows the digits
  have hmissing : ∀ {rest : List Char}, (Escape.missingHexDigit rest).family ≠ .unterminatedEscape →
      rest ≠ [] ∧ Escape.missingHexDigit (rest ++ more) = Escape.missingHexDigit rest := by
    intro rest hfamily
    cases rest with
    | nil => exact absurd rfl hfamily
    | cons next rest => exact ⟨List.cons_ne_nil _ _, rfl⟩
  cases hmisspells with
  | unknown hcontrol halphanum hx hu => exact .unknown hcontrol halphanum hx hu
  | @short width digits rest hchar hwidth hall hrest hbrace =>
    obtain ⟨hne, hcause⟩ := hmissing hfamily
    rw [List.append_assoc, ← hcause]
    refine .short hchar hwidth hall ?_ fun hx => ?_
    · rwa [List.head?_append_of_ne_nil _ hne]
    · rw [← List.append_assoc]
      exact Text.head?_append_ne (List.append_ne_nil_of_right_ne_nil _ hne) (hbrace hx) more
  | code hchar hwidth hall hcode =>
    rw [List.append_assoc]
    exact .code hchar hwidth hall hcode
  | @bracedOpen digits rest hchar hall hrest =>
    obtain ⟨hne, hcause⟩ := hmissing hfamily
    rw [List.cons_append, List.append_assoc, ← hcause]
    refine .bracedOpen hchar hall ?_
    rwa [List.head?_append_of_ne_nil _ hne]
  | bracedEmpty hchar => exact .bracedEmpty hchar
  | bracedCode hchar hdigits hall hcode =>
    rw [List.cons_append, List.append_assoc, List.cons_append]
    exact .bracedCode hchar hdigits hall hcode

namespace Bracket

/-- Whether a character occurs in a text that stands in no name between colons. All that is wrong
    inside brackets needs such a character: a bracket, a backslash or a dash. -/
def LeavesName (chars : List Char) : Prop :=
  ∃ char ∈ chars, char = '[' ∨ char = '\\' ∨ char = '-'

section Items

variable {classSyntax : ClassSyntax} {chars rest : List Char} {item : Item} {cause : LexCause}

theorem LeavesName.append_left (hrest : LeavesName rest) (front : List Char) :
    LeavesName (front ++ rest) := by
  obtain ⟨char, hmem, hchar⟩ := hrest
  exact ⟨char, List.mem_append_right front hmem, hchar⟩

theorem LeavesName.ne_nil (hrest : LeavesName rest) : rest ≠ [] := by
  obtain ⟨char, hmem, -⟩ := hrest
  exact List.ne_nil_of_mem hmem

/-- An item takes at least one character. -/
theorem ItemAt.exists_body (hitem : ItemAt classSyntax chars item rest) :
    ∃ first body, chars = first :: (body ++ rest) := by
  obtain ⟨first, others, rfl⟩ := List.exists_cons_of_ne_nil hitem.ne_nil
  obtain ⟨body, rfl⟩ := readItem_leavesEnd classSyntax first others item rest hitem.readItem_eq
  exact ⟨first, body, rfl⟩

/-- An item stays what it is when the text goes on, except that a bracket which stands for itself
    may come to stand before a name. -/
theorem ItemAt.extend (hitem : ItemAt classSyntax chars item rest) (more : List Char) :
    ItemAt classSyntax (chars ++ more) item (rest ++ more) ∨
      chars = '[' :: rest ∧ item = .char '[' ∧ ∃ name after, IsSetName name ∧
        rest ++ more = ':' :: (name ++ ':' :: ']' :: after) := by
  cases hitem with
  | @named name rest _ ranges hname hset hranges =>
    left
    have hitem : ItemAt classSyntax ('[' :: ':' :: (name ++ ':' :: ']' :: (rest ++ more)))
        (.set ranges) (rest ++ more) := .named hname hset hranges
    simpa using hitem
  | bracket hplain =>
    by_cases hname : ∃ name after, IsSetName name ∧
        rest ++ more = ':' :: (name ++ ':' :: ']' :: after)
    · exact .inr ⟨rfl, rfl, hname⟩
    · exact .inl (.bracket fun name after hset hrest => hname ⟨name, after, hset, hrest⟩)
  | shorthand hpcre hset hranges => exact .inl (.shorthand hpcre hset hranges)
  | outside hpcre hset hothers => exact .inl (.outside hpcre hset hothers)
  | backspace hpcre => exact .inl (.backspace hpcre)
  | escape hpcre hspells =>
    rw [List.cons_append, List.cons_append, List.append_assoc]
    exact .inl (.escape hpcre hspells)
  | plain hbracket hbackslash => exact .inl (.plain hbracket hbackslash)

/-- A name between colons that a text does not hold does not come about behind one of the
    characters that stand in no name. -/
theorem ItemAt.extend_of_leavesName (hitem : ItemAt classSyntax chars item rest)
    (hrest : LeavesName rest) (more : List Char) :
    ItemAt classSyntax (chars ++ more) item (rest ++ more) := by
  obtain hitem' | ⟨rfl, rfl, name, after, hname, hmore⟩ := hitem.extend more
  · exact hitem'
  · have hletters : ∀ char ∈ ':' :: (name ++ [':', ']']),
        ¬ (char = '[' ∨ char = '\\' ∨ char = '-') := by
      intro char hmem hchar
      obtain hmem | hmem : char ∈ name ∨ char = ':' ∨ char = ']' := by
        simp only [List.mem_cons, List.mem_append, List.not_mem_nil, or_false] at hmem
        tauto
      · have hlower := hname.2 char hmem
        obtain rfl | rfl | rfl := hchar <;> exact absurd hlower (by decide)
      · obtain rfl | rfl := hmem <;> exact absurd hchar (by decide)
    have hsplit : rest ++ more = (':' :: (name ++ [':', ']'])) ++ after := by simp [hmore]
    obtain ⟨middle, hpiece, -⟩ | ⟨middle, hname', -⟩ := List.append_eq_append_iff.mp hsplit
    · -- the name would go on behind the text, all of which it would then hold
      obtain ⟨char, hmem, hchar⟩ := hrest
      exact absurd hchar (hletters char (hpiece ▸ List.mem_append_left middle hmem))
    · -- the name is there already
      generalize hchars : '[' :: rest = chars at hitem
      cases hitem with
      | bracket hplain => exact absurd (by simp [hname']) (hplain name middle hname)
      | escape => cases hchars
      | plain hbracket => exact absurd rfl hbracket

/-- Where no item starts, none does when the text goes on, unless an escape was cut off. -/
theorem NoItemAt.extend (hitem : NoItemAt classSyntax chars cause)
    (hfamily : cause.family ≠ .unterminatedEscape) (more : List Char) :
    NoItemAt classSyntax (chars ++ more) cause := by
  cases hitem with
  | @unknown name rest hname hset =>
    have hitem : NoItemAt classSyntax ('[' :: ':' :: (name ++ ':' :: ']' :: (rest ++ more)))
        (.unknownSet (String.ofList name)) := .unknown hname hset
    simpa using hitem
  | ends => exact absurd rfl hfamily
  | escape hpcre hset hbackspace hmisspells =>
    exact .escape hpcre hset hbackspace (hmisspells.extend hfamily more)

theorem NoItemAt.leavesName (hitem : NoItemAt classSyntax chars cause) : LeavesName chars := by
  cases hitem with
  | unknown => exact ⟨'[', List.mem_cons_self, .inl rfl⟩
  | ends => exact ⟨'\\', List.mem_cons_self, .inr (.inl rfl)⟩
  | escape => exact ⟨'\\', List.mem_cons_self, .inr (.inl rfl)⟩

end Items

section Members

variable {classSyntax : ClassSyntax} {chars rest : List Char} {ranges : List ClassRange}
  {members : List (List ClassRange)} {fault : Fault}

/-- A dash leaves a name. -/
theorem leavesName_dash (upper : List Char) : LeavesName ('-' :: upper) :=
  ⟨'-', List.mem_cons_self, .inr (.inr rfl)⟩

/-- A text with a fault has a character that stands in no name, and it is no dash alone. -/
theorem NoMemberAt.leavesName (hmember : NoMemberAt classSyntax chars fault) :
    LeavesName chars ∧ chars ≠ ['-'] := by
  have hrange : ∀ {low : Char} {upper : List Char},
      ItemAt classSyntax chars (.char low) ('-' :: upper) → LeavesName chars ∧ chars ≠ ['-'] := by
    intro low upper hlow
    obtain ⟨first, body, rfl⟩ := hlow.exists_body
    exact ⟨(leavesName_dash upper).append_left (first :: body), by simp⟩
  cases hmember with
  | item hitem =>
    refine ⟨hitem.leavesName, ?_⟩
    rintro rfl
    cases hitem
  | upper hlow => exact hrange hlow
  | set hlow => exact hrange hlow
  | outOfOrder hlow => exact hrange hlow

/-- A member stays what it is when the text goes on behind some fault. -/
theorem MemberAt.extend (hmember : MemberAt classSyntax chars ranges rest)
    (hrest : LeavesName rest) (hdash : rest ≠ ['-']) (more : List Char) :
    MemberAt classSyntax (chars ++ more) ranges (rest ++ more) := by
  cases hmember with
  | set hitem => exact .set (hitem.extend_of_leavesName hrest more)
  | single hitem hlast =>
    refine .single (hitem.extend_of_leavesName hrest more) fun next after hmore => ?_
    match rest with
    | [] => exact absurd rfl hrest.ne_nil
    | [first] =>
      obtain ⟨rfl, -⟩ := List.cons.inj hmore
      exact absurd rfl hdash
    | first :: second :: others =>
      obtain ⟨rfl, hothers⟩ := List.cons.inj hmore
      obtain ⟨rfl, -⟩ := List.cons.inj hothers
      exact hlast second others rfl
  | range hlow hupper hhigh horder =>
    exact .range (hlow.extend_of_leavesName (leavesName_dash _) more)
      (Text.head?_append_ne hhigh.ne_nil hupper more) (hhigh.extend_of_leavesName hrest more) horder

/-- A member that has a fault has one of the same family when the text goes on. A bracket that ends
    a range in the wrong order may come to name a set, which ends no range either. -/
theorem NoMemberAt.extend (hmember : NoMemberAt classSyntax chars fault)
    (hfamily : fault.cause.family.IsInvalid) (more : List Char) :
    ∃ fault', NoMemberAt classSyntax (chars ++ more) fault' ∧
      fault'.cause.family = fault.cause.family := by
  have hlow : ∀ {low : Char} {upper : List Char},
      ItemAt classSyntax chars (.char low) ('-' :: upper) →
        ItemAt classSyntax (chars ++ more) (.char low) ('-' :: (upper ++ more)) :=
    fun hlow => hlow.extend_of_leavesName (leavesName_dash _) more
  cases hmember with
  | item hitem => exact ⟨_, .item (hitem.extend hfamily.ne.1 more), rfl⟩
  | upper hlower hupper hitem =>
    exact ⟨_, .upper (hlow hlower) (Text.head?_append_ne hitem.ne_nil hupper more)
      (hitem.extend hfamily.ne.1 more), rfl⟩
  | set hlower hupper hhigh =>
    have hupper' := Text.head?_append_ne hhigh.ne_nil hupper more
    obtain hhigh' | ⟨-, hitem, -⟩ := hhigh.extend more
    · exact ⟨_, .set (hlow hlower) hupper' hhigh', rfl⟩
    · cases hitem
  | outOfOrder hlower hupper hhigh horder =>
    have hupper' := Text.head?_append_ne hhigh.ne_nil hupper more
    obtain hhigh' | ⟨rfl, -, name, after, hname, hmore⟩ := hhigh.extend more
    · exact ⟨_, .outOfOrder (hlow hlower) hupper' hhigh' horder, rfl⟩
    · have hlower' := hlow hlower
      rw [List.cons_append, hmore] at hlower' hupper'
      cases hset : CharClass.named? (String.ofList name) with
      | some ranges => exact ⟨_, .set hlower' hupper' (.of_named? hname hset after), rfl⟩
      | none =>
        have hset := CharClass.named?_eq_none_iff.mp hset
        exact ⟨_, .upper hlower' hupper' (.unknown hname hset), rfl⟩

theorem MembersAt.suffix (hmembers : MembersAt classSyntax chars members rest) :
    rest <:+ chars := by
  induction hmembers with
  | nil => exact List.suffix_refl _
  | @cons chars after rest ranges members hmember _ _ ih =>
    obtain ⟨first, others, rfl⟩ := List.exists_cons_of_ne_nil hmember.ne_nil
    have hafter := readMember_leavesEnd classSyntax first others _ _ hmember.readMember_eq
    exact (ih.trans hafter).trans (List.suffix_cons _ _)

/-- Members in front of a fault stay what they are when the text goes on. -/
theorem MembersAt.extend (hmembers : MembersAt classSyntax chars members rest)
    (hfault : NoMemberAt classSyntax rest fault) (more : List Char) :
    MembersAt classSyntax (chars ++ more) members (rest ++ more) := by
  induction hmembers with
  | nil => exact .nil
  | @cons chars after rest ranges members hmember hopen hmembers ih =>
    obtain ⟨front, rfl⟩ := hmembers.suffix
    obtain ⟨hrest, hdash⟩ := hfault.leavesName
    have hafter : LeavesName (front ++ rest) := hrest.append_left front
    refine .cons (hmember.extend hafter ?_ more)
      (fun hne => Text.head?_append_ne hafter.ne_nil (hopen hne) more) (ih hfault)
    intro hsingle
    obtain ⟨-, hrest'⟩ | ⟨-, hrest'⟩ := List.append_eq_singleton_iff.mp hsingle
    · exact hdash hrest'
    · exact hrest.ne_nil hrest'

end Members

/-- An expression that something is wrong with has a fault of the same family when the text goes
    on. -/
theorem Breaks.extend {classSyntax : ClassSyntax} {chars : List Char} {fault : Fault}
    (hbreaks : Breaks classSyntax chars fault) (hfamily : fault.cause.family.IsInvalid)
    (more : List Char) :
    ∃ fault', Breaks classSyntax (chars ++ more) fault' ∧
      fault'.cause.family = fault.cause.family := by
  cases hbreaks with
  | ends => exact absurd rfl hfamily.ne.2.1
  | @member negated body before members _ hmark hmembers hopen hfault =>
    obtain ⟨fault', hfault', hsame⟩ := hfault.extend hfamily more
    have hmembers' := hmembers.extend hfault more
    have hopen' := fun hne => Text.head?_append_ne hfault.ne_nil (hopen hne) more
    cases hmark with
    | negated => exact ⟨fault', .member .negated hmembers' hopen' hfault', hsame⟩
    | plain hplain =>
      have hchars : chars ≠ [] := by
        rintro rfl
        exact hfault.ne_nil (List.suffix_nil.mp hmembers.suffix)
      have hmark' := Text.head?_append_ne hchars hplain more
      exact ⟨fault', .member (.plain hmark') hmembers' hopen' hfault', hsame⟩

end Bracket

end PatternTree
