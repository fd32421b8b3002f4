import PatternTree.Proofs.Bracket

namespace PatternTree

namespace Text

/-- A text with every backslash written twice. -/
def doubled (chars : List Char) : List Char :=
  chars.flatMap fun char => if char = '\\' then ['\\', '\\'] else [char]

variable {char : Char} {chars : List Char}

@[simp] theorem doubled_nil : doubled [] = [] := rfl

@[simp] theorem doubled_backslash (chars : List Char) :
    doubled ('\\' :: chars) = '\\' :: '\\' :: doubled chars := rfl

@[simp] theorem doubled_cons (hchar : char ≠ '\\') (chars : List Char) :
    doubled (char :: chars) = char :: doubled chars := by
  simp [doubled, hchar]

@[simp] theorem doubled_append (front back : List Char) :
    doubled (front ++ back) = doubled front ++ doubled back :=
  List.flatMap_append

@[simp] theorem head?_doubled (chars : List Char) : (doubled chars).head? = chars.head? := by
  cases chars with
  | nil => rfl
  | cons char chars =>
    by_cases hchar : char = '\\'
    · subst hchar
      rfl
    · rw [doubled_cons hchar]
      rfl

/-- Nothing changes where there is no backslash. -/
theorem doubled_eq_self (hchars : '\\' ∉ chars) : doubled chars = chars := by
  induction chars with
  | nil => rfl
  | cons char chars ih =>
    obtain ⟨hchar, hchars⟩ := List.ne_and_not_mem_of_not_mem_cons hchars
    rw [doubled_cons (Ne.symm hchar), ih hchars]

/-- What a text without backslashes is the front of, that it is the front of before the doubling. -/
theorem exists_of_doubled_eq_append {front back : List Char} (hfront : '\\' ∉ front)
    (hchars : doubled chars = front ++ back) :
    ∃ behind, chars = front ++ behind ∧ back = doubled behind := by
  induction front generalizing chars with
  | nil => exact ⟨chars, rfl, hchars.symm⟩
  | cons first front ih =>
    obtain ⟨hfirst, hfront⟩ := List.ne_and_not_mem_of_not_mem_cons hfront
    obtain ⟨others, rfl⟩ := List.head?_eq_some_iff.mp
      ((head?_doubled chars).symm.trans (congrArg List.head? hchars))
    rw [doubled_cons (Ne.symm hfirst)] at hchars
    obtain ⟨behind, rfl, hback⟩ := ih hfront (List.cons.inj hchars).2
    exact ⟨behind, rfl, hback⟩

end Text

namespace Bracket

open Text (doubled)

section Doubling

variable {chars body rest place : List Char} {item : Item} {cause : LexCause}
  {ranges : List ClassRange} {members : List (List ClassRange)} {negated : Bool}

theorem IsSetName.not_mem {name : List Char} (hname : IsSetName name) : '\\' ∉ name :=
  fun hmem => absurd (hname.2 _ hmem) (by decide)

/-- A backslash that is a character is one that escapes itself. -/
theorem ItemAt.doubled (hitem : ItemAt .posix chars item rest) :
    ItemAt .pcre (doubled chars) item (doubled rest) := by
  cases hitem with
  | @named name _ _ _ hname hset hranges =>
    have hsame := Text.doubled_eq_self hname.not_mem
    simpa [hsame] using ItemAt.named hname hset hranges
  | bracket hplain =>
    rw [Text.doubled_cons (by decide)]
    refine .bracket fun name after hname hrest => ?_
    have hfront : '\\' ∉ ':' :: (name ++ [':', ']']) := by
      simp [hname.not_mem]
    obtain ⟨behind, rfl, -⟩ := Text.exists_of_doubled_eq_append hfront
      (by simpa using hrest : Text.doubled _ = ':' :: (name ++ [':', ']']) ++ after)
    exact hplain name behind hname (by simp)
  | shorthand hpcre => cases hpcre
  | outside hpcre => cases hpcre
  | backspace hpcre => cases hpcre
  | escape hpcre => cases hpcre
  | @plain char rest hbracket =>
    by_cases hchar : char = '\\'
    · subst hchar
      exact .escape rfl (.self rfl)
    · rw [Text.doubled_cons hchar]
      exact .plain hbracket fun hbackslash => absurd hbackslash hchar

theorem NoItemAt.doubled (hitem : NoItemAt .posix chars cause) :
    NoItemAt .pcre (doubled chars) cause := by
  cases hitem with
  | @unknown name _ hname hset =>
    have hsame := Text.doubled_eq_self hname.not_mem
    simpa [hsame] using NoItemAt.unknown hname hset
  | ends hpcre => cases hpcre
  | escape hpcre => cases hpcre

theorem MemberAt.doubled (hmember : MemberAt .posix chars ranges rest) :
    MemberAt .pcre (doubled chars) ranges (doubled rest) := by
  cases hmember with
  | set hitem => exact .set hitem.doubled
  | single hitem hrest =>
    refine .single hitem.doubled fun next after hdash => ?_
    obtain ⟨behind, rfl, hbehind⟩ :=
      Text.exists_of_doubled_eq_append (by decide : '\\' ∉ ['-']) hdash
    obtain ⟨after', rfl⟩ := List.head?_eq_some_iff.mp
      ((Text.head?_doubled behind).symm.trans (congrArg List.head? hbehind.symm))
    exact hrest next after' rfl
  | range hlow hupper hhigh horder =>
    exact .range (by simpa using hlow.doubled) (by simpa using hupper) hhigh.doubled horder

theorem NoMemberAt.doubled (hmember : NoMemberAt .posix chars ⟨cause, place⟩) :
    NoMemberAt .pcre (doubled chars) ⟨cause, doubled place⟩ := by
  cases hmember with
  | item hitem => exact .item hitem.doubled
  | upper hlow hupper hitem =>
    exact .upper (by simpa using hlow.doubled) (by simpa using hupper) hitem.doubled
  | set hlow hupper hhigh =>
    exact .set (by simpa using hlow.doubled) (by simpa using hupper) hhigh.doubled
  | outOfOrder hlow hupper hhigh horder =>
    exact .outOfOrder (by simpa using hlow.doubled) (by simpa using hupper) hhigh.doubled horder

theorem MembersAt.doubled (hmembers : MembersAt .posix chars members rest) :
    MembersAt .pcre (doubled chars) members (doubled rest) := by
  induction hmembers with
  | nil => exact .nil
  | cons hmember hopen _ ih => exact .cons hmember.doubled (by simpa using hopen) ih

theorem Marked.doubled (hmark : Marked chars negated body) :
    Marked (doubled chars) negated (doubled body) := by
  cases hmark with
  | negated => simpa using Marked.negated
  | plain hmark => exact .plain (by simpa using hmark)

theorem Closes.doubled {charClass : CharClass} (hcloses : Closes .posix chars charClass rest) :
    Closes .pcre (doubled chars) charClass (doubled rest) := by
  obtain ⟨body, members, hmark, hne, hmembers, hranges⟩ := hcloses
  exact ⟨_, members, hmark.doubled, hne, by simpa using hmembers.doubled, hranges⟩

theorem Breaks.doubled (hbreaks : Breaks .posix chars ⟨cause, place⟩) :
    Breaks .pcre (doubled chars) ⟨cause, doubled place⟩ := by
  cases hbreaks with
  | ends hmark hmembers =>
    rw [Text.doubled_cons (by decide)]
    exact .ends hmark.doubled hmembers.doubled
  | member hmark hmembers hopen hfault =>
    exact .member hmark.doubled hmembers.doubled (by simpa using hopen) hfault.doubled

end Doubling

end Bracket

/-- A bracket expression means under the one syntax what it means under the other with its
    backslashes doubled: what follows the bracket is read as the same class, from the text with
    its backslashes doubled, or has the same fault at the same place. -/
theorem tokenize_doubled (body : String) :
    (∃ charClass text rest, '[' :: body.toList = text ++ rest ∧
      tokenize .posix ("[" ++ body) =
        (Scan.ofText .posix (Text.utf8Size text) rest).cons
          ⟨.atom (.charClass charClass), text, ⟨0, Text.utf8Size text⟩⟩ ∧
      tokenize .pcre ("[" ++ String.ofList (Text.doubled body.toList)) =
        (Scan.ofText .pcre (Text.utf8Size (Text.doubled text)) (Text.doubled rest)).cons
          ⟨.atom (.charClass charClass), Text.doubled text,
            ⟨0, Text.utf8Size (Text.doubled text)⟩⟩) ∨
    ∃ cause front place, '[' :: body.toList = front ++ place ∧
      tokenize .posix ("[" ++ body) = ⟨[], some ⟨cause, Text.utf8Size front⟩⟩ ∧
      tokenize .pcre ("[" ++ String.ofList (Text.doubled body.toList)) =
        ⟨[], some ⟨cause, Text.utf8Size (Text.doubled front)⟩⟩ := by
  have hbracket : ∀ chars, Text.doubled ('[' :: chars) = '[' :: Text.doubled chars :=
    fun chars => Text.doubled_cons (by decide) chars
  have hposix : tokenize .posix ("[" ++ body) = Scan.ofText .posix 0 ('[' :: body.toList) := by
    simp [tokenize]
  have hpcre : tokenize .pcre ("[" ++ String.ofList (Text.doubled body.toList)) =
      Scan.ofText .pcre 0 ('[' :: Text.doubled body.toList) := by
    simp [tokenize]
  rw [hposix, hpcre]
  obtain ⟨charClass, rest, hcloses⟩ | ⟨⟨cause, place⟩, hbreaks⟩ :=
    Bracket.closes_or_breaks .posix body.toList
  · obtain ⟨text, htext, hscan⟩ := Scan.ofText_of_closes hcloses 0
    obtain ⟨text', htext', hscan'⟩ := Scan.ofText_of_closes hcloses.doubled 0
    rw [← hbracket, htext, Text.doubled_append] at htext'
    obtain rfl := List.append_cancel_right htext'
    rw [Nat.zero_add] at hscan hscan'
    exact .inl ⟨charClass, text, rest, htext, hscan, hscan'⟩
  · obtain ⟨front, hfront, hscan⟩ := Scan.ofText_of_breaks hbreaks 0
    obtain ⟨front', hfront', hscan'⟩ := Scan.ofText_of_breaks hbreaks.doubled 0
    rw [← hbracket, hfront, Text.doubled_append] at hfront'
    obtain rfl := List.append_cancel_right hfront'
    rw [Nat.zero_add] at hscan hscan'
    exact .inr ⟨cause, front, place, hfront, hscan, hscan'⟩

end PatternTree
