import PatternTree.Proofs.Token.Readers

namespace PatternTree

open Escape (isName readName)

/-- The texts that open a group. A name is an identifier and may be written in three ways. -/
inductive Opener.Spells : Opener → List Char → Prop where
  | capturing : Spells .capturing ['(']
  | nonCapturing : Spells .nonCapturing ['(', '?', ':']
  | angle {name : String} (hname : isName name.toList) :
      Spells (.named name) ('(' :: '?' :: '<' :: (name.toList ++ ['>']))
  | letter {name : String} (hname : isName name.toList) :
      Spells (.named name) ('(' :: '?' :: 'P' :: '<' :: (name.toList ++ ['>']))
  | quote {name : String} (hname : isName name.toList) :
      Spells (.named name) ('(' :: '?' :: '\'' :: (name.toList ++ ['\'']))

theorem Opener.Spells.exists_eq_cons {opener : Opener} {text : List Char}
    (hspells : opener.Spells text) : ∃ body, text = '(' :: body := by
  cases hspells <;> exact ⟨_, rfl⟩

/-- The texts of quantifiers. -/
inductive Quantifier.Spells : Quantifier → List Char → Prop where
  | star : Spells .star ['*']
  | plus : Spells .plus ['+']
  | optional : Spells .optional ['?']
  | counted {counts : Counts} (hwritten : counts.IsWritten) :
      Spells (.counted counts) ('\x7b' :: (counts.inside ++ ['\x7d']))

/-- The texts of tokens that are no atoms. -/
def TokenRole.Spells : TokenRole → List Char → Prop
  | atom _, _ => True
  | quantifier kind, text => kind.Spells text
  | bar, text => text = ['|']
  | opener kind, text => kind.Spells text
  | closer, text => text = [')']

namespace Scan

private theorem readName_convert_eq_ok_iff {closer : Char}
    (hcloser : Escape.isNameChar closer = false) {chars rest : List Char} {opener : Opener} :
    (readName closer chars).convert Opener.named = .ok (opener, rest) ↔
      ∃ name, opener = .named name ∧ isName name.toList ∧
        chars = name.toList ++ closer :: rest := by
  simp only [Reading.convert_eq_ok_iff, Escape.readName_eq_ok_iff hcloser]
  constructor
  · rintro ⟨name, hname, rfl⟩
    exact ⟨name, rfl, hname⟩
  · rintro ⟨name, rfl, hname⟩
    exact ⟨name, hname, rfl⟩

theorem spells_of_readOpener {body rest : List Char} {opener : Opener}
    (hread : readOpener (body ++ rest) = .ok (opener, rest)) : opener.Spells ('(' :: body) := by
  have hangle : Escape.isNameChar '>' = false := by decide
  have hquote : Escape.isNameChar '\'' = false := by decide
  unfold readOpener at hread
  split at hread
  next hchars =>
    cases hread
    obtain rfl : body = ['?', ':'] := List.append_cancel_right (hchars.trans rfl)
    exact .nonCapturing
  next hchars =>
    obtain ⟨name, rfl, hname, rfl⟩ := (readName_convert_eq_ok_iff hangle).mp hread
    obtain rfl : body = '?' :: 'P' :: '<' :: (name.toList ++ ['>']) :=
      List.append_cancel_right (hchars.trans (by simp))
    exact .letter hname
  next hchars =>
    obtain ⟨name, rfl, hname, rfl⟩ := (readName_convert_eq_ok_iff hquote).mp hread
    obtain rfl : body = '?' :: '\'' :: (name.toList ++ ['\'']) :=
      List.append_cancel_right (hchars.trans (by simp))
    exact .quote hname
  next hchars =>
    split at hread
    · obtain ⟨rfl, hrest⟩ : Opener.capturing = opener ∧ _ = rest := by simpa using hread
      obtain rfl : body = [] := List.append_cancel_right (hchars.trans hrest)
      exact .capturing
    · obtain ⟨name, rfl, hname, rfl⟩ := (readName_convert_eq_ok_iff hangle).mp hread
      obtain rfl : body = '?' :: '<' :: (name.toList ++ ['>']) :=
        List.append_cancel_right (hchars.trans (by simp))
      exact .angle hname
  · obtain ⟨rfl, hrest⟩ : Opener.capturing = opener ∧ body ++ rest = rest := by simpa using hread
    obtain rfl : body = [] := by simpa using hrest
    exact .capturing

/-- An opener is read from its text. Only an opener without a question mark of its own looks at
    what follows it. -/
theorem readOpener_of_spells {body : List Char} {opener : Opener}
    (hspells : opener.Spells ('(' :: body)) {rest : List Char}
    (hrest : opener = .capturing → rest.head? ≠ some '?') :
    readOpener (body ++ rest) = .ok (opener, rest) := by
  have hangle : Escape.isNameChar '>' = false := by decide
  have hquote : Escape.isNameChar '\'' = false := by decide
  cases hspells with
  | capturing =>
    simp only [List.nil_append]
    unfold readOpener
    split <;> simp_all
  | nonCapturing => rfl
  | @angle name hname =>
    have hfirst : ∀ mark : Char, Escape.isNameChar mark = false →
        (name.toList ++ '>' :: rest).head? ≠ some mark := by
      intro mark hmark
      cases hchars : name.toList with
      | nil => simp [hchars, isName] at hname
      | cons first others =>
        have hnameChar := Escape.isNameChar_of_isName hname first (by simp [hchars])
        rintro hsame
        obtain rfl : first = mark := by simpa using hsame
        simp [hnameChar] at hmark
    have hequals := hfirst '=' (by decide)
    have hbang := hfirst '!' (by decide)
    simp only [List.cons_append, List.append_assoc, List.nil_append, readOpener]
    rw [if_neg (by simp only [hequals, hbang, decide_false]; decide)]
    exact (readName_convert_eq_ok_iff hangle).mpr ⟨name, rfl, hname, rfl⟩
  | @letter name hname =>
    simp only [List.cons_append, List.append_assoc, List.nil_append, readOpener]
    exact (readName_convert_eq_ok_iff hangle).mpr ⟨name, rfl, hname, rfl⟩
  | @quote name hname =>
    simp only [List.cons_append, List.append_assoc, List.nil_append, readOpener]
    exact (readName_convert_eq_ok_iff hquote).mpr ⟨name, rfl, hname, rfl⟩

/-- An opener is a token of its own wherever it does not look at what follows. -/
theorem readToken_opener {classSyntax : ClassSyntax} {body : List Char} {opener : Opener}
    (hspells : opener.Spells ('(' :: body)) {rest : List Char}
    (hrest : opener = .capturing → rest.head? ≠ some '?') :
    readToken classSyntax '(' (body ++ rest) = .ok (.opener opener, rest) := by
  have hplaced := Reading.placed_of_ok (readOpener_of_spells hspells hrest) ('(' :: (body ++ rest))
  simp [readToken, simple?, hplaced]

/-- The text of a token that is no atom is one of the spellings of its role. -/
theorem spells_of_readToken {classSyntax : ClassSyntax} {char : Char} {body rest : List Char}
    {role : TokenRole}
    (hread : readToken classSyntax char (body ++ rest) = .ok (role, rest)) :
    role.Spells (char :: body) := by
  unfold readToken at hread
  split at hread
  next role' hsimple =>
    obtain ⟨rfl, hrest⟩ : role' = role ∧ body ++ rest = rest := by simpa using hread
    obtain rfl : body = [] := by simpa using hrest
    unfold simple? at hsimple
    split at hsimple <;> cases hsimple <;> first | exact trivial | exact rfl | constructor
  next hsimple =>
    split at hread
    · obtain ⟨opener, hopener, rfl⟩ := Reading.convert_eq_ok_iff.mp hread
      exact spells_of_readOpener (Reading.placed_eq_ok_iff.mp hopener)
    · obtain ⟨charClass, -, rfl⟩ := Reading.convert_eq_ok_iff.mp hread
      trivial
    · obtain ⟨atom, -, rfl⟩ := Reading.convert_eq_ok_iff.mp hread
      trivial
    · split at hread
      next counts rest' hcounts =>
        cases hread
        obtain ⟨hwritten, hchars⟩ := readCounts?_eq_some_iff.mp hcounts
        obtain rfl : body = counts.inside ++ ['\x7d'] :=
          List.append_cancel_right (hchars.trans (by simp))
        exact .counted hwritten
      · rw [← (Prod.mk.inj (Except.ok.inj hread)).1]
        trivial
    · rw [← (Prod.mk.inj (Except.ok.inj hread)).1]
      trivial

end Scan

end PatternTree
