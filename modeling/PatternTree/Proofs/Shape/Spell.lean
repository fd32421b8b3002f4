import PatternTree.Proofs.Grammar.Limits
import PatternTree.Proofs.Token.Printed

namespace PatternTree

open TokenRole (Nested isOpener isCloser groupNames)

/-- A text that does not change how a printed shape before it is read: it starts with no digit
    and no question mark. -/
def Text.Inert (chars : List Char) : Prop :=
  ∀ char ∈ chars.head?, char ≠ '?' ∧ char.isDigit = false

/-- Lexemes that are read from a printed text, with the groups that are opened there and how
    many of them are open at once. -/
structure Spell (text : List Char) (groups : List Group) (depth : Nat)
    (lexemes : List Lexeme) : Prop where
  textOf_eq : Lexeme.textOf lexemes = text
  inert : ∀ rest, Text.Inert rest → Text.Inert (text ++ rest)
  reads : ∀ rest, Text.Inert rest → Lexeme.Reads .pcre rest lexemes
  numbered : Lexeme.numbered lexemes = (groups.filterMap Group.number).length
  names : groupNames (lexemes.map Lexeme.role) = groups.filterMap Group.name
  counts : ∀ counts, .quantifier (.counted counts) ∈ lexemes.map Lexeme.role → counts.Fit
  nested : Nested depth (lexemes.map Lexeme.role)

namespace Spell

variable {text text' : List Char} {groups groups' : List Group} {depth depth' : Nat}
  {lexemes lexemes' : List Lexeme}

/-- Lexemes that open and close nothing. -/
theorem of_plain (htext : Lexeme.textOf lexemes = text)
    (hinert : ∀ rest, Text.Inert rest → Text.Inert (text ++ rest))
    (hreads : ∀ rest, Text.Inert rest → Lexeme.Reads .pcre rest lexemes)
    (hcounts : ∀ counts, .quantifier (.counted counts) ∈ lexemes.map Lexeme.role → counts.Fit)
    (hplain : ∀ role ∈ lexemes.map Lexeme.role, role.isOpener = false ∧ role.isCloser = false) :
    Spell text [] 0 lexemes := by
  refine ⟨htext, hinert, hreads, ?_, ?_, hcounts, .of_plain hplain⟩
  · rw [Lexeme.numbered, List.filterMap_nil, List.length_nil, List.countP_eq_zero]
    intro lexeme hlexeme
    have hrole := (hplain _ (List.mem_map_of_mem hlexeme)).1
    cases hopener : lexeme.role <;> simp_all [TokenRole.isNumbered, isOpener]
  · rw [groupNames, List.filterMap_nil, List.filterMap_eq_nil_iff]
    intro role hrole
    have hopener := (hplain role hrole).1
    cases role <;> simp_all [TokenRole.groupName?, isOpener]

theorem nil : Spell [] [] 0 [] :=
  of_plain rfl (fun _ hrest => hrest) (fun _ _ => .nil) (by simp) (by simp)

theorem mono (hspell : Spell text groups depth lexemes) (hdepth : depth ≤ depth') :
    Spell text groups depth' lexemes :=
  { hspell with nested := hspell.nested.mono hdepth }

theorem append (hspell : Spell text groups depth lexemes)
    (hspell' : Spell text' groups' depth' lexemes') :
    Spell (text ++ text') (groups ++ groups') (max depth depth') (lexemes ++ lexemes') where
  textOf_eq := by rw [Lexeme.textOf_append, hspell.textOf_eq, hspell'.textOf_eq]
  inert := by
    intro rest hrest
    rw [List.append_assoc]
    exact hspell.inert _ (hspell'.inert rest hrest)
  reads := by
    intro rest hrest
    refine (hspell.reads _ ?_).append (hspell'.reads rest hrest)
    rw [hspell'.textOf_eq]
    exact hspell'.inert rest hrest
  numbered := by simp [hspell.numbered, hspell'.numbered]
  names := by simp [hspell.names, hspell'.names]
  counts := by
    intro counts hcounts
    rw [List.map_append, List.mem_append] at hcounts
    exact hcounts.elim (hspell.counts counts) (hspell'.counts counts)
  nested := by
    rw [List.map_append]
    exact hspell.nested.append hspell'.nested

/-- The text of a leaf. -/
theorem atom {atom : Atom} (hatom : atom.Proper) :
    Spell (Shape.printLabel [] atom.label) [] 0
      [⟨.atom atom, Shape.printLabel [] atom.label⟩] := by
  apply of_plain
  · simp
  · intro rest hrest
    obtain ⟨char, chars, htext, hmark, hdigit, -⟩ :=
      Scan.readToken_print hatom fun char hchar => (hrest char hchar).2
    rw [htext]
    intro other hother
    obtain rfl : char = other := by simpa using hother
    exact ⟨hmark, hdigit⟩
  · intro rest hrest
    obtain ⟨char, chars, htext, -, -, hread⟩ :=
      Scan.readToken_print hatom fun char hchar => (hrest char hchar).2
    rw [htext]
    exact .cons (by simpa using hread) .nil
  · simp
  · simp [isOpener, isCloser]

/-- The text of a bar. -/
theorem bar : Spell ['|'] [] 0 [Phrase.bar] := by
  apply of_plain
  · rfl
  · intro rest _ other hother
    obtain rfl : '|' = other := by simpa using hother
    decide
  · intro rest _
    exact .cons rfl .nil
  · simp [Phrase.bar]
  · simp [Phrase.bar, isOpener, isCloser]

end Spell

/-- The counts of printed bounds. -/
def Bounds.counts : Bounds → Counts
  | ⟨min, none⟩ => .atLeast (Text.decimal min)
  | ⟨min, some max⟩ =>
    if max = min then .exactly (Text.decimal min)
    else .between (Text.decimal min) (Text.decimal max)

namespace Bounds

theorem print_eq (bounds : Bounds) :
    bounds.print = '\x7b' :: (bounds.counts.inside ++ ['\x7d']) := by
  obtain ⟨min, max⟩ := bounds
  cases max with
  | none => simp [print, counts, Counts.inside]
  | some max => by_cases hsame : max = min <;> simp [print, counts, hsame, Counts.inside]

theorem isWritten_counts (bounds : Bounds) : bounds.counts.IsWritten := by
  have hnumeral : ∀ number, Counts.IsNumeral (Text.decimal number) :=
    fun number => ⟨Text.decimal_ne_nil number, Text.isDigit_of_mem_decimal⟩
  obtain ⟨min, max⟩ := bounds
  cases max with
  | none => exact hnumeral min
  | some max =>
    by_cases hsame : max = min <;> simp [counts, hsame, Counts.IsWritten, hnumeral]

theorem written_counts (bounds : Bounds) : bounds.counts.written = bounds := by
  obtain ⟨min, max⟩ := bounds
  cases max with
  | none => simp [counts, Counts.written]
  | some max => by_cases hsame : max = min <;> simp [counts, hsame, Counts.written]

theorem Proper.fit {bounds : Bounds} (hbounds : bounds.Proper) : bounds.counts.Fit := by
  obtain ⟨min, max⟩ := bounds
  obtain ⟨hmin, hmax⟩ := hbounds
  cases max with
  | none => simpa [counts, Counts.Fit] using hmin
  | some max =>
    obtain ⟨horder, hfits⟩ := hmax max rfl
    by_cases hsame : max = min
    · simpa [counts, hsame, Counts.Fit] using hmin
    · simpa [counts, hsame, Counts.Fit] using ⟨hmin, hfits, horder⟩

/-- The quantifier of printed bounds. -/
def suffix (greedy : Bool) (bounds : Bounds) : Suffix :=
  ⟨.counted bounds.counts, bounds.print, !greedy⟩

end Bounds

namespace Group

/-- The way in which a group is opened. -/
def opener : Group → Opener
  | ⟨_, some name⟩ => .named name
  | ⟨some _, none⟩ => .capturing
  | ⟨none, none⟩ => .nonCapturing

theorem Proper.spells {group : Group} (hgroup : group.Proper) :
    group.opener.Spells group.opening := by
  obtain ⟨number, name⟩ := group
  cases name with
  | some name => exact .angle (hgroup name rfl).1
  | none =>
    cases number with
    | some number => exact .capturing
    | none => exact .nonCapturing

theorem Proper.isNumbered_opener {group : Group} (hgroup : group.Proper) :
    (TokenRole.opener group.opener).isNumbered = group.number.isSome := by
  obtain ⟨number, name⟩ := group
  cases name with
  | some name => simpa [opener, TokenRole.isNumbered] using (hgroup name rfl).2.symm
  | none => cases number <;> rfl

theorem groupName?_opener (group : Group) :
    (TokenRole.opener group.opener).groupName? = group.name := by
  obtain ⟨number, name⟩ := group
  cases name with
  | some name => rfl
  | none => cases number <;> rfl

end Group

namespace Spell

variable {text : List Char} {groups : List Group} {depth : Nat} {lexemes : List Lexeme}

/-- The text of bounds, with or without the lazy mark behind them. -/
theorem suffix (greedy : Bool) {bounds : Bounds} (hbounds : bounds.Proper) :
    Spell (bounds.print ++ if greedy then [] else ['?']) [] 0
      (Phrase.suffixLexemes (some (bounds.suffix greedy))) := by
  have hread : ∀ rest, Scan.readToken .pcre '\x7b' (bounds.counts.inside ++ '\x7d' :: rest) =
      .ok (.quantifier (.counted bounds.counts), rest) := by
    intro rest
    have hcounts := Scan.readCounts?_of_isWritten bounds.isWritten_counts rest
    simp [Scan.readToken, Scan.simple?, hcounts]
  apply of_plain
  · cases greedy <;> simp [Bounds.suffix, Phrase.suffixLexemes, Phrase.lazyMark]
  · intro rest _ other hother
    rw [bounds.print_eq] at hother
    obtain rfl : '\x7b' = other := by simpa using hother
    decide
  · intro rest _
    simp only [Bounds.suffix, Phrase.suffixLexemes, bounds.print_eq]
    refine .cons ?_ ?_
    · simpa using hread _
    · cases greedy with
      | true => exact .nil
      | false => exact .cons rfl .nil
  · intro counts hcounts
    have hfit := hbounds.fit
    cases greedy <;>
      simp_all [Bounds.suffix, Phrase.suffixLexemes, Phrase.lazyMark]
  · cases greedy <;>
      simp [Bounds.suffix, Phrase.suffixLexemes, Phrase.lazyMark, isOpener, isCloser]

/-- The text of a group around another text. -/
theorem group {group : Group} (hgroup : group.Proper) (hspell : Spell text groups depth lexemes) :
    Spell (group.opening ++ (text ++ [')'])) (group :: groups) (depth + 1)
      (⟨.opener group.opener, group.opening⟩ :: (lexemes ++ [Phrase.closer])) := by
  have hclose : ∀ rest, Text.Inert (')' :: rest) := by
    intro rest other hother
    obtain rfl : ')' = other := by simpa using hother
    decide
  obtain ⟨body, hbody⟩ := hgroup.spells.exists_eq_cons
  refine ⟨?_, ?_, ?_, ?_, ?_, ?_, ?_⟩
  · simp [hspell.textOf_eq, Phrase.closer]
  · intro rest _ other hother
    rw [hbody] at hother
    obtain rfl : '(' = other := by simpa using hother
    decide
  · intro rest hrest
    have hinner : Lexeme.Reads .pcre rest (lexemes ++ [Phrase.closer]) :=
      Lexeme.Reads.append (hspell.reads _ (hclose rest)) (.cons rfl .nil)
    have hspells := hgroup.spells
    rw [hbody] at hspells ⊢
    refine .cons (Scan.readToken_opener hspells ?_) hinner
    intro _ hmark
    have hinert := hspell.inert _ (hclose rest) '?'
    rw [← hspell.textOf_eq] at hinert
    exact (hinert (by simpa [Phrase.closer] using hmark)).1 rfl
  · have hnumbered := hgroup.isNumbered_opener
    cases hnumber : group.number <;> simp [hnumbered, hnumber, hspell.numbered, Nat.add_comm]
  · have hname := group.groupName?_opener
    have hcloser : Phrase.closer.role.groupName? = none := rfl
    cases hname' : group.name <;> simp [hname, hname', hspell.names, hcloser]
  · intro counts hcounts
    apply hspell.counts
    simpa [Phrase.closer] using hcounts
  · rw [List.map_cons, List.map_append]
    exact hspell.nested.group group.opener

end Spell

end PatternTree
