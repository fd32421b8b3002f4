import PatternTree.Proofs.Grammar.Parts
import PatternTree.Proofs.References
import PatternTree.Proofs.Token.Codes
import PatternTree.Proofs.Token.Printed
import PatternTree.Proofs.Token.Starts

namespace PatternTree

/-- The characters that are no literals wherever a token starts with them. -/
def Scan.specials : List Char :=
  ['.', '^', '$', '|', '*', '+', '?', '(', ')', '[', '\\']

/-- The texts of a literal: a character that is not special, a backslash before a character that is
    no ASCII letter or digit, a control character by its name, and a character by its code. -/
inductive Literal.Spells (char : Char) : List Char → Prop where
  | plain (hspecial : char ∉ Scan.specials) : Spells char [char]
  | escaped (hescaped : char.isAlphanum = false) : Spells char ['\\', char]
  | control {letter : Char} (hnamed : Escape.NamesControl letter char) :
      Spells char ['\\', letter]
  | code {body digits : List Char} (hcodes : Escape.Codes body digits)
      (hcode : Text.hexadecimalValue digits = char.toNat) : Spells char ('\\' :: body)

/-- The lexeme of a character and the text that it is written with. -/
def Literal.lexeme (spelled : Char × List Char) : Lexeme :=
  ⟨.atom (.literal spelled.1), spelled.2⟩

/-- The trees of characters that stand one after the other from an offset on, each with the text
    that it is written with. -/
def Tree.literals (offset : Nat) : List (Char × List Char) → List Tree
  | [] => []
  | (char, text) :: others =>
    .leaf (.literal char) ⟨offset, offset + Text.utf8Size text⟩ ::
      literals (offset + Text.utf8Size text) others

section Reading

variable {char letter : Char} {chars body text rest : List Char} {classSyntax : ClassSyntax}

/-- A character by its code is what the digits come to. -/
theorem Escape.character_eq_ok_iff {code : Nat} :
    character code = .ok char ↔ char.toNat = code := by
  constructor
  · intro hcharacter
    unfold character at hcharacter
    split at hcharacter
    next hcode =>
      cases hcharacter
      exact CharClass.toNat_ofNat hcode
    · cases hcharacter
  · rintro rfl
    exact character_toNat char

/-- The escapes of literals are what writes a character behind a backslash. -/
theorem Literal.spells_backslash_iff :
    Literal.Spells char ('\\' :: letter :: body) ↔ Escape.Spells letter body char := by
  constructor
  · intro hspells
    cases hspells with
    | escaped hescaped => exact .self hescaped
    | control hnamed => exact .control hnamed
    | code hcodes hcode =>
      obtain ⟨_, _, hbody, hspells⟩ :=
        hcodes.exists_spells (Escape.character_eq_ok_iff.mpr hcode.symm)
      cases hbody
      exact hspells
  · intro hspells
    cases hspells with
    | control hnamed => exact .control hnamed
    | braced hletter hdigits hall hcode =>
      subst hletter
      exact .code (.braced hdigits hall) (Escape.character_eq_ok_iff.mp hcode).symm
    | fixed hletter hwidth hall hcode =>
      exact .code (.fixed hletter hwidth hall) (Escape.character_eq_ok_iff.mp hcode).symm
    | self hself => exact .escaped hself

/-- A literal is written with the character itself or begins with a backslash. -/
theorem Literal.Spells.eq_or_exists (hspells : Literal.Spells char text) :
    (text = [char] ∧ char ∉ Scan.specials) ∨ ∃ letter body, text = '\\' :: letter :: body := by
  cases hspells with
  | plain hspecial => exact .inl ⟨rfl, hspecial⟩
  | escaped => exact .inr ⟨_, _, rfl⟩
  | control => exact .inr ⟨_, _, rfl⟩
  | code hcodes =>
    cases hcodes with
    | braced => exact .inr ⟨_, _, rfl⟩
    | fixed => exact .inr ⟨_, _, rfl⟩

/-- Special are the characters that make a token alone and those that start other tokens than
    literals and counts. -/
theorem Scan.not_mem_specials_iff :
    char ∉ specials ↔ simple? char = none ∧ char ≠ '(' ∧ char ≠ '[' ∧ char ≠ '\\' := by
  constructor
  · intro hspecial
    refine ⟨?_, ?_, ?_, ?_⟩
    · unfold simple?
      split <;> first | rfl | exact absurd (by decide) hspecial
    all_goals
      rintro rfl
      exact hspecial (by decide)
  · rintro ⟨hsimple, hopener, hbracket, hbackslash⟩ hmem
    simp only [specials, List.mem_cons, List.not_mem_nil, or_false] at hmem
    obtain rfl | rfl | rfl | rfl | rfl | rfl | rfl | rfl | rfl | rfl | rfl := hmem
    all_goals contradiction

/-- A character that is neither special nor a brace is a literal whatever follows it. -/
theorem Scan.readToken_of_plain (hspecial : char ∉ specials) (hbrace : char ≠ '\x7b')
    (rest : List Char) : readToken classSyntax char rest = .ok (.atom (.literal char), rest) := by
  obtain ⟨hsimple, hopener, hbracket, hbackslash⟩ := not_mem_specials_iff.mp hspecial
  simp only [readToken, hsimple]

/-- The text of a literal is read as the literal whatever follows it, unless it is an opening
    brace. -/
theorem Literal.Spells.exists_readToken (hspells : Literal.Spells char text)
    (hbrace : text ≠ ['\x7b']) :
    ∃ first body, text = first :: body ∧ ∀ classSyntax rest,
      Scan.readToken classSyntax first (body ++ rest) = .ok (.atom (.literal char), rest) := by
  obtain ⟨rfl, hspecial⟩ | ⟨letter, body, rfl⟩ := hspells.eq_or_exists
  · refine ⟨char, [], rfl, fun classSyntax rest => Scan.readToken_of_plain hspecial ?_ rest⟩
    rintro rfl
    exact hbrace rfl
  · refine ⟨'\\', letter :: body, rfl, fun classSyntax rest => ?_⟩
    exact Scan.readToken_backslash ((Literal.spells_backslash_iff.mp hspells).read_eq rest)

/-- An escape that is a literal writes a character. -/
theorem Escape.exists_spells_of_read (hread : read chars = .ok (.literal char, rest)) :
    ∃ letter body, chars = letter :: (body ++ rest) ∧ Spells letter body char := by
  cases chars with
  | nil => cases hread
  | cons letter chars =>
    simp only [read] at hread
    split at hread
    · cases hread
    · cases hread
    · split at hread
      · cases chars with
        | nil => cases hread
        | cons opener chars =>
          simp only [readReference] at hread
          split at hread
          · cases hread
          · obtain ⟨name, -, hname⟩ := Reading.convert_eq_ok_iff.mp hread
            cases hname
      · split at hread
        · obtain ⟨_, -, -, -, -, hnumber⟩ := readNumber_eq_ok_iff.mp hread
          cases hnumber
        · obtain ⟨written, hwritten, hsame⟩ := Reading.convert_eq_ok_iff.mp hread
          cases hsame
          obtain ⟨body, rfl, hspells⟩ := readCharacter_eq_ok_iff.mp hwritten
          exact ⟨letter, body, rfl, hspells⟩

/-- The text of every token that is a literal spells its character. -/
theorem Scan.spells_of_readToken_literal {first : Char}
    (hread : readToken classSyntax first (body ++ rest) = .ok (.atom (.literal char), rest)) :
    Literal.Spells char (first :: body) := by
  unfold readToken at hread
  split at hread
  next role hsimple =>
    obtain ⟨rfl, -⟩ := Prod.mk.inj (Except.ok.inj hread)
    unfold simple? at hsimple
    split at hsimple <;> cases hsimple
  next hsimple =>
    split at hread
    · obtain ⟨opener, -, hopener⟩ := Reading.convert_eq_ok_iff.mp hread
      cases hopener
    · obtain ⟨charClass, -, hclass⟩ := Reading.convert_eq_ok_iff.mp hread
      cases hclass
    · obtain ⟨atom, hatom, hsame⟩ := Reading.convert_eq_ok_iff.mp hread
      cases hsame
      -- Only behind a backslash there is more to read: any other character stands for itself.
      obtain ⟨letter, others, hbody, hspells⟩ :=
        Escape.exists_spells_of_read (Reading.placed_eq_ok_iff.mp hatom)
      obtain rfl : body = letter :: others := List.append_cancel_right hbody
      exact Literal.spells_backslash_iff.mpr hspells
    · split at hread
      · cases hread
      · obtain ⟨hrole, hrest⟩ := Prod.mk.inj (Except.ok.inj hread)
        cases hrole
        obtain rfl : body = [] := by simpa using hrest
        exact .plain (by decide)
    next hopener hbracket hbackslash _ =>
      obtain ⟨hrole, hrest⟩ := Prod.mk.inj (Except.ok.inj hread)
      cases hrole
      obtain rfl : body = [] := by simpa using hrest
      exact .plain (not_mem_specials_iff.mpr ⟨hsimple, hopener, hbracket, hbackslash⟩)

end Reading

/-- Every character can be written as a literal by other texts than an opening brace. -/
theorem Literal.exists_spells (char : Char) : ∃ text, Spells char text ∧ text ≠ ['\x7b'] := by
  by_cases hplain : char ∉ Scan.specials ∧ char ≠ '\x7b'
  · exact ⟨[char], .plain hplain.1, by simpa using hplain.2⟩
  · refine ⟨['\\', char], .escaped ?_, by simp⟩
    by_cases hbrace : char = '\x7b'
    · subst hbrace
      decide
    · have hmem : char ∈ Scan.specials := by
        by_contra hspecial
        exact hplain ⟨hspecial, hbrace⟩
      exact (by simp [Scan.specials] : ∀ char ∈ Scan.specials, char.isAlphanum = false) char hmem

/-- Atoms alone meet every limit. -/
theorem Dialect.admits_of_atoms {dialect : Dialect} {roles : List TokenRole}
    (hatoms : ∀ role ∈ roles, ∃ atom, role = .atom atom) : dialect.Admits roles where
  counts counts hcounts := by
    obtain ⟨atom, hatom⟩ := hatoms _ hcounts
    cases hatom
  depth front hfront := by
    have hnested : TokenRole.Nested 0 roles := by
      refine .of_plain fun role hrole => ?_
      obtain ⟨atom, rfl⟩ := hatoms role hrole
      exact ⟨rfl, rfl⟩
    have hle := hnested.openers_le front hfront
    omega
  names _ := by
    have hnone : TokenRole.groupNames roles = [] := by
      refine List.filterMap_eq_nil_iff.mpr fun role hrole => ?_
      obtain ⟨atom, rfl⟩ := hatoms role hrole
      rfl
    rw [hnone]
    exact .nil

/-- Without groups among its nodes a tree declares none. -/
theorem GroupTable.ofNodes_of_ne_group {nodes : List Node}
    (hlabels : ∀ node ∈ nodes, ∀ opened, node.label ≠ .group opened) : ofNodes nodes = {} := by
  induction nodes using List.reverseRecOn with
  | nil => rfl
  | append_singleton nodes node ih =>
    rw [ofNodes_concat, ih fun other hother => hlabels other (List.mem_append_left _ hother)]
    exact declareNode_of_ne_group _ _ (hlabels node (by simp))

namespace Literal

variable {spelled : List (Char × List Char)}

/-- The derivation of a literal. -/
def phrase (spelled : Char × List Char) : Phrase :=
  .leaf (.literal spelled.1) spelled.2 none

theorem sequenceLexemes_map_phrase (spelled : List (Char × List Char)) :
    Phrase.sequenceLexemes (spelled.map phrase) = spelled.map lexeme := by
  induction spelled with
  | nil => rfl
  | cons pair others ih =>
    rw [List.map_cons, Phrase.sequenceLexemes, ih]
    rfl

theorem items_map_phrase (offset numbered : Nat) (spelled : List (Char × List Char)) :
    (Phrase.items offset numbered (spelled.map phrase)).map Item.tree =
      Tree.literals offset spelled := by
  induction spelled generalizing offset numbered with
  | nil => rfl
  | cons pair others ih =>
    obtain ⟨char, text⟩ := pair
    have hsize : Lexeme.size (phrase (char, text)).lexemes = Text.utf8Size text := by
      simp [phrase, Phrase.lexemes, Phrase.suffixLexemes]
    rw [List.map_cons, Phrase.items, List.map_cons, ih, hsize]
    rfl

theorem textOf_map_lexeme (spelled : List (Char × List Char)) :
    Lexeme.textOf (spelled.map lexeme) = spelled.flatMap Prod.snd := by
  rw [Lexeme.textOf, List.flatMap_map]
  rfl

/-- Literals are read one after the other, whatever follows them. -/
theorem reads (hspelled : ∀ pair ∈ spelled, Spells pair.1 pair.2 ∧ pair.2 ≠ ['\x7b'])
    (classSyntax : ClassSyntax) (rest : List Char) :
    Lexeme.Reads classSyntax rest (spelled.map lexeme) := by
  induction spelled with
  | nil => exact .nil
  | cons pair others ih =>
    obtain ⟨char, text⟩ := pair
    obtain ⟨hspells, hbrace⟩ := hspelled (char, text) List.mem_cons_self
    obtain ⟨first, body, rfl, hread⟩ := hspells.exists_readToken hbrace
    exact .cons (hread classSyntax _) (ih fun pair hpair => hspelled pair (.tail _ hpair))

/-- Literals derive from the grammar as the items of one branch. -/
theorem derives (hspelled : ∀ pair ∈ spelled, Spells pair.1 pair.2 ∧ pair.2 ≠ ['\x7b'])
    (dialect : Dialect) :
    dialect.Derives (spelled.flatMap Prod.snd) (Choice.ofBranch (spelled.map phrase)) := by
  have hlexemes : (Choice.ofBranch (spelled.map phrase)).lexemes = spelled.map lexeme := by
    rw [Choice.lexemes_ofBranch, sequenceLexemes_map_phrase]
  refine ⟨?_, ?_, Dialect.admits_of_atoms ?_⟩
  · rw [hlexemes, textOf_map_lexeme]
  · rw [hlexemes]
    exact reads hspelled dialect.classSyntax []
  · rw [hlexemes, List.map_map]
    intro role hrole
    obtain ⟨pair, -, rfl⟩ := List.mem_map.mp hrole
    exact ⟨_, rfl⟩

/-- The tree of literals is the concatenation of their leaves, or the only leaf there is. -/
theorem tree_ofBranch_map_phrase (spelled : List (Char × List Char)) :
    (Choice.ofBranch (spelled.map phrase)).tree 0 0 = .sequence 0 (Tree.literals 0 spelled) := by
  rw [Choice.tree_ofBranch, items_map_phrase]
  match spelled with
  | [] => rfl
  | [_] => rfl
  | _ :: _ :: _ => rfl

/-- Literals and what joins them are all that such a tree consists of. -/
theorem label_of_mem_entries {place offset : Nat} {entry : Label × Span}
    (hentry : entry ∈ (Tree.sequence place (Tree.literals offset spelled)).entries) :
    entry.1 = .concatenation ∨ ∃ char, entry.1 = .literal char := by
  have hleaves : ∀ spelled offset, entry ∈ Tree.entriesIn (Tree.literals offset spelled) →
      ∃ char, entry.1 = .literal char := by
    intro spelled
    induction spelled with
    | nil => simp [Tree.literals, Tree.entriesIn]
    | cons pair others ih =>
      intro offset hentry
      obtain hentry | hentry := List.mem_append.mp hentry
      · obtain rfl := List.mem_singleton.mp hentry
        exact ⟨_, rfl⟩
      · exact ih _ hentry
  match spelled with
  | [] =>
    obtain rfl := List.mem_singleton.mp hentry
    exact .inl rfl
  | [pair] => exact .inr (hleaves [pair] offset (List.mem_append_left _ hentry))
  | first :: second :: others =>
    obtain hentry | hentry := List.mem_append.mp hentry
    · exact .inr (hleaves (first :: second :: others) offset hentry)
    · obtain rfl := List.mem_singleton.mp hentry
      exact .inl rfl

end Literal

namespace Pattern

/-- A pattern of literals has no groups and no findings. -/
theorem groups_diagnostics_ofTree_literals (source : String) (spelled : List (Char × List Char)) :
    (ofTree source (.sequence 0 (Tree.literals 0 spelled))).groups = {} ∧
      (ofTree source (.sequence 0 (Tree.literals 0 spelled))).diagnostics = [] := by
  have hlabels : ∀ node ∈ (Tree.sequence 0 (Tree.literals 0 spelled)).layout 0 none,
      node.label = .concatenation ∨ ∃ char, node.label = .literal char := by
    intro node hnode
    have hentry := List.mem_map_of_mem (f := fun node : Node => (node.label, node.span)) hnode
    rw [Tree.map_layout] at hentry
    exact Literal.label_of_mem_entries hentry
  constructor
  · refine GroupTable.ofNodes_of_ne_group fun node hnode opened hgroup => ?_
    obtain hlabel | ⟨char, hlabel⟩ := hlabels node hnode
    · exact absurd (hlabel.symm.trans hgroup) nofun
    · exact absurd (hlabel.symm.trans hgroup) nofun
  · rw [diagnostics_ofTree, nodes_ofTree, List.filterMap_map, List.filterMap_eq_nil_iff]
    intro node hnode
    obtain ⟨label, span, attachment, slots⟩ := node
    obtain hlabel | ⟨char, hlabel⟩ := hlabels _ hnode
    · obtain rfl : label = .concatenation := hlabel
      rfl
    · obtain rfl : label = .literal char := hlabel
      rfl

/-- Characters that are written as literals one after the other are read back. The pattern has no
    groups and no findings, and its tree is made of one literal for each character, which spans what
    was written for it. Every literal that the lexer finds is written in one of these ways, and each
    character can be. -/
theorem parse_quoted :
    (∀ (dialect : Dialect) (spelled : List (Char × List Char)),
      (∀ pair ∈ spelled, Literal.Spells pair.1 pair.2 ∧ pair.2 ≠ ['\x7b']) →
        ∃ pattern, parse dialect (String.ofList (spelled.flatMap Prod.snd)) = .ok pattern ∧
          pattern.groups = {} ∧ pattern.diagnostics = [] ∧
          pattern.nodes.size = (Tree.sequence 0 (Tree.literals 0 spelled)).size ∧
          pattern.Stands pattern.root (.sequence 0 (Tree.literals 0 spelled))) ∧
    (∀ (classSyntax : ClassSyntax) (source : String),
      ∀ token ∈ (tokenize classSyntax source).tokens, ∀ char,
        token.role = .atom (.literal char) → Literal.Spells char token.text) ∧
    ∀ char, ∃ text, Literal.Spells char text ∧ text ≠ ['\x7b'] := by
  refine ⟨fun dialect spelled hspelled => ?_, ?_, Literal.exists_spells⟩
  · have hderives := Literal.derives hspelled dialect
    rw [← String.toList_ofList (l := spelled.flatMap Prod.snd)] at hderives
    obtain ⟨hgroups, hdiagnostics⟩ := groups_diagnostics_ofTree_literals
      (String.ofList (spelled.flatMap Prod.snd)) spelled
    refine ⟨_, parse_eq_ok_iff.mpr ⟨_, hderives, rfl⟩, ?_⟩
    rw [Literal.tree_ofBranch_map_phrase]
    exact ⟨hgroups, hdiagnostics, size_nodes_ofTree _ _, stands_ofTree _ _⟩
  · intro classSyntax source token htoken char hrole
    obtain ⟨lexemes, rest, -, hreads, htokens, -⟩ :=
      Lexeme.exists_reads_ofText classSyntax 0 source.toList
    rw [tokenize, htokens] at htoken
    obtain ⟨first, body, after, htext, hread⟩ := hreads.exists_readToken_of_mem htoken
    rw [hrole] at hread
    rw [htext]
    exact Scan.spells_of_readToken_literal hread

/-- Digits between braces repeat nothing behind an escaped brace, and what follows an escape is a
    character of its own. A brace is the one literal that its neighbours can change. -/
theorem parse_quoted_digits :
    (∃ pattern, parse {} "\\\x7b1\x7d\\01\\nn\\e\\x411" = .ok pattern ∧
      pattern.groups = {} ∧ pattern.diagnostics = [] ∧ pattern.nodes.size = 11 ∧
      pattern.Stands pattern.root (.sequence 0 [
        .leaf (.literal '\x7b') ⟨0, 2⟩, .leaf (.literal '1') ⟨2, 3⟩,
        .leaf (.literal '\x7d') ⟨3, 4⟩, .leaf (.literal '\x00') ⟨4, 6⟩,
        .leaf (.literal '1') ⟨6, 7⟩, .leaf (.literal '\n') ⟨7, 9⟩,
        .leaf (.literal 'n') ⟨9, 10⟩, .leaf (.literal '\x1b') ⟨10, 12⟩,
        .leaf (.literal 'A') ⟨12, 16⟩, .leaf (.literal '1') ⟨16, 17⟩])) ∧
    ∃ token ∈ (tokenize .pcre "\x7b").tokens, token.text = ['\x7b'] ∧
      Literal.Spells '\x7b' token.text := by
  obtain ⟨hparse, htokens, -⟩ := parse_quoted
  constructor
  · have hcodes : Escape.Codes ['x', '4', '1'] ['4', '1'] :=
      .fixed (.inl ⟨rfl, rfl⟩) rfl (List.all_eq_true.mp rfl)
    have hspelled : ∀ pair ∈ [('\x7b', ['\\', '\x7b']), ('1', ['1']), ('\x7d', ['\x7d']),
        ('\x00', ['\\', '0']), ('1', ['1']), ('\n', ['\\', 'n']), ('n', ['n']),
        ('\x1b', ['\\', 'e']), ('A', ['\\', 'x', '4', '1']), ('1', ['1'])],
        Literal.Spells pair.1 pair.2 ∧ pair.2 ≠ ['\x7b'] := by
      simp only [List.forall_mem_cons, List.not_mem_nil, false_implies, implies_true, and_true]
      refine ⟨⟨.escaped (by decide), by decide⟩, ⟨.plain (by decide), by decide⟩,
        ⟨.plain (by decide), by decide⟩, ⟨.control .null, by decide⟩,
        ⟨.plain (by decide), by decide⟩, ⟨.control .lineFeed, by decide⟩,
        ⟨.plain (by decide), by decide⟩, ⟨.control .escape, by decide⟩,
        ⟨.code hcodes (by decide), by decide⟩, .plain (by decide), by decide⟩
    have hsource : String.ofList ([('\x7b', ['\\', '\x7b']), ('1', ['1']), ('\x7d', ['\x7d']),
        ('\x00', ['\\', '0']), ('1', ['1']), ('\n', ['\\', 'n']), ('n', ['n']),
        ('\x1b', ['\\', 'e']), ('A', ['\\', 'x', '4', '1']), ('1', ['1'])].flatMap
          Prod.snd) = "\\\x7b1\x7d\\01\\nn\\e\\x411" := by
      decide +kernel
    obtain ⟨pattern, hpattern, hgroups, hdiagnostics, hsize, hstands⟩ := hparse {} _ hspelled
    rw [hsource] at hpattern
    have hplain : ∀ char ∈ ['\x7b', '1', '\x7d', '\\', '0', 'n', 'e', 'x', '4'],
        char.utf8Size = 1 := by
      simp [Char.utf8Size]
    simp only [List.forall_mem_cons] at hplain
    simp only [Tree.literals, Text.utf8Size, hplain] at hsize hstands
    exact ⟨pattern, hpattern, hgroups, hdiagnostics, hsize, hstands⟩
  · have htoken : ∃ token ∈ (tokenize .pcre "\x7b").tokens, token.text = ['\x7b'] ∧
        token.role = .atom (.literal '\x7b') := by
      decide +kernel
    obtain ⟨token, hmem, htext, hrole⟩ := htoken
    exact ⟨token, hmem, htext, htokens .pcre _ token hmem _ hrole⟩

end Pattern

end PatternTree
