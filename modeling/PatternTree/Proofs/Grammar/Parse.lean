import PatternTree.Proofs.Grammar.Soundness
import PatternTree.Proofs.Shape

namespace PatternTree

/-- The token list of a text derives from the grammar and is one that the dialect admits. -/
structure Dialect.Derives (dialect : Dialect) (chars : List Char) (choice : Choice) : Prop where
  text : Lexeme.textOf choice.lexemes = chars
  reads : Lexeme.Reads dialect.classSyntax [] choice.lexemes
  admits : dialect.Admits (choice.lexemes.map Lexeme.role)

namespace Lexeme

/-- A lexeme that the lexer takes has a text of its role. -/
theorem Reads.spells {classSyntax : ClassSyntax} {rest : List Char} {lexemes : List Lexeme}
    (hreads : Reads classSyntax rest lexemes) :
    ∀ lexeme ∈ lexemes, lexeme.role.Spells lexeme.text := by
  induction hreads with
  | nil => simp
  | cons hread _ ih =>
    intro lexeme hlexeme
    obtain rfl | hlexeme := List.mem_cons.mp hlexeme
    · exact Scan.spells_of_readToken hread
    · exact ih lexeme hlexeme

end Lexeme

namespace Dialect

variable {dialect : Dialect} {chars : List Char} {choice : Choice}

theorem Derives.scan_eq (hderives : dialect.Derives chars choice) :
    Scan.ofText dialect.classSyntax 0 chars = ⟨Lexeme.place 0 choice.lexemes, none⟩ := by
  rw [← hderives.text]
  exact hderives.reads.ofText_eq 0

theorem Derives.ofText_eq (hderives : dialect.Derives chars choice) :
    Tree.ofText dialect chars = .ok (choice.tree 0 0) := by
  have hsize : Text.utf8Size chars = Lexeme.size choice.lexemes := by
    rw [Lexeme.size, hderives.text]
  simp only [Tree.ofText, hderives.scan_eq, hsize, choice.ofTokens_eq_ok hderives.admits]
  rfl

/-- A text has a tree exactly when its tokens derive from the grammar. -/
theorem ofText_eq_ok_iff {tree : Tree} :
    Tree.ofText dialect chars = .ok tree ↔
      ∃ choice, dialect.Derives chars choice ∧ tree = choice.tree 0 0 := by
  constructor
  · intro htree
    rw [Tree.ofText] at htree
    cases hfailure : (Scan.ofText dialect.classSyntax 0 chars).failure with
    | some failure =>
      simp only [hfailure] at htree
      split at htree <;> cases htree
    | none =>
      obtain ⟨lexemes, rfl, hreads, htokens⟩ := Lexeme.exists_reads_of_failure_eq_none hfailure
      simp only [hfailure, htokens] at htree
      cases hparse : Tree.ofTokens dialect (Text.utf8Size (Lexeme.textOf lexemes))
          (Lexeme.place 0 lexemes) with
      | error error =>
        rw [hparse] at htree
        cases htree
      | ok tree' =>
        rw [hparse] at htree
        cases htree
        obtain ⟨choice, rfl, hadmits, rfl⟩ := (Tree.ofTokens_eq_ok_iff hreads.spells).mp hparse
        exact ⟨choice, ⟨rfl, hreads, hadmits⟩, rfl⟩
  · rintro ⟨choice, hderives, rfl⟩
    exact hderives.ofText_eq

end Dialect

namespace Pattern

variable {dialect : Dialect} {source : String} {pattern : Pattern}

/-- A pattern is read exactly when its tokens derive from the grammar, and what is read is the
    tree of the derivation with its nodes numbered. -/
theorem parse_eq_ok_iff :
    parse dialect source = .ok pattern ↔
      ∃ choice, dialect.Derives source.toList choice ∧
        pattern = ofTree source (choice.tree 0 0) := by
  rw [parse]
  constructor
  · intro hparse
    cases htree : Tree.ofText dialect source.toList with
    | error error =>
      rw [htree] at hparse
      cases hparse
    | ok tree =>
      rw [htree] at hparse
      obtain ⟨choice, hderives, rfl⟩ := Dialect.ofText_eq_ok_iff.mp htree
      exact ⟨choice, hderives, (Except.ok.inj hparse).symm⟩
  · rintro ⟨choice, hderives, rfl⟩
    rw [hderives.ofText_eq]
    rfl

theorem exists_parse_eq_ok (dialect : Dialect) (source : String)
    (hparse : (parse dialect source).toOption.isSome) :
    ∃ pattern, parse dialect source = .ok pattern := by
  cases hresult : parse dialect source with
  | error error => simp [hresult, Except.toOption] at hparse
  | ok pattern => exact ⟨pattern, rfl⟩

/-- The parser agrees with the grammar. It accepts the tokens of a pattern exactly when the
    grammar derives them all and the dialect admits them, and the nodes of the tree are then
    labelled and ordered as in every derivation of them. -/
theorem parse_agrees_with_grammar (dialect : Dialect) (source : String)
    (hscan : (tokenize dialect.classSyntax source).failure = none) :
    ((∃ pattern, parse dialect source = .ok pattern) ↔
      (∃ choice : Choice, choice.lexemes =
        (tokenize dialect.classSyntax source).tokens.map Token.lexeme) ∧
      dialect.Admits ((tokenize dialect.classSyntax source).tokens.map Token.role)) ∧
    ∀ pattern, parse dialect source = .ok pattern → ∀ choice : Choice,
      choice.lexemes = (tokenize dialect.classSyntax source).tokens.map Token.lexeme →
        pattern.Shows pattern.root (choice.shape 0) := by
  obtain ⟨lexemes, htext, hreads, htokens⟩ := Lexeme.exists_reads_of_failure_eq_none hscan
  have hlexemes : (tokenize dialect.classSyntax source).tokens.map Token.lexeme = lexemes := by
    rw [tokenize, htokens, Lexeme.map_lexeme_place]
  have hroles : (tokenize dialect.classSyntax source).tokens.map Token.role =
      lexemes.map Lexeme.role := by
    rw [← hlexemes, List.map_map]
    rfl
  have hderives : ∀ choice : Choice, choice.lexemes = lexemes →
      dialect.Admits (lexemes.map Lexeme.role) → dialect.Derives source.toList choice := by
    rintro choice rfl hadmits
    exact ⟨htext, hreads, hadmits⟩
  have hunique : ∀ choice : Choice, dialect.Derives source.toList choice →
      choice.lexemes = lexemes := by
    intro choice hchoice
    have hscan' := hchoice.scan_eq
    rw [← hlexemes, tokenize, hscan', Lexeme.map_lexeme_place]
  rw [hlexemes, hroles]
  refine ⟨⟨?_, ?_⟩, ?_⟩
  · rintro ⟨pattern, hparse⟩
    obtain ⟨choice, hchoice, -⟩ := parse_eq_ok_iff.mp hparse
    obtain rfl := hunique choice hchoice
    exact ⟨⟨choice, rfl⟩, hchoice.admits⟩
  · rintro ⟨⟨choice, hchoice⟩, hadmits⟩
    exact ⟨_, parse_eq_ok_iff.mpr ⟨choice, hderives choice hchoice hadmits, rfl⟩⟩
  · intro pattern hparse choice hchoice
    obtain ⟨other, hother, -⟩ := parse_eq_ok_iff.mp hparse
    have hadmits := hother.admits
    rw [hunique other hother] at hadmits
    have hparse' := parse_eq_ok_iff.mpr ⟨choice, hderives choice hchoice hadmits, rfl⟩
    obtain rfl : ofTree source (choice.tree 0 0) = pattern :=
      Except.ok.inj (hparse'.symm.trans hparse)
    have hshows := (stands_ofTree source (choice.tree 0 0)).shows
    rwa [Choice.shape_tree] at hshows

/-- A lazy quantifier belongs to the group before it, and the bar to the pattern around it. -/
theorem parse_agrees_with_grammar_lazy_group :
    (tokenize .pcre "a|(b)*?").failure = none ∧
      ∃ pattern, parse {} "a|(b)*?" = .ok pattern ∧
        pattern.Shows pattern.root (.node .alternation [.node (.literal 'a') [],
          .node (.repetition ⟨0, none⟩ false)
            [.node (.group ⟨some 1, none⟩) [.node (.literal 'b') []]]]) := by
  have hscan : (tokenize .pcre "a|(b)*?").failure = none := by decide +kernel
  have hagrees := parse_agrees_with_grammar {} "a|(b)*?" hscan
  obtain ⟨pattern, hparse⟩ := exists_parse_eq_ok {} "a|(b)*?" (by decide +kernel)
  refine ⟨hscan, pattern, hparse, ?_⟩
  exact hagrees.2 pattern hparse
    { earlier := [[.leaf (.literal 'a') ['a'] none]]
      last := [.group .capturing ['('] [] [.leaf (.literal 'b') ['b'] none]
        (some ⟨.star, ['*'], true⟩)] } (by decide +kernel)

end Pattern

end PatternTree
