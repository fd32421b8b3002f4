import PatternTree.Proofs.Lossless
import PatternTree.Proofs.Token.Starts
import PatternTree.Proofs.ViablePrefix

namespace PatternTree

namespace Opener

/-- What may stand behind a parenthesis and a question mark so that they open no known form of a
    group. -/
def Unsupported (rest : List Char) : Prop :=
  ¬ [':'] <+: rest ∧ ¬ ['\''] <+: rest ∧ ¬ ['P', '<'] <+: rest ∧
    (['<'] <+: rest → ['<', '='] <+: rest ∨ ['<', '!'] <+: rest)

instance (rest : List Char) : Decidable (Unsupported rest) :=
  inferInstanceAs (Decidable (¬ [':'] <+: rest ∧ ¬ ['\''] <+: rest ∧ ¬ ['P', '<'] <+: rest ∧
    (['<'] <+: rest → ['<', '='] <+: rest ∨ ['<', '!'] <+: rest)))

/-- What a parenthesis and a question mark are read as where they open no known form of a group. -/
def fallback : List Lexeme :=
  [⟨.opener .capturing, ['(']⟩, ⟨.quantifier .optional, ['?']⟩]

end Opener

namespace Scan

variable {classSyntax : ClassSyntax} {rest : List Char}

theorem readToken_eq_capturing_iff :
    readToken classSyntax '(' ('?' :: rest) = .ok (.opener .capturing, '?' :: rest) ↔
      Opener.Unsupported rest := by
  have hopener : readToken classSyntax '(' ('?' :: rest) =
      ((readOpener ('?' :: rest)).placed ('(' :: '?' :: rest)).convert .opener := rfl
  rw [hopener, Reading.convert_eq_ok_iff]
  simp only [Reading.placed_eq_ok_iff, TokenRole.opener.injEq, exists_eq_right,
    readOpener_eq_capturing_iff, Opener.Unsupported, List.cons_prefix_cons, true_and]
  tauto

/-- The question mark of an unknown form is left to a token of its own. -/
theorem reads_fallback (hrest : Opener.Unsupported rest) :
    Lexeme.Reads classSyntax rest Opener.fallback := by
  have hmark : readToken classSyntax '?' rest = .ok (.quantifier .optional, rest) := rfl
  exact .cons (readToken_eq_capturing_iff.mpr hrest) (.cons hmark .nil)

/-- Where a token starts with an unknown form, an opener and a quantifier follow the tokens of what
    stands before it. -/
theorem exists_tokens_of_unsupported {front : List Char} {token : Token}
    (htoken : token ∈ (ofText classSyntax 0 (front ++ '(' :: '?' :: rest)).tokens)
    (hstart : token.span.start = Text.utf8Size front) (hrest : Opener.Unsupported rest) :
    ∃ lexemes, Lexeme.textOf lexemes = front ∧
      Lexeme.Reads classSyntax ('(' :: '?' :: rest) lexemes ∧
      (ofText classSyntax 0 (front ++ '(' :: '?' :: rest)).tokens = Lexeme.place 0 lexemes ++
        (Lexeme.place (Text.utf8Size front) Opener.fallback ++
          (ofText classSyntax (Text.utf8Size front + 2) rest).tokens) := by
  obtain ⟨lexemes, -, -, rfl, hreads, -⟩ := Lexeme.exists_reads_of_start htoken hstart
  have hpair : ofText classSyntax _ ('(' :: '?' :: rest) = _ :=
    (reads_fallback hrest).ofText_append (Text.utf8Size (Lexeme.textOf lexemes))
  refine ⟨lexemes, rfl, hreads, ?_⟩
  rw [hreads.ofText_append 0, Nat.zero_add, Lexeme.size, hpair]
  rfl

end Scan

namespace ParseState

/-- Behind an opener that the depth admits nothing stands that a quantifier could repeat. -/
theorem run_fallback (dialect : Dialect) (state : ParseState) (offset : Nat)
    (later : List Token) :
    state.run dialect (Lexeme.place offset Opener.fallback ++ later) =
      .error (if dialect.maxDepth ≤ state.openGroups.length then ⟨.tooDeep dialect.maxDepth, offset⟩
        else ⟨.nothingToRepeat ['?'], offset + 1⟩) := by
  by_cases hfull : dialect.maxDepth ≤ state.openGroups.length
  · simp [Opener.fallback, Lexeme.place, Lexeme.token, run, step, openGroup, hfull]
  · have hsize : Text.utf8Size ['('] = 1 := rfl
    simp [Opener.fallback, Lexeme.place, Lexeme.token, run, step, openGroup, hfull,
      Opener.group, Level.quantify, Except.map, hsize]

end ParseState

namespace Choice

/-- What is made of the lexemes of a group starts with its opener. -/
theorem Splits.exists_opener {offset numbered : Nat} {lexemes : List Lexeme} {tree : Tree}
    (hsplits : Splits offset numbered lexemes tree) {group : Group}
    (hlabel : Label.group group = tree.label.unsettled) :
    ∃ opener text inner, lexemes = (⟨.opener opener, text⟩ : Lexeme) :: inner ∧
      group = opener.group (numbered + 1) := by
  cases hsplits with
  | leaf atom text => cases atom <;> cases hlabel
  | group opener text inner => exact ⟨opener, text, _, rfl, Label.group.inj hlabel⟩
  | _ => cases hlabel

end Choice

namespace Pattern

variable {dialect : Dialect} {source : String}

/-- The text of a group starts with an opener that announces the group, which is a token. -/
theorem exists_opener_of_group {choice : Choice} (hderives : dialect.Derives source.toList choice)
    {id : Nat} {node : Node} {group : Group} {text : String}
    (hnode : (ofTree source (choice.tree 0 0)).node? id = some node)
    (hlabel : node.label = .group group)
    (htext : (ofTree source (choice.tree 0 0)).text? id = some text) :
    ∃ front opener chars inner back number, group = Opener.group number opener ∧
      choice.lexemes = front ++ (⟨.opener opener, chars⟩ : Lexeme) :: (inner ++ back) ∧
      text.toList = chars ++ Lexeme.textOf inner := by
  obtain ⟨sub, hsub, hstands⟩ := exists_stands_of_node hnode
  obtain ⟨front, inner, back, hlexemes, rfl⟩ := Choice.exists_of_within hsub
  have hspan := hstands.span_eq
  have hlabel' := hstands.label_eq
  rw [hnode, Option.map_some, inner.span_tree, Nat.zero_add] at hspan
  rw [hnode, Option.map_some, hlabel] at hlabel'
  have hcovers : Text.Covers source.toList node.span (Lexeme.textOf inner.lexemes) := by
    rw [Option.some.inj hspan]
    exact Choice.covers_textOf (by rw [← hlexemes, hderives.text])
  rw [text?, hnode, Option.bind_some, source_ofTree, hcovers.slice?_eq, Option.map_some] at htext
  obtain rfl := Option.some.inj htext
  obtain ⟨opener, chars, lexemes, hinner, hgroup⟩ :=
    (inner.splits _ _).exists_opener (Option.some.inj hlabel')
  refine ⟨front, opener, chars, lexemes, back, _, hgroup, ?_, ?_⟩
  · rw [hlexemes, hinner, List.cons_append]
  · rw [String.toList_ofList, hinner, Lexeme.textOf_cons]

/-- A pattern with an unknown form is rejected there at the latest, and exactly there where what
    stands before it can be closed and one more group may be opened. -/
theorem exists_parse_eq_error_of_unsupported {front rest : List Char} {token : Token}
    (hsource : source.toList = front ++ '(' :: '?' :: rest)
    (htoken : token ∈ (tokenize dialect.classSyntax source).tokens)
    (hstart : token.span.start = Text.utf8Size front) (hrest : Opener.Unsupported rest) :
    ∃ error, parse dialect source = .error (.structural error) ∧
      error.offset ≤ Text.utf8Size front + 1 ∧
      ((∃ pattern, parse dialect (String.ofList (front ++ List.replicate
          ((tokenize dialect.classSyntax source).depthAt (Text.utf8Size front)) ')')) =
            .ok pattern) →
        (tokenize dialect.classSyntax source).depthAt (Text.utf8Size front) < dialect.maxDepth →
          error = ⟨.nothingToRepeat ['?'], Text.utf8Size front + 1⟩) := by
  rw [tokenize, hsource] at htoken ⊢
  obtain ⟨lexemes, rfl, hreads, htokens⟩ := Scan.exists_tokens_of_unsupported htoken hstart hrest
  have hrejected : ∀ error, ParseState.run dialect {} (Scan.ofText dialect.classSyntax 0
      (Lexeme.textOf lexemes ++ '(' :: '?' :: rest)).tokens = .error error →
        parse dialect source = .error (.structural error) := by
    intro error hrun
    rw [parse_eq_error_iff, hsource]
    exact Tree.ofText_of_run_eq_error hrun
  rw [← Lexeme.size, hreads.depthAt_eq, exists_parse_ofList_iff,
    Tree.exists_ofText_closed_iff dialect hreads (by simp)]
  rw [htokens] at hrejected
  -- A token in front fails, or the state behind them all runs into the two tokens of the form.
  cases hrun : ParseState.run dialect {} (Lexeme.place 0 lexemes) with
  | error error =>
    refine ⟨error, hrejected _ (ParseState.run_append_of_error hrun _), ?_, by simp⟩
    obtain ⟨early, hearly, hoffset⟩ := ParseState.exists_start_of_run_eq_error hrun
    have hlt := hreads.start_lt_stop_of_mem hearly
    have hle := Lexeme.stop_le_of_mem_place hearly
    omega
  | ok state =>
    have hopen : state.openGroups.length = TokenRole.depth (lexemes.map Lexeme.role) := by
      rw [ParseState.length_openGroups_of_run hrun, Lexeme.roles_place]
      rfl
    refine ⟨_, hrejected _ ((ParseState.run_append hrun _).trans
      (state.run_fallback dialect _ _)), ?_, ?_⟩
    · split
      · exact Nat.le_succ _
      · exact Nat.le_refl _
    · rintro - hroom
      rw [hopen, if_neg (Nat.not_le_of_lt hroom)]
      rfl

/-- In an accepted pattern no question mark stands behind an opener that is only a parenthesis. -/
theorem head?_ne_of_capturing {choice : Choice} (hderives : dialect.Derives source.toList choice)
    {front behind : List Lexeme}
    (hlexemes : choice.lexemes = front ++ ⟨.opener .capturing, ['(']⟩ :: behind) :
    (Lexeme.textOf behind).head? ≠ some '?' := by
  intro hhead
  obtain ⟨rest, hrest⟩ := List.head?_eq_some_iff.mp hhead
  have hsource : source.toList = Lexeme.textOf front ++ '(' :: '?' :: rest := by
    rw [← hderives.text, hlexemes, Lexeme.textOf_append, Lexeme.textOf_cons, hrest]
    rfl
  have htoken : (⟨.opener .capturing, ['(']⟩ : Lexeme).token (0 + Lexeme.size front) ∈
      (tokenize dialect.classSyntax source).tokens := by
    rw [tokenize, hderives.scan_eq, hlexemes]
    exact Lexeme.mem_place_append_cons 0 front behind _
  have hreads := hderives.reads
  rw [hlexemes] at hreads
  cases hreads.of_append with
  | cons hread _ =>
    rw [List.append_nil, hrest] at hread
    have hunsupported := Scan.readToken_eq_capturing_iff.mp hread
    obtain ⟨error, herror, -⟩ :=
      exists_parse_eq_error_of_unsupported hsource htoken (Nat.zero_add _) hunsupported
    rw [parse_eq_ok_iff.mpr ⟨choice, hderives, rfl⟩] at herror
    cases herror

/-- What starts like a group and has no known form is never accepted. The lexer takes its
    parenthesis for the opener of a group with a number and its question mark for a quantifier, for
    which the parser then has nothing to repeat. In a pattern that is accepted, a group with a
    question mark behind its parenthesis therefore has no number, as its colon says, or a name. -/
theorem parse_unsupported_group (dialect : Dialect) (source : String) :
    (∀ front rest, source.toList = front ++ '(' :: '?' :: rest →
      (∃ token ∈ (tokenize dialect.classSyntax source).tokens,
        token.span.start = Text.utf8Size front) → Opener.Unsupported rest →
      (∃ before later, (tokenize dialect.classSyntax source).tokens = before ++
        ⟨.opener .capturing, ['('], ⟨Text.utf8Size front, Text.utf8Size front + 1⟩⟩ ::
        ⟨.quantifier .optional, ['?'],
          ⟨Text.utf8Size front + 1, Text.utf8Size front + 2⟩⟩ :: later) ∧
      ∃ error, parse dialect source = .error (.structural error) ∧
        error.offset ≤ Text.utf8Size front + 1 ∧
        (Text.DigitsFit source.toList →
          (tokenize dialect.classSyntax source).tokens.countP (·.role.isNumbered) < 0xffffffff →
          Builder.build? dialect source = some (.error (.structural error))) ∧
        ((∃ pattern, parse dialect (String.ofList (front ++ List.replicate
            ((tokenize dialect.classSyntax source).depthAt (Text.utf8Size front)) ')')) =
              .ok pattern) →
          (tokenize dialect.classSyntax source).depthAt (Text.utf8Size front) < dialect.maxDepth →
            error = ⟨.nothingToRepeat ['?'], Text.utf8Size front + 1⟩ ∧
              error.cause.family = .unexpectedToken)) ∧
    ∀ pattern, parse dialect source = .ok pattern → ∀ id node group text,
      pattern.node? id = some node → node.label = .group group → pattern.text? id = some text →
        ['(', '?'] <+: text.toList →
          (group = ⟨none, none⟩ ∧ ['(', '?', ':'] <+: text.toList) ∨ group.name.isSome := by
  constructor
  · rintro front rest hsource ⟨token, htoken, hstart⟩ hrest
    obtain ⟨error, herror, hoffset, hexact⟩ :=
      exists_parse_eq_error_of_unsupported hsource htoken hstart hrest
    refine ⟨?_, error, herror, hoffset, ?_, ?_⟩
    · rw [tokenize, hsource] at htoken ⊢
      obtain ⟨lexemes, -, -, htokens⟩ := Scan.exists_tokens_of_unsupported htoken hstart hrest
      exact ⟨_, _, htokens⟩
    · intro hdigits hnumbered
      rw [Builder.build?_eq dialect source hdigits hnumbered, herror]
      rfl
    · intro hclosed hroom
      obtain rfl := hexact hclosed hroom
      exact ⟨rfl, rfl⟩
  · intro pattern hparse id node group text hnode hlabel htext hmark
    obtain ⟨choice, hderives, rfl⟩ := parse_eq_ok_iff.mp hparse
    obtain ⟨front, opener, chars, inner, back, number, rfl, hlexemes, htext⟩ :=
      exists_opener_of_group hderives hnode hlabel htext
    have hspells : opener.Spells chars :=
      hderives.reads.spells ⟨.opener opener, chars⟩ (by simp [hlexemes])
    rw [htext] at hmark ⊢
    cases hspells with
    | capturing =>
      obtain ⟨rest, hrest⟩ : ['?'] <+: Lexeme.textOf inner := (List.cons_prefix_cons.mp hmark).2
      refine absurd ?_ (head?_ne_of_capturing hderives hlexemes)
      rw [Lexeme.textOf_append, ← hrest]
      rfl
    | nonCapturing => exact .inl ⟨rfl, List.prefix_append _ _⟩
    | _ => exact .inr rfl

/-- A look-ahead is rejected at its question mark. The name in the second pattern is that of the
    group whose text starts like one. -/
theorem parse_unsupported_group_lookahead :
    parse {} "(é(?=b)" = .error (.structural ⟨.nothingToRepeat ['?'], 4⟩) ∧
      Builder.build? {} "(é(?=b)" = some (.error (.structural ⟨.nothingToRepeat ['?'], 4⟩)) ∧
      ∃ pattern, parse {} "(?:a)(?P<x>b)" = .ok pattern ∧
        pattern.text? 3 = some "(?P<x>b)" ∧ ∀ node group, pattern.node? 3 = some node →
          node.label = .group group → group.name.isSome := by
  obtain ⟨hrejected, -⟩ := parse_unsupported_group {} "(é(?=b)"
  obtain ⟨-, haccepted⟩ := parse_unsupported_group {} "(?:a)(?P<x>b)"
  obtain ⟨-, error, herror, -, hbuild, hexact⟩ := hrejected "(é".toList "=b)".toList
    (by decide) (by decide +kernel) (by decide)
  have hdepth : (tokenize ({} : Dialect).classSyntax "(é(?=b)").depthAt
      (Text.utf8Size "(é".toList) = 1 := by
    decide +kernel
  have hclosed : ∃ pattern, parse {} (String.ofList ("(é".toList ++ [')'])) = .ok pattern :=
    exists_parse_eq_ok {} _ (by decide +kernel)
  obtain ⟨pattern, hparse⟩ := exists_parse_eq_ok {} "(?:a)(?P<x>b)" (by decide +kernel)
  have htext : (parse {} "(?:a)(?P<x>b)").toOption.bind (text? 3) = some "(?P<x>b)" := by
    decide +kernel
  rw [hdepth] at hexact
  rw [hparse] at htext
  obtain ⟨rfl, -⟩ := hexact hclosed (by decide)
  refine ⟨herror, hbuild (Text.digitsFit_of_length_le (by decide)) (by decide +kernel), pattern,
    hparse, htext, ?_⟩
  intro node group hnode hlabel
  refine (haccepted pattern hparse 3 node group _ hnode hlabel htext ?_).resolve_left ?_
  · decide
  · rintro ⟨-, hcolon⟩
    exact absurd hcolon (by decide)

end Pattern

end PatternTree
