import PatternTree.Proofs.Grammar.Completeness

namespace PatternTree

namespace Snapshot

variable {dialect : Dialect} {snapshot : Snapshot}

/-- Where the last branch is not empty, its last item is what was added last. -/
theorem exists_push_of_last_ne_nil (hlast : snapshot.choice.last ≠ []) :
    ∃ before phrase, snapshot = push phrase before := by
  obtain ⟨items, phrase, hitems⟩ := (snapshot.choice.last).eq_nil_or_concat.resolve_left hlast
  rw [List.concat_eq_append] at hitems
  refine ⟨snapshot.enter ⟨snapshot.choice.earlier, items⟩, phrase, ?_⟩
  rw [enter_push, ← hitems]
  cases snapshot <;> rfl

/-- Only counts that fit are taken behind an item without a quantifier. -/
theorem fit_of_step_quantifier {before : Snapshot} {phrase : Phrase} {quantifier : Quantifier}
    {token : Token} {next : ParseState} (hrole : token.role = .quantifier quantifier)
    (hstep : (before.push (phrase.withSuffix none)).state.step dialect token = .ok next) :
    ∀ counts, quantifier = .counted counts → counts.Fit := by
  cases hbounds : quantifier.bounds with
  | ok bounds => exact (Quantifier.bounds_eq_ok_iff.mp hbounds).1
  | error cause =>
    rw [state_push, phrase.item_withSuffix none] at hstep
    cases cause <;> simp [ParseState.step, hrole, Level.push, Level.quantify, Phrase.suffixItem,
      Item.quantify, hbounds, Except.map] at hstep

/-- Behind an item with a quantifier only a question mark is taken, and only once. -/
theorem lazy_of_step_quantifier {before : Snapshot} {phrase : Phrase} {suffix : Suffix}
    {quantifier : Quantifier} {token : Token} {next : ParseState}
    (hrole : token.role = .quantifier quantifier)
    (hstep : (before.push (phrase.withSuffix (some suffix))).state.step dialect token =
      .ok next) :
    suffix.isLazy = false ∧ quantifier = .optional := by
  rw [state_push, phrase.item_withSuffix (some _)] at hstep
  cases hlazy : suffix.isLazy <;> by_cases hoptional : quantifier = .optional <;>
    simp_all [ParseState.step, Level.push, Level.quantify, Phrase.suffixItem, Item.quantify,
      Except.map]

/-- A quantifier is only taken behind an item without one, apart from one lazy mark. -/
theorem exists_of_step_quantifier {quantifier : Quantifier} {text : List Char} {next : ParseState}
    (hspells : quantifier.Spells text)
    (hstep : snapshot.state.step dialect
      ((⟨.quantifier quantifier, text⟩ : Lexeme).token (Lexeme.size snapshot.lexemes)) =
        .ok next) :
    ∃ after : Snapshot, after.state = next ∧
      after.lexemes = snapshot.lexemes ++ [⟨.quantifier quantifier, text⟩] ∧
      dialect.AdmitsNext snapshot.roles (.quantifier quantifier) := by
  have hadmits : ∀ (hfit : ∀ counts, quantifier = .counted counts → counts.Fit),
      dialect.AdmitsNext snapshot.roles (.quantifier quantifier) := by
    intro hfit
    apply Dialect.AdmitsNext.of_isOpener_eq_false rfl
    rintro counts hcounts
    exact hfit counts (by simpa using hcounts)
  have hlast : snapshot.choice.last ≠ [] := by
    intro hempty
    simp [ParseState.step, Lexeme.token, state, level, Choice.level, hempty, Phrase.items,
      Level.quantify, Except.map] at hstep
  obtain ⟨before, phrase, rfl⟩ := exists_push_of_last_ne_nil hlast
  rw [← phrase.withSuffix_suffix] at hstep hadmits ⊢
  cases hsuffix : phrase.suffix with
  | none =>
    rw [hsuffix] at hstep hadmits
    have hfit := fit_of_step_quantifier rfl hstep
    refine ⟨before.push (phrase.withSuffix (some ⟨quantifier, text, false⟩)), ?_, ?_, hadmits hfit⟩
    · rw [step_quantifier before phrase hfit text] at hstep
      exact Except.ok.inj hstep
    · rw [lexemes_push, lexemes_push, phrase.lexemes_withSuffix (some _), List.append_assoc]
      rfl
  | some suffix =>
    obtain ⟨earlier, earlierText, isLazy⟩ := suffix
    rw [hsuffix] at hstep hadmits
    obtain ⟨hlazy, rfl⟩ := lazy_of_step_quantifier rfl hstep
    obtain rfl : isLazy = false := hlazy
    obtain rfl : text = ['?'] := by
      cases hspells
      rfl
    refine ⟨before.push (phrase.withSuffix (some ⟨earlier, earlierText, true⟩)), ?_, ?_,
      hadmits (by simp)⟩
    · have hlazy := step_lazyMark dialect before phrase earlier earlierText
      rw [Phrase.lazyMark] at hlazy
      exact Except.ok.inj (hlazy.symm.trans hstep)
    · rw [lexemes_push, lexemes_push, phrase.lexemes_withSuffix (some _),
        phrase.lexemes_withSuffix (some _), List.append_assoc, List.append_assoc]
      rfl

/-- A step that the parser takes leads to another snapshot. -/
theorem exists_of_step {lexeme : Lexeme} {next : ParseState}
    (hspells : lexeme.role.Spells lexeme.text)
    (hstep : snapshot.state.step dialect (lexeme.token (Lexeme.size snapshot.lexemes)) =
      .ok next) :
    ∃ after : Snapshot, after.state = next ∧ after.lexemes = snapshot.lexemes ++ [lexeme] ∧
      dialect.AdmitsNext snapshot.roles lexeme.role := by
  obtain ⟨role, text⟩ := lexeme
  cases role with
  | atom atom =>
    rw [step_atom] at hstep
    refine ⟨_, Except.ok.inj hstep, by simp [Phrase.lexemes, Phrase.suffixLexemes], ?_⟩
    exact .of_isOpener_eq_false rfl (by simp)
  | quantifier quantifier => exact exists_of_step_quantifier hspells hstep
  | bar =>
    obtain rfl : text = ['|'] := hspells
    have hbar := step_bar dialect snapshot
    refine ⟨_, Except.ok.inj (hbar.symm.trans hstep), lexemes_nextBranch snapshot, ?_⟩
    exact .of_isOpener_eq_false rfl (by simp)
  | opener opener =>
    obtain ⟨hadmits, rfl⟩ := step_opener_eq_ok_iff.mp hstep
    refine ⟨_, rfl, ?_, hadmits⟩
    simp [lexemes, Choice.lexemes, Phrase.earlierLexemes, Phrase.sequenceLexemes]
  | closer =>
    obtain rfl : text = [')'] := hspells
    cases snapshot with
    | outermost choice => cases hstep
    | inside outer opener text choice =>
      have hcloser := step_closer dialect outer opener text choice
      refine ⟨_, Except.ok.inj (hcloser.symm.trans hstep), ?_, ?_⟩
      · rw [lexemes_push, Phrase.lexemes_group]
        simp [lexemes, Phrase.suffixLexemes, Phrase.closer]
      · exact .of_isOpener_eq_false rfl (by simp)

/-- A run that the parser finishes leads to another snapshot, and the dialect admits all that it
    read. -/
theorem exists_of_run {lexemes : List Lexeme}
    (hspells : ∀ lexeme ∈ lexemes, lexeme.role.Spells lexeme.text) {next : ParseState}
    (hadmits : dialect.Admits snapshot.roles)
    (hrun : snapshot.state.run dialect (Lexeme.place (Lexeme.size snapshot.lexemes) lexemes) =
      .ok next) :
    ∃ after : Snapshot, after.state = next ∧ after.lexemes = snapshot.lexemes ++ lexemes ∧
      dialect.Admits after.roles := by
  induction lexemes generalizing snapshot with
  | nil => exact ⟨snapshot, Except.ok.inj hrun, by simp, hadmits⟩
  | cons lexeme lexemes ih =>
    rw [Lexeme.place, ParseState.run] at hrun
    cases hstep : snapshot.state.step dialect
        (lexeme.token (Lexeme.size snapshot.lexemes)) with
    | error cause =>
      rw [hstep] at hrun
      cases hrun
    | ok state =>
      rw [hstep] at hrun
      obtain ⟨middle, rfl, hmiddle, hnext⟩ :=
        exists_of_step (hspells lexeme List.mem_cons_self) hstep
      have hroles : middle.roles = snapshot.roles ++ [lexeme.role] := by simp [roles, hmiddle]
      have hsize : Lexeme.size middle.lexemes =
          Lexeme.size snapshot.lexemes + Text.utf8Size lexeme.text := by simp [hmiddle]
      have hadmits' : dialect.Admits middle.roles := by
        rw [hroles, Dialect.admits_append_singleton]
        exact ⟨hadmits, hnext⟩
      simp only [← hsize] at hrun
      obtain ⟨after, hstate, hlexemes, hafter⟩ :=
        ih (fun other hother => hspells other (List.mem_cons_of_mem _ hother)) hadmits' hrun
      exact ⟨after, hstate, by simp [hlexemes, hmiddle], hafter⟩

end Snapshot

/-- The parser accepts exactly the lexemes that the grammar derives and the dialect admits, and
    what it makes of them is the tree of their derivation. -/
theorem Tree.ofTokens_eq_ok_iff {dialect : Dialect} {lexemes : List Lexeme}
    (hspells : ∀ lexeme ∈ lexemes, lexeme.role.Spells lexeme.text) {tree : Tree} :
    Tree.ofTokens dialect (Lexeme.size lexemes) (Lexeme.place 0 lexemes) = .ok tree ↔
      ∃ choice : Choice, choice.lexemes = lexemes ∧
        dialect.Admits (lexemes.map Lexeme.role) ∧ tree = choice.tree 0 0 := by
  constructor
  · intro hparse
    rw [Tree.ofTokens] at hparse
    cases hrun : ParseState.run dialect {} (Lexeme.place 0 lexemes) with
    | error error =>
      rw [hrun] at hparse
      cases hparse
    | ok state =>
      rw [hrun] at hparse
      have hrun' : (Snapshot.outermost {}).state.run dialect
          (Lexeme.place (Lexeme.size (Snapshot.outermost {}).lexemes) lexemes) = .ok state := hrun
      obtain ⟨after, rfl, hlexemes, hadmits⟩ :=
        Snapshot.exists_of_run hspells Dialect.admits_nil hrun'
      cases after with
      | inside outer opener text choice => cases hparse
      | outermost choice =>
        obtain rfl : choice.lexemes = lexemes := hlexemes
        have hfinish := Snapshot.finish_outermost choice
        exact ⟨choice, rfl, hadmits, Except.ok.inj (hparse.symm.trans hfinish)⟩
  · rintro ⟨choice, rfl, hadmits, rfl⟩
    exact choice.ofTokens_eq_ok hadmits

end PatternTree
