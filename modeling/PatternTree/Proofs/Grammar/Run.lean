import PatternTree.Proofs.Grammar.Snapshot
import PatternTree.Proofs.Token.Spelling

namespace PatternTree

open TokenRole (groupName? openers closers groupNames)

namespace ParseState

/-- A run over tokens that succeeds goes on with the tokens behind them. -/
theorem run_append {dialect : Dialect} {state next : ParseState} {front : List Token}
    (hfront : state.run dialect front = .ok next) (back : List Token) :
    state.run dialect (front ++ back) = next.run dialect back := by
  induction front generalizing state with
  | nil =>
    cases hfront
    rfl
  | cons token front ih =>
    rw [List.cons_append, run]
    rw [run] at hfront
    cases hstep : state.step dialect token with
    | error cause =>
      rw [hstep] at hfront
      cases hfront
    | ok after =>
      rw [hstep] at hfront
      exact ih hfront

end ParseState

namespace Snapshot

variable {dialect : Dialect}

theorem step_atom (dialect : Dialect) (snapshot : Snapshot) (atom : Atom) (text : List Char) :
    snapshot.state.step dialect
        ((⟨.atom atom, text⟩ : Lexeme).token (Lexeme.size snapshot.lexemes)) =
      .ok (snapshot.push (.leaf atom text none)).state := by
  rw [state_push]
  simp [ParseState.step, Lexeme.token, state, Phrase.item, Phrase.suffixItem, Phrase.lexemes,
    Phrase.suffixLexemes, groupName?, TokenRole.isNumbered]

theorem step_bar (dialect : Dialect) (snapshot : Snapshot) :
    snapshot.state.step dialect (Phrase.bar.token (Lexeme.size snapshot.lexemes)) =
      .ok snapshot.nextBranch.state := by
  rw [state_nextBranch]
  rfl

/-- A quantifier whose counts fit belongs to the item before it. -/
theorem step_quantifier (snapshot : Snapshot) (phrase : Phrase) {quantifier : Quantifier}
    (hfit : ∀ counts, quantifier = .counted counts → counts.Fit) (text : List Char) :
    (snapshot.push (phrase.withSuffix none)).state.step dialect
        ((⟨.quantifier quantifier, text⟩ : Lexeme).token
          (Lexeme.size (snapshot.push (phrase.withSuffix none)).lexemes)) =
      .ok (snapshot.push (phrase.withSuffix (some ⟨quantifier, text, false⟩))).state := by
  have hbounds := Quantifier.bounds_eq_ok_iff.mpr ⟨hfit, rfl⟩
  rw [state_push, state_push, lexemes_push, phrase.item_withSuffix none,
    phrase.item_withSuffix (some _), phrase.lexemes_withSuffix (some _)]
  simp [ParseState.step, Lexeme.token, Level.push, Level.quantify, Phrase.suffixItem,
    Item.quantify, hbounds, Except.map, Phrase.stop_tree_withSuffix_none, Phrase.suffixLexemes,
    groupName?, TokenRole.isNumbered, Nat.add_assoc]

/-- A question mark behind a quantifier makes it lazy. -/
theorem step_lazyMark (dialect : Dialect) (snapshot : Snapshot) (phrase : Phrase)
    (quantifier : Quantifier) (text : List Char) :
    (snapshot.push (phrase.withSuffix (some ⟨quantifier, text, false⟩))).state.step dialect
        (Phrase.lazyMark.token (Lexeme.size
          (snapshot.push (phrase.withSuffix (some ⟨quantifier, text, false⟩))).lexemes)) =
      .ok (snapshot.push (phrase.withSuffix (some ⟨quantifier, text, true⟩))).state := by
  rw [state_push, state_push, lexemes_push, phrase.item_withSuffix (some _),
    phrase.item_withSuffix (some _), phrase.lexemes_withSuffix (some _),
    phrase.lexemes_withSuffix (some _)]
  simp [ParseState.step, Lexeme.token, Phrase.lazyMark, Level.push, Level.quantify,
    Phrase.suffixItem, Item.quantify, Except.map, Phrase.stop_tree_withSuffix_none,
    Phrase.suffixLexemes, groupName?, TokenRole.isNumbered, Nat.add_assoc]

/-- Behind an opener the level is empty, and the one around it is kept with the group. -/
theorem state_inside (snapshot : Snapshot) (opener : Opener) (text : List Char) :
    (snapshot.inside opener text {}).state =
      { level := {}
        openGroups := ⟨opener.group (Lexeme.numbered snapshot.lexemes + 1),
          ⟨Lexeme.size snapshot.lexemes, Lexeme.size snapshot.lexemes + Text.utf8Size text⟩,
          snapshot.level⟩ :: snapshot.openGroups
        numbered := Lexeme.numbered snapshot.lexemes +
          if (opener.group (Lexeme.numbered snapshot.lexemes + 1)).isCapturing then 1 else 0
        names := (opener.group (Lexeme.numbered snapshot.lexemes + 1)).name.toList ++
          snapshot.state.names } := by
  cases opener <;> simp [state, roles, level, choice, Choice.level, Phrase.earlierTrees,
    Phrase.items, openGroups, lexemes, Choice.lexemes, Phrase.earlierLexemes,
    Phrase.sequenceLexemes, Opener.group, Group.isCapturing, TokenRole.isNumbered, groupName?]

/-- A group is opened exactly where the dialect admits one more opener. -/
theorem step_opener_eq_ok_iff {snapshot : Snapshot} {opener : Opener} {text : List Char}
    {next : ParseState} :
    snapshot.state.step dialect
        ((⟨.opener opener, text⟩ : Lexeme).token (Lexeme.size snapshot.lexemes)) = .ok next ↔
      dialect.AdmitsNext snapshot.roles (.opener opener) ∧
        next = (snapshot.inside opener text {}).state := by
  have hlength := snapshot.length_openGroups
  simp only [ParseState.step, Lexeme.token, ParseState.openGroup, state_inside]
  constructor
  · intro hstep
    split at hstep
    · cases hstep
    next hdepth =>
      have hroom : openers snapshot.roles < closers snapshot.roles + dialect.maxDepth := by
        have hdepth' : ¬ dialect.maxDepth ≤ snapshot.openGroups.length := hdepth
        omega
      split at hstep
      next hname =>
        refine ⟨⟨by simp, fun _ => hroom, ?_⟩, (Except.ok.inj hstep).symm⟩
        intro _ name hopener
        cases opener <;> simp_all [groupName?, Opener.group]
      next name hname =>
        split at hstep
        · cases hstep
        next hnew =>
          refine ⟨⟨by simp, fun _ => hroom, ?_⟩, (Except.ok.inj hstep).symm⟩
          intro hdistinct found hfound hmem
          obtain rfl : name = found := by
            cases opener <;> simp_all [groupName?, Opener.group]
          exact hnew (by simpa [hdistinct, state] using hmem)
  · rintro ⟨hadmits, rfl⟩
    have hroom : ¬ dialect.maxDepth ≤ snapshot.state.openGroups.length := by
      have hdepth := hadmits.depth rfl
      have hstate : snapshot.state.openGroups.length = snapshot.openGroups.length := rfl
      omega
    rw [if_neg hroom]
    cases opener with
    | capturing => rfl
    | nonCapturing => rfl
    | named name =>
      have hnew : ¬ (name ∈ snapshot.state.names && !dialect.allowDuplicateNames) = true := by
        intro hold
        simp only [Bool.and_eq_true, decide_eq_true_eq, Bool.not_eq_true'] at hold
        exact hadmits.names hold.2 name rfl (List.mem_reverse.mp hold.1)
      simp only [Opener.group]
      rw [if_neg hnew]
      rfl

/-- A closer makes the innermost open group an item of what stands around it. -/
theorem step_closer (dialect : Dialect) (outer : Snapshot) (opener : Opener) (text : List Char)
    (choice : Choice) :
    (outer.inside opener text choice).state.step dialect
        (Phrase.closer.token (Lexeme.size (outer.inside opener text choice).lexemes)) =
      .ok (outer.push (.group opener text choice.earlier choice.last none)).state := by
  have hstop := (outer.inside opener text choice).start_add_size
  have hone : Text.utf8Size [')'] = 1 := rfl
  rw [start, Snapshot.choice] at hstop
  rw [state_push, Phrase.item_group, Phrase.lexemes_group]
  simp [ParseState.step, Lexeme.token, Phrase.closer, ParseState.closeGroup, state, openGroups,
    Phrase.suffixItem, Phrase.suffixLexemes, lexemes, groupName?, level, start, before,
    roles, Snapshot.choice, Choice.tree, hone, Span.through, TokenRole.isNumbered, Nat.add_assoc]

/-- At the end of a pattern all groups must have been closed. -/
theorem finish_outermost (choice : Choice) :
    (outermost choice).state.finish (Lexeme.size choice.lexemes) = .ok (choice.tree 0 0) := by
  simp [ParseState.finish, state, openGroups, level, Snapshot.choice, start, before, Choice.tree]

end Snapshot

end PatternTree
