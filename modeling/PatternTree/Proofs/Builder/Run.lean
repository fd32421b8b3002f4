import PatternTree.Proofs.Builder.Items
import PatternTree.Proofs.Grammar.Parse
import PatternTree.Proofs.Token.Tiles

namespace PatternTree

/-- The trees of the levels that open groups interrupt, from the outermost one inwards. -/
def OpenGroup.trees : List OpenGroup → List Tree
  | [] => []
  | innermost :: others => trees others ++ innermost.outer.trees

/-- A group that is opened interrupts a level, and another one starts. -/
theorem ParseState.of_openGroup_eq_ok {dialect : Dialect} {state next : ParseState}
    {opener : Opener} {span : Span} (hopen : state.openGroup dialect opener span = .ok next) :
    next.level = {} ∧ next.openGroups =
      ⟨opener.group (state.numbered + 1), span, state.level⟩ :: state.openGroups := by
  unfold openGroup at hopen
  dsimp only at hopen
  split at hopen
  · cases hopen
  · split at hopen
    · cases hopen
      exact ⟨rfl, rfl⟩
    · split at hopen
      · cases hopen
      · cases hopen
        exact ⟨rfl, rfl⟩

namespace Builder

/-- The frames of open groups hold the levels that are interrupted. Every group was opened before
    the ones inside it, and all of them before the offset `here`. -/
inductive Waits : Nat → List Pending → List OpenGroup → Prop where
  | nil (here : Nat) : Waits here [] []
  | cons {here : Nat} {frame : Frame} {pending : List Pending} {innermost : OpenGroup}
      {others : List OpenGroup} (hstart : innermost.span.start ≤ here)
      (hframe : frame.Holds (Tree.sizes (OpenGroup.trees others)) innermost.span.start
        innermost.outer)
      (hothers : Waits innermost.span.start pending others) :
      Waits here (⟨frame, innermost.group, innermost.span⟩ :: pending) (innermost :: others)

namespace Waits

variable {here : Nat} {pending : List Pending} {groups : List OpenGroup}

theorem length_eq (hwaits : Waits here pending groups) : pending.length = groups.length := by
  induction hwaits with
  | nil => rfl
  | cons _ _ _ ih => rw [List.length_cons, List.length_cons, ih]

theorem mono {later : Nat} (hwaits : Waits here pending groups) (hlater : here ≤ later) :
    Waits later pending groups := by
  cases hwaits with
  | nil => exact .nil later
  | cons hstart hframe hothers => exact .cons (Nat.le_trans hstart hlater) hframe hothers

end Waits

/-- Between two turns a builder stands where a state of the parser does. A quantifier that comes
    next finds nothing to repeat, since one that belongs to an item is taken with it. -/
structure Tracks (task : Task) (state : ParseState) (ahead : Prospect)
    (levels : Frame × List Pending) (builder : Builder) : Prop where
  stands : Stands task ahead (state.numbered + 1) state.names
    (OpenGroup.trees state.openGroups ++ state.level.trees) builder
  frame : levels.1.Holds (Tree.sizes (OpenGroup.trees state.openGroups)) ahead.start state.level
  pending : Waits ahead.start levels.2 state.openGroups
  items : ∀ lexeme ∈ ahead.lexemes.head?, lexeme.role.isQuantifier = true → state.level.items = []

end Builder

namespace Build

open Work Builder

section

variable {task : Task} {builder : Builder} {state : ParseState} {frame : Frame}
  {pending : List Pending} {start : Nat} {text : List Char} {lexemes : List Lexeme}
  {failure : Option LexReport} {expected : Except PatternReport Tree}

/-- What is left when a token has been taken in: a builder that stands where the parser does, with
    no more than the later tokens still to come. -/
def Goes (task : Task) (expected : Except PatternReport Tree) (count : Nat)
    (levels : Frame × List Pending) (builder : Builder) : Prop :=
  ∃ state ahead, Tracks task state ahead levels builder ∧
    ahead.lexemes.length ≤ count ∧ task.read state ahead = expected

/-- An item is added to the level that goes on where the item starts. -/
theorem addItem_meets {ahead : Prospect} {tree : Tree}
    (hstands : Stands task ahead (state.numbered + 1) state.names
      ((OpenGroup.trees state.openGroups ++ state.level.trees) ++ [tree]) builder)
    (hframe : frame.Holds (Tree.sizes (OpenGroup.trees state.openGroups)) tree.span.start
      state.level)
    (hpending : Waits tree.span.start pending state.openGroups)
    (hread : task.read { state with level := state.level.push (.plain tree) } ahead = expected)
    (hstop : tree.span.stop = ahead.start) (hle : tree.span.start ≤ ahead.start) :
    (addItem frame pending
      (Tree.sizes (OpenGroup.trees state.openGroups ++ state.level.trees) + tree.size - 1)
      task builder).Meets (expected = .error ·) (Goes task expected ahead.lexemes.length) := by
  refine (repetition_meets hstands hread hstop hle).andThen ?_
  rintro id next ⟨item, ahead', hnext, rfl, hspan, hstart, hlength, hread, hhead⟩
  have hle' : tree.span.start ≤ ahead'.start := Nat.le_trans hle hstart
  refine ⟨{ state with level := state.level.push item }, ahead',
    ⟨?_, ?_, hpending.mono hle', ?_⟩, hlength, hread⟩
  · rw [Level.trees_push, ← List.append_assoc]
    exact hnext
  · rw [Tree.sizes_append]
    exact hframe.push hspan hle'
  · intro lexeme hlexeme hquantifier
    rw [hhead lexeme hlexeme] at hquantifier
    cases hquantifier

section

variable {lexeme : Lexeme} {next : Builder}
  (htracks : Tracks task state ⟨start, lexeme :: lexemes, failure⟩ (frame, pending) builder)
  (hnext : Stands task (.behind start lexeme lexemes failure) (state.numbered + 1) state.names
    (OpenGroup.trees state.openGroups ++ state.level.trees) next)
  (hread : task.read state ⟨start, lexeme :: lexemes, failure⟩ = expected)

include htracks hnext hread

theorem take_atom_meets {atom : Atom} (hrole : lexeme.role = .atom atom) :
    (take start (lexeme.token start) frame pending task next).Meets (expected = .error ·)
      (Goes task expected lexemes.length) := by
  obtain ⟨role, text⟩ := lexeme
  obtain rfl : role = .atom atom := hrole
  have hlabel : ∀ opened, atom.label ≠ .group opened := by cases atom <;> simp [Atom.label]
  unfold take
  dsimp only [Lexeme.token]
  refine (push_meets hlabel _ hnext).andThen ?_
  rintro id next ⟨hnext, rfl⟩
  exact addItem_meets hnext htracks.frame htracks.pending hread rfl (Nat.le_add_right _ _)

theorem take_quantifier_meets {quantifier : Quantifier}
    (hrole : lexeme.role = .quantifier quantifier) :
    (take start (lexeme.token start) frame pending task next).Meets (expected = .error ·)
      (Goes task expected lexemes.length) := by
  obtain ⟨role, text⟩ := lexeme
  obtain rfl : role = .quantifier quantifier := hrole
  have hitems := htracks.items _ rfl rfl
  simp only [Task.read, Prospect.items_cons, ParseState.read, ParseState.step, Level.quantify,
    Lexeme.token, hitems] at hread
  exact hread.symm

theorem take_bar_meets (hrole : lexeme.role = .bar) :
    (take start (lexeme.token start) frame pending task next).Meets (expected = .error ·)
      (Goes task expected lexemes.length) := by
  obtain ⟨role, text⟩ := lexeme
  obtain rfl : role = .bar := hrole
  have hread' : task.read { state with level := state.level.nextBranch start }
    (.behind start ⟨.bar, text⟩ lexemes failure) = expected := hread
  refine (closeBranch_meets hnext htracks.frame).andThen ?_
  rintro closed next ⟨hnext, hbranches, hitems, hcover, hle⟩
  refine (offset_meets hnext hread').andThen ?_
  rintro _ next ⟨hnext, rfl⟩
  have hstart : ∀ here, (Tree.cover here (state.level.nextBranch start).branches.reverse).start =
      closed.choiceStart := by
    intro here
    rw [Level.nextBranch, List.reverse_cons, Tree.cover_concat] at hcover ⊢
    exact congrArg Span.start hcover
  have hbehind : start ≤ (Prospect.behind start ⟨.bar, text⟩ lexemes failure).start :=
    Nat.le_add_right _ _
  refine ⟨{ state with level := state.level.nextBranch start }, _,
    ⟨hnext, ?_, htracks.pending.mono hbehind, ?_⟩, Nat.le_refl _, hread'⟩
  · exact ⟨hbranches, hitems, rfl, hstart _, Nat.le_trans hle hbehind, Nat.le_refl _⟩
  · exact fun _ _ _ => rfl

theorem take_opener_meets {opener : Opener} (hrole : lexeme.role = .opener opener) :
    (take start (lexeme.token start) frame pending task next).Meets (expected = .error ·)
      (Goes task expected lexemes.length) := by
  obtain ⟨role, text⟩ := lexeme
  obtain rfl : role = .opener opener := hrole
  have hread' : task.resume start (.behind start ⟨.opener opener, text⟩ lexemes failure)
      (state.openGroup task.dialect opener ⟨start, start + Text.utf8Size text⟩) = expected :=
    (task.read_cons state start _ lexemes failure).symm.trans hread
  have hroom := htracks.stands.room
  simp only [Lexeme.numbered_cons] at hroom
  unfold take
  dsimp only [Lexeme.token]
  rw [htracks.pending.length_eq]
  refine (openGroup_meets hnext (by simpa [Prospect.behind, Nat.add_assoc] using hroom)
    hread').andThen ?_
  rintro group next ⟨rfl, opened, hopen, hnext⟩
  rw [hopen] at hread'
  refine (offset_meets hnext hread').andThen ?_
  rintro _ next ⟨hnext, rfl⟩
  obtain ⟨hlevel, hgroups⟩ := ParseState.of_openGroup_eq_ok hopen
  refine ⟨opened, _, ⟨?_, ?_, ?_, ?_⟩, Nat.le_refl _, hread'⟩
  · rw [hlevel, hgroups]
    simpa [OpenGroup.trees, Level.trees] using hnext
  · rw [hlevel]
    exact Frame.holds_new _ _
  · rw [hgroups]
    exact @Waits.cons _ _ _ ⟨_, ⟨start, _⟩, state.level⟩ _ (Nat.le_add_right _ _) htracks.frame
      htracks.pending
  · intro _ _ _
    rw [hlevel]

theorem take_closer_meets (hrole : lexeme.role = .closer) :
    (take start (lexeme.token start) frame pending task next).Meets (expected = .error ·)
      (Goes task expected lexemes.length) := by
  obtain ⟨role, text⟩ := lexeme
  obtain rfl : role = .closer := hrole
  obtain ⟨-, hframe, hpending, -⟩ := htracks
  obtain ⟨level, openGroups, numbered, names⟩ := state
  cases hpending with
  | nil => exact hread.symm
  | @cons _ outer pending innermost others hstart houter hothers =>
    have hle : innermost.span.start ≤ start + Text.utf8Size text :=
      Nat.le_trans hstart (Nat.le_add_right _ _)
    unfold take
    dsimp only [Lexeme.token]
    refine (closeFrame_meets hnext hframe).andThen ?_
    rintro body next ⟨hnext, rfl⟩
    refine (closeGroup_meets innermost.group innermost.span hnext hle).andThen ?_
    rintro group next ⟨hnext, rfl⟩
    -- The interrupted level goes on with the group as its next item.
    have hread' : task.read ⟨innermost.outer.push (.plain (.node (.group innermost.group)
          (innermost.span.through ⟨start, start + Text.utf8Size text⟩) [level.tree start])),
        others, numbered, names⟩ (.behind start ⟨.closer, text⟩ lexemes failure) = expected := hread
    exact @addItem_meets _ _ ⟨innermost.outer, others, numbered, names⟩ _ _ _ _ _ hnext houter
      hothers hread' rfl hle

end

/-- A token that is taken in brings a builder to where it brings the parser. -/
theorem take_meets {lexeme : Lexeme} {next : Builder}
    (htracks : Tracks task state ⟨start, lexeme :: lexemes, failure⟩ (frame, pending) builder)
    (hnext : Stands task (.behind start lexeme lexemes failure) (state.numbered + 1) state.names
      (OpenGroup.trees state.openGroups ++ state.level.trees) next)
    (hread : task.read state ⟨start, lexeme :: lexemes, failure⟩ = expected) :
    (take start (lexeme.token start) frame pending task next).Meets (expected = .error ·)
      (Goes task expected lexemes.length) := by
  cases hrole : lexeme.role with
  | atom atom => exact take_atom_meets htracks hnext hread hrole
  | quantifier quantifier => exact take_quantifier_meets htracks hnext hread hrole
  | bar => exact take_bar_meets htracks hnext hread hrole
  | opener opener => exact take_opener_meets htracks hnext hread hrole
  | closer => exact take_closer_meets htracks hnext hread hrole

end

/-- A node is the root of the tree that is expected, and the draft has the nodes of that tree. -/
def IsRoot (expected : Except PatternReport Tree) (root : Nat) (builder : Builder) : Prop :=
  ∃ tree : Tree, expected = .ok tree ∧ builder.draft = .ofForest [tree] ∧ root = tree.size - 1

variable {task : Task} {ahead : Prospect} {builder : Builder} {state : ParseState}
  {levels : Frame × List Pending} {expected : Except PatternReport Tree}

/-- A turn takes a token in, or it leaves with what the parser comes to where the text ends. -/
theorem turn_meets (htracks : Tracks task state ahead levels builder)
    (hread : task.read state ahead = expected) :
    (turn levels task builder).Meets (expected = .error ·) fun turned next =>
      match turned with
      | .again levels => ∃ count < ahead.lexemes.length, Goes task expected count levels next
      | .leave root => IsRoot expected root next := by
  obtain ⟨frame, pending⟩ := levels
  obtain ⟨start, lexemes, failure⟩ := ahead
  have hstands := htracks.stands
  simp only [turn, bind_apply, get_apply, Outcome.done_andThen, hstands.lastStop]
  cases lexemes with
  | nil =>
    refine (advance_meets_nil hstands hread).andThen ?_
    rintro _ next ⟨hnext, rfl, rfl⟩
    have hends := hnext.ends rfl
    obtain ⟨level, openGroups, numbered, names⟩ := state
    rw [Task.read, ← hends] at hread
    cases htracks.pending with
    | nil =>
      refine (closeFrame_meets hnext htracks.frame).andThen ?_
      rintro root next ⟨hnext, rfl⟩
      refine ⟨level.tree start, hread.symm, hnext.draft, ?_⟩
      simp [OpenGroup.trees, Tree.sizes]
    | cons => exact hread.symm
  | cons lexeme lexemes =>
    refine (advance_meets_cons hstands hread).andThen ?_
    rintro _ next ⟨hnext, rfl⟩
    refine (take_meets htracks hnext hread).andThen ?_
    intro levels next hgoes
    exact ⟨lexemes.length, Nat.lt_succ_self _, hgoes⟩

/-- A builder that takes turns comes to what the parser comes to. -/
theorem turns_meets {count : Nat} (htracks : Tracks task state ahead levels builder)
    (hread : task.read state ahead = expected) (hcount : ahead.lexemes.length < count) :
    (turns turn count levels task builder).Meets (expected = .error ·) (IsRoot expected) := by
  induction count generalizing builder state ahead levels with
  | zero => exact absurd hcount (Nat.not_lt_zero _)
  | succ count ih =>
    refine (turn_meets htracks hread).andThen ?_
    intro turned next hturned
    cases turned with
    | leave root => exact hturned
    | again levels =>
      -- A turn that goes on has taken a lexeme, so the turns do not run out before the lexemes.
      obtain ⟨remaining, hremaining, state', ahead', htracks', hlength, hread'⟩ := hturned
      exact ih htracks' hread' (by omega)

end Build

namespace ParseState

/-- Reading items comes to a run over the tokens and to what is behind them. -/
theorem read_items (dialect : Dialect) (size : Nat) (state : ParseState) (tokens : List Token)
    (failure : Option LexError) :
    state.read dialect size (Scan.items ⟨tokens, failure⟩) =
      ((state.run dialect tokens).mapError .structural).bind fun last =>
        failure.elim ((last.finish size).mapError .structural) (.error <| .lexical ·.report) := by
  induction tokens generalizing state with
  | nil => cases failure <;> rfl
  | cons token tokens ih =>
    have hitems : Scan.items ⟨token :: tokens, failure⟩ =
        .ok token :: Scan.items ⟨tokens, failure⟩ := Scan.items_cons token ⟨tokens, failure⟩
    rw [hitems, read, run]
    cases state.step dialect token with
    | error cause => rfl
    | ok next => exact ih next

end ParseState

/-- The tree of a text is what reading its items comes to. -/
theorem Tree.read_items_ofText (dialect : Dialect) (chars : List Char) :
    ParseState.read dialect (Text.utf8Size chars) {}
        (Scan.ofText dialect.classSyntax 0 chars).items =
      (Tree.ofText dialect chars).mapError PatternError.report := by
  generalize hscan : Scan.ofText dialect.classSyntax 0 chars = scan
  obtain ⟨tokens, failure⟩ := scan
  rw [ParseState.read_items, Tree.ofText, hscan]
  cases failure with
  | none =>
    rw [Tree.ofTokens]
    cases hrun : ParseState.run dialect {} tokens with
    | error error => rfl
    | ok last =>
      dsimp only [Except.mapError, Except.bind, Option.elim_none]
      cases last.finish (Text.utf8Size chars) <;> rfl
  | some failure => cases hrun : ParseState.run dialect {} tokens <;> rfl

namespace Builder

/-- At its start a builder has all items of the text still to get. -/
theorem exists_stands_start (dialect : Dialect) (chars : List Char)
    (hdigits : Text.DigitsFit chars)
    (hnumbered : (Scan.ofText dialect.classSyntax 0 chars).tokens.countP (·.role.isNumbered) <
      0xffffffff) :
    ∃ ahead : Prospect, Stands ⟨dialect, chars⟩ ahead 1 [] [] {} ∧
      ahead.items = (Scan.ofText dialect.classSyntax 0 chars).items ∧
      ahead.lexemes.length ≤ Text.utf8Size chars := by
  obtain ⟨lexemes, rest, htext, hreads, htokens, hrest, -⟩ :=
    Lexeme.exists_reads_ofText dialect.classSyntax 0 chars
  have hyields := Lexer.yields_start dialect.classSyntax chars
  have hsize : Text.utf8Size chars = Lexeme.size lexemes + Text.utf8Size rest := by
    rw [htext, Text.utf8Size_append, Lexeme.size]
  generalize Scan.ofText dialect.classSyntax 0 chars = scan at *
  obtain ⟨tokens, failure⟩ := scan
  obtain rfl : tokens = Lexeme.place 0 lexemes := htokens
  have hitems : Prospect.items ⟨0, lexemes, failure.map LexError.report⟩ =
      Scan.items ⟨Lexeme.place 0 lexemes, failure⟩ := by
    cases failure <;> rfl
  refine ⟨⟨0, lexemes, failure.map LexError.report⟩, ?_, hitems, ?_⟩
  · exact {
      digits := hdigits
      expects := by
        rw [hitems]
        exact hyields
      lastStop := rfl
      ends := fun hnone => by
        obtain rfl := hrest (Option.map_eq_none_iff.mp hnone)
        simp [hsize, Text.utf8Size]
      spells := hreads.spells
      nextNumber := rfl
      room := by
        rw [Lexeme.countP_isNumbered_place] at hnumbered
        dsimp only
        omega
      names := rfl
      draft := rfl }
  · have hlength := hreads.length_le_size
    dsimp only
    omega

end Builder

/-- From its start on a builder comes to the pattern of the tree that is read. -/
theorem Build.pattern_meets {task : Builder.Task} {ahead : Builder.Prospect}
    {expected : Except PatternReport Tree} (source : String)
    (hstands : Builder.Stands task ahead 1 [] [] {}) (hread : task.read {} ahead = expected)
    (hlength : ahead.lexemes.length ≤ Text.utf8Size task.chars) :
    (Build.pattern source task {}).Meets (expected = .error ·) fun pattern _ =>
      ∃ tree, expected = .ok tree ∧ pattern = .ofTree source tree := by
  refine (offset_meets hstands hread).andThen ?_
  rintro _ builder ⟨hbuilder, rfl⟩
  have htracks : Builder.Tracks task {} ahead
      ({ choiceStart := ahead.start, branchStart := ahead.start }, []) builder :=
    ⟨hbuilder, Builder.Frame.holds_new 0 ahead.start, .nil _, fun _ _ _ => rfl⟩
  refine (turns_meets htracks hread (Nat.lt_succ_of_le hlength)).andThen ?_
  rintro _ builder ⟨tree, htree, hdraft, rfl⟩
  obtain ⟨settled, hsettle, hfinish⟩ :=
    Option.map_eq_some_iff.mp (Draft.settleAll?_ofForest source tree)
  simp only [drafted, Work.bind_apply, Work.get_apply, Outcome.done_andThen, hdraft, hsettle,
    Option.map_some, Work.demand_some, Work.pure_apply, Work.modify_apply]
  exact ⟨tree, htree, hfinish⟩

/-- A builder never breaks on a text with a number for each of its groups and a count for the digits
    of each code in braces, and it builds what the parser reads. -/
theorem Builder.build?_eq (dialect : Dialect) (source : String)
    (hdigits : Text.DigitsFit source.toList)
    (hnumbered : (tokenize dialect.classSyntax source).tokens.countP (·.role.isNumbered) <
      0xffffffff) :
    build? dialect source = some ((parse dialect source).mapError PatternError.report) := by
  obtain ⟨ahead, hstands, hitems, hlength⟩ :=
    exists_stands_start dialect source.toList hdigits hnumbered
  have hread : Task.read ⟨dialect, source.toList⟩ {} ahead =
      (Tree.ofText dialect source.toList).mapError PatternError.report := by
    rw [Task.read, hitems]
    exact Tree.read_items_ofText dialect source.toList
  have hparse : (parse dialect source).mapError PatternError.report =
      (Task.read ⟨dialect, source.toList⟩ {} ahead).map (Pattern.ofTree source) := by
    rw [hread, parse]
    cases Tree.ofText dialect source.toList <;> rfl
  have hbuild := Build.pattern_meets source hstands rfl hlength
  rw [hparse, build?]
  cases hresult : Build.pattern source ⟨dialect, source.toList⟩ {} with
  | broken =>
    rw [hresult] at hbuild
    exact hbuild.elim
  | failed report =>
    rw [hresult] at hbuild
    rw [show Task.read _ {} ahead = .error report from hbuild]
    rfl
  | done pattern builder =>
    rw [hresult] at hbuild
    obtain ⟨tree, htree, rfl⟩ := hbuild
    rw [htree]
    rfl

end PatternTree
