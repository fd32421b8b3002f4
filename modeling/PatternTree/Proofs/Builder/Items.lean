import PatternTree.Proofs.Builder.Levels

namespace PatternTree

namespace Quantifier

/-- Counts are read again from what the lexer took for them. -/
theorem boundsIn?_of_spells {quantifier : Quantifier} {text : List Char}
    (hspells : quantifier.Spells text) : quantifier.boundsIn? text = some quantifier.bounds := by
  cases hspells with
  | counted hwritten => rw [boundsIn?, Counts.ofText?_of_isWritten hwritten]; rfl
  | _ => rfl

end Quantifier

namespace Build

open Work Builder

variable {task : Task} {ahead : Prospect} {number : Nat} {names : List String}
  {front trees : List Tree} {builder : Builder} {state : ParseState}
  {expected : Except PatternReport Tree}

theorem push_meets {label : Label} (hlabel : ∀ opened, label ≠ .group opened) (span : Span)
    (hstands : Stands task ahead number names trees builder) :
    (push label span task builder).Meets (expected = .error ·) fun id next =>
      Stands task ahead number names (trees ++ [.leaf label span]) next ∧
        id = Tree.sizes trees + (Tree.leaf label span).size - 1 := by
  have hpush : (fun draft : Draft => some (draft.push label span)) (.ofForest trees) = _ :=
    congrArg some (Draft.push_ofForest hlabel span trees)
  exact drafted_meets hstands hpush

/-- A group is put around its body up to the end of the token that was taken last. -/
theorem closeGroup_meets {body : Tree} (opened : Group) (opening : Span)
    (hstands : Stands task ahead number names (front ++ [body]) builder)
    (hle : opening.start ≤ ahead.start) :
    (closeGroup opened opening (Tree.sizes front + body.size - 1) task builder).Meets
      (expected = .error ·) fun id next =>
        let tree := Tree.node (.group opened) (opening.through (.empty ahead.start)) [body]
        Stands task ahead number names (front ++ [tree]) next ∧
          id = Tree.sizes front + tree.size - 1 := by
  have hjoin := Draft.joinGroup?_ofForest opened (opening.through (.empty ahead.start)) front body
  rw [closeGroup, bind_apply, get_apply, Outcome.done_andThen, hstands.lastStop, bind_apply,
    span_apply hle, Outcome.done_andThen]
  refine (drafted_meets hstands hjoin).imp ?_
  rintro id next ⟨hnext, rfl⟩
  refine ⟨hnext, ?_⟩
  rw [Tree.size, Tree.sizes_singleton]
  rfl

/-- A group gets the number and the name that its opener announces, unless it is too deep or its
    name is taken. -/
theorem openGroup_meets {opener : Opener} {span : Span}
    (hstands : Stands task ahead (state.numbered + 1) state.names trees builder)
    (hroom : state.numbered + 1 + (if (TokenRole.opener opener).isNumbered then 1 else 0) +
      Lexeme.numbered ahead.lexemes ≤ 0xffffffff)
    (hread : task.resume span.start ahead (state.openGroup task.dialect opener span) = expected) :
    (openGroup opener span (state.openGroups.length + 1) task builder).Meets
      (expected = .error ·) fun group next =>
        group = opener.group (state.numbered + 1) ∧
          ∃ state', state.openGroup task.dialect opener span = .ok state' ∧
            Stands task ahead (state'.numbered + 1) state'.names trees next := by
  unfold openGroup
  simp only [bind_apply, given_apply, Outcome.done_andThen]
  by_cases hdepth : task.dialect.maxDepth < state.openGroups.length + 1
  · rw [if_pos hdepth]
    have hrefused : state.openGroup task.dialect opener span =
        .error (.tooDeep task.dialect.maxDepth) := by
      rw [ParseState.openGroup, if_pos (Nat.le_of_lt_succ hdepth)]
    rw [hrefused] at hread
    exact hread.symm
  have hdepth' : ¬ task.dialect.maxDepth ≤ state.openGroups.length := by omega
  rw [if_neg hdepth]
  cases opener with
  | capturing =>
    refine (number_meets hstands ?_).andThen ?_
    · simp only [TokenRole.isNumbered, if_true] at hroom
      omega
    rintro given next ⟨hnext, rfl⟩
    exact ⟨rfl, _, if_neg hdepth', hnext⟩
  | nonCapturing => exact ⟨rfl, _, if_neg hdepth', hstands⟩
  | named name =>
    simp only [bind_apply, get_apply, modify_apply, Outcome.done_andThen, hstands.names]
    by_cases htaken : (decide (name ∈ state.names) && !task.dialect.allowDuplicateNames) = true
    · rw [if_pos htaken]
      have hrefused : state.openGroup task.dialect (.named name) span =
          .error (.duplicateName name) := by
        rw [ParseState.openGroup, if_neg hdepth']
        exact if_pos htaken
      rw [hrefused] at hread
      exact hread.symm
    · -- The name is noted before its group gets a number.
      rw [if_neg htaken]
      have hnamed : Stands task ahead (state.numbered + 1) (name :: state.names) trees
          { builder with names := name :: builder.names } := by
        exact { hstands with names := by rw [hstands.names] }
      rw [hstands.names] at hnamed
      refine (number_meets hnamed ?_).andThen ?_
      · simp only [TokenRole.isNumbered, if_true] at hroom
        omega
      rintro given next ⟨hnext, rfl⟩
      rw [ParseState.openGroup, if_neg hdepth']
      exact ⟨rfl, _, if_neg htaken, hnext⟩

section

variable {tree : Tree} {bounds : Bounds} {greedy : Bool} {level : Level} {start stop : Nat}
  {quantifier : Quantifier} {text : List Char} {lexemes : List Lexeme}
  {failure : Option LexReport}

theorem read_plain_quantifier :
    task.read { state with level := level.push (.plain tree) }
        ⟨start, ⟨.quantifier quantifier, text⟩ :: lexemes, failure⟩ =
      match quantifier.bounds with
      | .error error => .error (.structural ⟨error.cause text, start⟩)
      | .ok bounds =>
        task.read
          { state with
            level := level.push (.repeated tree bounds true (start + Text.utf8Size text)) }
          (.behind start ⟨.quantifier quantifier, text⟩ lexemes failure) := by
  simp only [Task.read, Prospect.items_cons, ParseState.read, ParseState.step, Level.push,
    Level.quantify, Item.quantify, Lexeme.token]
  cases quantifier.bounds with
  | error error => cases error <;> rfl
  | ok bounds => rfl

theorem read_repeated_quantifier (hquantifier : greedy = true → quantifier ≠ .optional) :
    task.read { state with level := level.push (.repeated tree bounds greedy stop) }
        ⟨start, ⟨.quantifier quantifier, text⟩ :: lexemes, failure⟩ =
      .error (.structural ⟨.repeatedTwice text, start⟩) := by
  cases greedy with
  | false => rfl
  | true =>
    simp only [Task.read, Prospect.items_cons, ParseState.read, ParseState.step, Level.push,
      Level.quantify, Item.quantify, Lexeme.token, if_neg (hquantifier rfl)]
    rfl

/-- The question mark behind a repetition is taken with it. -/
theorem isGreedy_meets (hstands : Stands task ahead number names trees builder)
    (hread : task.read
      { state with level := level.push (.repeated tree bounds true ahead.start) } ahead =
        expected) :
    (isGreedy task builder).Meets (expected = .error ·) fun greedy next =>
      ∃ ahead', Stands task ahead' number names trees next ∧
        ahead.start ≤ ahead'.start ∧ ahead'.lexemes.length ≤ ahead.lexemes.length ∧
        task.read
          { state with level := level.push (.repeated tree bounds greedy ahead'.start) } ahead' =
            expected ∧
        (greedy = true → ∀ lexeme ∈ ahead'.lexemes.head?,
          lexeme.role ≠ .quantifier .optional) := by
  refine (peek_meets hstands hread).andThen ?_
  rintro token next ⟨hnext, -, hsees⟩
  cases hsees with
  | nothing start => exact ⟨_, hnext, Nat.le_refl _, Nat.le_refl _, hread, by simp⟩
  | token start lexeme lexemes failure =>
    obtain ⟨role, text⟩ := lexeme
    dsimp only [Lexeme.token]
    by_cases hrole : role = .quantifier .optional
    · subst hrole
      rw [if_pos rfl]
      refine (advance_meets_cons hnext hread).andThen ?_
      rintro token next ⟨hnext, -⟩
      exact ⟨_, hnext, Nat.le_add_right _ _, Nat.le_succ _, hread, by simp⟩
    · rw [if_neg hrole]
      exact ⟨_, hnext, Nat.le_refl _, Nat.le_refl _, hread, by simpa using hrole⟩

/-- No other quantifier follows a repetition. -/
theorem endRepetition_meets (hstands : Stands task ahead number names trees builder)
    (hread : task.read
      { state with level := level.push (.repeated tree bounds greedy stop) } ahead = expected)
    (hgreedy : greedy = true → ∀ lexeme ∈ ahead.lexemes.head?,
      lexeme.role ≠ .quantifier .optional) :
    (endRepetition task builder).Meets (expected = .error ·) fun _ next =>
      Stands task ahead number names trees next ∧
        ∀ lexeme ∈ ahead.lexemes.head?, lexeme.role.isQuantifier = false := by
  refine (peek_meets hstands hread).andThen ?_
  rintro token next ⟨hnext, -, hsees⟩
  cases hsees with
  | nothing start => exact ⟨hnext, by simp⟩
  | token start lexeme lexemes failure =>
    obtain ⟨role, text⟩ := lexeme
    dsimp only [Lexeme.token]
    cases hquantifier : role.isQuantifier with
    | false =>
      refine ⟨hnext, ?_⟩
      simpa using hquantifier
    | true =>
      cases role with
      | quantifier quantifier =>
        rw [read_repeated_quantifier (by simpa using hgreedy)] at hread
        exact hread.symm
      | _ => cases hquantifier

theorem boundsOf_of_ok {token : Token} (hspells : quantifier.Spells token.text) {bounds : Bounds}
    (hbounds : quantifier.bounds = .ok bounds) :
    boundsOf quantifier token task builder = .done bounds builder := by
  simp only [boundsOf, Quantifier.boundsIn?_of_spells hspells, hbounds, demand_some, bind_apply,
    pure_apply, Outcome.done_andThen]

/-- A quantifier without bounds is reported at the start of its token. -/
theorem boundsOf_of_error {token : Token} (hspells : quantifier.Spells token.text)
    {error : CountError} (hbounds : quantifier.bounds = .error error) :
    boundsOf quantifier token task builder =
      .failed (.structural ⟨error.cause token.text, token.span.start⟩) := by
  simp only [boundsOf, Quantifier.boundsIn?_of_spells hspells, hbounds, demand_some, bind_apply,
    pure_apply, Outcome.done_andThen]
  rfl

/-- A quantifier has the bounds that are read, unless the parser refuses it. -/
theorem boundsOf_meets {token : Token} (hspells : quantifier.Spells token.text)
    (hrefused : ∀ error, quantifier.bounds = .error error →
      expected = .error (.structural ⟨error.cause token.text, token.span.start⟩)) :
    (boundsOf quantifier token task builder).Meets (expected = .error ·) fun bounds next =>
      quantifier.bounds = .ok bounds ∧ next = builder := by
  cases hbounds : quantifier.bounds with
  | error error =>
    rw [boundsOf_of_error hspells hbounds]
    exact hrefused error hbounds
  | ok bounds =>
    rw [boundsOf_of_ok hspells hbounds]
    exact ⟨rfl, rfl⟩

/-- A repetition is put around its item up to the end of the token that was taken last. -/
theorem closeRepetition_meets
    (hstands : Stands task ahead number names (front ++ [tree]) builder)
    (hle : tree.span.start ≤ ahead.start) :
    (closeRepetition bounds greedy (Tree.sizes front + tree.size - 1) task builder).Meets
      (expected = .error ·) fun id next =>
        let item := Item.repeated tree bounds greedy ahead.start
        Stands task ahead number names (front ++ [item.tree]) next ∧
          id = Tree.sizes front + item.tree.size - 1 := by
  have hjoin := Draft.join?_ofForest_of_ne_group
    (by simp : ∀ opened, Label.repetition bounds greedy ≠ .group opened)
    ⟨tree.span.start, ahead.start⟩ front [tree]
  simp only [closeRepetition, bind_apply, get_apply, Outcome.done_andThen, hstands.draft,
    Draft.getElem?_ofForest, demand_some, pure_apply, hstands.lastStop, Tree.span_top,
    span_apply hle]
  refine (drafted_meets hstands hjoin).imp ?_
  rintro id next ⟨hnext, rfl⟩
  refine ⟨hnext, ?_⟩
  rw [Item.tree, Tree.size]
  rfl

/-- An item becomes a repetition when a quantifier follows, and then no other one follows. -/
theorem repetition_meets
    (hstands : Stands task ahead number names (front ++ [tree]) builder)
    (hread : task.read { state with level := level.push (.plain tree) } ahead = expected)
    (hstop : tree.span.stop = ahead.start) (hle : tree.span.start ≤ ahead.start) :
    (repetition (Tree.sizes front + tree.size - 1) task builder).Meets (expected = .error ·)
      fun id next => ∃ (item : Item) (ahead' : Prospect),
        Stands task ahead' number names (front ++ [item.tree]) next ∧
        id = Tree.sizes front + item.tree.size - 1 ∧
        item.tree.span = ⟨tree.span.start, ahead'.start⟩ ∧ ahead.start ≤ ahead'.start ∧
        ahead'.lexemes.length ≤ ahead.lexemes.length ∧
        task.read { state with level := level.push item } ahead' = expected ∧
        ∀ lexeme ∈ ahead'.lexemes.head?, lexeme.role.isQuantifier = false := by
  have hspan : tree.span = ⟨tree.span.start, ahead.start⟩ := by rw [← hstop]
  refine (peek_meets hstands hread).andThen ?_
  rintro token next ⟨hnext, -, hsees⟩
  cases hsees with
  | nothing start =>
    exact ⟨.plain tree, _, hnext, rfl, hspan, Nat.le_refl _, Nat.le_refl _, hread, by simp⟩
  | token start lexeme lexemes failure =>
    obtain ⟨role, text⟩ := lexeme
    dsimp only [Lexeme.token]
    cases role with
    | quantifier quantifier =>
      have hspells : quantifier.Spells text := hnext.spells _ List.mem_cons_self
      have hread' := read_plain_quantifier.symm.trans hread
      refine (boundsOf_meets hspells ?_).andThen ?_
      · intro error hbounds
        rw [hbounds] at hread'
        exact hread'.symm
      rintro bounds next ⟨hbounds, rfl⟩
      rw [hbounds] at hread'
      refine (advance_meets_cons hnext hread).andThen ?_
      rintro _ next ⟨hnext, -⟩
      refine (isGreedy_meets hnext hread').andThen ?_
      rintro greedy next ⟨ahead', hnext, hstart, hlength, hread, hgreedy⟩
      refine (endRepetition_meets hnext hread hgreedy).andThen ?_
      rintro _ next ⟨hnext, hlast⟩
      have hstart' : start ≤ ahead'.start := Nat.le_trans (Nat.le_add_right _ _) hstart
      refine (closeRepetition_meets hnext (Nat.le_trans hle hstart')).imp ?_
      rintro id next ⟨hnext, rfl⟩
      exact ⟨.repeated tree bounds greedy ahead'.start, ahead', hnext, rfl, rfl, hstart',
        Nat.le_trans hlength (Nat.le_succ _), hread, hlast⟩
    | _ =>
      refine ⟨.plain tree, _, hnext, rfl, hspan, Nat.le_refl _, Nat.le_refl _, hread, ?_⟩
      simp [TokenRole.isQuantifier]

end

end Build

end PatternTree
