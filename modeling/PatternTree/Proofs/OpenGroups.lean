import PatternTree.Proofs.Grammar.Run

namespace PatternTree

namespace TokenRole

/-- How many groups are open behind a token when a number of groups are open before it. A
    parenthesis that closes no group leaves none open. -/
def depthAfter (depth : Nat) : TokenRole → Nat
  | opener _ => depth + 1
  | closer => depth - 1
  | _ => depth

/-- How many groups are open behind tokens. -/
def depth (roles : List TokenRole) : Nat :=
  roles.foldl depthAfter 0

end TokenRole

namespace ParseState

variable {dialect : Dialect} {state next : ParseState} {token : Token} {tokens : List Token}

/-- A group opens inside those that are open, and only where there is room for it. -/
theorem openGroups_of_openGroup {opener : Opener} {span : Span}
    (hopen : state.openGroup dialect opener span = .ok next) :
    state.openGroups.length < dialect.maxDepth ∧
      ∃ group : OpenGroup, group.span = span ∧ next.openGroups = group :: state.openGroups := by
  simp only [openGroup] at hopen
  split at hopen
  · cases hopen
  next hroom =>
    refine ⟨Nat.lt_of_not_le hroom, ?_⟩
    split at hopen
    · cases hopen
      exact ⟨_, rfl, rfl⟩
    · split at hopen
      · cases hopen
      · cases hopen
        exact ⟨_, rfl, rfl⟩

theorem openGroups_of_closeGroup (hclose : state.closeGroup token = .ok next) :
    ∃ innermost, state.openGroups = innermost :: next.openGroups := by
  unfold closeGroup at hclose
  split at hclose
  · cases hclose
  next innermost others hopen =>
    cases hclose
    exact ⟨innermost, hopen⟩

/-- A token opens one more group where there is room for it, closes the innermost one, or leaves
    the open groups as they are. -/
theorem openGroups_of_step (hstep : state.step dialect token = .ok next) :
    (∃ opener group, token.role = .opener opener ∧ group.span = token.span ∧
      state.openGroups.length < dialect.maxDepth ∧
      next.openGroups = group :: state.openGroups) ∨
    (∃ innermost, token.role = .closer ∧ state.openGroups = innermost :: next.openGroups) ∨
    (token.role.isOpener = false ∧ token.role.isCloser = false ∧
      next.openGroups = state.openGroups) := by
  cases hrole : token.role with
  | atom atom =>
    simp only [step, hrole] at hstep
    cases hstep
    exact .inr (.inr ⟨rfl, rfl, rfl⟩)
  | quantifier quantifier =>
    simp only [step, hrole] at hstep
    cases hlevel : state.level.quantify quantifier token with
    | error cause =>
      rw [hlevel] at hstep
      cases hstep
    | ok level =>
      rw [hlevel] at hstep
      cases hstep
      exact .inr (.inr ⟨rfl, rfl, rfl⟩)
  | bar =>
    simp only [step, hrole] at hstep
    cases hstep
    exact .inr (.inr ⟨rfl, rfl, rfl⟩)
  | opener opener =>
    simp only [step, hrole] at hstep
    obtain ⟨hroom, group, hspan, hopen⟩ := openGroups_of_openGroup hstep
    exact .inl ⟨opener, group, rfl, hspan, hroom, hopen⟩
  | closer =>
    simp only [step, hrole] at hstep
    obtain ⟨innermost, hopen⟩ := openGroups_of_closeGroup hstep
    exact .inr (.inl ⟨innermost, rfl, hopen⟩)

theorem length_openGroups_of_step (hstep : state.step dialect token = .ok next) :
    next.openGroups.length = token.role.depthAfter state.openGroups.length := by
  obtain ⟨opener, group, hrole, -, -, hopen⟩ | ⟨innermost, hrole, hopen⟩ |
    ⟨hopener, hcloser, hopen⟩ := openGroups_of_step hstep
  · rw [hopen, hrole]
    rfl
  · rw [hopen, hrole]
    rfl
  · rw [hopen]
    cases hrole : token.role <;>
      simp_all [TokenRole.isOpener, TokenRole.isCloser, TokenRole.depthAfter]

/-- A run goes on from what its first token leads to. -/
theorem run_cons_eq_ok_iff :
    state.run dialect (token :: tokens) = .ok next ↔
      ∃ middle, state.step dialect token = .ok middle ∧ middle.run dialect tokens = .ok next := by
  rw [run]
  cases hstep : state.step dialect token with
  | error cause => simp
  | ok middle => simp

/-- A run has as many groups open as the tokens leave open. -/
theorem length_openGroups_of_run (hrun : state.run dialect tokens = .ok next) :
    next.openGroups.length =
      (tokens.map Token.role).foldl TokenRole.depthAfter state.openGroups.length := by
  induction tokens generalizing state with
  | nil =>
    cases hrun
    rfl
  | cons token tokens ih =>
    obtain ⟨middle, hstep, hrun⟩ := run_cons_eq_ok_iff.mp hrun
    rw [ih hrun, length_openGroups_of_step hstep]
    rfl

/-- A group that is open behind a run was open before it, or a token of the run opens it. -/
theorem mem_openGroups_of_run (hrun : state.run dialect tokens = .ok next) {group : OpenGroup}
    (hgroup : group ∈ next.openGroups) :
    group ∈ state.openGroups ∨ ∃ token ∈ tokens, group.span = token.span := by
  induction tokens generalizing state with
  | nil =>
    cases hrun
    exact .inl hgroup
  | cons token tokens ih =>
    obtain ⟨middle, hstep, hrun⟩ := run_cons_eq_ok_iff.mp hrun
    obtain hmiddle | ⟨later, hlater, hspan⟩ := ih hrun
    · obtain ⟨_, opened, -, hspan, -, hopen⟩ | ⟨innermost, -, hopen⟩ | ⟨-, -, hopen⟩ :=
        openGroups_of_step hstep
      · rw [hopen] at hmiddle
        obtain rfl | hmiddle := List.mem_cons.mp hmiddle
        · exact .inr ⟨token, List.mem_cons_self, hspan⟩
        · exact .inl hmiddle
      · exact .inl (hopen ▸ List.mem_cons_of_mem _ hmiddle)
      · exact .inl (hopen ▸ hmiddle)
    · exact .inr ⟨later, List.mem_cons_of_mem _ hlater, hspan⟩

/-- A run that fails has taken in all tokens before the one that it fails at. -/
theorem exists_of_run_eq_error {error : ParseError}
    (hrun : state.run dialect tokens = .error error) :
    ∃ front token back middle cause, tokens = front ++ token :: back ∧
      state.run dialect front = .ok middle ∧ middle.step dialect token = .error cause ∧
      error = ⟨cause, token.span.start⟩ := by
  induction tokens generalizing state with
  | nil => cases hrun
  | cons token tokens ih =>
    rw [run] at hrun
    cases hstep : state.step dialect token with
    | error cause =>
      rw [hstep] at hrun
      cases hrun
      exact ⟨[], token, tokens, state, cause, rfl, rfl, hstep, rfl⟩
    | ok middle =>
      rw [hstep] at hrun
      obtain ⟨front, failing, back, last, cause, rfl, hfront, hcause, rfl⟩ := ih hrun
      exact ⟨token :: front, failing, back, last, cause, rfl,
        run_cons_eq_ok_iff.mpr ⟨middle, hstep, hfront⟩, hcause, rfl⟩

/-- A run over tokens that fails also fails with more tokens behind them. -/
theorem run_append_of_error {error : ParseError} {front : List Token}
    (hfront : state.run dialect front = .error error) (back : List Token) :
    state.run dialect (front ++ back) = .error error := by
  obtain ⟨taken, token, others, middle, cause, rfl, htaken, hcause, rfl⟩ :=
    exists_of_run_eq_error hfront
  rw [List.append_assoc, run_append htaken, List.cons_append, run, hcause]

theorem run_concat_eq_ok_iff :
    state.run dialect (tokens ++ [token]) = .ok next ↔
      ∃ middle, state.run dialect tokens = .ok middle ∧ middle.step dialect token = .ok next := by
  cases hrun : state.run dialect tokens with
  | error error => simp [run_append_of_error hrun]
  | ok middle =>
    rw [run_append hrun, run_cons_eq_ok_iff]
    simp [run, eq_comm]

/-- The innermost group that is open behind a run has been opened by a token behind which all tokens
    are nested, and around it the groups are open that were open before. -/
theorem exists_opener_of_run (hrun : ({} : ParseState).run dialect tokens = .ok next)
    {innermost : OpenGroup} {others : List OpenGroup}
    (hopen : next.openGroups = innermost :: others) :
    ∃ front opener back before, tokens = front ++ opener :: back ∧
      ({} : ParseState).run dialect front = .ok before ∧ before.openGroups = others ∧
      opener.role.isOpener ∧ opener.span = innermost.span ∧
      ∃ depth, TokenRole.Nested depth (back.map Token.role) := by
  induction hlength : tokens.length using Nat.strongRecOn
    generalizing tokens next innermost others with
  | ind length ih =>
    subst hlength
    obtain rfl | ⟨earlier, last, hconcat⟩ := tokens.eq_nil_or_concat
    · cases hrun
      cases hopen
    rw [List.concat_eq_append] at hconcat
    subst hconcat
    obtain ⟨middle, hmiddle, hstep⟩ := run_concat_eq_ok_iff.mp hrun
    have hshorter : earlier.length < (earlier ++ [last]).length := by simp
    obtain ⟨opener, group, hrole, hspan, -, hgroups⟩ | ⟨closed, hrole, hgroups⟩ |
      ⟨hopener, hcloser, hgroups⟩ := openGroups_of_step hstep
    · rw [hopen] at hgroups
      cases hgroups
      refine ⟨earlier, last, [], middle, rfl, hmiddle, rfl, by rw [hrole]; rfl, hspan.symm, 0, ?_⟩
      exact .of_plain nofun
    · -- The group that is closed was the innermost one, and then came the one looked for.
      obtain ⟨front, opener, back, before, rfl, hbefore, hothers, hopener, -, depth, hnested⟩ :=
        ih _ hshorter hmiddle hgroups rfl
      obtain ⟨front', opener', back', before', rfl, hbefore', hothers', hopener', hspan',
        depth', hnested'⟩ := ih front.length (by simp) hbefore (hothers.trans hopen) rfl
      obtain ⟨kind, hkind⟩ : ∃ kind, opener.role = .opener kind := by
        cases hrole' : opener.role <;> simp_all [TokenRole.isOpener]
      refine ⟨front', opener', back' ++ opener :: (back ++ [last]), before', by simp, hbefore',
        hothers', hopener', hspan', max depth' (depth + 1), ?_⟩
      simpa [hkind, hrole] using hnested'.append (hnested.group kind)
    · obtain ⟨front, opener, back, before, rfl, hbefore, hothers, hopener', hspan, depth,
        hnested⟩ := ih _ hshorter hmiddle (hgroups ▸ hopen) rfl
      refine ⟨front, opener, back ++ [last], before, by simp, hbefore, hothers, hopener', hspan,
        max depth 0, ?_⟩
      rw [List.map_append]
      exact hnested.append (.of_plain (by simp [hopener, hcloser]))

/-- It is a quantifier or a parenthesis that does not fit, and only of a closing one is it said that
    it has no group. -/
theorem role_of_step_eq_error {cause : ParseCause}
    (hstep : state.step dialect token = .error cause) :
    (∀ atom, token.role ≠ .atom atom) ∧
      (cause.family = .unbalancedGroup → token.role = .closer) := by
  unfold step at hstep
  split at hstep
  · cases hstep
  next quantifier hrole =>
    refine ⟨by simp [hrole], fun hfamily => ?_⟩
    unfold Level.quantify at hstep
    split at hstep
    · cases hstep
      cases hfamily
    next item items hitems =>
      cases hitem : item.quantify quantifier token with
      | ok item => simp [hitem, Except.map] at hstep
      | error cause' =>
        rw [hitem] at hstep
        cases hstep
        unfold Item.quantify at hitem
        split at hitem
        · split at hitem <;> cases hitem <;> cases hfamily
        · split at hitem <;> cases hitem
          cases hfamily
        · cases hitem
          cases hfamily
  · cases hstep
  next opener hrole =>
    refine ⟨by simp [hrole], fun hfamily => ?_⟩
    simp only [openGroup] at hstep
    split at hstep
    · cases hstep
      cases hfamily
    · split at hstep
      · cases hstep
      · split at hstep <;> cases hstep
        cases hfamily
  next hrole => exact ⟨by simp [hrole], fun _ => hrole⟩

end ParseState

end PatternTree
