import PatternTree.Pattern.Parse

namespace PatternTree

/-- What another dialect makes of tokens is the same, apart from those that a dialect refuses with
    an error of one family. -/
structure Dialect.RelaxedTo (family : ParseFamily) (dialect other : Dialect) : Prop where
  classSyntax : other.classSyntax = dialect.classSyntax
  /-- Tokens are taken in one by one, and each of them in the same way. -/
  step : ∀ state token, ParseState.step other state token = ParseState.step dialect state token ∨
    ∃ cause, ParseState.step dialect state token = .error cause ∧ cause.family = family

namespace Dialect

variable {dialect : Dialect}

/-- It is the opening of groups only in which dialects differ behind the lexer. -/
theorem RelaxedTo.of_openGroup {family : ParseFamily} {other : Dialect}
    (hclass : other.classSyntax = dialect.classSyntax)
    (hopen : ∀ opener span state,
      ParseState.openGroup other opener span state =
          ParseState.openGroup dialect opener span state ∨
        ∃ cause, ParseState.openGroup dialect opener span state = .error cause ∧
          cause.family = family) :
    dialect.RelaxedTo family other where
  classSyntax := hclass
  step state token := by
    simp only [ParseState.step]
    cases token.role with
    | opener opener => exact hopen opener token.span state
    | atom _ => exact .inl rfl
    | quantifier _ => exact .inl rfl
    | bar => exact .inl rfl
    | closer => exact .inl rfl

/-- A group that is not too deep is none either where more groups may be open. -/
theorem relaxedTo_maxDepth {depth : Nat} (hdepth : dialect.maxDepth ≤ depth) :
    dialect.RelaxedTo .maxDepthExceeded { dialect with maxDepth := depth } := by
  refine .of_openGroup rfl fun opener span state => ?_
  simp only [ParseState.openGroup]
  by_cases hfull : dialect.maxDepth ≤ state.openGroups.length
  · exact .inr ⟨.tooDeep dialect.maxDepth, if_pos hfull, rfl⟩
  · have hroom : ¬ depth ≤ state.openGroups.length := by omega
    rw [if_neg hfull, if_neg hroom]
    exact .inl rfl

/-- A group with a name of its own may also be opened where names may be shared. -/
theorem relaxedTo_allowDuplicateNames :
    dialect.RelaxedTo .duplicateGroupName { dialect with allowDuplicateNames := true } := by
  refine .of_openGroup rfl fun opener span state => ?_
  simp only [ParseState.openGroup]
  split
  · exact .inl rfl
  · split
    · exact .inl rfl
    next name _ =>
      have hfree : ¬ (name ∈ state.names && !true) = true := by simp
      rw [if_neg hfree]
      by_cases hshared : (name ∈ state.names && !dialect.allowDuplicateNames) = true
      · exact .inr ⟨.duplicateName name, if_pos hshared, rfl⟩
      · exact .inl (if_neg hshared).symm

end Dialect

namespace Dialect.RelaxedTo

variable {family : ParseFamily} {dialect other : Dialect}
  (hrelaxed : dialect.RelaxedTo family other)

include hrelaxed

/-- Both dialects take in tokens with one result, unless the first one stops with an error of the
    family. -/
theorem run (state : ParseState) (tokens : List Token) :
    state.run other tokens = state.run dialect tokens ∨
      ∃ error, state.run dialect tokens = .error error ∧ error.cause.family = family := by
  induction tokens generalizing state with
  | nil => exact .inl rfl
  | cons token tokens ih =>
    simp only [ParseState.run]
    obtain hsame | ⟨cause, hcause, hfamily⟩ := hrelaxed.step state token
    · rw [hsame]
      cases state.step dialect token with
      | error cause => exact .inl rfl
      | ok next => exact ih next
    · rw [hcause]
      exact .inr ⟨_, rfl, hfamily⟩

theorem ofText (chars : List Char) :
    Tree.ofText other chars = Tree.ofText dialect chars ∨
      ∃ error, Tree.ofText dialect chars = .error (.structural error) ∧
        error.cause.family = family := by
  have hrun := hrelaxed.run {} (Scan.ofText dialect.classSyntax 0 chars).tokens
  simp only [Tree.ofText, Tree.ofTokens, hrelaxed.classSyntax]
  obtain hsame | ⟨error, herror, hfamily⟩ := hrun
  · rw [hsame]
    exact .inl rfl
  · rw [herror]
    refine .inr ⟨error, ?_, hfamily⟩
    split <;> rfl

/-- What the first dialect reads without an error of the family is read in the same way in the
    other one. -/
theorem parse_eq {source : String}
    (hother : ∀ error, parse dialect source = .error (.structural error) →
      error.cause.family ≠ family) :
    parse other source = parse dialect source := by
  obtain hsame | ⟨error, herror, hfamily⟩ := hrelaxed.ofText source.toList
  · rw [parse, parse, hsame]
  · have hparse : parse dialect source = .error (.structural error) := by
      rw [parse, herror]
      rfl
    exact absurd hfamily (hother error hparse)

end Dialect.RelaxedTo

end PatternTree
