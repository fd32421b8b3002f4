import PatternTree.Proofs.Token.Readers

namespace PatternTree

/-- A fault is reported at a character of a text. -/
def Fault.LiesIn (chars : List Char) (fault : Fault) : Prop :=
  fault.place ≠ [] ∧ fault.place <:+ chars

namespace Fault.LiesIn

variable {fault : Fault} {chars rest : List Char}

theorem of_suffix (hfault : fault.LiesIn rest) (hrest : rest <:+ chars) : fault.LiesIn chars :=
  ⟨hfault.1, hfault.2.trans hrest⟩

theorem of_placed {α : Type} {reading : Reading LexCause α} {char : Char}
    (hread : reading.placed (char :: chars) = .error fault) : fault.LiesIn (char :: chars) := by
  cases reading <;> cases hread
  exact ⟨List.cons_ne_nil _ _, List.suffix_refl _⟩

end Fault.LiesIn

theorem Reading.of_convert_eq_error {ε α β : Type} {reading : Reading ε α} {change : α → β}
    {failure : ε} (hread : reading.convert change = .error failure) : reading = .error failure := by
  cases reading <;> cases hread
  rfl

theorem Reading.exists_of_placed_eq_error {α : Type} {reading : Reading LexCause α}
    {place : List Char} {fault : Fault} (hread : reading.placed place = .error fault) :
    ∃ cause, reading = .error cause ∧ fault = ⟨cause, place⟩ := by
  cases reading <;> cases hread
  exact ⟨_, rfl, rfl⟩

namespace Bracket

variable {classSyntax : ClassSyntax} {char : Char} {chars : List Char} {fault : Fault}

/-- A faulty member is reported where it or the end of its range starts. -/
theorem liesIn_of_readMember_eq_error (hread : readMember classSyntax char chars = .error fault) :
    fault.LiesIn (char :: chars) := by
  have hitem := readItem_leavesEnd classSyntax char chars
  simp only [readMember] at hread
  split at hread
  next hplaced =>
    cases hread
    exact .of_placed hplaced
  · cases hread
  next low rest hplaced =>
    have hrest := hitem _ _ (Reading.placed_eq_ok_iff.mp hplaced)
    split at hread
    next next after =>
      split at hread
      · cases hread
      · split at hread
        next hplaced' =>
          cases hread
          exact (Fault.LiesIn.of_placed hplaced').of_suffix
            (((List.suffix_cons _ _).trans hrest).trans (List.suffix_cons _ _))
        · cases hread
          exact ⟨List.cons_ne_nil _ _, List.suffix_refl _⟩
        · split at hread
          · cases hread
            exact ⟨List.cons_ne_nil _ _, List.suffix_refl _⟩
          · cases hread
    · cases hread

/-- A faulty bracket expression is reported at its bracket or inside. -/
theorem liesIn_of_readMembers_eq_error {bracket : List Char}
    (hread : readMembers classSyntax bracket chars = .error fault) :
    fault.place = bracket ∨ fault.LiesIn chars := by
  fun_induction readMembers classSyntax bracket chars with
  | case1 =>
    cases hread
    exact .inl rfl
  | case2 char chars fault' hmember =>
    cases hread
    exact .inr (liesIn_of_readMember_eq_error hmember)
  | case3 => cases hread
  | case4 char chars ranges rest hmember _ ih =>
    have hrest := readMember_leavesEnd classSyntax char chars _ _ hmember
    obtain hplace | hfault := ih (Reading.of_convert_eq_error hread)
    · exact .inl hplace
    · exact .inr ((hfault.of_suffix hrest).of_suffix (List.suffix_cons _ _))

theorem liesIn_of_read_eq_error (hread : read classSyntax (char :: chars) chars = .error fault) :
    fault.LiesIn (char :: chars) := by
  have hmembers : ∀ rest, rest <:+ chars →
      readMembers classSyntax (char :: chars) rest = .error fault →
        fault.LiesIn (char :: chars) := by
    intro rest hrest hread
    obtain hplace | hfault := liesIn_of_readMembers_eq_error hread
    · exact ⟨hplace ▸ List.cons_ne_nil _ _, hplace ▸ List.suffix_refl _⟩
    · exact (hfault.of_suffix hrest).of_suffix (List.suffix_cons _ _)
  unfold read at hread
  split at hread
  · exact hmembers _ (List.suffix_cons _ _) (Reading.of_convert_eq_error hread)
  · exact hmembers _ (List.suffix_refl _) (Reading.of_convert_eq_error hread)

end Bracket

namespace Scan

variable {classSyntax : ClassSyntax} {char : Char} {chars : List Char} {fault : Fault}

/-- A fault lies at the start of what should be a token, or inside when that is a bracket
    expression. -/
theorem liesIn_of_readToken_eq_error (hread : readToken classSyntax char chars = .error fault) :
    fault.LiesIn (char :: chars) := by
  unfold readToken at hread
  split at hread
  · cases hread
  · split at hread
    · exact .of_placed (Reading.of_convert_eq_error hread)
    · exact Bracket.liesIn_of_read_eq_error (Reading.of_convert_eq_error hread)
    · exact .of_placed (Reading.of_convert_eq_error hread)
    · split at hread <;> cases hread
    · cases hread

/-- Only parentheses, brackets and backslashes start what may be no token. -/
theorem first_of_readToken_eq_error (hread : readToken classSyntax char chars = .error fault) :
    char = '(' ∨ char = '[' ∨ char = '\\' := by
  unfold readToken at hread
  split at hread
  · cases hread
  · split at hread
    · exact .inl rfl
    · exact .inr (.inl rfl)
    · exact .inr (.inr rfl)
    · split at hread <;> cases hread
    · cases hread

end Scan

end PatternTree
