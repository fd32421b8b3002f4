import PatternTree.Proofs.Lexeme
import PatternTree.Proofs.Token.Truncation

namespace PatternTree

/-- A piece at the front of two texts lies in the first one when the second one starts with no
    character of it. -/
theorem Text.prefix_of_prefix_append {piece front back : List Char}
    (hpiece : piece <+: front ++ back) (hback : ∀ next ∈ back.head?, next ∉ piece) :
    piece <+: front := by
  obtain ⟨others, htext⟩ := hpiece
  obtain ⟨middle, rfl, -⟩ | ⟨middle, rfl, hmiddle⟩ := List.append_eq_append_iff.mp htext
  · exact List.prefix_append piece middle
  · cases middle with
    | nil => simp
    | cons first middle => exact absurd (by simp) (hback first (by simp [hmiddle]))

namespace Scan

/-- Whether a character is no part of anything that the lexer looks for behind a token: a closing
    parenthesis or a bar, which end a branch, and the first characters of an escape and of a bracket
    expression. -/
def EndsLookahead (char : Char) : Prop :=
  char = ')' ∨ char = '|' ∨ char = '\\' ∨ char = '['

instance (char : Char) : Decidable (EndsLookahead char) :=
  inferInstanceAs (Decidable (char = ')' ∨ char = '|' ∨ char = '\\' ∨ char = '['))

/-- Nothing of the kind stands between braces with counts. -/
theorem not_endsLookahead_of_mem_inside {counts : Counts} (hwritten : counts.IsWritten) :
    ∀ char ∈ counts.inside, ¬ EndsLookahead char := by
  have hdigits : ∀ {digits : List Char}, Counts.IsNumeral digits →
      ∀ char ∈ digits, ¬ EndsLookahead char := by
    rintro digits hnumeral char hchar (rfl | rfl | rfl | rfl)
    all_goals exact absurd (hnumeral.2 _ hchar) (by decide)
  have hcomma : ¬ EndsLookahead ',' := by decide
  cases counts with
  | exactly count => exact hdigits hwritten
  | atLeast lower =>
    simp only [Counts.inside, List.forall_mem_append, List.forall_mem_singleton]
    exact ⟨hdigits hwritten, hcomma⟩
  | between lower upper =>
    simp only [Counts.inside, List.forall_mem_append, List.forall_mem_cons]
    exact ⟨hdigits hwritten.1, hcomma, hdigits hwritten.2⟩

/-- Such a character completes no counts. -/
theorem readCounts?_before_end {front back back' : List Char}
    (hread : readCounts? (front ++ back) = none)
    (hback' : ∀ next ∈ back'.head?, EndsLookahead next) :
    readCounts? (front ++ back') = none := by
  rw [readCounts?_eq_none_iff] at hread ⊢
  intro counts hwritten hpiece
  refine hread counts hwritten ((Text.prefix_of_prefix_append hpiece ?_).trans
    (List.prefix_append front back))
  intro next hnext hmem
  obtain hmem | hmem := List.mem_append.mp hmem
  · exact not_endsLookahead_of_mem_inside hwritten next hmem (hback' next hnext)
  · obtain rfl := List.mem_singleton.mp hmem
    exact absurd (hback' _ hnext) (by decide)

/-- A parenthesis is an opener of its own where none of the longer forms follows it. -/
theorem readOpener_eq_capturing_iff {chars : List Char} :
    readOpener chars = .ok (.capturing, chars) ↔
      ¬ ['?', ':'] <+: chars ∧ ¬ ['?', 'P', '<'] <+: chars ∧ ¬ ['?', '\''] <+: chars ∧
        (['?', '<'] <+: chars → ['?', '<', '='] <+: chars ∨ ['?', '<', '!'] <+: chars) := by
  have hname : ∀ closer rest chars,
      (Escape.readName closer rest).convert Opener.named ≠ .ok (.capturing, chars) := by
    intro closer rest chars hread
    obtain ⟨name, -, hcapturing⟩ := Reading.convert_eq_ok_iff.mp hread
    cases hcapturing
  unfold readOpener
  split
  · simp
  · simp [hname]
  · simp [hname]
  next rest =>
    cases rest with
    | nil => simp [hname]
    | cons next rest =>
      split
      next hnext =>
        have hnext' : next = '=' ∨ next = '!' := by simpa using hnext
        obtain rfl | rfl := hnext' <;> simp
      next hnext =>
        have hnext' : next ≠ '=' ∧ next ≠ '!' := by simpa using hnext
        simp [hname, hnext'.1.symm, hnext'.2.symm]
  next hplain hletter hquote hangle =>
    refine iff_of_true rfl ⟨?_, ?_, ?_, ?_⟩
    · rintro ⟨rest, rfl⟩
      exact hplain rest rfl
    · rintro ⟨rest, rfl⟩
      exact hletter rest rfl
    · rintro ⟨rest, rfl⟩
      exact hquote rest rfl
    · rintro ⟨rest, rfl⟩
      exact absurd rfl (hangle rest)

/-- Such a character makes no longer form of an opener. -/
theorem readOpener_before_end {front back back' : List Char}
    (hread : readOpener (front ++ back) = .ok (.capturing, front ++ back))
    (hback : ∀ next ∈ back.head?, next ≠ '=' ∧ next ≠ '!')
    (hback' : ∀ next ∈ back'.head?, EndsLookahead next) :
    readOpener (front ++ back') = .ok (.capturing, front ++ back') := by
  have hcut : ∀ {piece}, (∀ char ∈ piece, ¬ EndsLookahead char) → piece <+: front ++ back' →
      piece <+: front :=
    fun hpiece hprefix => Text.prefix_of_prefix_append hprefix
      fun next hnext hmem => hpiece next hmem (hback' next hnext)
  have hkeep : ∀ {piece} (text : List Char), piece <+: front → piece <+: front ++ text :=
    fun text hpiece => hpiece.trans (List.prefix_append front text)
  rw [readOpener_eq_capturing_iff] at hread ⊢
  obtain ⟨hplain, hletter, hquote, hangle⟩ := hread
  refine ⟨fun hform => hplain (hkeep back (hcut (by simp [EndsLookahead]) hform)),
    fun hform => hletter (hkeep back (hcut (by simp [EndsLookahead]) hform)),
    fun hform => hquote (hkeep back (hcut (by simp [EndsLookahead]) hform)), fun hform => ?_⟩
  obtain ⟨after, rfl⟩ := hcut (by simp [EndsLookahead]) hform
  have hafter := hangle (hkeep back (List.prefix_append _ after))
  cases after with
  | nil =>
    cases back with
    | nil => simp at hafter
    | cons next back =>
      obtain ⟨hequal, hexclaim⟩ := hback next rfl
      simp [hequal.symm, hexclaim.symm] at hafter
  | cons next after => simpa using hafter

/-- A token is read in the same way when such a character or nothing stands in the place of what
    follows later, unless that made a parenthesis an opener of its own. -/
theorem readToken_before_end {classSyntax : ClassSyntax} {char : Char}
    {body front back back' : List Char} {role : TokenRole}
    (hread : readToken classSyntax char (body ++ (front ++ back)) = .ok (role, front ++ back))
    (hback : ∀ next ∈ back.head?, next ≠ '=' ∧ next ≠ '!')
    (hback' : ∀ next ∈ back'.head?, EndsLookahead next) :
    readToken classSyntax char (body ++ (front ++ back')) = .ok (role, front ++ back') := by
  refine readToken_of_rest hread ?_ (readCounts?_before_end · hback')
    fun _ hopener => readOpener_before_end hopener hback hback'
  intro next hnext hdigit
  cases front with
  | nil =>
    obtain rfl | rfl | rfl | rfl := hback' next hnext
    all_goals exact absurd hdigit (by decide)
  | cons first front => exact hnext

end Scan

/-- Lexemes are read in the same way when what ends every look-ahead or nothing stands behind
    them. -/
theorem Lexeme.Reads.before_end {classSyntax : ClassSyntax} {rest rest' : List Char}
    {lexemes : List Lexeme} (hreads : Reads classSyntax rest lexemes)
    (hrest : ∀ next ∈ rest.head?, next ≠ '=' ∧ next ≠ '!')
    (hrest' : ∀ next ∈ rest'.head?, Scan.EndsLookahead next) : Reads classSyntax rest' lexemes := by
  induction hreads with
  | nil => exact .nil
  | cons hread _ ih => exact .cons (Scan.readToken_before_end hread hrest hrest') ih

end PatternTree
