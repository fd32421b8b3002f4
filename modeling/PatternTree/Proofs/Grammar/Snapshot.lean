import PatternTree.Proofs.Grammar.Limits
import PatternTree.Proofs.Grammar.Placed

namespace PatternTree

open TokenRole (Nested isOpener isCloser groupName? openers closers groupNames)

namespace Phrase

theorem nested_suffixLexemes (suffix : Option Suffix) :
    Nested 0 ((suffixLexemes suffix).map Lexeme.role) := by
  apply Nested.of_plain
  cases suffix with
  | none => simp [suffixLexemes]
  | some suffix =>
    cases hlazy : suffix.isLazy <;> simp [suffixLexemes, hlazy, lazyMark, isOpener, isCloser]

mutual

/-- An item closes the groups it opens. -/
theorem exists_nested_lexemes (phrase : Phrase) :
    ∃ depth, Nested depth (phrase.lexemes.map Lexeme.role) := by
  cases phrase with
  | leaf atom text suffix =>
    have hatom : Nested 0 [.atom atom] := .of_plain (by simp [isOpener, isCloser])
    exact ⟨_, hatom.append (nested_suffixLexemes suffix)⟩
  | group opener text earlier last suffix =>
    obtain ⟨_, hearlier⟩ := exists_nested_earlierLexemes earlier
    obtain ⟨_, hlast⟩ := exists_nested_sequenceLexemes last
    have hgroup := ((hearlier.append hlast).group opener).append (nested_suffixLexemes suffix)
    exact ⟨_, by simpa [lexemes, closer] using hgroup⟩

theorem exists_nested_sequenceLexemes (phrases : List Phrase) :
    ∃ depth, Nested depth ((sequenceLexemes phrases).map Lexeme.role) := by
  cases phrases with
  | nil => exact ⟨0, .of_plain (by simp [sequenceLexemes])⟩
  | cons phrase phrases =>
    obtain ⟨_, hphrase⟩ := exists_nested_lexemes phrase
    obtain ⟨_, hphrases⟩ := exists_nested_sequenceLexemes phrases
    exact ⟨_, by simpa [sequenceLexemes] using hphrase.append hphrases⟩

theorem exists_nested_earlierLexemes (branches : List (List Phrase)) :
    ∃ depth, Nested depth ((earlierLexemes branches).map Lexeme.role) := by
  cases branches with
  | nil => exact ⟨0, .of_plain (by simp [earlierLexemes])⟩
  | cons branch branches =>
    have hbar : Nested 0 [.bar] := .of_plain (by simp [isOpener, isCloser])
    obtain ⟨_, hbranch⟩ := exists_nested_sequenceLexemes branch
    obtain ⟨_, hbranches⟩ := exists_nested_earlierLexemes branches
    exact ⟨_, by simpa [earlierLexemes, bar] using hbranch.append (hbar.append hbranches)⟩

end

end Phrase

namespace Choice

/-- A choice closes the groups it opens. -/
theorem exists_nested_lexemes (choice : Choice) :
    ∃ depth, Nested depth (choice.lexemes.map Lexeme.role) := by
  obtain ⟨_, hearlier⟩ := Phrase.exists_nested_earlierLexemes choice.earlier
  obtain ⟨_, hlast⟩ := Phrase.exists_nested_sequenceLexemes choice.last
  exact ⟨_, by simpa [lexemes] using hearlier.append hlast⟩

/-- Adds an item to the last branch. -/
def push (phrase : Phrase) (choice : Choice) : Choice :=
  { choice with last := choice.last ++ [phrase] }

/-- Ends the last branch and starts another one. -/
def nextBranch (choice : Choice) : Choice :=
  ⟨choice.earlier ++ [choice.last], []⟩

@[simp] theorem lexemes_push (choice : Choice) (phrase : Phrase) :
    (choice.push phrase).lexemes = choice.lexemes ++ phrase.lexemes := by
  simp [push, lexemes]

@[simp] theorem lexemes_nextBranch (choice : Choice) :
    choice.nextBranch.lexemes = choice.lexemes ++ [Phrase.bar] := by
  simp [nextBranch, lexemes, Phrase.earlierLexemes, Phrase.sequenceLexemes]

theorem level_push (offset numbered : Nat) (choice : Choice) (phrase : Phrase) :
    (choice.push phrase).level offset numbered = (choice.level offset numbered).push
      (phrase.item (offset + Lexeme.size choice.lexemes)
        (numbered + Lexeme.numbered choice.lexemes)) := by
  simp [push, level, Level.push, Phrase.items_append, Phrase.items, lexemes, lastStart,
    lastNumbered, Nat.add_assoc]

theorem level_nextBranch (offset numbered : Nat) (choice : Choice) :
    choice.nextBranch.level offset numbered =
      (choice.level offset numbered).nextBranch (offset + Lexeme.size choice.lexemes) := by
  simp [nextBranch, level, Level.nextBranch, Level.branch, Phrase.earlierTrees_append,
    Phrase.earlierTrees, Phrase.items, lexemes, lastStart, lastNumbered, Nat.add_assoc]

end Choice

/-- What has been read of a pattern: the choice outside of all groups, or the one inside the
    innermost open group together with what stands before that group. -/
inductive Snapshot where
  | outermost (choice : Choice)
  | inside (outer : Snapshot) (opener : Opener) (text : List Char) (choice : Choice)

namespace Snapshot

/-- The choice that the next tokens belong to. -/
def choice : Snapshot → Choice
  | outermost choice => choice
  | inside _ _ _ choice => choice

/-- The lexemes that have been read. -/
def lexemes : Snapshot → List Lexeme
  | outermost choice => choice.lexemes
  | inside outer opener text choice => outer.lexemes ++ ⟨.opener opener, text⟩ :: choice.lexemes

/-- The roles of the tokens that have been read. -/
def roles (snapshot : Snapshot) : List TokenRole :=
  snapshot.lexemes.map Lexeme.role

/-- Where the innermost choice starts. -/
def start : Snapshot → Nat
  | outermost _ => 0
  | inside outer _ text _ => Lexeme.size outer.lexemes + Text.utf8Size text

/-- How many groups got their numbers before the innermost choice. -/
def before : Snapshot → Nat
  | outermost _ => 0
  | inside outer opener text _ =>
    Lexeme.numbered outer.lexemes + Lexeme.numbered [⟨.opener opener, text⟩]

/-- What the parser keeps of the innermost choice. -/
def level (snapshot : Snapshot) : Level :=
  snapshot.choice.level snapshot.start snapshot.before

/-- What the parser keeps of the open groups. -/
def openGroups : Snapshot → List OpenGroup
  | outermost _ => []
  | inside outer opener text _ =>
    ⟨opener.group (Lexeme.numbered outer.lexemes + 1),
      ⟨Lexeme.size outer.lexemes, Lexeme.size outer.lexemes + Text.utf8Size text⟩, outer.level⟩ ::
      outer.openGroups

/-- The state in which the parser is after what has been read. -/
def state (snapshot : Snapshot) : ParseState where
  level := snapshot.level
  openGroups := snapshot.openGroups
  numbered := Lexeme.numbered snapshot.lexemes
  names := (groupNames snapshot.roles).reverse

/-- Changes the innermost choice. -/
def modify (change : Choice → Choice) : Snapshot → Snapshot
  | outermost choice => outermost (change choice)
  | inside outer opener text choice => inside outer opener text (change choice)

/-- Adds an item to the innermost choice. -/
def push (phrase : Phrase) (snapshot : Snapshot) : Snapshot :=
  snapshot.modify (Choice.push phrase)

/-- Starts another branch of the innermost choice. -/
def nextBranch (snapshot : Snapshot) : Snapshot :=
  snapshot.modify Choice.nextBranch

@[simp] theorem choice_modify (change : Choice → Choice) (snapshot : Snapshot) :
    (snapshot.modify change).choice = change snapshot.choice := by
  cases snapshot <;> rfl

@[simp] theorem start_modify (change : Choice → Choice) (snapshot : Snapshot) :
    (snapshot.modify change).start = snapshot.start := by
  cases snapshot <;> rfl

@[simp] theorem before_modify (change : Choice → Choice) (snapshot : Snapshot) :
    (snapshot.modify change).before = snapshot.before := by
  cases snapshot <;> rfl

@[simp] theorem openGroups_modify (change : Choice → Choice) (snapshot : Snapshot) :
    (snapshot.modify change).openGroups = snapshot.openGroups := by
  cases snapshot <;> rfl

@[simp] theorem openGroups_push (snapshot : Snapshot) (phrase : Phrase) :
    (snapshot.push phrase).openGroups = snapshot.openGroups :=
  openGroups_modify _ _

@[simp] theorem openGroups_nextBranch (snapshot : Snapshot) :
    snapshot.nextBranch.openGroups = snapshot.openGroups :=
  openGroups_modify _ _

theorem lexemes_modify {change : Choice → Choice} {added : List Lexeme} {snapshot : Snapshot}
    (hchange : (change snapshot.choice).lexemes = snapshot.choice.lexemes ++ added) :
    (snapshot.modify change).lexemes = snapshot.lexemes ++ added := by
  cases snapshot with
  | outermost choice => exact hchange
  | inside outer opener text choice =>
    have hinner : (change choice).lexemes = choice.lexemes ++ added := hchange
    simp [modify, lexemes, hinner]

@[simp] theorem lexemes_push (snapshot : Snapshot) (phrase : Phrase) :
    (snapshot.push phrase).lexemes = snapshot.lexemes ++ phrase.lexemes :=
  lexemes_modify (Choice.lexemes_push snapshot.choice phrase)

@[simp] theorem lexemes_nextBranch (snapshot : Snapshot) :
    snapshot.nextBranch.lexemes = snapshot.lexemes ++ [Phrase.bar] :=
  lexemes_modify (Choice.lexemes_nextBranch snapshot.choice)

/-- The innermost choice ends where all that has been read ends. -/
theorem start_add_size (snapshot : Snapshot) :
    snapshot.start + Lexeme.size snapshot.choice.lexemes = Lexeme.size snapshot.lexemes := by
  cases snapshot with
  | outermost choice => simp [start, Snapshot.choice, lexemes]
  | inside outer opener text choice => simp [start, Snapshot.choice, lexemes, Nat.add_assoc]

theorem before_add_numbered (snapshot : Snapshot) :
    snapshot.before + Lexeme.numbered snapshot.choice.lexemes =
      Lexeme.numbered snapshot.lexemes := by
  cases snapshot with
  | outermost choice => simp [before, Snapshot.choice, lexemes]
  | inside outer opener text choice =>
    simp [before, Snapshot.choice, lexemes, Nat.add_assoc]

theorem level_push (snapshot : Snapshot) (phrase : Phrase) :
    (snapshot.push phrase).level = snapshot.level.push
      (phrase.item (Lexeme.size snapshot.lexemes) (Lexeme.numbered snapshot.lexemes)) := by
  simp only [level, push, choice_modify, start_modify, before_modify, Choice.level_push,
    start_add_size, before_add_numbered]

theorem level_nextBranch (snapshot : Snapshot) :
    snapshot.nextBranch.level = snapshot.level.nextBranch (Lexeme.size snapshot.lexemes) := by
  simp only [level, nextBranch, choice_modify, start_modify, before_modify,
    Choice.level_nextBranch, start_add_size]

theorem state_push (snapshot : Snapshot) (phrase : Phrase) :
    (snapshot.push phrase).state =
      { level := snapshot.level.push
          (phrase.item (Lexeme.size snapshot.lexemes) (Lexeme.numbered snapshot.lexemes))
        openGroups := snapshot.openGroups
        numbered := Lexeme.numbered snapshot.lexemes + Lexeme.numbered phrase.lexemes
        names := (groupNames (phrase.lexemes.map Lexeme.role)).reverse ++
          snapshot.state.names } := by
  simp [state, roles, level_push]

theorem state_nextBranch (snapshot : Snapshot) :
    snapshot.nextBranch.state =
      { snapshot.state with
        level := snapshot.level.nextBranch (Lexeme.size snapshot.lexemes) } := by
  simp [state, roles, level_nextBranch, Phrase.bar, groupName?, TokenRole.isNumbered]

/-- The open groups are those that were opened and not closed. -/
theorem length_openGroups (snapshot : Snapshot) :
    snapshot.openGroups.length + closers snapshot.roles = openers snapshot.roles := by
  induction snapshot with
  | outermost choice =>
    obtain ⟨_, hchoice⟩ := choice.exists_nested_lexemes
    simp [openGroups, roles, lexemes, hchoice.balanced]
  | inside outer opener text choice ih =>
    obtain ⟨_, hchoice⟩ := choice.exists_nested_lexemes
    simp only [roles] at ih
    simp [openGroups, roles, lexemes, isOpener, isCloser, hchoice.balanced, ← ih]
    omega

end Snapshot

end PatternTree
