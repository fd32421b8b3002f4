import PatternTree.Proofs.Grammar.Parse
import PatternTree.Proofs.Shift
import PatternTree.Proofs.Token.Closing

namespace PatternTree

open TokenRole (openers closers groupNames)

/-- Tokens behind others that close all groups they open are admitted with them when no name comes
    back. -/
theorem Dialect.Admits.append {dialect : Dialect} {roles roles' : List TokenRole}
    (hadmits : dialect.Admits roles) (hadmits' : dialect.Admits roles')
    (hbalanced : openers roles = closers roles)
    (hnames : dialect.allowDuplicateNames = false →
      ∀ name ∈ groupNames roles, name ∉ groupNames roles') : dialect.Admits (roles ++ roles') where
  counts counts hcounts :=
    (List.mem_append.mp hcounts).elim (hadmits.counts counts) (hadmits'.counts counts)
  depth front hfront := by
    obtain ⟨back, hback⟩ := hfront
    obtain ⟨middle, hmiddle, -⟩ | ⟨front', rfl, hfront'⟩ := List.append_eq_append_iff.mp hback
    · exact hadmits.depth front ⟨middle, hmiddle.symm⟩
    · have hle := hadmits'.depth front' ⟨back, hfront'.symm⟩
      rw [TokenRole.openers_append, TokenRole.closers_append]
      omega
  names hallow := by
    rw [TokenRole.groupNames_append, List.nodup_append]
    refine ⟨hadmits.names hallow, hadmits'.names hallow, ?_⟩
    rintro name hname _ hname' rfl
    exact hnames hallow name hname hname'

namespace Tree

/-- A sequence is no alternation where none of its items is one. -/
theorem label_sequence_ne_alternation (place : Nat) {items : List Tree}
    (hitems : ∀ item ∈ items, item.label ≠ .alternation) :
    (sequence place items).label ≠ .alternation := by
  match items with
  | [] => exact Label.noConfusion
  | [item] => exact hitems item List.mem_cons_self
  | _ :: _ :: _ => exact Label.noConfusion

end Tree

namespace Phrase

variable (offset numbered : Nat)

/-- Alternations stand inside of groups only. -/
theorem label_tree_ne_alternation (phrase : Phrase) :
    (phrase.tree offset numbered).label ≠ .alternation := by
  cases phrase with
  | leaf atom text suffix =>
    cases suffix with
    | none => cases atom <;> exact Label.noConfusion
    | some suffix => exact Label.noConfusion
  | group opener text earlier last suffix =>
    cases suffix with
    | none => exact Label.noConfusion
    | some suffix => exact Label.noConfusion

theorem label_sequence_items_ne_alternation (place : Nat) (phrases : List Phrase) :
    (Tree.sequence place ((items offset numbered phrases).map Item.tree)).label ≠
      .alternation := by
  refine Tree.label_sequence_ne_alternation place ?_
  induction phrases generalizing offset numbered with
  | nil => simp [items]
  | cons phrase phrases ih =>
    rw [items, List.map_cons, List.forall_mem_cons]
    exact ⟨phrase.label_tree_ne_alternation offset numbered, ih _ _⟩

theorem label_ne_alternation_of_mem_earlierTrees (branches : List (List Phrase)) :
    ∀ tree ∈ earlierTrees offset numbered branches, tree.label ≠ .alternation := by
  induction branches generalizing offset numbered with
  | nil => simp [earlierTrees]
  | cons branch branches ih =>
    rw [earlierTrees, List.forall_mem_cons]
    exact ⟨label_sequence_items_ne_alternation _ _ _ branch, ih _ _⟩

end Phrase

namespace Choice

variable (offset numbered : Nat)

/-- The trees of the branches of a choice. -/
def branchTrees (choice : Choice) : List Tree :=
  Phrase.earlierTrees offset numbered choice.earlier ++
    [.sequence (offset + Lexeme.size choice.lexemes)
      ((Phrase.items (choice.lastStart offset) (choice.lastNumbered numbered)
        choice.last).map Item.tree)]

theorem tree_eq_choice (choice : Choice) : choice.tree offset numbered =
    .choice (offset + Lexeme.size choice.lexemes) (choice.branchTrees offset numbered) :=
  tree_eq offset numbered choice

theorem branchTrees_ne_nil (choice : Choice) : choice.branchTrees offset numbered ≠ [] := by
  simp [branchTrees]

theorem label_ne_alternation_of_mem_branchTrees (choice : Choice) :
    ∀ tree ∈ choice.branchTrees offset numbered, tree.label ≠ .alternation := by
  rw [branchTrees, List.forall_mem_append, List.forall_mem_singleton]
  exact ⟨Phrase.label_ne_alternation_of_mem_earlierTrees _ _ _,
    Phrase.label_sequence_items_ne_alternation _ _ _ _⟩

theorem branchTrees_shift (before prior : Nat) (choice : Choice) :
    choice.branchTrees (before + offset) (prior + numbered) =
      Tree.shifts before prior (choice.branchTrees offset numbered) := by
  simp only [branchTrees, lastStart, lastNumbered, Nat.add_assoc, Phrase.earlierTrees_shift,
    Phrase.map_tree_items_shift, Tree.sequence_map_shift, Tree.shifts_eq_map, List.map_append,
    List.map_cons, List.map_nil]

/-- The branches of a choice and behind them those of another one. -/
def either (left right : Choice) : Choice :=
  ⟨left.earlier ++ left.last :: right.earlier, right.last⟩

variable (left right : Choice)

theorem lexemes_either :
    (left.either right).lexemes = left.lexemes ++ Phrase.bar :: right.lexemes := by
  simp [either, lexemes, Phrase.earlierLexemes]

theorem branchTrees_either : (left.either right).branchTrees offset numbered =
    left.branchTrees offset numbered ++
      right.branchTrees (offset + (Lexeme.size left.lexemes + 1))
        (numbered + Lexeme.numbered left.lexemes) := by
  rw [branchTrees, branchTrees, branchTrees, lexemes_either]
  simp [either, lastStart, lastNumbered, Phrase.earlierTrees_append, Phrase.earlierTrees, lexemes,
    Phrase.earlierLexemes, Nat.add_assoc]

end Choice

/-- Two texts with a bar between them derive from the choice between their branches. -/
theorem Dialect.Derives.either {dialect : Dialect} {chars chars' : List Char} {left right : Choice}
    (hleft : dialect.Derives chars left) (hright : dialect.Derives chars' right)
    (hnames : dialect.allowDuplicateNames = false →
      ∀ name ∈ groupNames (left.lexemes.map Lexeme.role),
        name ∉ groupNames (right.lexemes.map Lexeme.role)) :
    dialect.Derives (chars ++ '|' :: chars') (left.either right) where
  text := by
    rw [Choice.lexemes_either, Lexeme.textOf_append, Lexeme.textOf_cons, hleft.text, hright.text]
    rfl
  reads := by
    rw [Choice.lexemes_either]
    refine (hleft.reads.before_end (by simp) fun next hnext => .inr (.inl ?_)).append
      (.cons rfl hright.reads)
    exact (Option.some.inj hnext).symm
  admits := by
    have hbar : dialect.Admits (left.lexemes.map Lexeme.role ++ [.bar]) :=
      Dialect.admits_append_singleton.mpr ⟨hleft.admits, .of_isOpener_eq_false rfl nofun⟩
    obtain ⟨_, hnested⟩ := left.exists_nested_lexemes
    have hboth := hbar.append hright.admits
      (by simp [hnested.balanced, TokenRole.isOpener, TokenRole.isCloser])
      (by simpa [TokenRole.groupName?] using hnames)
    rw [Choice.lexemes_either, List.map_append, List.map_cons]
    rwa [List.append_assoc] at hboth

end PatternTree
