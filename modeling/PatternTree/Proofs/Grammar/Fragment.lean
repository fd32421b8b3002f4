import Mathlib.Data.List.Chain
import PatternTree.Proofs.Grammar.Parse
import PatternTree.Proofs.Token.Truncation

namespace PatternTree

namespace Lexeme

/-- Lexemes that may be neighbours: no quantifier stands right behind an opener. -/
def MayFollow (first second : Lexeme) : Prop :=
  first.role.isOpener → second.role.isQuantifier = false

theorem MayFollow.of_isOpener_eq_false {first second : Lexeme}
    (hfirst : first.role.isOpener = false) : MayFollow first second := by
  intro hopener
  rw [hfirst] at hopener
  cases hopener

/-- A lexeme that opens no group may stand before all others. -/
theorem isChain_cons_of_isOpener_eq_false {first : Lexeme} {lexemes : List Lexeme}
    (hfirst : first.role.isOpener = false) (hlexemes : lexemes.IsChain MayFollow) :
    (first :: lexemes).IsChain MayFollow :=
  List.isChain_cons.mpr ⟨fun _ _ => .of_isOpener_eq_false hfirst, hlexemes⟩

variable {classSyntax : ClassSyntax} {rest : List Char} {lexemes : List Lexeme}

/-- A question mark alone is a quantifier. -/
theorem Reads.isQuantifier_of_head?_eq (hreads : Reads classSyntax rest lexemes)
    (hmark : (textOf lexemes).head? = some '?') :
    ∃ lexeme ∈ lexemes.head?, lexeme.role.isQuantifier = true := by
  cases hreads with
  | nil => cases hmark
  | @cons role char chars lexemes hread _ =>
    obtain rfl : char = '?' := by simpa using hmark
    obtain ⟨rfl, -⟩ := Prod.mk.inj (Except.ok.inj hread)
    exact ⟨_, rfl, rfl⟩

/-- Lexemes are read in the same way without the text that follows them. -/
theorem Reads.of_isChain (hreads : Reads classSyntax rest lexemes)
    (hchain : lexemes.IsChain MayFollow) : Reads classSyntax [] lexemes := by
  induction hreads with
  | nil => exact .nil
  | @cons role char chars lexemes hread hlexemes ih =>
    obtain ⟨hnext, hothers⟩ := List.isChain_cons.mp hchain
    refine .cons (Scan.readToken_of_prefix hread ?_ ?_) (ih hothers)
    · exact (List.prefix_append_right_inj _).mpr (List.nil_prefix)
    · rintro rfl hmark
      rw [List.append_nil] at hmark
      obtain ⟨lexeme, hlexeme, hquantifier⟩ := hlexemes.isQuantifier_of_head?_eq hmark
      have hplain := hnext lexeme hlexeme rfl
      rw [hquantifier] at hplain
      cases hplain

end Lexeme

namespace Phrase

open Lexeme (MayFollow isChain_cons_of_isOpener_eq_false)

theorem isQuantifier_eq_false_of_head_sequence {next : List Lexeme}
    (hnext : ∀ lexeme ∈ next.head?, lexeme.role.isQuantifier = false) (phrases : List Phrase) :
    ∀ lexeme ∈ (sequenceLexemes phrases ++ next).head?, lexeme.role.isQuantifier = false := by
  cases phrases with
  | nil => exact hnext
  | cons phrase phrases => cases phrase <;> simp [sequenceLexemes, lexemes, TokenRole.isQuantifier]

/-- No branch starts with a quantifier. -/
theorem isQuantifier_eq_false_of_head_earlier {next : List Lexeme}
    (hnext : ∀ lexeme ∈ next.head?, lexeme.role.isQuantifier = false)
    (branches : List (List Phrase)) :
    ∀ lexeme ∈ (earlierLexemes branches ++ next).head?, lexeme.role.isQuantifier = false := by
  cases branches with
  | nil => exact hnext
  | cons branch branches =>
    rw [earlierLexemes, List.append_assoc]
    apply isQuantifier_eq_false_of_head_sequence
    simp [bar, TokenRole.isQuantifier]

theorem isChain_suffixLexemes {next : List Lexeme} (hnext : next.IsChain MayFollow)
    (suffix : Option Suffix) :
    (suffixLexemes suffix ++ next).IsChain MayFollow := by
  cases suffix with
  | none => exact hnext
  | some suffix =>
    apply isChain_cons_of_isOpener_eq_false rfl
    cases suffix.isLazy with
    | false => exact hnext
    | true => exact isChain_cons_of_isOpener_eq_false rfl hnext

mutual

/-- An item keeps quantifiers away from openers. -/
theorem isChain_lexemes {next : List Lexeme} (hnext : next.IsChain MayFollow) (phrase : Phrase) :
    (phrase.lexemes ++ next).IsChain MayFollow := by
  cases phrase with
  | leaf atom text suffix =>
    exact isChain_cons_of_isOpener_eq_false rfl (isChain_suffixLexemes hnext suffix)
  | group opener text earlier last suffix =>
    have hcloser : (closer :: (suffixLexemes suffix ++ next)).IsChain MayFollow :=
      isChain_cons_of_isOpener_eq_false rfl (isChain_suffixLexemes hnext suffix)
    have hinside := isChain_earlierLexemes (isChain_sequenceLexemes hcloser last) earlier
    have hend : ∀ lexeme ∈ (closer :: (suffixLexemes suffix ++ next)).head?,
        lexeme.role.isQuantifier = false := by
      simp [closer, TokenRole.isQuantifier]
    have hfirst := isQuantifier_eq_false_of_head_earlier
      (isQuantifier_eq_false_of_head_sequence hend last) earlier
    have hlexemes : (group opener text earlier last suffix).lexemes ++ next =
        ⟨.opener opener, text⟩ :: (earlierLexemes earlier ++
          (sequenceLexemes last ++ closer :: (suffixLexemes suffix ++ next))) := by
      simp [lexemes]
    rw [hlexemes, List.isChain_cons]
    exact ⟨fun lexeme hlexeme _ => hfirst lexeme hlexeme, hinside⟩

theorem isChain_sequenceLexemes {next : List Lexeme} (hnext : next.IsChain MayFollow)
    (phrases : List Phrase) :
    (sequenceLexemes phrases ++ next).IsChain MayFollow := by
  cases phrases with
  | nil => exact hnext
  | cons phrase phrases =>
    rw [sequenceLexemes, List.append_assoc]
    exact isChain_lexemes (isChain_sequenceLexemes hnext phrases) phrase

theorem isChain_earlierLexemes {next : List Lexeme} (hnext : next.IsChain MayFollow)
    (branches : List (List Phrase)) :
    (earlierLexemes branches ++ next).IsChain MayFollow := by
  cases branches with
  | nil => exact hnext
  | cons branch branches =>
    have hbar : (bar :: (earlierLexemes branches ++ next)).IsChain MayFollow :=
      isChain_cons_of_isOpener_eq_false rfl (isChain_earlierLexemes hnext branches)
    rw [earlierLexemes, List.append_assoc]
    exact isChain_sequenceLexemes hbar branch

end

end Phrase

/-- A derivation keeps quantifiers away from openers. -/
theorem Choice.isChain_lexemes (choice : Choice) : choice.lexemes.IsChain Lexeme.MayFollow := by
  have hchain := Phrase.isChain_earlierLexemes
    (Phrase.isChain_sequenceLexemes List.IsChain.nil choice.last) choice.earlier
  rwa [List.append_nil] at hchain

namespace Dialect

variable {dialect : Dialect}

open TokenRole (groupName?)

/-- What a dialect admits, it admits inside of others that close what they open. -/
theorem Admits.of_infix {front roles back : List TokenRole}
    (hadmits : dialect.Admits (front ++ (roles ++ back)))
    (hfront : TokenRole.closers front ≤ TokenRole.openers front) : dialect.Admits roles where
  counts counts hcounts := hadmits.counts counts (by simp [hcounts])
  depth inner hinner := by
    have hcut : front ++ inner <+: front ++ (roles ++ back) :=
      (List.prefix_append_right_inj front).mpr (hinner.trans (List.prefix_append roles back))
    have hdepth := hadmits.depth _ hcut
    rw [TokenRole.openers_append, TokenRole.closers_append] at hdepth
    omega
  names hdistinct := by
    have hsub : roles.Sublist (front ++ (roles ++ back)) :=
      (List.sublist_append_left roles back).trans (List.sublist_append_right front _)
    exact (hadmits.names hdistinct).sublist (hsub.filterMap groupName?)

/-- A part of a derivation that is a derivation itself derives its own text. -/
theorem Derives.of_infix {chars : List Char} {choice inner : Choice} {front back : List Lexeme}
    (hderives : dialect.Derives chars choice)
    (hlexemes : choice.lexemes = front ++ (inner.lexemes ++ back)) :
    dialect.Derives (Lexeme.textOf inner.lexemes) inner where
  text := rfl
  reads := by
    have hreads := hderives.reads
    rw [hlexemes] at hreads
    exact hreads.of_append.of_append_left.of_isChain inner.isChain_lexemes
  admits := by
    obtain ⟨depth, hnested⟩ := choice.exists_nested_lexemes
    have hadmits := hderives.admits
    rw [hlexemes, List.map_append] at hnested
    rw [hlexemes, List.map_append, List.map_append] at hadmits
    exact hadmits.of_infix (hnested.closers_le _ (List.prefix_append _ _))

end Dialect

end PatternTree
