import PatternTree.Proofs.Grammar.Parse
import PatternTree.Proofs.Grammar.Parts
import PatternTree.Proofs.Span

namespace PatternTree

/-- What a node with a label writes before, between and behind its children. A node that is no
    group, repetition or list of others is a token. -/
inductive Label.Owns (tokens : List Token) (span : Span) : Label → List (List Char) → Prop where
  | leaf {token : Token} {atom : Atom} {label : Label} (htoken : token ∈ tokens)
      (hspan : token.span = span) (hrole : token.role = .atom atom)
      (hlabel : label.unsettled = atom.label.unsettled) : Owns tokens span label [token.text]
  | group {opener : Opener} {text : List Char} (number : Nat) (htext : opener.Spells text) :
      Owns tokens span (.group (opener.group number)) [text, [')']]
  | repetition {quantifier : Quantifier} {bounds : Bounds} {text : List Char} (greedy : Bool)
      (htext : quantifier.Spells text) (hbounds : quantifier.bounds = .ok bounds) :
      Owns tokens span (.repetition bounds greedy) [[], text ++ if greedy then [] else ['?']]
  | concatenation {count : Nat} (hcount : count ≠ 1) :
      Owns tokens span .concatenation (List.replicate (count + 1) [])
  | alternation (count : Nat) :
      Owns tokens span .alternation ([] :: (List.replicate (count + 1) ['|'] ++ [[]]))

/-- The places that a tree takes itself: its span without those of its children. -/
def Tree.pieces (tree : Tree) : List Span :=
  Span.gaps tree.span.start tree.span.stop (tree.children.map Tree.span)

theorem Tree.pieces_node (label : Label) (span : Span) (children : List Tree) :
    (Tree.node label span children).pieces =
      Span.gaps span.start span.stop (children.map Tree.span) := rfl

namespace Lexeme

theorem mem_place_append_cons (offset : Nat) (front back : List Lexeme) (lexeme : Lexeme) :
    lexeme.token (offset + size front) ∈ place offset (front ++ lexeme :: back) := by
  simp [place_append, place]

end Lexeme

namespace Choice

variable {chars : List Char}

/-- Lexemes cover their text at their place. -/
theorem covers_textOf {front lexemes back : List Lexeme}
    (hchars : chars = Lexeme.textOf (front ++ (lexemes ++ back))) :
    Text.Covers chars ⟨Lexeme.size front, Lexeme.size front + Lexeme.size lexemes⟩
      (Lexeme.textOf lexemes) := by
  rw [hchars, Lexeme.textOf_append, Lexeme.textOf_append]
  exact .of_append _ _ _

/-- Behind the first of several choices, each gap is a separator, and none is at the end. -/
theorem covers_gaps_trees {separator front back : List Lexeme} (numbered : Nat)
    (first : Choice) (choices : List Choice)
    (hchars : chars = Lexeme.textOf (front ++ (joined separator (first :: choices) ++ back))) :
    List.Forall₂ (Text.Covers chars)
      (Span.gaps (Lexeme.size front + Lexeme.size first.lexemes)
        (Lexeme.size front + Lexeme.size (joined separator (first :: choices)))
        ((trees separator
          (Lexeme.size front + Lexeme.size first.lexemes + Lexeme.size separator)
          numbered choices).map Tree.span))
      (List.replicate choices.length (Lexeme.textOf separator) ++ [[]]) := by
  induction choices generalizing front numbered first with
  | nil =>
    have hchars' : chars = Lexeme.textOf ((front ++ first.lexemes) ++ ([] ++ back)) := by
      simpa [joined] using hchars
    have hend := covers_textOf hchars'
    simpa [joined, trees, Span.gaps] using hend
  | cons other choices ih =>
    have hchars' : chars = Lexeme.textOf ((front ++ first.lexemes) ++
        (separator ++ (joined separator (other :: choices) ++ back))) := by
      simpa [joined] using hchars
    have hseparator := covers_textOf hchars'
    have hchars'' : chars = Lexeme.textOf ((front ++ (first.lexemes ++ separator)) ++
        (joined separator (other :: choices) ++ back)) := by
      simpa [joined] using hchars
    have hothers := ih (numbered + Lexeme.numbered other.lexemes) other hchars''
    simp only [joined, trees, Span.gaps, List.map_cons, span_tree, List.length_cons,
      List.replicate_succ, List.cons_append]
    refine .cons ?_ ?_
    · simpa using hseparator
    · simpa [Nat.add_assoc] using hothers

/-- Choices side by side leave nothing before the first, behind the last and, apart from the
    separators, between them. -/
theorem covers_pieces_trees {separator front back : List Lexeme} {label : Label} (numbered : Nat)
    (first : Choice) (choices : List Choice)
    (hchars : chars = Lexeme.textOf (front ++ (joined separator (first :: choices) ++ back))) :
    List.Forall₂ (Text.Covers chars)
      (Tree.node label ⟨Lexeme.size front,
        Lexeme.size front + Lexeme.size (joined separator (first :: choices))⟩
        (trees separator (Lexeme.size front) numbered (first :: choices))).pieces
      ([] :: (List.replicate choices.length (Lexeme.textOf separator) ++ [[]])) := by
  have hchars' : chars = Lexeme.textOf (front ++
      ([] ++ (joined separator (first :: choices) ++ back))) := by
    simpa using hchars
  have hstart := covers_textOf hchars'
  have hgaps := covers_gaps_trees (numbered + Lexeme.numbered first.lexemes) first choices hchars
  simp only [Tree.pieces_node, trees, List.map_cons, span_tree, Span.gaps]
  exact .cons hstart hgaps

/-- A group leaves its opener before and its parenthesis behind what is inside. -/
theorem covers_pieces_group {front back : List Lexeme} {opener : Opener} {text : List Char}
    {label : Label} (numbered : Nat) (inner : Choice)
    (hchars : chars = Lexeme.textOf
      (front ++ (⟨.opener opener, text⟩ :: (inner.lexemes ++ [Phrase.closer]) ++ back))) :
    List.Forall₂ (Text.Covers chars)
      (Tree.node label ⟨Lexeme.size front,
        Lexeme.size front + Text.utf8Size text + Lexeme.size inner.lexemes + 1⟩
        [inner.tree (Lexeme.size front + Text.utf8Size text) numbered]).pieces
      [text, [')']] := by
  have hopener : chars = Lexeme.textOf (front ++ ([⟨.opener opener, text⟩] ++
      (inner.lexemes ++ (Phrase.closer :: back)))) := by
    simpa using hchars
  have hcloser : chars = Lexeme.textOf ((front ++ ⟨.opener opener, text⟩ :: inner.lexemes) ++
      ([Phrase.closer] ++ back)) := by
    simpa using hchars
  have hcovers := covers_textOf hopener
  have hcovers' : Text.Covers chars _ [')'] := covers_textOf hcloser
  simp only [Tree.pieces_node, List.map_cons, List.map_nil, span_tree, Span.gaps]
  refine .cons ?_ (.cons ?_ .nil)
  · simpa using hcovers
  · simpa [Nat.add_assoc] using hcovers'

/-- A repetition leaves its quantifier behind what is repeated. -/
theorem covers_pieces_repetition {front back : List Lexeme} {label : Label} (numbered : Nat)
    (inner : Choice) (suffix : Suffix)
    (hchars : chars = Lexeme.textOf
      (front ++ (inner.lexemes ++ Phrase.suffixLexemes (some suffix) ++ back))) :
    List.Forall₂ (Text.Covers chars)
      (Tree.node label ⟨Lexeme.size front, Lexeme.size front + Lexeme.size inner.lexemes +
        Lexeme.size (Phrase.suffixLexemes (some suffix))⟩
        [inner.tree (Lexeme.size front) numbered]).pieces
      [[], Lexeme.textOf (Phrase.suffixLexemes (some suffix))] := by
  have hstart : chars = Lexeme.textOf (front ++
      ([] ++ (inner.lexemes ++ (Phrase.suffixLexemes (some suffix) ++ back)))) := by
    simpa using hchars
  have hsuffix : chars = Lexeme.textOf ((front ++ inner.lexemes) ++
      (Phrase.suffixLexemes (some suffix) ++ back)) := by
    simpa using hchars
  have hcovers := covers_textOf hstart
  have hcovers' := covers_textOf hsuffix
  simp only [Tree.pieces_node, List.map_cons, List.map_nil, span_tree, Span.gaps]
  refine .cons hcovers (.cons ?_ .nil)
  simpa using hcovers'

theorem textOf_suffixLexemes (suffix : Suffix) :
    Lexeme.textOf (Phrase.suffixLexemes (some suffix)) =
      suffix.text ++ if !suffix.isLazy then [] else ['?'] := by
  cases hlazy : suffix.isLazy <;> simp [Phrase.suffixLexemes, hlazy, Phrase.lazyMark]

/-- What a tree takes itself is what its label writes. -/
theorem Splits.exists_owns {front lexemes back : List Lexeme} {numbered : Nat} {tree : Tree}
    (hsplits : Splits (Lexeme.size front) numbered lexemes tree)
    (hspells : ∀ lexeme ∈ lexemes, lexeme.role.Spells lexeme.text)
    (hfit : ∀ counts, .quantifier (.counted counts) ∈ lexemes.map Lexeme.role → counts.Fit)
    (hchars : chars = Lexeme.textOf (front ++ (lexemes ++ back))) :
    ∃ texts, List.Forall₂ (Text.Covers chars) tree.pieces texts ∧
      tree.label.Owns (Lexeme.place 0 (front ++ (lexemes ++ back))) tree.span texts := by
  cases hsplits with
  | leaf atom text =>
    have hcovers := covers_textOf hchars
    have htoken := Lexeme.mem_place_append_cons 0 front back ⟨.atom atom, text⟩
    rw [Nat.zero_add] at htoken
    refine ⟨[text], ?_, .leaf htoken rfl rfl rfl⟩
    rw [Tree.pieces_node]
    exact .cons (by simpa using hcovers) .nil
  | group opener text inner =>
    have htext : opener.Spells text := hspells ⟨.opener opener, text⟩ List.mem_cons_self
    exact ⟨_, covers_pieces_group _ inner hchars, .group (numbered + 1) htext⟩
  | repetition inner suffix =>
    have hmem : ⟨.quantifier suffix.quantifier, suffix.text⟩ ∈
        inner.lexemes ++ Phrase.suffixLexemes (some suffix) := by
      simp [Phrase.suffixLexemes]
    have hbounds : suffix.quantifier.bounds = .ok suffix.quantifier.written := by
      refine Quantifier.bounds_eq_ok_iff.mpr ⟨?_, rfl⟩
      intro counts hcounts
      apply hfit
      rw [← hcounts]
      exact List.mem_map_of_mem hmem
    refine ⟨_, covers_pieces_repetition numbered inner suffix hchars, ?_⟩
    rw [textOf_suffixLexemes]
    exact .repetition (!suffix.isLazy) (hspells _ hmem) hbounds
  | concatenation items hcount =>
    cases items with
    | nil =>
      have hcovers := covers_textOf hchars
      exact ⟨[[]], .cons hcovers .nil, .concatenation hcount⟩
    | cons first items =>
      have hcovers : List.Forall₂ (Text.Covers chars) (Tree.node .concatenation _ _).pieces _ :=
        covers_pieces_trees numbered first items hchars
      have htexts : ([] : List Char) :: (List.replicate items.length [] ++ [[]]) =
          List.replicate ((first :: items).length + 1) [] := by
        rw [List.length_cons, List.replicate_succ, List.replicate_succ']
      refine ⟨_, hcovers, ?_⟩
      rw [Lexeme.textOf_nil, htexts]
      exact .concatenation hcount
  | alternation branches hcount =>
    cases branches with
    | nil => simp at hcount
    | cons first branches =>
      obtain ⟨count, hlength⟩ : ∃ count, branches.length = count + 1 :=
        Nat.exists_eq_succ_of_ne_zero (by simp at hcount; omega)
      have hcovers : List.Forall₂ (Text.Covers chars) (Tree.node .alternation _ _).pieces _ :=
        covers_pieces_trees numbered first branches hchars
      refine ⟨_, hcovers, ?_⟩
      rw [hlength]
      exact .alternation count

end Choice

/-- What any tree within that of a text takes itself is what its label writes. -/
theorem Dialect.Derives.exists_owns {dialect : Dialect} {chars : List Char} {choice : Choice}
    (hderives : dialect.Derives chars choice) {sub : Tree} (hsub : sub.Within (choice.tree 0 0)) :
    ∃ texts, List.Forall₂ (Text.Covers chars) sub.pieces texts ∧
      sub.label.Owns (Scan.ofText dialect.classSyntax 0 chars).tokens sub.span texts := by
  obtain ⟨front, inner, back, hlexemes, rfl⟩ := Choice.exists_of_within hsub
  have hspells := hderives.reads.spells
  have hfit := hderives.admits.counts
  have htext := hderives.text
  rw [hderives.scan_eq]
  rw [hlexemes] at hspells hfit htext ⊢
  rw [Nat.zero_add]
  apply (inner.splits _ _).exists_owns _ _ htext.symm
  · intro lexeme hlexeme
    exact hspells lexeme (by simp [hlexeme])
  · intro counts hcounts
    exact hfit counts (by simp only [List.map_append, List.mem_append]; tauto)

end PatternTree
