import PatternTree.Proofs.Grammar.Parse
import PatternTree.Proofs.Shape.Spell

namespace PatternTree

/-- Lexemes that spell a text and from which a value is built once the groups before them are
    numbered such that theirs get the numbers they have. -/
structure Rebuilds {α : Type} (text : List Char) (groups : List Group) (depth : Nat) (value : α)
    (lexemes : List Lexeme) (build : Nat → α) : Prop where
  spell : Spell text groups depth lexemes
  build_eq : ∀ before, groups.filterMap Group.number =
    List.range' (before + 1) (groups.filterMap Group.number).length → build before = value

namespace Shape

/-- A phrase without a quantifier that rebuilds a shape. -/
def RebuiltByAtom (shape : Shape) : Prop :=
  ∃ phrase : Phrase, phrase.suffix = none ∧
    Rebuilds shape.print shape.groups shape.depth shape phrase.lexemes (phrase.shape ·)

/-- A phrase that rebuilds a shape. -/
def RebuiltByItem (shape : Shape) : Prop :=
  ∃ phrase : Phrase,
    Rebuilds shape.print shape.groups shape.depth shape phrase.lexemes (phrase.shape ·)

/-- A sequence that rebuilds a shape. -/
def RebuiltByBranch (shape : Shape) : Prop :=
  ∃ phrases : List Phrase, Rebuilds shape.print shape.groups shape.depth shape
    (Phrase.sequenceLexemes phrases) fun before => .sequence (Phrase.sequenceShapes before phrases)

/-- A choice that rebuilds a shape. -/
def Rebuilt (shape : Shape) : Prop :=
  ∃ choice : Choice,
    Rebuilds shape.print shape.groups shape.depth shape choice.lexemes (choice.shape ·)

theorem RebuiltByAtom.item {shape : Shape} (hshape : shape.RebuiltByAtom) :
    shape.RebuiltByItem := by
  obtain ⟨phrase, -, hphrase⟩ := hshape
  exact ⟨phrase, hphrase⟩

theorem RebuiltByItem.branch {shape : Shape} (hshape : shape.RebuiltByItem) :
    shape.RebuiltByBranch := by
  obtain ⟨phrase, hphrase⟩ := hshape
  refine ⟨[phrase], ?_, hphrase.build_eq⟩
  rw [Phrase.sequenceLexemes_singleton]
  exact hphrase.spell

theorem RebuiltByBranch.choice {shape : Shape} (hshape : shape.RebuiltByBranch) :
    shape.Rebuilt := by
  obtain ⟨phrases, hphrases⟩ := hshape
  exact ⟨⟨[], phrases⟩, hphrases.spell, hphrases.build_eq⟩

theorem rebuiltByAtom_leaf {atom : Atom} (hatom : atom.Proper) : (leaf atom).RebuiltByAtom := by
  have hspell := Spell.atom hatom
  refine ⟨.leaf atom (printLabel [] atom.label) none, rfl, ?_, fun _ _ => rfl⟩
  cases atom <;> exact hspell

theorem rebuiltByAtom_group {group : Group} (hgroup : group.Proper) {body : Shape}
    (hbody : body.Rebuilt) : (node (.group group) [body]).RebuiltByAtom := by
  obtain ⟨choice, hchoice⟩ := hbody
  refine ⟨.group group.opener group.opening choice.earlier choice.last none, rfl, ?_, ?_⟩
  · have hspell := Spell.group hgroup hchoice.spell
    rw [Phrase.lexemes_group]
    simpa [print, prints, printLabel, groups, groupsOfAll, depth, depthOfAll,
      Phrase.suffixLexemes] using hspell
  · intro before hnumbers
    obtain ⟨number, name⟩ := group
    cases number with
    | none =>
      obtain rfl : name = none := by
        cases name with
        | none => rfl
        | some name => cases (hgroup name rfl).2
      have hbuild := hchoice.build_eq before (by simpa [groups, groupsOfAll] using hnumbers)
      rw [← hbuild]
      rfl
    | some number =>
      have hnumbers' : number = before + 1 ∧ body.groups.filterMap Group.number =
          List.range' (before + 1 + 1) (body.groups.filterMap Group.number).length := by
        simpa [groups, groupsOfAll, List.range'_succ] using hnumbers
      obtain ⟨rfl, hbody⟩ := hnumbers'
      have hbuild := hchoice.build_eq (before + 1) hbody
      rw [← hbuild]
      cases name <;> rfl

theorem rebuiltByItem_repetition {bounds : Bounds} (hbounds : bounds.Proper) (greedy : Bool)
    {body : Shape} (hbody : body.RebuiltByAtom) :
    (node (.repetition bounds greedy) [body]).RebuiltByItem := by
  obtain ⟨phrase, hnone, hphrase⟩ := hbody
  have hplain : phrase.withSuffix none = phrase := by
    rw [← hnone, phrase.withSuffix_suffix]
  refine ⟨phrase.withSuffix (some (bounds.suffix greedy)), ?_, ?_⟩
  · have hspell := hphrase.spell.append (Spell.suffix greedy hbounds)
    rw [phrase.lexemes_withSuffix, hplain]
    simpa [print, prints, printLabel, groups, groupsOfAll, depth, depthOfAll] using hspell
  · intro before hnumbers
    have hbuild := hphrase.build_eq before (by simpa [groups, groupsOfAll] using hnumbers)
    have hquantifier : (bounds.suffix greedy).quantifier.written = bounds := bounds.written_counts
    simp only [phrase.shape_withSuffix, hplain, hbuild, Phrase.suffixShape, hquantifier]
    simp [Bounds.suffix]

/-- Numbers in order split into those of two parts. -/
theorem eq_range'_of_append {front back : List Nat} {first : Nat}
    (happend : front ++ back = List.range' first (front ++ back).length) :
    front = List.range' first front.length ∧
      back = List.range' (first + front.length) back.length := by
  rw [List.length_append, ← List.range'_append_1] at happend
  exact List.append_inj happend (by simp)

/-- Items in a row are rebuilt by a sequence. -/
theorem exists_rebuilds_sequence {items : List Shape}
    (hitems : ∀ item ∈ items, item.RebuiltByItem) :
    ∃ phrases : List Phrase,
      Rebuilds (prints items).flatten (groupsOfAll items) (depthOfAll items) items
        (Phrase.sequenceLexemes phrases) fun before => Phrase.sequenceShapes before phrases := by
  induction items with
  | nil => exact ⟨[], .nil, fun _ _ => rfl⟩
  | cons item items ih =>
    obtain ⟨phrase, hphrase⟩ := hitems item List.mem_cons_self
    obtain ⟨phrases, hphrases⟩ :=
      ih fun other hother => hitems other (List.mem_cons_of_mem _ hother)
    refine ⟨phrase :: phrases, ?_, ?_⟩
    · exact hphrase.spell.append hphrases.spell
    · intro before hnumbers
      rw [groupsOfAll, List.filterMap_append] at hnumbers
      obtain ⟨hfirst, hothers⟩ := eq_range'_of_append hnumbers
      have hnumbered := hphrase.spell.numbered
      have hbuild := hphrase.build_eq before hfirst
      have hbuild' := hphrases.build_eq (before + Lexeme.numbered phrase.lexemes)
        (by rw [hnumbered, Nat.add_right_comm]; exact hothers)
      simp only [Phrase.sequenceShapes, hbuild, hbuild']

theorem rebuiltByBranch_concatenation {items : List Shape} (hcount : items.length ≠ 1)
    (hitems : ∀ item ∈ items, item.RebuiltByItem) :
    (node .concatenation items).RebuiltByBranch := by
  obtain ⟨phrases, hphrases⟩ := exists_rebuilds_sequence hitems
  refine ⟨phrases, hphrases.spell, ?_⟩
  intro before hnumbers
  have hbuild := hphrases.build_eq before hnumbers
  simp only [hbuild]
  match items with
  | [] => rfl
  | [_] => exact absurd rfl hcount
  | _ :: _ :: _ => rfl

/-- Branches with bars between them are rebuilt by a choice. -/
theorem exists_rebuilds_choice (first : Shape) {others : List Shape}
    (hbranches : ∀ branch ∈ first :: others, branch.RebuiltByBranch) :
    ∃ choice : Choice, Rebuilds (['|'].intercalate (prints (first :: others)))
      (groupsOfAll (first :: others)) (depthOfAll (first :: others)) (first :: others)
      choice.lexemes fun before => Phrase.earlierShapes before choice.earlier ++
        [.sequence (Phrase.sequenceShapes
          (before + Lexeme.numbered (Phrase.earlierLexemes choice.earlier)) choice.last)] := by
  induction others generalizing first with
  | nil =>
    obtain ⟨phrases, hphrases⟩ := hbranches first List.mem_cons_self
    refine ⟨⟨[], phrases⟩, ?_, ?_⟩
    · have hspell := hphrases.spell
      simpa [prints, groupsOfAll, depthOfAll, Choice.lexemes, Phrase.earlierLexemes] using hspell
    · intro before hnumbers
      have hbuild := hphrases.build_eq before (by simpa [groupsOfAll] using hnumbers)
      simpa [Phrase.earlierShapes, Phrase.earlierLexemes] using hbuild
  | cons other others ih =>
    obtain ⟨phrases, hphrases⟩ := hbranches first List.mem_cons_self
    obtain ⟨choice, hchoice⟩ :=
      ih other fun branch hbranch => hbranches branch (List.mem_cons_of_mem _ hbranch)
    refine ⟨⟨phrases :: choice.earlier, choice.last⟩, ?_, ?_⟩
    · have hspell := hphrases.spell.append (Spell.bar.append hchoice.spell)
      have htext : ['|'].intercalate (prints (first :: other :: others)) =
          first.print ++ (['|'] ++ ['|'].intercalate (prints (other :: others))) := by
        simp [List.intercalate, prints]
      have hlexemes : (⟨phrases :: choice.earlier, choice.last⟩ : Choice).lexemes =
          Phrase.sequenceLexemes phrases ++ ([Phrase.bar] ++ choice.lexemes) := by
        simp [Choice.lexemes, Phrase.earlierLexemes]
      rw [htext, hlexemes]
      exact hspell.mono (by simp [depthOfAll])
    · intro before hnumbers
      rw [groupsOfAll, List.filterMap_append] at hnumbers
      obtain ⟨hfirst, hothers⟩ := eq_range'_of_append hnumbers
      have hnumbered := hphrases.spell.numbered
      have hbuild := hphrases.build_eq before hfirst
      have hbuild' := hchoice.build_eq (before + Lexeme.numbered (Phrase.sequenceLexemes phrases))
        (by rw [hnumbered, Nat.add_right_comm]; exact hothers)
      have hearlier : Lexeme.numbered (Phrase.earlierLexemes (phrases :: choice.earlier)) =
          Lexeme.numbered (Phrase.sequenceLexemes phrases) +
            Lexeme.numbered (Phrase.earlierLexemes choice.earlier) := by
        simp [Phrase.earlierLexemes]
      simp only [Phrase.earlierShapes, hbuild, hearlier, List.cons_append, ← Nat.add_assoc, hbuild']

theorem rebuilt_alternation {branches : List Shape} (hcount : 2 ≤ branches.length)
    (hbranches : ∀ branch ∈ branches, branch.RebuiltByBranch) :
    (node .alternation branches).Rebuilt := by
  match branches with
  | [] => simp at hcount
  | [_] => simp at hcount
  | first :: second :: others =>
    obtain ⟨choice, hchoice⟩ := exists_rebuilds_choice first hbranches
    refine ⟨choice, hchoice.spell, ?_⟩
    intro before hnumbers
    have hbuild := hchoice.build_eq before hnumbers
    simp only [Choice.shape, hbuild]
    rfl

/-- Every shape that the parser builds is rebuilt from its text, a leaf or group by an atom, an
    item by an item and a branch by a sequence. -/
theorem Normal.rebuilt {shape : Shape} (hnormal : shape.Normal) :
    (shape.isAtom → shape.RebuiltByAtom) ∧ (shape.isItem → shape.RebuiltByItem) ∧
      (shape.isBranch → shape.RebuiltByBranch) ∧ shape.Rebuilt := by
  induction hnormal with
  | @leaf atom hatom =>
    have hleaf := rebuiltByAtom_leaf hatom
    exact ⟨fun _ => hleaf, fun _ => hleaf.item, fun _ => hleaf.item.branch,
      hleaf.item.branch.choice⟩
  | group hgroup _ ih =>
    have hatom := rebuiltByAtom_group hgroup ih.2.2.2
    exact ⟨fun _ => hatom, fun _ => hatom.item, fun _ => hatom.item.branch,
      hatom.item.branch.choice⟩
  | repetition greedy hbounds _ hatom ih =>
    have hitem := rebuiltByItem_repetition hbounds greedy (ih.1 hatom)
    refine ⟨?_, fun _ => hitem, fun _ => hitem.branch, hitem.branch.choice⟩
    rintro ⟨⟩
  | concatenation hcount _ hkind ih =>
    have hbranch := rebuiltByBranch_concatenation hcount fun item hitem =>
      (ih item hitem).2.1 (hkind item hitem)
    refine ⟨?_, ?_, fun _ => hbranch, hbranch.choice⟩
    · rintro ⟨⟩
    · rintro ⟨⟩
  | alternation hcount _ hkind ih =>
    have hchoice := rebuilt_alternation hcount fun branch hbranch =>
      (ih branch hbranch).2.2.1 (hkind branch hbranch)
    refine ⟨?_, ?_, ?_, hchoice⟩
    · rintro ⟨⟩
    · rintro ⟨⟩
    · rintro ⟨⟩

end Shape

namespace Pattern

/-- What is printed is read back. The canonical text of a shape that the parser builds is a
    pattern, and its tree has the shape. -/
theorem parse_print {dialect : Dialect} (hpcre : dialect.classSyntax = .pcre) {shape : Shape}
    (hnormal : shape.NormalIn dialect) :
    ∃ pattern, parse dialect (String.ofList shape.print) = .ok pattern ∧
      pattern.Shows pattern.root shape := by
  obtain ⟨choice, hspell, hbuild⟩ := hnormal.normal.rebuilt.2.2.2
  have hderives : dialect.Derives (String.ofList shape.print).toList choice := by
    refine ⟨by rw [hspell.textOf_eq, String.toList_ofList], ?_, ?_⟩
    · rw [hpcre]
      exact hspell.reads [] (by simp [Text.Inert])
    · refine ⟨hspell.counts, ?_, ?_⟩
      · intro front hfront
        have hdepth := hspell.nested.openers_le front hfront
        have hlimit := hnormal.depth
        omega
      · intro _
        rw [hspell.names]
        exact hnormal.names
  refine ⟨_, parse_eq_ok_iff.mpr ⟨choice, hderives, rfl⟩, ?_⟩
  have hshows := (stands_ofTree (String.ofList shape.print) (choice.tree 0 0)).shows
  rwa [Choice.shape_tree, hbuild 0 hnormal.numbers] at hshows

/-- A lazy repetition in a named group is read back, and so is a reference to the group. -/
theorem parse_print_named_group :
    ∃ pattern, parse {} "(?<x>\\x\x7b61\x7d\x7b2,\x7d?)|\\1" = .ok pattern ∧
      pattern.Shows pattern.root (.node .alternation
        [.node (.group ⟨some 1, some "x"⟩)
          [.node (.repetition ⟨2, none⟩ false) [.leaf (.literal 'a')]],
          .leaf (.backreference 1)]) := by
  have hgroup : (Shape.node (.group ⟨some 1, some "x"⟩)
      [.node (.repetition ⟨2, none⟩ false) [.leaf (.literal 'a')]]).Normal := by
    refine .group ?_ (.repetition false ⟨by decide, by simp⟩ (.leaf trivial) rfl)
    rintro name ⟨⟩
    exact ⟨by decide, rfl⟩
  have hreference : (Shape.leaf (.backreference 1)).Normal := .leaf ⟨by decide, by decide⟩
  have hnormal : (Shape.node .alternation
      [.node (.group ⟨some 1, some "x"⟩)
        [.node (.repetition ⟨2, none⟩ false) [.leaf (.literal 'a')]],
        .leaf (.backreference 1)]).NormalIn {} := by
    refine ⟨.alternation (by decide) ?_ ?_, by decide, by decide, by decide⟩
    · simp [hgroup, hreference]
    · simp [Shape.leaf, Shape.isBranch]
  have hprint : String.ofList (Shape.node .alternation
      [.node (.group ⟨some 1, some "x"⟩)
        [.node (.repetition ⟨2, none⟩ false) [.leaf (.literal 'a')]],
        .leaf (.backreference 1)]).print = "(?<x>\\x\x7b61\x7d\x7b2,\x7d?)|\\1" := by
    decide +kernel
  rw [← hprint]
  exact parse_print rfl hnormal

end Pattern

end PatternTree
