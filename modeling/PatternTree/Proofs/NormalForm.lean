import PatternTree.Proofs.Grammar.Parse
import PatternTree.Proofs.Grammar.Parts
import PatternTree.Proofs.Token.Outcomes

namespace PatternTree

/-- What a token brings into a tree is proper: the atom, the bounds, or the group. -/
def TokenRole.Proper : TokenRole → Prop
  | atom kind => kind.Proper
  | quantifier kind => kind.written.Proper
  | opener kind => ∀ number, (kind.group number).Proper
  | bar => True
  | closer => True

theorem Counts.Fit.proper {counts : Counts} (hfit : counts.Fit) : counts.written.Proper := by
  cases counts with
  | exactly count =>
    refine ⟨hfit, fun max hmax => ?_⟩
    cases hmax
    exact ⟨Nat.le_refl _, hfit⟩
  | atLeast lower => exact ⟨hfit, nofun⟩
  | between lower upper =>
    obtain ⟨hlower, hupper, hle⟩ := hfit
    refine ⟨hlower, fun max hmax => ?_⟩
    cases hmax
    exact ⟨hle, hupper⟩

theorem Opener.Spells.proper {opener : Opener} {text : List Char} (hspells : opener.Spells text)
    (number : Nat) : (opener.group number).Proper := by
  cases hspells with
  | capturing | nonCapturing => rintro name ⟨⟩
  | angle hname | letter hname | quote hname =>
    rintro name ⟨⟩
    exact ⟨hname, rfl⟩

namespace Lexeme

theorem Reads.proper_of_atom {classSyntax : ClassSyntax} {rest : List Char}
    {lexemes : List Lexeme} (hreads : Reads classSyntax rest lexemes) :
    ∀ lexeme ∈ lexemes, ∀ atom, lexeme.role = .atom atom → atom.Proper := by
  induction hreads with
  | nil => simp
  | cons hread _ ih =>
    intro lexeme hlexeme
    obtain rfl | hlexeme := List.mem_cons.mp hlexeme
    · exact (Scan.satisfies_readToken _ _ _).ok hread
    · exact ih lexeme hlexeme

end Lexeme

/-- The tokens of a pattern are proper. -/
theorem Dialect.Derives.proper {dialect : Dialect} {chars : List Char} {choice : Choice}
    (hderives : dialect.Derives chars choice) :
    ∀ lexeme ∈ choice.lexemes, lexeme.role.Proper := by
  rintro ⟨role, text⟩ hlexeme
  have hspells := hderives.reads.spells _ hlexeme
  cases role with
  | atom kind => exact hderives.reads.proper_of_atom _ hlexeme kind rfl
  | quantifier kind =>
    cases kind with
    | star | plus => exact ⟨by decide, nofun⟩
    | optional =>
      refine ⟨by decide, fun max hmax => ?_⟩
      cases hmax
      decide
    | counted counts =>
      have hrole := List.mem_map_of_mem (f := Lexeme.role) hlexeme
      exact (hderives.admits.counts counts hrole).proper
  | opener kind => exact hspells.proper
  | bar | closer => trivial

namespace Shape

theorem isBranch_of_isItem {shape : Shape} (hitem : shape.isItem) : shape.isBranch := by
  unfold isItem at hitem
  unfold isBranch
  split at hitem <;> simp_all

/-- Items make a normal branch, whether or not they need a node around them. -/
theorem normal_sequence {items : List Shape} (hitems : ∀ item ∈ items, item.Normal ∧ item.isItem) :
    (sequence items).Normal ∧ (sequence items).isBranch := by
  have hseveral : items.length ≠ 1 → (node .concatenation items).Normal := fun hcount =>
    .concatenation hcount (fun item hitem => (hitems item hitem).1)
      fun item hitem => (hitems item hitem).2
  match items with
  | [] => exact ⟨hseveral (by simp), rfl⟩
  | [item] =>
    obtain ⟨hnormal, hitem⟩ := hitems item List.mem_cons_self
    exact ⟨hnormal, isBranch_of_isItem hitem⟩
  | _ :: _ :: _ => exact ⟨hseveral (by simp), rfl⟩

/-- Branches make a normal shape, whether or not they need a node around them. -/
theorem normal_choice {branches : List Shape} (hsome : branches ≠ [])
    (hbranches : ∀ branch ∈ branches, branch.Normal ∧ branch.isBranch) :
    (choice branches).Normal := by
  match branches with
  | [] => exact absurd rfl hsome
  | [branch] => exact (hbranches branch List.mem_cons_self).1
  | first :: second :: others =>
    refine .alternation (by simp) ?_ ?_
    · exact fun branch hbranch => (hbranches branch hbranch).1
    · exact fun branch hbranch => (hbranches branch hbranch).2

/-- A quantifier makes an item of a leaf or group. -/
theorem normal_suffixShape {atom : Shape} (hnormal : atom.Normal) (hatom : atom.isAtom)
    {suffix : Option Suffix}
    (hproper : ∀ lexeme ∈ Phrase.suffixLexemes suffix, lexeme.role.Proper) :
    (Phrase.suffixShape suffix atom).Normal ∧ (Phrase.suffixShape suffix atom).isItem := by
  cases suffix with
  | none =>
    refine ⟨hnormal, ?_⟩
    simp only [Phrase.suffixShape]
    unfold isAtom at hatom
    unfold isItem
    split at hatom <;> simp_all
  | some suffix =>
    have hbounds : suffix.quantifier.written.Proper := hproper _ List.mem_cons_self
    exact ⟨.repetition _ hbounds hnormal hatom, rfl⟩

end Shape

namespace Phrase

mutual

/-- An item of proper tokens has a normal shape. -/
theorem normal_shape (numbered : Nat) (phrase : Phrase)
    (hproper : ∀ lexeme ∈ phrase.lexemes, lexeme.role.Proper) :
    (phrase.shape numbered).Normal ∧ (phrase.shape numbered).isItem := by
  cases phrase with
  | leaf atom text suffix =>
    have hatom : atom.Proper := hproper ⟨.atom atom, text⟩ List.mem_cons_self
    refine Shape.normal_suffixShape (.leaf hatom) ?_ fun lexeme hlexeme => ?_
    · cases atom <;> rfl
    · exact hproper lexeme (List.mem_cons_of_mem _ hlexeme)
  | group opener text earlier last suffix =>
    have hopener := hproper ⟨.opener opener, text⟩ List.mem_cons_self
    simp only [lexemes, List.mem_cons, List.mem_append] at hproper
    have hearlier := fun inside => normal_earlierShapes inside earlier
      fun lexeme hlexeme => hproper lexeme (.inr (.inl hlexeme))
    have hlast := fun inside => Shape.normal_sequence <| normal_sequenceShapes inside last
      fun lexeme hlexeme => hproper lexeme (.inr (.inr (.inl hlexeme)))
    have hsuffix : ∀ lexeme ∈ suffixLexemes suffix, lexeme.role.Proper :=
      fun lexeme hlexeme => hproper lexeme (.inr (.inr (.inr (.inr hlexeme))))
    have hgroup : ∀ number body, Shape.group opener number body =
        .node (.group (opener.group number)) [body] := by
      cases opener <;> exact fun _ _ => rfl
    rw [shape, hgroup]
    refine Shape.normal_suffixShape (.group (hopener _) ?_) rfl hsuffix
    refine Shape.normal_choice (by simp) fun branch hbranch => ?_
    obtain hbranch | hbranch := List.mem_append.mp hbranch
    · exact hearlier _ branch hbranch
    · rw [List.mem_singleton.mp hbranch]
      exact hlast _

theorem normal_sequenceShapes (numbered : Nat) (phrases : List Phrase)
    (hproper : ∀ lexeme ∈ sequenceLexemes phrases, lexeme.role.Proper) :
    ∀ item ∈ sequenceShapes numbered phrases, item.Normal ∧ item.isItem := by
  cases phrases with
  | nil => exact fun _ => nofun
  | cons phrase phrases =>
    simp only [sequenceLexemes, List.mem_append] at hproper
    intro item hitem
    rw [sequenceShapes] at hitem
    obtain rfl | hitem := List.mem_cons.mp hitem
    · exact normal_shape numbered phrase fun lexeme hlexeme => hproper lexeme (.inl hlexeme)
    · exact normal_sequenceShapes _ phrases
        (fun lexeme hlexeme => hproper lexeme (.inr hlexeme)) item hitem

theorem normal_earlierShapes (numbered : Nat) (branches : List (List Phrase))
    (hproper : ∀ lexeme ∈ earlierLexemes branches, lexeme.role.Proper) :
    ∀ branch ∈ earlierShapes numbered branches, branch.Normal ∧ branch.isBranch := by
  cases branches with
  | nil => exact fun _ => nofun
  | cons phrases branches =>
    simp only [earlierLexemes, List.mem_append, List.mem_cons] at hproper
    intro branch hbranch
    rw [earlierShapes] at hbranch
    obtain rfl | hbranch := List.mem_cons.mp hbranch
    · exact Shape.normal_sequence <| normal_sequenceShapes numbered phrases
        fun lexeme hlexeme => hproper lexeme (.inl hlexeme)
    · exact normal_earlierShapes _ branches
        (fun lexeme hlexeme => hproper lexeme (.inr (.inr hlexeme))) branch hbranch

end

end Phrase

/-- A choice of proper tokens has a normal shape. -/
theorem Choice.normal_shape (numbered : Nat) {choice : Choice}
    (hproper : ∀ lexeme ∈ choice.lexemes, lexeme.role.Proper) :
    (choice.shape numbered).Normal := by
  rw [lexemes] at hproper
  refine Shape.normal_choice (by simp) fun branch hbranch => ?_
  obtain hbranch | hbranch := List.mem_append.mp hbranch
  · exact Phrase.normal_earlierShapes _ _
      (fun lexeme hlexeme => hproper lexeme (List.mem_append_left _ hlexeme)) branch hbranch
  · rw [List.mem_singleton.mp hbranch]
    exact Shape.normal_sequence <| Phrase.normal_sequenceShapes _ _
      fun lexeme hlexeme => hproper lexeme (List.mem_append_right _ hlexeme)

namespace Label

/-- Whether a node is a leaf or a group, which a quantifier may follow. -/
def isAtom : Label → Bool
  | alternation => false
  | concatenation => false
  | repetition _ _ => false
  | _ => true

/-- Whether a node is a leaf, a group or a repetition. -/
def isItem : Label → Bool
  | alternation => false
  | concatenation => false
  | _ => true

/-- What a node of a parsed tree holds, and which labels the nodes right below it have. -/
def NormalOver (children : List Label) : Label → Prop
  | charClass set =>
    children = [] ∧ set.ranges ≠ [] ∧ ∀ range ∈ set.ranges, range.low ≤ range.high
  | group _ => children.length = 1
  | repetition bounds _ =>
    (∃ body : Label, children = [body] ∧ body.isAtom) ∧
      ∀ max, bounds.max = some max → bounds.min ≤ max
  | concatenation => children.length ≠ 1 ∧ ∀ item ∈ children, item.isItem
  | alternation => 2 ≤ children.length ∧ ∀ branch ∈ children, branch ≠ .alternation
  | literal _ | anchor _ | dot | backreference _ _ | namedBackreference _ _ _ => children = []

@[simp] theorem isAtom_unsettled (label : Label) : label.unsettled.isAtom = label.isAtom := by
  cases label <;> rfl

@[simp] theorem isItem_unsettled (label : Label) : label.unsettled.isItem = label.isItem := by
  cases label <;> rfl

@[simp] theorem unsettled_eq_alternation_iff {label : Label} :
    label.unsettled = .alternation ↔ label = .alternation := by
  cases label <;> simp [unsettled]

/-- What is known of references does not matter. -/
theorem normalOver_unsettled_iff {label : Label} {children : List Label} :
    label.unsettled.NormalOver (children.map unsettled) ↔ label.NormalOver children := by
  cases label with
  | repetition bounds greedy =>
    change (repetition bounds greedy).NormalOver _ ↔ _
    cases children <;> simp [NormalOver]
  | concatenation =>
    change concatenation.NormalOver _ ↔ _
    simp [NormalOver]
  | alternation =>
    change alternation.NormalOver _ ↔ _
    simp [NormalOver]
  | _ => simp [unsettled, NormalOver]

end Label

namespace Shape

/-- The label of the root. -/
def label : Shape → Label
  | node label _ => label

/-- The shapes right below the root. -/
def children : Shape → List Shape
  | node _ children => children

theorem isAtom_label (shape : Shape) : shape.label.isAtom = shape.isAtom := by
  obtain ⟨label, children⟩ := shape
  cases label <;> rfl

theorem isItem_label (shape : Shape) : shape.label.isItem = shape.isItem := by
  obtain ⟨label, children⟩ := shape
  cases label <;> rfl

theorem label_ne_alternation_of_isBranch {shape : Shape} (hbranch : shape.isBranch) :
    shape.label ≠ .alternation := by
  obtain ⟨label, children⟩ := shape
  rintro rfl
  cases hbranch

/-- The root of a normal shape may stand over the shapes below it. -/
theorem Normal.normalOver {shape : Shape} (hnormal : shape.Normal) :
    shape.label.NormalOver (shape.children.map label) := by
  cases hnormal with
  | @leaf atom hatom =>
    cases atom with
    | charClass set => exact ⟨rfl, hatom⟩
    | _ => exact rfl
  | group hgroup hbody => exact rfl
  | @repetition bounds body greedy hbounds hbody hatom =>
    refine ⟨⟨body.label, rfl, ?_⟩, fun max hmax => (hbounds.2 max hmax).1⟩
    rw [isAtom_label, hatom]
  | @concatenation items hcount hitems hkind =>
    refine ⟨by simpa [children] using hcount, fun item hitem => ?_⟩
    obtain ⟨shape, hshape, rfl⟩ := List.mem_map.mp hitem
    rw [isItem_label, hkind shape hshape]
  | @alternation branches hcount hbranches hkind =>
    refine ⟨by simpa [children] using hcount, fun branch hbranch => ?_⟩
    obtain ⟨shape, hshape, rfl⟩ := List.mem_map.mp hbranch
    exact label_ne_alternation_of_isBranch (hkind shape hshape)

end Shape

namespace Pattern

variable {dialect : Dialect} {source : String} {pattern : Pattern} {id : Nat}

/-- Every node of a parsed pattern shows a normal shape. -/
theorem exists_shows_normal (hparse : parse dialect source = .ok pattern)
    (hid : id < pattern.nodes.size) : ∃ shape, pattern.Shows id shape ∧ shape.Normal := by
  obtain ⟨choice, hderives, rfl⟩ := parse_eq_ok_iff.mp hparse
  obtain ⟨sub, start, attachment, hsub, hroot, hlies⟩ := exists_within_of_lt _ _ hid
  obtain ⟨front, inner, back, hlexemes, rfl⟩ := Choice.exists_of_within hsub
  have hstands := Tree.stands_of_lies (nodes_ofTree source _) _ hlies
  rw [← hroot, Nat.add_sub_cancel] at hstands
  have hshows := hstands.shows
  rw [Choice.shape_tree] at hshows
  refine ⟨_, hshows, Choice.normal_shape _ fun lexeme hlexeme => hderives.proper lexeme ?_⟩
  rw [hlexemes]
  exact List.mem_append_right _ (List.mem_append_left _ hlexeme)

/-- Nodes that show shapes have the labels of their roots. -/
theorem exists_labels_of_shows {ids : List Nat} {shapes : List Shape}
    (hshows : List.Forall₂ pattern.Shows ids shapes) : ∃ labels : List Label,
      List.Forall₂ (fun id label => (pattern.node? id).map Node.label = some label) ids labels ∧
        labels.map Label.unsettled = shapes.map Shape.label := by
  induction hshows with
  | nil => exact ⟨[], .nil, rfl⟩
  | cons hshape _ ih =>
    obtain ⟨labels, hlabels, hsame⟩ := ih
    cases hshape with
    | @node _ node children hnode _ _ =>
      refine ⟨node.label :: labels, .cons (by rw [hnode, Option.map_some]) hlabels, ?_⟩
      rw [List.map_cons, List.map_cons, hsame, Shape.label]

/-- A parsed tree is in normal form at every node: there is no node around a single item or branch,
    and none that could be merged with its parent. -/
theorem parse_normal (hparse : parse dialect source = .ok pattern) {node : Node}
    (hnode : pattern.node? id = some node) : ∃ labels : List Label,
      List.Forall₂ (fun child label => (pattern.node? child).map Node.label = some label)
        node.children labels ∧ node.label.NormalOver labels := by
  have hid : id < pattern.nodes.size := (Array.getElem?_eq_some_iff.mp hnode).1
  obtain ⟨shape, hshows, hnormal⟩ := exists_shows_normal hparse hid
  have hover := hnormal.normalOver
  cases hshows with
  | @node _ node' children hnode' _ hchildren =>
    obtain rfl : node' = node := Option.some.inj (hnode'.symm.trans hnode)
    obtain ⟨labels, hlabels, hsame⟩ := exists_labels_of_shows hchildren
    refine ⟨labels, hlabels, Label.normalOver_unsettled_iff.mp ?_⟩
    rw [hsame]
    exact hover

/-- The empty branch needs a node, and the branch of two items as well. -/
theorem parse_normal_empty_branch : ∃ pattern node,
    parse {} "(|[^\\W]{2}a)?" = .ok pattern ∧ pattern.node? 5 = some node ∧
      (node.label = .alternation ∧ node.children = [0, 4]) ∧ ∃ labels : List Label,
        List.Forall₂ (fun child label => (pattern.node? child).map Node.label = some label)
          node.children labels ∧ node.label.NormalOver labels := by
  obtain ⟨pattern, hparse⟩ := exists_parse_eq_ok {} "(|[^\\W]{2}a)?" (by decide +kernel)
  have hvalue : (parse {} "(|[^\\W]{2}a)?").toOption.bind (fun pattern =>
      (pattern.node? 5).map fun node => (node.label, node.children)) =
        some (.alternation, [0, 4]) := by
    decide +kernel
  rw [hparse] at hvalue
  obtain ⟨node, hnode, hvalue⟩ := Option.map_eq_some_iff.mp hvalue
  exact ⟨pattern, node, hparse, hnode, Prod.mk.inj hvalue, parse_normal hparse hnode⟩

end Pattern

end PatternTree
