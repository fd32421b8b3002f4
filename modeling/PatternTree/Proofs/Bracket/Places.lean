import PatternTree.Proofs.Bracket

namespace PatternTree

namespace Bracket

/-- An item starts at a place of a text after an opening bracket: members stand in front of it, and
    it is the first item of a member, or a character with a dash stands between them and it is the
    upper end of a range. -/
inductive StartsItem (classSyntax : ClassSyntax) (chars : List Char) :
    Option Char → List Char → Prop where
  | member {negated : Bool} {body place : List Char} {members : List (List ClassRange)}
      (hmark : Marked chars negated body) (hmembers : MembersAt classSyntax body members place)
      (hopen : members ≠ [] → place.head? ≠ some ']') : StartsItem classSyntax chars none place
  | upper {negated : Bool} {body before upper : List Char} {members : List (List ClassRange)}
      {low : Char} (hmark : Marked chars negated body)
      (hmembers : MembersAt classSyntax body members before)
      (hopen : members ≠ [] → before.head? ≠ some ']')
      (hlow : ItemAt classSyntax before (.char low) ('-' :: upper))
      (hupper : upper.head? ≠ some ']') : StartsItem classSyntax chars (some low) upper

variable {classSyntax : ClassSyntax} {chars body place rest after : List Char} {char : Char}
  {low? : Option Char}

/-- One item at most starts at a place. -/
theorem ItemAt.unique {item item' : Item} {rest' : List Char}
    (hitem : ItemAt classSyntax chars item rest) (hitem' : ItemAt classSyntax chars item' rest') :
    item = item' ∧ rest = rest' := by
  obtain ⟨first, others, rfl⟩ := List.exists_cons_of_ne_nil hitem.ne_nil
  exact Prod.mk.inj (Except.ok.inj (hitem.readItem_eq.symm.trans hitem'.readItem_eq))

end Bracket

end PatternTree
