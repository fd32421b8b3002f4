import PatternTree.Proofs.Builder.Steps
import PatternTree.Proofs.Grammar.Parts

namespace PatternTree

namespace Tree

theorem span_sequence (offset : Nat) (items : List Tree) :
    (sequence offset items).span = cover offset items := by
  by_cases hcount : items.length = 1
  · obtain ⟨item, rfl⟩ := List.length_eq_one_iff.mp hcount
    simp [sequence, cover, Span.through]
  · rw [sequence_of_length_ne_one offset hcount]
    rfl

/-- Trees reach up to the last one, and from where those before it start. -/
theorem cover_concat (offset : Nat) (trees : List Tree) (tree : Tree) :
    cover offset (trees ++ [tree]) = ⟨(cover tree.span.start trees).start, tree.span.stop⟩ := by
  cases trees with
  | nil => rfl
  | cons first trees =>
    obtain ⟨last, hlast⟩ : ∃ last, (first :: trees).getLast? = some last :=
      ⟨_, List.getLast?_eq_some_getLast (List.cons_ne_nil _ _)⟩
    rw [cover, List.getLast?_concat, cover, hlast]
    rfl

end Tree

namespace Level

/-- The trees of a level, of which the finished branches come first. -/
def trees (level : Level) : List Tree :=
  level.branches.reverse ++ level.items.reverse.map Item.tree

theorem trees_push (item : Item) (level : Level) :
    (level.push item).trees = level.trees ++ [item.tree] := by
  simp [trees, push]

end Level

namespace Builder

/-- A frame holds the numbers of a level's trees, which are laid out from `first` on, and knows
    where they start. The last branch reaches up to the offset `here`. -/
structure Frame.Holds (first here : Nat) (level : Level) (frame : Frame) : Prop where
  branches : frame.branches = Tree.roots first level.branches.reverse
  items : frame.items = Tree.roots (first + Tree.sizes level.branches.reverse)
    (level.items.reverse.map Item.tree)
  cover : Tree.cover here (level.items.reverse.map Item.tree) = ⟨frame.branchStart, here⟩
  choiceStart : (Tree.cover frame.branchStart level.branches.reverse).start = frame.choiceStart
  choiceStart_le : frame.choiceStart ≤ frame.branchStart
  branchStart_le : frame.branchStart ≤ here

theorem Frame.holds_new (first here : Nat) :
    ({ choiceStart := here, branchStart := here } : Frame).Holds first here {} :=
  ⟨rfl, rfl, rfl, rfl, Nat.le_refl here, Nat.le_refl here⟩

/-- A frame goes on to hold its level when an item is added that starts where it reached. -/
theorem Frame.Holds.push {first here stop : Nat} {level : Level} {frame : Frame}
    (hframe : frame.Holds first here level) {item : Item} (hspan : item.tree.span = ⟨here, stop⟩)
    (hstop : here ≤ stop) :
    (frame.push (first + Tree.sizes level.trees + item.tree.size - 1)).Holds first stop
      (level.push item) where
  branches := hframe.branches
  items := by
    simp [Frame.push, Level.push, hframe.items, Tree.roots_append, Level.trees, Nat.add_assoc]
  cover := by
    have hcover := hframe.cover
    simp only [Level.push, List.reverse_cons, List.map_append, List.map_cons, List.map_nil,
      Tree.cover_concat, hspan, hcover, Frame.push]
  choiceStart := hframe.choiceStart
  choiceStart_le := hframe.choiceStart_le
  branchStart_le := Nat.le_trans hframe.branchStart_le hstop

end Builder

namespace Build

open Work Builder

variable {task : Task} {ahead : Prospect} {number : Nat} {names : List String}
  {front trees : List Tree} {builder : Builder} {expected : Except PatternReport Tree}

/-- Of several trees one becomes the node around the others, and a single one stays. -/
theorem bundle_meets {label : Label} (hlabel : ∀ opened, label ≠ .group opened)
    {place : Build Span} {span : Span} {ids : List Nat} {tree : Tree}
    (hstands : Stands task ahead number names (front ++ trees) builder)
    (hids : ids = Tree.roots (Tree.sizes front) trees)
    (hplace : place task builder = .done span builder)
    (hsingle : trees = [tree] ∨ trees.length ≠ 1 ∧ tree = .node label span trees) :
    (bundle label place ids task builder).Meets (expected = .error ·) fun id next =>
      Stands task ahead number names (front ++ [tree]) next ∧
        id = Tree.sizes front + tree.size - 1 := by
  subst hids
  obtain rfl | ⟨hcount, rfl⟩ := hsingle
  · exact ⟨hstands, rfl⟩
  · have hjoin := Draft.join?_ofForest_of_ne_group hlabel span front trees
    have hbundle : bundle label place (Tree.roots (Tree.sizes front) trees) = (do
        let span ← place
        drafted (·.join? label span (Tree.roots (Tree.sizes front) trees))) := by
      match trees, hcount with
      | [], _ => rfl
      | _ :: _ :: _, _ => rfl
    rw [hbundle, bind_apply, hplace, Outcome.done_andThen]
    refine (drafted_meets hstands hjoin).imp ?_
    rintro id next ⟨hnext, rfl⟩
    refine ⟨hnext, ?_⟩
    rw [Tree.size]
    rfl

variable {frame : Frame} {here : Nat} {level : Level}

/-- The last branch is placed where its trees are, or where it would start when it is empty. -/
theorem place_branch (hframe : frame.Holds (Tree.sizes front) here level) :
    (if frame.items.isEmpty then pure (.empty frame.branchStart)
      else span frame.branchStart here : Build Span) task builder =
        .done (Tree.cover here (level.items.reverse.map Item.tree)) builder := by
  have hcover := hframe.cover
  have hitems := hframe.items
  cases htrees : level.items.reverse.map Item.tree with
  | nil =>
    rw [htrees] at hcover hitems
    obtain ⟨hstart, -⟩ := Span.mk.inj hcover
    rw [hitems, ← hstart]
    rfl
  | cons tree trees =>
    rw [htrees] at hcover hitems
    rw [hitems, hcover]
    exact span_apply hframe.branchStart_le

/-- The items of the last branch become a branch. -/
theorem closeBranch_meets
    (hstands : Stands task ahead number names (front ++ level.trees) builder)
    (hframe : frame.Holds (Tree.sizes front) here level) :
    (closeBranch frame here task builder).Meets (expected = .error ·) fun closed next =>
      Stands task ahead number names (front ++ (level.nextBranch here).trees) next ∧
        closed.branches = Tree.roots (Tree.sizes front) (level.nextBranch here).branches.reverse ∧
        closed.items = [] ∧
        Tree.cover here (level.nextBranch here).branches.reverse = ⟨closed.choiceStart, here⟩ ∧
        closed.choiceStart ≤ here := by
  have hbranch : level.items.reverse.map Item.tree = [level.branch here] ∨
      (level.items.reverse.map Item.tree).length ≠ 1 ∧
        level.branch here = .node .concatenation
          (Tree.cover here (level.items.reverse.map Item.tree))
          (level.items.reverse.map Item.tree) := by
    rw [Level.branch]
    by_cases hcount : (level.items.reverse.map Item.tree).length = 1
    · obtain ⟨item, hitem⟩ := List.length_eq_one_iff.mp hcount
      exact .inl (by rw [hitem]; rfl)
    · exact .inr ⟨hcount, Tree.sequence_of_length_ne_one here hcount⟩
  rw [Level.trees, ← List.append_assoc] at hstands
  have hitems := hframe.items
  rw [← Tree.sizes_append] at hitems
  refine (bundle_meets (by simp) hstands hitems (place_branch hframe) hbranch).andThen ?_
  rintro branch next ⟨hnext, rfl⟩
  refine ⟨by simpa [Level.trees, Level.nextBranch] using hnext, ?_, rfl, ?_,
    Nat.le_trans hframe.choiceStart_le hframe.branchStart_le⟩
  · simp [Level.nextBranch, Tree.roots_append, hframe.branches]
  · rw [Level.nextBranch, List.reverse_cons, Tree.cover_concat, Level.branch, Tree.span_sequence,
      hframe.cover, hframe.choiceStart]

/-- The branches of a level become its tree. -/
theorem closeFrame_meets
    (hstands : Stands task ahead number names (front ++ level.trees) builder)
    (hframe : frame.Holds (Tree.sizes front) here level) :
    (closeFrame frame here task builder).Meets (expected = .error ·) fun id next =>
      Stands task ahead number names (front ++ [level.tree here]) next ∧
        id = Tree.sizes front + (level.tree here).size - 1 := by
  refine (closeBranch_meets hstands hframe).andThen ?_
  rintro closed next ⟨hnext, hbranches, -, hcover, hle⟩
  refine bundle_meets (by simp) (by simpa [Level.trees, Level.nextBranch] using hnext) hbranches
    (span_apply hle) ?_
  rw [← hcover, Level.tree]
  by_cases hcount : (level.nextBranch here).branches.reverse.length = 1
  · obtain ⟨branch, hbranch⟩ := List.length_eq_one_iff.mp hcount
    exact .inl (by rw [hbranch]; rfl)
  · exact .inr ⟨hcount, Tree.choice_of_length_ne_one here hcount⟩

end Build

end PatternTree
