import Mathlib.Order.Bounds.Defs
import PatternTree.Proofs.Grammar.Depths
import PatternTree.Proofs.Relaxation
import PatternTree.Proofs.Token.Tiles

namespace PatternTree

namespace Pattern

/-- Nodes that go down from a node, each of them a child of the one before it. -/
structure IsPath (pattern : Pattern) (top : Nat) (path : List Nat) : Prop where
  head : path.head? = some top
  chain : path.IsChain fun parent child => child ∈ pattern.childrenOf parent

/-- Whether a node is a group. -/
def isGroup (pattern : Pattern) (id : Nat) : Bool :=
  (pattern.node? id).any (·.label.isGroup)

/-- Below a node a group starts at an offset, with a number of groups above it on the way there. -/
def HasGroup (pattern : Pattern) (top above start : Nat) : Prop :=
  ∃ path id node, pattern.IsPath top (path ++ [id]) ∧ path.countP pattern.isGroup = above ∧
    pattern.node? id = some node ∧ node.label.isGroup ∧ node.span.start = start

variable {pattern : Pattern} {top above start count : Nat} {path : List Nat}

theorem isPath_singleton (pattern : Pattern) (top : Nat) : pattern.IsPath top [top] :=
  ⟨rfl, List.isChain_singleton top⟩

/-- A path of several nodes goes on from a child. -/
theorem isPath_cons_cons_iff {first second : Nat} :
    pattern.IsPath top (first :: second :: path) ↔
      first = top ∧ second ∈ pattern.childrenOf top ∧ pattern.IsPath second (second :: path) := by
  constructor
  · rintro ⟨hhead, hchain⟩
    obtain rfl : first = top := by simpa using hhead
    obtain ⟨hchild, hchain⟩ := List.isChain_cons_cons.mp hchain
    exact ⟨rfl, hchild, rfl, hchain⟩
  · rintro ⟨rfl, hchild, -, hchain⟩
    exact ⟨rfl, List.isChain_cons_cons.mpr ⟨hchild, hchain⟩⟩

/-- A group below a node is the node itself or below one of its children. -/
theorem hasGroup_iff :
    pattern.HasGroup top above start ↔
      (above = 0 ∧ ∃ node, pattern.node? top = some node ∧ node.label.isGroup ∧
        node.span.start = start) ∨
      ∃ child ∈ pattern.childrenOf top, ∃ below,
        above = below + (if pattern.isGroup top then 1 else 0) ∧
          pattern.HasGroup child below start := by
  constructor
  · rintro ⟨path, id, node, hpath, rfl, hnode⟩
    match path with
    | [] =>
      obtain rfl : id = top := by simpa using hpath.head
      exact .inl ⟨rfl, node, hnode⟩
    | [first] =>
      obtain ⟨rfl, hchild, hpath⟩ := isPath_cons_cons_iff.mp hpath
      refine .inr ⟨id, hchild, 0, ?_, [], id, node, hpath, rfl, hnode⟩
      simp [List.countP_cons]
    | first :: second :: others =>
      obtain ⟨rfl, hchild, hpath⟩ := isPath_cons_cons_iff.mp hpath
      refine .inr ⟨second, hchild, _, ?_, second :: others, id, node, hpath, rfl, hnode⟩
      rw [List.countP_cons]
  · rintro (⟨rfl, node, hnode⟩ | ⟨child, hchild, below, rfl, path, id, node, hpath, rfl, hnode⟩)
    · exact ⟨[], top, node, isPath_singleton pattern top, rfl, hnode⟩
    · refine ⟨top :: path, id, node, ?_, by rw [List.countP_cons], hnode⟩
      obtain ⟨second, others, hcons⟩ : ∃ second others, path ++ [id] = second :: others :=
        List.exists_cons_of_ne_nil (by simp)
      rw [List.cons_append, hcons]
      rw [hcons] at hpath
      obtain rfl : second = child := by simpa using hpath.head
      exact isPath_cons_cons_iff.mpr ⟨rfl, hchild, hpath⟩

/-- The last group of a path with groups has the others above it. -/
theorem IsPath.exists_hasGroup (hpath : pattern.IsPath top path)
    (hcount : path.countP pattern.isGroup = count + 1) :
    ∃ start, pattern.HasGroup top count start := by
  induction path generalizing top count with
  | nil => cases hcount
  | cons first path ih =>
    obtain rfl : first = top := by simpa using hpath.head
    rw [List.countP_cons] at hcount
    by_cases hothers : path.countP pattern.isGroup = 0
    · have hgroup : pattern.isGroup first := by
        by_contra hgroup
        simp [hothers, hgroup] at hcount
      obtain ⟨node, hnode, hlabel⟩ := (Option.any_eq_true _ _).mp hgroup
      obtain rfl : count = 0 := by simpa [hothers, hgroup] using hcount.symm
      exact ⟨_, hasGroup_iff.mpr (.inl ⟨rfl, node, hnode, hlabel, rfl⟩)⟩
    · cases path with
      | nil => exact absurd rfl hothers
      | cons second others =>
        obtain ⟨-, hchild, hpath⟩ := isPath_cons_cons_iff.mp hpath
        obtain ⟨below, hbelow⟩ := Nat.exists_eq_succ_of_ne_zero hothers
        obtain ⟨start, hstart⟩ := ih hpath hbelow
        refine ⟨start, hasGroup_iff.mpr (.inr ⟨second, hchild, below, ?_, hstart⟩)⟩
        omega

end Pattern

namespace Tree

section

variable {pattern : Pattern} {table : GroupTable} {nodes : List Node} {start count : Nat}

mutual

/-- The groups of a tree are those below the node at which the tree lies. -/
theorem mem_depths_iff_of_lies (hnodes : pattern.nodes.toList = nodes.map table.settle)
    {first depth : Nat} {attachment : Option Attachment} (tree : Tree)
    (hlies : Lies nodes first (tree.layout first attachment)) :
    (start, count) ∈ tree.depths depth ↔
      ∃ above, count = depth + above ∧ pattern.HasGroup (first + tree.size - 1) above start := by
  cases tree with
  | node label span children =>
    have hnode := node?_of_lies hnodes hlies
    have hgroup : pattern.isGroup (first + sizes children) = label.isGroup := by
      rw [Pattern.isGroup, hnode]
      exact Label.isGroup_resolve table label
    have hchildren : pattern.childrenOf (first + sizes children) =
        (slots first 0 children).map Slot.child := by
      rw [Pattern.childrenOf, hnode]
      rfl
    have hroot : first + (sizes children + 1) - 1 = first + sizes children := by omega
    rw [layout] at hlies
    rw [size, hroot, depths, List.mem_append,
      mem_depthsIn_iff_of_lies hnodes children hlies.left]
    constructor
    · rintro (hmem | ⟨child, hchild, below, hcount, hbelow⟩)
      · cases hlabel : label.isGroup with
        | false => simp [hlabel] at hmem
        | true =>
          obtain ⟨rfl, rfl⟩ : start = span.start ∧ count = depth := by simpa [hlabel] using hmem
          exact ⟨0, rfl, Pattern.hasGroup_iff.mpr
            (.inl ⟨rfl, _, hnode, by rwa [Label.isGroup_resolve], rfl⟩)⟩
      · refine ⟨below + if label.isGroup then 1 else 0, by omega, Pattern.hasGroup_iff.mpr
          (.inr ⟨child, ?_, below, ?_, hbelow⟩)⟩
        · rwa [hchildren]
        · rw [hgroup]
    · rintro ⟨above, rfl, habove⟩
      obtain ⟨rfl, node, hnode', hlabel, rfl⟩ | ⟨child, hchild, below, rfl, hbelow⟩ :=
        Pattern.hasGroup_iff.mp habove
      · obtain rfl := Option.some.inj (hnode.symm.trans hnode')
        rw [Label.isGroup_resolve] at hlabel
        exact .inl (by simp [hlabel])
      · rw [hchildren] at hchild
        rw [hgroup]
        exact .inr ⟨child, hchild, below, by omega, hbelow⟩

theorem mem_depthsIn_iff_of_lies (hnodes : pattern.nodes.toList = nodes.map table.settle)
    {first depth parent index : Nat} (trees : List Tree)
    (hlies : Lies nodes first (layouts first parent index trees)) :
    (start, count) ∈ depthsIn depth trees ↔
      ∃ child ∈ (slots first index trees).map Slot.child, ∃ above,
        count = depth + above ∧ pattern.HasGroup child above start := by
  cases trees with
  | nil => simp [depthsIn, slots]
  | cons tree trees =>
    rw [layouts] at hlies
    have hothers := hlies.right
    rw [length_layout] at hothers
    rw [depthsIn, List.mem_append, slots, List.map_cons, List.exists_mem_cons_iff,
      mem_depths_iff_of_lies hnodes tree hlies.left, mem_depthsIn_iff_of_lies hnodes trees hothers]

end

end

/-- The groups of a whole tree are those below the root of its pattern. -/
theorem mem_depths_iff (source : String) (tree : Tree) {start count : Nat} :
    (start, count) ∈ tree.depths 0 ↔
      (Pattern.ofTree source tree).HasGroup (Pattern.ofTree source tree).root count start := by
  rw [Pattern.root_ofTree, mem_depths_iff_of_lies (Pattern.nodes_ofTree source tree) tree
    (.whole _)]
  simp

end Tree

namespace Token

variable {depth limit : Nat} {tokens : List Token}

/-- The first group that as many others as a limit are open at has exactly so many around it. -/
theorem eq_of_find?_depths (hdepth : depth ≤ limit) {start count : Nat}
    (hfind : (depths depth tokens).find? (limit ≤ ·.2) = some (start, count)) : count = limit := by
  induction tokens generalizing depth with
  | nil => cases hfind
  | cons token tokens ih =>
    rw [depths, List.find?_append] at hfind
    cases hrole : token.role with
    | opener opener =>
      by_cases hfull : limit ≤ depth
      · obtain ⟨-, rfl⟩ : token.span.start = start ∧ depth = count := by
          simpa [hrole, TokenRole.isOpener, hfull] using hfind
        omega
      · refine ih (by omega : depth + 1 ≤ limit) ?_
        simpa [hrole, TokenRole.isOpener, hfull, TokenRole.depthAfter] using hfind
    | closer =>
      refine ih (by omega : depth - 1 ≤ limit) ?_
      simpa [hrole, TokenRole.isOpener, TokenRole.depthAfter] using hfind
    | _ =>
      apply ih hdepth
      simpa [hrole, TokenRole.isOpener, TokenRole.depthAfter] using hfind

theorem exists_mem_of_mem_depths {opened : Nat × Nat} (hopened : opened ∈ depths depth tokens) :
    ∃ token ∈ tokens, opened.1 = token.span.start := by
  induction tokens generalizing depth with
  | nil => cases hopened
  | cons token tokens ih =>
    rw [depths, List.mem_append] at hopened
    obtain hfirst | hopened := hopened
    · split at hfirst
      · obtain rfl := List.mem_singleton.mp hfirst
        exact ⟨token, List.mem_cons_self, rfl⟩
      · cases hfirst
    · obtain ⟨later, hlater, hstart⟩ := ih hopened
      exact ⟨later, List.mem_cons_of_mem _ hlater, hstart⟩

/-- Groups open in the order of their starts when tokens do. -/
theorem pairwise_depths (htokens : tokens.Pairwise (·.span.start ≤ ·.span.start)) :
    (depths depth tokens).Pairwise (·.1 ≤ ·.1) := by
  induction htokens generalizing depth with
  | nil => exact .nil
  | @cons token tokens hfirst _ ih =>
    rw [depths, List.pairwise_append]
    refine ⟨?_, ih, ?_⟩
    · split
      · exact List.pairwise_singleton _ _
      · exact .nil
    · intro opened hopened later hlater
      obtain ⟨other, hother, hstart⟩ := exists_mem_of_mem_depths hlater
      split at hopened
      · obtain rfl := List.mem_singleton.mp hopened
        rw [hstart]
        exact hfirst other hother
      · cases hopened

/-- Of groups in the order of their starts the first one that stands in as many others as a limit
    says starts first. -/
theorem isLeast_of_find?_eq_some {opened : List (Nat × Nat)} {start : Nat}
    (hsorted : opened.Pairwise (·.1 ≤ ·.1))
    (hfind : opened.find? (limit ≤ ·.2) = some (start, limit)) :
    IsLeast {start | (start, limit) ∈ opened} start := by
  obtain ⟨-, earlier, later, rfl, hearlier⟩ := List.find?_eq_some_iff_append.mp hfind
  refine ⟨List.mem_append_right _ List.mem_cons_self, fun other hother => ?_⟩
  obtain hother | hother := List.mem_append.mp hother
  · simpa using hearlier _ hother
  · obtain heq | hother := List.mem_cons.mp hother
    · exact Nat.le_of_eq (congrArg Prod.fst heq).symm
    · exact (List.pairwise_cons.mp (List.pairwise_append.mp hsorted).2.1).1 _ hother

end Token

/-- The groups of a derivation open in the order of their starts. -/
theorem Dialect.Derives.pairwise_depths {dialect : Dialect} {chars : List Char} {choice : Choice}
    (hderives : dialect.Derives chars choice) :
    ((choice.tree 0 0).depths 0).Pairwise (·.1 ≤ ·.1) := by
  rw [choice.depths_tree]
  apply Token.pairwise_depths
  refine (Lexeme.pairwise_place 0 choice.lexemes).imp_of_mem fun hfirst _ hle => ?_
  exact Nat.le_trans (Nat.le_of_lt (hderives.reads.start_lt_stop_of_mem hfirst)) hle

namespace ParseState

variable {dialect : Dialect} {state next : ParseState} {token : Token} {tokens : List Token}

/-- With another limit of depth a token is taken in like before, unless it opens a group for which
    there is no room. -/
theorem step_maxDepth (hstep : state.step dialect token = .ok next) (limit : Nat) :
    state.step { dialect with maxDepth := limit } token =
      if token.role.isOpener ∧ limit ≤ state.openGroups.length then .error (.tooDeep limit)
      else .ok next := by
  simp only [step] at hstep ⊢
  cases hrole : token.role with
  | opener opener =>
    simp only [hrole, openGroup] at hstep ⊢
    by_cases hfull : limit ≤ state.openGroups.length
    · rw [if_pos hfull, if_pos ⟨rfl, hfull⟩]
    · have hroom : ¬ ((TokenRole.opener opener).isOpener ∧ limit ≤ state.openGroups.length) :=
        fun hboth => hfull hboth.2
      rw [if_neg hfull, if_neg hroom]
      split at hstep
      · cases hstep
      · exact hstep
  | _ =>
    simp only [hrole, TokenRole.isOpener, Bool.false_eq_true, false_and, if_false] at hstep ⊢
    exact hstep

/-- With another limit of depth tokens are taken in like before up to the first group that there is
    no room for. -/
theorem run_maxDepth (hrun : state.run dialect tokens = .ok next) (limit : Nat) :
    state.run { dialect with maxDepth := limit } tokens =
      match (Token.depths state.openGroups.length tokens).find? (limit ≤ ·.2) with
      | none => .ok next
      | some (start, _) => .error ⟨.tooDeep limit, start⟩ := by
  induction tokens generalizing state with
  | nil => exact hrun
  | cons token tokens ih =>
    obtain ⟨middle, hstep, hrun⟩ := run_cons_eq_ok_iff.mp hrun
    rw [run, step_maxDepth hstep, Token.depths, List.find?_append]
    by_cases hfull : token.role.isOpener ∧ limit ≤ state.openGroups.length
    · simp [hfull]
    · have hnone : (if token.role.isOpener then [(token.span.start, state.openGroups.length)]
          else []).find? (limit ≤ ·.2) = none := by
        split
        next hopener => simpa using fun hle => hfull ⟨hopener, hle⟩
        · rfl
      rw [if_neg hfull, hnone, Option.none_or, ← length_openGroups_of_step hstep]
      exact ih hrun

end ParseState

namespace Tree

variable {dialect : Dialect} {chars : List Char} {tree : Tree}

/-- With another limit of depth a text makes the same tree, unless there is a group that there is no
    room for. -/
theorem ofText_maxDepth (hread : ofText dialect chars = .ok tree) (limit : Nat) :
    ofText { dialect with maxDepth := limit } chars =
      match (Token.depths 0 (Scan.ofText dialect.classSyntax 0 chars).tokens).find?
        (limit ≤ ·.2) with
      | none => .ok tree
      | some (start, _) => .error (.structural ⟨.tooDeep limit, start⟩) := by
  simp only [ofText, ofTokens] at hread ⊢
  cases hrun : ParseState.run dialect {} (Scan.ofText dialect.classSyntax 0 chars).tokens with
  | error error =>
    rw [hrun] at hread
    split at hread <;> cases hread
  | ok state =>
    have hother := ParseState.run_maxDepth hrun limit
    have houtermost : ({} : ParseState).openGroups.length = 0 := rfl
    rw [houtermost] at hother
    rw [hrun] at hread
    rw [hother]
    split at hread
    next hnone =>
      cases (Token.depths 0 (Scan.ofText dialect.classSyntax 0 chars).tokens).find?
        (limit ≤ ·.2) with
      | none => exact hread
      | some opened => rfl
    · cases hread

end Tree

namespace Pattern

variable {dialect : Dialect} {source : String} {pattern : Pattern}

/-- Some limit is the least one that lies above all of a number of depths. -/
theorem exists_limit (opened : List (Nat × Nat)) :
    ∃ height, ∀ limit, height ≤ limit ↔ ∀ group ∈ opened, group.2 < limit := by
  induction opened with
  | nil => exact ⟨0, by simp⟩
  | cons group opened ih =>
    obtain ⟨height, hheight⟩ := ih
    refine ⟨max (group.2 + 1) height, fun limit => ?_⟩
    rw [Nat.max_le, hheight, List.forall_mem_cons, Nat.succ_le_iff]

/-- The largest number of groups on a path from the root is the least limit above the depths of all
    groups. -/
theorem exists_isGreatest (source : String) (tree : Tree) :
    ∃ height, IsGreatest {count | ∃ path,
        (ofTree source tree).IsPath (ofTree source tree).root path ∧
          path.countP (ofTree source tree).isGroup = count} height ∧
      ∀ limit, height ≤ limit ↔ ∀ group ∈ tree.depths 0, group.2 < limit := by
  obtain ⟨height, hheight⟩ := exists_limit (tree.depths 0)
  have hbelow : ∀ path, (ofTree source tree).IsPath (ofTree source tree).root path →
      path.countP (ofTree source tree).isGroup ≤ height := by
    intro path hpath
    cases hcount : path.countP (ofTree source tree).isGroup with
    | zero => exact Nat.zero_le height
    | succ count =>
      obtain ⟨start, hgroup⟩ := hpath.exists_hasGroup hcount
      exact (hheight height).mp (Nat.le_refl height) _ ((tree.mem_depths_iff source).mpr hgroup)
  refine ⟨height, ⟨?_, ?_⟩, hheight⟩
  · cases height with
    | zero =>
      have hroot := isPath_singleton (ofTree source tree) (ofTree source tree).root
      exact ⟨_, hroot, Nat.le_zero.mp (hbelow _ hroot)⟩
    | succ depth =>
      obtain ⟨⟨start, count⟩, hmem, hcount⟩ : ∃ group ∈ tree.depths 0, ¬ group.2 < depth := by
        by_contra hnone
        have hle := (hheight depth).mpr fun group hgroup => by
          by_contra hlarge
          exact hnone ⟨group, hgroup, hlarge⟩
        omega
      have hlt : count < depth + 1 := (hheight (depth + 1)).mp (Nat.le_refl _) _ hmem
      obtain ⟨path, id, node, hpath, habove, hnode, hlabel, -⟩ :=
        (tree.mem_depths_iff source).mp hmem
      have hgroup : (ofTree source tree).isGroup id := by
        rw [isGroup, hnode]
        exact hlabel
      refine ⟨_, hpath, ?_⟩
      rw [List.countP_append, habove, List.countP_singleton, if_pos hgroup]
      omega
  · rintro count ⟨path, hpath, rfl⟩
    exact hbelow path hpath

/-- A pattern is read with another limit of depth exactly where no path from the root has more
    groups on it than that. -/
theorem parse_maxDepth_eq_iff (hparse : parse dialect source = .ok pattern) {limit : Nat} :
    parse { dialect with maxDepth := limit } source = .ok pattern ↔
      ∀ path, pattern.IsPath pattern.root path → path.countP pattern.isGroup ≤ limit := by
  obtain ⟨choice, hderives, rfl⟩ := parse_eq_ok_iff.mp hparse
  obtain ⟨height, ⟨⟨path, hpath, hcount⟩, hbelow⟩, hheight⟩ :=
    exists_isGreatest source (choice.tree 0 0)
  have hdepths : Token.depths 0 (Scan.ofText dialect.classSyntax 0 source.toList).tokens =
      (choice.tree 0 0).depths 0 := by
    rw [hderives.scan_eq, choice.depths_tree]
    rfl
  have hread := Tree.ofText_maxDepth hderives.ofText_eq limit
  rw [hdepths] at hread
  rw [parse, hread]
  constructor
  · intro hsame path hpath
    have hnone : ((choice.tree 0 0).depths 0).find? (limit ≤ ·.2) = none := by
      cases hfind : ((choice.tree 0 0).depths 0).find? (limit ≤ ·.2) with
      | none => rfl
      | some opened =>
        rw [hfind] at hsame
        cases hsame
    exact Nat.le_trans (hbelow ⟨path, hpath, rfl⟩) ((hheight limit).mpr (by simpa using hnone))
  · intro hpaths
    have hnone : ((choice.tree 0 0).depths 0).find? (limit ≤ ·.2) = none := by
      simpa using (hheight limit).mp (hcount ▸ hpaths path hpath)
    rw [hnone]
    rfl

/-- A dialect that allows more changes nothing of what is read. A pattern is also read with another
    limit of depth exactly where that is not below the largest number of groups on a path from the
    root, and else it is reported at the first group that stands in as many others as the limit
    says. An error that is none of depth stays with a higher limit, and one that is none of a name
    that is used twice stays where names may be shared. -/
theorem parse_relaxes (dialect : Dialect) (source : String) :
    (∀ pattern, parse dialect source = .ok pattern →
      ∃ height, IsGreatest {count | ∃ path, pattern.IsPath pattern.root path ∧
          path.countP pattern.isGroup = count} height ∧
        ∀ limit,
          (parse { dialect with maxDepth := limit } source = .ok pattern ↔ height ≤ limit) ∧
          (limit < height →
            ∃ start, IsLeast {start | pattern.HasGroup pattern.root limit start} start ∧
              parse { dialect with maxDepth := limit } source =
                .error (.structural ⟨.tooDeep limit, start⟩))) ∧
    ((∀ error, parse dialect source = .error (.structural error) →
        error.cause.family ≠ .maxDepthExceeded) →
      ∀ limit, dialect.maxDepth ≤ limit →
        parse { dialect with maxDepth := limit } source = parse dialect source) ∧
    ((∀ error, parse dialect source = .error (.structural error) →
        error.cause.family ≠ .duplicateGroupName) →
      parse { dialect with allowDuplicateNames := true } source = parse dialect source) := by
  refine ⟨?_, fun hother limit hlimit => (Dialect.relaxedTo_maxDepth hlimit).parse_eq hother,
    Dialect.relaxedTo_allowDuplicateNames.parse_eq⟩
  intro pattern hparse
  obtain ⟨choice, hderives, rfl⟩ := parse_eq_ok_iff.mp hparse
  obtain ⟨height, hgreatest, hheight⟩ := exists_isGreatest source (choice.tree 0 0)
  have hdepths : Token.depths 0 (Scan.ofText dialect.classSyntax 0 source.toList).tokens =
      (choice.tree 0 0).depths 0 := by
    rw [hderives.scan_eq, choice.depths_tree]
    rfl
  refine ⟨height, hgreatest, fun limit => ?_⟩
  have hread := Tree.ofText_maxDepth hderives.ofText_eq limit
  rw [hdepths] at hread
  rw [parse, hread, hheight]
  cases hfind : ((choice.tree 0 0).depths 0).find? (limit ≤ ·.2) with
  | none =>
    have hbelow : ∀ group ∈ (choice.tree 0 0).depths 0, group.2 < limit := by
      simpa using List.find?_eq_none.mp hfind
    refine ⟨⟨fun _ => hbelow, fun _ => rfl⟩, fun hlt => ?_⟩
    exact absurd ((hheight limit).mpr hbelow) (Nat.not_le_of_lt hlt)
  | some opened =>
    obtain ⟨start, count⟩ := opened
    obtain rfl : count = limit := by
      rw [← hdepths] at hfind
      exact Token.eq_of_find?_depths (Nat.zero_le limit) hfind
    have hleast := Token.isLeast_of_find?_eq_some hderives.pairwise_depths hfind
    have hgroups : {start | (start, count) ∈ (choice.tree 0 0).depths 0} =
        {start | (ofTree source (choice.tree 0 0)).HasGroup
          (ofTree source (choice.tree 0 0)).root count start} :=
      Set.ext fun start => Tree.mem_depths_iff source (choice.tree 0 0)
    rw [← hgroups]
    refine ⟨⟨fun hsame => ?_, fun hbelow => ?_⟩, fun _ => ⟨start, hleast, rfl⟩⟩
    · cases hsame
    · exact absurd (hbelow _ hleast.1) (Nat.lt_irrefl _)

/-- The group that stands in another one is too deep where groups stand in none. It has no name, so
    names do not matter. -/
theorem parse_relaxes_inner_group :
    ∃ pattern, parse {} "(c)((a)b)" = .ok pattern ∧
      parse { maxDepth := 2 } "(c)((a)b)" = .ok pattern ∧
      parse { maxDepth := 2000 } "(c)((a)b)" = .ok pattern ∧
      parse { allowDuplicateNames := true } "(c)((a)b)" = .ok pattern ∧
      parse { maxDepth := 1 } "(c)((a)b)" = .error (.structural ⟨.tooDeep 1, 4⟩) ∧
      IsLeast {start | pattern.HasGroup pattern.root 1 start} 4 := by
  obtain ⟨pattern, hparse⟩ := exists_parse_eq_ok {} "(c)((a)b)" (by decide +kernel)
  obtain ⟨hlimits, hdeeper, hshared⟩ := parse_relaxes {} "(c)((a)b)"
  have hnone : ∀ error, parse {} "(c)((a)b)" ≠ .error (.structural error) := by
    intro error herror
    cases hparse.symm.trans herror
  obtain ⟨height, -, hheight⟩ := hlimits pattern hparse
  have htwo : height ≤ 2 := by
    obtain ⟨other, hother⟩ := exists_parse_eq_ok { maxDepth := 2 } "(c)((a)b)" (by decide +kernel)
    by_contra hlow
    obtain ⟨start, -, herror⟩ := (hheight 2).2 (Nat.lt_of_not_le hlow)
    cases hother.symm.trans herror
  have hone : ¬ height ≤ 1 := by
    intro hle
    have hsome : (parse { maxDepth := 1 } "(c)((a)b)").toOption.isSome := by
      rw [(hheight 1).1.mpr hle]
      rfl
    revert hsome
    decide +kernel
  obtain ⟨start, hleast, herror⟩ := (hheight 1).2 (Nat.lt_of_not_le hone)
  have hstart : ((parse { maxDepth := 1 } "(c)((a)b)").mapError PatternError.offset).map
      (fun _ => ()) = .error 4 := by
    decide +kernel
  rw [herror] at hstart
  obtain rfl : start = 4 := Except.error.inj hstart
  refine ⟨pattern, hparse, (hheight 2).1.mpr htwo, ?_, ?_, herror, hleast⟩
  · rw [hdeeper (fun error herror => absurd herror (hnone error)) 2000 (by decide), hparse]
  · rw [hshared fun error herror => absurd herror (hnone error), hparse]

end Pattern

end PatternTree
