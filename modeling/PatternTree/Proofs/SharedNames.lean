import PatternTree.Proofs.References

namespace PatternTree

namespace Pattern

/-- The groups that carry a name, by their numbers and nodes. -/
def Carries (pattern : Pattern) (name : String) (number : Nat) (opened : Node) : Prop :=
  (∃ id, pattern.node? id = some opened) ∧ opened.label = .group ⟨some number, some name⟩

section Grouped

variable {tokens : List Token} {pattern : Pattern} {name : String} {number other : Nat}
  {chosen opened : Node}

/-- The table leads from the number of a group to the group that carries it. -/
theorem Grouped.groupNode?_of_carries (hgrouped : pattern.Grouped tokens)
    (hopened : pattern.Carries name number opened) :
    pattern.groupNode? number = some opened := by
  obtain ⟨⟨id, hnode⟩, hlabel⟩ := hopened
  rw [groupNode?, (hgrouped.group? number id).mpr ⟨opened, _, hnode, hlabel⟩, Option.bind_some,
    hnode]

theorem Grouped.mem_of_carries (hgrouped : pattern.Grouped tokens)
    (hopened : pattern.Carries name number opened) :
    number ∈ pattern.groups.numbersNamed name := by
  obtain ⟨⟨id, hnode⟩, hlabel⟩ := hopened
  exact (hgrouped.named name number).mpr ⟨id, opened, hnode, hlabel⟩

/-- The first number that is listed under a name is that of the group that closes first. -/
theorem Grouped.stop_lt_of_head? (hgrouped : pattern.Grouped tokens)
    (hfirst : (pattern.groups.numbersNamed name).head? = some number)
    (hchosen : pattern.Carries name number chosen) (hopened : pattern.Carries name other opened)
    (hne : other ≠ number) : chosen.span.stop < opened.span.stop := by
  obtain ⟨others, hnumbers⟩ := List.head?_eq_some_iff.mp hfirst
  have hother := hgrouped.mem_of_carries hopened
  have hstops := hgrouped.stops name
  rw [hnumbers] at hother hstops
  have hlater := (List.mem_cons.mp hother).resolve_left hne
  obtain ⟨earlier, later, hearlier, hlater, hlt⟩ := (List.pairwise_cons.mp hstops).1 other hlater
  rw [hgrouped.groupNode?_of_carries hchosen] at hearlier
  rw [hgrouped.groupNode?_of_carries hopened] at hlater
  obtain rfl := Option.some.inj hearlier
  obtain rfl := Option.some.inj hlater
  exact hlt

/-- Among groups of one name, the one that closes first has the lowest number exactly when it lies
    in no other of them. -/
theorem Grouped.isLeast_iff_of_head? (hgrouped : pattern.Grouped tokens)
    (hfirst : (pattern.groups.numbersNamed name).head? = some number)
    (hchosen : pattern.Carries name number chosen) :
    (∀ other opened, pattern.Carries name other opened → number ≤ other) ↔
      ∀ other opened, pattern.Carries name other opened → other ≠ number →
        opened.span.contains chosen.span = false := by
  have hstart : ∀ {low high lower higher}, low < high → pattern.Carries name low lower →
      pattern.Carries name high higher → lower.span.start < higher.span.start :=
    fun hlt hlower hhigher => hgrouped.starts hlt (hgrouped.groupNode?_of_carries hlower)
      (hgrouped.groupNode?_of_carries hhigher)
  constructor
  · intro hlowest other opened hopened hne
    have hlt := hstart (Nat.lt_of_le_of_ne (hlowest other opened hopened) hne.symm) hchosen hopened
    rw [Span.contains, decide_eq_false (Nat.not_le.mpr hlt), Bool.false_and]
  · intro houtside other opened hopened
    apply Nat.le_of_not_lt
    intro hlower
    -- a lower number opens first, and what closes first lies in everything open around it
    have hlt := hstart hlower hopened hchosen
    have hstop := hgrouped.stop_lt_of_head? hfirst hchosen hopened (Nat.ne_of_lt hlower)
    have hcontains := houtside other opened hopened (Nat.ne_of_lt hlower)
    rw [Span.contains, decide_eq_true (Nat.le_of_lt hlt), decide_eq_true (Nat.le_of_lt hstop)]
      at hcontains
    cases hcontains

end Grouped

variable {dialect : Dialect} {source : String} {pattern : Pattern} {id number : Nat} {node : Node}
  {name : String}

/-- A reference by name has the number of the group that closes first among those that carry the
    name. It is the lowest of their numbers only where that group lies in no other of them. -/
theorem parse_shared_name (hparse : parse dialect source = .ok pattern)
    (hnode : pattern.node? id = some node)
    (hlabel : node.label = .namedBackreference name (some number) true) :
    ∃ chosen, pattern.Carries name number chosen ∧
      (∀ other opened, pattern.Carries name other opened → other ≠ number →
        chosen.span.stop < opened.span.stop) ∧
      ((∀ other opened, pattern.Carries name other opened → number ≤ other) ↔
        ∀ other opened, pattern.Carries name other opened → other ≠ number →
          opened.span.contains chosen.span = false) := by
  obtain ⟨choice, hderives, rfl⟩ := parse_eq_ok_iff.mp hparse
  have hgrouped := grouped_of_derives hderives
  obtain ⟨label, hresolve⟩ := exists_resolve_eq_of_node hnode
  obtain ⟨-, hfirst, -⟩ :=
    GroupTable.resolve_eq_namedBackreference_iff.mp (hresolve.trans hlabel)
  obtain ⟨id', chosen, hnode', hlabel'⟩ :=
    (hgrouped.named name number).mp (List.mem_of_head? hfirst.symm)
  have hchosen : Carries _ name number chosen := ⟨⟨id', hnode'⟩, hlabel'⟩
  refine ⟨chosen, hchosen, ?_, hgrouped.isLeast_iff_of_head? hfirst.symm hchosen⟩
  intro other opened hopened hne
  exact hgrouped.stop_lt_of_head? hfirst.symm hchosen hopened hne

/-- Of three groups with the name the second one closes first. The reference stands before all. -/
theorem parse_shared_name_forward : ∃ pattern node chosen,
    parse { allowDuplicateNames := true } "\\k<n>(?<n>(?<n>a)|(?<n>b))" = .ok pattern ∧
      pattern.node? 0 = some node ∧ node.label = .namedBackreference "n" (some 2) true ∧
        pattern.Carries "n" 2 chosen ∧
        (∀ other opened, pattern.Carries "n" other opened → other ≠ 2 →
          chosen.span.stop < opened.span.stop) ∧
        ((∀ other opened, pattern.Carries "n" other opened → 2 ≤ other) ↔
          ∀ other opened, pattern.Carries "n" other opened → other ≠ 2 →
            opened.span.contains chosen.span = false) := by
  obtain ⟨pattern, hparse⟩ := exists_parse_eq_ok { allowDuplicateNames := true }
    "\\k<n>(?<n>(?<n>a)|(?<n>b))" (by decide +kernel)
  have hvalue : (parse { allowDuplicateNames := true } "\\k<n>(?<n>(?<n>a)|(?<n>b))").toOption.bind
      (fun pattern => (pattern.node? 0).map Node.label) =
        some (.namedBackreference "n" (some 2) true) := by
    decide +kernel
  rw [hparse] at hvalue
  obtain ⟨node, hnode, hlabel⟩ := Option.map_eq_some_iff.mp hvalue
  obtain ⟨chosen, hchosen⟩ := parse_shared_name hparse hnode hlabel
  exact ⟨pattern, node, chosen, hparse, hnode, hlabel, hchosen⟩

/-- A group inside another one of its name closes first, and a reference has its number although
    the other one has a lower number. -/
theorem exists_shared_name_not_lowest : ∃ pattern node opened,
    parse { allowDuplicateNames := true } "(?<n>a(?<n>b))\\k<n>" = .ok pattern ∧
      pattern.node? 5 = some node ∧ node.label = .namedBackreference "n" (some 2) true ∧
        pattern.Carries "n" 1 opened := by
  obtain ⟨pattern, hparse⟩ := exists_parse_eq_ok { allowDuplicateNames := true }
    "(?<n>a(?<n>b))\\k<n>" (by decide +kernel)
  have hlabels : (parse { allowDuplicateNames := true } "(?<n>a(?<n>b))\\k<n>").toOption.map
      (fun pattern => ((pattern.node? 4).map Node.label, (pattern.node? 5).map Node.label)) =
        some (some (.group ⟨some 1, some "n"⟩), some (.namedBackreference "n" (some 2) true)) := by
    decide +kernel
  rw [hparse] at hlabels
  obtain ⟨hopened, hreference⟩ := Prod.mk.inj (Option.some.inj hlabels)
  obtain ⟨opened, hopened, hgroup⟩ := Option.map_eq_some_iff.mp hopened
  obtain ⟨node, hnode, hlabel⟩ := Option.map_eq_some_iff.mp hreference
  exact ⟨pattern, node, opened, hparse, hnode, hlabel, ⟨4, hopened⟩, hgroup⟩

end Pattern

end PatternTree
