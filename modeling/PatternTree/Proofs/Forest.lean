import PatternTree.Proofs.Draft
import PatternTree.Proofs.Shift

namespace PatternTree.Tree

/-- The children of a node are the roots of its trees, at the indices that count them. -/
theorem slots_eq_map_roots (first index : Nat) (trees : List Tree) :
    slots first index trees =
      ((roots first trees).zipIdx index).map fun (child, index) => ⟨index, child⟩ := by
  induction trees generalizing first index with
  | nil => rfl
  | cons tree trees ih => rw [slots, roots, List.zipIdx_cons, List.map_cons, ih]

theorem map_child_slots (first index : Nat) (trees : List Tree) :
    (slots first index trees).map Slot.child = roots first trees := by
  induction trees generalizing first index with
  | nil => rfl
  | cons tree trees ih => rw [slots, roots, List.map_cons, ih]

@[simp] theorem length_roots (first : Nat) (trees : List Tree) :
    (roots first trees).length = trees.length := by
  induction trees generalizing first with
  | nil => rfl
  | cons tree trees ih => rw [roots, List.length_cons, ih, List.length_cons]

theorem roots_shifts (offset numbered before first : Nat) (trees : List Tree) :
    roots (before + first) (shifts offset numbered trees) =
      (roots first trees).map (before + ·) := by
  rw [← map_child_slots _ 0, slots_shifts, ← map_child_slots _ 0, List.map_map, List.map_map]
  rfl

/-- The nodes of trees that move move in the same way. -/
theorem forest_shifts (offset numbered before first : Nat) (trees : List Tree) :
    forest (before + first) (shifts offset numbered trees) =
      (forest first trees).map (Node.shift before offset numbered) := by
  induction trees generalizing first with
  | nil => rfl
  | cons tree trees ih =>
    have htree := tree.layout_shift offset numbered before first none
    rw [shifts, forest, forest, size_shift, Nat.add_assoc, ih, List.map_append, ← htree]
    rfl

theorem layouts_append (first parent index : Nat) (front back : List Tree) :
    layouts first parent index (front ++ back) = layouts first parent index front ++
      layouts (first + sizes front) parent (index + front.length) back := by
  induction front generalizing first index with
  | nil => simp [layouts, sizes]
  | cons tree front ih =>
    simp only [List.cons_append, layouts, ih, List.append_assoc, sizes, List.length_cons,
      Nat.add_assoc, Nat.add_comm 1]

/-- Roots lie among the nodes of their trees. -/
theorem of_mem_roots {first id : Nat} {trees : List Tree} (hid : id ∈ roots first trees) :
    first ≤ id ∧ id < first + sizes trees := by
  induction trees generalizing first with
  | nil => cases hid
  | cons tree trees ih =>
    have hpos := tree.size_pos
    rw [sizes]
    obtain rfl | hid := List.mem_cons.mp hid
    · omega
    · have hrest := ih hid
      omega

variable {first parent index place : Nat} {trees : List Tree}

/-- Only their roots know what trees hang below. -/
theorem getElem?_layouts (hplace : first + place ∉ roots first trees) :
    (layouts first parent index trees)[place]? = (forest first trees)[place]? := by
  induction trees generalizing first index place with
  | nil => rfl
  | cons tree trees ih =>
    rw [roots, List.mem_cons, not_or] at hplace
    have hlength := tree.length_layout first (some ⟨parent, index⟩)
    have hlength' := tree.length_layout first none
    rw [layouts, forest]
    by_cases hlt : place < tree.size
    · have hinner : place + 1 ≠ tree.size := by omega
      rw [List.getElem?_append_left (by omega), List.getElem?_append_left (by omega),
        getElem?_layout]
      simp [hinner]
    · have hrest : first + tree.size + (place - tree.size) = first + place := by omega
      rw [List.getElem?_append_right (by omega), List.getElem?_append_right (by omega), hlength,
        hlength']
      exact ih (hrest ▸ hplace.2)

/-- The roots know the index that counts them. -/
theorem getElem?_layouts_of_root {count : Nat}
    (hroot : (roots first trees)[count]? = some (first + place)) :
    (layouts first parent index trees)[place]? = ((forest first trees)[place]?).map fun node =>
      { node with attachment := some ⟨parent, index + count⟩ } := by
  induction trees generalizing first index place count with
  | nil => cases hroot
  | cons tree trees ih =>
    have hpos := tree.size_pos
    have hlength := tree.length_layout first (some ⟨parent, index⟩)
    have hlength' := tree.length_layout first none
    rw [layouts, forest]
    cases count with
    | zero =>
      have hlast : place + 1 = tree.size := by
        have hfirst : first + tree.size - 1 = first + place := by simpa [roots] using hroot
        omega
      rw [List.getElem?_append_left (by omega), List.getElem?_append_left (by omega),
        getElem?_layout]
      simp [hlast]
    | succ count =>
      have hlater : (roots (first + tree.size) trees)[count]? = some (first + place) := by
        simpa [roots] using hroot
      have hbounds := of_mem_roots (List.mem_of_getElem? hlater)
      have hrest : first + tree.size + (place - tree.size) = first + place := by omega
      rw [List.getElem?_append_right (by omega), List.getElem?_append_right (by omega), hlength,
        hlength', ih (hrest ▸ hlater), Nat.add_assoc, Nat.add_comm 1]

end PatternTree.Tree
