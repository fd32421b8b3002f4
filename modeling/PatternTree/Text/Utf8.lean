namespace PatternTree.Text

/-- The number of bytes that a text takes in UTF-8. All places in a pattern are counted in
    these bytes. -/
def utf8Size : List Char → Nat
  | [] => 0
  | char :: chars => char.utf8Size + utf8Size chars

@[simp] theorem utf8Size_append (front back : List Char) :
    utf8Size (front ++ back) = utf8Size front + utf8Size back := by
  induction front with
  | nil => simp [utf8Size]
  | cons char chars ih => simp [utf8Size, ih, Nat.add_assoc]

/-- A text takes at least one byte for each of its characters. -/
theorem length_le_utf8Size (chars : List Char) : chars.length ≤ utf8Size chars := by
  induction chars with
  | nil => simp [utf8Size]
  | cons char chars ih =>
    have := char.utf8Size_pos
    simp only [utf8Size, List.length_cons]
    omega

/-- What is left after the first `count` bytes. There is none where the text is shorter and
    where the cut would fall inside a character. -/
def dropBytes? : Nat → List Char → Option (List Char)
  | 0, chars => some chars
  | _ + 1, [] => none
  | count + 1, char :: chars =>
    if char.utf8Size ≤ count + 1 then dropBytes? (count + 1 - char.utf8Size) chars else none

/-- The first `count` bytes. There are none where the text is shorter and where the cut
    would fall inside a character. -/
def takeBytes? : Nat → List Char → Option (List Char)
  | 0, _ => some []
  | _ + 1, [] => none
  | count + 1, char :: chars =>
    if char.utf8Size ≤ count + 1 then
      (takeBytes? (count + 1 - char.utf8Size) chars).map (char :: ·)
    else none

/-- The text between two byte offsets. Offsets out of order, past the end or inside a
    character delimit nothing. -/
def slice? (start stop : Nat) (chars : List Char) : Option (List Char) :=
  if start ≤ stop then (dropBytes? start chars).bind (takeBytes? (stop - start)) else none

theorem dropBytes?_utf8Size (front back : List Char) :
    dropBytes? (utf8Size front) (front ++ back) = some back := by
  induction front with
  | nil => simp [utf8Size, dropBytes?]
  | cons char chars ih =>
    obtain ⟨count, hcount⟩ := Nat.exists_eq_succ_of_ne_zero (n := char.utf8Size + utf8Size chars)
      (by have := char.utf8Size_pos; omega)
    simp only [utf8Size, List.cons_append, hcount, Nat.succ_eq_add_one, dropBytes?]
    rw [if_pos (by omega), show count + 1 - char.utf8Size = utf8Size chars by omega, ih]

theorem takeBytes?_utf8Size (front back : List Char) :
    takeBytes? (utf8Size front) (front ++ back) = some front := by
  induction front with
  | nil => simp [utf8Size, takeBytes?]
  | cons char chars ih =>
    obtain ⟨count, hcount⟩ := Nat.exists_eq_succ_of_ne_zero (n := char.utf8Size + utf8Size chars)
      (by have := char.utf8Size_pos; omega)
    simp only [utf8Size, List.cons_append, hcount, Nat.succ_eq_add_one, takeBytes?]
    rw [if_pos (by omega), show count + 1 - char.utf8Size = utf8Size chars by omega, ih,
      Option.map_some]

/-- The offsets around a piece of a text delimit exactly that piece. -/
theorem slice?_middle (front middle back : List Char) :
    slice? (utf8Size front) (utf8Size front + utf8Size middle) (front ++ middle ++ back) =
      some middle := by
  rw [slice?, if_pos (Nat.le_add_right _ _), List.append_assoc, dropBytes?_utf8Size,
    Option.bind_some, Nat.add_sub_cancel_left, takeBytes?_utf8Size]

end PatternTree.Text
