import PatternTree.Json.Printer
import PatternTree.Proofs.Text.Lines

namespace PatternTree

namespace Json

open Text (newline_notMem_toDigits)

/-- A code point inside a string does not end the line. -/
theorem newline_notMem_codeChars (code : Nat) : '\n' ∉ codeChars code := by
  have hdigits := newline_notMem_toDigits (by decide : 1 < 16) (by decide) code
  unfold codeChars
  split
  · decide
  · decide
  · decide
  · decide
  · decide
  · decide
  · decide
  · split
    · simp [unitEscape, Text.hexDigits, hdigits]
    next hplain =>
      rw [List.mem_singleton]
      intro heq
      have hcode : (Char.ofNat code).toNat = code ∨ (Char.ofNat code).toNat = 0 := by
        by_cases hvalid : code.isValidChar
        · left
          rw [Char.ofNat, dif_pos hvalid]
          rfl
        · right
          rw [Char.ofNat, dif_neg hvalid]
          rfl
      have hnewline : ('\n').toNat = 10 := rfl
      rw [← heq, hnewline] at hcode
      have hprinted : 32 ≤ code := by
        apply Nat.le_of_not_lt
        intro hlt
        simp [hlt] at hplain
      omega

theorem newline_notMem_stringChars (codes : List Nat) : '\n' ∉ stringChars codes := by
  simp [stringChars, newline_notMem_codeChars]

theorem newline_notMem_ofText (text : String) : '\n' ∉ (ofText text).chars :=
  newline_notMem_stringChars _

theorem newline_notMem_ofNat (number : Nat) : '\n' ∉ (ofNat number).chars := by
  simp [ofNat, chars]

theorem newline_notMem_array {items : List Json} (hitems : ∀ item ∈ items, '\n' ∉ item.chars) :
    '\n' ∉ (array items).chars := by
  have hinside : '\n' ∉ itemChars items := by
    induction items with
    | nil => simp [itemChars]
    | cons item items ih =>
      obtain ⟨hitem, hitems⟩ := List.forall_mem_cons.mp hitems
      cases items with
      | nil => simpa [itemChars] using hitem
      | cons other items => simp [itemChars, hitem, ih hitems]
  simp [chars, hinside]

theorem chars_ofMembers (members : List (String × Json)) : (ofMembers members).chars =
    '\x7b' :: memberChars (members.map fun member => (codes member.1, member.2)) ++ ['\x7d'] :=
  rfl

theorem newline_notMem_ofMembers {members : List (String × Json)}
    (hmembers : ∀ member ∈ members, '\n' ∉ member.2.chars) :
    '\n' ∉ (ofMembers members).chars := by
  have hinside :
      '\n' ∉ memberChars (members.map fun member => (codes member.1, member.2)) := by
    induction members with
    | nil => simp [memberChars]
    | cons member members ih =>
      obtain ⟨hmember, hmembers⟩ := List.forall_mem_cons.mp hmembers
      cases members with
      | nil => simp [memberChars, newline_notMem_stringChars, hmember]
      | cons other members =>
        have hothers := ih hmembers
        rw [List.map_cons] at hothers
        simp [memberChars, newline_notMem_stringChars, hmember, hothers]
  simp [chars_ofMembers, hinside]

/-- The last member of an object stands at its end. -/
theorem suffix_ofMembers_concat (members : List (String × Json)) (key : String) (value : Json) :
    stringChars (codes key) ++ ':' :: (value.chars ++ ['\x7d']) <:+
      (ofMembers (members ++ [(key, value)])).chars := by
  have hinside : stringChars (codes key) ++ ':' :: value.chars <:+
      memberChars ((members ++ [(key, value)]).map fun member => (codes member.1, member.2)) := by
    induction members with
    | nil => simp [memberChars]
    | cons member members ih =>
      obtain ⟨other, others, hothers⟩ := List.exists_cons_of_ne_nil
        (List.append_ne_nil_of_right_ne_nil members (List.cons_ne_nil (key, value) []))
      rw [hothers, List.map_cons] at ih
      rw [List.cons_append, hothers, List.map_cons, List.map_cons, memberChars]
      · exact ih.trans ((List.suffix_cons ',' _).trans (List.suffix_append _ _))
      · exact List.cons_ne_nil _ _
  obtain ⟨front, hfront⟩ := hinside
  refine ⟨'\x7b' :: front, ?_⟩
  rw [chars_ofMembers, ← hfront]
  simp

end Json

end PatternTree
