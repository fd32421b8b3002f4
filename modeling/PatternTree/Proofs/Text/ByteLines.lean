import PatternTree.Proofs.Text.Bytes

namespace PatternTree.Text

/-- The lines of bytes, each up to and with its line feed, which is the byte 10. The last one may be
    without. -/
def byteLines : List UInt8 → List (List UInt8)
  | [] => []
  | byte :: others =>
    if byte = 10 then [byte] :: byteLines others
    else
      match byteLines others with
      | [] => [[byte]]
      | line :: later => (byte :: line) :: later

/-- No byte gets lost between the lines. -/
theorem flatten_byteLines (content : List UInt8) : (byteLines content).flatten = content := by
  induction content with
  | nil => rfl
  | cons byte others ih =>
    rw [byteLines]
    split
    · rw [List.flatten_cons, ih]
      rfl
    · cases hlines : byteLines others with
      | nil =>
        rw [hlines] at ih
        simp [← ih]
      | cons line later =>
        rw [hlines, List.flatten_cons] at ih
        rw [List.flatten_cons, List.cons_append, ih]

/-- Bytes without a line feed belong to the line that follows them. -/
theorem byteLines_append {front : List UInt8} (hfront : 10 ∉ front) (hne : front ≠ [])
    (rest : List UInt8) :
    byteLines (front ++ rest) = (front ++ (byteLines rest).headD []) :: (byteLines rest).tail := by
  induction front with
  | nil => exact absurd rfl hne
  | cons byte front ih =>
    obtain ⟨hbyte, hfront⟩ : 10 ≠ byte ∧ 10 ∉ front := by simpa using hfront
    rw [List.cons_append, byteLines, if_neg hbyte.symm]
    cases front with
    | nil => cases hlines : byteLines rest <;> simp [hlines]
    | cons next front =>
      rw [ih hfront (List.cons_ne_nil _ _)]
      rfl

/-- The byte of a line feed occurs in no other character. -/
theorem notMem_utf8EncodeChar {char : Char} (hchar : char ≠ '\n') :
    10 ∉ String.utf8EncodeChar char := by
  have hne : char.toNat ≠ 10 := fun heq => hchar (Char.toNat_inj.mp heq)
  have htoNat : char.val.toNat = char.toNat := rfl
  have hbyte : ∀ value, value < 256 → value ≠ 10 → (10 : UInt8) ≠ UInt8.ofNat value := by
    intro value hlt hvalue heq
    have hsame := congrArg UInt8.toNat heq
    rw [UInt8.toNat_ofNat', Nat.mod_eq_of_lt (by omega)] at hsame
    exact hvalue hsame.symm
  simp only [String.utf8EncodeChar, htoNat]
  split
  next hascii => simpa using hbyte _ (by omega) hne
  next hascii =>
    split
    · simp only [List.mem_cons, List.not_mem_nil, or_false, not_or]
      exact ⟨hbyte _ (by omega) (by omega), hbyte _ (by omega) (by omega)⟩
    · split
      · simp only [List.mem_cons, List.not_mem_nil, or_false, not_or]
        exact ⟨hbyte _ (by omega) (by omega), hbyte _ (by omega) (by omega),
          hbyte _ (by omega) (by omega)⟩
      · simp only [List.mem_cons, List.not_mem_nil, or_false, not_or]
        exact ⟨hbyte _ (by omega) (by omega), hbyte _ (by omega) (by omega),
          hbyte _ (by omega) (by omega), hbyte _ (by omega) (by omega)⟩

/-- The bytes of a text have the bytes of texts as their lines. -/
theorem exists_of_mem_byteLines {chars : List Char} {line : List UInt8}
    (hline : line ∈ byteLines (bytes chars)) : ∃ part, line = bytes part := by
  induction chars generalizing line with
  | nil => cases hline
  | cons char chars ih =>
    rw [bytes_cons] at hline
    by_cases hchar : char = '\n'
    · subst hchar
      have hbreak : String.utf8EncodeChar '\n' = [10] := by decide
      rw [hbreak, List.singleton_append, byteLines, if_pos rfl] at hline
      obtain rfl | hline := List.mem_cons.mp hline
      · exact ⟨['\n'], hbreak.symm⟩
      · exact ih hline
    · rw [byteLines_append (notMem_utf8EncodeChar hchar) (String.utf8EncodeChar_ne_nil)] at hline
      obtain rfl | hline := List.mem_cons.mp hline
      · cases hlines : byteLines (bytes chars) with
        | nil => exact ⟨[char], by simp [bytes_cons]⟩
        | cons first later =>
          obtain ⟨part, rfl⟩ := ih (by rw [hlines]; exact List.mem_cons_self)
          exact ⟨char :: part, by simp [bytes_cons]⟩
      · exact ih (List.mem_of_mem_tail hline)

/-- Bytes that have the bytes of texts as their lines are those of a text. -/
theorem exists_of_forall_mem {lines : List (List UInt8)}
    (hlines : ∀ line ∈ lines, ∃ part, line = bytes part) :
    ∃ chars, lines.flatten = bytes chars := by
  induction lines with
  | nil => exact ⟨[], rfl⟩
  | cons line lines ih =>
    obtain ⟨part, rfl⟩ := hlines _ List.mem_cons_self
    obtain ⟨chars, hchars⟩ := ih fun line hline => hlines line (List.mem_cons_of_mem _ hline)
    exact ⟨part ++ chars, by rw [List.flatten_cons, hchars, bytes_append]⟩

theorem isValidUTF8_toByteArray_iff {content : List UInt8} :
    content.toByteArray.IsValidUTF8 ↔ ∃ chars, content = bytes chars := by
  constructor
  · rintro ⟨chars, hchars⟩
    exact ⟨chars, List.toByteArray_inj.mp hchars⟩
  · rintro ⟨chars, rfl⟩
    exact ⟨chars, rfl⟩

/-- Bytes are a text exactly if each of their lines is one. -/
theorem isValidUTF8_iff_forall_byteLines (content : ByteArray) :
    content.IsValidUTF8 ↔
      ∀ line ∈ byteLines content.data.toList, line.toByteArray.IsValidUTF8 := by
  have hcontent : content = content.data.toList.toByteArray :=
    ByteArray.ext (by rw [List.data_toByteArray, Array.toArray_toList])
  rw [hcontent, List.data_toByteArray, List.toList_toArray]
  simp only [isValidUTF8_toByteArray_iff]
  constructor
  · rintro ⟨chars, hchars⟩ line hline
    exact exists_of_mem_byteLines (hchars ▸ hline)
  · intro hlines
    obtain ⟨chars, hchars⟩ := exists_of_forall_mem hlines
    exact ⟨chars, by rw [← hchars, flatten_byteLines]⟩

end PatternTree.Text
