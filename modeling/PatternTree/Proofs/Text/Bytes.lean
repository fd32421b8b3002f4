import PatternTree.Text.Utf8

namespace PatternTree.Text

/-- The bytes of a text. -/
def bytes (chars : List Char) : List UInt8 :=
  chars.flatMap String.utf8EncodeChar

/-- Whether a byte is an ASCII digit. -/
def isDigitByte (byte : UInt8) : Bool :=
  48 ≤ byte.toNat && byte.toNat ≤ 57

/-- The first index from a given one on at which no ASCII digit stands. -/
def skipDigits (bytes : List UInt8) (index : Nat) : Nat :=
  if _ : bytes[index]?.any isDigitByte then skipDigits bytes (index + 1) else index
termination_by bytes.length - index
decreasing_by
  obtain ⟨byte, hbyte, -⟩ := (Option.any_eq_true _ _).mp ‹_ = true›
  have hindex := (List.getElem?_eq_some_iff.mp hbyte).1
  omega

@[simp] theorem bytes_nil : bytes [] = [] := rfl

theorem bytes_cons (char : Char) (chars : List Char) :
    bytes (char :: chars) = String.utf8EncodeChar char ++ bytes chars := by
  rw [bytes, List.flatMap_cons, bytes]

@[simp] theorem bytes_append (front back : List Char) :
    bytes (front ++ back) = bytes front ++ bytes back := by
  rw [bytes, List.flatMap_append, bytes, bytes]

@[simp] theorem length_bytes (chars : List Char) : (bytes chars).length = utf8Size chars := by
  induction chars with
  | nil => rfl
  | cons char chars ih => simp [bytes_cons, utf8Size, ih, String.length_utf8EncodeChar]

/-- An ASCII character is its only byte, and the first byte of any other one is none of ASCII. -/
theorem exists_utf8EncodeChar (char : Char) :
    ∃ first others, String.utf8EncodeChar char = first :: others ∧
      (char.toNat ≤ 127 ∧ others = [] ∧ first.toNat = char.toNat ∨
        127 < char.toNat ∧ 192 ≤ first.toNat) := by
  have htoNat : char.val.toNat = char.toNat := rfl
  simp only [String.utf8EncodeChar, htoNat]
  split
  next hascii =>
    refine ⟨_, [], rfl, .inl ⟨hascii, rfl, ?_⟩⟩
    rw [UInt8.toNat_ofNat']
    omega
  next hascii =>
    -- In the first byte of a longer sequence the two highest bits are set.
    have hfirst : ∀ bits, bits < 64 → 192 ≤ (UInt8.ofNat (bits + 192)).toNat := by
      intro bits hbits
      rw [UInt8.toNat_ofNat']
      omega
    split
    · exact ⟨_, _, rfl, .inr ⟨by omega, hfirst _ (by omega)⟩⟩
    · split
      · exact ⟨_, _, rfl, .inr ⟨by omega, hfirst (char.toNat / 4096 % 16 + 32) (by omega)⟩⟩
      · exact ⟨_, _, rfl, .inr ⟨by omega, hfirst (char.toNat / 262144 % 8 + 48) (by omega)⟩⟩

/-- A byte of an ASCII character stands at the front where the character does. -/
theorem head?_bytes_eq_some_iff {ascii : Char} (hascii : ascii.toNat ≤ 127) (chars : List Char) :
    (bytes chars).head? = some ascii.toUInt8 ↔ chars.head? = some ascii := by
  have htoNat : ascii.toUInt8.toNat = ascii.toNat := by
    rw [Char.toUInt8, UInt32.toNat_toUInt8]
    exact Nat.mod_eq_of_lt (by omega : ascii.toNat < 2 ^ 8)
  cases chars with
  | nil => simp
  | cons char chars =>
    obtain ⟨first, others, hencode, hfirst⟩ := exists_utf8EncodeChar char
    rw [bytes_cons, hencode, List.cons_append, List.head?_cons, List.head?_cons,
      Option.some.injEq, Option.some.injEq, ← UInt8.toNat_inj, htoNat, ← Char.toNat_inj]
    omega

theorem isDigit_iff {char : Char} : char.isDigit ↔ 48 ≤ char.toNat ∧ char.toNat ≤ 57 := by
  simp only [Char.isDigit, Bool.and_eq_true, decide_eq_true_eq, ge_iff_le, UInt32.le_iff_toNat_le]
  rfl

/-- The first byte of a character is a digit where the character is one. -/
theorem isDigitByte_of_utf8EncodeChar {char : Char} {first : UInt8} {others : List UInt8}
    (hencode : String.utf8EncodeChar char = first :: others) :
    isDigitByte first = char.isDigit := by
  obtain ⟨first', others', hencode', hfirst⟩ := exists_utf8EncodeChar char
  rw [hencode] at hencode'
  cases hencode'
  rw [Bool.eq_iff_iff, isDigit_iff, isDigitByte, Bool.and_eq_true, decide_eq_true_eq,
    decide_eq_true_eq]
  omega

theorem utf8Size_of_isDigit {char : Char} (hdigit : char.isDigit) : char.utf8Size = 1 := by
  rw [Char.utf8Size_eq_one_iff, UInt32.le_iff_toNat_le]
  have hle := (isDigit_iff.mp hdigit).2
  exact Nat.le_trans hle (by decide)

/-- Behind the bytes of a text stand those of what follows it. -/
theorem getElem?_bytes (front rest : List Char) :
    (bytes (front ++ rest))[utf8Size front]? = (bytes rest).head? := by
  rw [bytes_append, ← length_bytes front, List.getElem?_append_right (Nat.le_refl _),
    Nat.sub_self, List.head?_eq_getElem?]

/-- The digits of a text end where its bytes that are digits end. -/
theorem skipDigits_bytes {digits rest : List Char} (front : List Char)
    (hdigits : ∀ digit ∈ digits, digit.isDigit)
    (hrest : ∀ char ∈ rest.head?, char.isDigit = false) :
    skipDigits (bytes (front ++ (digits ++ rest))) (utf8Size front) =
      utf8Size (front ++ digits) := by
  induction digits generalizing front with
  | nil =>
    rw [skipDigits, dif_neg, List.append_nil]
    rw [getElem?_bytes, List.nil_append]
    cases rest with
    | nil => simp
    | cons char rest =>
      obtain ⟨first, others, hencode, -⟩ := exists_utf8EncodeChar char
      have hdigit := isDigitByte_of_utf8EncodeChar hencode
      rw [hrest char rfl] at hdigit
      simp [bytes_cons, hencode, hdigit]
  | cons digit digits ih =>
    have hdigit := hdigits digit List.mem_cons_self
    have hsize : utf8Size (front ++ [digit]) = utf8Size front + 1 := by
      rw [utf8Size_append, utf8Size, utf8Size_of_isDigit hdigit, utf8Size]
    obtain ⟨first, others, hencode, -⟩ := exists_utf8EncodeChar digit
    have hfirst := isDigitByte_of_utf8EncodeChar hencode
    have hothers := ih (front ++ [digit])
      (fun other hother => hdigits other (List.mem_cons_of_mem _ hother))
    rw [skipDigits, dif_pos, ← hsize]
    · simpa using hothers
    · rw [getElem?_bytes]
      simp [bytes_cons, hencode, hfirst, hdigit]

end PatternTree.Text
