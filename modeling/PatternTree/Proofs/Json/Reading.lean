import PatternTree.Proofs.Json.Grammar
import PatternTree.Proofs.Token.Readers

namespace PatternTree.Json

open Text (takeWhile_dropWhile_eq_iff)

/-! ### Blanks -/

theorem skipBlank_blanks_append {blanks : List Char} (hblanks : Blanks blanks)
    (chars : List Char) : skipBlank (blanks ++ chars) = skipBlank chars :=
  List.dropWhile_append_of_pos hblanks

theorem skipBlank_cons {char : Char} (hchar : isBlank char = false) (chars : List Char) :
    skipBlank (char :: chars) = char :: chars := by
  rw [skipBlank, List.dropWhile_cons_of_neg (by simp [hchar])]

theorem skipBlank_blanks_append_cons {blanks : List Char} (hblanks : Blanks blanks) {char : Char}
    (hchar : isBlank char = false) (chars : List Char) :
    skipBlank (blanks ++ char :: chars) = char :: chars := by
  rw [skipBlank_blanks_append hblanks, skipBlank_cons hchar]

theorem Blanks.append {front back : List Char} (hfront : Blanks front) (hback : Blanks back) :
    Blanks (front ++ back) :=
  List.forall_mem_append.mpr ⟨hfront, hback⟩

/-- What may stand behind a value: a blank, the mark that ends an item or a member, or
    nothing. -/
def Ends (rest : List Char) : Prop :=
  ∀ char ∈ rest.head?, isBlank char ∨ char ∈ [',', ']', '\x7d']

theorem ends_cons {char : Char} (hchar : char ∈ [',', ']', '\x7d']) (rest : List Char) :
    Ends (char :: rest) := by
  intro other hother
  obtain rfl : char = other := Option.some.inj hother
  exact .inr hchar

theorem Ends.blanks_append {blanks rest : List Char} (hblanks : Blanks blanks)
    (hrest : Ends rest) : Ends (blanks ++ rest) := by
  cases blanks with
  | nil => exact hrest
  | cons char blanks =>
    intro other hother
    obtain rfl : char = other := by simpa using hother
    exact .inl (hblanks char List.mem_cons_self)

theorem Ends.not_number {rest : List Char} (hrest : Ends rest) :
    ∀ char ∈ rest.head?, char.isDigit = false ∧ char ≠ '.' ∧ char ≠ 'e' ∧ char ≠ 'E' := by
  intro char hchar
  have hcases := hrest char hchar
  simp only [isBlank, Bool.or_eq_true, decide_eq_true_eq, List.mem_cons, List.not_mem_nil,
    or_false] at hcases
  obtain (((rfl | rfl) | rfl) | rfl) | rfl | rfl | rfl := hcases <;> decide

/-! ### Strings -/

theorem joinPairs_of_not_high {code : Nat} (hcode : ¬ IsHighHalf code) (units : List Nat) :
    joinPairs (code :: units) = code :: joinPairs units := by
  cases units with
  | nil => rfl
  | cons next units =>
    rw [joinPairs, if_neg]
    intro hjoined
    simp only [Bool.and_eq_true, decide_eq_true_eq] at hjoined
    exact hcode hjoined.1.1

theorem IsLowHalf.not_isHighHalf {code : Nat} (hlow : IsLowHalf code) : ¬ IsHighHalf code := by
  intro hhigh
  have hlower := hlow.1
  have hupper := hhigh.2
  omega

/-- A half of a surrogate pair stays by itself where the other half does not follow. -/
theorem joinPairs_of_alone {code : Nat} {units : List Nat}
    (halone : IsHighHalf code → ∀ next ∈ (joinPairs units).head?, ¬ IsLowHalf next) :
    joinPairs (code :: units) = code :: joinPairs units := by
  cases units with
  | nil => rfl
  | cons next units =>
    rw [joinPairs, if_neg]
    intro hjoined
    simp only [Bool.and_eq_true, decide_eq_true_eq] at hjoined
    obtain ⟨⟨hhigh, hlower⟩, hupper⟩ := hjoined
    have hlow : IsLowHalf next := ⟨hlower, hupper⟩
    rw [joinPairs_of_not_high hlow.not_isHighHalf] at halone
    exact halone hhigh next rfl hlow

theorem joinPairs_pair {high low : Nat} (hhigh : IsHighHalf high) (hlow : IsLowHalf low)
    (units : List Nat) : joinPairs (high :: low :: units) =
      (0x10000 + (high - 0xd800) * 0x400 + (low - 0xdc00)) :: joinPairs units := by
  rw [joinPairs, if_pos]
  simpa [and_assoc] using ⟨hhigh.1, hhigh.2, hlow.1, hlow.2⟩

theorem readUnits_unit {code : Nat} {text : List Char} (hunit : IsUnit code text)
    (rest : List Char) :
    readUnits (text ++ rest) =
      (readUnits rest).map fun (codes, rest) => (code :: codes, rest) := by
  cases hunit with
  | digits hall =>
    simp only [List.cons_append, List.nil_append, readUnits, hall, if_true]

theorem readUnits_letter {char : Char} {code : Nat} (hchar : escape? char = some code)
    (rest : List Char) :
    readUnits ('\\' :: char :: rest) =
      (readUnits rest).map fun (codes, rest) => (code :: codes, rest) := by
  have hletter : char ≠ 'u' := by
    rintro rfl
    cases hchar
  rw [readUnits, hchar]
  exact fun _ _ _ _ _ heq => absurd heq hletter

theorem readUnits_plain {char : Char} (hprinted : 0x20 ≤ char.toNat) (hquote : char ≠ '"')
    (hslash : char ≠ '\\') (rest : List Char) :
    readUnits (char :: rest) =
      (readUnits rest).map fun (codes, rest) => (char.toNat :: codes, rest) := by
  have hnot : ¬ (char.toNat < 0x20 ∨ char = '\\') :=
    not_or.mpr ⟨Nat.not_lt.mpr hprinted, hslash⟩
  rw [readUnits]
  · simp [hnot]
  · exact hquote
  · exact fun _ _ _ _ _ heq => absurd heq hslash
  · exact fun _ _ heq => absurd heq hslash

/-- A character is no half of a surrogate pair. -/
theorem not_isHalf_toNat (char : Char) : ¬ IsHighHalf char.toNat ∧ ¬ IsLowHalf char.toNat := by
  have hvalid : char.toNat.isValidChar := char.valid
  simp only [Nat.isValidChar] at hvalid
  simp only [IsHighHalf, IsLowHalf]
  omega

theorem not_isHalf_escape {char : Char} {code : Nat} (hchar : escape? char = some code) :
    ¬ IsHighHalf code ∧ ¬ IsLowHalf code := by
  unfold escape? at hchar
  split at hchar <;> cases hchar <;> decide

/-- The units of a string are read up to its closing quote, and joined they are its code
    points. -/
theorem Spells.readUnits {codes : List Nat} {chars : List Char} (hchars : Spells codes chars) :
    ∃ units, (∀ rest, Json.readUnits (chars ++ '"' :: rest) = some (units, rest)) ∧
      joinPairs units = codes := by
  induction hchars with
  | nil => exact ⟨[], fun rest => by simp [Json.readUnits], rfl⟩
  | @plain char _ _ hprinted hquote hslash _ ih =>
    obtain ⟨units, hread, hjoin⟩ := ih
    refine ⟨char.toNat :: units, fun rest => ?_, ?_⟩
    · rw [List.cons_append, readUnits_plain hprinted hquote hslash, hread, Option.map_some]
    · rw [joinPairs_of_not_high (not_isHalf_toNat _).1, hjoin]
  | @letter _ code _ _ hchar _ ih =>
    obtain ⟨units, hread, hjoin⟩ := ih
    refine ⟨code :: units, fun rest => ?_, ?_⟩
    · rw [List.cons_append, List.cons_append, readUnits_letter hchar, hread, Option.map_some]
    · rw [joinPairs_of_not_high (not_isHalf_escape hchar).1, hjoin]
  | @unit code _ _ _ hunit halone _ ih =>
    obtain ⟨units, hread, hjoin⟩ := ih
    refine ⟨code :: units, fun rest => ?_, ?_⟩
    · rw [List.append_assoc, readUnits_unit hunit, hread, Option.map_some]
    · rw [joinPairs_of_alone (by rwa [hjoin]), hjoin]
  | @pair high low _ _ _ _ hfirst hhigh hsecond hlow _ ih =>
    obtain ⟨units, hread, hjoin⟩ := ih
    refine ⟨high :: low :: units, fun rest => ?_, ?_⟩
    · rw [List.append_assoc, List.append_assoc, readUnits_unit hfirst, readUnits_unit hsecond,
        hread, Option.map_some, Option.map_some]
    · rw [joinPairs_pair hhigh hlow, hjoin]

theorem Spells.readString {codes : List Nat} {chars : List Char} (hchars : Spells codes chars)
    (rest : List Char) : Json.readString (chars ++ '"' :: rest) = some (codes, rest) := by
  obtain ⟨units, hread, hjoin⟩ := hchars.readUnits
  simp only [Json.readString, hread, Option.map_some, hjoin]

/-! ### Numbers -/

theorem IsDigits.readDigits {digits rest : List Char} (hdigits : IsDigits digits)
    (hrest : ∀ char ∈ rest.head?, char.isDigit = false) :
    Json.readDigits (digits ++ rest) = some (digits, rest) := by
  obtain ⟨htake, hdrop⟩ := takeWhile_dropWhile_eq_iff.mpr ⟨rfl, hdigits.2, hrest⟩
  simp only [Json.readDigits, htake, hdrop]
  rw [if_neg (by simpa using hdigits.1)]

theorem IsWhole.readWhole {whole rest : List Char} (hwhole : IsWhole whole)
    (hrest : ∀ char ∈ rest.head?, char.isDigit = false) :
    Json.readWhole (whole ++ rest) = some (whole, rest) := by
  by_cases hzero : whole.head? = some '0'
  · obtain rfl := hwhole.2 hzero
    rfl
  · have hread := hwhole.1.readDigits hrest
    obtain ⟨first, digits, rfl⟩ := List.exists_cons_of_ne_nil hwhole.1.1
    rw [List.cons_append] at hread ⊢
    rw [Json.readWhole, hread]
    intro tail heq
    exact hzero (congrArg some (List.cons.inj heq).1)

theorem IsFraction.readFraction {fraction rest : List Char} (hfraction : IsFraction fraction)
    (hdigit : ∀ char ∈ rest.head?, char.isDigit = false) (hpoint : rest.head? ≠ some '.') :
    Json.readFraction (fraction ++ rest) = some (fraction, rest) := by
  cases hfraction with
  | absent =>
    rw [List.nil_append, Json.readFraction]
    rintro tail rfl
    exact hpoint rfl
  | present hdigits =>
    rw [List.cons_append, Json.readFraction, hdigits.readDigits hdigit, Option.map_some]

/-- The digits of an exponent do not start with a sign. -/
theorem IsDigits.head?_ne {digits : List Char} (hdigits : IsDigits digits) {char : Char}
    (hchar : char.isDigit = false) (rest : List Char) : (digits ++ rest).head? ≠ some char := by
  obtain ⟨first, digits, rfl⟩ := List.exists_cons_of_ne_nil hdigits.1
  intro hhead
  obtain rfl : first = char := by simpa using hhead
  exact absurd (hdigits.2 first List.mem_cons_self) (by simp [hchar])

theorem readExponentDigits_sign {sign digits rest : List Char} (hsign : sign ∈ [[], ['+'], ['-']])
    (hdigits : IsDigits digits) (hrest : ∀ char ∈ rest.head?, char.isDigit = false)
    (mark : Char) :
    readExponentDigits mark (sign ++ digits ++ rest) = some (mark :: sign ++ digits, rest) := by
  have hread := hdigits.readDigits hrest
  simp only [List.mem_cons, List.not_mem_nil, or_false] at hsign
  obtain rfl | rfl | rfl := hsign
  · rw [List.nil_append, readExponentDigits, hread]
    · rfl
    · intro tail heq
      exact hdigits.head?_ne (by decide) rest (congrArg List.head? heq)
    · intro tail heq
      exact hdigits.head?_ne (by decide) rest (congrArg List.head? heq)
  · simp [readExponentDigits, hread]
  · simp [readExponentDigits, hread]

theorem IsExponent.readExponent {exponent rest : List Char} (hexponent : IsExponent exponent)
    (hrest : Ends rest) : Json.readExponent (exponent ++ rest) = some (exponent, rest) := by
  cases hexponent with
  | absent =>
    rw [List.nil_append, Json.readExponent]
    · rintro tail rfl
      exact (hrest.not_number 'e' rfl).2.2.1 rfl
    · rintro tail rfl
      exact (hrest.not_number 'E' rfl).2.2.2 rfl
  | present hmark hsign hdigits =>
    have hdigit := fun char hchar => (hrest.not_number char hchar).1
    simp only [List.mem_cons, List.not_mem_nil, or_false] at hmark
    obtain rfl | rfl := hmark
    · exact readExponentDigits_sign hsign hdigits hdigit 'e'
    · exact readExponentDigits_sign hsign hdigits hdigit 'E'

/-- What stands behind the fraction of a number is no part of it. -/
theorem IsExponent.head? {exponent rest : List Char} (hexponent : IsExponent exponent)
    (hrest : Ends rest) :
    ∀ char ∈ (exponent ++ rest).head?, char.isDigit = false ∧ char ≠ '.' := by
  intro char hchar
  cases hexponent with
  | absent => exact ⟨(hrest.not_number char hchar).1, (hrest.not_number char hchar).2.1⟩
  | present hmark =>
    obtain rfl : _ = char := Option.some.inj hchar
    simp only [List.mem_cons, List.not_mem_nil, or_false] at hmark
    obtain rfl | rfl := hmark <;> decide

theorem IsFraction.head? {fraction rest : List Char} (hfraction : IsFraction fraction)
    (hrest : ∀ char ∈ rest.head?, char.isDigit = false) :
    ∀ char ∈ (fraction ++ rest).head?, char.isDigit = false := by
  cases hfraction with
  | absent => exact hrest
  | present hdigits =>
    intro char hchar
    obtain rfl : '.' = char := Option.some.inj hchar
    decide

theorem readUnsigned_parts {whole fraction exponent rest : List Char} (hwhole : IsWhole whole)
    (hfraction : IsFraction fraction) (hexponent : IsExponent exponent) (hrest : Ends rest) :
    readUnsigned (whole ++ fraction ++ exponent ++ rest) =
      some (whole ++ fraction ++ exponent, rest) := by
  have hbehind := hexponent.head? hrest
  have hdigit := fun char hchar => (hbehind char hchar).1
  have hpoint : (exponent ++ rest).head? ≠ some '.' := fun hchar => (hbehind '.' hchar).2 rfl
  simp [readUnsigned, hwhole.readWhole (hfraction.head? hdigit),
    hfraction.readFraction hdigit hpoint, hexponent.readExponent hrest]

theorem IsNumber.readNumber {literal rest : List Char} (hliteral : IsNumber literal)
    (hrest : Ends rest) : Json.readNumber (literal ++ rest) = some (literal, rest) := by
  cases hliteral with
  | @parts sign whole fraction exponent hsign hwhole hfraction hexponent =>
    have hread := readUnsigned_parts hwhole hfraction hexponent hrest
    simp only [List.mem_cons, List.not_mem_nil, or_false] at hsign
    obtain rfl | rfl := hsign
    · rw [List.nil_append, Json.readNumber, hread]
      intro tail heq
      have hhead := hwhole.1.head?_ne (by decide : ('-').isDigit = false)
        (fraction ++ (exponent ++ rest))
      simp only [List.append_assoc] at heq
      exact hhead (congrArg List.head? heq)
    · rw [List.singleton_append, List.cons_append, Json.readNumber, hread, Option.map_some]

/-- A number starts with a digit or a sign. -/
def StartsNumber (first : Char) : Prop :=
  first.isDigit ∨ first = '-'

instance (first : Char) : Decidable (StartsNumber first) :=
  inferInstanceAs (Decidable (_ ∨ _))

theorem StartsNumber.ne {first char : Char} (hfirst : StartsNumber first)
    (hchar : ¬ StartsNumber char) : first ≠ char := by
  rintro rfl
  exact hchar hfirst

theorem StartsNumber.isBlank_eq_false {first : Char} (hfirst : StartsNumber first) :
    isBlank first = false := by
  have hspace : first ≠ ' ' := hfirst.ne (by decide)
  have hline : first ≠ '\n' := hfirst.ne (by decide)
  have htab : first ≠ '\t' := hfirst.ne (by decide)
  have hreturn : first ≠ '\r' := hfirst.ne (by decide)
  simp [isBlank, hspace, hline, htab, hreturn]

theorem IsNumber.exists_first {literal : List Char} (hliteral : IsNumber literal) :
    ∃ first tail, literal = first :: tail ∧ StartsNumber first := by
  cases hliteral with
  | @parts sign whole fraction exponent hsign hwhole =>
    simp only [List.mem_cons, List.not_mem_nil, or_false] at hsign
    obtain rfl | rfl := hsign
    · obtain ⟨first, digits, rfl⟩ := List.exists_cons_of_ne_nil hwhole.1.1
      exact ⟨first, _, rfl, .inl (hwhole.1.2 first List.mem_cons_self)⟩
    · exact ⟨'-', _, rfl, .inr rfl⟩

/-! ### Values -/

theorem readValue_blanks_append {blanks : List Char} (hblanks : Blanks blanks) (fuel : Nat)
    (chars : List Char) : readValue fuel (blanks ++ chars) = readValue fuel chars := by
  cases fuel with
  | zero => rfl
  | succ fuel => rw [readValue, readValue, skipBlank_blanks_append hblanks]

theorem readValue_number {literal rest : List Char} (hliteral : IsNumber literal)
    (hrest : Ends rest) (fuel : Nat) :
    readValue (fuel + 1) (literal ++ rest) = some (number literal, rest) := by
  have hread := hliteral.readNumber hrest
  obtain ⟨first, tail, rfl, hfirst⟩ := hliteral.exists_first
  rw [List.cons_append] at hread ⊢
  rw [readValue, skipBlank_cons hfirst.isBlank_eq_false]
  split
  iterate 6
    next heq => exact absurd (List.cons.inj heq).1 (hfirst.ne (by decide))
  · rw [hread, Option.map_some]

theorem readValue_array {chars : List Char} (hchars : (skipBlank chars).head? ≠ some ']')
    (fuel : Nat) : readValue (fuel + 1) ('[' :: chars) =
      (readItems fuel chars).map fun (items, rest) => (array items, rest) := by
  rw [readValue, skipBlank_cons (by decide)]
  exact if_neg hchars

theorem readValue_object {chars : List Char} (hchars : (skipBlank chars).head? ≠ some '\x7d')
    (fuel : Nat) : readValue (fuel + 1) ('\x7b' :: chars) =
      (readMembers fuel chars).map fun (members, rest) => (object members, rest) := by
  rw [readValue, skipBlank_cons (by decide)]
  exact if_neg hchars

theorem readValue_emptyArray {blanks : List Char} (hblanks : Blanks blanks) (fuel : Nat)
    (rest : List Char) :
    readValue (fuel + 1) ('[' :: blanks ++ ']' :: rest) = some (array [], rest) := by
  rw [List.cons_append, readValue, skipBlank_cons (by decide)]
  simp [skipBlank_blanks_append_cons hblanks (by decide : isBlank ']' = false)]

theorem readValue_emptyObject {blanks : List Char} (hblanks : Blanks blanks) (fuel : Nat)
    (rest : List Char) :
    readValue (fuel + 1) ('\x7b' :: blanks ++ '\x7d' :: rest) = some (object [], rest) := by
  rw [List.cons_append, readValue, skipBlank_cons (by decide)]
  simp [skipBlank_blanks_append_cons hblanks (by decide : isBlank '\x7d' = false)]

theorem readValue_string {codes : List Nat} {chars : List Char} (hchars : Spells codes chars)
    (fuel : Nat) (rest : List Char) :
    readValue (fuel + 1) ('"' :: (chars ++ '"' :: rest)) = some (string codes, rest) := by
  rw [readValue, skipBlank_cons (by decide)]
  simp [hchars.readString]

/-- Behind the blanks at its front a value starts with a character that closes no array. -/
theorem Writes.exists_first {value : Json} {chars : List Char} :
    Writes value chars → ∃ blanks first tail, Blanks blanks ∧ isBlank first = false ∧
      first ≠ ']' ∧ chars = blanks ++ first :: tail
  | .null | .on | .off | .string _ | .emptyArray _ | .array _ | .emptyObject _ | .object _ =>
    ⟨[], _, _, blanks_nil, by decide, by decide, rfl⟩
  | .number hliteral => by
    obtain ⟨first, tail, heq, hfirst⟩ := hliteral.exists_first
    exact ⟨[], first, tail, blanks_nil, hfirst.isBlank_eq_false, hfirst.ne (by decide), heq⟩
  | .padded hfront _ hvalue => by
    obtain ⟨blanks, first, tail, hblanks, hfirst, hcloser, rfl⟩ := hvalue.exists_first
    exact ⟨_ ++ blanks, first, _, hfront.append hblanks, hfirst, hcloser,
      by rw [List.append_assoc, List.append_assoc, List.append_assoc]; rfl⟩

/-- The inside of an array that has items is not taken for that of an empty one. -/
theorem WritesItems.head?_skipBlank {items : List Json} {chars : List Char}
    (hitems : WritesItems items chars) (rest : List Char) :
    (skipBlank (chars ++ rest)).head? ≠ some ']' := by
  have hitem : ∃ item front back, chars = front ++ back ∧ Writes item front := by
    cases hitems with
    | one hitem => exact ⟨_, chars, [], (List.append_nil chars).symm, hitem⟩
    | more hitem => exact ⟨_, _, _, rfl, hitem⟩
  obtain ⟨item, front, back, rfl, hitem⟩ := hitem
  obtain ⟨blanks, first, tail, hblanks, hfirst, hcloser, rfl⟩ := hitem.exists_first
  rw [List.append_assoc, List.append_assoc, List.cons_append,
    skipBlank_blanks_append_cons hblanks hfirst]
  simpa using hcloser

/-- A key is read between the blanks around it. -/
theorem WritesKey.readString {key : List Nat} {name : List Char} (hkey : WritesKey key name)
    (rest : List Char) : ∃ quoted afterKey, skipBlank (name ++ ':' :: rest) = '"' :: quoted ∧
      Json.readString quoted = some (key, afterKey) ∧ skipBlank afterKey = ':' :: rest := by
  cases hkey with
  | @quoted front chars back hfront hback hchars =>
    refine ⟨chars ++ '"' :: (back ++ ':' :: rest), back ++ ':' :: rest, ?_,
      hchars.readString _, skipBlank_blanks_append_cons hback (by decide) rest⟩
    rw [List.append_assoc, List.append_assoc]
    exact skipBlank_blanks_append_cons hfront (by decide) _

/-- The inside of an object that has members is not taken for that of an empty one. -/
theorem WritesMembers.head?_skipBlank {members : List (List Nat × Json)} {chars : List Char}
    (hmembers : WritesMembers members chars) (rest : List Char) :
    (skipBlank (chars ++ rest)).head? ≠ some '\x7d' := by
  have hkey : ∃ key name back, chars = name ++ ':' :: back ∧ WritesKey key name := by
    cases hmembers with
    | one hkey => exact ⟨_, _, _, rfl, hkey⟩
    | more hkey => exact ⟨_, _, _, by rw [List.append_assoc]; rfl, hkey⟩
  obtain ⟨key, name, back, rfl, hkey⟩ := hkey
  obtain ⟨quoted, -, hquote, -⟩ := hkey.readString (back ++ rest)
  rw [List.append_assoc, List.cons_append, hquote]
  exact fun heq => absurd (Option.some.inj heq) (by decide)

theorem readItems_last {fuel : Nat} {item : Json} {chars behind rest : List Char}
    (hitem : readValue fuel chars = some (item, behind))
    (hbehind : skipBlank behind = ']' :: rest) :
    readItems (fuel + 1) chars = some ([item], rest) := by
  simp [readItems, hitem, hbehind]

theorem readItems_next {fuel : Nat} {item : Json} {chars behind rest : List Char}
    (hitem : readValue fuel chars = some (item, behind))
    (hbehind : skipBlank behind = ',' :: rest) :
    readItems (fuel + 1) chars =
      (readItems fuel rest).map fun (items, rest) => (item :: items, rest) := by
  simp [readItems, hitem, hbehind]

theorem readMembers_last {fuel : Nat} {key : List Nat} {value : Json}
    {name chars behind rest : List Char} (hkey : WritesKey key name)
    (hvalue : readValue fuel chars = some (value, behind))
    (hbehind : skipBlank behind = '\x7d' :: rest) :
    readMembers (fuel + 1) (name ++ ':' :: chars) = some ([(key, value)], rest) := by
  obtain ⟨quoted, afterKey, hquote, hread, hcolon⟩ := hkey.readString chars
  simp [readMembers, hquote, hread, hcolon, hvalue, hbehind]

theorem readMembers_next {fuel : Nat} {key : List Nat} {value : Json}
    {name chars behind rest : List Char} (hkey : WritesKey key name)
    (hvalue : readValue fuel chars = some (value, behind))
    (hbehind : skipBlank behind = ',' :: rest) :
    readMembers (fuel + 1) (name ++ ':' :: chars) =
      (readMembers fuel rest).map fun (members, rest) => ((key, value) :: members, rest) := by
  obtain ⟨quoted, afterKey, hquote, hread, hcolon⟩ := hkey.readString chars
  simp [readMembers, hquote, hread, hcolon, hvalue, hbehind]

theorem Writes.length_pos {value : Json} {chars : List Char} (hvalue : Writes value chars) :
    0 < chars.length := by
  obtain ⟨blanks, first, tail, -, -, -, rfl⟩ := hvalue.exists_first
  simp

mutual

/-- A value is read up to the blanks behind it, whatever follows them. Two units of fuel for each
    character are enough: one for the step to an item or a member, and one for that into it. -/
theorem Writes.readValue {value : Json} {chars : List Char} :
    Writes value chars → ∀ (fuel : Nat) (rest : List Char), 2 * chars.length ≤ fuel →
      Ends rest → ∃ behind, Json.readValue fuel (chars ++ rest) = some (value, behind) ∧
        skipBlank behind = skipBlank rest
  | hvalue, 0, rest, hfuel, _ => by
    have hpos := hvalue.length_pos
    omega
  | .null, fuel + 1, rest, _, _ => ⟨rest, rfl, rfl⟩
  | .on, fuel + 1, rest, _, _ => ⟨rest, rfl, rfl⟩
  | .off, fuel + 1, rest, _, _ => ⟨rest, rfl, rfl⟩
  | .number hliteral, fuel + 1, rest, _, hrest =>
    ⟨rest, readValue_number hliteral hrest fuel, rfl⟩
  | .string hchars, fuel + 1, rest, _, _ =>
    ⟨rest, by simpa using readValue_string hchars fuel rest, rfl⟩
  | .emptyArray hblanks, fuel + 1, rest, _, _ =>
    ⟨rest, by simpa using readValue_emptyArray hblanks fuel rest, rfl⟩
  | .array hitems, fuel + 1, rest, hfuel, _ => by
    have hread := hitems.readItems fuel rest (by simp at hfuel; omega)
    refine ⟨rest, ?_, rfl⟩
    rw [List.append_assoc, List.cons_append,
      readValue_array (hitems.head?_skipBlank _), List.singleton_append, hread]
    rfl
  | .emptyObject hblanks, fuel + 1, rest, _, _ =>
    ⟨rest, by simpa using readValue_emptyObject hblanks fuel rest, rfl⟩
  | .object hmembers, fuel + 1, rest, hfuel, _ => by
    have hread := hmembers.readMembers fuel rest (by simp at hfuel; omega)
    refine ⟨rest, ?_, rfl⟩
    rw [List.append_assoc, List.cons_append,
      readValue_object (hmembers.head?_skipBlank _), List.singleton_append, hread]
    rfl
  | @Writes.padded _ _ _ back hfront hback hvalue, fuel + 1, rest, hfuel, hrest => by
    -- blanks take no fuel, and those behind the value are left to what surrounds it
    obtain ⟨behind, hread, hbehind⟩ := hvalue.readValue (fuel + 1) (back ++ rest)
      (by simp at hfuel; omega) (hrest.blanks_append hback)
    refine ⟨behind, ?_, hbehind.trans (skipBlank_blanks_append hback rest)⟩
    rw [List.append_assoc, List.append_assoc, readValue_blanks_append hfront, hread]

theorem WritesItems.readItems {items : List Json} {chars : List Char} :
    WritesItems items chars → ∀ (fuel : Nat) (rest : List Char), 2 * chars.length < fuel →
      Json.readItems fuel (chars ++ ']' :: rest) = some (items, rest)
  | _, 0, _, hfuel => absurd hfuel (Nat.not_lt_zero _)
  | .one hitem, fuel + 1, rest, hfuel => by
    obtain ⟨behind, hread, hbehind⟩ := hitem.readValue fuel _ (by omega)
      (ends_cons (by decide : ']' ∈ [',', ']', '\x7d']) rest)
    exact readItems_last hread (hbehind.trans (skipBlank_cons (by decide) rest))
  | .more hitem hitems, fuel + 1, rest, hfuel => by
    have hothers := hitems.readItems fuel rest (by simp at hfuel; omega)
    obtain ⟨behind, hread, hbehind⟩ := hitem.readValue fuel _ (by simp at hfuel; omega)
      (ends_cons (by decide : ',' ∈ [',', ']', '\x7d']) _)
    rw [List.append_assoc, List.cons_append,
      readItems_next hread (hbehind.trans (skipBlank_cons (by decide) _)), hothers,
      Option.map_some]

theorem WritesMembers.readMembers {members : List (List Nat × Json)} {chars : List Char} :
    WritesMembers members chars → ∀ (fuel : Nat) (rest : List Char), 2 * chars.length < fuel →
      Json.readMembers fuel (chars ++ '\x7d' :: rest) = some (members, rest)
  | _, 0, _, hfuel => absurd hfuel (Nat.not_lt_zero _)
  | .one hkey hvalue, fuel + 1, rest, hfuel => by
    obtain ⟨behind, hread, hbehind⟩ := hvalue.readValue fuel _ (by simp at hfuel; omega)
      (ends_cons (by decide : '\x7d' ∈ [',', ']', '\x7d']) rest)
    rw [List.append_assoc, List.cons_append,
      readMembers_last hkey hread (hbehind.trans (skipBlank_cons (by decide) rest))]
  | .more hkey hvalue hmembers, fuel + 1, rest, hfuel => by
    have hothers := hmembers.readMembers fuel rest (by simp at hfuel; omega)
    obtain ⟨behind, hread, hbehind⟩ := hvalue.readValue fuel _ (by simp at hfuel; omega)
      (ends_cons (by decide : ',' ∈ [',', ']', '\x7d']) _)
    rw [List.append_assoc, List.append_assoc, List.cons_append, List.cons_append,
      readMembers_next hkey hread (hbehind.trans (skipBlank_cons (by decide) _)), hothers,
      Option.map_some]

end

/-- Whatever text writes a value, the value is read from it. -/
theorem Writes.parse? {value : Json} {text : String} (hvalue : Writes value text.toList) :
    Json.parse? text = some value := by
  obtain ⟨behind, hread, hbehind⟩ := hvalue.readValue (2 * text.toList.length + 1) []
    (by omega) (by simp [Ends])
  rw [List.append_nil] at hread
  rw [Json.parse?, hread]
  exact if_pos hbehind

end PatternTree.Json
