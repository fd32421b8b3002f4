import PatternTree.Proofs.Json.Reading

namespace PatternTree.Json

/-! ### Strings -/

/-- The second half of a surrogate pair is written by nothing but its escape. -/
theorem Spells.exists_unit {low : Nat} {codes : List Nat} {chars : List Char}
    (hchars : Spells (low :: codes) chars) (hlow : IsLowHalf low) :
    ∃ text rest, IsUnit low text ∧ chars = text ++ rest ∧ Spells codes rest := by
  generalize hcodes : low :: codes = all at hchars
  cases hchars with
  | nil => cases hcodes
  | @plain char =>
    obtain ⟨rfl, -⟩ := List.cons.inj hcodes
    exact absurd hlow (not_isHalf_toNat char).2
  | letter hchar =>
    obtain ⟨rfl, -⟩ := List.cons.inj hcodes
    exact absurd hlow (not_isHalf_escape hchar).2
  | unit hunit _ hchars =>
    obtain ⟨rfl, rfl⟩ := List.cons.inj hcodes
    exact ⟨_, _, hunit, rfl, hchars⟩
  | pair =>
    have hjoined := (List.cons.inj hcodes).1
    have hupper := hlow.2
    omega

/-- Joining leaves a second half in front only if it stands there. -/
theorem exists_cons_of_head?_joinPairs {low : Nat} {units : List Nat} (hlow : IsLowHalf low)
    (hhead : (joinPairs units).head? = some low) : ∃ others, units = low :: others := by
  match units with
  | [] => cases hhead
  | [only] => exact ⟨[], by rw [Option.some.inj hhead]⟩
  | first :: next :: others =>
    rw [joinPairs] at hhead
    split at hhead
    · have hjoined := Option.some.inj hhead
      have hupper := hlow.2
      omega
    · exact ⟨next :: others, by rw [Option.some.inj hhead]⟩

/-- An escape in front of a string joins with a half that it meets there. -/
theorem Spells.unit_append {code : Nat} {units : List Nat} {text chars : List Char}
    (hunit : IsUnit code text) (hchars : Spells (joinPairs units) chars) :
    Spells (joinPairs (code :: units)) (text ++ chars) := by
  by_cases halone : IsHighHalf code → ∀ next ∈ (joinPairs units).head?, ¬ IsLowHalf next
  · rw [joinPairs_of_alone halone]
    exact .unit hunit halone hchars
  · obtain ⟨hhigh, low, hhead, hlow⟩ :
        IsHighHalf code ∧ ∃ low ∈ (joinPairs units).head?, IsLowHalf low := by
      simpa [Classical.not_imp] using halone
    obtain ⟨others, rfl⟩ := exists_cons_of_head?_joinPairs hlow hhead
    rw [joinPairs_of_not_high hlow.not_isHighHalf] at hchars
    obtain ⟨second, rest, hsecond, rfl, hrest⟩ := hchars.exists_unit hlow
    rw [joinPairs_pair hhigh hlow, ← List.append_assoc]
    exact .pair hunit hhigh hsecond hlow hrest

/-- The units that are read are, joined, the code points of the text up to the closing quote. -/
theorem spells_of_readUnits {chars rest : List Char} {units : List Nat}
    (hread : readUnits chars = some (units, rest)) :
    ∃ text, chars = text ++ '"' :: rest ∧ Spells (joinPairs units) text := by
  fun_induction readUnits chars generalizing units with
  | case1 =>
    obtain ⟨rfl, rfl⟩ := Prod.mk.inj (Option.some.inj hread)
    exact ⟨[], rfl, .nil⟩
  | case2 a b c d _ hall ih =>
    obtain ⟨⟨others, _⟩, hothers, ⟨⟩⟩ := Option.map_eq_some_iff.mp hread
    obtain ⟨text, rfl, htext⟩ := ih hothers
    exact ⟨['\\', 'u', a, b, c, d] ++ text, rfl, htext.unit_append (.digits hall)⟩
  | case5 char _ _ code hcode ih =>
    obtain ⟨⟨others, _⟩, hothers, ⟨⟩⟩ := Option.map_eq_some_iff.mp hread
    obtain ⟨text, rfl, htext⟩ := ih hothers
    rw [joinPairs_of_not_high (not_isHalf_escape hcode).1]
    exact ⟨'\\' :: char :: text, rfl, .letter hcode htext⟩
  | case7 char _ hquote _ _ hplain ih =>
    obtain ⟨⟨others, _⟩, hothers, ⟨⟩⟩ := Option.map_eq_some_iff.mp hread
    obtain ⟨text, rfl, htext⟩ := ih hothers
    simp only [Bool.or_eq_true, decide_eq_true_eq, not_or, Nat.not_lt] at hplain
    rw [joinPairs_of_not_high (not_isHalf_toNat char).1]
    exact ⟨char :: text, rfl, .plain hplain.1 hquote hplain.2 htext⟩
  | case3 | case4 | case6 | case8 => cases hread

theorem spells_of_readString {chars rest : List Char} {codes : List Nat}
    (hread : readString chars = some (codes, rest)) :
    ∃ text, chars = text ++ '"' :: rest ∧ Spells codes text := by
  obtain ⟨⟨units, _⟩, hunits, ⟨⟩⟩ := Option.map_eq_some_iff.mp hread
  exact spells_of_readUnits hunits

/-! ### Numbers -/

section Numbers

variable {chars literal rest : List Char}

theorem isDigits_of_readDigits (hread : readDigits chars = some (literal, rest)) :
    chars = literal ++ rest ∧ IsDigits literal := by
  obtain ⟨hsome, heq⟩ := Option.ite_none_left_eq_some.mp hread
  obtain ⟨rfl, rfl⟩ := Prod.mk.inj (Option.some.inj heq)
  refine ⟨List.takeWhile_append_dropWhile.symm, by simpa using hsome, ?_⟩
  exact List.all_eq_true.mp List.all_takeWhile

theorem isWhole_of_readWhole (hread : readWhole chars = some (literal, rest)) :
    chars = literal ++ rest ∧ IsWhole literal := by
  unfold readWhole at hread
  split at hread
  next behind =>
    obtain ⟨rfl, rfl⟩ := Prod.mk.inj (Option.some.inj hread)
    exact ⟨rfl, ⟨by decide, by simp⟩, fun _ => rfl⟩
  next hzero =>
    obtain ⟨rfl, hdigits⟩ := isDigits_of_readDigits hread
    refine ⟨rfl, hdigits, fun hhead => ?_⟩
    obtain ⟨digits, rfl⟩ := List.head?_eq_some_iff.mp hhead
    exact (hzero (digits ++ rest) rfl).elim

theorem isFraction_of_readFraction (hread : readFraction chars = some (literal, rest)) :
    chars = literal ++ rest ∧ IsFraction literal := by
  unfold readFraction at hread
  split at hread
  · obtain ⟨⟨digits, _⟩, hdigits, ⟨⟩⟩ := Option.map_eq_some_iff.mp hread
    obtain ⟨rfl, hall⟩ := isDigits_of_readDigits hdigits
    exact ⟨rfl, .present hall⟩
  · obtain ⟨rfl, rfl⟩ := Prod.mk.inj (Option.some.inj hread)
    exact ⟨rfl, .absent⟩

theorem exists_of_readExponentDigits {mark : Char}
    (hread : readExponentDigits mark chars = some (literal, rest)) :
    ∃ sign digits, sign ∈ [[], ['+'], ['-']] ∧ IsDigits digits ∧
      literal = mark :: sign ++ digits ∧ chars = sign ++ digits ++ rest := by
  unfold readExponentDigits at hread
  split at hread
  all_goals
    obtain ⟨⟨digits, _⟩, hdigits, ⟨⟩⟩ := Option.map_eq_some_iff.mp hread
    obtain ⟨rfl, hall⟩ := isDigits_of_readDigits hdigits
  · exact ⟨['+'], digits, by decide, hall, rfl, rfl⟩
  · exact ⟨['-'], digits, by decide, hall, rfl, rfl⟩
  · exact ⟨[], digits, by decide, hall, rfl, rfl⟩

theorem isExponent_of_readExponent (hread : readExponent chars = some (literal, rest)) :
    chars = literal ++ rest ∧ IsExponent literal := by
  unfold readExponent at hread
  split at hread
  · obtain ⟨sign, digits, hsign, hdigits, rfl, rfl⟩ := exists_of_readExponentDigits hread
    exact ⟨rfl, .present (by decide) hsign hdigits⟩
  · obtain ⟨sign, digits, hsign, hdigits, rfl, rfl⟩ := exists_of_readExponentDigits hread
    exact ⟨rfl, .present (by decide) hsign hdigits⟩
  · obtain ⟨rfl, rfl⟩ := Prod.mk.inj (Option.some.inj hread)
    exact ⟨rfl, .absent⟩

theorem exists_of_readUnsigned (hread : readUnsigned chars = some (literal, rest)) :
    ∃ whole fraction exponent, IsWhole whole ∧ IsFraction fraction ∧ IsExponent exponent ∧
      literal = whole ++ fraction ++ exponent ∧ chars = literal ++ rest := by
  obtain ⟨⟨whole, _⟩, hreadWhole, hread⟩ := Option.bind_eq_some_iff.mp hread
  obtain ⟨⟨fraction, _⟩, hreadFraction, hread⟩ := Option.bind_eq_some_iff.mp hread
  obtain ⟨⟨exponent, _⟩, hreadExponent, hread⟩ := Option.bind_eq_some_iff.mp hread
  obtain ⟨rfl, rfl⟩ := Prod.mk.inj (Option.some.inj hread)
  obtain ⟨rfl, hwhole⟩ := isWhole_of_readWhole hreadWhole
  obtain ⟨rfl, hfraction⟩ := isFraction_of_readFraction hreadFraction
  obtain ⟨rfl, hexponent⟩ := isExponent_of_readExponent hreadExponent
  exact ⟨whole, fraction, exponent, hwhole, hfraction, hexponent, rfl, by simp⟩

theorem isNumber_of_readNumber (hread : readNumber chars = some (literal, rest)) :
    chars = literal ++ rest ∧ IsNumber literal := by
  unfold readNumber at hread
  split at hread
  · obtain ⟨⟨unsigned, _⟩, hunsigned, ⟨⟩⟩ := Option.map_eq_some_iff.mp hread
    obtain ⟨whole, fraction, exponent, hwhole, hfraction, hexponent, rfl, rfl⟩ :=
      exists_of_readUnsigned hunsigned
    exact ⟨rfl, .parts (by decide : ['-'] ∈ [[], ['-']]) hwhole hfraction hexponent⟩
  · obtain ⟨whole, fraction, exponent, hwhole, hfraction, hexponent, rfl, rfl⟩ :=
      exists_of_readUnsigned hread
    exact ⟨rfl, .parts (by decide : [] ∈ [[], ['-']]) hwhole hfraction hexponent⟩

end Numbers

/-! ### Values -/

/-- What is skipped are blanks. -/
theorem exists_blanks (chars : List Char) :
    ∃ blanks, Blanks blanks ∧ chars = blanks ++ skipBlank chars :=
  ⟨chars.takeWhile isBlank, List.all_eq_true.mp List.all_takeWhile,
    List.takeWhile_append_dropWhile.symm⟩

/-- Where the next character that is no blank is known, blanks stand in front of it. -/
theorem exists_blanks_of_head? {chars : List Char} {char : Char}
    (hhead : (skipBlank chars).head? = some char) :
    ∃ blanks, Blanks blanks ∧ chars = blanks ++ char :: (skipBlank chars).tail := by
  obtain ⟨blanks, hblanks, heq⟩ := exists_blanks chars
  obtain ⟨tail, htail⟩ := List.head?_eq_some_iff.mp hhead
  exact ⟨blanks, hblanks, by rw [htail, List.tail_cons, ← htail]; exact heq⟩

/-- A string between blanks in front of a colon is a key. -/
theorem exists_writesKey {chars behind afterKey afterColon : List Char} {key : List Nat}
    (hquote : skipBlank chars = '"' :: behind) (hkey : readString behind = some (key, afterKey))
    (hcolon : skipBlank afterKey = ':' :: afterColon) :
    ∃ name, chars = name ++ ':' :: afterColon ∧ WritesKey key name := by
  obtain ⟨front, hfront, hchars⟩ := exists_blanks chars
  obtain ⟨text, rfl, htext⟩ := spells_of_readString hkey
  obtain ⟨back, hback, hafter⟩ := exists_blanks afterKey
  rw [hquote] at hchars
  rw [hcolon] at hafter
  exact ⟨_, by rw [hchars, hafter]; simp, .quoted hfront hback htext⟩

mutual

/-- What is read as a value is a text that writes it, the blanks behind it included. -/
theorem writes_of_readValue : ∀ (fuel : Nat) {chars rest : List Char} {value : Json},
    readValue fuel chars = some (value, rest) →
      ∃ text, chars = text ++ skipBlank rest ∧ Writes value text
  | 0, _, _, _, hread => by cases hread
  | fuel + 1, chars, rest, value, hread => by
    have hbare : ∃ text, skipBlank chars = text ++ rest ∧ Writes value text := by
      unfold readValue at hread
      split at hread
      next behind heq =>
        cases hread
        exact ⟨_, heq, .null⟩
      next behind heq =>
        cases hread
        exact ⟨_, heq, .on⟩
      next behind heq =>
        cases hread
        exact ⟨_, heq, .off⟩
      next behind heq =>
        obtain ⟨⟨codes, _⟩, hcodes, ⟨⟩⟩ := Option.map_eq_some_iff.mp hread
        obtain ⟨text, rfl, htext⟩ := spells_of_readString hcodes
        exact ⟨_, by rw [heq]; simp, .string htext⟩
      next behind heq =>
        split at hread
        next hclosed =>
          cases hread
          obtain ⟨inner, hinner, hbehind⟩ := exists_blanks_of_head? hclosed
          exact ⟨'[' :: inner ++ [']'], by rw [heq]; simpa using hbehind, .emptyArray hinner⟩
        next =>
          obtain ⟨⟨items, _⟩, hitems, ⟨⟩⟩ := Option.map_eq_some_iff.mp hread
          obtain ⟨text, rfl, htext⟩ := writes_of_readItems fuel hitems
          exact ⟨_, by rw [heq]; simp, .array htext⟩
      next behind heq =>
        split at hread
        next hclosed =>
          cases hread
          obtain ⟨inner, hinner, hbehind⟩ := exists_blanks_of_head? hclosed
          exact ⟨'\x7b' :: inner ++ ['\x7d'], by rw [heq]; simpa using hbehind,
            .emptyObject hinner⟩
        next =>
          obtain ⟨⟨members, _⟩, hmembers, ⟨⟩⟩ := Option.map_eq_some_iff.mp hread
          obtain ⟨text, rfl, htext⟩ := writes_of_readMembers fuel hmembers
          exact ⟨_, by rw [heq]; simp, .object htext⟩
      next =>
        obtain ⟨⟨literal, _⟩, hliteral, ⟨⟩⟩ := Option.map_eq_some_iff.mp hread
        obtain ⟨heq, hnumber⟩ := isNumber_of_readNumber hliteral
        exact ⟨literal, heq, .number hnumber⟩
    obtain ⟨text, htext, hvalue⟩ := hbare
    obtain ⟨front, hfront, hchars⟩ := exists_blanks chars
    obtain ⟨back, hback, hrest⟩ := exists_blanks rest
    refine ⟨front ++ text ++ back, ?_, .padded hfront hback hvalue⟩
    rw [List.append_assoc, ← hrest, List.append_assoc, ← htext]
    exact hchars

theorem writes_of_readItems : ∀ (fuel : Nat) {chars rest : List Char} {items : List Json},
    readItems fuel chars = some (items, rest) →
      ∃ text, chars = text ++ ']' :: rest ∧ WritesItems items text
  | 0, _, _, _, hread => by cases hread
  | fuel + 1, chars, rest, items, hread => by
    unfold readItems at hread
    split at hread
    next => cases hread
    next item behind hitem =>
      obtain ⟨text, rfl, htext⟩ := writes_of_readValue fuel hitem
      split at hread
      next _ heq =>
        cases hread
        exact ⟨text, by rw [heq], .one htext⟩
      next _ heq =>
        obtain ⟨⟨others, _⟩, hothers, ⟨⟩⟩ := Option.map_eq_some_iff.mp hread
        obtain ⟨remaining, rfl, hremaining⟩ := writes_of_readItems fuel hothers
        exact ⟨_, by rw [heq, List.append_assoc]; rfl, .more htext hremaining⟩
      next => cases hread

theorem writes_of_readMembers : ∀ (fuel : Nat) {chars rest : List Char}
    {members : List (List Nat × Json)}, readMembers fuel chars = some (members, rest) →
      ∃ text, chars = text ++ '\x7d' :: rest ∧ WritesMembers members text
  | 0, _, _, _, hread => by cases hread
  | fuel + 1, chars, rest, members, hread => by
    unfold readMembers at hread
    split at hread
    next behind hquote =>
      split at hread
      next => cases hread
      next key afterKey hkey =>
        split at hread
        next afterColon hcolon =>
          obtain ⟨name, rfl, hname⟩ := exists_writesKey hquote hkey hcolon
          split at hread
          next => cases hread
          next value afterValue hvalue =>
            obtain ⟨text, rfl, htext⟩ := writes_of_readValue fuel hvalue
            split at hread
            next _ heq =>
              cases hread
              exact ⟨_, by rw [heq]; simp, .one hname htext⟩
            next _ heq =>
              obtain ⟨⟨others, _⟩, hothers, ⟨⟩⟩ := Option.map_eq_some_iff.mp hread
              obtain ⟨remaining, rfl, hremaining⟩ := writes_of_readMembers fuel hothers
              exact ⟨_, by rw [heq]; simp, .more hname htext hremaining⟩
            next => cases hread
        next => cases hread
    next => cases hread

end

/-- The values that are read are those that the grammar finds in the text. -/
theorem parse?_eq_some_iff {text : String} {value : Json} :
    parse? text = some value ↔ Writes value text.toList := by
  refine ⟨fun hparse => ?_, Writes.parse?⟩
  unfold parse? at hparse
  split at hparse
  next read rest hread =>
    obtain ⟨hend, heq⟩ := Option.ite_none_right_eq_some.mp hparse
    obtain rfl := Option.some.inj heq
    obtain ⟨written, htext, hvalue⟩ := writes_of_readValue _ hread
    rw [hend, List.append_nil] at htext
    rwa [htext]
  next => cases hparse

/-- No text writes two values. -/
theorem Writes.unique {first second : Json} {text : String} (hfirst : Writes first text.toList)
    (hsecond : Writes second text.toList) : first = second :=
  Option.some.inj ((parse?_eq_some_iff.mpr hfirst).symm.trans (parse?_eq_some_iff.mpr hsecond))

end PatternTree.Json
