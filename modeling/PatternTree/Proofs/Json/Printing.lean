import PatternTree.Proofs.Json
import PatternTree.Proofs.Json.Grammar

namespace PatternTree.Json

open Text (isHexDigit hexadecimalValue exists_toDigits_ten_eq_cons)

theorem isUnit_unitEscape {code : Nat} (hcode : code < 0x20) : IsUnit code (unitEscape code) := by
  have hcontrol : ∀ code < 0x20,
      unitEscape code = ['\\', 'u', '0', '0', (code / 16).digitChar, (code % 16).digitChar] ∧
        hexadecimalValue ['0', '0', (code / 16).digitChar, (code % 16).digitChar] = code ∧
        ['0', '0', (code / 16).digitChar, (code % 16).digitChar].all isHexDigit := by
    decide
  obtain ⟨hescape, hvalue, hall⟩ := hcontrol code hcode
  have hunit := IsUnit.digits hall
  rwa [hvalue, ← hescape] at hunit

/-- A character is printed so that it is read again in front of any string. -/
theorem Spells.codeChars_append {codes : List Nat} {chars : List Char}
    (hchars : Spells codes chars) (char : Char) :
    Spells (char.toNat :: codes) (codeChars char.toNat ++ chars) := by
  unfold codeChars
  split
  iterate 7
    next heq =>
      rw [heq]
      exact .letter rfl hchars
  next hquote hslash _ _ _ _ _ =>
    have hvalid : char.toNat.isValidChar := char.valid
    split
    next hcontrol =>
      have hcode : char.toNat < 0x20 := by simpa [hvalid] using hcontrol
      have hlow : ¬ IsHighHalf char.toNat := fun hhigh => by
        have hlower := hhigh.1
        omega
      exact .unit (isUnit_unitEscape hcode) (fun hhigh => absurd hhigh hlow) hchars
    next hprinted =>
      have hcode : 0x20 ≤ char.toNat := by
        simpa [hvalid] using hprinted
      rw [Char.ofNat_toNat]
      refine .plain hcode ?_ ?_ hchars
      · rintro rfl
        exact hquote rfl
      · rintro rfl
        exact hslash rfl

theorem spells_codes (text : String) : Spells (codes text) ((codes text).flatMap codeChars) := by
  have hchars : ∀ chars : List Char,
      Spells (chars.map Char.toNat) ((chars.map Char.toNat).flatMap codeChars) := by
    intro chars
    induction chars with
    | nil => exact .nil
    | cons char chars ih => exact ih.codeChars_append char
  exact hchars text.toList

theorem writesKey_codes (key : String) : WritesKey (codes key) (stringChars (codes key)) := by
  have hkey := WritesKey.quoted blanks_nil blanks_nil (spells_codes key)
  simpa [stringChars] using hkey

theorem writes_ofText (text : String) : Writes (ofText text) (ofText text).chars :=
  .string (spells_codes text)

theorem writes_bool (value : Bool) : Writes (bool value) (bool value).chars := by
  cases value
  · exact .off
  · exact .on

theorem writes_ofNat (number : Nat) : Writes (ofNat number) (ofNat number).chars := by
  have hdigits : IsDigits (Nat.toDigits 10 number) :=
    ⟨Nat.toDigits_ne_nil, fun char hchar =>
      Nat.isDigit_of_mem_toDigits (by decide) (by decide) hchar⟩
  have hwhole : IsWhole (Nat.toDigits 10 number) := by
    refine ⟨hdigits, fun hzero => ?_⟩
    obtain rfl | hpos := Nat.eq_zero_or_pos number
    · rfl
    · obtain ⟨first, digits, heq, hfirst⟩ := exists_toDigits_ten_eq_cons hpos
      rw [heq] at hzero
      exact absurd (Option.some.inj hzero) hfirst
  have hnumber := IsNumber.parts (List.mem_cons_self : [] ∈ [[], ['-']]) hwhole .absent .absent
  rw [List.nil_append, List.append_nil, List.append_nil] at hnumber
  exact .number hnumber

/-- An object is printed so that its members are read again, if their values are. -/
theorem writes_ofMembers {members : List (String × Json)}
    (hmembers : ∀ member ∈ members, Writes member.2 member.2.chars) :
    Writes (ofMembers members) (ofMembers members).chars := by
  rw [chars_ofMembers]
  cases members with
  | nil => exact .emptyObject blanks_nil
  | cons member members =>
    refine .object ?_
    induction members generalizing member with
    | nil =>
      obtain ⟨hmember, -⟩ := List.forall_mem_cons.mp hmembers
      exact .one (writesKey_codes member.1) hmember
    | cons other members ih =>
      obtain ⟨hmember, hmembers⟩ := List.forall_mem_cons.mp hmembers
      exact .more (writesKey_codes member.1) hmember (ih other hmembers)

theorem writes_compress_ofMembers {members : List (String × Json)}
    (hmembers : ∀ member ∈ members, Writes member.2 member.2.chars) :
    Writes (ofMembers members) (ofMembers members).compress.toList := by
  rw [compress, String.toList_ofList]
  exact writes_ofMembers hmembers

end PatternTree.Json
