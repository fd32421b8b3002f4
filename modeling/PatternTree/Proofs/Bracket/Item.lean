import PatternTree.Proofs.CharClass.Named
import PatternTree.Proofs.Cursor.Bracket
import PatternTree.Proofs.Token.Misspelling
import PatternTree.Proofs.Token.Outcomes

namespace PatternTree

namespace CharClass

/-- The letter of a set is in lower case, and the same letter in upper case names the same set. -/
theorem shorthand?_toUpper {letter : Char} {ranges : List ClassRange}
    (hset : shorthand? letter = some ranges) :
    (letter.isUpper = false ∧ shorthand? letter.toLower = some ranges) ∧
      letter.toUpper.isUpper = true ∧ shorthand? letter.toUpper.toLower = some ranges := by
  unfold shorthand? at hset
  split at hset <;> cases hset <;> decide

theorem toUpper_toLower {letter : Char} (hupper : letter.isUpper) :
    letter.toLower.toUpper = letter := by
  have hall : ∀ code ≤ 'Z'.toNat, 'A'.toNat ≤ code →
      (Char.ofNat code).toLower.toUpper = Char.ofNat code := by decide
  have hrange : 'A'.toNat ≤ letter.toNat ∧ letter.toNat ≤ 'Z'.toNat := of_decide_eq_true hupper
  rw [← Char.ofNat_toNat letter]
  exact hall letter.toNat hrange.2 hrange.1

/-- Only the two cases of a letter have it in common in lower case. -/
theorem eq_toUpper_of_shorthand? {letter : Char} {ranges : List ClassRange}
    (hset : shorthand? letter.toLower = some ranges) :
    if letter.isUpper then ∃ lower, letter = lower.toUpper ∧ shorthand? lower = some ranges
    else shorthand? letter = some ranges := by
  split
  next hupper =>
    exact ⟨letter.toLower, (toUpper_toLower hupper).symm, hset⟩
  next hupper =>
    have hrange : ¬ (letter.val ≥ 'A'.val ∧ letter.val ≤ 'Z'.val) :=
      fun hrange => hupper (decide_eq_true hrange)
    have hsame : letter.toLower = letter := dif_neg hrange
    rwa [hsame] at hset

theorem isAlphanum_of_shorthand? {letter : Char} {ranges : List ClassRange}
    (hset : shorthand? letter.toLower = some ranges) : letter.isAlphanum := by
  have hletter := eq_toUpper_of_shorthand? hset
  split at hletter
  next hupper =>
    have halpha : letter.isAlpha := Bool.or_eq_true_iff.mpr (.inl hupper)
    exact Bool.or_eq_true_iff.mpr (.inl halpha)
  · unfold shorthand? at hletter
    split at hletter <;> cases hletter <;> decide

end CharClass

/-- The letters of sets and of the backspace write no character. -/
theorem Escape.Spells.not_shorthand {letter char : Char} {body : List Char}
    (hspells : Escape.Spells letter body char) :
    CharClass.shorthand? letter.toLower = none ∧ letter ≠ 'b' := by
  cases hspells with
  | control hnamed => cases hnamed <;> decide
  | braced hchar =>
    subst hchar
    decide
  | fixed hchar =>
    obtain ⟨rfl, -⟩ | ⟨rfl, -⟩ := hchar <;> decide
  | self hself =>
    constructor
    · by_contra hset
      obtain ⟨ranges, hset⟩ := Option.ne_none_iff_exists'.mp hset
      rw [CharClass.isAlphanum_of_shorthand? hset] at hself
      cases hself
    · rintro rfl
      cases hself

namespace Bracket

/-- The names of sets are written with lower-case ASCII letters. -/
def IsSetName (name : List Char) : Prop :=
  name ≠ [] ∧ ∀ letter ∈ name, letter.isLower

/-- The item with which a text inside brackets starts, and what follows it. A bracket is a character
    where no set is named, and a backslash where it escapes nothing. -/
inductive ItemAt (classSyntax : ClassSyntax) : List Char → Item → List Char → Prop where
  | named {name rest : List Char} {member : Char → Bool} {ranges : List ClassRange}
      (hname : IsSetName name) (hset : CharClass.namedSet? (String.ofList name) = some member)
      (hranges : CharClass.Lists ranges member) :
      ItemAt classSyntax ('[' :: ':' :: (name ++ ':' :: ']' :: rest)) (.set ranges) rest
  | bracket {rest : List Char}
      (hplain : ∀ name after, IsSetName name → rest ≠ ':' :: (name ++ ':' :: ']' :: after)) :
      ItemAt classSyntax ('[' :: rest) (.char '[') rest
  | shorthand {letter : Char} {rest : List Char} {member : Char → Bool}
      {ranges : List ClassRange} (hpcre : classSyntax = .pcre)
      (hset : CharClass.letterSet? letter = some member)
      (hranges : CharClass.Lists ranges member) :
      ItemAt classSyntax ('\\' :: letter :: rest) (.set ranges) rest
  | outside {letter : Char} {rest : List Char} {member : Char → Bool}
      {others : List ClassRange} (hpcre : classSyntax = .pcre)
      (hset : CharClass.letterSet? letter = some member)
      (hothers : CharClass.Lists others fun char => !member char) :
      ItemAt classSyntax ('\\' :: letter.toUpper :: rest) (.set others) rest
  | backspace {rest : List Char} (hpcre : classSyntax = .pcre) :
      ItemAt classSyntax ('\\' :: 'b' :: rest) (.char '\x08') rest
  | escape {letter char : Char} {body rest : List Char} (hpcre : classSyntax = .pcre)
      (hspells : Escape.Spells letter body char) :
      ItemAt classSyntax ('\\' :: letter :: (body ++ rest)) (.char char) rest
  | plain {char : Char} {rest : List Char} (hbracket : char ≠ '[')
      (hbackslash : char = '\\' → classSyntax = .posix) :
      ItemAt classSyntax (char :: rest) (.char char) rest

/-- Why a text inside brackets starts with no item: a name that no set has, or an escape that writes
    no character. -/
inductive NoItemAt (classSyntax : ClassSyntax) : List Char → LexCause → Prop where
  | unknown {name rest : List Char} (hname : IsSetName name)
      (hset : CharClass.namedSet? (String.ofList name) = none) :
      NoItemAt classSyntax ('[' :: ':' :: (name ++ ':' :: ']' :: rest))
        (.unknownSet (String.ofList name))
  | ends (hpcre : classSyntax = .pcre) : NoItemAt classSyntax ['\\'] .openClassEscape
  | escape {letter : Char} {rest : List Char} {cause : LexCause} (hpcre : classSyntax = .pcre)
      (hset : CharClass.letterSet? letter.toLower = none) (hbackspace : letter ≠ 'b')
      (hmisspells : Escape.Misspells letter rest cause) :
      NoItemAt classSyntax ('\\' :: letter :: rest) cause

section Items

variable {classSyntax : ClassSyntax} {char : Char} {chars name rest : List Char} {item : Item}
  {cause : LexCause}

theorem ItemAt.ne_nil (hitem : ItemAt classSyntax chars item rest) : chars ≠ [] := by
  cases hitem <;> exact List.cons_ne_nil _ _

theorem NoItemAt.ne_nil (hitem : NoItemAt classSyntax chars cause) : chars ≠ [] := by
  cases hitem <;> exact List.cons_ne_nil _ _

/-- A name that stands for a set is an item between its colons. -/
theorem ItemAt.of_named? (hname : IsSetName name) {ranges : List ClassRange}
    (hset : CharClass.named? (String.ofList name) = some ranges) (rest : List Char) :
    ItemAt classSyntax ('[' :: ':' :: (name ++ ':' :: ']' :: rest)) (.set ranges) rest := by
  obtain ⟨member, hset, hranges⟩ := CharClass.named?_eq_some_iff.mp hset
  exact .named hname hset hranges

/-- A letter that stands for a set is an item behind a backslash. -/
theorem ItemAt.of_shorthand? {letter : Char} {ranges : List ClassRange}
    (hset : CharClass.shorthand? letter = some ranges) (rest : List Char) :
    ItemAt .pcre ('\\' :: letter :: rest) (.set ranges) rest := by
  obtain ⟨member, hset, hranges⟩ := CharClass.shorthand?_eq_some_iff.mp hset
  exact .shorthand rfl hset hranges

/-- A name between colons is read up to the bracket behind it. -/
theorem readNamedSet_of_name (hname : IsSetName name) (rest : List Char) :
    readNamedSet (':' :: (name ++ ':' :: ']' :: rest)) =
      match CharClass.named? (String.ofList name) with
      | some ranges => .ok (.set ranges, rest)
      | none => .error (.unknownSet (String.ofList name)) := by
  obtain ⟨htake, hdrop⟩ := Text.takeWhile_dropWhile_append_cons hname.2
    (by decide : (':').isLower = false) (']' :: rest)
  obtain ⟨first, others, rfl⟩ := List.exists_cons_of_ne_nil hname.1
  cases hset : CharClass.named? (String.ofList (first :: others)) <;>
    simp only [readNamedSet, htake, hdrop, hset]

/-- A bracket that names no set is a character. -/
theorem readNamedSet_of_plain
    (hplain : ∀ name after, IsSetName name → rest ≠ ':' :: (name ++ ':' :: ']' :: after)) :
    readNamedSet rest = .ok (.char '[', rest) := by
  by_cases hcolon : rest.head? = some ':'
  · obtain ⟨named, rfl⟩ := List.head?_eq_some_iff.mp hcolon
    refine Cursor.readNamedSet_of_plain fun first name after hlower hnamed => ?_
    exact hplain (first :: name) after ⟨List.cons_ne_nil _ _, hlower⟩ (congrArg _ hnamed)
  · unfold readNamedSet
    split
    · exact absurd rfl hcolon
    · rfl

theorem ItemAt.readItem_eq (hitem : ItemAt classSyntax (char :: chars) item rest) :
    readItem classSyntax char chars = .ok (item, rest) := by
  cases hitem with
  | named hname hset hranges =>
    have hfound := CharClass.named?_eq_some_iff.mpr ⟨_, hset, hranges⟩
    simp only [readItem, readNamedSet_of_name hname, hfound]
  | bracket hplain => exact readNamedSet_of_plain hplain
  | shorthand hpcre hset hranges =>
    subst hpcre
    obtain ⟨⟨hlower, hfound⟩, -⟩ := CharClass.shorthand?_toUpper
      (CharClass.shorthand?_eq_some_iff.mpr ⟨_, hset, hranges⟩)
    simp [readItem, readEscape, hfound, hlower]
  | outside hpcre hset hothers =>
    subst hpcre
    obtain ⟨ranges, hfound, hranges⟩ := CharClass.exists_shorthand? hset
    obtain ⟨-, hupper, hfound⟩ := CharClass.shorthand?_toUpper hfound
    have hcomplement := hranges.complement.unique hothers
    simp only [readItem, readEscape, hfound, hupper, if_true, hcomplement]
  | backspace hpcre =>
    subst hpcre
    rfl
  | escape hpcre hspells =>
    subst hpcre
    obtain ⟨hset, hbackspace⟩ := hspells.not_shorthand
    have hread := hspells.readCharacter_eq rest
    simp [readItem, readEscape, hset, hbackspace, hread]
  | plain hbracket hbackslash =>
    rw [readItem]
    · exact hbracket
    · intro hchar hpcre
      rw [hbackslash hchar] at hpcre
      cases hpcre

theorem NoItemAt.readItem_eq (hitem : NoItemAt classSyntax (char :: chars) cause) :
    readItem classSyntax char chars = .error cause := by
  cases hitem with
  | unknown hname hset =>
    have hnone := CharClass.named?_eq_none_iff.mpr hset
    simp only [readItem, readNamedSet_of_name hname, hnone]
  | ends hpcre =>
    subst hpcre
    rfl
  | escape hpcre hset hbackspace hmisspells =>
    subst hpcre
    have hnone := CharClass.shorthand?_eq_none_iff.mpr hset
    simp [readItem, readEscape, hnone, hbackspace, hmisspells.readCharacter_eq]

/-- What follows a backslash that escapes is an item or none for one of the reasons. -/
theorem itemAt_or_noItemAt_escape (chars : List Char) :
    (∃ item rest, ItemAt .pcre ('\\' :: chars) item rest) ∨
      ∃ cause, NoItemAt .pcre ('\\' :: chars) cause := by
  cases chars with
  | nil => exact .inr ⟨_, .ends rfl⟩
  | cons letter chars =>
    cases hset : CharClass.shorthand? letter.toLower with
    | some ranges =>
      have hletter := CharClass.eq_toUpper_of_shorthand? hset
      split at hletter
      · obtain ⟨lower, rfl, hlower⟩ := hletter
        obtain ⟨member, hlower, hranges⟩ := CharClass.shorthand?_eq_some_iff.mp hlower
        exact .inl ⟨_, _, .outside rfl hlower hranges.complement⟩
      · exact .inl ⟨_, _, .of_shorthand? hletter chars⟩
    | none =>
      by_cases hbackspace : letter = 'b'
      · subst hbackspace
        exact .inl ⟨_, _, .backspace rfl⟩
      · obtain ⟨body, rest, written, rfl, hspells⟩ | ⟨cause, hmisspells⟩ :=
          Escape.settles letter chars
        · exact .inl ⟨_, _, .escape rfl hspells⟩
        · exact .inr ⟨_, .escape rfl (CharClass.shorthand?_eq_none_iff.mp hset) hbackspace
            hmisspells⟩

/-- A text that does not end starts with an item or with none for one of the reasons. -/
theorem itemAt_or_noItemAt (classSyntax : ClassSyntax) (char : Char) (chars : List Char) :
    (∃ item rest, ItemAt classSyntax (char :: chars) item rest) ∨
      ∃ cause, NoItemAt classSyntax (char :: chars) cause := by
  by_cases hbracket : char = '['
  · subst hbracket
    by_cases hnamed : ∃ name after, IsSetName name ∧ chars = ':' :: (name ++ ':' :: ']' :: after)
    · obtain ⟨name, after, hname, rfl⟩ := hnamed
      cases hset : CharClass.named? (String.ofList name) with
      | some ranges => exact .inl ⟨_, _, .of_named? hname hset after⟩
      | none => exact .inr ⟨_, .unknown hname (CharClass.named?_eq_none_iff.mp hset)⟩
    · exact .inl ⟨_, _, .bracket fun name after hname hchars => hnamed ⟨name, after, hname, hchars⟩⟩
  · by_cases hescape : char = '\\' ∧ classSyntax = .pcre
    · obtain ⟨rfl, rfl⟩ := hescape
      exact itemAt_or_noItemAt_escape chars
    · refine .inl ⟨_, _, .plain hbracket fun hchar => ?_⟩
      cases classSyntax with
      | posix => rfl
      | pcre => exact absurd ⟨hchar, rfl⟩ hescape

/-- An escape that is cut off is no item, and no other cause is reported as one. -/
theorem NoItemAt.family_eq_iff (hitem : NoItemAt classSyntax chars cause) :
    cause.family = .unterminatedEscape ↔
      classSyntax = .pcre ∧ ∃ body, chars = '\\' :: body ∧ Escape.Unfinished body := by
  cases hitem with
  | unknown => simp [LexCause.family]
  | ends hpcre => exact ⟨fun _ => ⟨hpcre, [], rfl, .backslash⟩, fun _ => rfl⟩
  | escape hpcre hset hbackspace hmisspells =>
    rw [hmisspells.family_eq_iff]
    constructor
    · exact fun hunfinished => ⟨hpcre, _, rfl, hunfinished⟩
    · rintro ⟨-, body, hbody, hunfinished⟩
      rwa [(List.cons.inj hbody).2]

theorem NoItemAt.family_ne (hitem : NoItemAt classSyntax chars cause) :
    cause.family ≠ .unterminatedClass := by
  cases hitem with
  | unknown => exact nofun
  | ends => exact nofun
  | escape _ _ _ hmisspells => exact hmisspells.family_ne

/-- No item is cut off inside an escape. -/
theorem ItemAt.not_unfinished {body : List Char}
    (hitem : ItemAt .pcre ('\\' :: body) item rest) : ¬ Escape.Unfinished body := by
  intro hunfinished
  cases hitem with
  | shorthand _ hset => obtain rfl | rfl := hunfinished.letter <;> cases hset
  | outside _ hset =>
    obtain ⟨ranges, hfound, -⟩ := CharClass.exists_shorthand? hset
    obtain ⟨-, hupper, -⟩ := CharClass.shorthand?_toUpper hfound
    obtain hletter | hletter := hunfinished.letter <;> rw [hletter] at hupper <;> cases hupper
  | backspace => exact absurd hunfinished.letter (by decide)
  | escape _ hspells =>
    have hread := hunfinished.misspells.readCharacter_eq
    rw [hspells.readCharacter_eq] at hread
    cases hread
  | plain _ hbackslash => cases hbackslash rfl

end Items

end Bracket

end PatternTree
