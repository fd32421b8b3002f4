import PatternTree.Proofs.Cursor.Escape

namespace PatternTree

namespace Text

/-- The offset at which a text first occurs in another one. -/
def find? (needle : List Char) : List Char → Option Nat
  | [] => if needle.isEmpty then some 0 else none
  | char :: chars =>
    if needle.isPrefixOf (char :: chars) then some 0
    else (find? needle chars).map (char.utf8Size + ·)

theorem exists_of_find?_eq_some {needle chars : List Char} {offset : Nat}
    (hfind : find? needle chars = some offset) :
    ∃ front back, chars = front ++ (needle ++ back) ∧ offset = utf8Size front := by
  induction chars generalizing offset with
  | nil =>
    rw [find?] at hfind
    split at hfind
    next hempty =>
      cases hfind
      exact ⟨[], [], by simpa using hempty, rfl⟩
    · cases hfind
  | cons char chars ih =>
    rw [find?] at hfind
    split at hfind
    next hprefix =>
      cases hfind
      obtain ⟨back, hback⟩ := List.isPrefixOf_iff_prefix.mp hprefix
      exact ⟨[], back, hback.symm, rfl⟩
    · obtain ⟨inner, hinner, rfl⟩ := Option.map_eq_some_iff.mp hfind
      obtain ⟨front, back, rfl, rfl⟩ := ih hinner
      exact ⟨char :: front, back, rfl, rfl⟩

/-- A text is found behind characters none of which it starts with. -/
theorem find?_append_cons {front : List Char} {first : Char} (hfront : first ∉ front)
    (needle back : List Char) :
    find? (first :: needle) (front ++ (first :: needle ++ back)) = some (utf8Size front) := by
  induction front with
  | nil =>
    have hprefix : (first :: needle).isPrefixOf (first :: needle ++ back) := by simp
    rw [List.nil_append, List.cons_append, find?, ← List.cons_append, if_pos hprefix, utf8Size]
  | cons char front ih =>
    obtain ⟨hchar, hothers⟩ := not_or.mp (List.mem_cons.not.mp hfront)
    have hprefix :
        ¬ (first :: needle).isPrefixOf (char :: (front ++ (first :: needle ++ back))) := by
      simp [hchar]
    rw [List.cons_append, find?, if_neg hprefix, ih hothers, Option.map_some, utf8Size]

end Text

namespace Cursor

open Work

/-- Takes the rest of `[:name:]` behind its opening bracket where a colon stands. -/
def namedSet (start : Nat) : Cursor Bracket.Item := do
  let inside ← demand (Text.dropBytes? 1 (← Cursor.rest))
  match Text.find? [':', ']'] inside with
  | none => return .char '['
  | some stop => do
    let name ← demand (Text.takeBytes? stop inside)
    if name.isEmpty || !name.all Char.isLower then return .char '['
    else
      match CharClass.named? (String.ofList name) with
      | none => fail (.unknownSet (String.ofList name)) start
      | some ranges => do
        skip (1 + stop + 2)
        return .set ranges

/-- Takes what follows a backslash where escapes are known inside brackets. -/
def classEscape (start : Nat) : Cursor Bracket.Item := do
  match ← bump with
  | none => fail .openClassEscape start
  | some char =>
    match CharClass.shorthand? char.toLower with
    | some ranges =>
      return .set (if char.isUpper then CharClass.complement ranges else ranges)
    | none =>
      if char = 'b' then return .char '\x08' else return .char (← character char start)

/-- Takes the rest of an item of which `char` is the first character. -/
def item (classSyntax : ClassSyntax) (char : Char) (start : Nat) : Cursor Bracket.Item := do
  if char = '[' then do
    if (← Cursor.rest).head? = some ':' then namedSet start else return .char char
  else if char = '\\' ∧ classSyntax = .pcre then classEscape start
  else return .char char

/-- Whether the character before the offset is the lower end of a range. -/
def rangeFollows : Cursor Bool := do
  let after ← Cursor.rest
  if after.head? ≠ some '-' then return false
  else if Text.utf8Size after = 1 then return false
  else return (← demand (Text.dropBytes? 1 after)).head? ≠ some ']'

/-- Takes the dash and the upper end of a range. -/
def rangeEnd (classSyntax : ClassSyntax) (low : Char) (start itemStart : Nat) :
    Cursor (List ClassRange) := do
  skip 1
  let highStart ← position
  match ← bump with
  | none => fail .openClass start
  | some char => do
    match ← item classSyntax char highStart with
    | .set _ => fail .setEndsRange itemStart
    | .char high =>
      if high < low then fail (.rangeOutOfOrder low high) itemStart
      else return [⟨low, high⟩]

/-- Takes the rest of a member of which `char` is the first character. -/
def member (classSyntax : ClassSyntax) (char : Char) (start itemStart : Nat) :
    Cursor (List ClassRange) := do
  match ← item classSyntax char itemStart with
  | .set ranges => return ranges
  | .char low =>
    if ← rangeFollows then rangeEnd classSyntax low start itemStart
    else return [.single low]

/-- Takes one member, or the bracket at the end, which may not be the first thing inside. -/
def memberTurn (classSyntax : ClassSyntax) (start : Nat) (state : List ClassRange × Bool) :
    Cursor (Turn (List ClassRange × Bool) (List ClassRange)) := do
  let itemStart ← position
  match ← bump with
  | none => fail .openClass start
  | some char =>
    if char = ']' ∧ state.2 = false then return .leave state.1
    else return .again (state.1 ++ (← member classSyntax char start itemStart), false)

/-- Takes what follows an opening bracket. -/
def bracket (classSyntax : ClassSyntax) (start : Nat) : Cursor CharClass := do
  let negated ← eat '^'
  return ⟨negated, ← loop (memberTurn classSyntax start) ([], true)⟩

variable {chars rest : List Char} {char : Char} {classSyntax : ClassSyntax}

theorem dropBytes?_one {char : Char} (hchar : char.utf8Size = 1) (chars : List Char) :
    Text.dropBytes? 1 (char :: chars) = some chars := by
  have hsize : Text.utf8Size [char] = 1 := by rw [Text.utf8Size, hchar, Text.utf8Size]
  rw [← hsize]
  exact Text.dropBytes?_utf8Size [char] chars

/-- A name of lower-case letters between colons is taken with the bracket behind it. -/
theorem namedSet_apply_of_name {first : Char} {name after : List Char}
    (hname : ∀ char ∈ first :: name, char.isLower)
    (hsuffix : ':' :: (first :: name ++ ':' :: ']' :: after) <:+ chars) (place : List Char) :
    namedSet (Text.offsetOf chars place) chars
        (Text.offsetOf chars (':' :: (first :: name ++ ':' :: ']' :: after))) =
      ((Bracket.readNamedSet (':' :: (first :: name ++ ':' :: ']' :: after))).placed
        place).outcome chars := by
  have hcolon : ':' ∉ first :: name := fun hmem => absurd (hname ':' hmem) (by decide)
  have hfind : Text.find? [':', ']'] (first :: name ++ ':' :: ']' :: after) =
      some (Text.utf8Size (first :: name)) := Text.find?_append_cons hcolon [']'] after
  have htake := Text.takeBytes?_utf8Size (first :: name) (':' :: ']' :: after)
  have hall : (first :: name).all Char.isLower := List.all_eq_true.mpr hname
  obtain ⟨hwhile, hbehind⟩ := Text.takeWhile_dropWhile_append_cons hname
    (by decide : (':').isLower = false) (']' :: after)
  have hbody : (':' :: (first :: name ++ [':', ']'])) ++ after =
      ':' :: (first :: name ++ ':' :: ']' :: after) := by simp
  have hstop := Text.offsetOf_of_append (hbody.symm ▸ hsuffix)
  have hsize : Text.utf8Size (':' :: (first :: name ++ [':', ']'])) =
      1 + Text.utf8Size (first :: name) + 2 := by
    rw [Text.utf8Size, Text.utf8Size_append, ← Nat.add_assoc]
    rfl
  rw [hbody, hsize] at hstop
  simp only [namedSet, bind_apply, rest_apply hsuffix, Outcome.done_andThen,
    dropBytes?_one (by decide : (':').utf8Size = 1), demand_some, pure_apply, hfind, htake,
    Bracket.readNamedSet, hwhile, hbehind, hall, List.isEmpty_cons, Bool.not_true, Bool.or_self,
    Bool.false_eq_true, if_false]
  cases CharClass.named? (String.ofList (first :: name)) with
  | none => rfl
  | some ranges => simp [hstop]

/-- Where no name is read, the bracket stands for itself. -/
theorem namedSet_apply_of_plain
    (hplain : ∀ first name after, (∀ char ∈ first :: name, char.isLower) →
      rest ≠ first :: name ++ ':' :: ']' :: after)
    (hsuffix : ':' :: rest <:+ chars) (start : Nat) :
    namedSet start chars (Text.offsetOf chars (':' :: rest)) =
      .done (.char '[') (Text.offsetOf chars (':' :: rest)) := by
  simp only [namedSet, bind_apply, rest_apply hsuffix, Outcome.done_andThen,
    dropBytes?_one (by decide : (':').utf8Size = 1), demand_some, pure_apply]
  cases hfind : Text.find? [':', ']'] rest with
  | none => rfl
  | some stop =>
    obtain ⟨front, after, rfl, rfl⟩ := Text.exists_of_find?_eq_some hfind
    have hfront : (front.isEmpty || !front.all Char.isLower) = true := by
      cases front with
      | nil => rfl
      | cons first name =>
        rw [List.isEmpty_cons, Bool.false_or, Bool.not_eq_true', Bool.eq_false_iff]
        intro hall
        exact hplain first name after (List.all_eq_true.mp hall) rfl
    simp only [Text.takeBytes?_utf8Size, demand_some, bind_apply, pure_apply,
      Outcome.done_andThen, hfront, if_true]

theorem readNamedSet_of_plain
    (hplain : ∀ first name after, (∀ char ∈ first :: name, char.isLower) →
      rest ≠ first :: name ++ ':' :: ']' :: after) :
    Bracket.readNamedSet (':' :: rest) = .ok (.char '[', ':' :: rest) := by
  simp only [Bracket.readNamedSet]
  split
  next first name after htake hdrop =>
    obtain ⟨hrest, hname, -⟩ := Text.takeWhile_dropWhile_eq_iff.mp ⟨htake, hdrop⟩
    exact absurd hrest (hplain first name after hname)
  · rfl

theorem namedSet_apply (hsuffix : ':' :: rest <:+ chars) (place : List Char) :
    namedSet (Text.offsetOf chars place) chars (Text.offsetOf chars (':' :: rest)) =
      ((Bracket.readNamedSet (':' :: rest)).placed place).outcome chars := by
  by_cases hplain : ∀ first name after, (∀ char ∈ first :: name, char.isLower) →
      rest ≠ first :: name ++ ':' :: ']' :: after
  · rw [namedSet_apply_of_plain hplain hsuffix, readNamedSet_of_plain hplain]
    rfl
  · simp only [not_forall, not_not] at hplain
    obtain ⟨first, name, after, hname, rfl⟩ := hplain
    exact namedSet_apply_of_name hname hsuffix place

theorem classEscape_apply (hsuffix : rest <:+ chars) (place : List Char)
    (hfits : Escape.DigitsFit rest) :
    classEscape (Text.offsetOf chars place) chars (Text.offsetOf chars rest) =
      ((Bracket.readEscape rest).placed place).outcome chars := by
  cases rest with
  | nil => simp [classEscape, bump_apply_nil, Bracket.readEscape]
  | cons char rest =>
    have hrest := (List.suffix_cons char rest).trans hsuffix
    simp only [classEscape, bind_apply, bump_apply_cons hsuffix, Outcome.done_andThen,
      Bracket.readEscape]
    cases CharClass.shorthand? char.toLower with
    | some ranges => rfl
    | none =>
      dsimp only
      by_cases hb : char = 'b'
      · rw [if_pos hb, if_pos hb]
        rfl
      · rw [if_neg hb, if_neg hb, bind_apply, character_apply hrest place hfits]
        exact (Reading.outcome_placed_convert _ _ _ _).symm

theorem item_apply (hfits : Text.DigitsFit chars) (hsuffix : char :: rest <:+ chars)
    (place : List Char) :
    item classSyntax char (Text.offsetOf chars place) chars (Text.offsetOf chars rest) =
      ((Bracket.readItem classSyntax char rest).placed place).outcome chars := by
  have hrest := (List.suffix_cons char rest).trans hsuffix
  rw [item]
  by_cases hbracket : char = '['
  · subst hbracket
    simp only [if_true, bind_apply, rest_apply hrest, Outcome.done_andThen, Bracket.readItem]
    cases rest with
    | nil => rfl
    | cons next rest =>
      by_cases hcolon : next = ':'
      · subst hcolon
        exact namedSet_apply hrest place
      · simp [hcolon, Bracket.readNamedSet]
  · rw [if_neg hbracket]
    by_cases hescape : char = '\\' ∧ classSyntax = .pcre
    · obtain ⟨rfl, rfl⟩ := hescape
      exact classEscape_apply hrest place (hfits rest hsuffix)
    · rw [if_neg hescape, Bracket.readItem]
      · rfl
      · exact hbracket
      · exact fun hchar hsyntax => hescape ⟨hchar, hsyntax⟩

/-- A range follows where a dash stands and then neither a closing bracket nor the end. -/
theorem rangeFollows_apply_dash {next : Char} (hsuffix : '-' :: next :: rest <:+ chars) :
    rangeFollows chars (Text.offsetOf chars ('-' :: next :: rest)) =
      .done (next ≠ ']') (Text.offsetOf chars ('-' :: next :: rest)) := by
  have hsize : Text.utf8Size ('-' :: next :: rest) ≠ 1 := by
    have hpos := next.utf8Size_pos
    have hdash : ('-').utf8Size = 1 := rfl
    simp only [Text.utf8Size]
    omega
  simp [rangeFollows, rest_apply hsuffix, hsize, dropBytes?_one (by decide : ('-').utf8Size = 1)]

theorem rangeFollows_apply_of_plain (hsuffix : rest <:+ chars)
    (hplain : ∀ next after, rest ≠ '-' :: next :: after) :
    rangeFollows chars (Text.offsetOf chars rest) = .done false (Text.offsetOf chars rest) := by
  match rest with
  | [] => simp [rangeFollows, rest_apply hsuffix]
  | [char] =>
    by_cases hdash : char = '-'
    · subst hdash
      have hsize : Text.utf8Size ['-'] = 1 := rfl
      simp [rangeFollows, rest_apply hsuffix, hsize]
    · simp [rangeFollows, rest_apply hsuffix, hdash]
  | char :: next :: after =>
    have hdash : char ≠ '-' := by
      rintro rfl
      exact hplain next after rfl
    simp [rangeFollows, rest_apply hsuffix, hdash]

theorem rangeEnd_apply (hfits : Text.DigitsFit chars) {next : Char}
    (hsuffix : '-' :: next :: rest <:+ chars) (low : Char) (start : Nat) (place : List Char) :
    rangeEnd classSyntax low start (Text.offsetOf chars place) chars
        (Text.offsetOf chars ('-' :: next :: rest)) =
      Reading.outcome chars
        (match (Bracket.readItem classSyntax next rest).placed (next :: rest) with
        | .error fault => .error fault
        | .ok (.set _, _) => .error ⟨.setEndsRange, place⟩
        | .ok (.char high, rest) =>
          if high < low then .error ⟨.rangeOutOfOrder low high, place⟩
          else .ok ([⟨low, high⟩], rest)) := by
  have hnext := (List.suffix_cons '-' (next :: rest)).trans hsuffix
  have hdash : Text.offsetOf chars ('-' :: next :: rest) + 1 = Text.offsetOf chars (next :: rest) :=
    (Text.offsetOf_of_cons hsuffix).symm
  simp only [rangeEnd, bind_apply, skip_apply, hdash, position_apply, Outcome.done_andThen,
    bump_apply_cons hnext, item_apply hfits hnext]
  cases Bracket.readItem classSyntax next rest with
  | error cause => simp
  | ok read =>
    obtain ⟨item, after⟩ := read
    cases item with
    | set ranges => simp
    | char high => by_cases horder : high < low <;> simp [horder]

theorem readMember_of_plain {low : Char} {after : List Char}
    (hitem : Bracket.readItem classSyntax char rest = .ok (.char low, after))
    (hplain : ∀ next behind, after ≠ '-' :: next :: behind) :
    Bracket.readMember classSyntax char rest = .ok ([.single low], after) := by
  have hplaced := Reading.placed_of_ok hitem (char :: rest)
  simp only [Bracket.readMember, hplaced]

theorem member_apply (hfits : Text.DigitsFit chars) (hsuffix : char :: rest <:+ chars)
    (start : Nat) :
    member classSyntax char start (Text.offsetOf chars (char :: rest)) chars
        (Text.offsetOf chars rest) =
      (Bracket.readMember classSyntax char rest).outcome chars := by
  have hrest := (List.suffix_cons char rest).trans hsuffix
  simp only [member, bind_apply, item_apply hfits hsuffix]
  cases hitem : Bracket.readItem classSyntax char rest with
  | error cause => simp [Bracket.readMember, hitem]
  | ok read =>
    obtain ⟨item, after⟩ := read
    have hafter := (Bracket.readItem_leavesEnd classSyntax char rest _ _ hitem).trans hrest
    cases item with
    | set ranges => simp [Bracket.readMember_of_set hitem]
    | char low =>
      by_cases hplain : ∀ next behind, after ≠ '-' :: next :: behind
      · simp [rangeFollows_apply_of_plain hafter hplain, readMember_of_plain hitem hplain]
      · simp only [not_forall, not_not] at hplain
        obtain ⟨next, behind, rfl⟩ := hplain
        simp only [Bracket.readMember, hitem, Reading.placed_ok, Reading.outcome_ok,
          Outcome.done_andThen, bind_apply, rangeFollows_apply_dash hafter]
        by_cases hlast : next = ']'
        · simp [hlast]
        · simp only [hlast, ne_eq, not_false_eq_true, decide_true, if_true, if_false]
          exact rangeEnd_apply hfits hafter low start (char :: rest)

/-- What is left to read of a bracket expression behind some of its ranges. Only the first thing
    inside is a member for certain. -/
def bracketMembers (classSyntax : ClassSyntax) (place : List Char)
    (state : List ClassRange × Bool) (rest : List Char) : Reading Fault (List ClassRange) :=
  if rest.head? = some ']' ∧ state.2 = false then .ok (state.1, rest.tail)
  else (Bracket.readMembers classSyntax place rest).convert (state.1 ++ ·)

theorem bracketMembers_of_ok {place after : List Char} {ranges : List ClassRange}
    (hmember : Bracket.readMember classSyntax char rest = .ok (ranges, after))
    {state : List ClassRange × Bool} (hclose : ¬ (char = ']' ∧ state.2 = false)) :
    bracketMembers classSyntax place state (char :: rest) =
      bracketMembers classSyntax place (state.1 ++ ranges, false) after := by
  have hopen : ¬ ((char :: rest).head? = some ']' ∧ state.2 = false) := by simpa using hclose
  rw [bracketMembers, if_neg hopen, bracketMembers]
  by_cases hafter : after.head? = some ']'
  · obtain ⟨behind, rfl⟩ : ∃ behind, after = ']' :: behind := by
      cases after with
      | nil => cases hafter
      | cons first behind => exact ⟨behind, by rw [Option.some.inj hafter]⟩
    rw [Bracket.readMembers_of_last hmember]
    rfl
  · rw [Bracket.readMembers_of_more hmember hafter, if_neg fun hlast => hafter hlast.1]
    simp

theorem memberTurn_apply (hfits : Text.DigitsFit chars) (hsuffix : rest <:+ chars)
    (place : List Char) (state : List ClassRange × Bool) :
    loop (memberTurn classSyntax (Text.offsetOf chars place)) state chars
        (Text.offsetOf chars rest) =
      (bracketMembers classSyntax place state rest).outcome chars := by
  refine loop_apply (bracketMembers classSyntax place) ?_ hsuffix state
  intro state rest hrest
  cases rest with
  | nil =>
    refine .inr ?_
    simp [memberTurn, bump_apply_nil, bracketMembers, Bracket.readMembers]
  | cons char rest =>
    by_cases hclose : char = ']' ∧ state.2 = false
    · obtain ⟨rfl, hstate⟩ := hclose
      refine .inr ?_
      simp [memberTurn, bump_apply_cons hrest, bracketMembers, hstate]
    · have hturn : memberTurn classSyntax (Text.offsetOf chars place) state chars
          (Text.offsetOf chars (char :: rest)) =
            ((Bracket.readMember classSyntax char rest).outcome chars).andThen fun ranges stop =>
              .done (.again (state.1 ++ ranges, false)) stop := by
        simp only [memberTurn, bind_apply, position_apply, Outcome.done_andThen,
          bump_apply_cons hrest, if_neg hclose, member_apply hfits hrest, pure_apply]
      cases hmember : Bracket.readMember classSyntax char rest with
      | error fault =>
        refine .inr ?_
        have hopen : ¬ ((char :: rest).head? = some ']' ∧ state.2 = false) := by
          simpa using hclose
        rw [hturn, hmember, bracketMembers, if_neg hopen, Bracket.readMembers_of_error hmember]
        rfl
      | ok read =>
        obtain ⟨ranges, after⟩ := read
        have hafter := Bracket.readMember_leavesEnd classSyntax char rest _ _ hmember
        have hlength := hafter.length_le
        refine .inl ⟨(state.1 ++ ranges, false), after, hafter.trans (List.suffix_cons _ _),
          Nat.lt_succ_of_le hlength, ?_, bracketMembers_of_ok hmember hclose⟩
        rw [hturn, hmember]
        rfl

theorem bracket_apply (hfits : Text.DigitsFit chars) (hsuffix : rest <:+ chars)
    (place : List Char) :
    bracket classSyntax (Text.offsetOf chars place) chars (Text.offsetOf chars rest) =
      (Bracket.read classSyntax place rest).outcome chars := by
  have hmembers : ∀ rest, rest <:+ chars → ∀ negated,
      ((loop (memberTurn classSyntax (Text.offsetOf chars place)) ([], true) chars
        (Text.offsetOf chars rest)).andThen fun ranges stop =>
          (pure ⟨negated, ranges⟩ : Cursor CharClass) chars stop) =
      ((Bracket.readMembers classSyntax place rest).convert (⟨negated, ·⟩)).outcome chars := by
    intro rest hrest negated
    rw [memberTurn_apply hfits hrest, Reading.outcome_convert, bracketMembers, if_neg (by simp)]
    cases Bracket.readMembers classSyntax place rest <;> rfl
  simp only [bracket, bind_apply]
  cases rest with
  | nil =>
    rw [eat_apply_nil]
    exact hmembers [] hsuffix false
  | cons char rest =>
    rw [eat_apply_cons hsuffix]
    by_cases hnegated : char = '^'
    · subst hnegated
      exact hmembers rest ((List.suffix_cons _ _).trans hsuffix) true
    · have hread : Bracket.read classSyntax place (char :: rest) =
          (Bracket.readMembers classSyntax place (char :: rest)).convert (⟨false, ·⟩) := by
        simp [Bracket.read, hnegated]
      rw [if_neg hnegated, hread]
      exact hmembers (char :: rest) hsuffix false

end Cursor

end PatternTree
