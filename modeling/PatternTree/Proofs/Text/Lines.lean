import PatternTree.Text.Lines
import PatternTree.Text.Quoted
import PatternTree.Proofs.Text.Digits

namespace PatternTree.Text

/-- One character more at the front of a text. -/
theorem lines_cons (char : Char) (chars : List Char) :
    lines (char :: chars) =
      if char = '\n' then [] :: lines chars
      else if char = '\r' ∧ chars.head? = some '\n' then lines chars
      else (char :: (lines chars).headD []) :: (lines chars).tail := by
  by_cases hbreak : char = '\n'
  · subst hbreak
    simp [lines]
  · by_cases hreturn : char = '\r' ∧ chars.head? = some '\n'
    · obtain ⟨rfl, hhead⟩ := hreturn
      obtain ⟨rest, rfl⟩ := List.head?_eq_some_iff.mp hhead
      simp [lines]
    · rw [if_neg hbreak, if_neg hreturn, lines]
      · cases lines chars <;> rfl
      · rintro rest rfl rfl
        exact hreturn ⟨rfl, rfl⟩
      · exact hbreak

theorem lines_ne_nil {chars : List Char} (hchars : chars ≠ []) : lines chars ≠ [] := by
  induction chars with
  | nil => exact absurd rfl hchars
  | cons char chars ih =>
    rw [lines_cons]
    split
    · exact List.cons_ne_nil _ _
    · split
      next hreturn => exact ih fun hempty => by simp [hempty] at hreturn
      · exact List.cons_ne_nil _ _

/-- A line feed ends a line, whatever follows. -/
theorem lines_append_break (front back : List Char) :
    lines (front ++ '\n' :: back) = lines (front ++ ['\n']) ++ lines back := by
  induction front with
  | nil => simp [lines]
  | cons char front ih =>
    have hhead : (front ++ '\n' :: back).head? = (front ++ ['\n']).head? := by
      cases front <;> rfl
    obtain ⟨line, others, hlines⟩ := List.exists_cons_of_ne_nil
      (lines_ne_nil (List.append_ne_nil_of_right_ne_nil front (List.cons_ne_nil '\n' [])))
    rw [List.cons_append, List.cons_append, lines_cons, lines_cons, hhead, ih, hlines]
    split
    · rfl
    · split <;> rfl

/-- The lines of texts that a line feed ends are those of each text. -/
theorem mem_lines_flatMap_iff {texts : List (List Char)} {line : List Char} :
    line ∈ lines (texts.flatMap (· ++ ['\n'])) ↔
      ∃ text ∈ texts, line ∈ lines (text ++ ['\n']) := by
  induction texts with
  | nil => simp [lines]
  | cons text texts ih =>
    rw [List.flatMap_cons, List.append_assoc, List.singleton_append, lines_append_break,
      List.mem_append, ih]
    simp

/-- A text without a line feed is one line, of which a carriage return at the end is left out. -/
theorem lines_of_notMem {text : List Char} (htext : '\n' ∉ text) :
    lines (text ++ ['\n']) =
      [if text.getLast? = some '\r' then text.dropLast else text] := by
  induction text with
  | nil => simp [lines]
  | cons char text ih =>
    obtain ⟨hchar, htext⟩ : '\n' ≠ char ∧ '\n' ∉ text := by simpa using htext
    rw [List.cons_append, lines_cons, if_neg hchar.symm, ih htext]
    cases text with
    | nil => by_cases hreturn : char = '\r' <;> simp [hreturn]
    | cons first others =>
      have hfirst : first ≠ '\n' := fun heq => htext (heq ▸ List.mem_cons_self)
      rw [if_neg (by simp [hfirst])]
      split <;> simp_all

/-- A text without a line feed is one line also at the end, where it keeps its carriage returns. -/
theorem lines_of_notMem_of_ne_nil {text : List Char} (htext : '\n' ∉ text) (hne : text ≠ []) :
    lines text = [text] := by
  induction text with
  | nil => exact absurd rfl hne
  | cons char text ih =>
    obtain ⟨hchar, htext⟩ : '\n' ≠ char ∧ '\n' ∉ text := by simpa using htext
    rw [lines_cons, if_neg hchar.symm]
    cases text with
    | nil => simp [lines]
    | cons first others =>
      have hfirst : first ≠ '\n' := fun heq => htext (heq ▸ List.mem_cons_self)
      rw [if_neg (by simp [hfirst]), ih htext (List.cons_ne_nil _ _)]
      rfl

/-- Texts that are written one on each line: each is followed by a line feed, with or without a
    carriage return before it, except that nothing need follow the last one when it is not empty. -/
inductive OnLines : List (List Char) → List Char → Prop where
  | nil : OnLines [] []
  | last {text : List Char} (hne : text ≠ []) : OnLines [text] text
  | cons {text ending content : List Char} {texts : List (List Char)}
      (hending : ending = ['\n'] ∨ ending = ['\r', '\n']) (htexts : OnLines texts content) :
      OnLines (text :: texts) (text ++ (ending ++ content))

/-- Texts that are written one on each line are the lines, when no line feed is in any of them and
    none ends with a carriage return. -/
theorem OnLines.lines_eq {texts : List (List Char)} {content : List Char}
    (hcontent : OnLines texts content)
    (htexts : ∀ text ∈ texts, '\n' ∉ text ∧ text.getLast? ≠ some '\r') :
    lines content = texts := by
  induction hcontent with
  | nil => rfl
  | last hne => exact lines_of_notMem_of_ne_nil (htexts _ List.mem_cons_self).1 hne
  | @cons text ending content texts hending _ ih =>
    obtain ⟨hbreak, hreturn⟩ := htexts _ List.mem_cons_self
    rw [← ih fun text htext => htexts text (List.mem_cons_of_mem _ htext)]
    obtain rfl | rfl := hending
    · rw [List.singleton_append, lines_append_break, lines_of_notMem hbreak, if_neg hreturn]
      rfl
    · have hbreak' : '\n' ∉ text ++ ['\r'] := by simpa using hbreak
      have hsplit : text ++ (['\r', '\n'] ++ content) = (text ++ ['\r']) ++ '\n' :: content := by
        simp
      rw [hsplit, lines_append_break, lines_of_notMem hbreak', if_pos (by simp),
        List.dropLast_concat]
      rfl

section Quoted

theorem newline_notMem_of_forall {kind : Char → Bool} {chars : List Char}
    (hchars : ∀ char ∈ chars, kind char) (hkind : kind '\n' = false) : '\n' ∉ chars := by
  intro hmem
  rw [hchars _ hmem] at hkind
  cases hkind

theorem newline_notMem_toDigits {base : Nat} (hbase : 1 < base) (hle : base ≤ 16) (number : Nat) :
    '\n' ∉ Nat.toDigits base number := by
  intro hmem
  obtain ⟨digit, hdigit, hchar⟩ := exists_of_mem_toDigits hbase hmem
  have hdigits : ∀ digit < 16, '\n' ≠ digit.digitChar := by decide
  exact hdigits digit (Nat.lt_of_lt_of_le hdigit hle) hchar

@[simp] theorem newline_notMem_decimal (number : Nat) : '\n' ∉ Nat.toDigits 10 number :=
  newline_notMem_toDigits (by decide) (by decide) number

theorem newline_notMem_escaped {quote : Char} (hquote : quote ≠ '\n') (char : Char) :
    '\n' ∉ escaped quote char := by
  have hdigits := newline_notMem_toDigits (by decide : 1 < 16) (by decide) char.toNat
  unfold escaped
  split
  · simp [hquote.symm]
  · split
    · decide
    · decide
    · decide
    · decide
    · decide
    next hnewline _ =>
      split
      · simp [hexDigits, hdigits]
      · rw [List.mem_singleton]
        exact fun heq => hnewline heq.symm

@[simp] theorem newline_notMem_quoted (text : String) : '\n' ∉ (quoted text).toList := by
  simp [quoted, newline_notMem_escaped]

@[simp] theorem newline_notMem_quotedChar (char : Char) : '\n' ∉ (quotedChar char).toList := by
  simp [quotedChar, newline_notMem_escaped]

end Quoted

/-- Every line feed of a text stands directly before a backquote, as one does that is quoted
    between two of them. -/
def BreaksInQuotes (text : List Char) : Prop :=
  ∀ front back, text = front ++ '\n' :: back → back.head? = some '`'

theorem breaksInQuotes_of_notMem {text : List Char} (htext : '\n' ∉ text) :
    BreaksInQuotes text := by
  rintro front back rfl
  exact absurd (List.mem_append_right front List.mem_cons_self) htext

namespace BreaksInQuotes

variable {text front back : List Char}

theorem append (hfront : BreaksInQuotes front) (hback : BreaksInQuotes back) :
    BreaksInQuotes (front ++ back) := by
  intro before after htext
  obtain ⟨middle, rfl, hmiddle⟩ | ⟨middle, rfl, hmiddle⟩ := List.append_eq_append_iff.mp htext
  · exact hback middle after hmiddle
  · cases middle with
    | nil => exact hback [] after hmiddle.symm
    | cons char middle =>
      obtain ⟨rfl, rfl⟩ := List.cons.inj hmiddle
      have hhead := hfront before middle rfl
      cases middle with
      | nil => cases hhead
      | cons first others => exact hhead

/-- Any character may stand before a backquote. -/
theorem quote (char : Char) (hfront : BreaksInQuotes front) (hback : BreaksInQuotes back)
    (hquote : back.head? = some '`') : BreaksInQuotes (front ++ char :: back) := by
  refine hfront.append fun before after htext => ?_
  cases before with
  | nil =>
    obtain ⟨-, rfl⟩ := List.cons.inj htext
    exact hquote
  | cons first before => exact hback before after (List.cons.inj htext).2

/-- A line of such a text starts where the text does or with a backquote. -/
theorem prefix_or_head? (htext : BreaksInQuotes text) {line : List Char}
    (hline : line ∈ lines (text ++ ['\n'])) : line <+: text ∨ line.head? = some '`' := by
  induction hlength : text.length using Nat.strongRecOn generalizing text with
  | ind length ih =>
    subst hlength
    by_cases hbreak : '\n' ∈ text
    · -- the text behind its first line feed starts with a backquote and is such a text itself
      obtain ⟨front, back, rfl, hfront⟩ := List.eq_append_cons_of_mem hbreak
      rw [List.append_assoc, List.cons_append, lines_append_break] at hline
      obtain hline | hline := List.mem_append.mp hline
      · left
        rw [lines_of_notMem hfront, List.mem_singleton] at hline
        subst hline
        split
        · exact (List.dropLast_prefix front).trans (List.prefix_append _ _)
        · exact List.prefix_append _ _
      · have hquote := htext front back rfl
        have hback : BreaksInQuotes back := fun before after hsplit =>
          htext (front ++ '\n' :: before) after (by simp [hsplit])
        have hshorter : back.length < (front ++ '\n' :: back).length := by
          rw [List.length_append, List.length_cons]
          omega
        obtain hprefix | hhead := ih _ hshorter hback hline rfl
        · cases line with
          | nil => exact .inl List.nil_prefix
          | cons first line =>
            obtain ⟨rest, rfl⟩ := hprefix
            exact .inr hquote
        · exact .inr hhead
    · left
      rw [lines_of_notMem hbreak, List.mem_singleton] at hline
      subst hline
      split
      · exact List.dropLast_prefix text
      · exact List.prefix_refl _

end BreaksInQuotes

end PatternTree.Text
