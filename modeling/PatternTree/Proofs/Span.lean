import Mathlib.Data.List.Forall2
import PatternTree.Span
import PatternTree.Text.Utf8

namespace PatternTree

namespace Text

/-- The bytes of a span are those of a text. -/
def Covers (chars : List Char) (span : Span) (text : List Char) : Prop :=
  ∃ front back, chars = front ++ (text ++ back) ∧
    span = ⟨utf8Size front, utf8Size front + utf8Size text⟩

/-- Two ways to cut a text at one offset are the same. -/
theorem append_inj_of_utf8Size_eq {front front' back back' : List Char}
    (htext : front ++ back = front' ++ back') (hsize : utf8Size front = utf8Size front') :
    front = front' ∧ back = back' := by
  have hdrop := dropBytes?_utf8Size front back
  rw [htext, hsize, dropBytes?_utf8Size] at hdrop
  obtain rfl : back' = back := Option.some.inj hdrop
  exact ⟨List.append_cancel_right htext, rfl⟩

namespace Covers

variable {chars text : List Char} {span : Span}

theorem of_append (front text back : List Char) :
    Covers (front ++ (text ++ back)) ⟨utf8Size front, utf8Size front + utf8Size text⟩ text :=
  ⟨front, back, rfl, rfl⟩

theorem start_le_stop (hcovers : Covers chars span text) : span.start ≤ span.stop := by
  obtain ⟨front, back, -, rfl⟩ := hcovers
  exact Nat.le_add_right _ _

/-- A span delimits the text that it covers. -/
theorem slice?_eq (hcovers : Covers chars span text) :
    slice? span.start span.stop chars = some text := by
  obtain ⟨front, back, rfl, rfl⟩ := hcovers
  rw [← List.append_assoc]
  exact slice?_middle front text back

/-- Spans that meet cover their texts one after the other. -/
theorem append {start middle stop : Nat} {text' : List Char}
    (hcovers : Covers chars ⟨start, middle⟩ text) (hcovers' : Covers chars ⟨middle, stop⟩ text') :
    Covers chars ⟨start, stop⟩ (text ++ text') := by
  obtain ⟨front, back, rfl, hspan⟩ := hcovers
  obtain ⟨front', back', htext, hspan'⟩ := hcovers'
  obtain ⟨rfl, rfl⟩ := Span.mk.inj hspan
  obtain ⟨hmiddle, rfl⟩ := Span.mk.inj hspan'
  have hcut : (front ++ text) ++ back = front' ++ (text' ++ back') := by
    rw [List.append_assoc, htext]
  obtain ⟨rfl, rfl⟩ := append_inj_of_utf8Size_eq hcut (by rw [utf8Size_append, hmiddle])
  refine ⟨front, back', by simp, ?_⟩
  simp [Nat.add_assoc]

/-- The span of all bytes covers the whole text only. -/
theorem eq_of_whole (hcovers : Covers chars ⟨0, utf8Size chars⟩ text) : text = chars := by
  obtain ⟨front, back, rfl, hspan⟩ := hcovers
  obtain ⟨hfront, hsize⟩ := Span.mk.inj hspan
  rw [utf8Size_append, utf8Size_append] at hsize
  have hnil : ∀ text, utf8Size text = 0 → text = [] := by
    intro text hzero
    have hlength := length_le_utf8Size text
    exact List.eq_nil_of_length_eq_zero (by omega)
  rw [hnil front hfront.symm, hnil back (by omega), List.nil_append, List.append_nil]

end Covers

theorem start_le_stop_of_mem {chars : List Char} {spans : List Span} {texts : List (List Char)}
    (hcovers : List.Forall₂ (Covers chars) spans texts) {span : Span} (hspan : span ∈ spans) :
    span.start ≤ span.stop := by
  induction hcovers with
  | nil => cases hspan
  | cons hfirst _ ih =>
    obtain rfl | hspan := List.mem_cons.mp hspan
    · exact hfirst.start_le_stop
    · exact ih hspan

/-- Texts with others between neighbours. -/
def interleave : List (List Char) → List (List Char) → List Char
  | text :: texts, inner :: others => text ++ (inner ++ interleave texts others)
  | texts, _ => texts.flatten

end Text

namespace Span

/-- What lies before, between and behind spans from one offset up to another. -/
def gaps (start stop : Nat) : List Span → List Span
  | [] => [⟨start, stop⟩]
  | inner :: others => ⟨start, inner.start⟩ :: gaps inner.stop stop others

/-- Spans and the gaps around them together cover everything. -/
theorem covers_interleave {chars : List Char} {start stop : Nat} {spans : List Span}
    {texts inner : List (List Char)}
    (hgaps : List.Forall₂ (Text.Covers chars) (gaps start stop spans) texts)
    (hspans : List.Forall₂ (Text.Covers chars) spans inner) :
    Text.Covers chars ⟨start, stop⟩ (Text.interleave texts inner) := by
  induction spans generalizing start texts inner with
  | nil =>
    cases hspans
    cases hgaps with
    | cons hgap hnil =>
      cases hnil
      simpa [Text.interleave] using hgap
  | cons span spans ih =>
    cases hspans with
    | cons hspan hspans =>
      cases hgaps with
      | cons hgap hgaps => exact hgap.append (hspan.append (ih hgaps hspans))

/-- Spans that follow each other without a gap from one offset to another. -/
inductive Chain : Nat → Nat → List Span → Prop where
  | nil (offset : Nat) : Chain offset offset []
  | cons {start middle stop : Nat} {spans : List Span} (hspan : start ≤ middle)
      (hspans : Chain middle stop spans) : Chain start stop (⟨start, middle⟩ :: spans)

namespace Chain

variable {start middle stop offset : Nat} {spans : List Span}

theorem append {others : List Span} (hspans : Chain start middle spans)
    (hothers : Chain middle stop others) : Chain start stop (spans ++ others) := by
  induction hspans with
  | nil => exact hothers
  | cons hspan _ ih => exact .cons hspan (ih hothers)

theorem start_le (hchain : Chain start stop spans) {span : Span} (hspan : span ∈ spans) :
    start ≤ span.start := by
  induction hchain with
  | nil => cases hspan
  | cons hle _ ih =>
    obtain rfl | hspan := List.mem_cons.mp hspan
    · exact Nat.le_refl _
    · exact Nat.le_trans hle (ih hspan)

/-- Every byte lies in one of the spans. -/
theorem exists_mem (hchain : Chain start stop spans) (hstart : start ≤ offset)
    (hstop : offset < stop) : ∃ span ∈ spans, span.start ≤ offset ∧ offset < span.stop := by
  induction hchain with
  | nil => omega
  | @cons start middle stop spans hle _ ih =>
    by_cases hmiddle : offset < middle
    · exact ⟨⟨start, middle⟩, List.mem_cons_self, hstart, hmiddle⟩
    · obtain ⟨span, hspan, hoffset⟩ := ih (Nat.le_of_not_lt hmiddle) hstop
      exact ⟨span, List.mem_cons_of_mem _ hspan, hoffset⟩

/-- No byte lies in two of the spans. -/
theorem eq_of_mem {owned : List (Nat × Span)} (hchain : Chain start stop (owned.map Prod.snd))
    {first second : Nat × Span} (hfirst : first ∈ owned) (hsecond : second ∈ owned)
    (hoffset : first.2.start ≤ offset ∧ offset < first.2.stop)
    (hoffset' : second.2.start ≤ offset ∧ offset < second.2.stop) : first = second := by
  induction owned generalizing start with
  | nil => cases hfirst
  | cons head owned ih =>
    obtain ⟨id, span⟩ := head
    cases hchain with
    | @cons _ middle _ _ hle hchain =>
      have hlater : ∀ other ∈ owned, middle ≤ other.2.start :=
        fun other hother => hchain.start_le (List.mem_map_of_mem hother)
      obtain rfl | hfirst := List.mem_cons.mp hfirst
      · obtain rfl | hsecond := List.mem_cons.mp hsecond
        · rfl
        · have hstart := hlater second hsecond
          simp only at hoffset
          omega
      · obtain rfl | hsecond := List.mem_cons.mp hsecond
        · have hstart := hlater first hfirst
          simp only at hoffset'
          omega
        · exact ih hchain hfirst hsecond

end Chain

end Span

end PatternTree
