import PatternTree.Proofs.Lexeme
import PatternTree.Proofs.Span

namespace PatternTree

namespace Lexeme

variable {classSyntax : ClassSyntax} {rest : List Char} {lexemes : List Lexeme}

theorem start_le_of_mem_place {offset : Nat} {token : Token}
    (htoken : token ∈ place offset lexemes) : offset ≤ token.span.start := by
  induction lexemes generalizing offset with
  | nil => cases htoken
  | cons lexeme lexemes ih =>
    obtain rfl | htoken := List.mem_cons.mp htoken
    · exact Nat.le_refl offset
    · exact Nat.le_trans (Nat.le_add_right _ _) (ih htoken)

/-- Each token ends where or before the later ones start. -/
theorem pairwise_place (offset : Nat) (lexemes : List Lexeme) :
    (place offset lexemes).Pairwise (·.span.stop ≤ ·.span.start) := by
  induction lexemes generalizing offset with
  | nil => exact .nil
  | cons lexeme lexemes ih =>
    exact .cons (fun token htoken => start_le_of_mem_place htoken) (ih _)

/-- A token that has been read has bytes. -/
theorem Reads.start_lt_stop_of_mem (hreads : Reads classSyntax rest lexemes) {offset : Nat}
    {token : Token} (htoken : token ∈ place offset lexemes) :
    token.span.start < token.span.stop := by
  induction hreads generalizing offset with
  | nil => cases htoken
  | @cons role char chars lexemes _ _ ih =>
    obtain rfl | htoken := List.mem_cons.mp htoken
    · have hpos := char.utf8Size_pos
      simp only [Lexeme.token, Text.utf8Size]
      omega
    · exact ih htoken

/-- A token covers its text. -/
theorem covers_of_mem_place {front back : List Char} {token : Token}
    (htoken : token ∈ place (Text.utf8Size front) lexemes) :
    Text.Covers (front ++ (textOf lexemes ++ back)) token.span token.text := by
  induction lexemes generalizing front with
  | nil => cases htoken
  | cons lexeme lexemes ih =>
    obtain rfl | htoken := List.mem_cons.mp htoken
    · rw [textOf_cons, List.append_assoc]
      exact .of_append _ _ _
    · rw [← Text.utf8Size_append] at htoken
      have hcovers := ih htoken
      simpa using hcovers

/-- There are no more tokens than bytes. -/
theorem Reads.length_le_size (hreads : Reads classSyntax rest lexemes) :
    lexemes.length ≤ size lexemes := by
  induction hreads with
  | nil => exact Nat.le_refl 0
  | @cons role char chars lexemes _ _ ih =>
    have hpos := char.utf8Size_pos
    rw [size_cons, List.length_cons, Text.utf8Size]
    omega

theorem length_place (offset : Nat) (lexemes : List Lexeme) :
    (place offset lexemes).length = lexemes.length := by
  induction lexemes generalizing offset with
  | nil => rfl
  | cons lexeme lexemes ih => rw [place, List.length_cons, ih, List.length_cons]

/-- Tokens that are split are those of lexemes that are split. -/
theorem exists_of_place_eq_append {offset : Nat} {front back : List Token}
    (hplace : place offset lexemes = front ++ back) :
    ∃ before behind, lexemes = before ++ behind ∧ front = place offset before ∧
      back = place (offset + size before) behind := by
  have hlexemes : lexemes = front.map Token.lexeme ++ back.map Token.lexeme := by
    rw [← List.map_append, ← hplace, map_lexeme_place]
  refine ⟨front.map Token.lexeme, back.map Token.lexeme, hlexemes, ?_⟩
  rw [hlexemes, place_append] at hplace
  obtain ⟨hfront, hback⟩ := List.append_inj hplace (by rw [length_place, List.length_map])
  exact ⟨hfront.symm, hback.symm⟩

/-- A token ends before the text of all tokens does. -/
theorem stop_le_of_mem_place {offset : Nat} {token : Token}
    (htoken : token ∈ place offset lexemes) :
    token.span.stop ≤ offset + size lexemes := by
  induction lexemes generalizing offset with
  | nil => cases htoken
  | cons lexeme lexemes ih =>
    rw [size_cons, ← Nat.add_assoc]
    obtain rfl | htoken := List.mem_cons.mp htoken
    · exact Nat.le_add_right _ _
    · exact ih htoken

/-- The tokens that start before an offset are those in front of the one that starts there. -/
theorem Reads.filter_start_lt (hreads : Reads classSyntax rest lexemes) (offset : Nat)
    (lexemes' : List Lexeme) :
    (place offset (lexemes ++ lexemes')).filter (·.span.start < offset + size lexemes) =
      place offset lexemes := by
  have hfront : ∀ token ∈ place offset lexemes, token.span.start < offset + size lexemes :=
    fun token htoken =>
      Nat.lt_of_lt_of_le (hreads.start_lt_stop_of_mem htoken) (stop_le_of_mem_place htoken)
  have hback : ∀ token ∈ place (offset + size lexemes) lexemes',
      ¬ token.span.start < offset + size lexemes :=
    fun token htoken => Nat.not_lt_of_le (start_le_of_mem_place htoken)
  rw [place_append, List.filter_append, List.filter_eq_self.mpr (by simpa using hfront),
    List.filter_eq_nil_iff.mpr (by simpa using hback), List.append_nil]

end Lexeme

end PatternTree
