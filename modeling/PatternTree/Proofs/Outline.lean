import Mathlib.Data.List.Forall2
import PatternTree.Pattern.Outline

namespace PatternTree

/-- A text starts with an upper-case letter. -/
def Text.Capitalized (text : String) : Prop :=
  ∃ letter, text.toList.head? = some letter ∧ letter.isUpper

theorem Text.Capitalized.append {front : String} (hfront : Capitalized front) (back : String) :
    Capitalized (front ++ back) := by
  obtain ⟨letter, hhead, hupper⟩ := hfront
  exact ⟨letter, by rw [String.toList_append, List.head?_append, hhead, Option.some_or], hupper⟩

theorem Text.getLast?_quoted (text : String) : (quoted text).toList.getLast? = some '"' := by
  rw [quoted, String.toList_ofList, List.getLast?_concat]

/-- A listing names the kind of a node first. -/
theorem Label.capitalized_describe (label : Label) : Text.Capitalized label.describe := by
  cases label with
  | literal char => exact .append ⟨'L', by decide⟩ _
  | charClass set => exact .append (.append ⟨'C', by decide⟩ _) _
  | anchor place => exact .append ⟨'A', by decide⟩ _
  | group opened => exact .append (.append ⟨'G', by decide⟩ _) _
  | repetition bounds greedy => exact .append (.append ⟨'R', by decide⟩ _) _
  | backreference number resolved => exact .append (.append ⟨'B', by decide⟩ _) _
  | namedBackreference name number resolved =>
    exact .append (.append (.append ⟨'N', by decide⟩ _) _) _
  | dot => exact ⟨'D', by decide⟩
  | alternation => exact ⟨'A', by decide⟩
  | concatenation => exact ⟨'C', by decide⟩

/-- A list has values exactly when each element has its own there. -/
theorem mapM_eq_some_iff {α β : Type} {value? : α → Option β} {elements : List α}
    {values : List β} :
    elements.mapM value? = some values ↔
      List.Forall₂ (fun element value => value? element = some value) elements values := by
  induction elements generalizing values with
  | nil => simp [eq_comm]
  | cons element elements ih =>
    simp only [List.mapM_cons, Option.bind_eq_bind, Option.bind_eq_some_iff, ih,
      List.forall₂_cons_left_iff, Option.pure_def, Option.some.injEq]
    constructor
    · rintro ⟨value, hvalue, values, hvalues, rfl⟩
      exact ⟨value, values, hvalue, hvalues, rfl⟩
    · rintro ⟨value, values, hvalue, hvalues, rfl⟩
      exact ⟨value, hvalue, values, hvalues, rfl⟩

/-- Values of all elements are values of the whole list. -/
theorem isSome_mapM {α β : Type} {value? : α → Option β} {elements : List α}
    (hvalues : ∀ element ∈ elements, (value? element).isSome) :
    (elements.mapM value?).isSome := by
  induction elements with
  | nil => rfl
  | cons element elements ih =>
    obtain ⟨value, hvalue⟩ :=
      Option.isSome_iff_exists.mp (hvalues element List.mem_cons_self)
    obtain ⟨values, hothers⟩ := Option.isSome_iff_exists.mp
      (ih fun other hother => hvalues other (List.mem_cons_of_mem _ hother))
    simp [List.mapM_cons, hvalue, hothers]

namespace Pattern

/-- How the entry of a visit reads in a listing. -/
structure Visit.Shows (pattern : Pattern) (visit : Visit) (entry : String) : Prop where
  entry?_eq : pattern.entry? visit = some entry
  /-- Two columns for each level stand before the label. -/
  indented : ∃ text, Text.Capitalized text ∧
    entry = String.ofList (List.replicate (2 * visit.depth) ' ') ++ text
  /-- It says at its end whether the node has appeared before. -/
  marked : " (revisited)".toList <:+ entry.toList ↔ visit.again = true

variable {pattern : Pattern} {visit : Visit} {entry : String}

/-- An entry starts with a label behind its columns and ends with a quoted text, behind which it may
    only say that the node has appeared before. -/
theorem exists_of_entry?_eq_some (hentry : pattern.entry? visit = some entry) :
    ∃ front text, Text.Capitalized front ∧
      entry = String.ofList (List.replicate (2 * visit.depth) ' ') ++
        (front ++ Text.quoted text ++ (if visit.again then " (revisited)" else "")) := by
  have hassoc : ∀ indent label place text mark : String,
      indent ++ label ++ place ++ text ++ mark = indent ++ (label ++ place ++ text ++ mark) := by
    simp [String.append_assoc]
  unfold entry? at hentry
  split at hentry
  next node text _ _ =>
    obtain rfl := Option.some.inj hentry
    exact ⟨_, text, node.label.capitalized_describe.append _, hassoc _ _ _ _ _⟩
  · cases hentry

theorem shows_of_entry?_eq_some (hentry : pattern.entry? visit = some entry) :
    visit.Shows pattern entry := by
  obtain ⟨front, text, hfront, hparts⟩ := exists_of_entry?_eq_some hentry
  refine ⟨hentry, ⟨_, (hfront.append _).append _, hparts⟩, ?_⟩
  cases hagain : visit.again with
  | true =>
    rw [hparts, if_pos hagain, ← String.append_assoc, String.toList_append]
    exact iff_of_true (List.suffix_append _ _) rfl
  | false =>
    have hlast : entry.toList.getLast? = some '"' := by
      simp [hparts, hagain, Text.getLast?_quoted]
    refine iff_of_false ?_ Bool.false_ne_true
    rintro ⟨before, hbefore⟩
    simp [← hbefore] at hlast

theorem isSome_entry? (htext : (pattern.text? visit.node).isSome) :
    (pattern.entry? visit).isSome := by
  obtain ⟨text, htext⟩ := Option.isSome_iff_exists.mp htext
  obtain ⟨node, hnode, -⟩ := Option.bind_eq_some_iff.mp htext
  unfold entry?
  simp [hnode, htext]

/-- A pattern has a listing, with an entry for each visit, when the nodes there have a text. -/
theorem exists_outline?
    (htexts : ∀ visit ∈ pattern.visits 0 [pattern.root], (pattern.text? visit.node).isSome) :
    ∃ entries, pattern.outline? = some (String.join (entries.map (· ++ "\n"))) ∧
      List.Forall₂ (Visit.Shows pattern) (pattern.visits 0 [pattern.root]) entries := by
  obtain ⟨entries, hentries⟩ := Option.isSome_iff_exists.mp
    (isSome_mapM fun visit hvisit => isSome_entry? (htexts visit hvisit))
  refine ⟨entries, ?_, (mapM_eq_some_iff.mp hentries).imp fun _ _ => shows_of_entry?_eq_some⟩
  rw [outline?, entries?, hentries, Option.map_some]

end Pattern

end PatternTree
