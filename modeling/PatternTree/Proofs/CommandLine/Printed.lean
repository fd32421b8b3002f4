import PatternTree.CommandLine.Report
import PatternTree.Proofs.Json
import PatternTree.Proofs.Messages
import PatternTree.Proofs.Outline
import PatternTree.Proofs.Postorder
import PatternTree.Proofs.References

namespace PatternTree

open Text (BreaksInQuotes breaksInQuotes_of_notMem)

/-- The name that a label carries is an identifier. -/
def Label.Named : Label → Prop
  | group opened => ∀ name, opened.name = some name → Escape.isName name.toList
  | namedBackreference name _ _ => Escape.isName name.toList
  | _ => True

theorem Label.named_unsettled_iff {label : Label} : label.unsettled.Named ↔ label.Named := by
  cases label <;> rfl

theorem Shape.Normal.named {shape : Shape} (hnormal : shape.Normal) : shape.label.Named := by
  cases hnormal with
  | @leaf atom hatom =>
    cases atom with
    | namedBackreference name => exact hatom
    | _ => trivial
  | group hgroup hbody => exact fun name hname => (hgroup name hname).1
  | _ => trivial

theorem CharClass.newline_notMem_describe (set : CharClass) : '\n' ∉ set.describe.toList := by
  have hrange : ∀ range : ClassRange, '\n' ∉ (" " ++ range.describe).toList := by
    intro range
    unfold ClassRange.describe
    split <;> simp
  have hnegated : '\n' ∉ (if set.negated then " negated" else "").toList := by
    cases set.negated <;> decide
  have hranges : '\n' ∉
      (String.join (set.ranges.map fun range => " " ++ range.describe)).toList := by
    rw [String.toList_join, List.mem_flatMap]
    rintro ⟨_, hmem, hnewline⟩
    obtain ⟨range, -, rfl⟩ := List.mem_map.mp hmem
    exact hrange range hnewline
  have hdescribe : '\n' ∉ ("CharacterClass" ++ (if set.negated then " negated" else "") ++
      String.join (set.ranges.map fun range => " " ++ range.describe)).toList := by
    simp only [String.toList_append, List.mem_append, not_or]
    exact ⟨⟨by decide, hnegated⟩, hranges⟩
  exact hdescribe

theorem Group.newline_notMem_describe {group : Group}
    (hnamed : ∀ name, group.name = some name → Escape.isName name.toList) :
    '\n' ∉ group.describe.toList := by
  obtain ⟨number, name⟩ := group
  have hname : ∀ name', name = some name' → '\n' ∉ name'.toList :=
    fun name' heq => Escape.newline_notMem_of_isName (hnamed name' heq)
  cases name with
  | none => cases number <;> simp [describe]
  | some name => cases number <;> simp [describe, hname name rfl]

theorem Bounds.newline_notMem_describe (bounds : Bounds) : '\n' ∉ bounds.describe.toList := by
  obtain ⟨min, max⟩ := bounds
  cases max <;> simp [describe]

namespace Label

theorem newline_notMem_describe {label : Label} (hnamed : label.Named) :
    '\n' ∉ label.describe.toList := by
  have happend : ∀ front back : String, '\n' ∉ front.toList → '\n' ∉ back.toList →
      '\n' ∉ (front ++ back).toList := by
    intro front back hfront hback
    simp [hfront, hback]
  have hresolved : ∀ resolved : Bool, '\n' ∉ (if resolved then "" else " unresolved").toList := by
    decide
  cases label with
  | literal char => exact happend _ _ (by decide) (Text.newline_notMem_quotedChar char)
  | charClass set => exact set.newline_notMem_describe
  | anchor place => exact happend _ _ (by decide) (by cases place <;> decide)
  | group opened => exact opened.newline_notMem_describe hnamed
  | repetition bounds greedy =>
    refine happend _ _ (happend _ _ (by decide) bounds.newline_notMem_describe) ?_
    cases greedy <;> decide
  | backreference number resolved =>
    exact happend _ _ (happend _ _ (by decide) (by simp)) (hresolved resolved)
  | namedBackreference name number resolved =>
    have hname := Escape.newline_notMem_of_isName hnamed
    apply happend _ _ _ (hresolved resolved)
    exact happend _ _ (happend _ _ (by decide) hname) (by decide)
  | dot | alternation | concatenation => decide

end Label

namespace Pattern

variable {dialect : Dialect} {source : String} {pattern : Pattern}

theorem defects_eq_nil_of_parse (hparse : parse dialect source = .ok pattern) :
    pattern.defects = [] := by
  obtain ⟨choice, -, rfl⟩ := parse_eq_ok_iff.mp hparse
  exact (postordered_ofTree source _).defects_eq_nil

theorem named_of_parse (hparse : parse dialect source = .ok pattern) {id : Nat} {node : Node}
    (hnode : pattern.node? id = some node) : node.label.Named := by
  have hid : id < pattern.nodes.size := (Array.getElem?_eq_some_iff.mp hnode).1
  obtain ⟨shape, hshows, hnormal⟩ := exists_shows_normal hparse hid
  cases hshows with
  | @node _ node' children hnode' _ _ =>
    obtain rfl : node' = node := Option.some.inj (hnode'.symm.trans hnode)
    exact Label.named_unsettled_iff.mp hnormal.named

/-- A finding stays on its line. -/
theorem newline_notMem_of_mem_diagnostics (hparse : parse dialect source = .ok pattern)
    {diagnostic : Diagnostic} (hdiagnostic : diagnostic ∈ pattern.diagnostics) :
    '\n' ∉ diagnostic.message.toList := by
  have hnamed : ∀ id node, pattern.node? id = some node → node.label.Named :=
    fun _ _ => named_of_parse hparse
  obtain ⟨choice, -, rfl⟩ := parse_eq_ok_iff.mp hparse
  rw [diagnostics_ofTree] at hdiagnostic
  obtain ⟨node, hmem, hnode⟩ := List.mem_filterMap.mp hdiagnostic
  obtain ⟨id, hid⟩ := List.mem_iff_getElem?.mp hmem
  rw [Array.getElem?_toList] at hid
  have hnamed := hnamed id node hid
  unfold GroupTable.diagnose? at hnode
  split at hnode
  · cases hnode
    simp
  next name _ hlabel =>
    cases hnode
    rw [hlabel] at hnamed
    simp [Escape.newline_notMem_of_isName hnamed]
  · cases hnode

/-- What a listing holds are entries of nodes. -/
theorem exists_entry?_eq_some {entry : String} (hentry : entry ∈ pattern.entries?.getD []) :
    ∃ visit, pattern.entry? visit = some entry := by
  rw [entries?] at hentry
  cases hentries : (pattern.visits 0 [pattern.root]).mapM pattern.entry? with
  | none =>
    rw [hentries] at hentry
    cases hentry
  | some entries =>
    rw [hentries, Option.getD_some] at hentry
    rw [mapM_eq_some_iff] at hentries
    generalize pattern.visits 0 [pattern.root] = visits at hentries
    induction hentries with
    | nil => cases hentry
    | cons hvisit _ ih =>
      obtain rfl | hentry := List.mem_cons.mp hentry
      · exact ⟨_, hvisit⟩
      · exact ih hentry

/-- An entry of a listing stays on its line. Two columns for each level stand before its label. -/
theorem entry_of_parse (hparse : parse dialect source = .ok pattern) {visit : Visit}
    {entry : String} (hentry : pattern.entry? visit = some entry) :
    '\n' ∉ entry.toList ∧ ∃ text, Text.Capitalized text ∧
      entry = String.ofList (List.replicate (2 * visit.depth) ' ') ++ text := by
  refine ⟨?_, (shows_of_entry?_eq_some hentry).indented⟩
  unfold entry? at hentry
  split at hentry
  next node text hnode _ =>
    cases hentry
    have hlabel := Label.newline_notMem_describe (named_of_parse hparse hnode)
    cases visit.again <;> simp [hlabel]
  · cases hentry

end Pattern

theorem Diagnostic.newline_notMem_toJson (diagnostic : Diagnostic) :
    '\n' ∉ diagnostic.toJson.chars := by
  have hspan : '\n' ∉ diagnostic.span.toJson.chars := by
    apply Json.newline_notMem_ofMembers
    simp only [List.forall_mem_cons]
    exact ⟨Json.newline_notMem_ofNat _, Json.newline_notMem_ofNat _, fun _ => nofun⟩
  apply Json.newline_notMem_ofMembers
  simp only [List.forall_mem_cons]
  exact ⟨Json.newline_notMem_ofText _, hspan, Json.newline_notMem_ofText _, fun _ => nofun⟩

namespace CommandLine

/-- A line that says that a tree has defects, or which one. -/
def ReportsDefect (line : List Char) : Prop :=
  "bad".toList <+: line ∨ "  violation:".toList <+: line

instance (line : List Char) : Decidable (ReportsDefect line) :=
  inferInstanceAs (Decidable (_ ∨ _))

/-- An entry of a listing is no such line: it goes on behind its columns in upper case. -/
theorem not_reportsDefect_indented {text : String} (htext : Text.Capitalized text) (depth : Nat) :
    ¬ ReportsDefect (String.ofList (List.replicate (2 * depth) ' ') ++ text).toList := by
  obtain ⟨letter, hhead, hupper⟩ := htext
  obtain ⟨rest, hrest⟩ := List.head?_eq_some_iff.mp hhead
  have hletter : ∀ other : Char, other.isUpper = false → other ≠ letter := by
    rintro other hother rfl
    rw [hupper] at hother
    cases hother
  rw [String.toList_append, String.toList_ofList, hrest]
  match depth with
  | 0 => simp [ReportsDefect, hletter]
  | 1 => simp [ReportsDefect, hletter]
  | depth + 2 =>
    have hcolumns : 2 * (depth + 2) = 2 * depth + 1 + 1 + 1 + 1 := by omega
    simp [ReportsDefect, hcolumns, List.replicate_succ]

namespace Report

/-- The texts that a report prints in a format, each of which a line feed follows. -/
def printed (report : Report) : Format → List String
  | .text => report.lines
  | .tree =>
    (match report.result with
      | .error _ => []
      | .ok pattern => pattern.entries?.getD []) ++ report.lines
  | .json => [report.toJson.compress]

theorem toList_render (report : Report) (format : Format) :
    (format.render report).toList =
      ((report.printed format).map String.toList).flatMap (· ++ ['\n']) := by
  have hjoin : ∀ texts : List String, (String.join (texts.map (· ++ "\n"))).toList =
      (texts.map String.toList).flatMap (· ++ ['\n']) := by
    intro texts
    rw [String.toList_join, List.flatMap_map, List.flatMap_map]
    simp
  cases format with
  | text => exact hjoin _
  | tree =>
    rw [Format.render, String.toList_append, hjoin, printed, List.map_append, List.flatMap_append,
      outline]
    congr 1
    cases report.result with
    | error error => rfl
    | ok pattern =>
      simp only [Pattern.outline?]
      cases pattern.entries? with
      | none => rfl
      | some entries => exact hjoin entries
  | json => simp [Format.render, printed]

variable {dialect : Dialect} {source : String}

theorem lines_of_error {error : PatternError} (hparse : parse dialect source = .error error) :
    (of dialect source).lines =
      ["error " ++ Text.quoted source ++ ": " ++ error.describe] := by
  simp only [lines, of, hparse]

/-- A pattern is reported with a good verdict and the findings about its references. -/
theorem lines_of_ok {pattern : Pattern} (hparse : parse dialect source = .ok pattern) :
    (of dialect source).lines = ("ok    " ++ Text.quoted source) ::
      pattern.diagnostics.map fun diagnostic => "  warning: " ++ diagnostic.describe := by
  have hdefects := Pattern.defects_eq_nil_of_parse hparse
  simp only [lines, of, hparse, hdefects, List.isEmpty_nil, if_true, List.map_nil,
    List.append_nil]

theorem isClean_of_iff :
    (of dialect source).isClean ↔ ∃ pattern, parse dialect source = .ok pattern := by
  cases hparse : parse dialect source with
  | error error => simp [isClean, of, hparse]
  | ok pattern => simp [isClean, of, hparse, Pattern.defects_eq_nil_of_parse hparse]

/-- A report in JSON is an object without line feeds that ends with an empty array of defects. -/
theorem toJson_of (dialect : Dialect) (source : String) :
    '\n' ∉ (of dialect source).toJson.chars ∧
      (of dialect source).toJson.chars.head? = some '\x7b' ∧
        "\"violations\":[]\x7d".toList <:+ (of dialect source).toJson.chars := by
  have hmembers : ∃ members : List (String × Json), (of dialect source).toJson =
      .ofMembers (members ++ [("violations", .array [])]) ∧
        ∀ member ∈ members, '\n' ∉ member.2.chars := by
    cases hparse : parse dialect source with
    | error error =>
      refine ⟨[("pattern", .ofText source), ("error", .ofText error.describe),
        ("offset", .ofNat error.offset), ("diagnostics", .array [])], ?_, ?_⟩
      · simp only [toJson, of, hparse, List.cons_append, List.nil_append]
      · simp only [List.forall_mem_cons]
        exact ⟨Json.newline_notMem_ofText _, Json.newline_notMem_ofText _,
          Json.newline_notMem_ofNat _, by decide, fun _ => nofun⟩
    | ok pattern =>
      refine ⟨[("pattern", .ofText source),
        ("diagnostics", .array (pattern.diagnostics.map Diagnostic.toJson))], ?_, ?_⟩
      · simp only [toJson, of, hparse, Pattern.defects_eq_nil_of_parse hparse, List.map_nil,
          List.cons_append, List.nil_append]
      · simp only [List.forall_mem_cons]
        refine ⟨Json.newline_notMem_ofText _, Json.newline_notMem_array ?_, fun _ => nofun⟩
        simp only [List.forall_mem_map]
        exact fun diagnostic _ => diagnostic.newline_notMem_toJson
  obtain ⟨members, hjson, hmembers⟩ := hmembers
  rw [hjson]
  refine ⟨?_, rfl, Json.suffix_ofMembers_concat members "violations" (.array [])⟩
  apply Json.newline_notMem_ofMembers
  intro member hmember
  obtain hmember | hmember := List.mem_append.mp hmember
  · exact hmembers member hmember
  · rw [List.mem_singleton.mp hmember]
    decide

/-- No text of a report says that a tree has defects, and none of them goes on in another line but
    with a character that a message quotes. -/
theorem printed_of (dialect : Dialect) (source : String) (format : Format) :
    ∀ text ∈ (of dialect source).printed format,
      BreaksInQuotes text.toList ∧ ¬ ReportsDefect text.toList := by
  have hlines : ∀ text ∈ (of dialect source).lines,
      BreaksInQuotes text.toList ∧ ¬ ReportsDefect text.toList := by
    cases hparse : parse dialect source with
    | error error =>
      rw [lines_of_error hparse]
      intro text htext
      rw [List.mem_singleton.mp htext]
      have hfront : '\n' ∉ ("error " ++ Text.quoted source ++ ": ").toList := by simp
      have hmessage := (Pattern.legible_of_parse_eq_error hparse).breaksInQuotes
      refine ⟨?_, by simp [ReportsDefect]⟩
      rw [String.toList_append]
      exact (breaksInQuotes_of_notMem hfront).append hmessage
    | ok pattern =>
      rw [lines_of_ok hparse]
      simp only [List.forall_mem_cons, List.forall_mem_map]
      refine ⟨⟨breaksInQuotes_of_notMem (by simp), by simp [ReportsDefect]⟩, ?_⟩
      intro diagnostic hdiagnostic
      have hmessage := Pattern.newline_notMem_of_mem_diagnostics hparse hdiagnostic
      refine ⟨breaksInQuotes_of_notMem ?_, by simp [ReportsDefect]⟩
      simp [Diagnostic.describe, hmessage]
  cases format with
  | text => exact hlines
  | tree =>
    intro text htext
    obtain htext | htext := List.mem_append.mp htext
    · cases hparse : parse dialect source with
      | error error => simp [of, hparse] at htext
      | ok pattern =>
        simp only [of, hparse] at htext
        obtain ⟨visit, hentry⟩ := Pattern.exists_entry?_eq_some htext
        obtain ⟨hnewline, body, hbody, rfl⟩ := Pattern.entry_of_parse hparse hentry
        exact ⟨breaksInQuotes_of_notMem hnewline, not_reportsDefect_indented hbody visit.depth⟩
    · exact hlines text htext
  | json =>
    intro text htext
    rw [List.mem_singleton.mp htext, Json.compress, String.toList_ofList]
    obtain ⟨hnewline, hhead, -⟩ := toJson_of dialect source
    obtain ⟨rest, hrest⟩ := List.head?_eq_some_iff.mp hhead
    exact ⟨breaksInQuotes_of_notMem hnewline, by simp [ReportsDefect, hrest]⟩

end Report

end CommandLine

end PatternTree
