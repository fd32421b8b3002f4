import PatternTree.Proofs.CommandLine.Batch
import PatternTree.Proofs.Text.ByteLines

namespace PatternTree.CommandLine

/-- What there is to read patterns from: the file with a name, or without a name the standard
    input. -/
def Surroundings.source (surroundings : Surroundings) : Option String → FileState
  | none => .contents surroundings.input
  | some path => surroundings.file path

namespace Arguments

variable {given : Arguments} {surroundings : Surroundings} {content : ByteArray}

/-- The patterns in a text are its lines. -/
theorem patternsOfBytes?_toUTF8 (text : String) :
    patternsOfBytes? text.toUTF8 = some ((Text.lines text.toList).map String.ofList) := by
  have htext : String.fromUTF8? text.toUTF8 = some text := by
    rw [String.fromUTF8?, dif_pos (by exact text.isValidUTF8)]
    rfl
  rw [patternsOfBytes?, htext, Option.map_some]

/-- There are no patterns in bytes exactly if one of their lines is no text. -/
theorem patternsOfBytes?_eq_none_iff :
    patternsOfBytes? content = none ↔
      ∃ line ∈ Text.byteLines content.data.toList, ¬ line.toByteArray.IsValidUTF8 := by
  have hvalid := Text.isValidUTF8_iff_forall_byteLines content
  rw [patternsOfBytes?, Option.map_eq_none_iff, String.fromUTF8?]
  split
  next htext => exact iff_of_false nofun (by simpa using hvalid.mp htext)
  next htext => exact iff_of_true rfl (by simpa [hvalid] using htext)

/-- Without patterns among the arguments they are what is in the source. -/
theorem patternsIn_of_source (given : Arguments) (hgiven : given.patterns = [])
    (hsource : surroundings.source given.file = .contents content) :
    (∀ patterns, patternsOfBytes? content = some patterns →
      given.patternsIn surroundings = .ok patterns) ∧
    (patternsOfBytes? content = none →
      ∃ failure, given.patternsIn surroundings = .error failure) := by
  rw [patternsIn, if_pos (by rw [hgiven]; rfl)]
  cases hfile : given.file with
  | none =>
    rw [hfile] at hsource
    obtain rfl : surroundings.input = content := FileState.contents.inj hsource
    constructor
    · intro patterns hpatterns
      simp only [hpatterns]
    · intro hnone
      exact ⟨.inputUnread, by simp only [hnone]⟩
  | some path =>
    rw [hfile] at hsource
    have hsource : surroundings.file path = .contents content := hsource
    constructor
    · intro patterns hpatterns
      simp only [hsource, hpatterns]
    · intro hnone
      exact ⟨.patternsUnread path, by simp only [hsource, hnone]⟩

/-- The name of a pattern file can stand behind options that have none. -/
theorem addAll_file {path : String} (hgiven : given.request = .ok (.report given))
    (hpatterns : given.patterns = []) (hfile : given.file = none) (hpath : path ≠ "")
    (hvalue : isOption path = false) :
    given.addAll ["--file", path] = .ok (.report { given with file := some path }) := by
  have hadd : given.add "--file" = .ok (.awaiting .file given) := rfl
  have hset : given.setValue .file path = .ok { given with file := some path } := by
    simp [setValue, hfile, hpath]
  rw [addAll, hadd]
  · simp only [hvalue, hset, Bool.false_eq_true, if_false]
    rw [addAll, request_eq_report_iff]
    exact ⟨rfl, .inr hpatterns, (request_eq_report_iff.mp hgiven).2.2⟩
  · decide

end Arguments

section Run

variable {surroundings surroundings' : Surroundings} {options arguments patterns : List String}
  {given : Arguments} {content : ByteArray}

/-- Options that ask for reports ask for those on the patterns of a file when its name is added. -/
theorem Selects.ofArguments_file (hselects : Selects options given) {path : String}
    (hpath : path ≠ "") (hvalue : Arguments.isOption path = false) :
    Request.ofArguments (options ++ ["--file", path]) =
      .ok (.report { given with file := some path }) := by
  rw [Request.ofArguments,
    Arguments.addAll_append_eq hselects.notMem hselects.ofArguments_eq]
  exact Arguments.addAll_file (Arguments.request_of_addAll hselects.ofArguments_eq)
    hselects.patterns_eq hselects.file_eq hpath hvalue

/-- Patterns are reported on in the same way wherever they come from. -/
theorem Selects.run_source_eq (hselects : Selects options given) {file : Option String}
    (hrequest : Request.ofArguments arguments = .ok (.report { given with file }))
    (hfiles : surroundings'.file = surroundings.file)
    (hsource : surroundings'.source file = .contents content)
    (hcontent : Arguments.patternsOfBytes? content = some patterns) (hpatterns : patterns ≠ []) :
    run arguments surroundings' = run (options ++ "--" :: patterns) surroundings := by
  have hdialect : Arguments.dialectIn surroundings' { given with file } =
      Arguments.dialectIn surroundings { given with patterns } := by
    simp only [Arguments.dialectIn, hfiles]
  have hread := (Arguments.patternsIn_of_source { given with file } hselects.patterns_eq
    hsource).1 patterns hcontent
  have hread' := Arguments.patternsIn_of_ne_nil surroundings given hpatterns
  simp only [run, hrequest, hselects.ofArguments_patterns, Arguments.outcomeIn, hdialect, hread,
    hread']
  rfl

/-- A run that would read patterns from bytes with a line that is no text fails before its first
    report. -/
theorem run_of_invalid_line (hrequest : Request.ofArguments arguments = .ok (.report given))
    (hgiven : given.patterns = []) (hsource : surroundings.source given.file = .contents content)
    (hinvalid : ∃ line ∈ Text.byteLines content.data.toList, ¬ line.toByteArray.IsValidUTF8) :
    ∃ failure, run arguments surroundings = .failed failure := by
  obtain ⟨failure, hfailure⟩ := (Arguments.patternsIn_of_source given hgiven hsource).2
    (Arguments.patternsOfBytes?_eq_none_iff.mpr hinvalid)
  simp only [run, hrequest, Arguments.outcomeIn, hfailure]
  cases given.dialectIn surroundings with
  | error failure' => exact ⟨failure', rfl⟩
  | ok dialect => exact ⟨failure, rfl⟩

end Run

/-- Patterns without line feeds that do not end with a carriage return are found again when they
    are written one on each line, whichever endings the lines have. A run on a file or on the
    standard input that holds them ends as the run on the same patterns behind two dashes does.
    Bytes of which any line is no text make a run fail without output. -/
theorem run_sources (surroundings : Surroundings) :
    (∀ (patterns : List String) (content : String),
      Text.OnLines (patterns.map String.toList) content.toList →
      (∀ pattern ∈ patterns, '\n' ∉ pattern.toList ∧ pattern.toList.getLast? ≠ some '\r') →
        Arguments.patternsOfBytes? content.toUTF8 = some patterns ∧
        (patterns ≠ [] → ∀ options given, Selects options given →
          run options { surroundings with input := content.toUTF8 } =
            run (options ++ "--" :: patterns) surroundings ∧
          (∀ path, surroundings.file path = .contents content.toUTF8 →
            ∀ arguments,
              Request.ofArguments arguments = .ok (.report { given with file := some path }) →
                run arguments surroundings = run (options ++ "--" :: patterns) surroundings) ∧
          ∀ path, path ≠ "" → Arguments.isOption path = false →
            Request.ofArguments (options ++ ["--file", path]) =
              .ok (.report { given with file := some path }))) ∧
      ∀ content : ByteArray,
        (∃ line ∈ Text.byteLines content.data.toList, ¬ line.toByteArray.IsValidUTF8) →
          ∀ arguments given, Request.ofArguments arguments = .ok (.report given) →
            given.patterns = [] → surroundings.source given.file = .contents content →
              (run arguments surroundings).exitCode = 1 ∧
                (run arguments surroundings).output = "" := by
  refine ⟨fun patterns content hcontent htexts => ?_, ?_⟩
  · have hread : Arguments.patternsOfBytes? content.toUTF8 = some patterns := by
      rw [Arguments.patternsOfBytes?_toUTF8, hcontent.lines_eq (by simpa using htexts),
        List.map_map]
      simp
    refine ⟨hread, fun hpatterns options given hselects => ⟨?_, ?_, ?_⟩⟩
    · have hrequest : Request.ofArguments options = .ok (.report { given with file := none }) := by
        rw [hselects.ofArguments_eq, ← hselects.file_eq]
      exact hselects.run_source_eq hrequest rfl rfl hread hpatterns
    · intro path hfile arguments hrequest
      exact hselects.run_source_eq hrequest rfl hfile hread hpatterns
    · exact fun path hpath hvalue => hselects.ofArguments_file hpath hvalue
  · intro content hinvalid arguments given hrequest hgiven hsource
    obtain ⟨failure, hrun⟩ := run_of_invalid_line hrequest hgiven hsource hinvalid
    rw [hrun]
    exact ⟨rfl, rfl⟩

/-- Lines with both endings and one with none, of which one is empty, and a byte that starts no
    character behind a line that is a text. -/
theorem run_sources_mixed_endings : ∃ surroundings : Surroundings,
    surroundings.file "p.txt" = .contents "a|b\r\n\n(c".toUTF8 ∧
      surroundings.file "q.txt" = .contents ⟨#[97, 10, 255]⟩ ∧
      Arguments.patternsOfBytes? "a|b\r\n\n(c".toUTF8 = some ["a|b", "", "(c"] ∧
      run ["-t"] { surroundings with input := "a|b\r\n\n(c".toUTF8 } =
        run ["-t", "--", "a|b", "", "(c"] surroundings ∧
      run ["-fp.txt", "-t"] surroundings = run ["-t", "--", "a|b", "", "(c"] surroundings ∧
      (run ["--file=q.txt"] surroundings).exitCode = 1 ∧
        (run ["--file=q.txt"] surroundings).output = "" := by
  let folder : Folder :=
    .ofFiles [("p.txt", "a|b\r\n\n(c".toUTF8), ("q.txt", ⟨#[97, 10, 255]⟩)]
  let surroundings := Surroundings.inFolder folder .empty
  have hfound : surroundings.file "p.txt" = .contents "a|b\r\n\n(c".toUTF8 ∧
      surroundings.file "q.txt" = .contents ⟨#[97, 10, 255]⟩ :=
    ⟨rfl, rfl⟩
  obtain ⟨hsources, hinvalid⟩ := run_sources surroundings
  have hselects : Selects ["-t"] { tree := true } := ⟨by decide, by decide +kernel, rfl, rfl⟩
  have hcontent : Text.OnLines (["a|b", "", "(c"].map String.toList) "a|b\r\n\n(c".toList :=
    .cons (.inr rfl) (.cons (.inl rfl) (.last (List.cons_ne_nil _ _)))
  obtain ⟨hread, hruns⟩ := hsources _ _ hcontent (by simp)
  obtain ⟨hinput, hfile, -⟩ := hruns (List.cons_ne_nil _ _) _ _ hselects
  have hline : [255] ∈ Text.byteLines [97, 10, 255] := by decide
  have hbyte : ¬ ([255] : List UInt8).toByteArray.IsValidUTF8 := by decide
  refine ⟨surroundings, hfound.1, hfound.2, hread, hinput,
    hfile "p.txt" hfound.1 _ (by decide +kernel), ?_⟩
  exact hinvalid _ ⟨_, hline, hbyte⟩ _ { file := some "q.txt" } (by decide +kernel) rfl hfound.2

end PatternTree.CommandLine
