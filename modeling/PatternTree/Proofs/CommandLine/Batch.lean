import PatternTree.CommandLine.Run
import PatternTree.Proofs.CommandLine.Printed

namespace PatternTree.CommandLine

open Text (BreaksInQuotes lines_of_notMem mem_lines_flatMap_iff)

namespace Arguments

variable {arguments given : Arguments}

theorem map_next_ne_settled {changed : Except UsageError Arguments} {request : Request} :
    changed.map Progress.next ≠ .ok (.settled request) := by
  cases changed <;> nofun

theorem addOption_ne_settled_report (option : OptionName) :
    arguments.addOption option ≠ .ok (.settled (.report given)) := by
  unfold addOption
  split
  · nofun
  · nofun
  · split
    · nofun
    · exact map_next_ne_settled

theorem addLong_ne_settled_report (body : List Char) :
    arguments.addLong body ≠ .ok (.settled (.report given)) := by
  simp only [addLong]
  split
  · nofun
  · exact addOption_ne_settled_report _
  · exact map_next_ne_settled

theorem addShort_ne_settled_report (letters : List Char) :
    addShort letters arguments ≠ .ok (.settled (.report given)) := by
  fun_induction addShort letters arguments with
  | case1 => nofun
  | case2 => nofun
  | case3 => nofun
  | case4 => exact map_next_ne_settled
  | case5 => exact map_next_ne_settled
  | case6 _ _ _ _ _ _ _ _ ih => exact ih
  | case7 => exact addOption_ne_settled_report _

/-- Before the end of a command line, only help and the version are settled on. -/
theorem add_ne_settled_report (argument : String) :
    arguments.add argument ≠ .ok (.settled (.report given)) := by
  unfold add
  split
  · exact addLong_ne_settled_report _
  · exact addShort_ne_settled_report _
  · nofun

/-- A command line asks for reports exactly if it has patterns from one place and one format. -/
theorem request_eq_report_iff : arguments.request = .ok (.report given) ↔
    given = arguments ∧ (arguments.file = none ∨ arguments.patterns = []) ∧
      ¬ (arguments.tree ∧ arguments.json) := by
  unfold request
  split
  next hboth =>
    constructor
    · nofun
    · rintro ⟨-, hnone | hnil, -⟩ <;> simp_all
  next hboth =>
    split
    next hforms => simp_all
    next hforms =>
      have hsource : arguments.file = none ∨ arguments.patterns = [] := by
        cases hfile : arguments.file <;> simp_all
      simp only [Except.ok.injEq, Request.report.injEq]
      exact ⟨fun heq => ⟨heq.symm, hsource, by simpa using hforms⟩, fun heq => heq.1.symm⟩

/-- A command line that asks for reports does not contradict itself. -/
theorem request_of_addAll {start : Arguments} {options : List String}
    (hrun : start.addAll options = .ok (.report given)) : given.request = .ok (.report given) := by
  fun_induction addAll start options with
  | case1 | case2 =>
    obtain ⟨rfl, -⟩ := request_eq_report_iff.mp hrun
    exact hrun
  | case3 | case6 | case7 | case8 => cases hrun
  | case4 arguments argument rest _ request hadd =>
    cases hrun
    exact absurd hadd (add_ne_settled_report argument)
  | case5 _ _ _ _ _ _ ih => exact ih hrun
  | case9 _ _ _ _ _ _ _ _ _ _ _ ih => exact ih hrun

/-- A command line that is complete is gone on with by what stands behind it. -/
theorem addAll_append_eq {start : Arguments} {options : List String} (hoptions : "--" ∉ options)
    (hrun : start.addAll options = .ok (.report given)) (more : List String) :
    start.addAll (options ++ more) = given.addAll more := by
  have hothers : ∀ {argument : String} {rest : List String}, "--" ∉ argument :: rest →
      "--" ∉ rest := fun hmem htail => hmem (List.mem_cons_of_mem _ htail)
  -- an option takes its value from the arguments in front, so both runs take in the same
  fun_induction addAll start options with
  | case1 arguments =>
    obtain ⟨rfl, -⟩ := request_eq_report_iff.mp hrun
    rw [List.nil_append]
  | case2 => exact absurd List.mem_cons_self hoptions
  | case3 | case6 | case7 | case8 => cases hrun
  | case4 arguments argument rest _ request hadd =>
    cases hrun
    exact absurd hadd (add_ne_settled_report argument)
  | case5 arguments argument rest hargument arguments' hadd ih =>
    rw [List.cons_append, addAll, hadd]
    · exact ih (hothers hoptions) hrun
    · exact hargument
  | case9 arguments argument hargument option awaiting hadd value rest hvalue arguments' hset ih =>
    rw [List.cons_append, List.cons_append, addAll, hadd]
    · simp only [hvalue, hset]
      exact ih (hothers (hothers hoptions)) hrun
    · exact hargument

/-- Two dashes alone add what stands behind them to the patterns of a command line that is
    complete without it. -/
theorem addAll_append {start : Arguments} {options : List String} (hoptions : "--" ∉ options)
    (hrun : start.addAll options = .ok (.report given)) (patterns : List String) :
    start.addAll (options ++ "--" :: patterns) =
      { given with patterns := given.patterns ++ patterns }.request := by
  rw [addAll_append_eq hoptions hrun, addAll]

end Arguments

/-- Options that ask for reports on the patterns behind two dashes. -/
structure Selects (options : List String) (given : Arguments) : Prop where
  notMem : "--" ∉ options
  ofArguments_eq : Request.ofArguments options = .ok (.report given)
  patterns_eq : given.patterns = []
  file_eq : given.file = none

/-- Reports on texts, one behind the other. -/
def Format.renderAll (dialect : Dialect) (sources : List String) (format : Format) : String :=
  String.join (sources.map fun source => format.render (.of dialect source))

theorem Format.mem_lines_renderAll_iff {dialect : Dialect} {sources : List String}
    {format : Format} {line : List Char} :
    line ∈ Text.lines (format.renderAll dialect sources).toList ↔
      ∃ source ∈ sources, ∃ text ∈ (Report.of dialect source).printed format,
        line ∈ Text.lines (text.toList ++ ['\n']) := by
  have htexts : (format.renderAll dialect sources).toList =
      (sources.flatMap fun source =>
        ((Report.of dialect source).printed format).map String.toList).flatMap (· ++ ['\n']) := by
    rw [renderAll, String.toList_join, List.flatMap_map, List.flatMap_assoc]
    simp only [Report.toList_render]
  rw [htexts, mem_lines_flatMap_iff]
  simp [and_assoc]

/-- What a text does not say in its first line, none of its lines says. -/
theorem not_reportsDefect_of_breaksInQuotes {text line : List Char} (hbreaks : BreaksInQuotes text)
    (htext : ¬ ReportsDefect text) (hline : line ∈ Text.lines (text ++ ['\n'])) :
    ¬ ReportsDefect line := by
  intro hdefect
  obtain hprefix | hhead := hbreaks.prefix_or_head? hline
  · exact htext (hdefect.imp (·.trans hprefix) (·.trans hprefix))
  · obtain ⟨rest, rfl⟩ := List.head?_eq_some_iff.mp hhead
    simp [ReportsDefect] at hdefect

theorem not_reportsDefect_versionText :
    ∀ line ∈ Text.lines versionText.toList, ¬ ReportsDefect line := by
  decide +kernel

theorem not_reportsDefect_helpText :
    ∀ line ∈ Text.lines helpText.toList, ¬ ReportsDefect line := by
  rw [helpText, String.toList_join]
  simp only [List.flatMap_cons, List.flatMap_nil, ReportsDefect]
  -- the characters of a literal are written out, for it takes long to decode its bytes
  repeat rw [String.toList_ofList]
  decide +kernel

section Run

variable {surroundings : Surroundings} {options : List String} {given : Arguments}
  {dialect : Dialect}

/-- A run fails or reports on all patterns that it finds. -/
theorem output_outcomeIn (surroundings : Surroundings) (given : Arguments) :
    ∃ dialect sources, (given.outcomeIn surroundings).output =
      given.format.renderAll dialect sources := by
  unfold Arguments.outcomeIn
  split
  · exact ⟨{}, [], rfl⟩
  next dialect _ =>
    split
    · exact ⟨{}, [], rfl⟩
    next sources _ => exact ⟨dialect, sources, by rw [Outcome.output, List.map_map]; rfl⟩

/-- Behind two dashes there are the patterns, which are all there are. -/
theorem Selects.ofArguments_patterns (hselects : Selects options given) (patterns : List String) :
    Request.ofArguments (options ++ "--" :: patterns) = .ok (.report { given with patterns }) := by
  rw [Request.ofArguments, Arguments.addAll_append hselects.notMem hselects.ofArguments_eq,
    hselects.patterns_eq, List.nil_append, Arguments.request_eq_report_iff]
  have hgiven := Arguments.request_of_addAll hselects.ofArguments_eq
  exact ⟨rfl, .inl hselects.file_eq, (Arguments.request_eq_report_iff.mp hgiven).2.2⟩

theorem Arguments.patternsIn_of_ne_nil (surroundings : Surroundings) (given : Arguments)
    {patterns : List String} (hpatterns : patterns ≠ []) :
    patternsIn surroundings { given with patterns } = .ok patterns := by
  rw [patternsIn, if_neg (by simpa using hpatterns)]

/-- A batch is reported pattern by pattern. -/
theorem Selects.run_eq (hselects : Selects options given)
    (hdialect : given.dialectIn surroundings = .ok dialect) {patterns : List String}
    (hpatterns : patterns ≠ []) :
    run (options ++ "--" :: patterns) surroundings =
      .reported (given.format.renderAll dialect patterns)
        (patterns.all fun source => (Report.of dialect source).isClean) := by
  have hrequest := hselects.ofArguments_patterns patterns
  have hin : Arguments.dialectIn surroundings { given with patterns } = .ok dialect := hdialect
  have hread := Arguments.patternsIn_of_ne_nil surroundings given hpatterns
  simp only [run, hrequest, Arguments.outcomeIn, hin, hread, List.map_map, List.all_map]
  rfl

/-- The texts that a run prints say of no tree that it has defects. -/
theorem not_reportsDefect_of_mem_lines {arguments : List String} {line : List Char}
    (hline : line ∈ Text.lines (run arguments surroundings).output.toList) :
    ¬ ReportsDefect line := by
  unfold run at hline
  split at hline
  · cases hline
  · rw [Outcome.output] at hline
    exact not_reportsDefect_helpText line hline
  · rw [Outcome.output] at hline
    exact not_reportsDefect_versionText line hline
  next given _ =>
    obtain ⟨dialect, sources, houtput⟩ := output_outcomeIn surroundings given
    rw [houtput, Format.mem_lines_renderAll_iff] at hline
    obtain ⟨source, -, text, htext, hline⟩ := hline
    obtain ⟨hbreaks, hdefect⟩ := Report.printed_of dialect source _ text htext
    exact not_reportsDefect_of_breaksInQuotes hbreaks hdefect hline

theorem suffix_of_mem_lines {arguments : List String}
    (hrequest : Request.ofArguments arguments = .ok (.report given)) (hjson : given.json)
    {line : List Char} (hline : line ∈ Text.lines (run arguments surroundings).output.toList) :
    "\"violations\":[]\x7d".toList <:+ line := by
  obtain ⟨dialect, sources, houtput⟩ := output_outcomeIn surroundings given
  have hformat : given.format = .json := by rw [Arguments.format, if_pos hjson]
  rw [run, hrequest, houtput, hformat, Format.mem_lines_renderAll_iff] at hline
  obtain ⟨source, -, text, htext, hline⟩ := hline
  obtain ⟨hnewline, -, hsuffix⟩ := Report.toJson_of dialect source
  obtain ⟨front, hfront⟩ := hsuffix
  have hlast : (Report.of dialect source).toJson.chars.getLast? ≠ some '\r' := by
    simp [← hfront]
  rw [Report.printed, List.mem_singleton] at htext
  rw [htext, Json.compress, String.toList_ofList, lines_of_notMem hnewline, if_neg hlast,
    List.mem_singleton] at hline
  exact ⟨front, hfront.trans hline.symm⟩

end Run

/-- A batch of patterns behind two dashes is the runs on each of them, which print its report, and
    it succeeds exactly if all of them are patterns of the dialect. Whatever a run reports on, no
    line says of a tree that it has defects, and every line of JSON ends with an empty array of
    them. -/
theorem run_batch (surroundings : Surroundings) :
    (∀ options given dialect, ∀ patterns : List String, Selects options given →
      given.dialectIn surroundings = .ok dialect → patterns ≠ [] →
        (run (options ++ "--" :: patterns) surroundings).output =
            String.join (patterns.map fun source =>
              (run (options ++ ["--", source]) surroundings).output) ∧
          (∀ source, (run (options ++ ["--", source]) surroundings).output =
            given.format.render (.of dialect source)) ∧
          ((run (options ++ "--" :: patterns) surroundings).exitCode = 0 ↔
            ∀ source ∈ patterns, ∃ pattern, parse dialect source = .ok pattern)) ∧
      (∀ arguments, ∀ line ∈ Text.lines (run arguments surroundings).output.toList,
        ¬ ReportsDefect line) ∧
      ∀ arguments given, Request.ofArguments arguments = .ok (.report given) → given.json →
        ∀ line ∈ Text.lines (run arguments surroundings).output.toList,
          "\"violations\":[]\x7d".toList <:+ line := by
  refine ⟨?_, fun _ _ => not_reportsDefect_of_mem_lines, fun _ _ hrequest hjson _ =>
    suffix_of_mem_lines hrequest hjson⟩
  intro options given dialect patterns hselects hdialect hpatterns
  have hsingle : ∀ source, (run (options ++ ["--", source]) surroundings).output =
      given.format.render (.of dialect source) := by
    intro source
    rw [hselects.run_eq hdialect (List.cons_ne_nil source []), Outcome.output]
    simp [Format.renderAll]
  rw [hselects.run_eq hdialect hpatterns]
  refine ⟨?_, hsingle, ?_⟩
  · simp only [hsingle]
    rfl
  · rw [Outcome.exitCode]
    simp only [← Report.isClean_of_iff, ← List.all_eq_true]
    split <;> simp [*]

/-- A text that is no pattern fails a batch in JSON. -/
theorem run_batch_json : ∃ surroundings : Surroundings,
    Selects ["-v", "--json"] { json := true, verbose := true } ∧
      Arguments.dialectIn surroundings { json := true, verbose := true } = .ok {} ∧
        (run ["-v", "--json", "--", "a", "("] surroundings).output =
            String.join (["a", "("].map fun source =>
              (run ["-v", "--json", "--", source] surroundings).output) ∧
          (run ["-v", "--json", "--", "a", "("] surroundings).exitCode ≠ 0 ∧
            ∀ line ∈ Text.lines
                (run ["-v", "--json", "--", "a", "("] surroundings).output.toList,
              ¬ ReportsDefect line ∧ "\"violations\":[]\x7d".toList <:+ line := by
  obtain ⟨hbatch, hdefects, hjson⟩ := run_batch ⟨fun _ => .missing, .empty⟩
  have hselects : Selects ["-v", "--json"] { json := true, verbose := true } :=
    ⟨by decide, by decide +kernel, rfl, rfl⟩
  have hrequest : Request.ofArguments ["-v", "--json", "--", "a", "("] =
      .ok (.report { patterns := ["a", "("], json := true, verbose := true }) := by
    decide +kernel
  obtain ⟨houtput, -, hcode⟩ := hbatch _ _ {} ["a", "("] hselects rfl (by simp)
  refine ⟨_, hselects, rfl, houtput, ?_, fun line hline => ?_⟩
  · intro hzero
    obtain ⟨pattern, hparse⟩ := hcode.mp hzero "(" (by simp)
    have hopen : (parse {} "(").toOption = none := by decide +kernel
    rw [hparse] at hopen
    cases hopen
  · exact ⟨hdefects _ line hline, hjson _ _ hrequest rfl line hline⟩

end PatternTree.CommandLine
