import PatternTree.Json.Finding
import PatternTree.Json.Printer
import PatternTree.Pattern.Outline
import PatternTree.Pattern.Parse

namespace PatternTree.CommandLine

/-- What is reported of one text: the error that keeps it from being a pattern, or the
    pattern. -/
structure Report where
  source : String
  result : Except PatternError Pattern

namespace Report

/-- Reads a text as a pattern. -/
def of (dialect : Dialect) (source : String) : Report :=
  ⟨source, parse dialect source⟩

/-- Whether the text is a pattern with a sound tree. Findings of other kinds do not matter. -/
def isClean (report : Report) : Bool :=
  match report.result with
  | .error _ => false
  | .ok pattern => pattern.defects.isEmpty

/-- The report in lines for reading. -/
def lines (report : Report) : List String :=
  let source := Text.quoted report.source
  match report.result with
  | .error error => ["error " ++ source ++ ": " ++ error.describe]
  | .ok pattern =>
    let verdict := if pattern.defects.isEmpty then "ok    " else "bad   "
    let warnings := pattern.diagnostics.map fun diagnostic =>
      "  warning: " ++ diagnostic.describe
    let violations := pattern.defects.map fun defect => "  violation: " ++ defect.message
    (verdict ++ source) :: warnings ++ violations

/-- The report as an object. The members about an error are missing when there is none. -/
def toJson (report : Report) : Json :=
  let source := ("pattern", Json.ofText report.source)
  match report.result with
  | .error error =>
    .ofMembers
      [source, ("error", .ofText error.describe), ("offset", .ofNat error.offset),
        ("diagnostics", .array []), ("violations", .array [])]
  | .ok pattern =>
    .ofMembers
      [source, ("diagnostics", .array (pattern.diagnostics.map Diagnostic.toJson)),
        ("violations", .array (pattern.defects.map Defect.toJson))]

/-- The listing of the pattern, when there is one. -/
def outline (report : Report) : String :=
  match report.result with
  | .error _ => ""
  | .ok pattern => pattern.outline?.getD ""

end Report

/-- The forms of a report. -/
inductive Format where
  /-- Lines for reading. -/
  | text
  /-- Lines for reading, and before them the listing of the pattern. -/
  | tree
  /-- One line of JSON. -/
  | json
  deriving DecidableEq, Repr

/-- A report as text, of which every line ends with a line feed. -/
def Format.render (report : Report) : Format → String
  | text => String.join (report.lines.map (· ++ "\n"))
  | tree => report.outline ++ String.join (report.lines.map (· ++ "\n"))
  | json => report.toJson.compress ++ "\n"

end PatternTree.CommandLine
