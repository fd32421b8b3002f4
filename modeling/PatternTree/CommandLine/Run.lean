import PatternTree.CommandLine.Arguments
import PatternTree.CommandLine.Folder
import PatternTree.CommandLine.Report
import PatternTree.Text.Lines

namespace PatternTree.CommandLine

/-- All that a run reads besides its arguments. -/
structure Surroundings where
  file : String → FileState
  input : ByteArray

/-- What a run finds in a folder that holds nothing else, by the documented rules of the system for
    paths. Two names mean the same in every folder: that of the empty file and that of the standard
    input. -/
def Surroundings.inFolder (folder : Folder) (input : ByteArray) : Surroundings where
  file path :=
    if path = "/dev/null" then .contents ByteArray.empty
    else if path = "/dev/stdin" then .contents input
    else folder.fileState path
  input

/-- Why a run stops before its first report. -/
inductive Failure where
  | dialectUnread (path : String)
  /-- A dialect file with something else than settings in it. -/
  | dialectUnknown (path : String)
  | patternsUnopened (path : String)
  | patternsUnread (path : String)
  /-- Patterns on the standard input that are no text. -/
  | inputUnread
  deriving DecidableEq, Repr

/-- What was going on when a run stopped. -/
def Failure.message : Failure → String
  | dialectUnread path => "reading dialect file " ++ path
  | dialectUnknown path => "parsing dialect file " ++ path
  | patternsUnopened path => "opening pattern file " ++ path
  | patternsUnread path => "reading patterns from " ++ path
  | inputUnread => "reading patterns from stdin"

/-- How a run ends. -/
inductive Outcome where
  /-- The command line asks for nothing. -/
  | misused (error : UsageError)
  /-- A text about the program. -/
  | shown (text : String)
  | failed (failure : Failure)
  /-- The reports of all patterns, and whether all of them are clean. -/
  | reported (text : String) (clean : Bool)

namespace Outcome

/-- Zero for a run without complaints, two for a command line that asks for nothing, and one
    for everything else. -/
def exitCode : Outcome → Nat
  | misused _ => 2
  | shown _ => 0
  | failed _ => 1
  | reported _ clean => if clean then 0 else 1

/-- What goes to the standard output. -/
def output : Outcome → String
  | shown text => text
  | reported text _ => text
  | misused _ | failed _ => ""

/-- What goes to the standard error output. -/
def complaint : Outcome → String
  | misused error => "error: " ++ error.message ++ "\n"
  | failed failure => "Error: " ++ failure.message ++ "\n"
  | shown _ | reported .. => ""

end Outcome

/-- What `--version` prints. -/
def versionText : String :=
  "regex-tree 0.1.0\n"

/-- What `--help` prints. The library for options makes a text of its own out of the options and
    what is said of each, which is not copied here: only that there is one, and the exit code, are
    the same. -/
def helpText : String :=
  String.join
    ["Parse regular expressions and check their parse trees\n\n",
      "Usage: regex-tree [OPTIONS] [PATTERNS]...\n\n",
      "Without patterns they are read from --file or the standard input, one on each line.\n\n",
      "  -f, --file <FILE>          Read patterns from a file\n",
      "      --dialect <FILE>       Read the dialect from a file of JSON\n",
      "      --allow-duplicate-names\n",
      "                             Let several groups share one name\n",
      "      --max-depth <DEPTH>    Deepest nesting of groups\n",
      "      --class-syntax <NAME>  How bracket expressions are read: pcre or posix\n",
      "  -t, --tree                 Print the tree of every pattern\n",
      "      --json                 Print one line of JSON for every pattern\n",
      "  -v, --verbose              Accepted and without effect\n",
      "  -h, --help                 Print this text\n",
      "  -V, --version              Print the version\n"]

namespace Arguments

/-- The form of the reports that the arguments ask for. -/
def format (arguments : Arguments) : Format :=
  if arguments.json then .json else if arguments.tree then .tree else .text

/-- The dialect of a run: that of the dialect file or the usual one, changed by the
    arguments. -/
def dialectIn (surroundings : Surroundings) (arguments : Arguments) : Except Failure Dialect :=
  match arguments.dialect with
  | none => .ok (arguments.settings.applyTo {})
  | some path =>
    match surroundings.file path with
    | .missing | .unreadable => .error (.dialectUnread path)
    | .contents bytes =>
      match String.fromUTF8? bytes with
      | none => .error (.dialectUnread path)
      | some text =>
        match Dialect.parse? text with
        | none => .error (.dialectUnknown path)
        | some dialect => .ok (arguments.settings.applyTo dialect)

/-- The patterns in a text, one on each line. An empty line is the empty pattern. -/
def patternsOfBytes? (bytes : ByteArray) : Option (List String) :=
  (String.fromUTF8? bytes).map fun text => (Text.lines text.toList).map String.ofList

/-- The patterns of a run: the arguments, or the lines of the pattern file, or else those of
    the standard input. -/
def patternsIn (surroundings : Surroundings) (arguments : Arguments) :
    Except Failure (List String) :=
  if arguments.patterns.isEmpty then
    match arguments.file with
    | none =>
      match patternsOfBytes? surroundings.input with
      | none => .error .inputUnread
      | some patterns => .ok patterns
    | some path =>
      match surroundings.file path with
      | .missing => .error (.patternsUnopened path)
      | .unreadable => .error (.patternsUnread path)
      | .contents bytes =>
        match patternsOfBytes? bytes with
        | none => .error (.patternsUnread path)
        | some patterns => .ok patterns
  else .ok arguments.patterns

/-- Reports on all patterns of a run. The dialect is settled before the patterns are read, and
    all of them before the first is reported. -/
def outcomeIn (surroundings : Surroundings) (arguments : Arguments) : Outcome :=
  match arguments.dialectIn surroundings with
  | .error failure => .failed failure
  | .ok dialect =>
    match arguments.patternsIn surroundings with
    | .error failure => .failed failure
    | .ok patterns =>
      let reports := patterns.map (Report.of dialect)
      .reported (String.join (reports.map arguments.format.render)) (reports.all Report.isClean)

end Arguments

/-- Runs a command line. -/
def run (arguments : List String) (surroundings : Surroundings) : Outcome :=
  match Request.ofArguments arguments with
  | .error error => .misused error
  | .ok .help => .shown helpText
  | .ok .version => .shown versionText
  | .ok (.report arguments) => arguments.outcomeIn surroundings

end PatternTree.CommandLine
