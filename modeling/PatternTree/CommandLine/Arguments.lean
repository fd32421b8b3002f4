import PatternTree.Dialect.Json
import PatternTree.Text.Quoted

namespace PatternTree.CommandLine

/-- The options of the command line. -/
inductive OptionName where
  | file
  | dialect
  | allowDuplicateNames
  | maxDepth
  | classSyntax
  | tree
  | json
  | verbose
  | version
  | help
  deriving DecidableEq, Repr

namespace OptionName

/-- The name of an option after two dashes. -/
def long : OptionName → String
  | file => "file"
  | dialect => "dialect"
  | allowDuplicateNames => "allow-duplicate-names"
  | maxDepth => "max-depth"
  | classSyntax => "class-syntax"
  | tree => "tree"
  | json => "json"
  | verbose => "verbose"
  | version => "version"
  | help => "help"

/-- Every option once. -/
def all : List OptionName :=
  [file, dialect, allowDuplicateNames, maxDepth, classSyntax, tree, json, verbose, version, help]

/-- The option with a name after two dashes. Names are never shortened. -/
def ofLong? (name : String) : Option OptionName :=
  all.find? fun option => option.long == name

/-- The option with a letter after one dash. -/
def ofShort? : Char → Option OptionName
  | 'f' => some file
  | 't' => some tree
  | 'v' => some verbose
  | 'V' => some version
  | 'h' => some help
  | _ => none

/-- Whether an option comes with a value. The others are switches. -/
def takesValue : OptionName → Bool
  | file | dialect | maxDepth | classSyntax => true
  | _ => false

end OptionName

/-- Why a command line asks for nothing. -/
inductive UsageError where
  | unknownOption (argument : String)
  | missingValue (option : OptionName)
  | invalidValue (option : OptionName) (value : String)
  | repeated (option : OptionName)
  /-- A switch with a value. -/
  | unexpectedValue (option : OptionName)
  /-- Patterns both on the command line and in a file. -/
  | fileAndPatterns
  /-- Two formats for the reports. -/
  | treeAndJson
  deriving DecidableEq, Repr

/-- What is said of a command line that asks for nothing. The library for options words this in its
    own way, which is not copied here: only what is wrong, and the exit code, are the same. -/
def UsageError.message : UsageError → String
  | unknownOption argument => "unknown option " ++ argument
  | missingValue option => "--" ++ option.long ++ " needs a value"
  | invalidValue option value => "--" ++ option.long ++ " cannot be " ++ Text.quoted value
  | repeated option => "--" ++ option.long ++ " is given twice"
  | unexpectedValue option => "--" ++ option.long ++ " takes no value"
  | fileAndPatterns => "--file cannot be used with patterns"
  | treeAndJson => "--tree cannot be used with --json"

/-- What a command line sets. -/
structure Arguments where
  patterns : List String := []
  file : Option String := none
  dialect : Option String := none
  settings : Dialect.Settings := {}
  tree : Bool := false
  json : Bool := false
  verbose : Bool := false
  deriving DecidableEq, Repr

/-- What a command line asks for. -/
inductive Request where
  | help
  | version
  | report (arguments : Arguments)
  deriving DecidableEq, Repr

/-- A depth on the command line: decimal digits of a number of at most 64 bits, before which a
    plus may stand. -/
def depth? (value : String) : Option Nat :=
  let digits := match value.toList with
    | '+' :: digits => digits
    | digits => digits
  if !digits.isEmpty && digits.all Char.isDigit && Text.fits64 (Text.decimalValue digits) then
    some (Text.decimalValue digits)
  else none

namespace Arguments

/-- Gives an option its value. The name of a file is never empty. -/
def setValue (option : OptionName) (value : String) (arguments : Arguments) :
    Except UsageError Arguments :=
  match option with
  | .file =>
    if arguments.file.isSome then .error (.repeated option)
    else if value = "" then .error (.invalidValue option value)
    else .ok { arguments with file := some value }
  | .dialect =>
    if arguments.dialect.isSome then .error (.repeated option)
    else if value = "" then .error (.invalidValue option value)
    else .ok { arguments with dialect := some value }
  | .maxDepth =>
    if arguments.settings.maxDepth.isSome then .error (.repeated option)
    else match depth? value with
      | none => .error (.invalidValue option value)
      | some depth =>
        .ok { arguments with settings := { arguments.settings with maxDepth := some depth } }
  | .classSyntax =>
    if arguments.settings.classSyntax.isSome then .error (.repeated option)
    else match ClassSyntax.ofName? value with
      | none => .error (.invalidValue option value)
      | some classSyntax =>
        .ok { arguments with
          settings := { arguments.settings with classSyntax := some classSyntax } }
  | _ => .error (.unexpectedValue option)

/-- Turns a switch on. Each can be turned on once. -/
def setSwitch (option : OptionName) (arguments : Arguments) : Except UsageError Arguments :=
  match option with
  | .allowDuplicateNames =>
    if arguments.settings.allowDuplicateNames.isSome then .error (.repeated option)
    else .ok { arguments with
      settings := { arguments.settings with allowDuplicateNames := some true } }
  | .tree =>
    if arguments.tree then .error (.repeated option) else .ok { arguments with tree := true }
  | .json =>
    if arguments.json then .error (.repeated option) else .ok { arguments with json := true }
  | .verbose =>
    if arguments.verbose then .error (.repeated option)
    else .ok { arguments with verbose := true }
  | _ => .error (.missingValue option)

/-- What a complete command line asks for, which must not contradict itself. -/
def request (arguments : Arguments) : Except UsageError Request :=
  if arguments.file.isSome && !arguments.patterns.isEmpty then .error .fileAndPatterns
  else if arguments.tree && arguments.json then .error .treeAndJson
  else .ok (.report arguments)

/-- What has been made of one argument. -/
inductive Progress where
  /-- The next argument is an argument of its own. -/
  | next (arguments : Arguments)
  /-- The next argument is the value of an option. -/
  | awaiting (option : OptionName) (arguments : Arguments)
  /-- The request is settled, whatever follows. -/
  | settled (request : Request)

/-- Takes in an option without a value next to it. -/
def addOption (option : OptionName) (arguments : Arguments) : Except UsageError Progress :=
  match option with
  | .help => .ok (.settled .help)
  | .version => .ok (.settled .version)
  | option =>
    if option.takesValue then .ok (.awaiting option arguments)
    else (arguments.setSwitch option).map .next

/-- Takes in an argument that starts with two dashes, after them. What stands behind the first
    equals sign is a value. -/
def addLong (body : List Char) (arguments : Arguments) : Except UsageError Progress :=
  let name := String.ofList (body.takeWhile (· ≠ '='))
  match OptionName.ofLong? name, body.dropWhile (· ≠ '=') with
  | none, _ => .error (.unknownOption ("--" ++ name))
  | some option, [] => arguments.addOption option
  | some option, _ :: value => (arguments.setValue option (String.ofList value)).map .next

/-- Takes in an argument that starts with one dash, after it: letters of switches, and perhaps
    the letter of an option with its value, before which an equals sign may stand. -/
def addShort : List Char → Arguments → Except UsageError Progress
  | [], arguments => .ok (.next arguments)
  | letter :: rest, arguments =>
    match OptionName.ofShort? letter with
    | none => .error (.unknownOption ("-" ++ letter.toString))
    | some option =>
      if option.takesValue then
        match rest with
        | [] => .ok (.awaiting option arguments)
        | '=' :: value => (arguments.setValue option (String.ofList value)).map .next
        | value => (arguments.setValue option (String.ofList value)).map .next
      else
        match arguments.addOption option with
        | .ok (.next arguments) => addShort rest arguments
        | progress => progress

/-- Takes in one argument. A dash alone is a pattern, as is all that starts with no dash. -/
def add (argument : String) (arguments : Arguments) : Except UsageError Progress :=
  match argument.toList with
  | '-' :: '-' :: body => arguments.addLong body
  | '-' :: letter :: letters => addShort (letter :: letters) arguments
  | _ => .ok (.next { arguments with patterns := arguments.patterns ++ [argument] })

/-- An argument that cannot be the value of the option before it. -/
def isOption (argument : String) : Bool :=
  argument ≠ "-" && argument.toList.head? = some '-'

/-- Takes in arguments from left to right. Behind two dashes alone there are only patterns.
    The request is settled by the first option that asks for help or the version, unless
    something was wrong before it. -/
def addAll (arguments : Arguments) : List String → Except UsageError Request
  | [] => arguments.request
  | "--" :: rest => { arguments with patterns := arguments.patterns ++ rest }.request
  | argument :: rest =>
    match arguments.add argument with
    | .error error => .error error
    | .ok (.settled request) => .ok request
    | .ok (.next arguments) => arguments.addAll rest
    | .ok (.awaiting option arguments) =>
      match rest with
      | [] => .error (.missingValue option)
      | value :: rest =>
        if isOption value then .error (.missingValue option)
        else
          match arguments.setValue option value with
          | .error error => .error error
          | .ok arguments => arguments.addAll rest

end Arguments

/-- What the arguments of a command line ask for. The documented behaviour of a library for options
    is followed: how values are attached, what may stand behind two dashes, which options exclude
    each other and which of several errors is reported. -/
def Request.ofArguments (arguments : List String) : Except UsageError Request :=
  Arguments.addAll {} arguments

end PatternTree.CommandLine
