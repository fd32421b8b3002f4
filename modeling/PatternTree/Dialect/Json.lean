import PatternTree.Dialect
import PatternTree.Json.Printer
import PatternTree.Json.Reader

namespace PatternTree

/-- A class syntax in settings: its name, or an object whose only key is the name and whose
    value is null. -/
def ClassSyntax.ofJson? : Json → Option ClassSyntax
  | .string codes => (Json.text? codes).bind ofName?
  | .object [(codes, .null)] => (Json.text? codes).bind ofName?
  | _ => none

namespace Dialect

/-- A depth in settings: a literal without sign, fraction and exponent, of at most 64 bits. -/
def depthOfJson? : Json → Option Nat
  | .number literal =>
    if literal.all Char.isDigit && Text.fits64 (Text.decimalValue literal) then
      some (Text.decimalValue literal)
    else none
  | _ => none

/-- A setting that is on or off. -/
def switchOfJson? : Json → Option Bool
  | .bool value => some value
  | _ => none

/-- Sets that settings give, each at most once. -/
structure Settings where
  allowDuplicateNames : Option Bool := none
  maxDepth : Option Nat := none
  classSyntax : Option ClassSyntax := none
  deriving DecidableEq, Repr

namespace Settings

/-- The dialect with these settings, and those of `base` where there is none. -/
def applyTo (base : Dialect) (settings : Settings) : Dialect :=
  { allowDuplicateNames := settings.allowDuplicateNames.getD base.allowDuplicateNames
    maxDepth := settings.maxDepth.getD base.maxDepth
    classSyntax := settings.classSyntax.getD base.classSyntax }

/-- Takes in one member of the object of settings. Keys that are no setting's may stand for
    anything; a setting may occur once. -/
def addMember (settings : Settings) (member : List Nat × Json) : Option Settings :=
  (Json.text? member.1).bind fun key =>
    match key with
    | "allow_duplicate_group_names" =>
      if settings.allowDuplicateNames.isSome then none
      else (switchOfJson? member.2).map fun value =>
        { settings with allowDuplicateNames := some value }
    | "max_nesting_depth" =>
      if settings.maxDepth.isSome then none
      else (depthOfJson? member.2).map fun value => { settings with maxDepth := some value }
    | "class_syntax" =>
      if settings.classSyntax.isSome then none
      else (ClassSyntax.ofJson? member.2).map fun value =>
        { settings with classSyntax := some value }
    | _ => some settings

end Settings

/-- A dialect by its settings: an object of them, or an array of at most three, which come in
    the order of the fields. -/
def ofJson? : Json → Option Dialect
  | .object members => (members.foldlM Settings.addMember {}).map (Settings.applyTo {})
  | .array [] => some {}
  | .array [allow] => do
    let allow ← switchOfJson? allow
    return { allowDuplicateNames := allow }
  | .array [allow, depth] => do
    let allow ← switchOfJson? allow
    let depth ← depthOfJson? depth
    return { allowDuplicateNames := allow, maxDepth := depth }
  | .array [allow, depth, classSyntax] => do
    let allow ← switchOfJson? allow
    let depth ← depthOfJson? depth
    let classSyntax ← ClassSyntax.ofJson? classSyntax
    return ⟨allow, depth, classSyntax⟩
  | _ => none

/-- The dialect that a text of settings describes. -/
def parse? (text : String) : Option Dialect :=
  (Json.parse? text).bind ofJson?

/-- All settings of a dialect. -/
def toJson (dialect : Dialect) : Json :=
  .ofMembers
    [("allow_duplicate_group_names", .bool dialect.allowDuplicateNames),
      ("max_nesting_depth", .ofNat dialect.maxDepth),
      ("class_syntax", .ofText dialect.classSyntax.name)]

end Dialect

end PatternTree
