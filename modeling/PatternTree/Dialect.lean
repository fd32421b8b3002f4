namespace PatternTree

/-- How the inside of a bracket expression is read. -/
inductive ClassSyntax where
  /-- A backslash stands for itself. -/
  | posix
  /-- A backslash starts an escape. -/
  | pcre
  deriving DecidableEq, Repr

/-- The word for a class syntax in settings. -/
def ClassSyntax.name : ClassSyntax → String
  | posix => "posix"
  | pcre => "pcre"

/-- The class syntax with a name. Upper-case letters are not taken for lower-case ones. -/
def ClassSyntax.ofName? : String → Option ClassSyntax
  | "posix" => some .posix
  | "pcre" => some .pcre
  | _ => none

@[simp] theorem ClassSyntax.ofName?_name (classSyntax : ClassSyntax) :
    ofName? classSyntax.name = some classSyntax := by
  cases classSyntax <;> rfl

/-- The points in which patterns may be read differently. -/
structure Dialect where
  /-- Whether several groups may have one name. -/
  allowDuplicateNames : Bool := false
  /-- How many groups may be open at once. -/
  maxDepth : Nat := 1000
  classSyntax : ClassSyntax := .pcre
  deriving DecidableEq, Repr

end PatternTree
