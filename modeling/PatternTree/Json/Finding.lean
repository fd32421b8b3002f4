import PatternTree.Json
import PatternTree.Pattern.Defect

namespace PatternTree

/-- A span as an object of its two ends. -/
def Span.toJson (span : Span) : Json :=
  .ofMembers [("start", .ofNat span.start), ("end", .ofNat span.stop)]

/-- A finding as an object. -/
def Diagnostic.toJson (diagnostic : Diagnostic) : Json :=
  .ofMembers
    [("kind", .ofText kindName), ("span", diagnostic.span.toJson),
      ("message", .ofText diagnostic.message)]

/-- A defect as an object whose first member tells its kind. -/
def Defect.toJson (defect : Defect) : Json :=
  let kind := ("kind", Json.ofText defect.kindName)
  match defect with
  | nonUniqueChild parent index child =>
    .ofMembers
      [kind, ("parent", .ofNat parent), ("index", .ofNat index), ("child", .ofNat child)]
  | cyclic node => .ofMembers [kind, ("term", .ofNat node)]
  | nonConsecutive parent index =>
    .ofMembers [kind, ("parent", .ofNat parent), ("index", .ofNat index)]

end PatternTree
