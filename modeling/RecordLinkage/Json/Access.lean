import RecordLinkage.Json.Record

/-! Looking into a tree: members of an object by name and items of an array. -/

namespace RecordLinkage

namespace Json

def members : Json → List (String × Json)
  | object members => members.filterMap fun member =>
      (readText? member.1).map fun name => (name, member.2)
  | _ => []

def member? (json : Json) (name : String) : Option Json :=
  match json.members.find? fun member => member.1 = name with
  | some (_, null) => none
  | some (_, value) => some value
  | none => none

def items : Json → List Json
  | array items => items
  | _ => []

end Json

end RecordLinkage
